import EnvDiscovery.Discovery.Composite
import EnvDiscovery.Proofs.Cache

/-!
**Resolving an executable.**

An executable is resolved from the cache or by running it. Whatever the store holds, and whether or
not it can be read or written, the outcome is one of six: there is no file, the cache answers, or
the program is run and takes too long, fails, prints something else, or answers. Only the last one
writes, and only under the key of the executable.

Main definitions:
* `Resolver.Outcome` — the six outcomes, each with its result, its store and its calls;
* `Resolver.Faithful` — what a resolution with a cache owes to the files, the store and the program.

Main results:
* `Resolver.interpreter_outcome` — a resolution has one of the outcomes;
* `Composite.resolve_outcome` — the record of an executable rests on one resolution at most;
* `Resolver.resolution_is_faithful` — **only a timeout is an error**, and only an answer changes
  what is stored or known.
-/

namespace EnvDiscovery

open Resolution

/-- Whether a program took too long. -/
def ProcessFailure.isTimeout : ProcessFailure → Bool
  | timeout _ _ => true
  | _ => false

namespace Resolver

/-- The call that asks an executable about itself. -/
def call (r : Resolver) (executable : Path) : Call :=
  ⟨⟨executable, ["-c", Report.script]⟩, r.machine.timeout⟩

/-- The executable has to be run: it is a file, and the cache does not answer. -/
structure Live (r : Resolver) (store : Store) (executable : Path) : Prop where
  isFile : r.machine.fs.isFile executable = true
  miss : r.cached store executable = none

/-- The outcomes of a resolution. -/
inductive Outcome (r : Resolver) (store : Store) (executable : Path) :
    Traced (Stored (Except ProcessFailure (Option InterpreterInfo))) → Prop
  | noFile (hfile : r.machine.fs.isFile executable = false) :
  Outcome r store executable ⟨⟨.ok none, store⟩, []⟩
  | hit {info : InterpreterInfo} (hfile : r.machine.fs.isFile executable = true)
      (hhit : r.cached store executable = some info) : Outcome r store executable
        ⟨⟨.ok (some info), store⟩, []⟩
  | tooLong {f : ProcessFailure} (hlive : r.Live store executable)
      (hrun : r.machine.executor.run (r.call executable) = .error f) (hf : f.isTimeout = true) :
      Outcome r store executable ⟨⟨.error f, store⟩, [r.call executable]⟩
  | failed {f : ProcessFailure} (hlive : r.Live store executable)
      (hrun : r.machine.executor.run (r.call executable) = .error f) (hf : f.isTimeout = false) :
      Outcome r store executable ⟨⟨.ok none, store⟩, [r.call executable]⟩
  | unreadable {output : Output} (hlive : r.Live store executable)
      (hrun : r.machine.executor.run (r.call executable) = .ok output)
      (hreport : readReport executable output = none) :
      Outcome r store executable ⟨⟨.ok none, store⟩, [r.call executable]⟩
  | answered {output : Output} {info : InterpreterInfo} (hlive : r.Live store executable)
      (hrun : r.machine.executor.run (r.call executable) = .ok output)
      (hreport : readReport executable output = some info) :
      Outcome r store executable ⟨⟨.ok (some info), r.remember store executable info⟩,
        [r.call executable]⟩

theorem interpreter_of_live {r : Resolver} {store : Store} {executable : Path}
    (h : r.Live store executable) :
    r.interpreter store executable =
      (r.machine.executor.call (r.call executable)).bind fun answer =>
        match answer with
        | .error (.timeout command duration) => .pure ⟨.error (.timeout command duration), store⟩
        | .error _ => .pure ⟨.ok none, store⟩
        | .ok output =>
          match readReport executable output with
          | none => .pure ⟨.ok none, store⟩
          | some info => .pure ⟨.ok (some info), r.remember store executable info⟩ := by
  simp only [interpreter, h.isFile, h.miss]
  rfl

/-- **A resolution has one of the outcomes.** -/
theorem interpreter_outcome (r : Resolver) (store : Store) (executable : Path) :
    r.Outcome store executable (r.interpreter store executable) := by
  cases hfile : r.machine.fs.isFile executable with
  | false =>
      have heq : r.interpreter store executable = ⟨⟨.ok none, store⟩, []⟩ := by
        simp only [interpreter, hfile]
        rfl
      exact heq ▸ .noFile hfile
  | true =>
      cases hcached : r.cached store executable with
      | some info =>
          have heq : r.interpreter store executable = ⟨⟨.ok (some info), store⟩, []⟩ := by
            simp only [interpreter, hfile, hcached]
            rfl
          exact heq ▸ .hit hfile hcached
      | none =>
          have hlive : r.Live store executable := ⟨hfile, hcached⟩
          rw [interpreter_of_live hlive, Executor.call, Traced.bind]
          cases hrun : r.machine.executor.run (r.call executable) with
          | error f =>
              cases f with
              | timeout command duration => exact .tooLong hlive hrun rfl
              | executionFailed command exitCode stderr => exact .failed hlive hrun rfl
              | commandNotFound command suggestion => exact .failed hlive hrun rfl
              | spawnFailed command error => exact .failed hlive hrun rfl
              | outputCaptureFailed message command => exact .failed hlive hrun rfl
          | ok output =>
              cases hreport : readReport executable output with
              | none =>
                  simp only [hreport]
                  exact .unreadable hlive hrun hreport
              | some info =>
                  simp only [hreport]
                  exact .answered hlive hrun hreport

section Outcome

variable {r : Resolver} {store : Store} {executable : Path}
variable {out : Traced (Stored (Except ProcessFailure (Option InterpreterInfo)))}

/-- **Only a timeout is an error.** -/
theorem Outcome.error_iff (h : r.Outcome store executable out) (f : ProcessFailure) :
    out.value.result = .error f ↔
      r.Live store executable ∧ r.machine.executor.run (r.call executable) = .error f ∧
      f.isTimeout = true := by
  constructor
  · intro hresult
    cases h with
    | tooLong hlive hrun hf =>
        cases hresult
        exact ⟨hlive, hrun, hf⟩
    | noFile | hit | failed | unreadable | answered => cases hresult
  · rintro ⟨⟨hfile, hmiss⟩, hrun, hf⟩
    cases h <;> simp_all

/-- Nothing is written unless the program is run and answers. -/
theorem Outcome.store_eq (h : r.Outcome store executable out)
    (hkept : (∀ info, out.value.result ≠ .ok (some info)) ∨ ¬ r.Live store executable) :
    out.value.store = store := by
  cases h with
  | answered hlive hrun hreport =>
      rcases hkept with hnone | hdead
      · exact absurd rfl (hnone _)
      · exact absurd hlive hdead
  | noFile | hit | tooLong | failed | unreadable => rfl

theorem Outcome.calls_eq (h : r.Outcome store executable out) :
    r.Live store executable ∧ out.calls = [r.call executable] ∨ ¬ r.Live store executable ∧
    out.calls = [] := by
  cases h with
  | noFile hfile => exact .inr ⟨fun hlive => by simp [hlive.isFile] at hfile, rfl⟩
  | hit hfile hhit => exact .inr ⟨fun hlive => by simp [hlive.miss] at hhit, rfl⟩
  | tooLong hlive | failed hlive | unreadable hlive | answered hlive => exact .inl ⟨hlive, rfl⟩

/-- A program that fails in another way or prints something else says nothing. -/
theorem Outcome.result_none (h : r.Outcome store executable out)
    (hmiss : r.cached store executable = none)
    (hfail : (∃ f, r.machine.executor.run (r.call executable) = .error f ∧ f.isTimeout = false) ∨
      ∃ output, r.machine.executor.run (r.call executable) = .ok output ∧
      readReport executable output = none) :
    out.value.result = .ok none := by
  cases h with
  | noFile | failed | unreadable => rfl
  | hit hfile hhit => simp [hmiss] at hhit
  | tooLong hlive hrun hf =>
      rcases hfail with ⟨f, herror, hother⟩ | ⟨output, hok, -⟩ <;> simp_all
  | answered hlive hrun hreport =>
      rcases hfail with ⟨f, herror, -⟩ | ⟨output, hok, hnone⟩ <;> simp_all

/-- The cache answers for a file. -/
theorem Outcome.result_hit (h : r.Outcome store executable out) {info : InterpreterInfo}
    (hfile : r.machine.fs.isFile executable = true) (hhit : r.cached store executable = some info) :
    out.value.result = .ok (some info) := by
  cases h with
  | noFile hnone => simp [hfile] at hnone
  | hit _ hsame =>
      rw [hhit] at hsame
      cases hsame
      rfl
  | tooLong hlive | failed hlive | unreadable hlive | answered hlive => simp [hlive.miss] at hhit

end Outcome

/-- An answer is not remembered if the file cannot be identified or the store does not take it; else
it is left under the key of the executable, and everything else is left alone. -/
theorem remember_cases {r : Resolver} {c : Cache} (hc : r.cache = some c) (store : Store)
    (executable : Path) (info : InterpreterInfo) :
    (r.remember store executable info = store ∧
        (fileHash r.machine.fs executable = none ∨ store.writable = false)) ∨
      ∃ hash, fileHash r.machine.fs executable = some hash ∧
        Store.SameExcept (cacheKey executable) store (r.remember store executable info) ∧
        Cache.HasEntry (r.remember store executable info) (cacheKey executable)
        ⟨hash, info⟩ r.now := by
  cases hhash : fileHash r.machine.fs executable with
  | none => exact .inl ⟨by simp [remember, hc, Cache.insert, hhash], .inl rfl⟩
  | some hash =>
      cases hwrite : store.writable with
      | false =>
          refine .inl ⟨?_, .inr rfl⟩
          simp [remember, hc, Cache.insert, hhash, Store.Scope.write, Store.update, hwrite]
      | true =>
          obtain ⟨after, hafter, hsame, hentry⟩ := Cache.insert_spec c hwrite hhash r.now info
          have hkeep : r.remember store executable info = after := by simp [remember, hc, hafter]
          rw [hkeep]
          exact .inr ⟨hash, rfl, hsame, hentry⟩

/-- **Remembering an answer** changes the store under the key of the executable only, and leaves the
answer there if the file can be identified and the store takes it. -/
theorem remember_spec {r : Resolver} {c : Cache} (hc : r.cache = some c) (store : Store)
    (executable : Path) (info : InterpreterInfo) :
    Store.SameExcept (cacheKey executable) store (r.remember store executable info) ∧
      ∀ hash, fileHash r.machine.fs executable = some hash → store.writable = true →
        Cache.HasEntry (r.remember store executable info) (cacheKey executable)
        ⟨hash, info⟩ r.now := by
  rcases remember_cases hc store executable info with ⟨hkeep, hnone | hwrite⟩ | ⟨hash, hhash,
    hsame, hentry⟩
  · rw [hkeep]
    exact ⟨.refl _ _, by simp [hnone]⟩
  · rw [hkeep]
    exact ⟨.refl _ _, by simp [hwrite]⟩
  · refine ⟨hsame, fun other hother _ => ?_⟩
    obtain rfl : hash = other := Option.some.inj (hhash.symm.trans hother)
    exact hentry

/-- What a resolution with a cache owes to the files, the store and the program. -/
structure Faithful (r : Resolver) (c : Cache) (store : Store) (executable : Path) : Prop where
  /-- Only a timeout is an error. -/
  error_iff : ∀ f, (r.interpreter store executable).value.result = .error f ↔
    r.machine.fs.isFile executable = true ∧ c.get r.machine.fs store r.now executable = none ∧
      r.machine.executor.run (r.call executable) = .error f ∧ f.isTimeout = true
  /-- Any other failure gives nothing, and so does an output that is no report. -/
  none_of_failure : c.get r.machine.fs store r.now executable = none →
    ((∃ f, r.machine.executor.run (r.call executable) = .error f ∧ f.isTimeout = false) ∨
      ∃ output, r.machine.executor.run (r.call executable) = .ok output ∧
        readReport executable output = none) →
    (r.interpreter store executable).value.result = .ok none
  /-- A file that the cache answers for is not run. -/
  hit : ∀ info, r.machine.fs.isFile executable = true →
    c.get r.machine.fs store r.now executable = some info →
    (r.interpreter store executable).value.result = .ok (some info) ∧
      (r.interpreter store executable).value.store = store
  /-- Without a result the store is as before. -/
  store_eq : (∀ info, (r.interpreter store executable).value.result ≠ .ok (some info)) →
    (r.interpreter store executable).value.store = store
  /-- A result of the program changes the store under one key, where it is kept if that is
  possible. -/
  kept : ∀ info, c.get r.machine.fs store r.now executable = none →
    (r.interpreter store executable).value.result = .ok (some info) →
    Store.SameExcept (cacheKey executable) store (r.interpreter store executable).value.store ∧
      ∀ hash, fileHash r.machine.fs executable = some hash → store.writable = true →
        Cache.HasEntry (r.interpreter store executable).value.store (cacheKey executable)
          ⟨hash, info⟩ r.now
  /-- The program is run at most once, and not for a hit or for something that is no file. -/
  calls : (r.interpreter store executable).calls =
    if r.machine.fs.isFile executable ∧ c.get r.machine.fs store r.now executable =
      none then [r.call executable]
    else []

theorem cached_eq_get {r : Resolver} {c : Cache} (hc : r.cache = some c) (store : Store)
    (executable : Path) :
    r.cached store executable = c.get r.machine.fs store r.now executable := by
  simp [cached, hc]

/-- **A resolution with a cache is faithful**, whatever the store holds. -/
theorem faithful {r : Resolver} {c : Cache} (hc : r.cache = some c) (store : Store)
    (executable : Path) :
    r.Faithful c store executable := by
  have h := r.interpreter_outcome store executable
  have hlive : r.Live store executable ↔
      r.machine.fs.isFile executable = true ∧ c.get r.machine.fs store r.now executable = none := by
    rw [← cached_eq_get hc]
    exact ⟨fun hl => ⟨hl.isFile, hl.miss⟩, fun hl => ⟨hl.1, hl.2⟩⟩
  constructor
  case error_iff => exact fun f => by rw [h.error_iff, hlive, and_assoc]
  case none_of_failure =>
    intro hmiss hfail
    exact h.result_none ((cached_eq_get hc store executable).trans hmiss) hfail
  case hit =>
    intro info hfile hhit
    rw [← cached_eq_get hc] at hhit
    exact ⟨h.result_hit hfile hhit, h.store_eq (.inr fun hl => by simp [hl.miss] at hhit)⟩
  case store_eq => exact fun hnone => h.store_eq (.inl hnone)
  case kept =>
    intro info hmiss hresult
    rw [← cached_eq_get hc] at hmiss
    -- of the two outcomes with a result, the hit is excluded
    generalize r.interpreter store executable = out at h hresult ⊢
    cases h with
    | answered _ _ _ =>
        cases hresult
        exact remember_spec hc store executable info
    | hit _ hhit => simp [hmiss] at hhit
    | noFile | tooLong | failed | unreadable => cases hresult
  case calls =>
    rcases h.calls_eq with ⟨hl, hcalls⟩ | ⟨hl, hcalls⟩
    · rw [hcalls, if_pos (hlive.1 hl)]
    · rw [hcalls, if_neg (mt hlive.2 hl)]

/-- The completion of a record fails as the resolution of its executable does. -/
theorem record_result (r : Resolver) (store : Store) (e : EnvRecord) :
    (r.record store e).value.result =
      (r.interpreter store e.path).value.result.map
        (Option.map fun info => withTimes r.machine.fs (e.complete info)) := by
  simp only [record, bind, Traced.bind]
  generalize r.interpreter store e.path = out
  rcases out with ⟨⟨_ | _ | info, after⟩, calls⟩ <;> rfl

end Resolver

namespace Composite

/-- Unless a resolution gives a record, what is known stays, and an error is that of the candidate's
executable. -/
theorem resolve_outcome (r : Resolver) (sources : List Locator) (store : Store) (known : Known)
    (ref : EnvRef) :
    (∃ e, (resolve r sources store known ref).value.result = .ok (some e)) ∨
      (resolve r sources store known ref).value.known = known ∧
        ((resolve r sources store known ref).value.result = .ok none ∨
          ∃ f, (resolve r sources store known ref).value.result = .error f ∧
            (r.interpreter store (candidate r.machine.toSurroundings sources
              ref).path).value.result = .error f) := by
  cases hfile : r.machine.fs.isFile ref.executable with
  | false => exact .inr (by simp [resolve, hfile, pure, Traced.pure])
  | true =>
      cases hknown : (known.get? ref.executable.key).filter (·.isResolved) with
      | some e => exact .inl ⟨e, by simp [resolve, hfile, hknown, pure, Traced.pure]⟩
      | none =>
          have hrecord := r.record_result store (candidate r.machine.toSurroundings sources ref)
          simp only [resolve, hfile, hknown, bind, Traced.bind]
          generalize r.record store (candidate r.machine.toSurroundings sources ref) =
            out at hrecord ⊢
          generalize (r.interpreter store _).value.result = result at hrecord ⊢
          rcases out with ⟨⟨f | _ | e, after⟩, calls⟩
          · -- the record failed because its interpreter did
            cases result with
            | error g =>
                obtain rfl : f = g := Except.error.inj hrecord
                exact .inr ⟨rfl, .inr ⟨f, rfl, rfl⟩⟩
            | ok o => cases hrecord
          · exact .inr ⟨rfl, .inl rfl⟩
          · exact .inl ⟨e, rfl⟩

end Composite

namespace Resolver

/-- **Resolutions with a cache.** Whatever the file system, the store and the answer of the program
are, resolving an executable is faithful to them. Resolving an environment, which rests on that,
fails for such a timeout only, and leaves what is known as it was unless it gives a record. -/
theorem resolution_is_faithful (r : Resolver) (c : Cache) (hc : r.cache = some c) (store : Store) :
    (∀ executable, r.Faithful c store executable) ∧
      ∀ sources known ref,
        (∀ f, (Composite.resolve r sources store known ref).value.result = .error f →
          let executable := (Composite.candidate r.machine.toSurroundings sources ref).path
          r.machine.fs.isFile executable = true ∧ c.get r.machine.fs store r.now executable = none ∧
            r.machine.executor.run (r.call executable) = .error f ∧ f.isTimeout = true) ∧
        ((∀ e, (Composite.resolve r sources store known ref).value.result ≠ .ok (some e)) →
          (Composite.resolve r sources store known ref).value.known = known) := by
  refine ⟨fun executable => faithful hc store executable, fun sources known ref => ?_⟩
  have h := Composite.resolve_outcome r sources store known ref
  constructor
  · intro f hf
    rcases h with ⟨e, he⟩ | ⟨-, hnone | ⟨g, hg, hinterpreter⟩⟩
    · cases hf.symm.trans he
    · cases hf.symm.trans hnone
    · cases hf.symm.trans hg
      exact ((faithful hc store _).error_iff f).1 hinterpreter
  · intro hnone
    rcases h with ⟨e, he⟩ | ⟨hknown, -⟩
    · exact absurd he (hnone e)
    · exact hknown

/-- A resolver with a cache on a machine with one interpreter, which gives the same answer to every
call. -/
def sole (answer : Except ProcessFailure Output) : Resolver :=
  ⟨⟨⟨Cache.oneFile ⟨"/usr/bin/python3"⟩ ⟨1700000000, 0⟩, ⟨none, []⟩⟩, ⟨fun _ => answer⟩,
    fun _ => none, defaultTimeout⟩, some ⟨defaultExpiry⟩, ⟨1700000001, 0⟩⟩

/-- With a store that cannot be read: a report is kept all the same, and a timeout leaves everything
alone. -/
theorem resolution_is_faithful_unreadable :
    let python : Path := ⟨"/usr/bin/python3"⟩
    let report :=
      ">>>JSON\x7b\"versionInfo\":[3,11],\"sysPrefix\":\"/usr\",\"sysVersion\":\"3\"," ++
      "\"is64Bit\":true,\"executable\":\"\"\x7d<<<JSON"
    let info : InterpreterInfo := ⟨python, ⟨"/usr"⟩, ⟨some 3, some 11, none, none, some "3"⟩, .x64⟩
    let store : Store := ⟨[("other", .text "[")], true, false, true⟩
    let talks := sole (.ok ⟨some 0, Text.bytes report, []⟩)
    let hangs := sole (.error (.timeout "python3" defaultTimeout))
    (talks.cache = some ⟨defaultExpiry⟩ ∧ (talks.interpreter store python).value.result =
      .ok (some info) ∧
      ∃ hash, Cache.HasEntry (talks.interpreter store python).value.store (cacheKey python)
        ⟨hash, info⟩
        talks.now) ∧
    (hangs.cache = some ⟨defaultExpiry⟩ ∧
      (hangs.interpreter store python).value.result = .error (.timeout "python3" defaultTimeout) ∧
      (hangs.interpreter store python).value.store = store ∧
      (Composite.resolve hangs [] store .empty (.path python)).value.known = .empty) := by
  intro python report info store talks hangs
  have htalks := resolution_is_faithful talks ⟨defaultExpiry⟩ rfl store
  have hhangs := resolution_is_faithful hangs ⟨defaultExpiry⟩ rfl store
  have hresult : (talks.interpreter store python).value.result = .ok (some info) := by
    decide +kernel
  have htimeout : (hangs.interpreter store python).value.result =
      .error (.timeout "python3" defaultTimeout) :=
    ((hhangs.1 python).error_iff _).2 ⟨by decide, rfl, rfl, rfl⟩
  refine ⟨⟨rfl, hresult, _, ((htalks.1 python).kept info rfl hresult).2 _ rfl rfl⟩, rfl,
    htimeout, ?_, ?_⟩
  · exact (hhangs.1 python).store_eq (by simp [htimeout])
  · have hfailed : (Composite.resolve hangs [] store .empty (.path python)).value.result =
        .error (.timeout "python3" defaultTimeout) := by decide +kernel
    exact (hhangs.2 [] .empty (.path python)).2 (by simp [hfailed])

end Resolver

end EnvDiscovery
