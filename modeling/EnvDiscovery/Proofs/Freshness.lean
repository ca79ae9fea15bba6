import EnvDiscovery.Proofs.KnownRecords

/-!
**How fresh an answer is.**

What an interpreter says of itself reaches an answer in three ways: it is run, the cache answers for
it, or its record is known already. The machine may change between any two requests. The cache
compares the identity of the file before it answers, and a run shows the file as it is. But what is
known and complete is given at once, and the file is not looked at again: such an answer is as fresh
as it was when it was learnt.

Main definitions:
* `Moment`, `Attested` — the moments of a history, and what interpreters said at them;
* `EnvRecord.Shows`, `Vouched` — a record shows what an interpreter said while its file was the one
  that is there now;
* `Moment.Teaches` — how a record was learnt;
* `History` — listings and resolutions with one cache, each on a machine of its own;
* `Session.Turn`, `Session.moments` — requests to a session with changes of its machine in between,
  and their moments.

Main results:
* `Resolver.interpreter_attested` — what a resolution gives and leaves in the store was said by an
  interpreter;
* `Composite.completeAll_vouched`, `Composite.resolve_vouched` — the same of listings and of
  resolutions;
* `History.sound` — what a store and a set of known records owe to the interpreters, after any
  history;
* `Composite.answers_are_as_fresh_as_learnt` — **answers are vouched for**, those that are known
  already as of the moment when they were learnt;
* `Composite.known_record_goes_stale` — an answer that is not as the file is now.
-/

namespace EnvDiscovery

open Resolution

/-! ### What interpreters said -/

/-- A moment at which a cache was used: with what, which records a listing had found, and which
programs were run. -/
structure Moment where
  resolver : Resolver
  found : List EnvRecord
  calls : List Call

/-- The identity of the file of an executable at a moment. -/
def Moment.fileHash (m : Moment) (executable : Path) : Option String :=
  Resolution.fileHash m.resolver.machine.fs executable

/-- The interpreter, if it is run now, says `info`. -/
def Resolver.Reports (r : Resolver) (executable : Path) (info : InterpreterInfo) : Prop :=
  ∃ output, r.machine.executor.run (r.call executable) = .ok output ∧
    readReport executable output = some info

/-- At one of the moments the interpreter was run and said `info`, while its file had the identity
`hash`. It was run by a path that the cache does not distinguish from `executable`. -/
def Attested (ms : List Moment) (executable : Path) (hash : Option String)
    (info : InterpreterInfo) : Prop :=
  ∃ m ∈ ms, ∃ p, cacheKey p = cacheKey executable ∧ m.resolver.call p ∈ m.calls ∧
    m.resolver.Reports p info ∧
    m.fileHash p = hash

/-- The record shows what an interpreter said; its version may also be one of which more was
known. -/
structure EnvRecord.Shows (e : EnvRecord) (info : InterpreterInfo) : Prop where
  arch : e.arch = info.arch
  sysPrefix : e.executable.sysPrefix = some info.sysPrefix
  version : e.version = info.version ∨ info.version.completeness < e.version.completeness

/-- The record shows what its interpreter said while its file had the identity that it has in
`fs`. -/
def Vouched (ms : List Moment) (fs : FileSystem) (e : EnvRecord) : Prop :=
  ∃ info, Attested ms e.path (fileHash fs e.path) info ∧ e.Shows info

/-- The record was learnt at the moment: it was found complete, or its interpreter vouched for
it. -/
def Moment.Teaches (ms : List Moment) (m : Moment) (e : EnvRecord) : Prop :=
  (e ∈ m.found ∧ e.isResolved = true) ∨ Vouched ms m.resolver.machine.fs e

/-- Whatever the cache answers was said by the interpreter, while its file had the identity that it
has then. -/
def Resolution.Cache.Sound (c : Cache) (ms : List Moment) (store : Store) : Prop :=
  ∀ fs now executable info, c.get fs store now executable = some info →
    Attested ms executable (fileHash fs executable) info

/-- One of the moments is that of the calls. -/
def Noted (ms : List Moment) (r : Resolver) (calls : List Call) : Prop :=
  ∃ m ∈ ms, m.resolver = r ∧ calls ⊆ m.calls

section Moments

variable {ms ms' : List Moment} {m : Moment} {fs : FileSystem} {e : EnvRecord} {executable : Path}
variable {hash : Option String} {info : InterpreterInfo} {r : Resolver} {calls : List Call}

theorem Attested.mono (h : Attested ms executable hash info) (hsub : ms ⊆ ms') :
    Attested ms' executable hash info := by
  obtain ⟨m, hm, hrest⟩ := h
  exact ⟨m, hsub hm, hrest⟩

theorem Attested.of_noted (hnoted : Noted ms r [r.call executable])
    (h : r.Reports executable info) :
    Attested ms executable (fileHash r.machine.fs executable) info := by
  obtain ⟨m, hm, rfl, hcalls⟩ := hnoted
  exact ⟨m, hm, executable, rfl, hcalls (List.mem_singleton_self _), h, rfl⟩

theorem Attested.congr {p : Path} (h : Attested ms executable hash info)
    (hkey : cacheKey executable = cacheKey p) :
    Attested ms p hash info := by
  obtain ⟨m, hm, q, hq, hrest⟩ := h
  exact ⟨m, hm, q, hq.trans hkey, hrest⟩

theorem Vouched.mono (h : Vouched ms fs e) (hsub : ms ⊆ ms') : Vouched ms' fs e := by
  obtain ⟨info, hattested, hshows⟩ := h
  exact ⟨info, hattested.mono hsub, hshows⟩

/-- A file that is still the same vouches for the same. -/
theorem Vouched.congr {fs' : FileSystem} (h : Vouched ms fs e)
    (hsame : fileHash fs' e.path = fileHash fs e.path) :
    Vouched ms fs' e := by
  obtain ⟨info, hattested, hshows⟩ := h
  exact ⟨info, hsame ▸ hattested, hshows⟩

theorem Moment.Teaches.mono (h : m.Teaches ms e) (hsub : ms ⊆ ms') : m.Teaches ms' e :=
  h.imp_right fun hvouched => hvouched.mono hsub

theorem Resolution.Cache.Sound.mono {c : Cache} {store : Store} (h : c.Sound ms store)
    (hsub : ms ⊆ ms') :
    c.Sound ms' store :=
  fun fs now executable info hget => (h fs now executable info hget).mono hsub

theorem Noted.of_subset {calls' : List Call} (h : Noted ms r calls) (hsub : calls' ⊆ calls) :
    Noted ms r calls' := by
  obtain ⟨m, hm, hr, hcalls⟩ := h
  exact ⟨m, hm, hr, fun call hcall => hcalls (hsub hcall)⟩

/-- The moment that was added last is one of them. -/
theorem noted_concat (ms : List Moment) (r : Resolver) (found : List EnvRecord)
    (calls : List Call) :
    Noted (ms ++ [⟨r, found, calls⟩]) r calls :=
  ⟨⟨r, found, calls⟩, by simp, rfl, fun _ hcall => hcall⟩

/-- On a coherent file system the identity of a file does not depend on the spelling of its path. -/
theorem fileHash_eq_of_key (hc : Coherent fs.realPath) {p q : Path} (h : p.key = q.key) :
    fileHash fs p = fileHash fs q := by
  rw [fileHash, fileHash, hc.of_key p q h]

/-- A record that is completed shows what its interpreter says. -/
theorem EnvRecord.shows_complete (fs : FileSystem) (e : EnvRecord) (info : InterpreterInfo) :
    (Resolver.withTimes fs (e.complete info)).Shows info := by
  have hversion : (e.complete info).version = info.version ∨
      info.version.completeness < (e.complete info).version.completeness := by
    by_cases h : info.version.completeness < e.version.completeness
    · exact .inr (by simp [EnvRecord.complete, Version.moreComplete, h])
    · exact .inl (by simp [EnvRecord.complete, Version.moreComplete, h])
  unfold Resolver.withTimes
  split <;> exact ⟨rfl, rfl, hversion⟩

end Moments

/-! ### One resolution -/

namespace Resolver

variable {c : Cache} {ms : List Moment} {r : Resolver} {store : Store} {executable : Path}
  {info : InterpreterInfo}

/-- What an interpreter said may be remembered. -/
theorem remember_sound (hc : r.cache = some c) (hstore : c.Sound ms store)
    (h : Attested ms executable (fileHash r.machine.fs executable) info) :
    c.Sound ms (r.remember store executable info) := by
  rcases remember_cases hc store executable info with ⟨hkeep, -⟩ | ⟨hash, hhash, hsame, hentry⟩
  · rwa [hkeep]
  · intro fs now p answer hget
    by_cases hkey : cacheKey p = cacheKey executable
    · -- the entry answers, so the file of `p` has the identity that was remembered
      rw [← hkey] at hentry
      obtain ⟨rfl, hp⟩ := Cache.eq_of_get_of_hasEntry hentry hget
      rw [hp, ← hhash]
      exact h.congr hkey.symm
    · rw [Cache.get_congr c hsame hkey] at hget
      exact hstore fs now p answer hget

/-- **A resolution**: what it gives was said while the file was as it is, and the store stays
sound. -/
theorem interpreter_attested (hc : r.cache = some c) (hstore : c.Sound ms store)
    (hnoted : Noted ms r (r.interpreter store executable).calls) :
    (∀ info, (r.interpreter store executable).value.result = .ok (some info) →
      Attested ms executable (fileHash r.machine.fs executable) info) ∧
        c.Sound ms (r.interpreter store executable).value.store := by
  have h := r.interpreter_outcome store executable
  generalize r.interpreter store executable = out at h hnoted ⊢
  cases h with
  | noFile | tooLong | failed | unreadable =>
      refine ⟨?_, hstore⟩
      intro info hresult
      cases hresult
  | hit hfile hhit =>
      refine ⟨?_, hstore⟩
      intro info hresult
      cases hresult
      rw [cached_eq_get hc] at hhit
      exact hstore _ _ _ _ hhit
  | answered hlive hrun hreport =>
      have hattested := Attested.of_noted hnoted ⟨_, hrun, hreport⟩
      refine ⟨?_, remember_sound hc hstore hattested⟩
      intro info hresult
      cases hresult
      exact hattested

/-- The completion of a record runs what the resolution of its executable runs, and stores what it
stores. -/
theorem record_run (r : Resolver) (store : Store) (e : EnvRecord) :
    (r.record store e).value.store = (r.interpreter store e.path).value.store ∧
      (r.record store e).calls = (r.interpreter store e.path).calls := by
  simp only [record, bind, Traced.bind]
  generalize r.interpreter store e.path = out
  rcases out with ⟨⟨_ | _ | info, after⟩, calls⟩ <;> exact ⟨rfl, List.append_nil _⟩

theorem record_vouched (hc : r.cache = some c) (hstore : c.Sound ms store) {e : EnvRecord}
    (hnoted : Noted ms r (r.record store e).calls) :
    (∀ d, (r.record store e).value.result = .ok (some d) → d.path = e.path ∧
      Vouched ms r.machine.fs d) ∧
      c.Sound ms (r.record store e).value.store := by
  obtain ⟨hafter, hcalls⟩ := r.record_run store e
  rw [hcalls] at hnoted
  obtain ⟨hattested, hsound⟩ := interpreter_attested hc hstore hnoted
  rw [hafter, r.record_result]
  refine ⟨?_, hsound⟩
  intro d hd
  generalize (r.interpreter store e.path).value.result = answer at hattested hd
  rcases answer with f | _ | info
  · cases hd
  · cases hd
  · obtain rfl := Option.some.inj (Except.ok.inj hd)
    have hpath : (withTimes r.machine.fs (e.complete info)).path = e.path := by simp
    refine ⟨hpath, info, ?_, EnvRecord.shows_complete _ e info⟩
    rw [hpath]
    exact hattested info rfl

end Resolver

/-! ### Listings and resolutions -/

namespace Composite

variable {c : Cache} {ms : List Moment} {r : Resolver} {store : Store} {found : List EnvRecord}
  {known : Known}

/-- A record that is completed in a listing was complete, or its interpreter vouches for it. -/
theorem completed_vouched (hc : r.cache = some c) (hstore : c.Sound ms store) {e : EnvRecord}
    (hnoted : Noted ms r (completed r store e).calls) :
    (∀ d, (completed r store e).value.result = some d →
      (d = e ∧ e.isResolved = true) ∨ Vouched ms r.machine.fs d) ∧
      c.Sound ms (completed r store e).value.store := by
  cases he : e.isResolved with
  | true =>
      have hrun : completed r store e = ⟨⟨some e, store⟩, []⟩ := by
        simp [completed, he, pure, Traced.pure]
      rw [hrun]
      refine ⟨?_, hstore⟩
      intro d hd
      exact .inl ⟨(Option.some.inj hd).symm, rfl⟩
  | false =>
      have hrun : (completed r store e).value.result =
        (r.record store e).value.result.toOption.join ∧
          (completed r store e).value.store = (r.record store e).value.store ∧
          (completed r store e).calls = (r.record store e).calls := by
        simp only [completed, he, bind, Traced.bind]
        generalize r.record store e = out
        rcases out with ⟨⟨_ | _ | d, after⟩, calls⟩ <;> exact ⟨rfl, rfl, List.append_nil _⟩
      obtain ⟨hresult, hafter, hcalls⟩ := hrun
      rw [hcalls] at hnoted
      obtain ⟨hvouched, hsound⟩ := Resolver.record_vouched hc hstore hnoted
      rw [hresult, hafter]
      refine ⟨?_, hsound⟩
      intro d hd
      rcases hrecord : (r.record store e).value.result with f | answer
      · simp [hrecord, Except.toOption] at hd
      · obtain rfl : answer = some d := by simpa [hrecord, Except.toOption] using hd
        exact .inr (hvouched d hrecord).2

theorem completeAll_cons_run (r : Resolver) (store : Store) (e : EnvRecord)
    (found : List EnvRecord) :
    (completeAll r store (e :: found)).value.store =
        (completeAll r (completed r store e).value.store found).value.store ∧
      (completeAll r store (e :: found)).calls =
        (completed r store e).calls ++
          (completeAll r (completed r store e).value.store found).calls :=
  ⟨rfl, congrArg _ (List.append_nil _)⟩

/-- **A listing**: each of its records was found complete, or its interpreter vouches for it. -/
theorem completeAll_vouched (hc : r.cache = some c) (hstore : c.Sound ms store)
    (hnoted : Noted ms r (completeAll r store found).calls) :
    (∀ d ∈ (completeAll r store found).value.result,
      (d ∈ found ∧ d.isResolved = true) ∨ Vouched ms r.machine.fs d) ∧
      c.Sound ms (completeAll r store found).value.store := by
  induction found generalizing store with
  | nil => exact ⟨by simp [completeAll, pure, Traced.pure], hstore⟩
  | cons e found ih =>
      obtain ⟨hafter, hcalls⟩ := completeAll_cons_run r store e found
      rw [hcalls] at hnoted
      obtain ⟨hfirst, hsound⟩ :=
        completed_vouched hc hstore (hnoted.of_subset (List.subset_append_left _ _))
      obtain ⟨hrest, hend⟩ := ih hsound (hnoted.of_subset (List.subset_append_right _ _))
      rw [completeAll_cons_result, hafter]
      refine ⟨?_, hend⟩
      intro d hd
      rcases List.mem_append.1 hd with hd | hd
      · rcases hfirst d (Option.mem_toList.1 hd) with ⟨rfl, hresolved⟩ | hvouched
        · exact .inl ⟨List.mem_cons_self, hresolved⟩
        · exact .inr hvouched
      · rcases hrest d hd with ⟨hmem, hresolved⟩ | hvouched
        · exact .inl ⟨List.mem_cons_of_mem _ hmem, hresolved⟩
        · exact .inr hvouched

/-- A resolution asks the interpreter if nothing complete is known. -/
theorem resolve_of_unknown {ref : EnvRef} (hfile : r.machine.fs.isFile ref.executable = true)
    (hknown : (known.get? ref.executable.key).filter (·.isResolved) = none) (sources : List Locator)
    (store : Store) :
    let out := r.record store (candidate r.machine.toSurroundings sources ref)
    (resolve r sources store known ref).value.result = out.value.result ∧
      (resolve r sources store known ref).value.store = out.value.store ∧
      (resolve r sources store known ref).calls = out.calls ∧
      (resolve r sources store known ref).value.known =
        out.value.result.toOption.join.elim known (known.insert ref.executable.key) := by
  intro out
  have hout : r.record store (candidate r.machine.toSurroundings sources ref) = out := rfl
  simp only [resolve, hfile, hknown, bind, Traced.bind, hout]
  clear_value out
  rcases out with ⟨⟨_ | _ | e, after⟩, calls⟩ <;> exact ⟨rfl, rfl, List.append_nil _, rfl⟩

/-- **A resolution** gives nothing, gives what is known and complete, or gives what an interpreter
vouches for. -/
theorem resolve_vouched (hc : r.cache = some c) (hstore : c.Sound ms store) {sources : List Locator}
    (hsources : ∀ l ∈ sources, l.KeepsPlace) {ref : EnvRef}
    (hnoted : Noted ms r (resolve r sources store known ref).calls) :
    c.Sound ms (resolve r sources store known ref).value.store ∧
      ((resolve r sources store known ref).value.known = known ∨
        ∃ e, (resolve r sources store known ref).value.known = known.insert e.path.key e ∧
          Vouched ms r.machine.fs e) ∧
      ∀ e, (resolve r sources store known ref).value.result = .ok (some e) →
        ((known.get? ref.executable.key).filter (·.isResolved) = none ∧
          e.path.key = ref.executable.key ∧
            Vouched ms r.machine.fs e) ∨
          (known.get? ref.executable.key = some e ∧ e.isResolved = true ∧
            (resolve r sources store known ref).calls = []) := by
  cases hfile : r.machine.fs.isFile ref.executable with
  | false =>
      have hrun : resolve r sources store known ref = ⟨⟨.ok none, store, known⟩, []⟩ := by
        simp [resolve, hfile, pure, Traced.pure]
      rw [hrun]
      exact ⟨hstore, .inl rfl, fun e he => by cases he⟩
  | true =>
      cases hknown : (known.get? ref.executable.key).filter (·.isResolved) with
      | some d =>
          obtain ⟨hget, hresolved⟩ := Option.filter_eq_some_iff.1 hknown
          have hrun := resolve_of_known ref hfile hget hresolved sources store
          -- nothing is run and nothing is stored, whatever has become of the file
          rw [hrun]
          refine ⟨hstore, .inl rfl, ?_⟩
          intro e he
          obtain rfl : d = e := Option.some.inj (Except.ok.inj he)
          exact .inr ⟨hget, hresolved, rfl⟩
      | none =>
          obtain ⟨hresult, hafter, hcalls, hnext⟩ := resolve_of_unknown hfile hknown sources store
          rw [hcalls] at hnoted
          obtain ⟨hvouched, hsound⟩ := Resolver.record_vouched hc hstore hnoted
          have hkey := key_candidate r.machine.toSurroundings hsources ref
          rw [hresult, hafter, hnext]
          refine ⟨hsound, ?_, ?_⟩
          · rcases hrecord : (r.record store (candidate r.machine.toSurroundings sources
              ref)).value.result with f | d
            · exact .inl rfl
            · cases d with
              | none => exact .inl rfl
              | some d =>
                  obtain ⟨hpath, hd⟩ := hvouched d hrecord
                  refine .inr ⟨d, ?_, hd⟩
                  rw [hpath, hkey]
                  rfl
          · intro e he
            obtain ⟨hpath, hd⟩ := hvouched e he
            exact .inl ⟨rfl, by rw [hpath, hkey], hd⟩

end Composite

/-! ### Histories -/

/-- The moment of a listing. -/
def Moment.ofListing (r : Resolver) (store : Store) (found : List EnvRecord) : Moment :=
  ⟨r, found, (Composite.completeAll r store found).calls⟩

/-- The moment of a resolution. -/
def Moment.ofResolution (r : Resolver) (sources : List Locator) (store : Store) (known : Known)
    (ref : EnvRef) :
    Moment :=
  ⟨r, [], (Composite.resolve r sources store known ref).calls⟩

/-- Listings and resolutions with one cache, each with its own machine, sources and time: the
moments so far, the store and what is known. The sources that are asked about an executable keep it
in its place. -/
inductive History (c : Cache) : List Moment → Store → Known → Prop where
  /-- The cache answers nothing, and nothing is known. -/
  | start {store : Store} (hempty : ∀ fs now executable, c.get fs store now executable = none) :
      History c [] store .empty
  /-- A new program starts with the store that another has left. -/
  | restarted {ms : List Moment} {store : Store} {known : Known} (h : History c ms store known) :
      History c ms store .empty
  /-- A listing completes what it has found. -/
  | listed {ms : List Moment} {store : Store} {known : Known} (h : History c ms store known)
      (r : Resolver)
      (hc : r.cache = some c) (q : Query) (found : List EnvRecord) :
      History c (ms ++ [.ofListing r store found]) (Composite.completeAll r store found).value.store
        (known.remember q (Composite.completeAll r store found).value.result)
  /-- An executable is resolved. -/
  | resolved {ms : List Moment} {store : Store} {known : Known} (h : History c ms store known)
      (r : Resolver)
      (hc : r.cache = some c) (sources : List Locator) (hsources : ∀ l ∈ sources, l.KeepsPlace)
      (ref : EnvRef) :
      History c (ms ++ [.ofResolution r sources store known ref])
        (Composite.resolve r sources store known ref).value.store
        (Composite.resolve r sources store known ref).value.known

namespace History

variable {c : Cache} {ms : List Moment} {store : Store} {known : Known}

/-- What the store and the known records owe to the interpreters. -/
structure Sound (c : Cache) (ms : List Moment) (store : Store) (known : Known) : Prop where
  store : c.Sound ms store
  keyed : known.Keyed
  learnt : ∀ key e, known.get? key = some e → ∃ m ∈ ms, m.Teaches ms e

/-- What is known after a listing was listed or was known before. -/
theorem mem_or_known_of_insertAll {key : String} {e : EnvRecord} (es : List EnvRecord) (k : Known)
    (h : (k.insertAll es).get? key = some e) : e ∈ es ∨ k.get? key = some e := by
  induction es generalizing k with
  | nil => exact .inr h
  | cons d es ih =>
      rw [Known.insertAll_cons] at h
      rcases ih _ h with hmem | hget
      · exact .inl (List.mem_cons_of_mem _ hmem)
      · by_cases hkey : key = d.path.key
        · rw [hkey, Known.get?_insert_self, Option.some_inj] at hget
          exact .inl (hget ▸ List.mem_cons_self)
        · rw [Known.get?_insert_of_ne k hkey] at hget
          exact .inr hget

theorem mem_or_known_of_remember {q : Query} {es : List EnvRecord} {key : String} {e : EnvRecord}
    (h : (known.remember q es).get? key = some e) : e ∈ es ∨ known.get? key = some e := by
  rw [Known.remember] at h
  rcases mem_or_known_of_insertAll es _ h with hmem | hget
  · exact .inl hmem
  · split at hget
    · simp [Known.empty, Known.get?] at hget
    · exact .inr hget

/-- What was learnt stays learnt. -/
theorem Sound.exists_teaches (h : Sound c ms store known) (m : Moment) {key : String}
    {e : EnvRecord} (hget : known.get? key = some e) :
    ∃ m' ∈ ms ++ [m], m'.Teaches (ms ++ [m]) e := by
  obtain ⟨m', hm, hteaches⟩ := h.learnt key e hget
  have hsub : ms ⊆ ms ++ [m] := List.subset_append_left _ _
  exact ⟨m', hsub hm, hteaches.mono hsub⟩

/-- **The step** of a listing. -/
theorem Sound.listed (h : Sound c ms store known) {r : Resolver} (hc : r.cache = some c) (q : Query)
    (found : List EnvRecord) :
    Sound c (ms ++ [.ofListing r store found]) (Composite.completeAll r store found).value.store
      (known.remember q (Composite.completeAll r store found).value.result) := by
  obtain ⟨hes, hstore⟩ :=
    Composite.completeAll_vouched hc (h.store.mono (List.subset_append_left _ _))
    (noted_concat ms r found (Composite.completeAll r store found).calls)
  refine ⟨hstore, h.keyed.remember q _, ?_⟩
  intro key e hget
  -- the moment of the listing teaches what it lists, and the moments before it what was known
  rcases mem_or_known_of_remember hget with hmem | hold
  · exact ⟨.ofListing r store found, List.mem_append_right _ (List.mem_singleton_self _),
      hes e hmem⟩
  · exact h.exists_teaches _ hold

/-- **The step** of a resolution. -/
theorem Sound.resolved (h : Sound c ms store known) {r : Resolver} (hc : r.cache = some c)
    (sources : List Locator) (hsources : ∀ l ∈ sources, l.KeepsPlace) (ref : EnvRef) :
    Sound c (ms ++ [.ofResolution r sources store known ref])
      (Composite.resolve r sources store known ref).value.store
      (Composite.resolve r sources store known ref).value.known := by
  obtain ⟨hstore, hknown, -⟩ :=
    Composite.resolve_vouched hc (h.store.mono (List.subset_append_left _ _)) hsources
    (noted_concat ms r [] (Composite.resolve r sources store known ref).calls)
  rcases hknown with hsame | ⟨d, hinsert, hvouched⟩
  · rw [hsame]
    exact ⟨hstore, h.keyed, fun key e => h.exists_teaches _⟩
  · rw [hinsert]
    refine ⟨hstore, h.keyed.insert d, ?_⟩
    intro key e hget
    by_cases hkey : key = d.path.key
    · rw [hkey, Known.get?_insert_self, Option.some_inj] at hget
      subst hget
      exact ⟨.ofResolution r sources store known ref,
        List.mem_append_right _ (List.mem_singleton_self _), .inr hvouched⟩
    · rw [Known.get?_insert_of_ne known hkey] at hget
      exact h.exists_teaches _ hget

/-- **The run**: the store and the known records are sound after any history. -/
theorem sound (h : History c ms store known) : Sound c ms store known := by
  induction h with
  | start hempty =>
      refine ⟨?_, Known.keyed_empty, by simp [Known.empty, Known.get?]⟩
      intro fs now executable info hget
      rw [hempty] at hget
      cases hget
  | restarted _ ih => exact ⟨ih.store, Known.keyed_empty, by simp [Known.empty, Known.get?]⟩
  | listed _ r hc q found ih => exact ih.listed hc q found
  | resolved _ r hc sources hsources ref ih => exact ih.resolved hc sources hsources ref

end History

/-! ### Sessions -/

namespace Session

/-- The two sessions resolve with the same machine, cache and time, and have stored and learnt the
same. -/
structure SameBooks (s t : Session) : Prop where
  resolver : t.resolver = s.resolver
  store : t.store = s.store
  known : t.known = s.known

theorem listSources_run_books (ps : List Nat) (s : Session) :
    SameBooks s ((listSources ps).run s).2 := by
  obtain ⟨_, _, _, hrun⟩ := listSources_run_frame ps s
  rw [hrun]
  exact ⟨rfl, rfl, rfl⟩

/-- What happens to a session: it is listed, it resolves, or its machine changes while time
passes. -/
inductive Turn where
  | list (q : Query)
  | resolve (ref : EnvRef)
  | change (machine : Machine) (now : Timestamp)

/-- The session after a turn. -/
def turn (s : Session) : Turn → Session
  | .list q => ((environments q).run s).2
  | .resolve ref => ((Session.resolve ref).run s).2
  | .change machine now => { s with machine, now }

/-- The session after some turns. -/
def turns (s : Session) (ts : List Turn) : Session := ts.foldl turn s

/-- The moment of a turn, if the cache was used. -/
def moment? (s : Session) : Turn → Option Moment
  | .list q => ((search q).run s).1.map (.ofListing s.resolver s.store)
  | .resolve ref => some (.ofResolution s.resolver s.locators s.store s.known ref)
  | .change _ _ => none

/-- The moments of some turns. -/
def moments (s : Session) : List Turn → List Moment
  | [] => []
  | t :: ts => (s.moment? t).toList ++ (s.turn t).moments ts

/-- The session has the cache and sources that keep executables in their place, and the moments are
the history of its store and of what it knows. -/
structure Recorded (c : Cache) (ms : List Moment) (s : Session) : Prop where
  cache : s.cache = some c
  sources : ∀ l ∈ s.locators, l.KeepsPlace
  history : History c ms s.store s.known

section Recorded

variable {c : Cache} {ms : List Moment} {s : Session}

theorem Recorded.list (h : s.Recorded c ms) (q : Query) :
    (s.turn (.list q)).Recorded c (ms ++ (s.moment? (.list q)).toList) := by
  obtain ⟨hc, hsources, hhistory⟩ := h
  have hbooks : SameBooks s ((search q).run s).2 := listSources_run_books (s.searched q) s
  have hkept : ∀ l ∈ ((environments q).run s).2.locators, l.KeepsPlace := by
    rw [environments_run_locators]
    exact hsources
  rw [turn, moment?]
  rw [Session.environments, StateT.run_bind] at hkept ⊢
  -- the search is forgotten here: unfolding it would run all sources
  generalize (search q).run s = out at hbooks hkept ⊢
  obtain ⟨answer, t⟩ := out
  obtain ⟨hresolver, hstore, hknown⟩ := hbooks
  have hcache : t.cache = some c := (congrArg Resolver.cache hresolver).trans hc
  rw [← hstore, ← hknown] at hhistory
  rw [← hresolver, ← hstore]
  cases answer with
  | none =>
      rw [Option.map_none, Option.toList_none, List.append_nil]
      exact ⟨hcache, hkept, hhistory⟩
  | some found => exact ⟨hcache, hkept, hhistory.listed t.resolver hcache q found⟩

/-- **The step**: a turn adds its moment to the history. -/
theorem Recorded.turn (h : s.Recorded c ms) (t : Turn) :
    (s.turn t).Recorded c (ms ++ (s.moment? t).toList) := by
  cases t with
  | list q => exact h.list q
  | resolve ref =>
      obtain ⟨hc, hsources, hhistory⟩ := h
      exact ⟨hc, hsources, hhistory.resolved s.resolver hc s.locators hsources ref⟩
  | change machine now =>
      rw [moment?, Option.toList_none, List.append_nil]
      exact ⟨h.cache, h.sources, h.history⟩

/-- **The run**. -/
theorem Recorded.turns (h : s.Recorded c ms) (ts : List Turn) :
    (s.turns ts).Recorded c (ms ++ s.moments ts) := by
  induction ts generalizing s ms with
  | nil =>
      rw [moments, List.append_nil]
      exact h
  | cons t ts ih =>
      rw [moments, ← List.append_assoc]
      exact ih (h.turn t)

end Recorded

end Session

namespace Composite

/-- How fresh the answer `e` to `ref` is, after the moments `ms`. -/
structure AnsweredAfter (ms : List Moment) (r : Resolver) (sources : List Locator) (store : Store)
    (known : Known) (ref : EnvRef) (e : EnvRecord) : Prop where
  /-- The answer is about the executable that was asked for. -/
  key : e.path.key = ref.executable.key
  /-- On a coherent file system its file is that of the executable that was asked for. -/
  file : Coherent r.machine.fs.realPath → fileHash r.machine.fs e.path =
    fileHash r.machine.fs ref.executable
  /-- If nothing complete was known, an interpreter vouches for it now. -/
  asked : (known.get? ref.executable.key).filter (·.isResolved) = none →
    Vouched (ms ++ [.ofResolution r sources store known ref]) r.machine.fs e
  /-- What was known and complete is given without a call. It is as it was learnt at an earlier
  moment, and is vouched for now if the file still has the identity that it had then. -/
  known : ∀ d, (known.get? ref.executable.key).filter (·.isResolved) = some d →
    e = d ∧ (resolve r sources store known ref).calls = [] ∧
      ∃ m ∈ ms, m.Teaches ms e ∧
        (fileHash r.machine.fs e.path = m.fileHash e.path → e ∈ m.found ∨ Vouched ms r.machine.fs e)

theorem answeredAfter {c : Cache} {ms : List Moment} {store : Store} {known : Known}
    (h : History c ms store known) {r : Resolver} (hc : r.cache = some c) {sources : List Locator}
    (hsources : ∀ l ∈ sources, l.KeepsPlace) {ref : EnvRef} {e : EnvRecord}
    (he : (resolve r sources store known ref).value.result = .ok (some e)) :
    AnsweredAfter ms r sources store known ref e := by
  have hsound := h.sound
  obtain ⟨-, -, hanswer⟩ :=
    resolve_vouched hc (hsound.store.mono (List.subset_append_left _ _)) hsources
    (noted_concat ms r [] (resolve r sources store known ref).calls)
  rcases hanswer e he with ⟨hunknown, hkey, hvouched⟩ | ⟨hget, hresolved, hcalls⟩
  · refine ⟨hkey, fun hcoherent => fileHash_eq_of_key hcoherent hkey, fun _ => hvouched, ?_⟩
    intro d hd
    rw [hunknown] at hd
    cases hd
  · have hkey : e.path.key = ref.executable.key := hsound.keyed.key_of_get? hget
    have hfound : (known.get? ref.executable.key).filter (·.isResolved) = some e := by
      rw [hget, Option.filter_some, if_pos hresolved]
    refine ⟨hkey, fun hcoherent => fileHash_eq_of_key hcoherent hkey, ?_, ?_⟩
    · intro hnone
      rw [hfound] at hnone
      cases hnone
    · intro d hd
      obtain rfl : e = d := Option.some.inj (hfound.symm.trans hd)
      obtain ⟨m, hm, hteaches⟩ := hsound.learnt _ e hget
      refine ⟨rfl, hcalls, m, hm, hteaches, ?_⟩
      intro hsame
      exact hteaches.imp (fun hfound => hfound.1) fun hvouched => hvouched.congr hsame

/-- **Answers are vouched for.** Take any listings and resolutions with one cache, on machines that
change in between, from a store from which the cache answers nothing, with sources that keep
executables in their place. If nothing complete is known of an executable, the record that a
resolution gives shows what the interpreter said while its file had the identity that it has now. If
a complete record is known, that one is given as it was learnt: it is vouched for as of that moment,
or it was found complete then. The moments of a session with a cache are such a history. -/
theorem answers_are_as_fresh_as_learnt (c : Cache) :
    (∀ (ms : List Moment) (store : Store) (known : Known), History c ms store known →
      ∀ (r : Resolver), r.cache = some c → ∀ (sources : List Locator),
        (∀ l ∈ sources, l.KeepsPlace) →
        ∀ (ref : EnvRef) (e : EnvRecord), (resolve r sources store known ref).value.result =
          .ok (some e) →
          AnsweredAfter ms r sources store known ref e) ∧
    ∀ (s : Session), s.cache = some c → s.known = .empty → (∀ l ∈ s.locators, l.KeepsPlace) →
      (∀ fs now executable, c.get fs s.store now executable = none) → ∀ (ts : List Session.Turn),
        History c (s.moments ts) (s.turns ts).store (s.turns ts).known ∧
          ∀ (ref : EnvRef) (e : EnvRecord), ((Session.resolve ref).run (s.turns ts)).1 =
            .ok (some e) →
            AnsweredAfter (s.moments ts)
            (s.turns ts).resolver (s.turns ts).locators (s.turns ts).store
              (s.turns ts).known ref e := by
  constructor
  · intro ms store known h r hc sources hsources ref e he
    exact answeredAfter h hc hsources he
  · intro s hc hknown hsources hstore ts
    have hstart : s.Recorded c [] := ⟨hc, hsources, hknown ▸ .start hstore⟩
    obtain ⟨hcache, hkept, h⟩ := hstart.turns ts
    refine ⟨h, ?_⟩
    intro ref e he
    exact answeredAfter h hcache hkept he

/-- An interpreter that is asked and answers: its record is completed and known from then on, and
nothing else is run. -/
theorem resolve_of_reports {r : Resolver} {sources : List Locator} {store : Store} {known : Known}
    {ref : EnvRef} {d : EnvRecord} {info : InterpreterInfo}
    (hfile : r.machine.fs.isFile ref.executable = true)
    (hknown : (known.get? ref.executable.key).filter (·.isResolved) = none)
    (hcandidate : candidate r.machine.toSurroundings sources ref = d) (hlive : r.Live store d.path)
    (hreports : r.Reports d.path info) :
    (resolve r sources store known ref).value.result =
        .ok (some (Resolver.withTimes r.machine.fs (d.complete info))) ∧
      (resolve r sources store known ref).value.known =
        known.insert ref.executable.key (Resolver.withTimes r.machine.fs (d.complete info)) ∧
      (resolve r sources store known ref).calls = [r.call d.path] := by
  obtain ⟨hresult, -, hcalls, hnext⟩ := resolve_of_unknown hfile hknown sources store
  obtain ⟨-, hrun⟩ := r.record_run store d
  obtain ⟨output, houtput, hreport⟩ := hreports
  have hanswer : r.interpreter store d.path =
      ⟨⟨.ok (some info), r.remember store d.path info⟩, [r.call d.path]⟩ := by
    rw [Resolver.interpreter_of_live hlive, Executor.call, Traced.bind, houtput]
    simp only [hreport]
    rfl
  rw [hcandidate] at hresult hcalls hnext
  rw [hresult, hnext, hcalls, hrun, r.record_result, hanswer]
  exact ⟨rfl, rfl, rfl⟩

/-- With an empty store, every file has to be run. -/
theorem live_inMemory {r : Resolver} {executable : Path}
    (hfile : r.machine.fs.isFile executable = true) :
    r.Live .inMemory executable where
  isFile := hfile
  miss := by
    cases hc : r.cache with
    | none => simp [Resolver.cached, hc]
    | some c =>
        rw [Resolver.cached_eq_get hc]
        exact c.get_inMemory r.machine.fs r.now executable

/-- The output of an interpreter that reports the given parts of its version. -/
def reporting (parts : String) : Output :=
  ⟨some 0, Text.bytes (">>>JSON[[" ++ parts ++ "],\"/usr\",\"\",true]<<<JSON"), []⟩

/-- What that interpreter says. -/
def replacedInfo (version : Version) : InterpreterInfo :=
  ⟨⟨"/usr/bin/python3"⟩, ⟨"/usr"⟩, version, .x64⟩

/-- A resolver with a cache, on a machine with one interpreter: a file that was changed at the given
time, and that reports the given parts of its version. -/
def replaced (changed : Timestamp) (parts : String) : Resolver :=
  let talks := Resolver.sole (.ok (reporting parts))
  { talks with machine := { talks.machine with fs := Cache.oneFile ⟨"/usr/bin/python3"⟩ changed } }

/-- The record of the interpreter before it is asked; its name tells a part of the version. -/
def bareRecord : EnvRecord :=
  { (EnvRecord.new ⟨"/usr/bin/python3"⟩ .system).withSource .other with
    version := ⟨some 3, none, none, none, none⟩ }

/-- The search path keeps executables in their place. -/
theorem keepsPlace_searchPath : ∀ l ∈ [Locator.searchPath], l.KeepsPlace := by
  intro l hl
  obtain rfl : l = .searchPath := List.mem_singleton.1 hl
  exact Locator.keepsPlace nofun

/-- The interpreter is run when nothing is stored or known. -/
theorem resolve_replaced :
    let r := replaced ⟨1700000000, 0⟩ "3,11,4"
    let out := resolve r [.searchPath] .inMemory .empty (.path bareRecord.path)
    let e := Resolver.withTimes r.machine.fs (bareRecord.complete
      (replacedInfo ⟨some 3, some 11, some 4, none, some ""⟩))
    out.value.result = .ok (some e) ∧ out.value.known = Known.empty.insert bareRecord.path.key e ∧
      out.calls = [r.call bareRecord.path] := by
  intro r out e
  have hcandidate : candidate r.machine.toSurroundings [.searchPath] (.path bareRecord.path) =
      bareRecord := by decide +kernel
  have hreports : r.Reports bareRecord.path (replacedInfo
      ⟨some 3, some 11, some 4, none, some ""⟩) :=
    ⟨reporting "3,11,4", rfl, by decide +kernel⟩
  exact resolve_of_reports rfl rfl hcandidate (live_inMemory rfl) hreports

/-- The interpreter is run for the first answer, which it vouches for. In a session, the second
answer is known. -/
theorem answers_are_as_fresh_as_learnt_twice :
    let python := EnvRef.path bareRecord.path
    let c : Cache := ⟨defaultExpiry⟩
    let r := replaced ⟨1700000000, 0⟩ "3,11,4"
    let info := replacedInfo ⟨some 3, some 11, some 4, none, some ""⟩
    let e := Resolver.withTimes r.machine.fs (bareRecord.complete info)
    let s : Session :=
      .new r.machine (some c) r.now .inMemory [.searchPath] (.new false []) [] false
    let s' := s.turns [.resolve python]
    (r.cache = some c ∧ History c [] .inMemory .empty ∧
      (resolve r [.searchPath] .inMemory .empty python).value.result = .ok (some e) ∧
      Vouched [.ofResolution r [.searchPath] .inMemory .empty python] r.machine.fs e) ∧
    (s.cache = some c ∧ (∀ l ∈ s.locators, l.KeepsPlace) ∧
      ((Session.resolve python).run s').1 = .ok (some e) ∧
      (s'.known.get? python.executable.key).filter (·.isResolved) = some e ∧
      History c (s.moments [.resolve python]) s'.store s'.known ∧
      ∃ m ∈ s.moments [.resolve python], m.Teaches (s.moments [.resolve python]) e) := by
  intro python c r info e s s'
  obtain ⟨hfirst, hlearnt, -⟩ := resolve_replaced
  have hempty := c.get_inMemory
  obtain ⟨hhistories, hsessions⟩ := answers_are_as_fresh_as_learnt c
  have hanswer :=
    hhistories [] .inMemory .empty (.start hempty) r rfl [.searchPath] keepsPlace_searchPath python
      e hfirst
  have hget : s'.known.get? python.executable.key = some e := by
    have hs : s'.known = Known.empty.insert python.executable.key e := hlearnt
    rw [hs, Known.get?_insert_self]
  have hresolved : e.isResolved = true := by decide +kernel
  have hsecond : ((Session.resolve python).run s').1 = .ok (some e) :=
    congrArg Prod.fst (Session.resolve_run_of_known python rfl hget hresolved)
  have hknown : (s'.known.get? python.executable.key).filter (·.isResolved) = some e := by
    rw [hget, Option.filter_some, if_pos hresolved]
  refine ⟨⟨rfl, .start hempty, hfirst, hanswer.asked rfl⟩, rfl, keepsPlace_searchPath,
    hsecond, hknown, ?_⟩
  obtain ⟨hms, hanswers⟩ := hsessions s rfl rfl keepsPlace_searchPath hempty [.resolve python]
  obtain ⟨-, -, m, hm, hteaches, -⟩ := (hanswers python e hsecond).known e hknown
  exact ⟨hms, m, hm, hteaches⟩

/-- The interpreter is replaced after its record was learnt. The record is given again, with the
version of the old file: nobody asks the new one, and nothing vouches for the record. And a source
may know more of a version than the interpreter says: then its version is given. -/
theorem known_record_goes_stale :
    let python := EnvRef.path bareRecord.path
    let old := replaced ⟨1700000000, 0⟩ "3,11,4"
    let new := replaced ⟨1700000500, 0⟩ "3,12,1"
    let first := resolve old [.searchPath] .inMemory .empty python
    let ms := [Moment.ofResolution old [.searchPath] .inMemory .empty python]
    let second := resolve new [.searchPath] first.value.store first.value.known python
    let e := Resolver.withTimes old.machine.fs (bareRecord.complete
      (replacedInfo ⟨some 3, some 11, some 4, none, some ""⟩))
    (History ⟨defaultExpiry⟩ ms first.value.store first.value.known ∧
      new.Reports bareRecord.path (replacedInfo ⟨some 3, some 12, some 1, none, some ""⟩) ∧
      fileHash old.machine.fs bareRecord.path ≠ fileHash new.machine.fs bareRecord.path ∧
      second.value.result = .ok (some e) ∧ second.calls = [] ∧
      ¬Vouched (ms ++ [.ofResolution new [.searchPath] first.value.store first.value.known python])
        new.machine.fs e) ∧
    (let vague := replaced ⟨1700000000, 0⟩ "3"
      let d : EnvRecord := { bareRecord with version := ⟨some 3, some 10, some 2, none, none⟩ }
      let source := Locator.fixed ⟨[], none, FixedSource.among [d], false⟩
      let info := replacedInfo ⟨some 3, none, none, none, some ""⟩
      vague.Reports bareRecord.path info ∧
        (resolve vague [source] .inMemory .empty python).value.result =
          .ok (some (Resolver.withTimes vague.machine.fs (d.complete info))) ∧
        (d.complete info).version = d.version) := by
  intro python old new first ms second e
  obtain ⟨-, hlearnt, hcalls⟩ := resolve_replaced
  have hhash : fileHash old.machine.fs bareRecord.path ≠
      fileHash new.machine.fs bareRecord.path := by
    decide +kernel
  have hget : first.value.known.get? python.executable.key = some e := by
    have hknown : first.value.known = Known.empty.insert python.executable.key e := hlearnt
    rw [hknown, Known.get?_insert_self]
  have hsecond : second = ⟨⟨.ok (some e), first.value.store, first.value.known⟩, []⟩ :=
    resolve_of_known python rfl hget (by decide +kernel) [.searchPath] first.value.store
  refine ⟨⟨(History.start (Cache.get_inMemory _)).resolved old rfl [.searchPath]
    keepsPlace_searchPath python, ⟨reporting "3,12,1", rfl, by decide +kernel⟩, hhash,
    by rw [hsecond], by rw [hsecond], ?_⟩, ?_⟩
  · rintro ⟨info, ⟨m, hm, p, -, hcall, -, hsame⟩, -⟩
    rcases List.mem_append.1 hm with hm | hm
    · -- the only call at the first moment was that of the old file
      obtain rfl : m = _ := List.mem_singleton.1 hm
      have hmem : old.call p ∈ first.calls := hcall
      have hold : first.calls = [old.call bareRecord.path] := hcalls
      rw [hold, List.mem_singleton] at hmem
      obtain rfl : p = bareRecord.path := congrArg (·.command.program) hmem
      exact hhash hsame
    · obtain rfl : m = _ := List.mem_singleton.1 hm
      have hmem : new.call p ∈ second.calls := hcall
      rw [hsecond] at hmem
      cases hmem
  · intro vague d source info
    have hvague : vague.Reports bareRecord.path info := ⟨reporting "3", rfl, by decide +kernel⟩
    have hcandidate : candidate vague.machine.toSurroundings [source] python = d := by
      decide +kernel
    have hresult : (resolve vague [source] .inMemory .empty python).value.result = _ :=
      (resolve_of_reports rfl rfl hcandidate (live_inMemory rfl) hvague).1
    exact ⟨hvague, hresult, by decide⟩

end Composite

end EnvDiscovery
