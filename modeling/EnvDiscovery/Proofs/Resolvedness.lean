import EnvDiscovery.Proofs.MergedDetails

/-!
**Records that stay resolved.**

A record is resolved if the three numbers of its version, its architecture and its prefix are known.
Merging it with another report, or completing it with what an interpreter says, never loses
architecture or prefix. The version is taken as a whole, the one of which more parts are known, and
two of the five parts are no numbers. So a version that lacks a number takes the place of a complete
one if it makes up for that with its release and its text; only then is the record no longer
resolved.

Main definitions:
* `Version.numbers`, `Version.extras` — how much is known of the numbers, and of the rest;
* `Version.Supplants` — when a version with a number missing takes the place of another.

Main results:
* `Version.Supplants.extras_lt` — it must know more of release and text;
* `Version.moreComplete_eq_false_left`, `Version.moreComplete_eq_false_right` — when the better of
  two versions lacks a number although one of the two does not;
* `EnvRecord.isResolved_merge`, `EnvRecord.isResolved_complete` — only the version decides;
* `EnvRecord.resolved_unless_supplanted` — **a resolved record stays resolved unless its version is
  supplanted**.
-/

namespace EnvDiscovery

/-! ### Versions -/

namespace Version

variable {v w : Version} {first : Prop}

/-- How many of the three numbers are known. -/
def numbers (v : Version) : Nat :=
  v.major.isSome.toNat + v.minor.isSome.toNat + v.micro.isSome.toNat

/-- How many of the release and the text are known. -/
def extras (v : Version) : Nat :=
  v.release.isSome.toNat + v.sysVersion.isSome.toNat

theorem completeness_eq (v : Version) : v.completeness = v.numbers + v.extras := by
  have hcount : ∀ (b : Bool) (bs : List Bool), (b :: bs).count true = b.toNat + bs.count true := by
    intro b bs
    cases b with
    | true => rw [List.count_cons_self, Nat.add_comm]; rfl
    | false => rw [List.count_cons_of_ne Bool.false_ne_true, Bool.toNat_false, Nat.zero_add]
  rw [completeness, hcount, hcount, hcount, hcount, hcount, List.count_nil, numbers, extras]
  omega

theorem numbers_le (v : Version) : v.numbers ≤ 3 := by
  have hmajor := v.major.isSome.toNat_le
  have hminor := v.minor.isSome.toNat_le
  have hmicro := v.micro.isSome.toNat_le
  unfold numbers
  omega

theorem isComplete_iff : v.isComplete = true ↔ v.numbers = 3 := by
  unfold isComplete numbers
  cases v.major.isSome <;> cases v.minor.isSome <;> cases v.micro.isSome <;> decide

/-- `v` takes the place of `w` although it lacks a number: more of its parts are known, or as many
and it goes `first`. -/
def Supplants (v w : Version) (first : Prop) : Prop :=
  v.isComplete = false ∧ (w.completeness < v.completeness ∨ w.completeness = v.completeness ∧ first)

instance [Decidable first] : Decidable (v.Supplants w first) :=
  inferInstanceAs (Decidable (_ ∧ _))

/-- What takes the place of a complete version knows more of release and text. -/
theorem Supplants.extras_lt (hw : w.isComplete = true) (h : v.Supplants w first) :
    w.extras < v.extras := by
  obtain ⟨hv, hparts⟩ := h
  have hlacks : v.numbers ≠ 3 := by
    rw [Ne, ← isComplete_iff, hv]
    exact Bool.false_ne_true
  have hnumbers := v.numbers_le
  rw [isComplete_iff] at hw
  rw [completeness_eq, completeness_eq] at hparts
  omega

/-- The better of two versions lacks a number although the second does not. -/
theorem moreComplete_eq_false_right (hw : w.isComplete = true) :
    (v.moreComplete w).isComplete = false ↔ v.Supplants w True := by
  unfold moreComplete Supplants
  split
  case isTrue hlt =>
    rw [hw]
    refine iff_of_false (Bool.noConfusion ·) ?_
    rintro ⟨-, hparts⟩
    omega
  case isFalse hle =>
    have hparts : w.completeness < v.completeness ∨ w.completeness = v.completeness := by omega
    exact (and_iff_left (hparts.imp_right (⟨·, trivial⟩))).symm

/-- The better of two versions lacks a number although the first does not. -/
theorem moreComplete_eq_false_left (hw : w.isComplete = true) :
    (w.moreComplete v).isComplete = false ↔ v.Supplants w False := by
  unfold moreComplete Supplants
  split
  case isTrue hlt => exact (and_iff_left (.inl hlt)).symm
  case isFalse hle =>
    rw [hw]
    refine iff_of_false (Bool.noConfusion ·) ?_
    rintro ⟨-, hlt | ⟨-, hfirst⟩⟩
    · exact hle hlt
    · exact hfirst

end Version

/-! ### Records -/

namespace EnvRecord

variable {a b e : EnvRecord}

/-- A record is resolved if its version is complete and neither architecture nor prefix is
missing. -/
theorem isResolved_iff :
    e.isResolved = true ↔ e.version.isComplete = true ∧ Detail.arch.read e ≠ none ∧
    Detail.sysPrefix.read e ≠ none := by
  have harch : Detail.arch.read e ≠ none ↔ e.arch ≠ .unknown := by simp [Detail.read]
  have hsys : Detail.sysPrefix.read e ≠ none ↔ e.executable.sysPrefix.isSome = true :=
    Option.isSome_iff_ne_none.symm
  rw [harch, hsys, isResolved, Bool.and_eq_true, Bool.and_eq_true, bne_iff_ne, and_assoc]

/-- Of a record that is merged from a resolved one, only the version can be incomplete. -/
theorem isResolved_merge (h : a.isResolved = true ∨ b.isResolved = true) :
    (a.merge b).isResolved = (a.merge b).version.isComplete := by
  -- a detail that every resolved record has is not lost, whichever of the two is resolved
  have hknown : ∀ f : Detail, (∀ e : EnvRecord, e.isResolved = true → f.read e ≠ none) →
      f.read (a.merge b) ≠ none := by
    intro f hf hnone
    obtain ⟨ha, hb⟩ := (f.read_merge_eq_none a b).1 hnone
    exact h.elim (fun h => hf a h ha) (fun h => hf b h hb)
  have harch := hknown .arch fun e he => (isResolved_iff.1 he).2.1
  have hsys := hknown .sysPrefix fun e he => (isResolved_iff.1 he).2.2
  rw [Bool.eq_iff_iff, isResolved_iff]
  exact and_iff_left ⟨harch, hsys⟩

/-- Of a record that is completed by an interpreter of known architecture, only the version can be
incomplete. -/
theorem isResolved_complete {info : InterpreterInfo} (h : info.arch ≠ .unknown) (e : EnvRecord) :
    (e.complete info).isResolved = (info.version.moreComplete e.version).isComplete := by
  simp [isResolved, complete, h]

/-- **A resolved record stays resolved unless its version is supplanted.** Merged with another
report, earlier or later, it is not resolved any more exactly if the version of the other lacks a
number and yet more of its parts are known, or as many and the other report is the one that wins.
Completed by an interpreter of known architecture, it is not resolved any more exactly if the
version of the interpreter lacks a number and yet at least as many of its parts are known. In all of
these cases the other version knows more of release and text. -/
theorem resolved_unless_supplanted (e : EnvRecord) (he : e.isResolved = true) :
    (∀ o : EnvRecord, (e.merge o).isResolved = false ↔
        o.version.Supplants e.version (e.kind.specificity < o.kind.specificity)) ∧
      (∀ o : EnvRecord, (o.merge e).isResolved = false ↔
        o.version.Supplants e.version (e.kind.specificity ≤ o.kind.specificity)) ∧
      (∀ info : InterpreterInfo, info.arch ≠ .unknown →
        ((e.complete info).isResolved = false ↔ info.version.Supplants e.version True)) ∧
      ∀ (v : Version) (first : Prop), v.Supplants e.version first →
        e.version.extras < v.extras := by
  have hversion : e.version.isComplete = true := (isResolved_iff.1 he).1
  refine ⟨?_, ?_, ?_, fun v first h => h.extras_lt hversion⟩
  · intro o
    rw [isResolved_merge (.inl he)]
    rcases merge_cases e o with ⟨hlt, hmerge⟩ | ⟨hle, hmerge⟩
    · rw [hmerge, fill_version, Version.moreComplete_eq_false_right hversion, eq_true hlt]
    · rw [hmerge, fill_version, Version.moreComplete_eq_false_left hversion,
        eq_false (Nat.not_lt.2 hle)]
  · intro o
    rw [isResolved_merge (.inr he)]
    rcases merge_cases o e with ⟨hlt, hmerge⟩ | ⟨hle, hmerge⟩
    · rw [hmerge, fill_version, Version.moreComplete_eq_false_left hversion,
        eq_false (Nat.not_le.2 hlt)]
    · rw [hmerge, fill_version, Version.moreComplete_eq_false_right hversion, eq_true hle]
  · intro info hinfo
    rw [isResolved_complete hinfo, Version.moreComplete_eq_false_right hversion]

/-- The record of an interpreter of which all is known but the release and the text of the
version. -/
def resolvedPython : EnvRecord :=
  { new ⟨"/usr/bin/python3"⟩ .system with
    version := ⟨some 3, some 11, some 4, none, none⟩
    arch := .x64
    executable := ⟨⟨"/usr/bin/python3"⟩, some ⟨"/usr"⟩, none, none⟩ }

/-- A report that wins, but of whose version less is known. -/
theorem resolved_unless_supplanted_venv :
    let venv :=
      { new ⟨"/usr/bin/python3"⟩ .venv with version := ⟨some 3, some 11, none, none, none⟩ }
    resolvedPython.isResolved = true ∧ (resolvedPython.merge venv).kind = .venv ∧
      ¬venv.version.Supplants resolvedPython.version
        (resolvedPython.kind.specificity < venv.kind.specificity) ∧
      (resolvedPython.merge venv).isResolved = true := by
  intro venv
  have hresolved : resolvedPython.isResolved = true := by decide
  have hkept : ¬venv.version.Supplants resolvedPython.version
      (resolvedPython.kind.specificity < venv.kind.specificity) := by decide
  obtain ⟨hmerge, -⟩ := resolved_unless_supplanted resolvedPython hresolved
  refine ⟨hresolved, rfl, hkept, ?_⟩
  rw [← Bool.not_eq_false, hmerge venv]
  exact hkept

/-- A version without its third number that has a release and a text takes the place of a complete
one, in either order, and so does that of an interpreter that has a text. -/
theorem merging_loses_resolvedness :
    let other := { new ⟨"/usr/bin/python3"⟩ .system with
      version := ⟨some 3, some 11, none, some ⟨.final, 0⟩, some "3.11"⟩ }
    let info : InterpreterInfo :=
      ⟨⟨"/usr/bin/python3"⟩, ⟨"/usr"⟩, ⟨some 3, some 11, none, none, some "3.11"⟩, .x64⟩
    resolvedPython.isResolved = true ∧ (resolvedPython.merge other).isResolved = false ∧
      (other.merge resolvedPython).isResolved = false ∧ info.arch ≠ .unknown ∧
      (resolvedPython.complete info).isResolved = false := by
  decide

end EnvRecord

end EnvDiscovery
