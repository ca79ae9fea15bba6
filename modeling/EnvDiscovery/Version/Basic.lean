import EnvDiscovery.Text.Digit

/-!
**Interpreter versions.**

A version may be known in part. Components are 32-bit numbers, and a component that is missing sorts
before every component that is present.

Main definitions:
* `Version`, `Version.unknown` — the record, and the version of which nothing is known;
* `Version.completeness`, `Version.moreComplete` — how much is known, and the better of two;
* `Version.render` — the usual spelling, `3.9.0rc1`;
* `Version.compare` — left to right, missing components first.
-/

namespace EnvDiscovery

/-- How far a build is from its release. -/
inductive ReleaseLevel where
  | alpha
  | beta
  | candidate
  | final
deriving DecidableEq, Repr

namespace ReleaseLevel

/-- The position of a level on the way to the release. -/
def rank : ReleaseLevel → Nat
  | alpha => 0
  | beta => 1
  | candidate => 2
  | final => 3

/-- The full name of a level. -/
def name : ReleaseLevel → String
  | alpha => "alpha"
  | beta => "beta"
  | candidate => "candidate"
  | final => "final"

/-- The tag that a version text carries. -/
def tag : ReleaseLevel → String
  | alpha => "a"
  | beta => "b"
  | candidate => "rc"
  | final => ""

/-- All levels, in order. -/
def all : List ReleaseLevel :=
  [alpha, beta, candidate, final]

end ReleaseLevel

/-- A level and the number of the build within it. -/
structure Release where
  level : ReleaseLevel
  serial : UInt32
deriving DecidableEq, Repr

/-- A version, each part of which may be missing. -/
structure Version where
  major : Option UInt32
  minor : Option UInt32
  micro : Option UInt32
  release : Option Release
  sysVersion : Option String
deriving DecidableEq, Repr

namespace Version

/-- The version of which nothing is known. -/
def unknown : Version := ⟨none, none, none, none, none⟩

instance : Inhabited Version := ⟨unknown⟩

/-- Whether not even the major number is known. -/
def isUnknown (v : Version) : Bool :=
  v.major.isNone

/-- Whether the three numbers are known. -/
def isComplete (v : Version) : Bool :=
  v.major.isSome && v.minor.isSome && v.micro.isSome

/-- How many parts are known. -/
def completeness (v : Version) : Nat :=
  ([v.major.isSome, v.minor.isSome, v.micro.isSome, v.release.isSome, v.sysVersion.isSome]).count
    true

/-- The version of which more is known; the first when there is no difference. -/
def moreComplete (a b : Version) : Version :=
  if a.completeness < b.completeness then b else a

/-! ### Spelling -/

/-- The spelling of the release part: nothing for a final release. -/
def renderRelease : Option Release → String
  | none => ""
  | some ⟨.final, _⟩ => ""
  | some ⟨level, serial⟩ => level.tag ++ Text.decimal serial.toNat

/-- The spelling of the numbers after the major one; the third needs the second. -/
def renderMinor : Option UInt32 → Option UInt32 → String
  | none, _ => ""
  | some m, none => "." ++ Text.decimal m.toNat
  | some m, some u => "." ++ Text.decimal m.toNat ++ "." ++ Text.decimal u.toNat

/-- The usual spelling of a version. -/
def render (v : Version) : String :=
  match v.major with
  | none => "unknown"
  | some major => Text.decimal major.toNat ++ renderMinor v.minor v.micro ++ renderRelease v.release

/-! ### Order -/

/-- Compares releases by level, then by serial. -/
def compareRelease (a b : Release) : Ordering :=
  (Ord.compare a.level.rank b.level.rank).then (Ord.compare a.serial b.serial)

/-- Compares parts that may be missing: a missing part comes first. -/
def comparePart {α : Type} (cmp : α → α → Ordering) : Option α → Option α → Ordering
  | none, none => .eq
  | none, some _ => .lt
  | some _, none => .gt
  | some a, some b => cmp a b

/-- Compares versions left to right. -/
def compare (a b : Version) : Ordering :=
  (comparePart Ord.compare a.major b.major).then <|
  (comparePart Ord.compare a.minor b.minor).then <|
  (comparePart Ord.compare a.micro b.micro).then <|
  (comparePart compareRelease a.release b.release).then <|
  comparePart Ord.compare a.sysVersion b.sysVersion

instance : Ord Version := ⟨compare⟩

/-- Sorts versions in ascending order; equal ones keep their places. -/
def sort {α : Type} (f : α → Version) (xs : List α) : List α :=
  xs.mergeSort fun x y => compare (f x) (f y) != .gt

end Version

end EnvDiscovery
