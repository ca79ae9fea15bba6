/-!
**Reading bytes as text.**

Output of a program is read as UTF-8. Where the bytes are not well formed, the longest start of a
possible character, or else a single byte, becomes one replacement character.

A file name may have bytes that are part of no character. In a text such a stray byte is one of the
last 128 characters of all, which are for private use and stand for nothing else here. A text is
shown with replacement characters for them.

Main definitions:
* `Text.Utf8.Pending` — a character whose remaining bytes are awaited;
* `Text.decodeLossy` — bytes to text, never failing;
* `Text.bytes` — the UTF-8 bytes of a text;
* `Text.isStray`, `Text.ofBytes`, `Text.rawBytes` — texts with stray bytes;
* `Text.shown` — how they are shown.
-/

namespace EnvDiscovery.Text

namespace Utf8

/-- The replacement character. -/
def replacement : Char := Char.ofNat 0xFFFD

/-- A character under way: the bits read so far and the ranges of the bytes still due. -/
structure Pending where
  bits : Nat
  due : List (Nat × Nat)

/-- The range of an ordinary continuation byte. -/
def tail : Nat × Nat := (0x80, 0xBF)

/-- What a byte does outside a character: it is one, starts one, or is replaced. -/
def start (b : Nat) : List Char × Option Pending :=
  if b < 0x80 then ([Char.ofNat b], none)
  else if b < 0xC2 then ([replacement], none)
  else if b < 0xE0 then ([], some ⟨b - 0xC0, [tail]⟩)
  else if b = 0xE0 then ([], some ⟨0, [(0xA0, 0xBF), tail]⟩)
  else if b = 0xED then ([], some ⟨0xD, [(0x80, 0x9F), tail]⟩)
  else if b < 0xF0 then ([], some ⟨b - 0xE0, [tail, tail]⟩)
  else if b = 0xF0 then ([], some ⟨0, [(0x90, 0xBF), tail, tail]⟩)
  else if b < 0xF4 then ([], some ⟨b - 0xF0, [tail, tail, tail]⟩)
  else if b = 0xF4 then ([], some ⟨4, [(0x80, 0x8F), tail, tail]⟩)
  else ([replacement], none)

/-- What a byte does after the given start of a character. -/
def step (pending : Option Pending) (b : Nat) : List Char × Option Pending :=
  match pending with
  | none => start b
  | some ⟨_, []⟩ => start b
  | some ⟨bits, (lo, hi) :: due⟩ =>
    if lo ≤ b ∧ b ≤ hi then
      let bits := bits * 64 + (b - 0x80)
      if due.isEmpty then ([Char.ofNat bits], none) else ([], some ⟨bits, due⟩)
    else
      let (cs, next) := start b
      (replacement :: cs, next)

/-- The characters of a byte sequence that continues a character under way. -/
def decode (pending : Option Pending) : List UInt8 → List Char
  | [] => if pending.isSome then [replacement] else []
  | b :: bs =>
    let (cs, next) := step pending b.toNat
    cs ++ decode next bs

end Utf8

/-- The text of a byte sequence, with replacement characters where it is not well formed. -/
def decodeLossy (bytes : List UInt8) : String :=
  String.ofList (Utf8.decode none bytes)

/-- The UTF-8 bytes of a text. -/
def bytes (s : String) : List UInt8 :=
  s.toUTF8.toList

/-! ### Stray bytes -/

/-- Whether a character stands for a stray byte. -/
def isStray (c : Char) : Bool :=
  0x10FF80 ≤ c.toNat

/-- The character that stands for a stray byte, which is at least 128. -/
def stray (b : UInt8) : Char :=
  Char.ofNat (0x10FF00 + b.toNat)

/-- The byte that a character stands for. -/
def strayByte (c : Char) : UInt8 :=
  UInt8.ofNat (c.toNat - 0x10FF00)

/-- The bytes of a character: the one that it stands for, or those of its encoding. -/
def rawBytesOf (c : Char) : List UInt8 :=
  if isStray c then [strayByte c] else String.utf8EncodeChar c

/-- The bytes of a text with stray bytes. -/
def rawBytes (s : String) : List UInt8 :=
  s.toList.flatMap rawBytesOf

namespace Utf8

/-- Whether a byte belongs to a character under way. -/
def Pending.takes (p : Pending) (b : UInt8) : Bool :=
  p.due.head?.any fun (lo, hi) => lo ≤ b.toNat && b.toNat ≤ hi

/-- The characters that bytes are kept as: the character that they make up, or stray bytes if they
make up none or one that stands for a stray byte. -/
def kept (held : List UInt8) : List Char :=
  match decode none held with
  | [c] => if c == replacement && held.length < 3 || isStray c then held.map stray else [c]
  | _ => held.map stray

/-- The characters of a byte sequence that continues a character under way, whose bytes so far are
`held`. -/
def keep (held : List UInt8) (pending : Option Pending) : List UInt8 → List Char
  | [] => held.map stray
  | b :: bs =>
    let next := (step pending b.toNat).2
    if pending.any (·.takes b) then
      if next.isSome then keep (held ++ [b]) next bs else kept (held ++ [b]) ++ keep [] none bs
    else
      held.map stray ++ if next.isSome then keep [b] next bs else kept [b] ++ keep [] none bs

/-- The characters that are shown for a text that continues a character under way. -/
def reveal (pending : Option Pending) : List Char → List Char
  | [] => if pending.isSome then [replacement] else []
  | c :: cs =>
    if isStray c then
      let (out, next) := step pending (strayByte c).toNat
      out ++ reveal next cs
    else (if pending.isSome then [replacement] else []) ++ c :: reveal none cs

end Utf8

/-- The text of a byte sequence, in which bytes that are part of no character are kept. -/
def ofBytes (bytes : List UInt8) : String :=
  String.ofList (Utf8.keep [] none bytes)

/-- What is shown for a text with stray bytes: these are read like the output of a program, and all
other characters stay. -/
@[irreducible] def shown (s : String) : String :=
  if s.toList.any isStray then String.ofList (Utf8.reveal none s.toList) else s

end EnvDiscovery.Text
