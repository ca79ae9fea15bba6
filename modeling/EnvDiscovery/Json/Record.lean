import EnvDiscovery.Json.Decoder
import EnvDiscovery.Json.Text

/-!
**Decoding records straight from text.**

Here only the fields that the record knows are evaluated, and none of them may be given twice.

Main definitions:
* `Json.Written.asRecord?` — the fields of a written record;
* `Json.readRecord?` — the same from a text.
-/

namespace EnvDiscovery.Json

/-- The value of a part of a record. -/
def foundOf (w : Written) : Found :=
  match w.eval? (depthLimit - 1) with
  | some v => .value v
  | none => .invalid

/-- The fields of a written record. Every name must be a text, and a known one may occur once. -/
def Written.asRecord? (known : List String) : Written → Option Fields
  | .record fields => do
    let names ← fields.mapM fun (name, _) => stringOf? name
    if known.any fun n => 1 < names.count n then none
    let named := names.zip (fields.map Prod.snd)
    some ⟨fun name _ =>
      match named.lookup name with
      | some w => foundOf w
      | none => .omitted⟩
  | .list items =>
    if items.length ≤ known.length then
      some ⟨fun _ place =>
        match items[place]? with
        | some w => foundOf w
        | none => .short⟩
    else none
  | _ => none

/-- The fields of the record that a text writes. -/
def readRecord? (known : List String) (cs : List Char) : Option Fields :=
  (readWritten? cs).bind (Written.asRecord? known)

end EnvDiscovery.Json
