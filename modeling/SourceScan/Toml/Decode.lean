import SourceScan.Text.Quoted
import SourceScan.Number.FloatText
import SourceScan.Toml.Parse
import SourceScan.Toml.Library

/-!
# Decoding documents

The library whose documents are those of `Toml.parse?`. A decoder is a function from values to what
they are decoded as, or to a complaint. Complaints point into the text, so a value comes with the
range to point at when it was not written as a whole (`Located`).

A record in a table is put together from the entries under the names of its fields. If this fails,
the entries are gone through in the order of the document, and the first that does not fit its field
is complained about.
-/

namespace SourceScan.Toml

/-! ## Values -/

def scalarText : Scalar → String
  | .string s => s!"string {Text.quoted s}"
  | .integer n => "integer `" ++ toString n ++ "`"
  | .float x => "floating point `" ++ FloatStyle.positional.render x ++ "`"
  | .boolean b => "boolean `" ++ toString b ++ "`"
  | .moment => "map"

/-- What a value is called in a message. -/
def nodeText : Node → String
  | .scalar _ value => scalarText value
  | .array _ _ => "sequence"
  | .table _ => "map"
  | .tables _ => "sequence"

/-- A value with the range of its key, or of the key of the array that it is in. -/
structure Located where
  place : Range
  node : Node

namespace Located

/-- What a decoder sees of a value. The tables under a repeated header are an array of tables. -/
def shape (v : Located) : Shape Located :=
  match v.node with
  | .scalar _ (.boolean b) => .boolean b
  | .scalar _ .moment => .moment
  | .scalar _ _ => .plain
  | .array _ items => .array (items.map (⟨v.place, ·⟩))
  | .table t => .table (t.entries.map fun e => (e.1.text, ⟨e.1.range, e.2⟩))
  | .tables ts => .array (ts.map (⟨v.place, .table ·⟩))

/-- The complaint about a value. -/
def mismatch (v : Located) (wanted : String) : Mismatch :=
  ⟨nodeText v.node, wanted, v.node.range?.getD v.place⟩

/-- A document as a value. -/
def ofDocument (root : Table) : Located := ⟨⟨0, 0⟩, .table root⟩

end Located

/-! ## Decoders -/

/-- Makes something of a value, or a complaint. -/
def Decoder (α : Type) : Type := Located → Except Mismatch α

namespace Decoder

def run {α : Type} (d : Decoder α) (v : Located) : Except Mismatch α := d v

/-- The decoder of truth values. -/
def flag : Decoder Bool := fun v =>
  match v.shape with
  | .boolean b => .ok b
  | _ => .error (v.mismatch "a boolean")

/-- The complaint about an entry, if it belongs to a field that does not accept it. -/
def complaint? : {α : Type} → Fields Decoder α → String × Located → Option Mismatch
  | _, .start _, _ => none
  | _, .field before name _ decoder, entry =>
    if entry.1 = name then
      match decoder.run entry.2 with
      | .ok _ => none
      | .error m => some m
    else complaint? before entry

/-- **The decoder of a record.** -/
def record {α : Type} (name : String) (fields : Fields Decoder α) : Decoder α := fun v =>
  match v.shape with
  | .table entries =>
    match fields.read run fun _ key => entries.lookup key with
    | .ok a => .ok a
    | .error m => .error ((entries.findSome? (complaint? fields)).getD m)
  | .array items => fields.read run fun i _ => items[i]?
  | .moment => fields.read run fun _ _ => none
  | .boolean _ => .error (v.mismatch s!"struct {name}")
  | .plain => .error (v.mismatch s!"struct {name}")

/-- **Decoding a text.** Of the text, an excerpt around the offending value goes into the error. -/
def fromText {α : Type} (d : Decoder α) (text : String) : Except ParseError α :=
  match parse? text with
  | none => .error .malformed
  | some root =>
    match d.run (.ofDocument root) with
    | .ok a => .ok a
    | .error m => .error (.mismatch (.of text m.range) m)

end Decoder

/-- **The library of these decoders.** -/
def library : Library where
  Value := Located
  shape := Located.shape
  document? text := (parse? text).map .ofDocument
  Decoder := Decoder
  decode? d v := (d.run v).toOption
  flag := Decoder.flag
  record := Decoder.record
  fromText := Decoder.fromText

end SourceScan.Toml
