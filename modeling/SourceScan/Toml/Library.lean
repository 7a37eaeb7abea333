import SourceScan.Toml.Excerpt

/-!
# Libraries for TOML

What a program needs of a library that reads TOML: a text is a document or it is none, a document is
a tree of values, and decoders turn values into data of the program. A decoder of a record is put
together from decoders of its fields (`Fields`).

`Library` lists the operations. `Library.Lawful` states, one by one, the rules by which such
libraries go; statements about programs that use a library take it as their hypothesis.
-/

namespace SourceScan.Toml

/-- **What a value is to a decoder.** -/
inductive Shape (Value : Type) where
  | boolean (b : Bool)
  /-- A date or a time. -/
  | moment
  | array (items : List Value)
  /-- The entries of a table, of whatever spelling, under their keys. -/
  | table (entries : List (String × Value))
  /-- A string or a number. -/
  | plain

/-- **The fields of a record,** in order. What the record is made of them is settled in `start`, by
a function that takes one field after the other. A field has a name and a value that stands in when
it is missing. -/
inductive Fields (Decoder : Type → Type) : Type → Type 1 where
  | start {α : Type} (make : α) : Fields Decoder α
  | field {α β : Type} (before : Fields Decoder (β → α)) (name : String) (missing : β)
      (decoder : Decoder β) : Fields Decoder α

namespace Fields

variable {Decoder : Type → Type} {Value : Type}

/-- How many fields there are. -/
def count : {α : Type} → Fields Decoder α → Nat
  | _, start _ => 0
  | _, field before _ _ _ => before.count + 1

/-- The value of a field, which is decoded if it is there. -/
def value {m : Type → Type} [Monad m] {β : Type} (decode : Value → m β) (missing : β) :
    Option Value → m β
  | none => pure missing
  | some v => decode v

/-- **Making a record of its fields.** Each is looked for by its position and its name (`slot`). The
first failure to decode one is the failure of the whole. -/
def read {m : Type → Type} [Monad m] (decode : {β : Type} → Decoder β → Value → m β)
    (slot : Nat → String → Option Value) : {α : Type} → Fields Decoder α → m α
  | _, start make => pure make
  | _, field before name missing decoder =>
    before.read decode slot <*> value (decode decoder) missing (slot before.count name)

end Fields

/-- **A library for TOML.** -/
structure Library where
  /-- The values in a document, and documents. -/
  Value : Type
  shape : Value → Shape Value
  /-- The document that a text is, if it follows the rules of the format. -/
  document? : String → Option Value
  Decoder : Type → Type
  /-- What a decoder makes of a value, if anything. -/
  decode? : {α : Type} → Decoder α → Value → Option α
  /-- The decoder of truth values. -/
  flag : Decoder Bool
  /-- The decoder of a record with the given name, for messages, and the given fields. -/
  record : {α : Type} → (name : String) → Fields Decoder α → Decoder α
  /-- Decoding a text. -/
  fromText : {α : Type} → Decoder α → String → Except ParseError α

namespace Library

/-- **The rules by which a library goes.** -/
structure Lawful (l : Library) : Prop where
  /-- A document is a table, that of its top-level keys. -/
  document_is_table : ∀ {text : String} {root : l.Value}, l.document? text = some root →
    ∃ entries, l.shape root = .table entries
  /-- A text can be decoded if it is a document and the decoder accepts this. -/
  fromText_eq_ok_iff : ∀ {α : Type} (d : l.Decoder α) (text : String) (a : α),
    l.fromText d text = .ok a ↔ ∃ root, l.document? text = some root ∧ l.decode? d root = some a
  /-- A truth value is decoded as itself, and nothing else is decoded as a truth value. -/
  decode?_flag : ∀ (v : l.Value) (b : Bool), l.decode? l.flag v = some b ↔ l.shape v = .boolean b
  /-- In a table the fields of a record are looked up by their names. Other entries are ignored. -/
  decode?_record_table : ∀ {α : Type} (name : String) (fields : Fields l.Decoder α) {v : l.Value}
    {entries : List (String × l.Value)}, l.shape v = .table entries →
      l.decode? (l.record name fields) v = fields.read l.decode? fun _ key => entries.lookup key
  /-- In an array they are looked up by their positions. Items behind the last are ignored. -/
  decode?_record_array : ∀ {α : Type} (name : String) (fields : Fields l.Decoder α) {v : l.Value}
    {items : List l.Value}, l.shape v = .array items →
      l.decode? (l.record name fields) v = fields.read l.decode? fun i _ => items[i]?
  /-- A date or time is decoded as a table that has none of the fields. -/
  decode?_record_moment : ∀ {α : Type} (name : String) (fields : Fields l.Decoder α) {v : l.Value},
    l.shape v = .moment →
      l.decode? (l.record name fields) v = fields.read l.decode? fun _ _ => none
  /-- A truth value is no record. -/
  decode?_record_boolean : ∀ {α : Type} (name : String) (fields : Fields l.Decoder α) {v : l.Value}
    {b : Bool}, l.shape v = .boolean b → l.decode? (l.record name fields) v = none
  /-- A string or a number is no record. -/
  decode?_record_plain : ∀ {α : Type} (name : String) (fields : Fields l.Decoder α) {v : l.Value},
    l.shape v = .plain → l.decode? (l.record name fields) v = none

end Library

end SourceScan.Toml
