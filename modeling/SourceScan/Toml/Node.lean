import SourceScan.Number.Binary64

/-!
# TOML documents

A document as a tree. Every value and every key has the range of bytes of the text that it was
written in, so that a later complaint can point at them.

Tables come about in several ways, and the way decides who may still add to them. A table written
as `{ … }` is complete. One opened by a header may be filled below that header only. The tables on
the way to a header's last key come about by themselves, and so do the tables on the way to the
last part of a dotted key; neither is written anywhere as a whole, so they have no bytes of their
own.
-/

namespace SourceScan.Toml

/-- A range of bytes of the text. -/
structure Range where
  start : Nat
  stop : Nat
deriving DecidableEq, Inhabited

/-- A key, or one part of a dotted key. Keys are compared by their text. -/
structure Key where
  text : String
  range : Range
deriving DecidableEq, Inhabited

/-- Values without parts. Dates and times are checked when they are read and then all alike. -/
inductive Scalar where
  | string (text : String)
  | integer (value : Int)
  | float (value : Binary64)
  | boolean (value : Bool)
  | moment
deriving DecidableEq, Inhabited

/-- How a table came about. -/
inductive TableForm where
  /-- Written between braces. -/
  | braced
  /-- Named on the way of a dotted key between braces. -/
  | bracedDotted
  /-- Opened by a header, or the document itself. -/
  | headed
  /-- Named on the way of a header. -/
  | passed
  /-- Named on the way of a dotted key. -/
  | dotted
deriving DecidableEq, Inhabited

mutual

/-- **A value in a document.** -/
inductive Node where
  | scalar (range : Range) (value : Scalar)
  | array (range : Range) (items : List Node)
  | table (t : Table)
  /-- The tables under one repeated header `[[…]]`, of which there is at least one. -/
  | tables (ts : List Table)

/-- **A table,** with its entries in the order in which their keys came up. -/
inductive Table where
  | mk (form : TableForm) (range : Option Range) (entries : List (Key × Node))

end

instance : Inhabited Table := ⟨.mk .headed none []⟩

namespace Table

def form : Table → TableForm
  | mk form _ _ => form

/-- The bytes a table was written in, if it was written as a whole. -/
def range? : Table → Option Range
  | mk _ range _ => range

def entries : Table → List (Key × Node)
  | mk _ _ entries => entries

/-- The value under a key. -/
def find? (t : Table) (key : String) : Option Node :=
  (t.entries.find? fun e => e.1.text == key).map (·.2)

def append (t : Table) (key : Key) (node : Node) : Table :=
  mk t.form t.range? (t.entries ++ [(key, node)])

def erase (t : Table) (key : String) : Table :=
  mk t.form t.range? (t.entries.filter fun e => e.1.text != key)

/-- Puts another value under a key that has one already. -/
def replace (t : Table) (key : String) (node : Node) : Table :=
  mk t.form t.range? (t.entries.map fun e => if e.1.text == key then (e.1, node) else e)

/-- The same entries under another form, written somewhere else. -/
def reform (t : Table) (form : TableForm) (range : Option Range) : Table :=
  mk form range t.entries

end Table

/-- The bytes a value was written in. Repeated tables reach from the first to the last. -/
def Node.range? : Node → Option Range
  | .scalar range _ => some range
  | .array range _ => some range
  | .table t => t.range?
  | .tables ts =>
    match ts.head?.bind Table.range?, ts.getLast?.bind Table.range? with
    | some first, some last => some ⟨first.start, last.stop⟩
    | _, _ => none

end SourceScan.Toml
