import SourceScan.Toml.Node

/-!
# From statements to a document

The lines of a document are statements: a key is given a value, or a header opens a table. The lines
up to the first header fill the document itself, those behind a header the table it opens.

The statements of a document are carried out in order. Each adds one entry, possibly deep inside
the tree; the way there runs through tables that are there already, or that come about on the way.
A statement that meets a value where it needs a table, a table that is closed to it, or a key that
is taken, makes the document invalid.
-/

namespace SourceScan.Toml

/-! ## Statements -/

/-- A path of keys that ends in `last`. -/
structure KeyPath where
  parents : List Key
  last : Key
deriving DecidableEq, Inhabited

/-- A key and the value given to it. -/
structure Pair where
  path : KeyPath
  value : Node

/-- A header. A repeated one, `[[…]]`, opens a new table in an array. -/
structure Header where
  repeated : Bool
  path : KeyPath
  range : Range
deriving DecidableEq, Inhabited

/-- One line of a document. -/
inductive Statement where
  | pair (p : Pair)
  | header (h : Header)

/-- A header with the lines below it. -/
structure Section where
  header : Header
  pairs : List Pair

/-- The lines before the first header, and the sections. -/
def sections : List Statement → List Pair × List Section
  | [] => ([], [])
  | .pair p :: rest => let (ps, ss) := sections rest; (p :: ps, ss)
  | .header h :: rest => let (ps, ss) := sections rest; ([], ⟨h, ps⟩ :: ss)

/-! ## Ways through the tree -/

/-- Who is on the way through the tree. -/
inductive Walk where
  /-- A header. -/
  | header
  /-- A dotted key on a line of its own. -/
  | dotted
  /-- A dotted key between braces. -/
  | braced
deriving DecidableEq, Inhabited

namespace Walk

/-- The form of a table that comes about on the way. -/
def leaves : Walk → TableForm
  | header => .passed
  | dotted => .dotted
  | braced => .bracedDotted

/-- **Which tables may be entered.** A header passes through every table but those between braces.
A dotted key passes through tables that were never written as a whole: adding to a table which a
header or braces have defined would define it twice. -/
def mayEnter : Walk → TableForm → Bool
  | header, form => form = .headed || form = .passed || form = .dotted
  | dotted, form => form = .passed || form = .dotted
  | braced, form => form = .bracedDotted

end Walk

namespace Table

/-- **Changing the table at the end of a path.** Missing tables come about; at repeated tables the
way goes on in the last one, for a dotted key too. -/
def alterAt (walk : Walk) (f : Table → Option Table) : List Key → Table → Option Table
  | [], t => f t
  | k :: path, t =>
    match t.find? k.text with
    | none => do
      let child ← alterAt walk f path (.mk walk.leaves none [])
      some (t.append k (.table child))
    | some (.table child) =>
      if walk.mayEnter child.form then do
        let child ← alterAt walk f path child
        some (t.replace k.text (.table child))
      else none
    | some (.tables children) => do
      let last ← children.getLast?
      let last ← alterAt walk f path last
      some (t.replace k.text (.tables (children.dropLast ++ [last])))
    | some _ => none

/-- The table may take the last part of a key directly. Behind a dotted path only a table that
dotted keys made may, so that `a.b = 1` does not add to a table `a` which a header passes
through. -/
def takesLast (t : Table) (path : List Key) : Bool :=
  path.isEmpty != (t.form = .dotted || t.form = .bracedDotted)

/-- Gives a key a value; the key must be free. -/
def insertPair (walk : Walk) (t : Table) (p : Pair) : Option Table :=
  t.alterAt walk (fun t =>
    if t.takesLast p.path.parents && (t.find? p.path.last.text).isNone then
      some (t.append p.path.last p.value)
    else none) p.path.parents

def insertPairs (walk : Walk) (t : Table) (ps : List Pair) : Option Table :=
  ps.foldlM (insertPair walk) t

def ofBraces? (range : Range) (ps : List Pair) : Option Table :=
  insertPairs .braced (.mk .braced (some range) []) ps

/-- The bytes of a section: from its header to the end of its last value. -/
def sectionRange (s : Section) : Range :=
  match s.pairs.getLast?.bind (·.value.range?) with
  | some last => ⟨s.header.range.start, last.stop⟩
  | none => s.header.range

/-- Fills the table that a section opens. -/
def fillSection (t : Table) (s : Section) : Option Table :=
  insertPairs .dotted (t.reform .headed (some (sectionRange s))) s.pairs

/-- **Carrying out a section.** A repeated header adds one more table under its key. Any other
header needs a key that is free, or a table that a header passed through; such a table keeps its
entries and moves to the place of the header. -/
def insertSection (root : Table) (s : Section) : Option Table :=
  let key := s.header.path.last
  root.alterAt .header (fun parent =>
    match s.header.repeated, parent.find? key.text with
    | true, none => do
      let t ← fillSection default s
      some (parent.append key (.tables [t]))
    | true, some (.tables ts) => do
      let t ← fillSection default s
      some (parent.replace key.text (.tables (ts ++ [t])))
    | false, none => do
      let t ← fillSection default s
      some (parent.append key (.table t))
    | false, some (.table passed) =>
      if passed.form = .passed then do
        let t ← fillSection passed s
        some ((parent.erase key.text).append key (.table t))
      else none
    | _, _ => none) s.header.path.parents

/-- **The document that a list of statements describes,** if they agree with each other. -/
def ofStatements? (statements : List Statement) : Option Table := do
  let (pairs, sections) := sections statements
  let root ← insertPairs .dotted default pairs
  sections.foldlM insertSection root

end Table

end SourceScan.Toml
