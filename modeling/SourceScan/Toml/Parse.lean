import SourceScan.Toml.Lexical
import SourceScan.Toml.Number
import SourceScan.Toml.Document

/-!
# Reading documents

A text is read into statements line by line, and the statements are carried out. Arrays and braced
tables may be nested in each other up to a fixed depth, which is what bounds the recursion of the
rule for values.
-/

namespace SourceScan.Toml

namespace Reader

def boolean : Reader Bool :=
  chars ['t', 'r', 'u', 'e'] *> pure true <|> chars ['f', 'a', 'l', 's', 'e'] *> pure false

/-- A value without parts. What starts like a number is a date or time if it can be read as one,
then a float, then an integer. -/
def scalar : Reader Scalar :=
  Scalar.string <$> string
    <|> Scalar.boolean <$> boolean
    <|> moment *> pure Scalar.moment
    <|> Scalar.float <$> float
    <|> Scalar.integer <$> integer

/-- The elements between brackets, which may stand on several lines and end in a comma. -/
def arrayItems (item : Reader Node) : Reader (List Node) := do
  char '['
  let items ← (do
    let items ← separated1 (spacing *> item <* spacing) (char ',')
    let _ ← optional? (char ',')
    pure items) <|> pure []
  spacing
  char ']'
  pure items

/-- A key and its value, where the value is followed by whatever may follow it here. -/
def pair (value : Reader Node) : Reader Pair := do
  let parts ← key
  char '='
  blanks
  let value ← value
  match parts.getLast? with
  | some last => pure ⟨⟨parts.dropLast, last⟩, value⟩
  | none => failure

/-- The pairs between braces, on one line and without a comma at the end. -/
def bracedPairs (value : Reader Node) : Reader (List Pair) := do
  char '\x7b'
  let pairs ← separated (pair value <* blanks) (char ',')
  blanks
  char '\x7d'
  pure pairs

/-- **A value,** with arrays and braced tables nested in each other up to a depth. -/
def value : Nat → Reader Node
  | 0 => plainValue
  | depth + 1 => plainValue
    <|> (do
      let (items, range) ← ranged (arrayItems (value depth))
      pure (.array range items))
    <|> (do
      let (pairs, range) ← ranged (bracedPairs (value depth))
      let t ← liftM (Table.ofBraces? range pairs)
      pure (.table t))
where
  /-- A value without parts, with its bytes. -/
  plainValue : Reader Node := do
    let (value, range) ← ranged scalar
    pure (.scalar range value)

def maxDepth : Nat := 79

/-- The key in a header, between the given brackets. -/
def headerKey (opening closing : List Char) : Reader (List Key) :=
  chars opening *> key <* chars closing

/-- A header. Two brackets are a repeated header, whatever follows. -/
def header : Reader Header := do
  let repeated := (← optional? (ahead (chars ['[', '[']))).isSome
  let (parts, range) ← ranged <|
    if repeated then headerKey ['[', '['] [']', ']'] else headerKey ['['] [']']
  match parts.getLast? with
  | some last => pure ⟨repeated, ⟨parts.dropLast, last⟩, range⟩
  | none => failure

def line : Reader (Option Statement) :=
  comment *> lineEnd *> pure none
    <|> newline *> pure none
    <|> (do let h ← header; restOfLine; pure (some (.header h)))
    <|> (do let p ← pair (value maxDepth); restOfLine; pure (some (.pair p)))

def lines : Reader (List Statement) := do
  let _ ← optional? (char '\ufeff')
  blanks
  let lines ← many (line <* blanks)
  atEnd
  pure (lines.filterMap id)

end Reader

/-- The statements of a text, if it follows the rules. -/
def statements? (text : String) : Option (List Statement) :=
  (Reader.lines.run ⟨text.toList, 0⟩).map (·.1)

/-- **The document of a text,** or nothing if the text is not a valid document. -/
def parse? (text : String) : Option Table := (statements? text).bind Table.ofStatements?

end SourceScan.Toml
