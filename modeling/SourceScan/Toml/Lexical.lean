import SourceScan.Toml.Reader

/-!
# Lexical rules: blanks, comments, strings and keys

Text outside ASCII is allowed in comments and strings, control characters other than the tab are
not. A newline is a line feed, with or without a carriage return before it; a carriage return
alone is allowed nowhere.
-/

namespace SourceScan.Toml.Reader

def isBlank (c : Char) : Bool := c = ' ' || c = '\t'

/-- A character that may stand in a comment: no control character but the tab. -/
def isText (c : Char) : Bool := c = '\t' || (' ' ≤ c && c ≤ '~') || '\x80' ≤ c

def blanks : Reader Unit := do
  let _ ← takeWhile isBlank

def newline : Reader Unit := char '\n' <|> chars ['\r', '\n']

def lineEnd : Reader Unit := newline <|> atEnd

/-- A comment, without the end of its line. -/
def comment : Reader Unit := do
  char '#'
  let _ ← takeWhile isText

/-- What may stand behind a statement: blanks, a comment, the end of the line. -/
def restOfLine : Reader Unit := do
  blanks
  let _ ← optional? comment
  lineEnd

/-- The space between the elements of an array: blanks, newlines, and whole comments. -/
def spacing : Reader Unit := do
  let _ ← many (takeWhile1 isBlank *> pure () <|> newline <|> comment *> newline)

/-! ## Escapes -/

/-- A character by its code point; surrogates and numbers past the last code point are none. -/
def codePoint (digits : Nat) : Reader Char := do
  let n := Digits.toNat 16 (← exactly digits (satisfy (Digits.isIn 16)))
  if n.isValidChar then pure (Char.ofNat n) else failure

/-- What stands behind a backslash. -/
def escaped : Reader Char := do
  match ← satisfy fun _ => true with
  | 'b' => pure '\x08'
  | 't' => pure '\t'
  | 'n' => pure '\n'
  | 'f' => pure '\x0c'
  | 'r' => pure '\r'
  | '"' => pure '"'
  | '\\' => pure '\\'
  | 'u' => codePoint 4
  | 'U' => codePoint 8
  | _ => failure

/-! ## Strings -/

/-- A character that stands for itself between double quotes. -/
def isBasic (c : Char) : Bool := isText c && c != '"' && c != '\\'

/-- A character that may stand between single quotes. -/
def isLiteral (c : Char) : Bool := isText c && c != '\''

def basicString : Reader String := do
  char '"'
  let content ← many (satisfy isBasic <|> char '\\' *> escaped)
  char '"'
  pure (String.ofList content)

def literalString : Reader String := do
  char '\''
  let content ← takeWhile isLiteral
  char '\''
  pure (String.ofList content)

/-- A backslash at the end of a line takes away all white space up to the next character. -/
def joinedLines : Reader Unit := do
  char '\\'
  blanks
  newline
  let _ ← many (takeWhile1 isBlank *> pure () <|> newline)

/-- One quote, or two, when they do not belong to the three that close the string. -/
def innerQuotes (quote : Char) : Reader (List Char) :=
  (chars [quote, quote] *> ahead (satisfy (· != quote)) *> pure [quote, quote])
    <|> (char quote *> ahead (satisfy (· != quote)) *> pure [quote])

/-- The end of a string in triple quotes. One or two more quotes right before it belong to the
content. -/
def closingQuotes (quote : Char) : Reader (List Char) :=
  let three := chars [quote, quote, quote]
  (chars [quote, quote] *> three *> pure [quote, quote])
    <|> (char quote *> three *> pure [quote])
    <|> (three *> pure [])

/-- A string in triple quotes, given the rule for a piece of its content. A newline right behind
the opening quotes is not part of it. -/
def multiline (quote : Char) (piece : Reader (List Char)) : Reader String := do
  chars [quote, quote, quote]
  let _ ← optional? newline
  let content ← many (piece <|> innerQuotes quote)
  let last ← closingQuotes quote
  pure (String.ofList (content.flatten ++ last))

/-- A string in triple double quotes. Newlines are kept, as line feeds. -/
def multilineBasicString : Reader String :=
  multiline '"' <|
    takeWhile1 isBasic
      <|> joinedLines *> pure []
      <|> (do char '\\'; pure [← escaped])
      <|> newline *> pure ['\n']

/-- A string in triple single quotes. Newlines are kept, as line feeds. -/
def multilineLiteralString : Reader String :=
  multiline '\'' (takeWhile1 isLiteral <|> newline *> pure ['\n'])

/-- Any string. Three quotes open a string of several lines. -/
def string : Reader String :=
  multilineBasicString <|> basicString <|> multilineLiteralString <|> literalString

/-! ## Keys -/

def isBare (c : Char) : Bool := c.isAlphanum || c = '_' || c = '-'

def simpleKey : Reader Key := do
  let (text, range) ← ranged (basicString <|> literalString
    <|> String.ofList <$> takeWhile1 isBare)
  pure ⟨text, range⟩

/-- The parts a dotted key may have. -/
def maxKeyParts : Nat := 79

/-- A key: parts with dots in between, and blanks around each. -/
def key : Reader (List Key) := do
  let parts ← separated1 (blanks *> simpleKey <* blanks) (char '.')
  if parts.length ≤ maxKeyParts then pure parts else failure

end SourceScan.Toml.Reader
