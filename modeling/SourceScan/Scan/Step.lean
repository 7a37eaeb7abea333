import SourceScan.Cursor
import SourceScan.Token
import SourceScan.Diagnostic

/-!
# One step of the scan

A step starts at a cursor that is not at the end and reads one lexeme: as much text as makes one
word, one comment, one blank, or one piece the language has no use for. The first character
decides which, and at most two characters behind the lexeme are looked at to see where it ends.

Words:

* the marks and operators of `TokenKind.text?`; `!`, `=`, `<` and `>` take in an `=` that follows;
* numbers: digits, and a point with digits if a digit follows the point;
* strings: everything between two double quotes, newlines included, nothing escaped.

Between words stand blanks, and comments from `//` up to the end of the line, newline excluded.
-/

namespace SourceScan

/-- What can be wrong with a piece of source. -/
inductive Fault where
  | unexpectedCharacter
  | unterminatedString
  | invalidNumber (text : String)
deriving DecidableEq, Inhabited

namespace Fault

def code : Fault → DiagnosticCode
  | unexpectedCharacter => .unexpectedCharacter
  | unterminatedString => .unterminatedString
  | invalidNumber _ => .invalidNumber

def message : Fault → String
  | unexpectedCharacter => "Unexpected character."
  | unterminatedString => "Unterminated string."
  | invalidNumber text => s!"Invalid number literal '{text}': invalid float literal"

def diagnostic (f : Fault) (span : Span) : Diagnostic :=
  (((Diagnostic.Draft.error f.message).setCode f.code).setSpan span).build

end Fault

/-- What a step found: a word, a fault to report, or text without meaning. -/
inductive Finding where
  | token (t : Token)
  | fault (d : Diagnostic)
  | blank
deriving DecidableEq, Inhabited

/-- Blanks separate words and mean nothing. -/
def isBlank (c : Char) : Bool := c = ' ' || c = '\r' || c = '\t' || c = '\n'

namespace Cursor

variable {source : String}

def spanTo (c d : Cursor source) : Span := ⟨c.offset, d.offset, c.line, c.column⟩

def tokenTo (c d : Cursor source) (kind : TokenKind) (literal : Option Literal) : Token :=
  .new kind (c.textTo d) literal (c.spanTo d)

/-- **The place of a fault.** It is reported on the line where the lexeme ends. On that line it
has the column where the lexeme starts, or, when the lexeme started on an earlier line, the column
where it ends. -/
def faultSpanTo (c d : Cursor source) : Span :=
  ⟨c.offset, d.offset, d.line, if d.line = c.line then c.column else d.column⟩

def faultTo (c d : Cursor source) (f : Fault) : Diagnostic := f.diagnostic (c.faultSpanTo d)

/-- **One step of the scan:** what was found, and the cursor behind it, which has moved on. -/
structure Step (start : Cursor source) where
  finding : Finding
  stop : Cursor source
  moves : start.pos < stop.pos

/-- Behind the digits at a cursor and, if a point and a digit come next, behind the digits that
follow the point. -/
def skipNumber (c : Cursor source) : Cursor source :=
  let whole := c.skipWhile Char.isDigit
  if whole.head? = some '.' ∧ whole.tail.head?.any Char.isDigit then
    whole.tail.skipWhile Char.isDigit
  else whole

theorem pos_le_pos_skipNumber (c : Cursor source) : c.pos ≤ c.skipNumber.pos := by
  have h := pos_le_pos_skipWhile Char.isDigit c
  simp only [skipNumber]
  split
  · exact String.Pos.le_trans h
      (String.Pos.le_trans (pos_le_pos_tail _) (pos_le_pos_skipWhile _ _))
  · exact h

variable (start : Cursor source) (h : ¬ start.AtEnd)

/-- A mark or operator whose first character has been read; an `=` behind a comparison operator
belongs to it. -/
def operatorStep (kind : TokenKind) : Step start :=
  match kind.withEqual?, he : (start.next h).accept? '=' with
  | some longer, some stop =>
    ⟨.token (start.tokenTo stop longer none), stop,
      String.Pos.lt_of_lt_of_le (pos_lt_pos_next start h) (pos_le_of_accept? he)⟩
  | _, _ =>
    ⟨.token (start.tokenTo (start.next h) kind none), start.next h, pos_lt_pos_next start h⟩

/-- A comment runs up to the next newline. -/
def commentStep (slashes : Cursor source) (hs : start.pos < slashes.pos) : Step start :=
  ⟨.blank, slashes.skipWhile (· != '\n'),
    String.Pos.lt_of_lt_of_le hs (pos_le_pos_skipWhile _ _)⟩

/-- A string whose opening quote has been read runs up to the next quote. Without one it takes up
all that is left and is a fault. -/
def stringStep : Step start :=
  let content := (start.next h).skipWhile (· != '"')
  have hc : start.pos < content.pos :=
    String.Pos.lt_of_lt_of_le (pos_lt_pos_next start h) (pos_le_pos_skipWhile _ _)
  if content.AtEnd then ⟨.fault (start.faultTo content .unterminatedString), content, hc⟩
  else
    ⟨.token (start.tokenTo content.tail .string
        (some (.string ((start.next h).textTo content)))),
      content.tail, String.Pos.lt_of_lt_of_le hc (pos_le_pos_tail _)⟩

def numberStep : Step start :=
  let stop := (start.next h).skipNumber
  let text := start.textTo stop
  ⟨match Binary64.read? text.toList with
    | some value => .token (start.tokenTo stop .number (some (.number value)))
    | none => .fault (start.faultTo stop (.invalidNumber text)),
    stop, String.Pos.lt_of_lt_of_le (pos_lt_pos_next start h) (pos_le_pos_skipNumber _)⟩

/-- **The step at a cursor.** -/
def step : Step start :=
  let after := start.next h
  have ha : start.pos < after.pos := pos_lt_pos_next start h
  if start.head h = '/' then
    match hs : after.accept? '/' with
    | some slashes =>
      start.commentStep slashes (String.Pos.lt_of_lt_of_le ha (pos_le_of_accept? hs))
    | none => start.operatorStep h .slash
  else match TokenKind.ofChar? (start.head h) with
  | some kind => start.operatorStep h kind
  | none =>
    if isBlank (start.head h) then ⟨.blank, after, ha⟩
    else if start.head h = '"' then start.stringStep h
    else if (start.head h).isDigit then start.numberStep h
    else ⟨.fault (start.faultTo after .unexpectedCharacter), after, ha⟩

end Cursor

end SourceScan
