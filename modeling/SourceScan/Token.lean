import SourceScan.Span
import SourceScan.Log
import SourceScan.Number.FloatText

/-!
# Tokens

The words of the scanned language: nineteen operators and marks whose text is fixed, two kinds of
literal, and the end of the input, which closes every list of tokens.

Tokens are values, so `=` compares them field by field, numbers by their bits.
`Token.sameValue` compares numbers as numbers instead.
-/

namespace SourceScan

/-- What kind of word a token is. -/
inductive TokenKind where
  | leftParen
  | rightParen
  | leftBrace
  | rightBrace
  | comma
  | dot
  | minus
  | plus
  | semicolon
  | slash
  | star
  | bang
  | bangEqual
  | equal
  | equalEqual
  | less
  | lessEqual
  | greater
  | greaterEqual
  | string
  | number
  | endOfInput
deriving DecidableEq, Inhabited

namespace TokenKind

/-- Every kind, in the order of their numbers. -/
def all : List TokenKind :=
  [leftParen, rightParen, leftBrace, rightBrace, comma, dot, minus, plus, semicolon, slash, star,
    bang, bangEqual, equal, equalEqual, less, lessEqual, greater, greaterEqual,
    string, number, endOfInput]

/-- The number of a kind, counted from zero. -/
def index (k : TokenKind) : Nat := all.idxOf k

/-- The text of the words that can be written in one way only. -/
def text? : TokenKind → Option String
  | leftParen => some "("
  | rightParen => some ")"
  | leftBrace => some "\x7b"
  | rightBrace => some "\x7d"
  | comma => some ","
  | dot => some "."
  | minus => some "-"
  | plus => some "+"
  | semicolon => some ";"
  | slash => some "/"
  | star => some "*"
  | bang => some "!"
  | bangEqual => some "!="
  | equal => some "="
  | equalEqual => some "=="
  | less => some "<"
  | lessEqual => some "<="
  | greater => some ">"
  | greaterEqual => some ">="
  | string => none
  | number => none
  | endOfInput => none

def name : TokenKind → String
  | leftParen => "LEFT_PAREN"
  | rightParen => "RIGHT_PAREN"
  | leftBrace => "LEFT_BRACE"
  | rightBrace => "RIGHT_BRACE"
  | comma => "COMMA"
  | dot => "DOT"
  | minus => "MINUS"
  | plus => "PLUS"
  | semicolon => "SEMICOLON"
  | slash => "SLASH"
  | star => "STAR"
  | bang => "BANG"
  | bangEqual => "BANG_EQUAL"
  | equal => "EQUAL"
  | equalEqual => "EQUAL_EQUAL"
  | less => "LESS"
  | lessEqual => "LESS_EQUAL"
  | greater => "GREATER"
  | greaterEqual => "GREATER_EQUAL"
  | string => "STRING"
  | number => "NUMBER"
  | endOfInput => "EOF"

instance : ToString TokenKind := ⟨name⟩

/-- The kinds whose tokens carry a value. -/
def isLiteral : TokenKind → Bool
  | string => true
  | number => true
  | _ => false

/-- The word that a character makes on its own. -/
def ofChar? : Char → Option TokenKind
  | '(' => some leftParen
  | ')' => some rightParen
  | '\x7b' => some leftBrace
  | '\x7d' => some rightBrace
  | ',' => some comma
  | '.' => some dot
  | '-' => some minus
  | '+' => some plus
  | ';' => some semicolon
  | '/' => some slash
  | '*' => some star
  | '!' => some bang
  | '=' => some equal
  | '<' => some less
  | '>' => some greater
  | _ => none

/-- The word that one of the comparison operators becomes when `=` follows it. -/
def withEqual? : TokenKind → Option TokenKind
  | bang => some bangEqual
  | equal => some equalEqual
  | less => some lessEqual
  | greater => some greaterEqual
  | _ => none

end TokenKind

/-- The value of a literal: a number, or the text between the quotes of a string. -/
inductive Literal where
  | number (value : Binary64)
  | string (text : String)
deriving DecidableEq, Inhabited

namespace Literal

/-- A number as the shortest digits that read back, a string as it is. -/
def text : Literal → String
  | number x => FloatStyle.moderate.render x
  | string s => s

instance : ToString Literal := ⟨text⟩

/-- Equality of values: numbers are compared as numbers. -/
def sameValue : Literal → Literal → Bool
  | number x, number y => x.equal y
  | string s, string t => s == t
  | _, _ => false

end Literal

/-- Where a token stands: the span of its text, and the line that the token itself is on. -/
structure Token.Site where
  span : Span
  line : Nat
deriving DecidableEq, Inhabited

/-- The site of a span takes its line from it. -/
def Token.Site.of (s : Span) : Token.Site := ⟨s, s.line⟩

instance : Coe Span Token.Site := ⟨Token.Site.of⟩

/-- **One word of the source,** with its text, its value if it is a literal, and its site. -/
structure Token where
  kind : TokenKind
  lexeme : String
  literal : Option Literal
  site : Token.Site
deriving DecidableEq, Inhabited

namespace Token

/-- **A token with a span.** Its line is that of the span. -/
def new (kind : TokenKind) (lexeme : String) (literal : Option Literal) (span : Span) : Token :=
  ⟨kind, lexeme, literal, .of span⟩

/-- The token that closes every list. It has no text and stands behind the last character. -/
def endOfInput (line column offset : Nat) : Token :=
  .new .endOfInput "" none ⟨offset, offset, line, column⟩

/-- The bytes of the text, and the line and the column where it begins. -/
def span (t : Token) : Span := t.site.span

def line (t : Token) : Nat := t.site.line

section New

variable (kind : TokenKind) (lexeme : String) (literal : Option Literal) (span : Span)

@[simp]
theorem new_kind : (new kind lexeme literal span).kind = kind := rfl

@[simp]
theorem new_lexeme : (new kind lexeme literal span).lexeme = lexeme := rfl

@[simp]
theorem new_literal : (new kind lexeme literal span).literal = literal := rfl

@[simp]
theorem new_span : (new kind lexeme literal span).span = span := rfl

@[simp]
theorem new_line : (new kind lexeme literal span).line = span.line := rfl

end New

def isEnd (t : Token) : Bool := t.kind == .endOfInput

/-- One line of a token dump: the kind, the text, and the value or `null`. -/
def text (t : Token) : String :=
  match t.literal with
  | some literal => s!"{t.kind} {t.lexeme} {literal}"
  | none => s!"{t.kind} {t.lexeme} null"

instance : ToString Token := ⟨text⟩

/-- Equality of tokens where numbers are compared as numbers. -/
def sameValue (s t : Token) : Bool :=
  s.kind == t.kind && s.lexeme == t.lexeme && s.line == t.line && s.span == t.span &&
    match s.literal, t.literal with
    | none, none => true
    | some a, some b => a.sameValue b
    | _, _ => false

def logEntry (t : Token) : Log.Entry := ⟨.trace, s!"{t} at {t.span}"⟩

end Token

end SourceScan
