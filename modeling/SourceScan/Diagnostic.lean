import SourceScan.Span
import SourceScan.Log

/-!
# Diagnostics

A diagnostic is one message about the source: how severe it is, where it stands, and optionally a
code and further notes. There are two ways to make one. A span known from the start allows
`Diagnostic.plain` and its modifiers; a `Diagnostic.Draft` collects the parts in any order and is
`build` at the end.

A code names a kind of problem: a family, such as `E`, and a number within it. Its text is the
family followed by the number in decimal, with zeros in front up to four digits.
-/

namespace SourceScan

/-! ## Codes -/

/-- The identifier of one kind of problem. -/
structure DiagnosticCode where
  family : String
  number : Nat
deriving DecidableEq, Inhabited

namespace DiagnosticCode

def width : Nat := 4

/-- The characters of a code: the family, then the padded number. -/
def chars (c : DiagnosticCode) : List Char :=
  c.family.toList ++ (Nat.toDigits 10 c.number).leftpad width '0'

def text (c : DiagnosticCode) : String := String.ofList c.chars

instance : ToString DiagnosticCode := ⟨text⟩

/-- The text that tells a code apart from other values when a program's state is dumped. -/
def labelled (c : DiagnosticCode) : String := s!"DiagnosticCode({c.text})"

/-- No rule of the lexical grammar starts with this character. -/
def unexpectedCharacter : DiagnosticCode := ⟨"E", 1001⟩

/-- A string was still open at the end of the source. -/
def unterminatedString : DiagnosticCode := ⟨"E", 1002⟩

/-- The text of a number has no value. -/
def invalidNumber : DiagnosticCode := ⟨"E", 1003⟩

end DiagnosticCode

/-! ## Severities and diagnostics -/

/-- How severe a diagnostic is. -/
inductive Severity where
  | error
  | warning
  | note
deriving DecidableEq, Inhabited

namespace Severity

/-- Only errors stop a reporter that does not tolerate them. -/
def isError : Severity → Bool
  | .error => true
  | _ => false

def name : Severity → String
  | .error => "error"
  | .warning => "warning"
  | .note => "note"

/-- The name at the head of a message. -/
def title : Severity → String
  | .error => "Error"
  | .warning => "Warning"
  | .note => "Note"

/-- Errors come first, notes last. -/
def rank : Severity → Nat
  | .error => 0
  | .warning => 1
  | .note => 2

instance : Ord Severity := ⟨fun a b => compare a.rank b.rank⟩

/-- The log level at which a diagnostic of this severity is echoed. -/
def logLevel : Severity → Log.Level
  | .error => .error
  | .warning => .warn
  | .note => .info

end Severity

/-- **One message about the source.** -/
structure Diagnostic where
  severity : Severity
  message : String
  span : Span
  code : Option DiagnosticCode
  notes : List String
deriving DecidableEq, Inhabited

namespace Diagnostic

/-- A diagnostic without code and notes. -/
def plain (severity : Severity) (message : String) (span : Span) : Diagnostic :=
  ⟨severity, message, span, none, []⟩

def error (message : String) (span : Span) : Diagnostic := plain .error message span

def warning (message : String) (span : Span) : Diagnostic := plain .warning message span

/-- Sets the code; the last one set counts. -/
def withCode (d : Diagnostic) (code : DiagnosticCode) : Diagnostic := { d with code := some code }

def withNote (d : Diagnostic) (note : String) : Diagnostic := { d with notes := d.notes ++ [note] }

def line (d : Diagnostic) : Nat := d.span.line

/-- The one-line text of a diagnostic. -/
instance : ToString Diagnostic :=
  ⟨fun d => s!"[line {d.span.line}] {d.severity.title}: {d.message}"⟩

/-- The log entry by which a diagnostic is echoed. -/
def logEntry (d : Diagnostic) : Log.Entry := ⟨d.severity.logLevel, toString d⟩

end Diagnostic

/-! ## Drafts

The parts of a draft may be given in any order and more than once: the last code and the last span
count, and notes add up. -/

namespace Diagnostic

/-- A diagnostic whose optional parts are still open. -/
structure Draft where
  severity : Severity
  message : String
  code : Option DiagnosticCode
  span : Option Span
  notes : List String
deriving DecidableEq, Inhabited

namespace Draft

/-- A draft of which only the `severity` and the `message` are settled. -/
def new (severity : Severity) (message : String) : Draft := ⟨severity, message, none, none, []⟩

/-- A draft of an error. -/
def error (message : String) : Draft := new .error message

/-- Sets the code, in place of one that was set before. -/
def setCode (d : Draft) (code : DiagnosticCode) : Draft := { d with code := some code }

/-- Sets the span, in place of one that was set before. -/
def setSpan (d : Draft) (span : Span) : Draft := { d with span := some span }

/-- Adds a note behind the others. -/
def addNote (d : Draft) (note : String) : Draft := { d with notes := d.notes ++ [note] }

/-- **The diagnostic of a draft.** A draft that was never given a span is about no place in the
source, which is `Span.nowhere`. -/
def build (d : Draft) : Diagnostic :=
  ⟨d.severity, d.message, d.span.getD Span.nowhere, d.code, d.notes⟩

end Draft

end Diagnostic

end SourceScan
