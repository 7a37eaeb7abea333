import SourceScan.Toml.Node

/-!
# Excerpts and complaints

An `Excerpt` is the line of a text that a complaint is about, with the offending bytes marked below
it. Lines are separated by line feeds, so a carriage return at the end of a line is part of it. The
column counts characters and the marks count bytes; they go no further than the line and there is at
least one.

A `Mismatch` is a value of the wrong type, and a `ParseError` is all that may be wrong with a text.
-/

namespace SourceScan.Toml

/-- A line of a text with marks below it. Line and column count from one. -/
structure Excerpt where
  line : Nat
  column : Nat
  text : String
  marks : Nat
deriving DecidableEq, Inhabited

namespace Excerpt

/-- The characters of a text that begin before a byte offset. -/
def before : Nat → List Char → List Char
  | _, [] => []
  | 0, _ => []
  | offset + 1, c :: rest => c :: before (offset + 1 - c.utf8Size) rest

def byteLength (cs : List Char) : Nat := (String.ofList cs).utf8ByteSize

/-- **The excerpt for a range of bytes,** at the line where the range starts. -/
def of (text : String) (range : Range) : Excerpt :=
  let all := text.toList
  let ahead := before range.start all
  let onLine := ahead.reverse.takeWhile (· != '\n')
  let lineStart := ahead.length - onLine.length
  let line := (all.drop lineStart).takeWhile (· != '\n')
  { line := ahead.count '\n' + 1
    column := onLine.length + 1
    text := String.ofList line
    marks := max 1 (min (range.stop - range.start) (byteLength line - onLine.length)) }

/-- The excerpt as it is printed, under a heading that names the place: the line with its number
in the margin, between two lines that continue the margin. -/
def render (e : Excerpt) : String :=
  let number := toString e.line
  let margin := String.ofList (List.replicate (number.length + 1) ' ')
  let indent := String.ofList (List.replicate e.column ' ')
  let marks := String.ofList (List.replicate e.marks '^')
  s!"TOML parse error at line {e.line}, column {e.column}\n{margin}|\n"
    ++ s!"{number} | {e.text}\n{margin}|{indent}{marks}\n"

end Excerpt

/-! ## Complaints -/

/-- A value of the wrong type: what was found, what was wanted in its place, and where. -/
structure Mismatch where
  found : String
  wanted : String
  range : Range
deriving DecidableEq, Inhabited

def Mismatch.message (m : Mismatch) : String :=
  s!"invalid type: {m.found}, expected {m.wanted}"

/-- Why nothing could be decoded from a text. -/
inductive ParseError where
  /-- The text breaks the rules of the format. -/
  | malformed
  /-- A value has the wrong type. -/
  | mismatch (excerpt : Excerpt) (m : Mismatch)
  | other (text : String)
deriving DecidableEq, Inhabited

def ParseError.message : ParseError → String
  | malformed => "TOML parse error\n"
  | mismatch excerpt m => excerpt.render ++ m.message ++ "\n"
  | other text => text ++ "\n"

end SourceScan.Toml
