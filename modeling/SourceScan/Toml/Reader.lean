import SourceScan.Toml.Node

/-!
# Reading text by rules

A reader takes some text off the front of its input and makes a value of it, or it fails. After a
failure an alternative starts over where the first one started. The input counts the bytes that
came before it, so that what is read can be traced back to the text.

The rules below need no bound on the length of the text: a repetition goes on only while each
round takes something.
-/

namespace SourceScan.Toml

/-- The text still to be read, and how many bytes of the document come before it. -/
structure Input where
  rest : List Char
  offset : Nat
deriving DecidableEq, Inhabited

/-- A rule that reads a value of type `α`. -/
abbrev Reader (α : Type) := StateT Input Option α

namespace Reader

def offset : Reader Nat := fun i => some (i.offset, i)

/-- One character that passes a test. -/
def satisfy (test : Char → Bool) : Reader Char
  | ⟨[], _⟩ => none
  | ⟨c :: rest, offset⟩ => if test c then some (c, ⟨rest, offset + c.utf8Size⟩) else none

def char (c : Char) : Reader Unit := do
  let _ ← satisfy (· == c)

def chars : List Char → Reader Unit
  | [] => pure ()
  | c :: cs => do
    char c
    chars cs

def takeWhile (test : Char → Bool) : Reader (List Char) := fun i =>
  let taken := i.rest.takeWhile test
  some (taken, ⟨i.rest.dropWhile test, i.offset + (String.ofList taken).utf8ByteSize⟩)

/-- As many characters as pass a test, but at least one. -/
def takeWhile1 (test : Char → Bool) : Reader (List Char) := do
  let first ← satisfy test
  let more ← takeWhile test
  pure (first :: more)

/-- Succeeds where the rule would, and takes nothing. -/
def ahead {α : Type} (p : Reader α) : Reader Unit := fun i => (p i).map fun _ => ((), i)

def optional? {α : Type} (p : Reader α) : Reader (Option α) := fun i =>
  match p i with
  | some (a, rest) => some (some a, rest)
  | none => some (none, i)

/-- The rounds of a repetition, and the input behind the last of them. -/
def rounds {α : Type} (p : Reader α) (i : Input) : List α × Input :=
  match p i with
  | none => ([], i)
  | some (a, j) =>
    if j.rest.length < i.rest.length then
      let (more, k) := rounds p j
      (a :: more, k)
    else ([], i)
termination_by i.rest.length

/-- **Repetition.** The rule as often as it succeeds and takes something. -/
def many {α : Type} (p : Reader α) : Reader (List α) := fun i => some (rounds p i)

def exactly {α : Type} : Nat → Reader α → Reader (List α)
  | 0, _ => pure []
  | n + 1, p => do
    let first ← p
    let more ← exactly n p
    pure (first :: more)

/-- The rule at least once, with a separator between one round and the next. -/
def separated1 {α β : Type} (p : Reader α) (separator : Reader β) : Reader (List α) := do
  let first ← p
  let more ← many (separator *> p)
  pure (first :: more)

/-- The rule any number of times, with separators in between. -/
def separated {α β : Type} (p : Reader α) (separator : Reader β) : Reader (List α) :=
  separated1 p separator <|> pure []

/-- What the rule reads, with the bytes it was read from. -/
def ranged {α : Type} (p : Reader α) : Reader (α × Range) := do
  let start ← offset
  let a ← p
  let stop ← offset
  pure (a, ⟨start, stop⟩)

def atEnd : Reader Unit
  | ⟨[], offset⟩ => some ((), ⟨[], offset⟩)
  | _ => none

end Reader

end SourceScan.Toml
