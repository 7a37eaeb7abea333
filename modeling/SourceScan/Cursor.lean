/-!
# Cursors

A cursor is a place in a source text. It has the byte it stands at, which is always the start of
a character or the end of the text, and the line and column of that place. Moving over a newline
starts the next line; moving over any other character moves one column to the right.

`Cursor.rest` is what lies ahead, as a list of characters. It is the view through which a cursor
is reasoned about: `next` takes one character off its front, and everything else is stated by it.

What the end of the text reads as is `endMark`. Texts may hold that character as well, so an end
is recognized by `AtEnd` and never by the character.

The program counts lines and columns in 32 bits, and here they are natural numbers. Below
`UInt32.size - 1` characters, which is `2 ^ 32 - 1`, this is the same: `Cursor.reads_start_fits`
(`Proofs.Positions`) bounds both at every cursor that can be reached, and the loop of
`Proofs.PlainLoop`, which counts in 32 bits, is shown in `Proofs.Progress` to come to the same
tokens without an overflow.
-/

namespace SourceScan

/-- **A place in a text.** -/
structure Cursor (source : String) where
  pos : source.Pos
  line : Nat
  column : Nat
deriving DecidableEq

namespace Cursor

variable {source : String}

/-- What the end of a text reads as. -/
def endMark : Char := '\x00'

def start (source : String) : Cursor source := ⟨source.startPos, 1, 1⟩

def offset (c : Cursor source) : Nat := c.pos.offset.byteIdx

def AtEnd (c : Cursor source) : Prop := c.pos = source.endPos

instance (c : Cursor source) : Decidable c.AtEnd := inferInstanceAs (Decidable (_ = _))

/-- The text ahead. -/
def remaining (c : Cursor source) : String := (source.sliceFrom c.pos).copy

/-- **The characters ahead.** -/
def rest (c : Cursor source) : List Char := c.remaining.toList

/-- The character ahead. -/
def head (c : Cursor source) (h : ¬ c.AtEnd) : Char := c.pos.get h

/-- **One step.** -/
def next (c : Cursor source) (h : ¬ c.AtEnd) : Cursor source :=
  if c.head h = '\n' then ⟨c.pos.next h, c.line + 1, 1⟩ else ⟨c.pos.next h, c.line, c.column + 1⟩

theorem pos_next (c : Cursor source) (h : ¬ c.AtEnd) : (c.next h).pos = c.pos.next h := by
  unfold next; split <;> rfl

theorem pos_lt_pos_next (c : Cursor source) (h : ¬ c.AtEnd) : c.pos < (c.next h).pos := by
  rw [pos_next]; exact String.Pos.lt_next

/-- The bytes ahead. They are what runs out when a cursor moves on. -/
def bytesAhead (c : Cursor source) : Nat := c.pos.remainingBytes

theorem bytesAhead_lt_of_pos_lt {c d : Cursor source} (h : c.pos < d.pos) :
    d.bytesAhead < c.bytesAhead :=
  (String.Pos.lt_iff_remainingBytes_lt _ _).1 h

def head? (c : Cursor source) : Option Char := if h : c.AtEnd then none else some (c.head h)

/-- The cursor behind the character ahead; at the end, the cursor itself. -/
def tail (c : Cursor source) : Cursor source := if h : c.AtEnd then c else c.next h

/-- The character ahead, or the end mark. A byte below 128 is a character by itself; any other is
the first of several, which are decoded. -/
def peek (c : Cursor source) : Char :=
  if h : c.AtEnd then endMark
  else if c.pos.byte h < 128 then .ofUInt8 (c.pos.byte h)
  else c.head h

/-- The character behind the one ahead, or the end mark. -/
def peekNext (c : Cursor source) : Char := c.tail.head?.getD endMark

/-- Takes the character ahead. At the end it answers the end mark and stays. -/
def advance (c : Cursor source) : Char × Cursor source := (c.head?.getD endMark, c.tail)

/-- Takes the character ahead if it is the given one. Nothing is taken at the end, whatever is asked
for: the end mark is no character of the text. -/
def accept? (c : Cursor source) (expected : Char) : Option (Cursor source) :=
  if c.AtEnd ∨ c.peek ≠ expected then none else some c.tail

/-- The text from a byte offset up to the cursor. There is none when the offset is behind the
cursor or inside a character. -/
def sliceFrom? (c : Cursor source) (start : Nat) : Option String :=
  match source.pos? ⟨start⟩ with
  | some p => if p ≤ c.pos then some (source.extract p c.pos) else none
  | none => none

/-- The text between two cursors. It is empty if the second stands before the first. -/
def textTo (c d : Cursor source) : String := source.extract c.pos d.pos

/-- **Past a run.** The first place from here on whose character fails the test, or the end. -/
def skipWhile (test : Char → Bool) (c : Cursor source) : Cursor source :=
  if h : c.AtEnd then c
  else if test (c.head h) then skipWhile test (c.next h) else c
termination_by c.bytesAhead
decreasing_by exact bytesAhead_lt_of_pos_lt (pos_lt_pos_next c h)

theorem pos_le_pos_tail (c : Cursor source) : c.pos ≤ c.tail.pos := by
  unfold tail
  split
  · exact String.Pos.le_refl _
  · exact String.Pos.le_of_lt (pos_lt_pos_next c _)

theorem pos_le_pos_skipWhile (test : Char → Bool) (c : Cursor source) :
    c.pos ≤ (c.skipWhile test).pos := by
  fun_induction skipWhile test c with
  | case1 => exact String.Pos.le_refl _
  | case2 c h _ ih => exact String.Pos.le_trans (String.Pos.le_of_lt (pos_lt_pos_next c h)) ih
  | case3 => exact String.Pos.le_refl _

theorem pos_le_of_accept? {c d : Cursor source} {x : Char} (h : c.accept? x = some d) :
    c.pos ≤ d.pos := by
  unfold accept? at h
  split at h
  · cases h
  · injection h with h; subst h; exact pos_le_pos_tail c

end Cursor

end SourceScan
