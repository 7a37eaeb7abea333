import Mathlib.Data.PFun
import SourceScan.Proofs.Place
import SourceScan.Scan.Tokenize

/-!
# The scan as a loop over plain numbers

A cursor cannot leave its text, and the recursion of a scan ends because every step moves on. With
plain numbers none of this is given: an offset may point into a character or behind the end, a
difference may fall below zero, a counter of 32 bits may be full, and a loop may run forever.

Here the scan is a `Scanner` of plain numbers that is changed step by step. An operation that fails
answers `none`, and so does a loop that does not come to an end (`iterate?`). Nothing in the
definitions keeps the numbers within the text. That they stay there is proved of the loop
(`SourceScan.Proofs.Progress`).

The reporter is in the loop as well: a fault is emitted as soon as it is found, and if the reporter
halts on it, the loop has stopped there (`Scanner.halted`).
-/

namespace SourceScan

/-! ## Operations that may fail -/

/-- One more on a counter of 32 bits. -/
def counted? (n : Nat) : Option Nat := if n + 1 < UInt32.size then some (n + 1) else none

/-- A difference of sizes. -/
def difference? (n m : Nat) : Option Nat := if m ≤ n then some (n - m) else none

/-- The text between two bytes. There is none if they are out of order, or if one of them is no
boundary of characters. -/
def slice? (source : String) (first last : Nat) : Option String :=
  match source.pos? ⟨first⟩, source.pos? ⟨last⟩ with
  | some p, some q => if p ≤ q then some (source.extract p q) else none
  | _, _ => none

section Loops

variable {σ β : Type} {body : σ → Option (β ⊕ σ)} {s next : σ} {b : β}

open scoped Classical in
/-- **A loop.** An iteration ends it with a result or goes on with another state. There is no result
if an iteration fails, nor if none is the last. -/
noncomputable def iterate? (body : σ → Option (β ⊕ σ)) (s : σ) : Option β :=
  (PFun.fix (fun s => Part.ofOption (body s)) s).toOption

/-- An iteration that ends the loop gives its result. -/
theorem iterate?_of_inl (h : body s = some (.inl b)) : iterate? body s = some b := by
  classical
  rw [iterate?, Part.toOption_eq_some_iff]
  exact PFun.fix_stop (Part.mem_ofOption.2 h)

/-- Any other that succeeds leaves the result to the iterations behind it. -/
theorem iterate?_of_inr (h : body s = some (.inr next)) :
    iterate? body s = iterate? body next := by
  have hfix := PFun.fix_fwd_eq (f := fun s => Part.ofOption (body s)) (Part.mem_ofOption.2 h)
  rw [iterate?, iterate?]
  congr 1

end Loops

noncomputable section

namespace Place

variable (source : String)

/-- **The numbers are a place in the text:** the offset is a boundary of characters, and line and
column are those of the boundary. -/
structure IsIn (here : Place) : Prop where
  offset_le : here.offset ≤ source.utf8ByteSize
  isValid : (⟨here.offset⟩ : String.Pos.Raw).IsValid source
  counted : ∃ before, before <+: source.toList ∧
    here = ⟨(String.ofList before).utf8ByteSize, 1 + before.count '\n',
      1 + (before.rtakeWhile (· != '\n')).length⟩

def AtEnd (here : Place) : Prop := source.utf8ByteSize ≤ here.offset

instance (here : Place) : Decidable (here.AtEnd source) := inferInstanceAs (Decidable (_ ≤ _))

/-- The text ahead, which is cut out of the source. -/
def remaining? (here : Place) : Option String := slice? source here.offset source.utf8ByteSize

/-- The character ahead, or the end mark. A byte below 128 is not decoded. -/
def peek? (here : Place) : Option Char :=
  if h : (⟨here.offset⟩ : String.Pos.Raw) < source.rawEndPos then
    if source.getUTF8Byte ⟨here.offset⟩ h < 128 then
      return .ofUInt8 (source.getUTF8Byte ⟨here.offset⟩ h)
    else return (← here.remaining? source).toList.head?.getD Cursor.endMark
  else return Cursor.endMark

/-- The character behind the one ahead, or the end mark. -/
def peekNext? (here : Place) : Option Char :=
  return (← here.remaining? source).toList[1]?.getD Cursor.endMark

/-- Takes the character ahead and counts it. At the end nothing is taken. -/
def advance? (here : Place) : Option (Char × Place) := do
  match (← here.remaining? source).toList.head? with
  | none => return (Cursor.endMark, here)
  | some c =>
    if c = '\n' then return (c, ⟨here.offset + c.utf8Size, ← counted? here.line, 1⟩)
    else return (c, ⟨here.offset + c.utf8Size, here.line, ← counted? here.column⟩)

/-- Whether the character ahead is the given one, and the place behind it if it is. -/
def accept? (here : Place) (expected : Char) : Option (Bool × Place) := do
  if here.AtEnd source then return (false, here)
  if (← here.peek? source) ≠ expected then return (false, here)
  return (true, (← here.advance? source).2)

/-- **A loop** that takes characters as long as it is told to go on. -/
def advanceWhile? (goOn : Place → Option Bool) : Place → Option Place :=
  iterate? fun here => do
    if ← goOn here then return .inr (← here.advance? source).2
    else return .inl here

/-- The loop of a comment. -/
def lineComment? : Place → Option Place :=
  advanceWhile? source fun here => return (← here.peek? source) ≠ '\n' ∧ ¬ here.AtEnd source

/-- The loop of a string. -/
def stringBody? : Place → Option Place :=
  advanceWhile? source fun here => return (← here.peek? source) ≠ '"' ∧ ¬ here.AtEnd source

/-- The loop of a run of digits. -/
def digits? : Place → Option Place :=
  advanceWhile? source fun here => return (← here.peek? source).isDigit

/-- Past the digits, and past a point with the digits behind it. -/
def pastNumber? (here : Place) : Option Place := do
  let whole ← here.digits? source
  if (← whole.peek? source) ≠ '.' then return whole
  if (← whole.peekNext? source).isDigit then
    let (_, fraction) ← whole.advance? source
    fraction.digits? source
  else return whole

end Place

/-! ## The loop -/

/-- The error that halted an operation, if one has. -/
def Outcome.halt? {α : Type} (o : Outcome α) : Option Halt :=
  match o.result with
  | .ok _ => none
  | .error halt => some halt

/-- **A scan under way:** where it is, where the lexeme at hand began, what has come out, and the
error that halted it, if one has. -/
structure Scanner where
  here : Place
  start : Place
  tokens : List Token
  reporter : Reporter
  log : List Log.Entry
  halted : Option Halt

namespace Scanner

/-- A scan that has not begun. -/
def init (source : String) (r : Reporter) : Scanner :=
  ⟨.start, .start, [], r, [openingEntry source], none⟩

/-- The next lexeme begins here. -/
def beginLexeme (s : Scanner) : Scanner := { s with start := s.here }

variable (source : String)

/-- A token with the text of the lexeme. -/
def addToken? (kind : TokenKind) (literal : Option Literal) (s : Scanner) : Option Scanner := do
  let lexeme ← slice? source s.start.offset s.here.offset
  let span : Span := ⟨s.start.offset, s.here.offset, s.start.line, s.start.column⟩
  let t := Token.new kind lexeme literal span
  return { s with tokens := s.tokens ++ [t], log := s.log ++ [t.logEntry] }

/-- A report on the lexeme, which ends it. The scan is halted if the reporter halts. -/
def report (f : Fault) (s : Scanner) : Scanner :=
  let column := if s.here.line = s.start.line then s.start.column else s.here.column
  let e := s.reporter.emit (f.diagnostic ⟨s.start.offset, s.here.offset, s.here.line, column⟩)
  { s with reporter := e.reporter, log := s.log ++ e.log, halted := e.halt? }

/-- A mark that is another one if the expected character follows. -/
def oneOrTwo? (expected : Char) (matched otherwise : TokenKind) (s : Scanner) : Option Scanner := do
  let (found, here) ← s.here.accept? source expected
  addToken? source (if found then matched else otherwise) none { s with here }

/-- A slash, or a comment if a second slash follows. -/
def slashOrComment? (s : Scanner) : Option Scanner := do
  let (found, here) ← s.here.accept? source '/'
  if found then return { s with here := ← here.lineComment? source }
  else addToken? source .slash none { s with here }

/-- A string whose closing quote is ahead. -/
def closeString? (s : Scanner) : Option Scanner := do
  let (_, here) ← s.here.advance? source
  -- both quotes are one byte wide
  let value ← slice? source (s.start.offset + 1) (← difference? here.offset 1)
  addToken? source .string (some (.string value)) { s with here }

/-- A string, or the report of one that is still open at the end. -/
def string? (s : Scanner) : Option Scanner := do
  let content ← s.here.stringBody? source
  if content.AtEnd source then return report .unterminatedString { s with here := content }
  else closeString? source { s with here := content }

/-- A number, or the report of a text that has no value. -/
def number? (s : Scanner) : Option Scanner := do
  let here ← s.here.pastNumber? source
  let text ← slice? source s.start.offset here.offset
  match Binary64.read? text.toList with
  | some value => addToken? source .number (some (.number value)) { s with here }
  | none => return report (.invalidNumber text) { s with here }

/-- **One lexeme,** from its first character on. -/
def scanToken? (s : Scanner) : Option Scanner := do
  let (c, here) ← s.here.advance? source
  let s := { s with here }
  if c = '/' then s.slashOrComment? source
  else match TokenKind.ofChar? c with
  | some kind =>
    match kind.withEqual? with
    | some longer => s.oneOrTwo? source '=' longer kind
    | none => s.addToken? source kind none
  | none =>
    if isBlank c then return s
    else if c = '"' then s.string? source
    else if c.isDigit then s.number? source
    else return s.report .unexpectedCharacter

/-- There is nothing left to do: the text has come to its end, or a report has halted the scan. -/
def Stops (s : Scanner) : Prop := s.here.AtEnd source ∨ s.halted.isSome

instance (s : Scanner) : Decidable (s.Stops source) := inferInstanceAs (Decidable (_ ∨ _))

/-- **The loop of the scan.** -/
def loop? : Scanner → Option Scanner :=
  iterate? fun s => do
    if s.Stops source then return .inl s
    else return .inr (← s.beginLexeme.scanToken? source)

/-- The scan is at a place in the text, and the lexeme began at one, not later. -/
structure InText (source : String) (s : Scanner) : Prop where
  start : s.start.IsIn source
  here : s.here.IsIn source
  start_le : s.start.offset ≤ s.here.offset

/-- What there was has stayed, and at most one token or one report has come behind it. -/
def Appends (s next : Scanner) : Prop :=
  ∃ (words : List Token) (faults : List Diagnostic), next.tokens = s.tokens ++ words ∧
    next.reporter = { s.reporter with kept := s.reporter.kept ++ faults.toArray } ∧
    words.length + faults.length ≤ 1

/-- **The states of the loop** between two iterations, and how many iterations lead there. -/
inductive Reached (source : String) (r : Reporter) : Nat → Scanner → Prop where
  | init : Reached source r 0 (init source r)
  | iterate {n : Nat} {s next : Scanner} (before : Reached source r n s)
      (h : ¬ s.Stops source) (hnext : s.beginLexeme.scanToken? source = some next) :
      Reached source r (n + 1) next

end Scanner

/-- **A whole scan.** A scan that was halted returns no tokens. -/
def scan? (source : String) (r : Reporter) : Option (Outcome (List Token)) := do
  let errorsBefore := r.errorCount
  let s ← (Scanner.init source r).loop? source
  match s.halted with
  | some halt => return ⟨.error halt, s.reporter, s.log⟩
  | none =>
    let tokens := s.tokens ++ [.endOfInput s.here.line s.here.column s.here.offset]
    let errors ← difference? s.reporter.errorCount errorsBefore
    return ⟨.ok tokens, s.reporter, s.log ++ [closingEntry tokens.length s.here.line errors]⟩

end

/-! ## On cursors

At the place of a cursor no operation fails, and it does what the cursor does. The only thing to ask
for is room in the counters. -/

namespace Cursor

variable {source : String} {c d : Cursor source}

/-- Between two cursors in order there is text. -/
theorem slice?_eq (h : c.pos ≤ d.pos) : slice? source c.offset d.offset = some (c.textTo d) := by
  have hc : source.pos? ⟨c.offset⟩ = some c.pos := pos?_eq_some_iff.2 rfl
  have hd : source.pos? ⟨d.offset⟩ = some d.pos := pos?_eq_some_iff.2 rfl
  rw [slice?, hc, hd]
  exact if_pos h

/-- The offset has come to the size of the source just if the cursor is at the end. -/
theorem atEnd_place : c.place.AtEnd source ↔ c.AtEnd := by
  constructor
  · intro h
    have hlast : source.endPos.offset.byteIdx ≤ c.pos.offset.byteIdx := h
    have hwithin : c.pos.offset.byteIdx ≤ source.endPos.offset.byteIdx := String.Pos.le_endPos c.pos
    exact String.Pos.ext (String.Pos.Raw.ext (by omega))
  · intro h
    show source.endPos.offset.byteIdx ≤ c.pos.offset.byteIdx
    rw [show c.pos = source.endPos from h]

/-- **A cursor that can be reached is at a place in the text.** -/
theorem isIn_place {before : List Char} (walk : Reads (start source) before c) :
    c.place.IsIn source := by
  refine ⟨String.Pos.le_endPos c.pos, c.pos.isValid, before, ⟨c.rest, ?_⟩, ?_⟩
  · rw [← walk.rest_eq, rest_start]
  · rw [walk.place_eq, place_start, Place.past_start]

/-- **At every place in the text there is a cursor that can be reached.** -/
theorem exists_place_of_isIn {here : Place} (h : here.IsIn source) :
    ∃ (c : Cursor source) (before : List Char), Reads (start source) before c ∧ c.place = here := by
  obtain ⟨-, -, before, ⟨ahead, hcut⟩, rfl⟩ := h
  obtain ⟨c, walk⟩ := exists_reads (rest_start.trans hcut.symm)
  exact ⟨c, before, walk, by rw [walk.place_eq, place_start, Place.past_start]⟩

/-- What lies ahead of a cursor can be cut out: it is the text up to a cursor at the end. -/
theorem remaining?_place (c : Cursor source) : c.place.remaining? source = some c.remaining := by
  let last : Cursor source := ⟨source.endPos, c.line, c.column⟩
  have hle : c.pos ≤ last.pos := String.Pos.le_endPos _
  have htext : c.textTo last = c.remaining := by
    have hsplit := (textTo_splits hle).2
    have hnone : last.rest = [] := rest_eq_nil_iff.2 rfl
    rw [hnone, List.append_nil] at hsplit
    exact String.toList_injective hsplit.symm
  rw [← htext]
  exact slice?_eq hle

/-- The character ahead is the first of what remains. -/
theorem head?_remaining (h : ¬ c.AtEnd) : c.remaining.toList.head? = some (c.head h) :=
  congrArg List.head? (rest_eq_cons c h)

/-- Both look at one byte first, and decode the character if this byte is not below 128. -/
theorem peek?_place (c : Cursor source) : c.place.peek? source = some c.peek := by
  by_cases h : c.AtEnd
  · have hbytes : ¬ (⟨c.place.offset⟩ : String.Pos.Raw) < source.rawEndPos :=
      Nat.not_lt.2 (atEnd_place.2 h)
    rw [Place.peek?, dif_neg hbytes, peek, dif_pos h]
    rfl
  · have hbytes : (⟨c.place.offset⟩ : String.Pos.Raw) < source.rawEndPos :=
      Nat.not_le.1 (mt atEnd_place.1 h)
    have hbyte : source.getUTF8Byte ⟨c.place.offset⟩ hbytes = c.pos.byte h := by
      simp [String.Pos.byte, String.Slice.Pos.byte, String.Slice.getUTF8Byte, place, offset]
    rw [Place.peek?, dif_pos hbytes, peek, dif_neg h, hbyte, remaining?_place]
    -- an ASCII byte is the character itself, any other is decoded with those behind it
    split
    · rfl
    · simp [head?_remaining h]

theorem peekNext?_place (c : Cursor source) : c.place.peekNext? source = some c.peekNext := by
  rw [Place.peekNext?, remaining?_place, peekNext_eq]
  rfl

/-- The counters have room for the characters ahead. -/
structure HasRoom (c : Cursor source) : Prop where
  line : c.line + c.rest.length < UInt32.size
  column : c.column + c.rest.length < UInt32.size

theorem HasRoom.next (room : c.HasRoom) (h : ¬ c.AtEnd) : (c.next h).HasRoom := by
  -- one character fewer lies ahead, and the counters grow by one at most
  obtain ⟨hline, hcolumn⟩ := room
  rw [rest_eq_cons c h, List.length_cons] at hline hcolumn
  by_cases hc : c.head h = '\n'
  · have hnext : (c.next h).line = c.line + 1 ∧ (c.next h).column = 1 := by
      rw [Cursor.next, if_pos hc]
      exact ⟨rfl, rfl⟩
    exact ⟨by omega, by omega⟩
  · have hnext : (c.next h).line = c.line ∧ (c.next h).column = c.column + 1 := by
      rw [Cursor.next, if_neg hc]
      exact ⟨rfl, rfl⟩
    exact ⟨by omega, by omega⟩

/-- What has been read leaves room for what is still ahead. -/
theorem HasRoom.of_reads {text : List Char} (room : c.HasRoom) (walk : Reads c text d) :
    d.HasRoom := by
  induction walk with
  | refl _ => exact room
  | step h _ ih => exact ih (room.next h)

/-- There is room in a text that is not too long. -/
theorem hasRoom_of_reads {before : List Char} (hsize : source.length < UInt32.size - 1)
    (walk : Reads (start source) before c) : c.HasRoom := by
  refine HasRoom.of_reads ⟨?_, ?_⟩ walk
  all_goals
    rw [rest_start, String.length_toList]
    show 1 + source.length < UInt32.size
    omega

/-- **With room for it a character is taken,** and the numbers are those of the next cursor. -/
theorem advance?_place (room : c.HasRoom) (h : ¬ c.AtEnd) :
    c.place.advance? source = some (c.head h, (c.next h).place) := by
  obtain ⟨hline, hcolumn⟩ := room
  rw [rest_eq_cons c h, List.length_cons] at hline hcolumn
  -- only one of the two counters goes up, but there is room for both
  have hlines : counted? c.line = some (c.line + 1) := if_pos (by omega)
  have hcolumns : counted? c.column = some (c.column + 1) := if_pos (by omega)
  rw [place_next, Place.advance?, remaining?_place]
  by_cases hc : c.head h = '\n'
  · simp [head?_remaining h, hc, hlines, Place.next, place, offset]
  · simp [head?_remaining h, hc, hcolumns, Place.next, place, offset]

/-- What a cursor accepts is accepted at its place. -/
theorem accept?_place_of_some {x : Char} (room : c.HasRoom) (haccept : c.accept? x = some d) :
    c.place.accept? source x = some (true, d.place) := by
  obtain ⟨hahead, rfl⟩ : ¬ (c.AtEnd ∨ c.peek ≠ x) ∧ c.tail = d := by
    simpa [accept?] using haccept
  obtain ⟨h, hx⟩ := not_or.1 hahead
  simp [Place.accept?, atEnd_place, h, peek?_place, not_not.1 hx, advance?_place room h, tail]

/-- What a cursor does not accept is not accepted at its place, which stays. -/
theorem accept?_place_of_none {x : Char} (haccept : c.accept? x = none) :
    c.place.accept? source x = some (false, c.place) := by
  have hahead : ¬ c.AtEnd → c.peek ≠ x := by simpa [accept?] using haccept
  by_cases h : c.AtEnd
  · simp [Place.accept?, atEnd_place, h]
  · simp [Place.accept?, atEnd_place, h, peek?_place, hahead h]

/-- **A loop that goes on as long as the character ahead passes a test** skips the run of those. The
induction is that of `Cursor.skipWhile`, which also says that the loop ends. -/
theorem advanceWhile?_place {goOn : Place → Option Bool} {test : Char → Bool}
    (hgoOn : ∀ d : Cursor source, goOn d.place = some (d.rest.head?.any test)) (room : c.HasRoom) :
    c.place.advanceWhile? source goOn = some (c.skipWhile test).place := by
  fun_induction skipWhile test c with
  | case1 c h =>
    refine iterate?_of_inl ?_
    rw [hgoOn, rest_eq_nil_iff.2 h]
    rfl
  | case2 c h ht ih =>
    refine (iterate?_of_inr ?_).trans (ih (room.next h))
    rw [hgoOn, rest_eq_cons c h, List.head?_cons, Option.any_some, ht, advance?_place room h]
    rfl
  | case3 c h ht =>
    refine iterate?_of_inl ?_
    rw [hgoOn, rest_eq_cons c h, List.head?_cons, Option.any_some, Bool.eq_false_iff.2 ht]
    rfl

/-- A loop up to a character or the end. Each iteration looks for both. -/
theorem upTo?_place (room : c.HasRoom) {x : Char} :
    c.place.advanceWhile? source
        (fun here => return (← here.peek? source) ≠ x ∧ ¬ here.AtEnd source) =
      some (c.skipWhile (· != x)).place := by
  refine advanceWhile?_place (fun d => ?_) room
  simp only [peek?_place, atEnd_place, peek_eq, ← rest_eq_nil_iff]
  cases d.rest with
  | nil => simp
  | cons y rest => by_cases hy : y = x <;> simp [hy]

theorem lineComment?_place (room : c.HasRoom) :
    c.place.lineComment? source = some (c.skipWhile (· != '\n')).place := upTo?_place room

theorem stringBody?_place (room : c.HasRoom) :
    c.place.stringBody? source = some (c.skipWhile (· != '"')).place := upTo?_place room

/-- The loop over digits does not ask for the end, since the end mark is no digit. -/
theorem digits?_place (room : c.HasRoom) :
    c.place.digits? source = some (c.skipWhile Char.isDigit).place := by
  refine advanceWhile?_place (fun d => ?_) room
  simp only [peek?_place, peek_eq]
  cases d.rest <;> rfl

/-- A character other than the end mark is seen only where it is. -/
theorem peek_eq_iff {x : Char} (hx : x ≠ endMark) : c.peek = x ↔ c.head? = some x := by
  rw [peek_eq, head?_eq]
  cases c.rest with
  | nil => simp [hx.symm]
  | cons y rest => simp

theorem isDigit_peekNext (c : Cursor source) :
    c.peekNext.isDigit = c.tail.head?.any Char.isDigit := by
  rw [peekNext]
  cases c.tail.head? <;> rfl

/-- A number ends where `Cursor.skipNumber` says. -/
theorem pastNumber?_place (room : c.HasRoom) :
    c.place.pastNumber? source = some c.skipNumber.place := by
  have hroom := room.of_reads (reads_skipWhile Char.isDigit c)
  simp only [Place.pastNumber?, digits?_place room, Option.bind_eq_bind, Option.bind_some,
    peek?_place, peekNext?_place, skipNumber, isDigit_peekNext]
  by_cases hpoint : (c.skipWhile Char.isDigit).head? = some '.'
  · have hpeek : (c.skipWhile Char.isDigit).peek = '.' := (peek_eq_iff (by decide)).2 hpoint
    -- a point is no end mark, so there is something to take
    have hend : ¬ (c.skipWhile Char.isDigit).AtEnd := by
      intro hend
      rw [head?, dif_pos hend] at hpoint
      cases hpoint
    have htail : (c.skipWhile Char.isDigit).tail = (c.skipWhile Char.isDigit).next hend :=
      dif_neg hend
    by_cases hdigit : ((c.skipWhile Char.isDigit).next hend).head?.any Char.isDigit = true
    · simp [hpeek, hpoint, htail, hdigit, advance?_place hroom hend,
        digits?_place (hroom.next hend)]
    · simp [hpeek, hpoint, htail, hdigit]
  · have hpeek : (c.skipWhile Char.isDigit).peek ≠ '.' := mt (peek_eq_iff (by decide)).1 hpoint
    simp [hpeek, hpoint]

end Cursor

end SourceScan
