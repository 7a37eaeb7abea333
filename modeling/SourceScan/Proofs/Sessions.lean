import Mathlib.Data.List.Forall2
import SourceScan.Proofs.Place

/-!
# A cursor is a pair of lists

A cursor holds a byte offset into encoded text and decodes what it needs. `ListCursor` holds two
lists of characters instead, those consumed and those still ahead. A `Session` is what a user does
with either kind: any requests in any order, copies of the cursor put aside and taken up again.

* **`Access.Simulates`** says that two kinds of cursor answer one request alike and stay related.
  That is the step; **`Session.run_simulates`** is the run.
* **`access_simulates`** is the step lemma for the two kinds of cursor at hand.
* **`session_eq_list_session`** is the result about every session on every source.
-/

namespace SourceScan

/-! ## Sessions

What can be asked of a cursor is the same for all kinds of cursors, so sessions are defined once,
over an `Access` to cursors of any type. -/

/-- **The operations of a cursor,** whatever it is made of. -/
structure Access (κ : Type) where
  advance : κ → Char × κ
  peek : κ → Char
  peekNext : κ → Char
  accept? : κ → Char → Option κ
  sliceFrom? : κ → Nat → Option String
  remaining : κ → String

/-- One request of a user. The copies put aside are numbered, the last one first, and each can be
taken up as often as wanted. -/
inductive Request where
  | advance
  | peek
  | peekNext
  | accept (expected : Char)
  | sliceFrom (start : Nat)
  | remaining
  | save
  | restore (copy : Nat)
deriving DecidableEq

/-- What a user is told. A slice that cannot be taken is no text. -/
inductive Answer where
  | character (c : Char)
  | decision (yes : Bool)
  | text (t : Option String)
  | done
deriving DecidableEq

/-- A cursor in use, with the copies put aside. -/
structure Session (κ : Type) where
  current : κ
  saved : List κ

namespace Session

variable {κ : Type}

/-- One request. Only taking characters and restoring a copy change the cursor. -/
def handle (access : Access κ) (s : Session κ) : Request → Answer × Session κ
  | .advance =>
    (.character (access.advance s.current).1, ⟨(access.advance s.current).2, s.saved⟩)
  | .peek => (.character (access.peek s.current), s)
  | .peekNext => (.character (access.peekNext s.current), s)
  | .accept expected =>
    match access.accept? s.current expected with
    | some next => (.decision true, ⟨next, s.saved⟩)
    | none => (.decision false, s)
  | .sliceFrom start => (.text (access.sliceFrom? s.current start), s)
  | .remaining => (.text (some (access.remaining s.current)), s)
  | .save => (.done, ⟨s.current, s.current :: s.saved⟩)
  | .restore copy =>
    match s.saved[copy]? with
    | some kept => (.decision true, ⟨kept, s.saved⟩)
    | none => (.decision false, s)

/-- **A session:** the requests in turn, with the answers to them. -/
def run (access : Access κ) (s : Session κ) : List Request → List Answer × Session κ
  | [] => ([], s)
  | request :: requests =>
    let (answer, next) := s.handle access request
    let (answers, last) := next.run access requests
    (answer :: answers, last)

end Session

/-! ## Two kinds of cursors in step -/

section Simulation

variable {κ μ : Type}

/-- **Related cursors answer alike,** and what they become is related again. -/
structure Access.Simulates (a : Access κ) (b : Access μ) (R : κ → μ → Prop) : Prop where
  advance : ∀ {c d}, R c d → (a.advance c).1 = (b.advance d).1 ∧ R (a.advance c).2 (b.advance d).2
  peek : ∀ {c d}, R c d → a.peek c = b.peek d
  peekNext : ∀ {c d}, R c d → a.peekNext c = b.peekNext d
  accept? : ∀ {c d}, R c d → ∀ x, Option.Rel R (a.accept? c x) (b.accept? d x)
  sliceFrom? : ∀ {c d}, R c d → ∀ start, a.sliceFrom? c start = b.sliceFrom? d start
  remaining : ∀ {c d}, R c d → a.remaining c = b.remaining d

/-- Sessions are related when their cursors are, those put aside included. -/
structure Session.Related (R : κ → μ → Prop) (s : Session κ) (t : Session μ) : Prop where
  current : R s.current t.current
  saved : List.Forall₂ R s.saved t.saved

variable {a : Access κ} {b : Access μ} {R : κ → μ → Prop} {s : Session κ} {t : Session μ}

/-- A copy of one session is there just if it is there in the other, and the two are related. -/
theorem rel_getElem? {mine : List κ} {theirs : List μ} (h : List.Forall₂ R mine theirs)
    (copy : Nat) : Option.Rel R mine[copy]? theirs[copy]? := by
  induction h generalizing copy with
  | nil => exact .none
  | cons hfirst _ ih =>
    cases copy with
    | zero => exact .some hfirst
    | succ copy => exact ih copy

/-- **One request.** The cases are the requests, and each but the last two is a field of
`Access.Simulates`. -/
theorem Session.handle_simulates (h : a.Simulates b R) (hst : s.Related R t) (request : Request) :
    (s.handle a request).1 = (t.handle b request).1 ∧
      (s.handle a request).2.Related R (t.handle b request).2 := by
  cases request with
  | advance =>
    obtain ⟨hanswer, hnext⟩ := h.advance hst.current
    exact ⟨congrArg Answer.character hanswer, hnext, hst.saved⟩
  | peek => exact ⟨congrArg Answer.character (h.peek hst.current), hst⟩
  | peekNext => exact ⟨congrArg Answer.character (h.peekNext hst.current), hst⟩
  | accept expected =>
    have haccept := h.accept? hst.current expected
    simp only [handle]
    -- whatever the two answers are, `haccept` relates them
    generalize a.accept? s.current expected = mine, b.accept? t.current expected = theirs
      at haccept ⊢
    cases haccept with
    | none => exact ⟨rfl, hst⟩
    | some hnext => exact ⟨rfl, hnext, hst.saved⟩
  | sliceFrom start => exact ⟨congrArg Answer.text (h.sliceFrom? hst.current start), hst⟩
  | remaining =>
    exact ⟨congrArg (fun text => Answer.text (some text)) (h.remaining hst.current), hst⟩
  | save => exact ⟨rfl, hst.current, .cons hst.current hst.saved⟩
  | restore copy =>
    have hcopy := rel_getElem? hst.saved copy
    simp only [handle]
    generalize s.saved[copy]? = mine, t.saved[copy]? = theirs at hcopy ⊢
    cases hcopy with
    | none => exact ⟨rfl, hst⟩
    | some hkept => exact ⟨rfl, hkept, hst.saved⟩

/-- **A whole session** gets the same answers from related cursors and ends with related ones. The
induction is on the requests, for every two related sessions. -/
theorem Session.run_simulates (h : a.Simulates b R) (hst : s.Related R t)
    (requests : List Request) : (s.run a requests).1 = (t.run b requests).1 ∧
      (s.run a requests).2.Related R (t.run b requests).2 := by
  induction requests generalizing s t with
  | nil => exact ⟨rfl, hst⟩
  | cons request requests ih =>
    obtain ⟨hanswer, hnext⟩ := handle_simulates h hst request
    obtain ⟨hanswers, hlast⟩ := ih hnext
    exact ⟨congrArg₂ List.cons hanswer hanswers, hlast⟩

end Simulation

/-! ## The plain cursor -/

/-- **A cursor made of lists:** the characters taken so far and those ahead. -/
structure ListCursor where
  consumed : List Char
  rest : List Char

namespace ListCursor

def advance (l : ListCursor) : Char × ListCursor :=
  match l.rest with
  | x :: rest => (x, ⟨l.consumed ++ [x], rest⟩)
  | [] => (Cursor.endMark, l)

def peek (l : ListCursor) : Char := l.rest[0]?.getD Cursor.endMark

def peekNext (l : ListCursor) : Char := l.rest[1]?.getD Cursor.endMark

def accept? (l : ListCursor) (expected : Char) : Option ListCursor :=
  match l.rest with
  | x :: rest => if x = expected then some ⟨l.consumed ++ [x], rest⟩ else none
  | [] => none

/-- What is left of a text behind its first `size` bytes. There is nothing to tell if a character
lies across that point, or if the text is shorter. -/
def dropBytes? : Nat → List Char → Option (List Char)
  | 0, text => some text
  | _ + 1, [] => none
  | size + 1, x :: text =>
    if x.utf8Size ≤ size + 1 then dropBytes? (size + 1 - x.utf8Size) text else none

def sliceFrom? (l : ListCursor) (start : Nat) : Option String :=
  (dropBytes? start l.consumed).map String.ofList

def remaining (l : ListCursor) : String := String.ofList l.rest

def access : Access ListCursor := ⟨advance, peek, peekNext, accept?, sliceFrom?, remaining⟩

/-- Dropping bytes finds the cut that has as many bytes in front of it. -/
theorem dropBytes?_eq_some_iff {size : Nat} {text inside : List Char} :
    dropBytes? size text = some inside ↔
      ∃ before, text = before ++ inside ∧ (String.ofList before).utf8ByteSize = size := by
  constructor
  · intro h
    fun_induction dropBytes? size text with
    | case1 text =>
      cases h
      exact ⟨[], rfl, by simp⟩
    | case2 => cases h
    | case3 size x text hfits ih =>
      obtain ⟨before, rfl, hsize⟩ := ih h
      refine ⟨x :: before, rfl, ?_⟩
      rw [String.ofList_cons, String.utf8ByteSize_append, String.utf8ByteSize_singleton, hsize]
      omega
    | case4 => cases h
  · rintro ⟨before, rfl, rfl⟩
    induction before with
    | nil => simp [dropBytes?]
    | cons x before ih =>
      -- a character has at least one byte, so the recursion is entered
      have hpos : 0 < x.utf8Size := x.utf8Size_pos
      obtain ⟨size, hsize⟩ : ∃ size, (String.ofList (x :: before)).utf8ByteSize = size + 1 ∧
          size + 1 = x.utf8Size + (String.ofList before).utf8ByteSize := by
        refine ⟨x.utf8Size + (String.ofList before).utf8ByteSize - 1, ?_, by omega⟩
        rw [String.ofList_cons, String.utf8ByteSize_append, String.utf8ByteSize_singleton]
        omega
      rw [hsize.1, List.cons_append, dropBytes?, if_pos (by omega), ← ih]
      congr 1
      omega

end ListCursor

namespace Cursor

variable {source : String} {c : Cursor source} {l : ListCursor}

def access (source : String) : Access (Cursor source) :=
  ⟨advance, peek, peekNext, accept?, sliceFrom?, remaining⟩

/-- A cursor that has walked over what a plain cursor has consumed, with the same text ahead. -/
structure Follows (c : Cursor source) (l : ListCursor) : Prop where
  walk : Reads (start source) l.consumed c
  rest_eq : c.rest = l.rest

namespace Follows

/-- What a cursor has passed is what the plain cursor has consumed. -/
theorem passed_eq (h : c.Follows l) : c.passed = l.consumed := by
  have hsource : l.consumed ++ c.rest = c.passed ++ c.rest := by
    rw [passed_append_rest, ← rest_start, h.walk.rest_eq]
  exact (List.append_cancel_right hsource).symm

/-- Both take the character ahead. -/
theorem tail {x : Char} {ahead : List Char} (h : c.Follows l) (hx : l.rest = x :: ahead) :
    c.tail.Follows ⟨l.consumed ++ [x], ahead⟩ := by
  have hrest : c.rest = x :: ahead := h.rest_eq.trans hx
  constructor
  · exact h.walk.trans (reads_tail hrest)
  · rw [rest_tail, hrest]
    rfl

end Follows

/-- **The step lemma.** A cursor and the plain cursor it follows answer every request alike. -/
theorem access_simulates (source : String) :
    (access source).Simulates ListCursor.access Follows where
  advance := by
    intro c l h
    show (c.head?.getD endMark) = l.advance.1 ∧ c.tail.Follows l.advance.2
    rw [head?_eq, h.rest_eq, ListCursor.advance]
    cases hrest : l.rest with
    | nil =>
      -- at the end both stay, and the answer is a character that could also be read
      have hend : c.AtEnd := rest_eq_nil_iff.1 (h.rest_eq.trans hrest)
      refine ⟨rfl, ?_⟩
      rw [Cursor.tail, dif_pos hend]
      exact h
    | cons x ahead => exact ⟨rfl, h.tail hrest⟩
  peek := by
    intro c l h
    show c.peek = l.peek
    rw [peek_eq, h.rest_eq, ListCursor.peek, List.head?_eq_getElem?]
  peekNext := by
    intro c l h
    show c.peekNext = l.peekNext
    rw [peekNext_eq, h.rest_eq, ListCursor.peekNext]
  accept? := by
    intro c l h x
    show Option.Rel Follows (c.accept? x) (l.accept? x)
    rw [accept?_eq, h.rest_eq, ListCursor.accept?]
    cases hrest : l.rest with
    | nil => exact .none
    | cons y ahead =>
      -- both take the character only if it is the expected one
      by_cases hy : y = x
      · simp only [hy, List.head?_cons, if_true]
        exact .some (h.tail (hy ▸ hrest))
      · simp only [hy, List.head?_cons, Option.some.injEq, if_false]
        exact .none
  sliceFrom? := by
    intro c l h start
    show c.sliceFrom? start = l.sliceFrom? start
    -- one finds the byte in the source, the other counts bytes in what was consumed
    apply Option.ext
    intro text
    rw [sliceFrom?_eq_some_iff, h.passed_eq, ListCursor.sliceFrom?, Option.map_eq_some_iff]
    simp only [ListCursor.dropBytes?_eq_some_iff]
    constructor
    · rintro ⟨before, hcut⟩
      exact ⟨text.toList, ⟨before, hcut⟩, String.ofList_toList⟩
    · rintro ⟨inside, ⟨before, hcut⟩, rfl⟩
      rw [String.toList_ofList]
      exact ⟨before, hcut⟩
  remaining := by
    intro c l h
    show c.remaining = String.ofList l.rest
    rw [← h.rest_eq, rest, String.ofList_toList]

/-! ## Every session -/

/-- **A cursor shows where a plain cursor is.** Its offset counts the bytes consumed, its line and
column are those of the end of the consumed text, and what is consumed and what lies ahead make up
the source. -/
structure Shows (c : Cursor source) (l : ListCursor) : Prop where
  whole : l.consumed ++ l.rest = source.toList
  offset_eq : c.offset = (String.ofList l.consumed).utf8ByteSize
  offset_valid : (⟨c.offset⟩ : String.Pos.Raw).IsValid source
  offset_le : c.offset ≤ source.utf8ByteSize
  line_eq : c.line = 1 + l.consumed.count '\n'
  column_eq : c.column = 1 + (l.consumed.rtakeWhile (· != '\n')).length
  atEnd_iff : c.AtEnd ↔ l.rest = []

/-- **All that a cursor shows follows from its walk.** -/
theorem Follows.shows (h : c.Follows l) : c.Shows l := by
  have hplace : c.place = Place.start.past l.consumed := h.walk.place_eq
  constructor
  · rw [← h.passed_eq, ← h.rest_eq]
    exact passed_append_rest c
  · rw [Cursor.offset_eq, h.passed_eq]
  · exact c.pos.isValid
  · exact c.pos.isValid.le_utf8ByteSize
  · show c.place.line = _
    rw [hplace, Place.line_past]
    rfl
  · show c.place.column = _
    rw [hplace, Place.column_past_start]
  · rw [← rest_eq_nil_iff, h.rest_eq]

end Cursor

/-- **A cursor is a pair of lists.** Let `Session.run` handle any `requests`, with `save` and
`restore` among them, once with `Cursor.access` from the start of a source, and once with
`ListCursor.access` from nothing consumed and the whole source ahead. The answers are the same, and
the cursors that are left, saved ones included, are related by `Cursor.Shows`. `Cursor.sliceFrom?`
gives a text from just the offsets that are valid in the source and not behind the cursor, and this
is what was consumed from there on. -/
theorem session_eq_list_session (source : String) (requests : List Request) :
    let real := Session.run (Cursor.access source) ⟨Cursor.start source, []⟩ requests
    let plain := Session.run ListCursor.access ⟨⟨[], source.toList⟩, []⟩ requests
    real.1 = plain.1 ∧ real.2.Related Cursor.Shows plain.2 ∧
      ∀ start, ((real.2.current.sliceFrom? start).isSome = true ↔
          (⟨start⟩ : String.Pos.Raw).IsValid source ∧ start ≤ real.2.current.offset) ∧
        ∀ text, real.2.current.sliceFrom? start = some text → ∃ before,
          plain.2.current.consumed = before ++ text.toList ∧
            (String.ofList before).utf8ByteSize = start := by
  intro real plain
  have hstart : (Cursor.start source).Follows ⟨[], source.toList⟩ := ⟨.refl _, Cursor.rest_start⟩
  obtain ⟨hanswers, hlast⟩ := Session.run_simulates (Cursor.access_simulates source)
    (s := ⟨Cursor.start source, []⟩) (t := ⟨⟨[], source.toList⟩, []⟩) ⟨hstart, .nil⟩ requests
  refine ⟨hanswers, ⟨hlast.current.shows, hlast.saved.imp fun _ _ h => h.shows⟩, fun start => ?_⟩
  refine ⟨Cursor.isSome_sliceFrom?_iff, fun text htext => ?_⟩
  rw [← hlast.current.passed_eq]
  exact Cursor.sliceFrom?_eq_some_iff.1 htext

/-- A text that ends with the character which the end of a text reads as. -/
example : (Session.run (Cursor.access _) ⟨Cursor.start "é\x00", []⟩
    [.accept '\x00', .peekNext, .advance, .sliceFrom 1, .accept '\x00', .peek, .accept '\x00']).1 =
    [.decision false, .character '\x00', .character 'é', .text none, .decision true,
      .character '\x00', .decision false] := by
  decide +kernel

end SourceScan
