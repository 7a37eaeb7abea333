import Mathlib.Data.List.DropRight
import SourceScan.Cursor.View

/-!
# Places and the text between them

A `Place` is where a cursor stands, without the source it stands in: the byte offset, the line
and the column. Reading a character moves a place, and reading a text moves it character by
character. What a text does to a place depends on the text alone, so the place of every cursor
follows from the characters it has passed:

* **`offset_past`**, **`line_past`**: bytes and newlines are counted.
* **`column_past_start`**: from the start of a source the column counts the characters since the
  last newline. **`past_start`** has all three.

`Cursor.Reads c text d` says that reading `text` leads from `c` to `d`, one `next` at a time. These
are the cursors a scan visits. Each operation of a cursor is such a walk
(**`reads_next`**, **`reads_skipWhile`**, **`reads_accept?`**), and a walk determines what lies
ahead of its end (**`Reads.rest_eq`**) and where that is (**`Reads.place_eq`**).
-/

namespace SourceScan

/-- **Where a piece of text begins:** bytes before it, its line and its column. -/
structure Place where
  offset : Nat
  line : Nat
  column : Nat
deriving DecidableEq

namespace Place

/-- The place before the first character. -/
def start : Place := ⟨0, 1, 1⟩

/-- The place behind one character. Only a newline begins a line. -/
def next (p : Place) (c : Char) : Place :=
  if c = '\n' then ⟨p.offset + c.utf8Size, p.line + 1, 1⟩
  else ⟨p.offset + c.utf8Size, p.line, p.column + 1⟩

/-- **The place behind a text.** -/
def past (p : Place) (text : List Char) : Place := text.foldl next p

@[simp] theorem past_nil (p : Place) : p.past [] = p := rfl

@[simp] theorem past_cons (p : Place) (c : Char) (text : List Char) :
    p.past (c :: text) = (p.next c).past text := rfl

/-- Reading two texts in a row. -/
theorem past_append (p : Place) (s t : List Char) : p.past (s ++ t) = (p.past s).past t :=
  List.foldl_append

/-! ## What a text adds to a place

The first two components only count. The column starts anew behind each newline, so it is
followed along the text read backwards: the last character decides. -/

theorem offset_next (p : Place) (c : Char) : (p.next c).offset = p.offset + c.utf8Size := by
  unfold next
  split <;> rfl

/-- A text takes up its bytes. -/
theorem offset_past (p : Place) (text : List Char) :
    (p.past text).offset = p.offset + (String.ofList text).utf8ByteSize := by
  induction text generalizing p with
  | nil => simp
  | cons c text ih =>
    rw [past_cons, ih, offset_next, String.ofList_cons, String.utf8ByteSize_append,
      String.utf8ByteSize_singleton, Nat.add_assoc]

theorem offset_past_start (text : List Char) :
    (start.past text).offset = (String.ofList text).utf8ByteSize := by
  rw [offset_past]
  exact Nat.zero_add _

theorem line_next (p : Place) (c : Char) : (p.next c).line = p.line + [c].count '\n' := by
  unfold next
  by_cases hc : c = '\n'
  · simp [hc]
  · simp [hc]

/-- Each newline of a text begins a line. -/
theorem line_past (p : Place) (text : List Char) :
    (p.past text).line = p.line + text.count '\n' := by
  induction text generalizing p with
  | nil => simp
  | cons c text ih =>
    rw [past_cons, ih, line_next, Nat.add_assoc, ← List.count_append, List.singleton_append]

/-- **The column from the start of a source** counts what stands behind the last newline. -/
theorem column_past_start (text : List Char) :
    (start.past text).column = 1 + (text.rtakeWhile (· != '\n')).length := by
  -- the last character decides: a newline starts the count anew
  induction text using List.reverseRecOn with
  | nil => rfl
  | append_singleton text c ih =>
    rw [past_append, past_cons, past_nil]
    by_cases hc : c = '\n'
    · rw [List.rtakeWhile_concat_neg _ _ _ (by simp [hc])]
      simp [next, hc]
    · rw [List.rtakeWhile_concat_pos _ _ _ (by simp [hc])]
      simp [next, hc, ih]
      omega

/-- **The place behind a text** that a source begins with, in numbers. -/
theorem past_start (text : List Char) : start.past text =
    ⟨(String.ofList text).utf8ByteSize, 1 + text.count '\n',
      1 + (text.rtakeWhile (· != '\n')).length⟩ := by
  have hline : (start.past text).line = 1 + text.count '\n' := line_past start text
  rw [← offset_past_start, ← hline, ← column_past_start]

/-- Neither count is ahead of the characters by more than one. -/
theorem past_start_le (text : List Char) :
    (start.past text).line ≤ 1 + text.length ∧ (start.past text).column ≤ 1 + text.length := by
  rw [past_start]
  have hline := List.count_le_length (a := '\n') (l := text)
  have hcolumn := (List.rtakeWhile_suffix (· != '\n') text).length_le
  exact ⟨by simpa using hline, by simpa using hcolumn⟩

end Place

namespace Cursor

variable {source : String}

/-- The place of a cursor. -/
def place (c : Cursor source) : Place := ⟨c.offset, c.line, c.column⟩

@[simp] theorem place_start : (start source).place = Place.start := rfl

/-- A cursor and its place move alike. -/
theorem place_next (c : Cursor source) (h : ¬ c.AtEnd) :
    (c.next h).place = c.place.next (c.head h) := by
  have ho : (c.next h).offset = c.offset + (c.head h).utf8Size := offset_next c h
  rw [place, ho]
  unfold next Place.next place
  split <;> rfl

/-! ## Walks

A walk is the sequence of single steps between two cursors, together with the characters taken on
the way. All that the operations of a cursor do is walking. -/

/-- **Reading `text` leads from one cursor to another,** one character at a time. -/
inductive Reads : Cursor source → List Char → Cursor source → Prop where
  | refl (c : Cursor source) : Reads c [] c
  | step {c d : Cursor source} {text : List Char} (h : ¬ c.AtEnd)
      (onward : Reads (c.next h) text d) : Reads c (c.head h :: text) d

namespace Reads

variable {c d e : Cursor source} {s t text : List Char}

/-- Two walks, one behind the other. -/
theorem trans (first : Reads c s d) (second : Reads d t e) : Reads c (s ++ t) e := by
  induction first with
  | refl _ => exact second
  | step h _ ih => exact .step h (ih second)

/-- What lay ahead of a walk is what it took and what still lies ahead. -/
theorem rest_eq (walk : Reads c text d) : c.rest = text ++ d.rest := by
  induction walk with
  | refl c => exact (List.nil_append c.rest).symm
  | step h _ ih => rw [rest_eq_cons _ h, ih, List.cons_append]

/-- The place at the end of a walk is that of its beginning, moved by the text. -/
theorem place_eq (walk : Reads c text d) : d.place = c.place.past text := by
  induction walk with
  | refl _ => rfl
  | step h _ ih => rw [ih, place_next, Place.past_cons]

theorem pos_le (walk : Reads c text d) : c.pos ≤ d.pos := by
  induction walk with
  | refl _ => exact String.Pos.le_refl _
  | step h _ ih => exact String.Pos.le_trans (String.Pos.le_of_lt (pos_lt_pos_next _ h)) ih

/-- The text between the ends of a walk is the text it took. -/
theorem textTo_eq (walk : Reads c text d) : c.textTo d = String.ofList text := by
  have hsplit := (textTo_splits walk.pos_le).2
  rw [walk.rest_eq] at hsplit
  rw [List.append_cancel_right hsplit, String.ofList_toList]

end Reads

/-- What lies ahead can be read, up to anywhere. -/
theorem exists_reads {c : Cursor source} {text ahead : List Char}
    (hahead : c.rest = text ++ ahead) : ∃ d, Reads c text d := by
  induction text generalizing c with
  | nil => exact ⟨c, .refl c⟩
  | cons x text ih =>
    have h : ¬ c.AtEnd := by
      rw [← rest_eq_nil_iff, hahead]
      simp
    rw [rest_eq_cons c h, List.cons_append] at hahead
    obtain ⟨rfl, hrest⟩ := List.cons.inj hahead
    obtain ⟨d, walk⟩ := ih hrest
    exact ⟨d, .step h walk⟩

/-! ## The operations walk -/

theorem reads_next (c : Cursor source) (h : ¬ c.AtEnd) : Reads c [c.head h] (c.next h) :=
  .step h (.refl _)

/-- A cursor that sees `x` ahead takes `x` when it moves on. -/
theorem reads_tail {c : Cursor source} {x : Char} {ahead : List Char} (hx : c.rest = x :: ahead) :
    Reads c [x] c.tail := by
  have h : ¬ c.AtEnd := by
    rw [← rest_eq_nil_iff, hx]
    simp
  have hhead : c.head h = x := by
    rw [rest_eq_cons c h] at hx
    exact (List.cons.inj hx).1
  rw [tail, dif_neg h, ← hhead]
  exact reads_next c h

/-- What was asked for and accepted has been read. -/
theorem reads_accept? {c d : Cursor source} {x : Char} (hd : c.accept? x = some d) :
    Reads c [x] d := by
  rw [accept?_eq] at hd
  split at hd
  · next hx =>
    obtain ⟨ahead, hrest⟩ := List.head?_eq_some_iff.1 hx
    cases hd
    exact reads_tail hrest
  · cases hd

/-- Nothing is accepted only where the character ahead is another one. -/
theorem head?_rest_ne_of_accept? {c : Cursor source} {x : Char} (hd : c.accept? x = none) :
    c.rest.head? ≠ some x := by
  rw [accept?_eq] at hd
  intro hx
  simp [hx] at hd

/-- **Skipping a run reads it.** The induction is that of `skipWhile`. -/
theorem reads_skipWhile (test : Char → Bool) (c : Cursor source) :
    Reads c (c.rest.takeWhile test) (c.skipWhile test) := by
  fun_induction skipWhile test c with
  | case1 c h =>
    rw [rest_eq_nil_iff.2 h]
    exact .refl c
  | case2 c h ht ih =>
    rw [rest_eq_cons c h, List.takeWhile_cons_of_pos ht]
    exact .step h ih
  | case3 c h ht =>
    rw [rest_eq_cons c h, List.takeWhile_cons_of_neg ht]
    exact .refl c

/-- A run ends where the test fails. -/
theorem head?_rest_skipWhile (test : Char → Bool) (c : Cursor source) :
    (c.skipWhile test).rest.head?.any test = false := by
  rw [rest_skipWhile]
  -- from here on it is about any list: what lies ahead of a cursor is slow to unfold
  generalize c.rest = ahead
  have hstop := List.head?_dropWhile_not test ahead
  cases hx : (ahead.dropWhile test).head? with
  | none => rfl
  | some x => simpa [hx] using hstop

/-- A run up to `x` walks over no `x`, and ends at the end of the text or in front of an `x`. -/
theorem reads_upTo (x : Char) (c : Cursor source) :
    ∃ text, x ∉ text ∧ Reads c text (c.skipWhile (· != x)) ∧
      ((c.skipWhile (· != x)).rest = [] ∨ (c.skipWhile (· != x)).rest.head? = some x) := by
  refine ⟨_, ?_, reads_skipWhile (· != x) c, ?_⟩
  · intro hmem
    simpa using List.mem_takeWhile_imp hmem
  · have hstop := head?_rest_skipWhile (· != x) c
    cases hrest : (c.skipWhile (· != x)).rest with
    | nil => exact .inl rfl
    | cons y rest =>
      rw [hrest] at hstop
      exact .inr (by simpa using hstop)

end Cursor

end SourceScan
