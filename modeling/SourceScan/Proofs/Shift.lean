import SourceScan.Proofs.Delivery

/-!
# Moving a text

What is found in a text does not depend on where the text stands. A text that begins some bytes and
some lines further on, in the same column, is read alike: every span moves by as many bytes and
lines, and nothing else is different.

Moving commutes with reading a character (**`Place.next_shift`**), and this is carried upwards
through places, spans and findings to **`findings_shift`**. The one step to check is the column of a
fault, which is chosen by comparing two lines; both have moved by the same number.
-/

namespace SourceScan

variable (bytes lines : Nat)

/-! ## What moves -/

/-- The place as many bytes and lines further on. -/
@[simps]
def Place.shift (here : Place) : Place := ⟨here.offset + bytes, here.line + lines, here.column⟩

/-- The span of the same text further on. -/
def Span.shift (s : Span) : Span := ⟨s.start + bytes, s.stop + bytes, s.line + lines, s.column⟩

/-- The token of the same text further on. Its own line moves like that of its span. -/
def Token.shift (t : Token) : Token :=
  { t with site := ⟨t.span.shift bytes lines, t.line + lines⟩ }

/-- The report about the same text further on. -/
def Diagnostic.shift (d : Diagnostic) : Diagnostic := { d with span := d.span.shift bytes lines }

/-- What is found in the same text further on. -/
def Finding.shift : Finding → Finding
  | token t => token (t.shift bytes lines)
  | fault d => fault (d.shift bytes lines)
  | blank => blank

/-! ## Reading moves along -/

/-- **Moving and reading a character commute.** A newline starts the column anew in both places. -/
theorem Place.next_shift (here : Place) (c : Char) :
    (here.shift bytes lines).next c = (here.next c).shift bytes lines := by
  unfold Place.next
  split
  · show Place.mk _ _ _ = Place.mk _ _ _
    rw [Place.mk.injEq]
    exact ⟨Nat.add_right_comm .., Nat.add_right_comm .., rfl⟩
  · show Place.mk _ _ _ = Place.mk _ _ _
    rw [Place.mk.injEq]
    exact ⟨Nat.add_right_comm .., rfl, rfl⟩

/-- **Moving and reading a text commute,** by induction on the text, from any place. -/
theorem Place.past_shift (here : Place) (text : List Char) :
    (here.shift bytes lines).past text = (here.past text).shift bytes lines := by
  induction text generalizing here with
  | nil => rfl
  | cons c text ih => rw [past_cons, past_cons, next_shift, ih]

/-- A span has its beginning and its end from the same place, so both move. -/
theorem Place.span_shift (here : Place) (text : List Char) :
    (here.shift bytes lines).span text = (here.span text).shift bytes lines := by
  rw [span, past_shift]
  rfl

/-- The span of a fault has the column of its beginning if both ends are on one line. Moving adds
the same number to both lines, so this is decided as before. -/
theorem Place.faultSpan_shift (here : Place) (text : List Char) :
    (here.shift bytes lines).faultSpan text = (here.faultSpan text).shift bytes lines := by
  simp only [faultSpan, past_shift, shift_offset, shift_line, shift_column,
    Nat.add_right_cancel_iff]
  rfl

/-- What a piece stands for moves with the piece. -/
theorem Piece.finding_shift (here : Place) (p : Piece) :
    p.finding (here.shift bytes lines) = (p.finding here).shift bytes lines := by
  obtain ⟨rule, text⟩ := p
  cases rule with
  | word kind =>
    simp only [finding, Place.span_shift]
    rfl
  | comment | blank => rfl
  | openString | other =>
    simp only [finding, Place.faultSpan_shift]
    rfl

/-- The end of the input moves with the end of the text. -/
theorem Place.endToken_shift (here : Place) :
    (here.shift bytes lines).endToken = here.endToken.shift bytes lines := rfl

/-- **Pieces that begin further on** are found further on. The induction is on the pieces: behind
the first one, `Place.past_shift` moves the place where the others begin. -/
theorem findings_shift (here : Place) (pieces : List Piece) :
    findings (here.shift bytes lines) pieces =
      (findings here pieces).map (Finding.shift bytes lines) := by
  induction pieces generalizing here with
  | nil => rfl
  | cons p pieces ih =>
    rw [findings, findings, Piece.finding_shift, Place.past_shift, ih, List.map_cons]

/-! ## Moving twice -/

theorem Span.shift_shift (s : Span) (bytes lines more below : Nat) :
    (s.shift bytes lines).shift more below = s.shift (bytes + more) (lines + below) := by
  simp only [shift, Nat.add_assoc]

theorem Token.shift_shift (t : Token) (bytes lines more below : Nat) :
    (t.shift bytes lines).shift more below = t.shift (bytes + more) (lines + below) := by
  show Token.mk _ _ _ ⟨(t.span.shift bytes lines).shift more below, t.line + lines + below⟩ = _
  rw [Span.shift_shift, Nat.add_assoc]
  rfl

/-- Moving all tokens twice is moving them once. -/
theorem Token.map_shift_shift (tokens : List Token) (bytes lines more below : Nat) :
    (tokens.map (shift bytes lines)).map (shift more below) =
      tokens.map (shift (bytes + more) (lines + below)) := by
  rw [List.map_map]
  refine List.map_congr_left fun t _ => ?_
  rw [Function.comp_apply, shift_shift]

/-- Moving all reports twice is moving them once. -/
theorem Diagnostic.map_shift_shift (faults : List Diagnostic) (bytes lines more below : Nat) :
    (faults.map (shift bytes lines)).map (shift more below) =
      faults.map (shift (bytes + more) (lines + below)) := by
  rw [List.map_map]
  refine List.map_congr_left fun d _ => ?_
  simp only [Function.comp_apply, shift, Span.shift_shift]

/-! ## Words and faults among what moves -/

/-- **What is selected of moved findings** is what is selected of the findings, moved. -/
theorem filterMap_moved {α : Type} {select : Finding → Option α} {move : Finding → Finding}
    {moved : α → α} (h : ∀ f, select (move f) = (select f).map moved) (found : List Finding) :
    (found.map move).filterMap select = (found.filterMap select).map moved := by
  rw [List.filterMap_map, List.map_filterMap]
  exact List.filterMap_congr fun f _ => h f

theorem Finding.token?_shift (f : Finding) :
    (f.shift bytes lines).token? = f.token?.map (Token.shift bytes lines) := by
  cases f <;> rfl

theorem Finding.fault?_shift (f : Finding) :
    (f.shift bytes lines).fault? = f.fault?.map (Diagnostic.shift bytes lines) := by
  cases f <;> rfl

end SourceScan
