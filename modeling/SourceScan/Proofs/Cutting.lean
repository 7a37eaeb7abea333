import SourceScan.Proofs.Munch
import SourceScan.Proofs.Place
import SourceScan.Scan.Tokenize

/-!
# The scan cuts a source into its longest matches

A piece at a place determines what there is to report about it: `Piece.finding` says which token,
which diagnostic, or that there is nothing. Its definition does not look at a cursor.

* **`step_takes`** is the step lemma: from every cursor that is not at the end, one step takes the
  longest match of what lies ahead and finds what that piece stands for.
* **`read_cuts`** is the run lemma: all steps together cut the whole text into pieces.
-/

namespace SourceScan

/-- The span of a text that begins at a place. -/
def Place.span (here : Place) (text : List Char) : Span :=
  ⟨here.offset, (here.past text).offset, here.line, here.column⟩

/-- The span of a faulty text that begins at a place. It is put on the line where the text ends:
at the column of its beginning if it began there, and otherwise at the column of its end. -/
def Place.faultSpan (here : Place) (text : List Char) : Span :=
  let stop := here.past text
  ⟨here.offset, stop.offset, stop.line, if stop.line = here.line then here.column else stop.column⟩

/-- **What a piece stands for.** A word is a token with its own text, a comment and a blank are
nothing, and the two faulty classes are reported under their codes. -/
def Piece.finding (here : Place) (p : Piece) : Finding :=
  match p.rule with
  | .word kind =>
    .token (.new kind (String.ofList p.text) (kind.literal? p.text) (here.span p.text))
  | .comment => .blank
  | .blank => .blank
  | .openString =>
    .fault ⟨.error, "Unterminated string.", here.faultSpan p.text, some ⟨"E", 1002⟩, []⟩
  | .other =>
    .fault ⟨.error, "Unexpected character.", here.faultSpan p.text, some ⟨"E", 1001⟩, []⟩

/-- What the pieces of a text stand for, the first of them beginning at a place. -/
def findings (here : Place) : List Piece → List Finding
  | [] => []
  | p :: pieces => p.finding here :: findings (here.past p.text) pieces

/-- What comes behind some pieces is found at the place that their text leads to. -/
theorem findings_append (here : Place) (pieces others : List Piece) :
    findings here (pieces ++ others) =
      findings here pieces ++ findings (here.past (pieces.flatMap Piece.text)) others := by
  induction pieces generalizing here with
  | nil => rfl
  | cons p pieces ih =>
    rw [List.cons_append, findings, findings, ih, List.flatMap_cons, Place.past_append]
    rfl

/-- Each finding is that of a piece, at the place behind the pieces before it. -/
theorem exists_of_mem_findings {here : Place} {pieces : List Piece} {f : Finding}
    (hf : f ∈ findings here pieces) : ∃ before p after, pieces = before ++ p :: after ∧
      f = p.finding (here.past (before.flatMap Piece.text)) := by
  induction pieces generalizing here with
  | nil => cases hf
  | cons p pieces ih =>
    rcases List.mem_cons.1 hf with rfl | hf
    · exact ⟨[], p, pieces, rfl, rfl⟩
    · obtain ⟨before, q, after, rfl, rfl⟩ := ih hf
      refine ⟨p :: before, q, after, rfl, ?_⟩
      rw [List.flatMap_cons, Place.past_append]

/-- Each piece has its finding. -/
theorem exists_finding_of_mem {pieces : List Piece} {p : Piece} (hp : p ∈ pieces) :
    ∃ here, p.finding here ∈ findings .start pieces := by
  obtain ⟨before, after, rfl⟩ := List.append_of_mem hp
  refine ⟨Place.start.past (before.flatMap Piece.text), ?_⟩
  rw [findings_append]
  exact List.mem_append_right _ List.mem_cons_self

/-- Each finding belongs to a piece that is the longest match where it stands. -/
theorem mem_findings {here : Place} {text : List Char} {pieces : List Piece} {f : Finding}
    (hcut : Lexes text pieces) (hf : f ∈ findings here pieces) :
    ∃ before p after, text = before ++ p.text ++ after ∧ Munches (p.text ++ after) p ∧
      f = p.finding (here.past before) := by
  induction hcut generalizing here with
  | nil => cases hf
  | @cons _ after p _ cut first _ ih =>
    subst cut
    rcases List.mem_cons.1 hf with rfl | hf
    · exact ⟨[], p, after, rfl, first, rfl⟩
    · obtain ⟨before, q, behind, rfl, hq, rfl⟩ := ih hf
      exact ⟨p.text ++ before, q, behind, by simp, hq, by rw [Place.past_append]⟩

/-! ## Where findings are

A word or a fault has the bytes of its piece, and so it lies between the place where the pieces
begin and the place where they end. -/

/-- The span of what was found, if it is reported at all. -/
def Finding.span? : Finding → Option Span
  | token t => some t.span
  | fault d => some d.span
  | blank => none

/-- Words and faults alike have the bytes of their piece. -/
theorem Piece.span?_finding {here : Place} {p : Piece} {s : Span}
    (h : (p.finding here).span? = some s) :
    s.start = here.offset ∧ s.stop = (here.past p.text).offset := by
  obtain ⟨rule, text⟩ := p
  cases rule with
  | word | openString | other =>
    cases h
    exact ⟨rfl, rfl⟩
  | comment | blank => cases h

theorem Place.offset_le_past (here : Place) (text : List Char) :
    here.offset ≤ (here.past text).offset := by
  rw [offset_past]
  exact Nat.le_add_right _ _

theorem Place.offset_lt_past (here : Place) {text : List Char} (h : text ≠ []) :
    here.offset < (here.past text).offset := by
  obtain ⟨c, more, rfl⟩ := List.exists_cons_of_ne_nil h
  have hpos : 0 < c.utf8Size := c.utf8Size_pos
  rw [offset_past, String.ofList_cons, String.utf8ByteSize_append, String.utf8ByteSize_singleton]
  omega

/-- **What is found lies within the pieces.** -/
theorem span_of_mem_findings {here : Place} {pieces : List Piece} {f : Finding} {s : Span}
    (hne : ∀ p ∈ pieces, p.text ≠ []) (hf : f ∈ findings here pieces) (hs : f.span? = some s) :
    here.offset ≤ s.start ∧ s.start < s.stop ∧
      s.stop ≤ (here.past (pieces.flatMap Piece.text)).offset := by
  obtain ⟨before, p, after, rfl, rfl⟩ := exists_of_mem_findings hf
  obtain ⟨hstart, hstop⟩ := Piece.span?_finding hs
  rw [List.flatMap_append, List.flatMap_cons, Place.past_append, Place.past_append, hstart, hstop]
  exact ⟨here.offset_le_past _, Place.offset_lt_past _ (hne p (by simp)), Place.offset_le_past _ _⟩

/-- **Findings stand in the order of the text:** each ends before the next ones begin. -/
theorem pairwise_findings {here : Place} {pieces : List Piece} (hne : ∀ p ∈ pieces, p.text ≠ []) :
    (findings here pieces).Pairwise fun f g => ∀ s, f.span? = some s → ∀ t, g.span? = some t →
      s.start < s.stop ∧ s.stop ≤ t.start := by
  induction pieces generalizing here with
  | nil => exact .nil
  | cons p pieces ih =>
    have hothers : ∀ q ∈ pieces, q.text ≠ [] := fun q hq => hne q (List.mem_cons_of_mem p hq)
    refine List.pairwise_cons.2 ⟨fun g hg s hs t ht => ?_, ih hothers⟩
    -- what comes later begins where the first piece ends, or behind that
    obtain ⟨hstart, hstop⟩ := Piece.span?_finding hs
    rw [hstart, hstop]
    exact ⟨here.offset_lt_past (hne p List.mem_cons_self), (span_of_mem_findings hothers hg ht).1⟩

namespace Cursor

variable {source : String}

namespace Reads

variable {c d : Cursor source} {text : List Char}

/-- The cursor behind a walk is where the walk's text leads. -/
theorem offset_eq (walk : Reads c text d) : d.offset = (c.place.past text).offset :=
  congrArg Place.offset walk.place_eq

/-- The token between the ends of a walk, as `Piece.finding` has it. -/
theorem tokenTo_eq (walk : Reads c text d) (kind : TokenKind) (literal : Option Literal) :
    c.tokenTo d kind literal = .new kind (String.ofList text) literal (c.place.span text) := by
  rw [tokenTo, walk.textTo_eq, spanTo, walk.offset_eq]
  rfl

/-- The span of a fault between the ends of a walk, as `Piece.finding` has it. -/
theorem faultSpanTo_eq (walk : Reads c text d) : c.faultSpanTo d = c.place.faultSpan text := by
  rw [Place.faultSpan, ← walk.place_eq]
  rfl

end Reads

/-- **A step takes a piece:** it walks over the piece's text, stops where the piece ends, and finds
what the piece stands for. -/
structure Step.Takes {c : Cursor source} (s : Step c) (p : Piece) : Prop where
  proper : p.Proper
  walk : Reads c p.text s.stop
  ends : p.Ends s.stop.rest
  found : s.finding = p.finding c.place

/-- The piece that a step takes is the longest match of what lies ahead. -/
theorem Step.Takes.munches {c : Cursor source} {s : Step c} {p : Piece} (h : s.Takes p) :
    Munches c.rest p := by
  rw [h.walk.rest_eq]
  exact munches_iff.2 ⟨h.proper, h.ends⟩

/-! ## One lemma for each way a step can go

Each lemma names the piece, checks that it belongs to its class, gives the walk over its text, and
shows that the characters behind it are not among those `Piece.Ends` forbids. The last point is
where the look-ahead of the step is used. -/

section Steps

variable {c : Cursor source} {h : ¬ c.AtEnd}

/-- A mark, with or without an `=` taken in. -/
theorem operatorStep_takes {kind : TokenKind} (hkind : TokenKind.ofChar? (c.head h) = some kind)
    (hslash : kind = .slash → (c.next h).rest.head? ≠ some '/') :
    ∃ p, (c.operatorStep h kind).Takes p := by
  unfold operatorStep
  split
  · next longer stop hlonger haccept =>
    have walk : Reads c [c.head h, '='] stop := (reads_next c h).trans (reads_accept? haccept)
    obtain ⟨hmark, hlast, hne⟩ := TokenKind.of_withEqual? hlonger
    have hliteral : longer.literal? [c.head h, '='] = none := TokenKind.literal?_mark hmark
    have hspells : longer.Spells [c.head h, '='] := TokenKind.spells_of_withEqual? hkind hlonger
    refine ⟨⟨.word longer, _⟩, Piece.proper_word hspells, walk, ?_, ?_⟩
    · -- a mark that ends in `=` looks for nothing behind itself
      refine (Piece.ends_mark hmark).2 ⟨fun hmore => ?_, fun hslash => absurd hslash hne⟩
      rw [hlast] at hmore
      cases hmore
    · simp only [walk.tokenTo_eq, Piece.finding, hliteral]
  · next hnone =>
    have hmark : kind.isLiteral = false := TokenKind.isLiteral_of_ofChar? hkind
    have hliteral : kind.literal? [c.head h] = none := TokenKind.literal?_mark hmark
    refine ⟨⟨.word kind, _⟩, Piece.proper_word (TokenKind.spells_of_ofChar? hkind), reads_next c h,
      ?_, ?_⟩
    · refine (Piece.ends_mark hmark).2 ⟨?_, hslash⟩
      intro hlonger
      obtain ⟨longer, hlonger⟩ := Option.isSome_iff_exists.1 hlonger
      -- the step has looked for the `=`, and would have gone the other way
      apply head?_rest_ne_of_accept?
      cases haccept : (c.next h).accept? '=' with
      | none => rfl
      | some stop => exact absurd haccept (hnone longer stop hlonger)
    · simp only [(reads_next c h).tokenTo_eq, Piece.finding, hliteral]

/-- A comment, whose two slashes have been read. -/
theorem commentStep_takes {slashes : Cursor source} (hs : c.pos < slashes.pos)
    (walk : Reads c ['/', '/'] slashes) : ∃ p, (c.commentStep slashes hs).Takes p := by
  obtain ⟨line, hfree, hline, hstop⟩ := reads_upTo '\n' slashes
  have hcomment : Rule.comment.Matches ('/' :: '/' :: line) := ⟨line, hfree, rfl⟩
  exact ⟨⟨.comment, '/' :: '/' :: line⟩, ⟨hcomment, nofun⟩, walk.trans hline, hstop, rfl⟩

/-- A string, or a quote that nothing closes. -/
theorem stringStep_takes (hquote : c.head h = '"') : ∃ p, (c.stringStep h).Takes p := by
  have hfirst : Reads c ['"'] (c.next h) := by
    rw [← hquote]
    exact reads_next c h
  obtain ⟨inside, hfree, hinside, hstop⟩ := reads_upTo '"' (c.next h)
  simp only [stringStep]
  split
  · next hend =>
    -- the run came to the end of the text, and nothing is left
    have walk := hfirst.trans hinside
    have hopen : Rule.openString.Matches ('"' :: inside) := ⟨inside, hfree, rfl⟩
    refine ⟨⟨.openString, '"' :: inside⟩, ⟨hopen, nofun⟩, walk, rest_eq_nil_iff.2 hend, ?_⟩
    simp only [faultTo, walk.faultSpanTo_eq, Piece.finding]
    rfl
  · next hend =>
    -- the run stopped before the end, so it stopped at a quote
    have hquoted := hstop.resolve_left (mt rest_eq_nil_iff.1 hend)
    obtain ⟨ahead, hahead⟩ := List.head?_eq_some_iff.1 hquoted
    have walk := hfirst.trans (hinside.trans (reads_tail hahead))
    have hclosed : (Rule.word .string).Matches ('"' :: (inside ++ ['"'])) := ⟨inside, hfree, rfl⟩
    refine ⟨⟨.word .string, '"' :: (inside ++ ['"'])⟩, Piece.proper_word hclosed, walk, trivial, ?_⟩
    simp only [walk.tokenTo_eq, hinside.textTo_eq, Piece.finding, TokenKind.literal?]
    simp

/-- The text that `skipNumber` walks over completes any digit to a numeral, and stops where no
numeral goes on. -/
theorem reads_skipNumber (c : Cursor source) : ∃ text, Reads c text c.skipNumber ∧
    ∀ d : Char, d.isDigit = true → IsNumeral (d :: text) ∧
      Piece.Ends ⟨.word .number, d :: text⟩ c.skipNumber.rest := by
  -- the digits ahead are all digits, and with `d` in front of them there is at least one
  obtain ⟨whole, hwhole, hdigits⟩ : ∃ whole, Reads c whole (c.skipWhile Char.isDigit) ∧
      ∀ d : Char, d.isDigit = true → IsDigits (d :: whole) := by
    refine ⟨_, reads_skipWhile Char.isDigit c, fun d hd => ?_⟩
    rw [← List.takeWhile_cons_of_pos hd]
    exact IsDigits.takeWhile hd
  simp only [skipNumber]
  split
  · next hpoint =>
    obtain ⟨hp, hf⟩ := hpoint
    rw [head?_eq] at hp hf
    obtain ⟨ahead, hahead⟩ := List.head?_eq_some_iff.1 hp
    obtain ⟨fraction, hfraction, hmore⟩ : ∃ fraction, Reads (c.skipWhile Char.isDigit).tail fraction
        ((c.skipWhile Char.isDigit).tail.skipWhile Char.isDigit) ∧ IsDigits fraction :=
      ⟨_, reads_skipWhile Char.isDigit _, IsDigits.takeWhile hf⟩
    refine ⟨_, hwhole.trans ((reads_tail hahead).trans hfraction), ?_⟩
    intro d hd
    refine ⟨.inr ⟨d :: whole, fraction, hdigits d hd, hmore, rfl⟩, head?_rest_skipWhile _ _, ?_⟩
    -- a numeral takes no second point
    intro hno
    exact absurd hno (by simp)
  · next hpoint =>
    refine ⟨_, hwhole, ?_⟩
    intro d hd
    refine ⟨.inl (hdigits d hd), head?_rest_skipWhile _ _, ?_⟩
    -- `skipNumber` saw no point with a digit behind it
    intro _ hp
    rw [head?_eq, head?_eq, rest_tail] at hpoint
    simpa [hp] using hpoint

/-- A number. -/
theorem numberStep_takes (hdigit : (c.head h).isDigit = true) : ∃ p, (c.numberStep h).Takes p := by
  obtain ⟨text, hrest, hnumeral⟩ := reads_skipNumber (c.next h)
  obtain ⟨hnum, hends⟩ := hnumeral _ hdigit
  have walk : Reads c (c.head h :: text) (c.next h).skipNumber := (reads_next c h).trans hrest
  obtain ⟨value, hvalue⟩ := Option.isSome_iff_exists.1 hnum.read?_isSome
  refine ⟨⟨.word .number, _⟩, Piece.proper_word hnum, walk, hends, ?_⟩
  -- the text of a numeral always has a value, so the fault is never reported
  simp only [numberStep, walk.textTo_eq, String.toList_ofList, hvalue, walk.tokenTo_eq,
    Piece.finding, TokenKind.literal?, Option.map_some]

/-- A blank. -/
theorem blank_takes (hblank : isBlank (c.head h) = true) :
    Step.Takes ⟨.blank, c.next h, pos_lt_pos_next c h⟩ ⟨.blank, [c.head h]⟩ := by
  refine ⟨⟨?_, nofun⟩, reads_next c h, trivial, rfl⟩
  simp only [isBlank, Bool.or_eq_true, decide_eq_true_eq] at hblank
  rcases hblank with ((hc | hc) | hc) | hc
  all_goals simp [Rule.Matches, hc]

/-- A character that none of the other steps is for. -/
theorem stray_takes (hmark : TokenKind.ofChar? (c.head h) = none)
    (hblank : isBlank (c.head h) = false) (hquote : c.head h ≠ '"')
    (hdigit : (c.head h).isDigit = false) :
    Step.Takes ⟨.fault (c.faultTo (c.next h) .unexpectedCharacter), c.next h, pos_lt_pos_next c h⟩
      ⟨.other, [c.head h]⟩ := by
  refine ⟨⟨⟨_, rfl⟩, ?_⟩, reads_next c h, trivial, ?_⟩
  · -- nothing else begins with it
    intro _ rule hrule
    have hbegins : rule.Begins (c.head h) := begins_of_isPrefix hrule (List.prefix_refl _)
    exact hbegins.of_stray hmark hblank hquote hdigit
  · simp only [faultTo, (reads_next c h).faultSpanTo_eq, Piece.finding]
    rfl

end Steps

/-! ## The step and the run -/

/-- **A step takes the longest match.** The cases are those of `step`, and each of them has its
lemma above. -/
theorem step_takes (c : Cursor source) (h : ¬ c.AtEnd) : ∃ p, (c.step h).Takes p := by
  simp only [step]
  split
  · next hslash =>
    -- one slash is an operator, and two begin a comment
    split
    · next slashes haccept =>
      have walk : Reads c ['/', '/'] slashes :=
        (hslash ▸ reads_next c h : Reads c ['/'] (c.next h)).trans (reads_accept? haccept)
      exact commentStep_takes _ walk
    · next haccept =>
      exact operatorStep_takes (by rw [hslash]; rfl) fun _ => head?_rest_ne_of_accept? haccept
  · next hslash =>
    split
    · next kind hkind =>
      refine operatorStep_takes hkind fun hk => absurd ?_ hslash
      exact TokenKind.eq_slash_of_ofChar? (hk ▸ hkind)
    · next hmark =>
      split
      · next hblank => exact ⟨_, blank_takes hblank⟩
      · next hblank =>
        split
        · next hquote => exact stringStep_takes hquote
        · next hquote =>
          split
          · next hdigit => exact numberStep_takes hdigit
          · next hdigit =>
            exact ⟨_, stray_takes hmark (by simpa using hblank) hquote (by simpa using hdigit)⟩

/-- **The steps of a run cut all that lies ahead,** and find what the pieces stand for. The
induction is on the steps of `read`. -/
theorem read_cuts (c : Cursor source) : ∃ pieces, Lexes c.rest pieces ∧
    c.read.findings = findings c.place pieces ∧ Reads c c.rest c.read.stop := by
  fun_induction read c with
  | case1 c h =>
    have hrest := rest_eq_nil_iff.2 h
    exact ⟨[], hrest ▸ .nil, rfl, hrest ▸ .refl c⟩
  | case2 c h s r ih =>
    obtain ⟨p, hp⟩ := step_takes c h
    obtain ⟨pieces, hlexes, hfound, hwalk⟩ := ih
    refine ⟨p :: pieces, .cons hp.walk.rest_eq hp.munches hlexes, ?_, ?_⟩
    · -- the steps that follow begin where the text of the piece leads
      show s.finding :: r.findings = p.finding c.place :: findings (c.place.past p.text) pieces
      rw [← hp.walk.place_eq, ← hfound, ← hp.found]
    · rw [hp.walk.rest_eq]
      exact hp.walk.trans hwalk

end Cursor

end SourceScan
