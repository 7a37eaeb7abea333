import SourceScan.Proofs.Lines

/-!
# Line endings

A line may end in a newline, or in a carriage return and a newline. The carriage return is a blank
like any other, except where something reaches across it: a comment takes it in, and so does a
string. It is the last character of its line, so no line and no column depends on it.

`crlf` puts a carriage return before each newline. A source and its image under `crlf` are read
alike: the texts of words and of strings change in the same way as the source does, and bytes are
counted with the carriage returns before them.

* **`Place.past_crlf`**: the place behind a text moves by one byte for each newline in it.
* **`Lexes.exists_crlf`** is the run lemma. Its steps take three forms: a newline becomes two
  blanks, a comment grows by the carriage return behind it, and any other piece is mapped by itself.
-/

namespace SourceScan

/-! ## Texts with carriage returns -/

/-- **A carriage return before each newline.** -/
def crlf (text : List Char) : List Char :=
  text.flatMap fun c => if c = '\n' then ['\r', '\n'] else [c]

/-- A source with a carriage return before each newline. -/
def withCrlf (text : String) : String := String.ofList (crlf text.toList)

@[simp] theorem crlf_nil : crlf [] = [] := rfl

@[simp] theorem crlf_append (s t : List Char) : crlf (s ++ t) = crlf s ++ crlf t :=
  List.flatMap_append

@[simp] theorem crlf_newline (text : List Char) : crlf ('\n' :: text) = '\r' :: '\n' :: crlf text :=
  rfl

theorem crlf_cons {c : Char} (hc : c ≠ '\n') (text : List Char) :
    crlf (c :: text) = c :: crlf text := by
  show (if c = '\n' then ['\r', '\n'] else [c]) ++ crlf text = c :: crlf text
  rw [if_neg hc]
  rfl

/-- A text without newlines stays as it is. -/
theorem crlf_of_not_mem {text : List Char} (h : '\n' ∉ text) : crlf text = text := by
  induction text with
  | nil => rfl
  | cons c text ih =>
    rw [List.mem_cons, not_or] at h
    rw [crlf_cons (Ne.symm h.1), ih h.2]

/-- Other characters than the carriage return are in `crlf text` just if they are in the text. -/
theorem mem_crlf {c : Char} {text : List Char} (hr : c ≠ '\r') : c ∈ crlf text ↔ c ∈ text := by
  induction text with
  | nil => exact Iff.rfl
  | cons d text ih =>
    by_cases hd : d = '\n'
    · rw [hd, crlf_newline]
      simp [hr, ih]
    · rw [crlf_cons hd, List.mem_cons, List.mem_cons, ih]

/-- The first character is the same, or a carriage return in front of the newline that it is. -/
theorem head?_crlf (text : List Char) :
    (crlf text).head? = text.head?.map fun c => if c = '\n' then '\r' else c := by
  cases text with
  | nil => rfl
  | cons c text =>
    by_cases hc : c = '\n'
    · simp [hc]
    · simp [crlf_cons hc, hc]

/-- What `Piece.Ends` asks about digits. -/
theorem any_isDigit_head?_crlf (text : List Char) :
    (crlf text).head?.any Char.isDigit = text.head?.any Char.isDigit := by
  rw [head?_crlf, Option.any_map]
  cases text with
  | nil => rfl
  | cons c text =>
    by_cases hc : c = '\n'
    · simp [hc]
    · simp [hc]

/-- What `Piece.Ends` asks about other characters. -/
theorem head?_crlf_eq_some {c : Char} (hr : c ≠ '\r') {text : List Char}
    (h : (crlf text).head? = some c) : text.head? = some c := by
  rw [head?_crlf] at h
  obtain ⟨d, hd, hc⟩ := Option.map_eq_some_iff.1 h
  split at hc
  · exact absurd hc.symm hr
  · rw [hd, hc]

/-! ## Counting newlines -/

/-- **The newlines before a byte** of a text. -/
def newlinesBefore : Nat → List Char → Nat
  | _, [] => 0
  | offset, c :: text =>
    if offset = 0 then 0 else [c].count '\n' + newlinesBefore (offset - c.utf8Size) text

/-- At the offset behind `before`, the newlines before it are those in `before`. -/
theorem newlinesBefore_append (before after : List Char) :
    newlinesBefore (String.ofList before).utf8ByteSize (before ++ after) = before.count '\n' := by
  induction before with
  | nil => cases after <;> rfl
  | cons c before ih =>
    -- the offset is not 0, so the first character is counted
    have hpos : 0 < c.utf8Size := c.utf8Size_pos
    have hsize : (String.ofList (c :: before)).utf8ByteSize =
        c.utf8Size + (String.ofList before).utf8ByteSize := by
      rw [String.ofList_cons, String.utf8ByteSize_append, String.utf8ByteSize_singleton]
    rw [List.cons_append, newlinesBefore, hsize, if_neg (by omega), Nat.add_sub_cancel_left, ih,
      ← List.count_append, List.singleton_append]

/-- **The place behind a text with carriage returns** is as many bytes further on as the text has
newlines. The induction is on the text, from a place that may have moved by some `returns`
already. -/
theorem Place.past_crlf (here : Place) (returns : Nat) (text : List Char) :
    (here.shift returns 0).past (crlf text) =
      (here.past text).shift (returns + text.count '\n') 0 := by
  induction text generalizing here returns with
  | nil => rfl
  | cons c text ih =>
    by_cases hc : c = '\n'
    · subst hc
      -- the carriage return adds a byte and a column, and behind the newline the column is 1
      have hline : ((here.shift returns 0).next '\r').next '\n' =
          (here.next '\n').shift (returns + 1) 0 := by
        have hr : '\r'.utf8Size = 1 := rfl
        have hn : '\n'.utf8Size = 1 := rfl
        simp [Place.next, Place.shift, hr, hn]
        omega
      have hcount : ('\n' :: text).count '\n' = text.count '\n' + 1 := List.count_cons_self
      rw [crlf_newline, past_cons, past_cons, hline, ih, past_cons, hcount]
      congr 1
      omega
    · rw [crlf_cons hc, past_cons, next_shift, ih, past_cons, List.count_cons_of_ne hc]

/-! ## What is read of a text with carriage returns -/

/-- A span of a source, in the source with carriage returns. -/
def Span.crlf (source : String) (s : Span) : Span :=
  ⟨s.start + newlinesBefore s.start source.toList, s.stop + newlinesBefore s.stop source.toList,
    s.line, s.column⟩

/-- A value, when the source has carriage returns: strings get them as well. -/
def Literal.crlf : Literal → Literal
  | number x => number x
  | string text => string (withCrlf text)

/-- **A token of a source,** as it is read when carriage returns are put into the source: in the
same line and column, with the same change to its text, and as many bytes further on as newlines
come before. -/
def Token.crlf (source : String) (t : Token) : Token :=
  ⟨t.kind, withCrlf t.lexeme, t.literal.map Literal.crlf, t.span.crlf source, t.line⟩

/-- A report about a source, when the source has carriage returns. -/
def Diagnostic.crlf (source : String) (d : Diagnostic) : Diagnostic :=
  { d with span := d.span.crlf source }

/-- What was found in a source, when the source has carriage returns. -/
def Finding.crlf (source : String) : Finding → Finding
  | token t => token (t.crlf source)
  | fault d => fault (d.crlf source)
  | blank => blank

/-- A piece with carriage returns in its text. -/
def Piece.crlf (p : Piece) : Piece := ⟨p.rule, SourceScan.crlf p.text⟩

/-! ## Pieces with carriage returns -/

theorem newline_ne_of_isDigit {c : Char} (hc : c.isDigit = true) : c ≠ '\n' := by
  rintro rfl
  cases hc

theorem IsDigits.newline_not_mem {text : List Char} (h : IsDigits text) : '\n' ∉ text :=
  fun hmem => newline_ne_of_isDigit (h.2 _ hmem) rfl

/-- A numeral is on one line. -/
theorem IsNumeral.newline_not_mem {text : List Char} (h : IsNumeral text) : '\n' ∉ text := by
  rcases h with h | ⟨whole, fraction, hw, hf, rfl⟩
  · exact h.newline_not_mem
  · simp [hw.newline_not_mem, hf.newline_not_mem]

/-- A mark is on one line. -/
theorem TokenKind.Spells.newline_not_mem {kind : TokenKind} {text : List Char}
    (hkind : kind.isLiteral = false) (h : kind.Spells text) : '\n' ∉ text := by
  have hnl {c : Char} {k : TokenKind} (hc : ofChar? c = some k) : c ≠ '\n' := by
    rintro rfl
    cases hc
  rcases mark_forms ((spells_mark hkind).1 h) with ⟨c, rfl, hc⟩ | ⟨c, shorter, rfl, hc, -⟩
  · simpa [eq_comm] using hnl hc
  · simpa [eq_comm] using hnl hc

/-- The quotes of a string stay where they are. -/
theorem crlf_quoted (content : List Char) :
    crlf ('"' :: (content ++ ['"'])) = '"' :: (crlf content ++ ['"']) := by
  have hquote : crlf ['"'] = ['"'] := crlf_of_not_mem (by decide)
  rw [crlf_cons (by decide), crlf_append, hquote]

/-- Only strings hold newlines, and a string is as good with carriage returns in it. -/
theorem TokenKind.Spells.crlf {kind : TokenKind} {text : List Char} (h : kind.Spells text) :
    kind.Spells (crlf text) ∧
      kind.literal? (SourceScan.crlf text) = (kind.literal? text).map Literal.crlf := by
  rcases kind.literal_cases with rfl | rfl | hkind
  · -- a numeral stays the same, and its value is none that changes
    have hfree : '\n' ∉ text := IsNumeral.newline_not_mem h
    rw [crlf_of_not_mem hfree]
    refine ⟨h, ?_⟩
    show (Binary64.read? text).map Literal.number = ((Binary64.read? text).map Literal.number).map _
    rw [Option.map_map]
    rfl
  · -- the returns come into the content, and so into the value
    obtain ⟨content, hcontent, rfl⟩ := h
    rw [crlf_quoted]
    refine ⟨⟨_, mt (mem_crlf (by decide)).1 hcontent, rfl⟩, ?_⟩
    simp [literal?, Literal.crlf, withCrlf]
  · rw [crlf_of_not_mem (h.newline_not_mem hkind), literal?_mark hkind]
    exact ⟨h, rfl⟩

namespace Piece

variable {p : Piece} {after : List Char}

/-- A piece other than a newline is a piece of the same class with the carriage returns. -/
theorem Proper.crlf (hp : p.Proper) (hnl : p ≠ newlinePiece) : p.crlf.Proper := by
  obtain ⟨rule, text⟩ := p
  cases rule with
  | word kind => exact proper_word (TokenKind.Spells.crlf hp.matched).1
  | comment =>
    obtain ⟨body, hbody, rfl⟩ := hp.matched
    have hfree : '\n' ∉ '/' :: '/' :: body := by simp [hbody]
    rwa [Piece.crlf, crlf_of_not_mem hfree]
  | blank =>
    have hfree : '\n' ∉ text := by
      rcases hp.matched with rfl | rfl | rfl | rfl
      · decide
      · decide
      · decide
      · exact absurd rfl hnl
    rwa [Piece.crlf, crlf_of_not_mem hfree]
  | openString =>
    obtain ⟨content, hcontent, rfl⟩ := hp.matched
    have hquote : SourceScan.crlf ('"' :: content) = '"' :: SourceScan.crlf content :=
      crlf_cons (by decide) content
    exact ⟨⟨_, mt (mem_crlf (by decide)).1 hcontent, hquote⟩, nofun⟩
  | other =>
    obtain ⟨c, rfl⟩ := hp.matched
    -- a newline would be a blank, and `other` is the last resort
    have hfree : '\n' ∉ [c] := by
      rw [List.mem_singleton]
      rintro rfl
      cases hp.lastResort rfl .blank (.inr (.inr (.inr rfl)))
    rwa [Piece.crlf, crlf_of_not_mem hfree]

/-- A carriage return is as good as a newline behind a piece that is not a comment. -/
theorem Proper.ends_crlf (hp : p.Proper) (hrule : p.rule ≠ .comment) (h : p.Ends after) :
    p.crlf.Ends (SourceScan.crlf after) := by
  obtain ⟨rule, text⟩ := p
  cases rule with
  | word kind =>
    rcases kind.literal_cases with rfl | rfl | hkind
    · have hfree : '\n' ∉ text := IsNumeral.newline_not_mem hp.matched
      obtain ⟨hdigit, hpoint⟩ := h
      refine ⟨by rwa [any_isDigit_head?_crlf], fun hno hdot => ?_⟩
      rw [Piece.crlf, crlf_of_not_mem hfree] at hno
      -- behind the point a carriage return stands for a newline, and neither is a digit
      have hahead := head?_crlf_eq_some (by decide) hdot
      obtain ⟨more, rfl⟩ := List.head?_eq_some_iff.1 hahead
      have hmore := hpoint hno rfl
      rw [crlf_cons (by decide)]
      rwa [List.tail_cons, any_isDigit_head?_crlf]
    · trivial
    · -- a mark is made longer by `=` or a slash, and a carriage return is neither
      obtain ⟨hequal, hslash⟩ := (ends_mark hkind).1 h
      refine (ends_mark hkind).2 ⟨fun hlonger hx => ?_, fun hk hx => ?_⟩
      · exact hequal hlonger (head?_crlf_eq_some (by decide) hx)
      · exact hslash hk (head?_crlf_eq_some (by decide) hx)
  | comment => exact absurd rfl hrule
  | openString =>
    obtain rfl : after = [] := h
    rfl
  | blank | other => trivial

end Piece

/-! ## Findings with carriage returns -/

section Findings

variable {source : String} {before text after : List Char}

/-- The place behind a text at the front of a source, when the text has carriage returns. -/
theorem Place.past_start_crlf (before after : List Char) : start.past (crlf before) =
    (start.past before).shift (newlinesBefore (start.past before).offset (before ++ after)) 0 := by
  have hcount := start.past_crlf 0 before
  rw [past_start before, newlinesBefore_append, ← past_start, ← Nat.zero_add (before.count '\n')]
  exact hcount

/-- A span between two such places. -/
theorem Place.span_crlf (hsource : source.toList = before ++ (text ++ after)) :
    (start.past (crlf before)).span (crlf text) = ((start.past before).span text).crlf source := by
  have hstop := past_start_crlf (before ++ text) after
  rw [List.append_assoc, ← hsource, crlf_append, past_append, past_append] at hstop
  rw [span, hstop, past_start_crlf before (text ++ after), ← hsource]
  rfl

/-- The span of a fault is chosen by comparing lines, and these are the same. -/
theorem Place.faultSpan_crlf (hsource : source.toList = before ++ (text ++ after)) :
    (start.past (crlf before)).faultSpan (crlf text) =
      ((start.past before).faultSpan text).crlf source := by
  have hstop := past_start_crlf (before ++ text) after
  rw [List.append_assoc, ← hsource, crlf_append, past_append, past_append] at hstop
  rw [faultSpan, hstop, past_start_crlf before (text ++ after), ← hsource]
  rfl

/-- **The step lemma.** What a piece stands for changes as the piece does. -/
theorem Piece.finding_crlf {p : Piece} (hp : p.Proper)
    (hsource : source.toList = before ++ (p.text ++ after)) :
    p.crlf.finding (Place.start.past (SourceScan.crlf before)) =
      (p.finding (Place.start.past before)).crlf source := by
  obtain ⟨rule, text⟩ := p
  cases rule with
  | word kind =>
    have hliteral := (TokenKind.Spells.crlf hp.matched).2
    simp only [finding, Piece.crlf, Place.span_crlf hsource, hliteral]
    simp only [Finding.crlf, Token.crlf, withCrlf, Token.new_lexeme, String.toList_ofList]
    rfl
  | comment | blank => rfl
  | openString | other =>
    simp only [finding, Piece.crlf, Place.faultSpan_crlf hsource]
    rfl

end Findings

/-- What was found, without the blanks. -/
def meant (found : List Finding) : List Finding := found.filter (· ≠ .blank)

/-- Leaving blanks out leaves all else that is selected of findings. -/
theorem filterMap_meant {α : Type} {select : Finding → Option α} (hblank : select .blank = none)
    (found : List Finding) : (meant found).filterMap select = found.filterMap select := by
  rw [meant, List.filterMap_filter]
  refine List.filterMap_congr fun f _ => ?_
  cases f with
  | blank => simp [hblank]
  | token | fault => simp

theorem Finding.token?_crlf (source : String) (f : Finding) :
    (f.crlf source).token? = f.token?.map (Token.crlf source) := by
  cases f <;> rfl

theorem Finding.fault?_crlf (source : String) (f : Finding) :
    (f.crlf source).fault? = f.fault?.map (Diagnostic.crlf source) := by
  cases f <;> rfl

section Meant

variable {source : String} {found found' : List Finding}

/-- One more finding in front. -/
theorem meant_cons_crlf (f : Finding)
    (h : meant found' = (meant found).map (Finding.crlf source)) :
    meant (f.crlf source :: found') = (meant (f :: found)).map (Finding.crlf source) := by
  cases f with
  | token t => exact congrArg (List.cons (.token (t.crlf source))) h
  | fault d => exact congrArg (List.cons (.fault (d.crlf source))) h
  | blank => exact h

/-- If what is `meant` is mapped, so is all that is selected of it. -/
theorem filterMap_of_meant {α : Type} {select : Finding → Option α} {moved : α → α}
    (hblank : select .blank = none) (hmoved : ∀ f, select (f.crlf source) = (select f).map moved)
    (h : meant found' = (meant found).map (Finding.crlf source)) :
    found'.filterMap select = (found.filterMap select).map moved := by
  rw [← filterMap_meant hblank, h, filterMap_moved hmoved, filterMap_meant hblank]

end Meant

/-! ## The run -/

/-- A carriage return, as a piece. -/
def returnPiece : Piece := ⟨.blank, ['\r']⟩

/-- A carriage return in front of a text is cut off by itself. -/
theorem lexes_return {after : List Char} {pieces : List Piece} (h : Lexes after pieces) :
    Lexes ('\r' :: after) (returnPiece :: pieces) := by
  have hproper : returnPiece.Proper := ⟨.inr (.inl rfl), nofun⟩
  exact .cons (p := returnPiece) rfl (munches_iff.2 ⟨hproper, trivial⟩) h

/-- A comment takes in the carriage return at the end of its line. Without the comment it would have
been a blank. -/
theorem Lexes.comment_return {body below : List Char} {others : List Piece} (hbody : '\n' ∉ body)
    (h : Lexes ('\r' :: '\n' :: below) others) :
    ∃ more, others = returnPiece :: more ∧ Lexes ('/' :: '/' :: body ++ '\r' :: '\n' :: below)
      (⟨.comment, '/' :: '/' :: (body ++ ['\r'])⟩ :: more) := by
  obtain ⟨more, hmore⟩ := exists_lexes (String.ofList ('\n' :: below))
  rw [String.toList_ofList] at hmore
  refine ⟨more, h.unique (lexes_return hmore), ?_⟩
  let longer : Piece := ⟨.comment, '/' :: '/' :: (body ++ ['\r'])⟩
  have hmatch : longer.rule.Matches longer.text := ⟨body ++ ['\r'], by simp [hbody], rfl⟩
  have hmunch : Munches (longer.text ++ '\n' :: below) longer :=
    munches_iff.2 ⟨⟨hmatch, nofun⟩, .inr rfl⟩
  have hjoin : '/' :: '/' :: body ++ '\r' :: '\n' :: below = longer.text ++ '\n' :: below := by
    simp [longer]
  rw [hjoin]
  exact .cons rfl hmunch hmore

/-- **The run lemma.** What is `meant` by the pieces of a text is mapped by `Finding.crlf`. The
induction is on the pieces; `before` is the text that the earlier ones make up, and grows by one
piece a step. -/
theorem Lexes.exists_crlf {source : String} {text : List Char} {pieces : List Piece}
    (h : Lexes text pieces) (before : List Char) (hsource : source.toList = before ++ text) :
    ∃ others, Lexes (crlf text) others ∧ meant (findings (Place.start.past (crlf before)) others) =
      (meant (findings (Place.start.past before) pieces)).map (Finding.crlf source) := by
  induction h generalizing before with
  | nil => exact ⟨[], .nil, rfl⟩
  | @cons _ after p pieces cut first rest ih =>
    subst cut
    obtain ⟨hproper, hends⟩ := munches_iff.1 first
    obtain ⟨others, hcut, hmeant⟩ := ih (before ++ p.text) (by simpa using hsource)
    rw [crlf_append, Place.past_append, Place.past_append] at hmeant
    rw [crlf_append]
    by_cases hnl : p = newlinePiece
    · -- the newline becomes two blanks
      subst hnl
      have hreturn := lexes_return (.cons (p := newlinePiece) rfl (munches_newline _) hcut)
      exact ⟨returnPiece :: newlinePiece :: others, hreturn, hmeant⟩
    by_cases hbelow : p.rule = .comment ∧ after ≠ []
    · -- the comment and the first of the two blanks behind it become one comment
      obtain ⟨hrule, hne⟩ := hbelow
      obtain ⟨rule, quoted⟩ := p
      subst hrule
      obtain ⟨body, hbody, rfl⟩ := hproper.matched
      obtain ⟨below, rfl⟩ := List.head?_eq_some_iff.1 (hends.resolve_left hne)
      obtain ⟨more, rfl, hgrown⟩ := Lexes.comment_return hbody hcut
      have hfree : '\n' ∉ '/' :: '/' :: body := by simp [hbody]
      rw [crlf_of_not_mem hfree] at hmeant ⊢
      refine ⟨_, hgrown, ?_⟩
      have hplace (here : Place) : here.past ('/' :: '/' :: (body ++ ['\r'])) =
          (here.past ('/' :: '/' :: body)).past ['\r'] := by
        rw [← Place.past_append]
        rfl
      show meant (findings (Place.past _ ('/' :: '/' :: (body ++ ['\r']))) more) = _
      rw [hplace]
      exact hmeant
    · -- any other piece ends before a carriage return as it ends before a newline
      have hends' : p.crlf.Ends (crlf after) := by
        by_cases hrule : p.rule = .comment
        · obtain rfl : after = [] := by
            by_contra hne
            exact hbelow ⟨hrule, hne⟩
          exact p.crlf.ends_nil
        · exact hproper.ends_crlf hrule hends
      refine ⟨p.crlf :: others, .cons rfl (munches_iff.2 ⟨hproper.crlf hnl, hends'⟩) hcut, ?_⟩
      rw [findings, findings, Piece.finding_crlf hproper hsource]
      exact meant_cons_crlf _ hmeant

/-- The end of the input moves by all newlines of the source. -/
theorem endTokenOf_withCrlf (source : String) :
    endTokenOf (withCrlf source) = (endTokenOf source).crlf source := by
  have hstop := Place.past_start_crlf source.toList []
  rw [List.append_nil] at hstop
  have hoffset : (Place.start.past source.toList).offset = source.utf8ByteSize := by
    rw [Place.past_start, String.ofList_toList]
  rw [endTokenOf_eq, withCrlf, String.toList_ofList, hstop, hoffset, Place.endToken, Place.shift]
  rw [Token.endOfInput, endTokenOf, Token.crlf]
  simp only [Token.new_span, Token.new_lexeme, Token.new_line, Span.crlf, hoffset]
  rfl

/-- **Newlines with and without carriage returns are the same line endings.** Let `tokens` and
`faults` be what a scan of a source returns and adds to a reporter that does not panic on errors. A
scan of `withCrlf source` returns `tokens` under `Token.crlf` and adds `faults` under
`Diagnostic.crlf`: in the same lines and columns, with offsets greater by the `newlinesBefore` them,
and with `withCrlf` applied to texts and to strings as values. -/
theorem tokenize_withCrlf (source : String) (r r' : Reporter) (hr : r.policy.panicOnError = false)
    (hr' : r'.policy.panicOnError = false) :
    ∃ (tokens : List Token) (faults : List Diagnostic),
      (tokenize source r).result = .ok tokens ∧
      (tokenize source r).reporter.kept = r.kept ++ faults.toArray ∧
      (tokenize (withCrlf source) r').result = .ok (tokens.map (Token.crlf source)) ∧
      (tokenize (withCrlf source) r').reporter.kept =
        r'.kept ++ (faults.map (Diagnostic.crlf source)).toArray := by
  obtain ⟨pieces, hcut⟩ := exists_lexes source
  -- from the start on, with nothing before the text
  obtain ⟨others, hcut', hmeant⟩ := hcut.exists_crlf [] rfl
  have hothers : Lexes (withCrlf source).toList others := by
    rwa [withCrlf, String.toList_ofList]
  have hresult := tokenize_runs (r := r) hcut (.inl hr)
  have hresult' := tokenize_runs (r := r') hothers (.inl hr')
  have htokens : tokensOf others = (tokensOf pieces).map (Token.crlf source) :=
    filterMap_of_meant rfl (Finding.token?_crlf source) hmeant
  have hfaults : faultsOf others = (faultsOf pieces).map (Diagnostic.crlf source) :=
    filterMap_of_meant rfl (Finding.fault?_crlf source) hmeant
  refine ⟨_, faultsOf pieces, hresult, ?_, ?_, ?_⟩
  · rw [(tokenize_ok hcut hresult).2]
  · rw [hresult', htokens, endTokenOf_withCrlf, List.map_append]
    rfl
  · rw [(tokenize_ok hothers hresult').2, hfaults]

/-- A string over two lines, a comment at the end of a line, and a second string that stays open
until the third line. -/
theorem tokenize_withCrlf_three_lines : Reporter.new.policy.panicOnError = false ∧
    ∃ (tokens : List Token) (faults : List Diagnostic),
      (tokenize "\"a\nü\" 1//\n\"" .new).result = .ok tokens ∧
      tokens.map (·.span) = [⟨0, 6, 1, 1⟩, ⟨7, 8, 2, 4⟩, ⟨12, 12, 3, 2⟩] ∧
      (tokenize "\"a\nü\" 1//\n\"" .new).reporter.diagnostics = faults ∧
      withCrlf "\"a\nü\" 1//\n\"" = "\"a\r\nü\" 1//\r\n\"" ∧
      (tokenize "\"a\r\nü\" 1//\r\n\"" .new).result =
        .ok (tokens.map (Token.crlf "\"a\nü\" 1//\n\"")) ∧
      (tokens.map (Token.crlf "\"a\nü\" 1//\n\"")).map (·.span) =
        [⟨0, 7, 1, 1⟩, ⟨8, 9, 2, 4⟩, ⟨14, 14, 3, 2⟩] ∧
      (tokenize "\"a\r\nü\" 1//\r\n\"" .new).reporter.diagnostics =
        faults.map (Diagnostic.crlf "\"a\nü\" 1//\n\"") := by
  have hreturns : withCrlf "\"a\nü\" 1//\n\"" = "\"a\r\nü\" 1//\r\n\"" := by decide +kernel
  obtain ⟨tokens, faults, hresult, hkept, hresult', hkept'⟩ :=
    tokenize_withCrlf "\"a\nü\" 1//\n\"" .new .new rfl rfl
  rw [hreturns] at hresult' hkept'
  have hspans : (tokenize "\"a\nü\" 1//\n\"" .new).result.toOption.map (·.map (·.span)) =
      some [⟨0, 6, 1, 1⟩, ⟨7, 8, 2, 4⟩, ⟨12, 12, 3, 2⟩] := by decide +kernel
  have hspans' : (tokenize "\"a\r\nü\" 1//\r\n\"" .new).result.toOption.map (·.map (·.span)) =
      some [⟨0, 7, 1, 1⟩, ⟨8, 9, 2, 4⟩, ⟨14, 14, 3, 2⟩] := by decide +kernel
  rw [hresult] at hspans
  rw [hresult'] at hspans'
  refine ⟨rfl, tokens, faults, hresult, Option.some.inj hspans, ?_, hreturns, hresult',
    Option.some.inj hspans', ?_⟩
  · rw [Reporter.diagnostics, hkept]
    simp [Reporter.new, Reporter.withPolicy]
  · rw [Reporter.diagnostics, hkept']
    simp [Reporter.new, Reporter.withPolicy]

end SourceScan
