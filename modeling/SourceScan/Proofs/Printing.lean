import SourceScan.Proofs.Words

/-!
# Scanning undoes printing

A `Layout` prints words with blanks between them, at least one in each gap. Blanks are what makes
words independent of their neighbours: no word takes in a blank, so each is read as it was printed.

**`tokenize_layout`** states this for every list of words and every layout of it, and for the words
that come out of any scan, printed again.
-/

namespace SourceScan

/-- **Words with blanks between them:** some blanks in front, and each word with those behind it.
Only the last word may have none. -/
structure Layout where
  lead : List Char
  parts : List (Word × List Char)
  lead_blank : ∀ c ∈ lead, c ∈ blanks
  gaps_blank : ∀ part ∈ parts, ∀ c ∈ part.2, c ∈ blanks
  gaps_ne_nil : ∀ part ∈ parts.dropLast, part.2 ≠ []

namespace Layout

/-- The words of a layout, in order. -/
def words (l : Layout) : List Word := l.parts.map (·.1)

/-- The printed text. -/
def text (l : Layout) : List Char := l.lead ++ l.parts.flatMap fun part => part.1.text ++ part.2

/-- The printed text as a source. -/
def source (l : Layout) : String := String.ofList l.text

end Layout

/-! ## Blanks

Each blank is read as a piece of its own. -/

/-- The pieces of a run of blanks. -/
def blankPieces (gap : List Char) : List Piece := gap.map fun c => ⟨.blank, [c]⟩

/-- A character of `blanks` is a text of the class `blank`. -/
theorem blank_matches {c : Char} (hc : c ∈ blanks) : Rule.blank.Matches [c] := by
  simp only [blanks, List.mem_cons, List.not_mem_nil, or_false] at hc
  rcases hc with rfl | rfl | rfl | rfl
  · exact .inl rfl
  · exact .inr (.inr (.inl rfl))
  · exact .inr (.inl rfl)
  · exact .inr (.inr (.inr rfl))

/-- Each blank in front of a text is cut off by itself. -/
theorem lexes_blanks {gap after : List Char} {pieces : List Piece} (hgap : ∀ c ∈ gap, c ∈ blanks)
    (h : Lexes after pieces) : Lexes (gap ++ after) (blankPieces gap ++ pieces) := by
  induction gap with
  | nil => exact h
  | cons c gap ih =>
    let blank : Piece := ⟨.blank, [c]⟩
    have hproper : blank.Proper := ⟨blank_matches (hgap c List.mem_cons_self), nofun⟩
    have hends : blank.Ends (gap ++ after) := trivial
    have hothers := ih fun d hd => hgap d (List.mem_cons_of_mem c hd)
    exact .cons rfl (munches_iff.2 ⟨hproper, hends⟩) hothers

/-! ## Layouts -/

/-- The pieces of words with blanks behind them. -/
def partPieces (parts : List (Word × List Char)) : List Piece :=
  parts.flatMap fun part => part.1.piece :: blankPieces part.2

/-- Words with blanks behind them are cut into these words and blanks. The induction is on the
words: the head of what follows a word is the first blank behind it, and only the last word, with
nothing else to follow, may be without. -/
theorem lexes_parts {parts : List (Word × List Char)}
    (hblank : ∀ part ∈ parts, ∀ c ∈ part.2, c ∈ blanks)
    (hgap : ∀ part ∈ parts.dropLast, part.2 ≠ []) :
    Lexes (parts.flatMap fun part => part.1.text ++ part.2) (partPieces parts) := by
  induction parts with
  | nil => exact .nil
  | cons part parts ih =>
    obtain ⟨w, gap⟩ := part
    have hbelow : ∀ c ∈ gap, c ∈ blanks := hblank (w, gap) List.mem_cons_self
    have hrest : Lexes (parts.flatMap fun part => part.1.text ++ part.2) (partPieces parts) := by
      refine ih (fun part hpart => hblank part (List.mem_cons_of_mem _ hpart)) fun part hpart => ?_
      cases parts with
      | nil => cases hpart
      | cons next parts => exact hgap part (List.mem_cons_of_mem _ hpart)
    have hends : w.piece.Ends (gap ++ parts.flatMap fun part => part.1.text ++ part.2) := by
      refine w.ends_of_blank fun c hc => ?_
      cases gap with
      | cons d gap =>
        cases hc
        exact hbelow _ List.mem_cons_self
      | nil =>
        -- no blank follows the word, so it is the last one
        cases parts with
        | nil => cases hc
        | cons next parts => exact absurd rfl (hgap (w, []) List.mem_cons_self)
    have hparts := Word.lexes_cons hends (lexes_blanks hbelow hrest)
    rw [List.flatMap_cons, List.append_assoc]
    exact hparts

theorem faultless_blankPieces {gap : List Char} {p : Piece} (hp : p ∈ blankPieces gap) :
    p.IsFaultless := by
  obtain ⟨c, -, rfl⟩ := List.mem_map.1 hp
  exact ⟨nofun, nofun⟩

theorem faultless_partPieces {parts : List (Word × List Char)} {p : Piece}
    (hp : p ∈ partPieces parts) : p.IsFaultless := by
  obtain ⟨⟨w, gap⟩, -, hpart⟩ := List.mem_flatMap.1 hp
  rcases List.mem_cons.1 hpart with rfl | hblank
  · exact w.faultless
  · exact faultless_blankPieces hblank

theorem wording?_blankPieces (gap : List Char) :
    (blankPieces gap).filterMap Piece.wording? = [] := by
  refine List.filterMap_eq_nil_iff.2 fun p hp => ?_
  obtain ⟨c, -, rfl⟩ := List.mem_map.1 hp
  rfl

/-- Of words with blanks behind them, only the words say anything. -/
theorem wording?_partPieces (parts : List (Word × List Char)) :
    (partPieces parts).filterMap Piece.wording? = parts.map (·.1.wording) := by
  induction parts with
  | nil => rfl
  | cons part parts ih =>
    have hblank := wording?_blankPieces part.2
    show (part.1.piece :: (blankPieces part.2 ++ partPieces parts)).filterMap Piece.wording? = _
    rw [List.filterMap_cons_some (Piece.wording?_word part.1), List.filterMap_append, hblank,
      List.nil_append, ih, List.map_cons]

namespace Layout

/-- A layout is scanned to its words, without a report. -/
theorem tokenize_source (l : Layout) (r : Reporter) :
    ∃ tokens, (tokenize l.source r).result = .ok (tokens ++ [endTokenOf l.source]) ∧
      tokens.map Token.wording = l.words.map Word.wording ∧
      (tokenize l.source r).reporter = r := by
  have hcut : Lexes l.source.toList (blankPieces l.lead ++ partPieces l.parts) := by
    rw [source, String.toList_ofList]
    exact lexes_blanks l.lead_blank (lexes_parts l.gaps_blank l.gaps_ne_nil)
  have hclean : ∀ p ∈ blankPieces l.lead ++ partPieces l.parts, p.IsFaultless := by
    intro p hp
    rcases List.mem_append.1 hp with hlead | hparts
    · exact faultless_blankPieces hlead
    · exact faultless_partPieces hparts
  obtain ⟨tokens, hresult, hwording, hreporter⟩ := tokenize_of_words hcut hclean r
  refine ⟨tokens, hresult, ?_, hreporter⟩
  rw [hwording, List.filterMap_append, wording?_blankPieces, List.nil_append, wording?_partPieces,
    words, List.map_map]
  rfl

end Layout

/-- **Scanning undoes printing.** For every `Layout` and every reporter, `tokenize` returns tokens
with the `wording` of the words of the layout, closed by the end of the input, and leaves the
reporter as it was. The tokens of any source, for a policy that does not panic on errors, `Spells`
their kinds; and if the words of a layout have their lexemes as texts, then scanning the layout
gives the `wording` of these tokens again. -/
theorem tokenize_layout :
    (∀ (l : Layout) (r : Reporter), ∃ tokens eof,
      (tokenize l.source r).result = .ok (tokens ++ [eof]) ∧ eof.kind = .endOfInput ∧
        tokens.map Token.wording = l.words.map Word.wording ∧
        (∀ t ∈ tokens, t.literal.isSome = t.kind.isLiteral) ∧
        (tokenize l.source r).reporter = r) ∧
    ∀ (source : String) (r : Reporter), r.policy.panicOnError = false → ∃ tokens eof,
      (tokenize source r).result = .ok (tokens ++ [eof]) ∧ eof.kind = .endOfInput ∧
        (∀ t ∈ tokens, t.kind.Spells t.lexeme.toList) ∧
        ∀ (l : Layout) (s : Reporter), l.words.map Word.text = tokens.map (·.lexeme.toList) →
          ∃ again eof', (tokenize l.source s).result = .ok (again ++ [eof']) ∧
            eof'.kind = .endOfInput ∧ again.map Token.wording = tokens.map Token.wording ∧
            (tokenize l.source s).reporter = s := by
  refine ⟨fun l r => ?_, fun source r hr => ?_⟩
  · obtain ⟨tokens, hresult, hwording, hreporter⟩ := l.tokenize_source r
    refine ⟨tokens, endTokenOf l.source, hresult, rfl, hwording, fun t ht => ?_, hreporter⟩
    exact isSome_literal_of_wording (hwording ▸ List.mem_map_of_mem ht)
  · obtain ⟨pieces, hcut⟩ := exists_lexes source
    -- the tokens are words again, and the first part is about words
    have hspelled := fun t ht => spelled_of_mem_tokensOf (t := t) hcut ht
    refine ⟨tokensOf pieces, endTokenOf source, tokenize_runs hcut (.inl hr), rfl,
      fun t ht => (hspelled t ht).1, fun l s htexts => ?_⟩
    obtain ⟨again, hresult, hwording, hreporter⟩ := l.tokenize_source s
    rw [map_wording_of_texts hspelled htexts] at hwording
    exact ⟨again, endTokenOf l.source, hresult, rfl, hwording, hreporter⟩

/-- The words of a faulty source, laid out on two lines. -/
theorem tokenize_layout_two_lines : Reporter.new.policy.panicOnError = false ∧
    ∃ (l : Layout) (again : List Token) (eof : Token), l.source = "1.5 \n==" ∧
      (tokenize l.source Reporter.new).result = .ok (again ++ [eof]) ∧
      again.map (·.kind) = [.number, .equalEqual] ∧
      (tokenize l.source Reporter.new).reporter = Reporter.new := by
  obtain ⟨tokens, eof, hresult, -, -, hagain⟩ := tokenize_layout.2 "1.5é==" Reporter.new rfl
  have hrun : (tokenize "1.5é==" Reporter.new).result.toOption.map
      (·.dropLast.map fun t => (t.lexeme.toList, t.kind)) =
        some [(['1', '.', '5'], .number), (['=', '='], .equalEqual)] := by decide +kernel
  rw [hresult] at hrun
  have htokens : tokens.map (fun t => (t.lexeme.toList, t.kind)) =
      [(['1', '.', '5'], .number), (['=', '='], .equalEqual)] := by
    simpa [Except.toOption] using hrun
  have hdigits : IsDigits ['1'] ∧ IsDigits ['5'] := by simp [IsDigits]
  let number : Word :=
    ⟨.number, ['1', '.', '5'], .inr ⟨['1'], ['5'], hdigits.1, hdigits.2, rfl⟩⟩
  let equal : Word := ⟨.equalEqual, ['=', '='], rfl⟩
  let l : Layout := ⟨[], [(number, [' ', '\n']), (equal, [])], by simp, by simp [blanks], by simp⟩
  have htexts : l.words.map Word.text = tokens.map (·.lexeme.toList) := by
    have h := congrArg (List.map Prod.fst) htokens
    rw [List.map_map] at h
    exact h.symm
  have hkinds : tokens.map (·.kind) = [.number, .equalEqual] := by
    have h := congrArg (List.map Prod.snd) htokens
    rw [List.map_map] at h
    exact h
  obtain ⟨again, eof', hresult', -, hwording, hreporter⟩ := hagain l Reporter.new htexts
  refine ⟨rfl, l, again, eof', rfl, hresult', ?_, hreporter⟩
  have h := congrArg (List.map Prod.fst) hwording
  rw [List.map_map, List.map_map] at h
  exact h.trans hkinds

end SourceScan
