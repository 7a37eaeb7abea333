import SourceScan.Proofs.Words

/-!
# Words without blanks between them

Some words fuse when they touch: two numbers make one, an operator takes in an `=`, two slashes
begin a comment, and a number, a point and a number make a number. `NeighboursFuse` says that this
happens somewhere in a list of words.

**`tokenize_juxtaposed_iff`**: words written one right behind the other are read as these words
exactly when no neighbours fuse. If they are read as these words, then their tokens come from pieces
that fill the whole text and are the words (**`eq_pieces_of_wording`**); and a list of words that is
cut into itself has no fusing neighbours (**`lexes_words_iff`**).
-/

namespace SourceScan

namespace Word

/-- **Two words that are not read as two** when the second stands right behind the first. -/
def Fuses (v w : Word) : Prop :=
  v.kind = .number ∧ w.kind = .number ∨
    v.kind ∈ [TokenKind.bang, .equal, .less, .greater] ∧ w.text.head? = some '=' ∨
      v.kind = .slash ∧ w.kind = .slash

/-- **Three words that are read as one number.** -/
def FusesAcross (v point w : Word) : Prop :=
  v.kind = .number ∧ '.' ∉ v.text ∧ point.kind = .dot ∧ w.kind = .number

/-- A word fuses with the words right behind it. -/
def FusesInto (v : Word) : List Word → Prop
  | [] => False
  | w :: rest => v.Fuses w ∨ ∃ u, rest.head? = some u ∧ v.FusesAcross w u

end Word

/-- Somewhere among these words, neighbours fuse. -/
def NeighboursFuse (words : List Word) : Prop :=
  (∃ v w, [v, w] <:+: words ∧ v.Fuses w) ∨
    ∃ v point w, [v, point, w] <:+: words ∧ v.FusesAcross point w

theorem not_neighboursFuse_nil : ¬ NeighboursFuse [] := by
  rintro (⟨v, w, hin, -⟩ | ⟨v, point, w, hin, -⟩)
  · cases List.infix_nil.1 hin
  · cases List.infix_nil.1 hin

/-- Neighbours fuse at the first word or behind it. -/
theorem neighboursFuse_cons {v : Word} {words : List Word} :
    NeighboursFuse (v :: words) ↔ v.FusesInto words ∨ NeighboursFuse words := by
  constructor
  · rintro (⟨a, b, hin, hfuse⟩ | ⟨a, b, c, hin, hfuse⟩)
    · rcases List.infix_cons_iff.1 hin with hfirst | hlater
      · obtain ⟨rfl, rest, rfl⟩ := List.cons_prefix_cons.1 hfirst
        exact .inl (.inl hfuse)
      · exact .inr (.inl ⟨a, b, hlater, hfuse⟩)
    · rcases List.infix_cons_iff.1 hin with hfirst | hlater
      · obtain ⟨rfl, rest, rfl⟩ := List.cons_prefix_cons.1 hfirst
        exact .inl (.inr ⟨c, rfl, hfuse⟩)
      · exact .inr (.inr ⟨a, b, c, hlater, hfuse⟩)
  · rintro (hfirst | hlater)
    · cases words with
      | nil => cases hfirst
      | cons w words =>
        rcases hfirst with hfuse | ⟨u, hu, hfuse⟩
        · exact .inl ⟨v, w, ⟨[], words, rfl⟩, hfuse⟩
        · obtain ⟨rest, rfl⟩ := List.head?_eq_some_iff.1 hu
          exact .inr ⟨v, w, u, ⟨[], rest, rfl⟩, hfuse⟩
    · rcases hlater with ⟨a, b, hin, hfuse⟩ | ⟨a, b, c, hin, hfuse⟩
      · exact .inl ⟨a, b, List.infix_cons hin, hfuse⟩
      · exact .inr ⟨a, b, c, List.infix_cons hin, hfuse⟩

/-! ## First characters of words

A piece is ended by characters and words fuse by their kinds. The first character of a word says
what has to be known of its kind. -/

namespace Word

/-- The words that begin with a digit are the numbers. -/
theorem head?_isDigit_iff (w : Word) : w.text.head?.any Char.isDigit = true ↔ w.kind = .number := by
  obtain ⟨c, more, htext, hbegins⟩ := w.matched.begins
  have hhead : w.text.head?.any Char.isDigit = c.isDigit := by rw [htext]; rfl
  rw [hhead]
  constructor
  · intro hdigit
    rcases hbegins.of_digit hdigit with hrule | hrule
    · exact Rule.word.inj hrule
    · cases hrule
  · intro hkind
    rw [hkind] at hbegins
    exact hbegins

/-- A mark of one character has one text. -/
theorem text_eq_of_kind {c : Char} {k : TokenKind} {w : Word} (hc : TokenKind.ofChar? c = some k)
    (hkind : w.kind = k) : w.text = [c] := by
  have hmark : k.isLiteral = false := TokenKind.isLiteral_of_ofChar? hc
  have hspelled : k.text? = some (String.ofList w.text) :=
    (TokenKind.spells_mark hmark).1 (hkind ▸ w.spelled)
  have hone : k.text? = some (String.ofList [c]) := TokenKind.text?_of_ofChar? hc
  exact String.ofList_injective (Option.some.inj (hspelled.symm.trans hone))

/-- A mark that no `=` makes longer is told by its first character. -/
theorem head?_eq_iff {c : Char} {k : TokenKind} (hc : TokenKind.ofChar? c = some k)
    (hk : k.withEqual? = none) (w : Word) : w.text.head? = some c ↔ w.kind = k := by
  constructor
  · intro hhead
    obtain ⟨d, more, htext, hbegins⟩ := w.matched.begins
    obtain rfl : d = c := by
      rw [htext] at hhead
      exact Option.some.inj hhead
    rcases hbegins.of_mark hc with ⟨j, hj, hrule⟩ | ⟨-, hrule⟩ | hrule
    · cases Rule.word.inj hrule
      -- the word is that character, or the character with `=` behind it, which `hk` rules out
      rcases TokenKind.mark_forms ((TokenKind.spells_mark hj).1 w.spelled) with
        ⟨e, he, hek⟩ | ⟨e, shorter, he, hes, hs⟩
      · cases htext.symm.trans he
        exact Option.some.inj (hek.symm.trans hc)
      · cases htext.symm.trans he
        cases hes.symm.trans hc
        cases hk.symm.trans hs
    · cases hrule
    · cases hrule
  · intro hkind
    rw [text_eq_of_kind hc hkind]
    rfl

theorem head?_append (w : Word) (after : List Char) : (w.text ++ after).head? = w.text.head? :=
  List.head?_append_of_ne_nil w.text w.text_ne_nil

/-- What stands at the front of some words begins with a digit if the first of them is a number. -/
theorem head?_flatMap_isDigit_iff (words : List Word) :
    (words.flatMap Word.text).head?.any Char.isDigit = true ↔
      ∃ u, words.head? = some u ∧ u.kind = .number := by
  cases words with
  | nil => simp
  | cons w words =>
    rw [List.flatMap_cons, head?_append, head?_isDigit_iff]
    simp

variable {v : Word}

/-- **A number ends before the next words** if these do not begin with a number, nor with a point
and a number while it has no point itself. -/
theorem number_ends_iff (hv : v.kind = .number) (w : Word) (words : List Word) :
    v.piece.Ends (w.text ++ words.flatMap Word.text) ↔ ¬ v.FusesInto (w :: words) := by
  have hfuse : v.Fuses w ↔ w.kind = .number := by simp [Fuses, hv]
  have hdigit : (w.text ++ words.flatMap Word.text).head?.any Char.isDigit = false ↔
      ¬ w.kind = .number := by
    rw [head?_append, ← head?_isDigit_iff, Bool.not_eq_true]
  have hpoint : (w.text ++ words.flatMap Word.text).head? = some '.' ↔ w.kind = .dot := by
    rw [head?_append]
    exact head?_eq_iff rfl rfl w
  -- behind a point stands what the next word begins with
  have hbehind (hw : w.kind = .dot) :
      (w.text ++ words.flatMap Word.text).tail.head?.any Char.isDigit = false ↔
        ¬ ∃ u, words.head? = some u ∧ u.kind = .number := by
    have hdot : TokenKind.ofChar? '.' = some .dot := rfl
    rw [text_eq_of_kind hdot hw, ← head?_flatMap_isDigit_iff, Bool.not_eq_true]
    rfl
  have hends : v.piece.Ends (w.text ++ words.flatMap Word.text) ↔
      (w.text ++ words.flatMap Word.text).head?.any Char.isDigit = false ∧
        ('.' ∉ v.text → (w.text ++ words.flatMap Word.text).head? = some '.' →
          (w.text ++ words.flatMap Word.text).tail.head?.any Char.isDigit = false) := by
    rw [piece, hv]
    exact Iff.rfl
  rw [hends, FusesInto, not_or, hfuse, hdigit, hpoint]
  refine and_congr_right fun _ => ⟨?_, ?_⟩
  · rintro h ⟨u, hu, -, hp, hw, hnumber⟩
    exact (hbehind hw).1 (h hp hw) ⟨u, hu, hnumber⟩
  · rintro h hp hw
    exact (hbehind hw).2 fun ⟨u, hu, hnumber⟩ => h ⟨u, hu, hv, hp, hw, hnumber⟩

/-- **A mark ends before the next words** if they begin with no `=` that it takes in, and not with a
slash behind a slash. -/
theorem mark_ends_iff (hv : v.kind.isLiteral = false) (w : Word) (words : List Word) :
    v.piece.Ends (w.text ++ words.flatMap Word.text) ↔ ¬ v.FusesInto (w :: words) := by
  have hnumber : v.kind ≠ .number := by
    intro h
    rw [h] at hv
    cases hv
  have hlonger : v.kind.withEqual?.isSome = true ↔
      v.kind ∈ [TokenKind.bang, .equal, .less, .greater] := by
    cases v.kind <;> decide
  have hslash : (w.text ++ words.flatMap Word.text).head? = some '/' ↔ w.kind = .slash := by
    rw [head?_append]
    exact head?_eq_iff rfl rfl w
  have hinto : v.FusesInto (w :: words) ↔ v.kind ∈ [TokenKind.bang, .equal, .less, .greater] ∧
      w.text.head? = some '=' ∨ v.kind = .slash ∧ w.kind = .slash := by
    simp [FusesInto, Fuses, FusesAcross, hnumber]
  rw [hinto, not_or, not_and, not_and, piece, Piece.ends_mark hv, hlonger, head?_append, ← hslash,
    head?_append]

/-- **A word ends before the next words** exactly when it does not fuse with them. -/
theorem ends_iff (v : Word) (words : List Word) :
    v.piece.Ends (words.flatMap Word.text) ↔ ¬ v.FusesInto words := by
  cases words with
  | nil =>
    have hends : v.piece.Ends [] := v.ends_of_blank nofun
    exact iff_of_true hends id
  | cons w words =>
    rcases v.kind.literal_cases with hv | hv | hv
    · exact number_ends_iff hv w words
    · -- a string ends at its quote
      refine iff_of_true ?_ ?_
      · rw [piece, hv]
        trivial
      · simp [FusesInto, Fuses, FusesAcross, hv]
    · exact mark_ends_iff hv w words

end Word

/-! ## Cutting a text of words -/

/-- A text is cut into a piece and others if the piece is what is munched first. -/
theorem lexes_cons_iff {p : Piece} {after : List Char} {pieces : List Piece} :
    Lexes (p.text ++ after) (p :: pieces) ↔ Munches (p.text ++ after) p ∧ Lexes after pieces := by
  constructor
  · intro h
    -- `cases` needs the text to be a variable
    generalize htext : p.text ++ after = text at h ⊢
    cases h with
    | cons cut first others =>
      rw [List.append_cancel_left (htext.trans cut)]
      exact ⟨first, others⟩
  · rintro ⟨first, others⟩
    exact .cons rfl first others

/-- **A list of words is cut into itself** exactly when no neighbours fuse. -/
theorem lexes_words_iff (words : List Word) :
    Lexes (words.flatMap Word.text) (words.map Word.piece) ↔ ¬ NeighboursFuse words := by
  -- the first word is the first longest match exactly when it does not fuse with what follows
  induction words with
  | nil => exact iff_of_true .nil not_neighboursFuse_nil
  | cons w words ih =>
    have hfirst : Munches (w.piece.text ++ words.flatMap Word.text) w.piece ↔
        ¬ w.FusesInto words := by
      rw [munches_iff, Word.ends_iff]
      exact and_iff_right w.proper
    rw [List.flatMap_cons, List.map_cons, neighboursFuse_cons, not_or, ← ih, ← hfirst]
    exact lexes_cons_iff (p := w.piece)

/-- Pieces that say what words say are as long as these words together, or longer; if they are no
longer they are these words. A piece that says nothing would make them longer. -/
theorem eq_pieces_of_wording {pieces : List Piece} {words : List Word}
    (hne : ∀ p ∈ pieces, p.text ≠ [])
    (hsay : pieces.filterMap Piece.wording? = words.map Word.wording) :
    (words.flatMap Word.text).length ≤ (pieces.flatMap Piece.text).length ∧
      ((words.flatMap Word.text).length = (pieces.flatMap Piece.text).length →
        pieces = words.map Word.piece) := by
  induction pieces generalizing words with
  | nil =>
    cases words with
    | nil => exact ⟨Nat.le_refl 0, fun _ => rfl⟩
    | cons w words => cases hsay
  | cons p pieces ih =>
    have hp : 0 < p.text.length := List.length_pos_iff.2 (hne p List.mem_cons_self)
    have hrest := fun q hq => hne q (List.mem_cons_of_mem p hq)
    simp only [List.flatMap_cons, List.length_append]
    cases hword : p.wording? with
    | none =>
      -- the words have to come from the other pieces, which are shorter by `p`
      rw [List.filterMap_cons_none hword] at hsay
      obtain ⟨hle, -⟩ := ih hrest hsay
      exact ⟨by omega, fun heq => by omega⟩
    | some said =>
      rw [List.filterMap_cons_some hword] at hsay
      cases words with
      | nil => cases hsay
      | cons w words =>
        obtain ⟨rfl, hothers⟩ := List.cons.inj hsay
        obtain ⟨hle, heq⟩ := ih hrest hothers
        have hpiece : p = w.piece := Piece.eq_of_wording? hword
        have htext : p.text = w.text := congrArg Piece.text hpiece
        simp only [List.flatMap_cons, List.length_append, htext]
        refine ⟨by omega, fun h => ?_⟩
        rw [List.map_cons, heq (by omega), hpiece]

/-- **Juxtaposition.** Let the source be the texts of `words`, one right behind the other.
`tokenize` returns tokens with the kinds and texts of `words`, closed by the end of the input, and
leaves the reporter as it was, exactly when not `NeighboursFuse words`. -/
theorem tokenize_juxtaposed_iff (words : List Word) (r : Reporter) :
    (∃ tokens eof, (tokenize (String.ofList (words.flatMap Word.text)) r).result =
        .ok (tokens ++ [eof]) ∧ eof.kind = .endOfInput ∧
      tokens.map (fun t => (t.kind, t.lexeme)) =
        words.map (fun w => (w.kind, String.ofList w.text)) ∧
      (tokenize (String.ofList (words.flatMap Word.text)) r).reporter = r) ↔
      ¬ NeighboursFuse words := by
  rw [← lexes_words_iff]
  generalize hsource : String.ofList (words.flatMap Word.text) = source
  have htext : source.toList = words.flatMap Word.text := by rw [← hsource, String.toList_ofList]
  constructor
  · rintro ⟨tokens, eof, hresult, -, htokens, -⟩
    -- what was found is what the pieces of the source say, and so the pieces are the words
    obtain ⟨pieces, hcut⟩ := exists_lexes source
    obtain ⟨hfound, -⟩ := tokenize_ok hcut hresult
    obtain ⟨rfl, -⟩ := List.append_inj' hfound rfl
    have htexts : words.map Word.text = (tokensOf pieces).map (·.lexeme.toList) := by
      have h := congrArg (List.map fun said => said.2.toList) htokens
      simpa [List.map_map, Function.comp_def] using h.symm
    have hsay : pieces.filterMap Piece.wording? = words.map Word.wording := by
      rw [map_wording_of_texts (fun t ht => spelled_of_mem_tokensOf hcut ht) htexts]
      exact (map_wording_findings .start pieces).symm
    have hlength : (words.flatMap Word.text).length = (pieces.flatMap Piece.text).length := by
      rw [hcut.flatMap_text, htext]
    have hpieces := (eq_pieces_of_wording hcut.text_ne_nil hsay).2 hlength
    rwa [hpieces, htext] at hcut
  · intro hcut
    rw [← htext] at hcut
    have hclean : ∀ p ∈ words.map Word.piece, p.IsFaultless := by
      intro p hp
      obtain ⟨w, -, rfl⟩ := List.mem_map.1 hp
      exact w.faultless
    obtain ⟨tokens, hresult, hwording, hreporter⟩ := tokenize_of_words hcut hclean r
    refine ⟨tokens, endTokenOf source, hresult, rfl, ?_, hreporter⟩
    have hsay : tokens.map Token.wording = words.map Word.wording := by
      rw [hwording, List.filterMap_map]
      exact congrFun List.filterMap_eq_map words
    have h := congrArg (List.map fun said => (said.1, said.2.1)) hsay
    rw [List.map_map, List.map_map] at h
    exact h

end SourceScan
