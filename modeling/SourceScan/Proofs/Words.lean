import SourceScan.Proofs.Delivery

/-!
# Words and what is read of them

A `Word` is a text of the grammar with its kind, and `wording` is what a word says wherever it
stands: kind, text and value. Tokens have a wording too, so that a scan can be compared with a list
of words.

**`tokenize_of_words`** is how such comparisons are made: when the text of a source is cut into
words and blanks, any reporter is left as it was and the tokens say what the words say.
-/

namespace SourceScan

/-- The characters that may stand between words. -/
def blanks : List Char := [' ', '\t', '\r', '\n']

/-- A piece is a word or means nothing. -/
def Piece.IsFaultless (p : Piece) : Prop := p.rule ≠ .openString ∧ p.rule ≠ .other

/-- **A well-formed word:** a text with the kind it is a spelling of. -/
structure Word where
  kind : TokenKind
  text : List Char
  spelled : kind.Spells text

/-- What a token says, wherever it stands: kind, text and value. -/
def Token.wording (t : Token) : TokenKind × String × Option Literal := (t.kind, t.lexeme, t.literal)

namespace Word

/-- What a word says. -/
def wording (w : Word) : TokenKind × String × Option Literal :=
  (w.kind, String.ofList w.text, w.kind.literal? w.text)

/-- The piece that a word is where it is read. -/
def piece (w : Word) : Piece := ⟨.word w.kind, w.text⟩

theorem matched (w : Word) : (Rule.word w.kind).Matches w.text := w.spelled

theorem text_ne_nil (w : Word) : w.text ≠ [] := w.matched.ne_nil

theorem proper (w : Word) : w.piece.Proper := Piece.proper_word w.spelled

/-- The text of a word determines its kind, as no other class but `other` has this text. -/
theorem kind_eq_of_text_eq {v w : Word} (h : v.text = w.text) : v.kind = w.kind := by
  have hv : (Rule.word v.kind).Matches w.text := h ▸ v.matched
  exact Rule.word.inj (hv.unique w.matched nofun nofun)

theorem wording_eq_of_text_eq {v w : Word} (h : v.text = w.text) : v.wording = w.wording := by
  rw [wording, wording, kind_eq_of_text_eq h, h]

theorem faultless (w : Word) : w.piece.IsFaultless := ⟨nofun, nofun⟩

/-- A word in front of a text that has been cut. -/
theorem lexes_cons {w : Word} {after : List Char} {pieces : List Piece} (hends : w.piece.Ends after)
    (h : Lexes after pieces) : Lexes (w.text ++ after) (w.piece :: pieces) :=
  .cons rfl (munches_iff.2 ⟨w.proper, hends⟩) h

/-- No word takes in a blank, or the end of the text. -/
theorem ends_of_blank (w : Word) {after : List Char}
    (h : ∀ c, after.head? = some c → c ∈ blanks) : w.piece.Ends after := by
  cases after with
  | nil => exact w.piece.ends_nil
  | cons c after =>
    have hc : c ∈ blanks := h c rfl
    simp only [blanks, List.mem_cons, List.not_mem_nil, or_false] at hc
    rcases hc with rfl | rfl | rfl | rfl
    all_goals exact Piece.ends_cons nofun rfl nofun nofun (fun _ => nofun) nofun

end Word

/-! ## From pieces to tokens -/

/-- What a piece says if it is a word. -/
def Piece.wording? (p : Piece) : Option (TokenKind × String × Option Literal) :=
  match p.rule with
  | .word kind => some (kind, String.ofList p.text, kind.literal? p.text)
  | _ => none

theorem Piece.wording?_word (w : Word) : w.piece.wording? = some w.wording := rfl

/-- A piece that says what a word says is that word. -/
theorem Piece.eq_of_wording? {p : Piece} {w : Word} (h : p.wording? = some w.wording) :
    p = w.piece := by
  obtain ⟨rule, text⟩ := p
  cases rule with
  | word kind =>
    obtain ⟨hkind, hrest⟩ := Prod.mk.inj (Option.some.inj h)
    obtain ⟨hlexeme, -⟩ := Prod.mk.inj hrest
    have htext : text = w.text := String.ofList_injective hlexeme
    rw [hkind, htext]
    rfl
  | comment | blank | openString | other => cases h

/-- The tokens among findings say what the pieces say, wherever these stand. -/
theorem map_wording_findings (here : Place) (pieces : List Piece) :
    ((findings here pieces).filterMap Finding.token?).map Token.wording =
      pieces.filterMap Piece.wording? := by
  induction pieces generalizing here with
  | nil => rfl
  | cons p pieces ih =>
    obtain ⟨rule, text⟩ := p
    cases rule with
    | word kind => exact congrArg (List.cons _) (ih _)
    | comment | blank | openString | other => exact ih _

/-- Pieces that are all faultless have nothing to report. -/
theorem faults_findings_eq_nil {pieces : List Piece} (h : ∀ p ∈ pieces, p.IsFaultless)
    (here : Place) : (findings here pieces).filterMap Finding.fault? = [] := by
  induction pieces generalizing here with
  | nil => rfl
  | cons p pieces ih =>
    have hp := h p List.mem_cons_self
    have hrest := ih (fun q hq => h q (List.mem_cons_of_mem p hq)) (here.past p.text)
    obtain ⟨rule, text⟩ := p
    cases rule with
    | word kind => exact hrest
    | comment | blank => exact hrest
    | openString => exact absurd rfl hp.1
    | other => exact absurd rfl hp.2

/-- **Reading words.** A source that is cut into words and text without meaning is scanned without
a report by any reporter, and its tokens say what the words say. -/
theorem tokenize_of_words {source : String} {pieces : List Piece}
    (hcut : Lexes source.toList pieces) (hclean : ∀ p ∈ pieces, p.IsFaultless) (r : Reporter) :
    ∃ tokens, (tokenize source r).result = .ok (tokens ++ [endTokenOf source]) ∧
      tokens.map Token.wording = pieces.filterMap Piece.wording? ∧
      (tokenize source r).reporter = r := by
  have hfaults : faultsOf pieces = [] := faults_findings_eq_nil hclean .start
  -- without faults a scan returns tokens, whatever the reporter's policy
  have hresult := tokenize_runs (r := r) hcut (.inr hfaults)
  refine ⟨tokensOf pieces, hresult, map_wording_findings .start pieces, ?_⟩
  rw [(tokenize_ok hcut hresult).2, hfaults]
  simp

/-! ## From tokens to words -/

/-- A token that says what a word says has a value just if it is a literal. -/
theorem isSome_literal_of_wording {t : Token} {words : List Word}
    (h : t.wording ∈ words.map Word.wording) : t.literal.isSome = t.kind.isLiteral := by
  obtain ⟨w, -, hw⟩ := List.mem_map.1 h
  obtain ⟨hkind, hrest⟩ := Prod.mk.inj hw
  obtain ⟨-, hliteral⟩ := Prod.mk.inj hrest
  rw [← hkind, ← hliteral]
  exact w.spelled.isSome_literal?

/-- The tokens of a source are words: spelled as their kind demands, with the value of that
spelling. -/
theorem spelled_of_mem_tokensOf {text : List Char} {pieces : List Piece} {t : Token}
    (hcut : Lexes text pieces) (ht : t ∈ tokensOf pieces) :
    t.kind.Spells t.lexeme.toList ∧ t.literal = t.kind.literal? t.lexeme.toList := by
  obtain ⟨_, word, _, -, hspells, heq⟩ := mem_tokensOf hcut ht
  have hlexeme : t.lexeme.toList = word := by rw [heq, Token.new_lexeme, String.toList_ofList]
  rw [hlexeme]
  refine ⟨hspells, ?_⟩
  rw [heq, Token.new_literal, Token.new_kind]

/-- Words with the texts of such tokens say what the tokens say. -/
theorem map_wording_of_texts {words : List Word} {tokens : List Token}
    (hspelled : ∀ t ∈ tokens, t.kind.Spells t.lexeme.toList ∧
      t.literal = t.kind.literal? t.lexeme.toList)
    (htexts : words.map Word.text = tokens.map (·.lexeme.toList)) :
    words.map Word.wording = tokens.map Token.wording := by
  induction tokens generalizing words with
  | nil => rw [List.map_eq_nil_iff.1 htexts, List.map_nil, List.map_nil]
  | cons t tokens ih =>
    cases words with
    | nil => cases htexts
    | cons w words =>
      obtain ⟨htext, hrest⟩ := List.cons.inj htexts
      obtain ⟨hspells, hliteral⟩ := hspelled t List.mem_cons_self
      -- the token is itself a word, and words of one text say the same
      have hword : w.wording = t.wording := by
        rw [Word.wording_eq_of_text_eq (v := w) (w := ⟨t.kind, t.lexeme.toList, hspells⟩) htext]
        rw [Word.wording, Token.wording, hliteral, String.ofList_toList]
      rw [List.map_cons, List.map_cons, hword,
        ih (fun u hu => hspelled u (List.mem_cons_of_mem t hu)) hrest]

end SourceScan
