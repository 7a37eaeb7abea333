import SourceScan.Proofs.Words

/-!
# Token dumps

`Token.dump` lists the tokens of a scan, a line for each, with nothing escaped: a string is written
twice, once with its quotes and once without, and it may contain newlines and lines of other tokens.
Still, dumps of scans are equal only if the tokens have equal kinds, lexemes and values.

This follows from what words are spelled like (`TokenKind.Spells`). The name of a kind ends at the
first blank. Behind it the kind says how the text of a token ends: a mark has one text, a numeral
has no blank in it, and a string has no quote between its quotes. Kind and text of a token give its
value, and so the rest of its line, newlines in it included (**`line_append_inj`**). The lines of a
dump are then taken off one by one (**`wording_eq_of_lines`**).
-/

namespace SourceScan

/-- **The dump of a list of tokens:** their texts, joined by newlines. -/
def Token.dump (tokens : List Token) : String := "\n".intercalate (tokens.map toString)

/-! ## Lines -/

namespace Token

/-- What a line says about the value of a token. -/
def valueText (t : Token) : List Char := (t.literal.elim "null" Literal.text).toList

/-- The line of a token, without the newline behind it. -/
def lineChars (t : Token) : List Char :=
  t.kind.name.toList ++ ' ' :: (t.lexeme.toList ++ ' ' :: t.valueText)

/-- `lineChars` are the characters of what is shown of a token. -/
theorem toList_toString (t : Token) : (toString t).toList = t.lineChars := by
  show t.text.toList = t.lineChars
  rw [text, lineChars, valueText]
  cases t.literal with
  | none => simp [toString]
  | some literal => simp [toString]

/-- A dump ends with the line of its last token. Every other line has a newline behind it. -/
theorem toList_dump_concat (words : List Token) (last : Token) : (dump (words ++ [last])).toList =
    (words.flatMap fun t => t.lineChars ++ ['\n']) ++ last.lineChars := by
  rw [dump, String.toList_intercalate, List.map_map]
  induction words with
  | nil => simp [toList_toString]
  | cons t words ih =>
    -- there is a token behind the first one, so a newline is put between them
    obtain ⟨u, others, hothers⟩ : ∃ u others, words ++ [last] = u :: others :=
      List.exists_cons_of_ne_nil (by simp)
    rw [List.cons_append, hothers, List.map_cons, List.map_cons, List.intercalate_cons_cons,
      ← List.map_cons, ← hothers, ih]
    simp [toList_toString]

end Token

/-! ## Where the parts of a line end -/

/-- A text ends where the character behind it is met for the first time. -/
theorem eq_of_append_cons {a b rest others : List Char} {x : Char} (ha : x ∉ a) (hb : x ∉ b)
    (h : a ++ x :: rest = b ++ x :: others) : a = b ∧ rest = others := by
  induction a generalizing b with
  | nil =>
    cases b with
    | nil => exact ⟨rfl, (List.cons.inj h).2⟩
    | cons y b => exact absurd (List.cons.inj h).1 (List.ne_of_not_mem_cons hb)
  | cons y a ih =>
    cases b with
    | nil => exact absurd (List.cons.inj h).1.symm (List.ne_of_not_mem_cons ha)
    | cons z b =>
      obtain ⟨rfl, htail⟩ := List.cons.inj h
      have ha' : x ∉ a := List.not_mem_of_not_mem_cons ha
      have hb' : x ∉ b := List.not_mem_of_not_mem_cons hb
      obtain ⟨rfl, hrest⟩ := ih ha' hb' htail
      exact ⟨rfl, hrest⟩

namespace TokenKind

/-- No two kinds have one name. -/
theorem find?_name (k : TokenKind) : all.find? (·.name == k.name) = some k := by
  cases k <;> decide

/-- A kind is known by its name. -/
theorem name_injective {j k : TokenKind} (h : j.name = k.name) : j = k := by
  have hj := find?_name j
  rw [h, find?_name k] at hj
  exact (Option.some.inj hj).symm

/-- Names of kinds are single words. -/
theorem blank_not_mem_name (k : TokenKind) : ' ' ∉ k.name.toList := by
  cases k <;> decide

end TokenKind

/-- A numeral has digits and a point in it, and no blank. -/
theorem IsNumeral.blank_not_mem {text : List Char} (h : IsNumeral text) : ' ' ∉ text := by
  have hdigits {ds : List Char} (hds : IsDigits ds) : ' ' ∉ ds := by
    intro hmem
    exact absurd (hds.2 _ hmem) (by decide)
  rcases h with h | ⟨whole, fraction, hw, hf, rfl⟩
  · exact hdigits h
  · simp [hdigits hw, hdigits hf]

/-- **Where a text ends** is known from its kind: two texts of one kind with a blank behind each do
not begin alike unless they are the same. -/
theorem TokenKind.Spells.eq_of_append_blank {kind : TokenKind} {a b rest others : List Char}
    (ha : kind.Spells a) (hb : kind.Spells b)
    (h : a ++ ' ' :: rest = b ++ ' ' :: others) : a = b := by
  rcases kind.literal_cases with rfl | rfl | hmark
  · exact (eq_of_append_cons (IsNumeral.blank_not_mem ha) (IsNumeral.blank_not_mem hb) h).1
  · -- behind the opening quote a string ends at the next one
    obtain ⟨content, hcontent, rfl⟩ := ha
    obtain ⟨content', hcontent', rfl⟩ := hb
    have hinner : content ++ '"' :: ' ' :: rest = content' ++ '"' :: ' ' :: others := by
      simpa using h
    rw [(eq_of_append_cons hcontent hcontent' hinner).1]
  · have htext := ((spells_mark hmark).1 ha).symm.trans ((spells_mark hmark).1 hb)
    exact String.ofList_injective (Option.some.inj htext)

/-! ## Reading a dump -/

/-- A token says what its kind and its text say. -/
def Token.IsSpelled (t : Token) : Prop :=
  t.kind.Spells t.lexeme.toList ∧ t.literal = t.kind.literal? t.lexeme.toList

namespace Token

variable {t u : Token} {rest others : List Char}

/-- The name of the kind is read first. -/
theorem kind_eq_of_lineChars (h : t.lineChars ++ rest = u.lineChars ++ others) :
    t.kind = u.kind ∧ t.lexeme.toList ++ ' ' :: (t.valueText ++ rest) =
      u.lexeme.toList ++ ' ' :: (u.valueText ++ others) := by
  have hnames : t.kind.name.toList ++ ' ' :: (t.lexeme.toList ++ ' ' :: (t.valueText ++ rest)) =
      u.kind.name.toList ++ ' ' :: (u.lexeme.toList ++ ' ' :: (u.valueText ++ others)) := by
    simpa [lineChars] using h
  obtain ⟨hname, hbehind⟩ :=
    eq_of_append_cons t.kind.blank_not_mem_name u.kind.blank_not_mem_name hnames
  exact ⟨TokenKind.name_injective (String.toList_injective hname), hbehind⟩

/-- **Taking a line off a dump.** The line of a token tells where it ends. -/
theorem line_append_inj (ht : t.IsSpelled) (hu : u.IsSpelled)
    (h : t.lineChars ++ rest = u.lineChars ++ others) : t.wording = u.wording ∧ rest = others := by
  obtain ⟨hkind, hbehind⟩ := kind_eq_of_lineChars h
  have hlexeme : t.lexeme = u.lexeme :=
    String.toList_injective ((hkind ▸ ht.1).eq_of_append_blank hu.1 hbehind)
  have hliteral : t.literal = u.literal := by rw [ht.2, hu.2, hkind, hlexeme]
  -- the same text and the same value leave the same behind them
  rw [hlexeme, valueText, valueText, hliteral] at hbehind
  have hrest := (List.cons.inj (List.append_cancel_left hbehind)).2
  exact ⟨by rw [wording, wording, hkind, hlexeme, hliteral], List.append_cancel_left hrest⟩

end Token

/-- The lines of words, each with a newline behind it, and the line that closes a dump. The closing
line is the only one of its kind, so both lists of words end together. The induction is on the words
of the first list. -/
theorem wording_eq_of_lines {words others : List Token} {last last' : Token}
    (hwords : ∀ t ∈ words, t.IsSpelled) (hothers : ∀ t ∈ others, t.IsSpelled)
    (hlast : last.kind = .endOfInput) (hlast' : last'.kind = .endOfInput)
    (h : (words.flatMap fun t => t.lineChars ++ ['\n']) ++ last.lineChars =
      (others.flatMap fun t => t.lineChars ++ ['\n']) ++ last'.lineChars) :
    words.map Token.wording = others.map Token.wording := by
  induction words generalizing others with
  | nil =>
    cases others with
    | nil => rfl
    | cons u others =>
      have hdump : last.lineChars ++ [] = u.lineChars ++ '\n' ::
          ((others.flatMap fun t => t.lineChars ++ ['\n']) ++ last'.lineChars) := by simpa using h
      have hkind : last.kind = u.kind := (Token.kind_eq_of_lineChars hdump).1
      exact absurd (hkind.symm.trans hlast) (hothers u List.mem_cons_self).1.ne_endOfInput
  | cons t words ih =>
    cases others with
    | nil =>
      have hdump : t.lineChars ++ '\n' :: ((words.flatMap fun t => t.lineChars ++ ['\n']) ++
          last.lineChars) = last'.lineChars ++ [] := by simpa using h
      have hkind : t.kind = last'.kind := (Token.kind_eq_of_lineChars hdump).1
      exact absurd (hkind.trans hlast') (hwords t List.mem_cons_self).1.ne_endOfInput
    | cons u others =>
      obtain ⟨ht, hrest⟩ := List.forall_mem_cons.1 hwords
      obtain ⟨hu, hrest'⟩ := List.forall_mem_cons.1 hothers
      obtain ⟨hfirst, hbehind⟩ := Token.line_append_inj ht hu (by simpa using h)
      rw [List.map_cons, List.map_cons, hfirst, ih hrest hrest' (List.cons.inj hbehind).2]

/-- Where a token stands does not show in a dump. -/
theorem Token.dump_eq_of_wording {tokens others : List Token}
    (h : tokens.map Token.wording = others.map Token.wording) : dump tokens = dump others := by
  let line (w : TokenKind × String × Option Literal) : String := text ⟨w.1, w.2.1, w.2.2, default⟩
  have hlines (ts : List Token) : ts.map toString = (ts.map wording).map line := by
    rw [List.map_map]
    rfl
  rw [dump, dump, hlines, hlines, h]

/-- **Dumps are unambiguous.** Let `tokens` and `others` be returned by scans of any two sources
with any reporters. Their `Token.dump`s are equal just if their lists of `Token.wording`s are: as
many tokens, with the same kinds, lexemes and values one by one. -/
theorem dump_eq_iff {source source' : String} {r r' : Reporter} {tokens others : List Token}
    (h : (tokenize source r).result = .ok tokens) (h' : (tokenize source' r').result = .ok others) :
    Token.dump tokens = Token.dump others ↔ tokens.map Token.wording = others.map Token.wording := by
  refine ⟨fun hdump => ?_, Token.dump_eq_of_wording⟩
  obtain ⟨pieces, hcut⟩ := exists_lexes source
  obtain ⟨pieces', hcut'⟩ := exists_lexes source'
  obtain ⟨rfl, -⟩ := tokenize_ok hcut h
  obtain ⟨rfl, -⟩ := tokenize_ok hcut' h'
  -- words are spelled as their kinds say, and both lists end with the end of the input
  have hlines := congrArg String.toList hdump
  rw [Token.toList_dump_concat, Token.toList_dump_concat] at hlines
  have hwords := wording_eq_of_lines (fun t ht => spelled_of_mem_tokensOf hcut ht)
    (fun t ht => spelled_of_mem_tokensOf hcut' ht) rfl rfl hlines
  rw [List.map_append, List.map_append, hwords]
  rfl

/-- A string that holds the line of a mark does not pass for the mark in a dump. The same words at
other places have the same dump. -/
theorem dump_eq_iff_forged : ∃ forged plain moved,
    (tokenize "\"\nPLUS + null\" 1.50" .new).result = .ok forged ∧
    (tokenize "\"\" + 1.50" .new).result = .ok plain ∧
    (tokenize "//\n\"\"+1.50" .panicking).result = .ok moved ∧
    Token.dump forged ≠ Token.dump plain ∧ Token.dump moved = Token.dump plain := by
  have hwordings : (tokenize "//\n\"\"+1.50" .panicking).result.toOption.map (·.map Token.wording) =
      (tokenize "\"\" + 1.50" .new).result.toOption.map (·.map Token.wording) := by decide +kernel
  have hlengths : (tokenize "\"\nPLUS + null\" 1.50" .new).result.toOption.map (·.length) = some 3 ∧
      (tokenize "\"\" + 1.50" .new).result.toOption.map (·.length) = some 4 := by decide +kernel
  obtain ⟨forged, hforged⟩ := exists_tokens_of_tolerant (r := .new) "\"\nPLUS + null\" 1.50" rfl
  obtain ⟨plain, hplain⟩ := exists_tokens_of_tolerant (r := .new) "\"\" + 1.50" rfl
  rw [hforged, hplain] at hlengths
  rw [hplain] at hwordings
  have hthree : forged.length = 3 := Option.some.inj hlengths.1
  have hfour : plain.length = 4 := Option.some.inj hlengths.2
  cases hmoved : (tokenize "//\n\"\"+1.50" .panicking).result with
  | error halt =>
    rw [hmoved] at hwordings
    cases hwordings
  | ok moved =>
    rw [hmoved] at hwordings
    refine ⟨forged, plain, moved, hforged, hplain, rfl, fun hdump => ?_, ?_⟩
    · have hsame := congrArg List.length ((dump_eq_iff hforged hplain).1 hdump)
      rw [List.length_map, List.length_map, hthree, hfour] at hsame
      cases hsame
    · exact (dump_eq_iff hmoved hplain).2 (Option.some.inj hwordings)

end SourceScan
