import Mathlib.Data.List.TakeWhile
import SourceScan.Scan.Step

/-!
# The lexical grammar

What the words of the language look like, said without reference to how they are read:

* a mark or operator is one of the nineteen texts of `TokenKind.text?`;
* a numeral is digits, or digits, a point and digits;
* a quoted text is anything without a double quote, between two of them.

Between words stand blanks and comments, and where nothing else fits there is an unclosed quote or
a single stray character. `Rule` lists these classes and `Rule.Matches` says which texts belong to
each.

The section on first characters is what makes the classes tractable: a text of a class begins in
one of few ways (**`Rule.Matches.begins`**), and the first character leaves at most two or three
classes to consider.
-/

namespace SourceScan

/-! ## Words -/

/-- One digit or more. -/
def IsDigits (text : List Char) : Prop := text ≠ [] ∧ ∀ c ∈ text, c.isDigit = true

/-- Digits, and possibly a point with more digits behind it. -/
def IsNumeral (text : List Char) : Prop :=
  IsDigits text ∨
    ∃ whole fraction, IsDigits whole ∧ IsDigits fraction ∧ text = whole ++ '.' :: fraction

/-- A text between two quotes, with no quote inside. -/
def IsQuoted (text : List Char) : Prop :=
  ∃ content, '"' ∉ content ∧ text = '"' :: (content ++ ['"'])

namespace TokenKind

/-- **The spellings of a kind of word.** The end of the input has none. -/
def Spells : TokenKind → List Char → Prop
  | number, text => IsNumeral text
  | string, text => IsQuoted text
  | kind, text => kind.text? = some (String.ofList text)

/-- The value that a spelling stands for: a number is read, and a string loses its quotes. -/
def literal? : TokenKind → List Char → Option Literal
  | number, text => (Binary64.read? text).map .number
  | string, text => some (.string (String.ofList text.tail.dropLast))
  | _, _ => none

end TokenKind

/-! ## Rules -/

/-- The classes a piece of source can belong to. -/
inductive Rule where
  | word (kind : TokenKind)
  | comment
  | blank
  | openString
  | other
deriving DecidableEq

/-- **The texts of a class.** A comment ends before the newline, an open string has no second
quote, and any one character at all is a text of the class `other`. -/
def Rule.Matches : Rule → List Char → Prop
  | word kind, text => kind.Spells text
  | comment, text => ∃ body, '\n' ∉ body ∧ text = '/' :: '/' :: body
  | blank, text => text = [' '] ∨ text = ['\r'] ∨ text = ['\t'] ∨ text = ['\n']
  | openString, text => ∃ content, '"' ∉ content ∧ text = '"' :: content
  | other, text => ∃ c, text = [c]

/-! ## Marks

The two tables of the library, from a kind to its text and from a first character to a kind, agree:
a mark is one character of the second table, or such a character with `=` behind it. -/

namespace TokenKind

/-- The character of `ofChar?` is the text that `text?` gives for its kind. -/
theorem text?_of_ofChar? {c : Char} {kind : TokenKind} (h : ofChar? c = some kind) :
    kind.text? = some (String.ofList [c]) := by
  unfold ofChar? at h
  split at h
  all_goals cases h
  all_goals rfl

/-- The kind `withEqual?` of a character has the text of the character with `=` behind it. -/
theorem text?_of_withEqual? {c : Char} {shorter kind : TokenKind} (hc : ofChar? c = some shorter)
    (h : shorter.withEqual? = some kind) : kind.text? = some (String.ofList [c, '=']) := by
  unfold ofChar? at hc
  split at hc
  all_goals cases hc
  all_goals cases h
  all_goals rfl

/-- The texts of marks have one of two forms. -/
theorem mark_forms {kind : TokenKind} {text : List Char}
    (h : kind.text? = some (String.ofList text)) :
    (∃ c, text = [c] ∧ ofChar? c = some kind) ∨
      ∃ c shorter, text = [c, '='] ∧ ofChar? c = some shorter ∧ shorter.withEqual? = some kind := by
  have htext : (kind.text?).map String.toList = some text := by simp [h]
  -- the kinds without a text, those whose text has two characters, and the others
  cases kind with
  | string | number | endOfInput => cases h
  | bangEqual | equalEqual | lessEqual | greaterEqual =>
    cases htext
    exact .inr ⟨_, _, rfl, rfl, rfl⟩
  | _ =>
    cases htext
    exact .inl ⟨_, rfl, rfl⟩

/-- A kind is that of a number, that of a string, or that of a mark. -/
theorem literal_cases (kind : TokenKind) :
    kind = number ∨ kind = string ∨ kind.isLiteral = false := by
  cases kind with
  | number => exact .inl rfl
  | string => exact .inr (.inl rfl)
  | _ => exact .inr (.inr rfl)

/-- `Spells` with the literals out of the way. -/
theorem spells_mark {kind : TokenKind} {text : List Char} (h : kind.isLiteral = false) :
    kind.Spells text ↔ kind.text? = some (String.ofList text) := by
  cases kind with
  | string | number => cases h
  | _ => exact Iff.rfl

theorem spells_of_text? {kind : TokenKind} {text : List Char}
    (h : kind.text? = some (String.ofList text)) : kind.Spells text := by
  cases kind with
  | string | number => cases h
  | _ => exact h

theorem spells_of_ofChar? {c : Char} {kind : TokenKind} (h : ofChar? c = some kind) :
    kind.Spells [c] :=
  spells_of_text? (text?_of_ofChar? h)

theorem spells_of_withEqual? {c : Char} {shorter kind : TokenKind} (hc : ofChar? c = some shorter)
    (h : shorter.withEqual? = some kind) : kind.Spells [c, '='] :=
  spells_of_text? (text?_of_withEqual? hc h)

/-- No two kinds have the same text. -/
theorem eq_of_text? {j k : TokenKind} {text : List Char} (hj : j.text? = some (String.ofList text))
    (hk : k.text? = some (String.ofList text)) : j = k := by
  -- both kinds have a text of the same length, and so the same form
  rcases mark_forms hj with ⟨c, rfl, hc⟩ | ⟨c, s, rfl, hc, hs⟩
  · rcases mark_forms hk with ⟨d, hd, hdk⟩ | ⟨d, t, hd, -, -⟩
    · cases hd
      exact Option.some.inj (hc.symm.trans hdk)
    · cases hd
  · rcases mark_forms hk with ⟨d, hd, -⟩ | ⟨d, t, hd, hdt, ht⟩
    · cases hd
    · cases hd
      cases hc.symm.trans hdt
      exact Option.some.inj (hs.symm.trans ht)

theorem isLiteral_of_ofChar? {c : Char} {kind : TokenKind} (h : ofChar? c = some kind) :
    kind.isLiteral = false := by
  unfold ofChar? at h
  split at h
  all_goals cases h
  all_goals rfl

theorem eq_slash_of_ofChar? {c : Char} (h : ofChar? c = some slash) : c = '/' := by
  unfold ofChar? at h
  split at h
  all_goals cases h
  all_goals rfl

/-- A mark that ends in `=` is not made longer by anything. -/
theorem of_withEqual? {shorter longer : TokenKind} (h : shorter.withEqual? = some longer) :
    longer.isLiteral = false ∧ longer.withEqual? = none ∧ longer ≠ slash := by
  cases shorter <;> cases h <;> decide

theorem literal?_mark {kind : TokenKind} {text : List Char} (h : kind.isLiteral = false) :
    kind.literal? text = none := by
  cases kind with
  | string | number => cases h
  | _ => rfl

/-- The characters that begin marks begin nothing else but comments. -/
theorem ofChar?_disjoint {c : Char} {kind : TokenKind} (h : ofChar? c = some kind) :
    c.isDigit = false ∧ c ≠ '"' ∧ isBlank c = false := by
  unfold ofChar? at h
  split at h
  all_goals cases h
  all_goals decide

end TokenKind

/-! ## Numerals

A numeral can be continued in two ways only: by a digit, or, as long as it has no point, by a point
and a digit. -/

theorem IsDigits.append {text more : List Char} (h : IsDigits text)
    (hmore : ∀ c ∈ more, c.isDigit = true) : IsDigits (text ++ more) := by
  refine ⟨List.append_ne_nil_of_left_ne_nil h.1 more, ?_⟩
  intro c hc
  rcases List.mem_append.1 hc with hc | hc
  · exact h.2 c hc
  · exact hmore c hc

theorem IsDigits.append_digit {text : List Char} {d : Char} (h : IsDigits text)
    (hd : d.isDigit = true) : IsDigits (text ++ [d]) :=
  h.append (List.forall_mem_singleton.2 hd)

/-- The digits in front of a text, if it begins with one. -/
theorem IsDigits.takeWhile {text : List Char} (h : text.head?.any Char.isDigit = true) :
    IsDigits (text.takeWhile Char.isDigit) := by
  refine ⟨?_, fun c hc => List.mem_takeWhile_imp hc⟩
  cases text with
  | nil => cases h
  | cons c text =>
    have hc : c.isDigit = true := by simpa using h
    rw [List.takeWhile_cons_of_pos hc]
    exact List.cons_ne_nil c _

theorem isDigits_toDigits (n : Nat) : IsDigits (Nat.toDigits 10 n) :=
  ⟨Nat.toDigits_ne_nil, fun _ hc => Nat.isDigit_of_mem_toDigits (by decide) (by decide) hc⟩

/-- Zeros in front of a number are digits too. -/
theorem isDigits_leftpad_toDigits (n width : Nat) :
    IsDigits ((Nat.toDigits 10 n).leftpad width '0') := by
  refine ⟨List.append_ne_nil_of_right_ne_nil _ Nat.toDigits_ne_nil, fun c hc => ?_⟩
  rcases List.mem_append.1 hc with hc | hc
  · rw [List.eq_of_mem_replicate hc]
    rfl
  · exact (isDigits_toDigits n).2 c hc

/-- Zeros in front of a number do not count. -/
theorem ofDigitChars_leftpad_toDigits (n width : Nat) :
    Nat.ofDigitChars 10 ((Nat.toDigits 10 n).leftpad width '0') 0 = n := by
  simp [List.leftpad, Nat.ofDigitChars_append]

/-- Digits hold no point. -/
theorem IsDigits.point_not_mem {text : List Char} (h : IsDigits text) : '.' ∉ text := by
  intro hp
  exact absurd (h.2 _ hp) (by decide)

/-- A numeral without a point is digits. -/
theorem IsNumeral.digits {text : List Char} (h : IsNumeral text) (hp : '.' ∉ text) :
    IsDigits text := by
  rcases h with h | ⟨whole, fraction, -, -, rfl⟩
  · exact h
  · simp at hp

theorem IsNumeral.append_digit {text : List Char} {d : Char} (h : IsNumeral text)
    (hd : d.isDigit = true) : IsNumeral (text ++ [d]) := by
  rcases h with h | ⟨whole, fraction, hw, hf, rfl⟩
  · exact .inl (h.append_digit hd)
  · exact .inr ⟨whole, fraction ++ [d], hw, hf.append_digit hd, by simp⟩

theorem IsNumeral.append_point {text : List Char} {d : Char} (h : IsNumeral text) (hp : '.' ∉ text)
    (hd : d.isDigit = true) : IsNumeral (text ++ ['.', d]) :=
  .inr ⟨text, [d], h.digits hp, ⟨by simp, by simpa using hd⟩, rfl⟩

/-- **How a numeral goes on.** What a longer numeral has behind a shorter one begins with a digit,
or with a point and a digit. -/
theorem IsNumeral.continuation {text more : List Char} {x : Char} (h : IsNumeral text)
    (hlong : IsNumeral (text ++ x :: more)) :
    x.isDigit = true ∨ ('.' ∉ text ∧ x = '.' ∧ more.head?.any Char.isDigit = true) := by
  rcases hlong with hlong | ⟨whole, fraction, hw, hf, heq⟩
  · exact .inl (hlong.2 x (by simp))
  -- if the point stands where the shorter numeral ends, digits follow it
  have at_point (htext : text = whole) (htail : x :: more = '.' :: fraction) :
      '.' ∉ text ∧ x = '.' ∧ more.head?.any Char.isDigit = true := by
    cases htail
    obtain ⟨d, ds, rfl⟩ := List.exists_cons_of_ne_nil hf.1
    have hd : d.isDigit = true := hf.2 d (by simp)
    exact ⟨htext ▸ hw.point_not_mem, rfl, by simpa using hd⟩
  -- the point lies behind `x`, or it is `x`, or it lies before `x`
  rcases List.append_eq_append_iff.1 heq with ⟨extra, rfl, htail⟩ | ⟨extra, rfl, htail⟩
  · cases extra with
    | nil => exact .inr (at_point (by simp) htail)
    | cons y extra =>
      cases htail
      exact .inl (hw.2 x (by simp))
  · cases extra with
    | nil => exact .inr (at_point (by simp) htail.symm)
    | cons y extra =>
      cases htail
      exact .inl (hf.2 x (by simp))

/-- Digits alone are read as a whole number. -/
theorem Decimal.read?_digits {text : List Char} (h : IsDigits text) :
    Decimal.read? text = some (.ofParts text [] 0) := by
  have hwhole : text.takeWhile Char.isDigit = text := List.takeWhile_eq_self_iff.2 h.2
  have hrest : text.dropWhile Char.isDigit = [] := List.dropWhile_eq_nil_iff.2 h.2
  simp only [Decimal.read?, hwhole, hrest]
  simp [h.1]

/-- A numeral with a point is read as its two parts. -/
theorem Decimal.read?_point {whole fraction : List Char} (hw : IsDigits whole)
    (hf : IsDigits fraction) :
    Decimal.read? (whole ++ '.' :: fraction) = some (.ofParts whole fraction 0) := by
  have hpoint : ¬ Char.isDigit '.' = true := by decide
  -- the digits up to the point are taken off first
  have hwhole : (whole ++ '.' :: fraction).takeWhile Char.isDigit = whole := by
    rw [List.takeWhile_append_of_pos hw.2, List.takeWhile_cons_of_neg hpoint, List.append_nil]
  have hrest : (whole ++ '.' :: fraction).dropWhile Char.isDigit = '.' :: fraction := by
    rw [List.dropWhile_append_of_pos hw.2, List.dropWhile_cons_of_neg hpoint]
  have hall : fraction.all Char.isDigit = true := List.all_eq_true.2 hf.2
  simp only [Decimal.read?, hwhole, hrest]
  simp [hw.1, hf.1, hall]

/-- **Every numeral can be read,** so `Fault.invalidNumber` is never reported for one. -/
theorem IsNumeral.read?_isSome {text : List Char} (h : IsNumeral text) :
    (Binary64.read? text).isSome = true := by
  rw [Binary64.read?, Option.isSome_map]
  rcases h with h | ⟨whole, fraction, hw, hf, rfl⟩
  · rw [Decimal.read?_digits h]
    rfl
  · rw [Decimal.read?_point hw hf]
    rfl

/-- Every word of a literal kind has a value, and no mark has one. -/
theorem TokenKind.Spells.isSome_literal? {kind : TokenKind} {text : List Char}
    (h : kind.Spells text) : (kind.literal? text).isSome = kind.isLiteral := by
  cases kind with
  | number => rw [literal?, Option.isSome_map, IsNumeral.read?_isSome h, isLiteral]
  | _ => rfl

theorem TokenKind.Spells.ne_endOfInput {kind : TokenKind} {text : List Char}
    (h : kind.Spells text) : kind ≠ .endOfInput := by
  rintro rfl
  cases h

/-! ## First characters

`Rule.Begins` says with which characters the texts of a class can begin. Read the other way round,
a first character leaves few classes to choose from. -/

namespace Rule

/-- The characters that texts of a class begin with. -/
def Begins : Rule → Char → Prop
  | word .number, c => c.isDigit = true
  | word .string, c => c = '"'
  | word _, c => (TokenKind.ofChar? c).isSome = true
  | comment, c => c = '/'
  | blank, c => isBlank c = true
  | openString, c => c = '"'
  | other, _ => True

theorem begins_mark {kind : TokenKind} {c : Char} (h : kind.isLiteral = false) :
    (word kind).Begins c ↔ (TokenKind.ofChar? c).isSome = true := by
  cases kind with
  | string | number => cases h
  | _ => exact Iff.rfl

/-- Texts of a class are not empty and begin with one of its characters. -/
theorem Matches.begins {rule : Rule} {text : List Char} (h : rule.Matches text) :
    ∃ c more, text = c :: more ∧ rule.Begins c := by
  cases rule with
  | word kind =>
    cases kind with
    | number =>
      rcases h with h | ⟨whole, fraction, hw, -, rfl⟩
      · obtain ⟨c, more, rfl⟩ := List.exists_cons_of_ne_nil h.1
        exact ⟨c, more, rfl, h.2 c (by simp)⟩
      · obtain ⟨c, more, rfl⟩ := List.exists_cons_of_ne_nil hw.1
        exact ⟨c, _, rfl, hw.2 c (by simp)⟩
    | string =>
      obtain ⟨content, -, rfl⟩ := h
      exact ⟨_, _, rfl, rfl⟩
    | _ =>
      rcases TokenKind.mark_forms h with ⟨c, rfl, hc⟩ | ⟨c, _, rfl, hc, -⟩
      all_goals exact ⟨c, _, rfl, Option.isSome_of_eq_some hc⟩
  | comment =>
    obtain ⟨body, -, rfl⟩ := h
    exact ⟨_, _, rfl, rfl⟩
  | blank =>
    rcases h with rfl | rfl | rfl | rfl
    all_goals exact ⟨_, _, rfl, rfl⟩
  | openString =>
    obtain ⟨content, -, rfl⟩ := h
    exact ⟨_, _, rfl, rfl⟩
  | other =>
    obtain ⟨c, rfl⟩ := h
    exact ⟨c, [], rfl, trivial⟩

theorem Matches.ne_nil {rule : Rule} {text : List Char} (h : rule.Matches text) : text ≠ [] := by
  obtain ⟨c, more, rfl, -⟩ := h.begins
  exact List.cons_ne_nil c more

namespace Begins

variable {rule : Rule} {c : Char}

/-- A digit begins numbers. -/
theorem of_digit (h : rule.Begins c) (hc : c.isDigit = true) :
    rule = .word .number ∨ rule = .other := by
  -- no mark, quote, slash or blank is a digit
  cases rule with
  | word kind =>
    rcases kind.literal_cases with rfl | rfl | hk
    · exact .inl rfl
    · cases h
      cases hc
    · obtain ⟨_, hmark⟩ := Option.isSome_iff_exists.1 ((begins_mark hk).1 h)
      rw [(TokenKind.ofChar?_disjoint hmark).1] at hc
      cases hc
  | comment | openString =>
    cases h
    cases hc
  | blank =>
    simp only [Begins, isBlank, Bool.or_eq_true, decide_eq_true_eq] at h
    rcases h with ((rfl | rfl) | rfl) | rfl
    all_goals cases hc
  | other => exact .inr rfl

/-- A quote begins strings, and text that is left open. -/
theorem of_quote (h : rule.Begins '"') :
    rule = .word .string ∨ rule = .openString ∨ rule = .other := by
  cases rule with
  | word kind =>
    rcases kind.literal_cases with rfl | rfl | hk
    · cases h
    · exact .inl rfl
    · cases (begins_mark hk).1 h
  | comment | blank => cases h
  | openString => exact .inr (.inl rfl)
  | other => exact .inr (.inr rfl)

/-- A blank is a blank. -/
theorem of_blank (h : rule.Begins c) (hc : isBlank c = true) : rule = .blank ∨ rule = .other := by
  simp only [isBlank, Bool.or_eq_true, decide_eq_true_eq] at hc
  cases rule with
  | word kind =>
    rcases kind.literal_cases with rfl | rfl | hk
    · rcases hc with ((rfl | rfl) | rfl) | rfl
      all_goals cases h
    · cases h
      simp at hc
    · have hmark := (begins_mark hk).1 h
      rcases hc with ((rfl | rfl) | rfl) | rfl
      all_goals cases hmark
  | comment | openString =>
    cases h
    simp at hc
  | blank => exact .inl rfl
  | other => exact .inr rfl

/-- A character of `ofChar?` begins marks, and a slash comments as well. -/
theorem of_mark {kind : TokenKind} (h : rule.Begins c) (hc : TokenKind.ofChar? c = some kind) :
    (∃ j : TokenKind, j.isLiteral = false ∧ rule = .word j) ∨ (c = '/' ∧ rule = .comment) ∨
      rule = .other := by
  obtain ⟨hdigit, hquote, hblank⟩ := TokenKind.ofChar?_disjoint hc
  cases rule with
  | word j =>
    rcases j.literal_cases with rfl | rfl | hj
    · exact absurd h (by simp [Begins, hdigit])
    · exact absurd h hquote
    · exact .inl ⟨j, hj, rfl⟩
  | comment => exact .inr (.inl ⟨h, rfl⟩)
  | blank => exact absurd h (by simp [Begins, hblank])
  | openString => exact absurd h hquote
  | other => exact .inr (.inr rfl)

/-- Any other character begins nothing but `other`. -/
theorem of_stray (h : rule.Begins c) (hmark : TokenKind.ofChar? c = none)
    (hblank : isBlank c = false) (hquote : c ≠ '"') (hdigit : c.isDigit = false) :
    rule = .other := by
  cases rule with
  | word kind =>
    rcases kind.literal_cases with rfl | rfl | hk
    · exact absurd h (by simp [Begins, hdigit])
    · exact absurd h hquote
    · exact absurd ((begins_mark hk).1 h) (by simp [hmark])
  | comment =>
    cases h
    cases hmark
  | blank => exact absurd h (by simp [Begins, hblank])
  | openString => exact absurd h hquote
  | other => rfl

/-- Whatever begins with a character, that character alone is a text of some class; it is a stray
character only if nothing else begins with it. -/
theorem single (h : rule.Begins c) : ∃ r : Rule, r.Matches [c] ∧ (r = .other → rule = .other) := by
  -- a quote alone is left open, and a slash alone is the mark
  cases rule with
  | word kind =>
    rcases kind.literal_cases with rfl | rfl | hk
    · have hc : c.isDigit = true := h
      exact ⟨.word .number, .inl ⟨by simp, by simpa using hc⟩, nofun⟩
    · cases h
      exact ⟨.openString, ⟨[], by simp, rfl⟩, nofun⟩
    · obtain ⟨j, hj⟩ := Option.isSome_iff_exists.1 ((begins_mark hk).1 h)
      exact ⟨.word j, TokenKind.spells_of_ofChar? hj, nofun⟩
  | comment =>
    cases h
    have hslash : TokenKind.slash.Spells ['/'] := TokenKind.spells_of_ofChar? rfl
    exact ⟨.word .slash, hslash, nofun⟩
  | blank =>
    simp only [Begins, isBlank, Bool.or_eq_true, decide_eq_true_eq] at h
    exact ⟨.blank, by simpa [Matches, or_assoc] using h, nofun⟩
  | openString =>
    cases h
    exact ⟨.openString, ⟨[], by simp, rfl⟩, nofun⟩
  | other => exact ⟨.other, ⟨c, rfl⟩, id⟩

end Begins

end Rule

end SourceScan
