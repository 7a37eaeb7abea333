import SourceScan.Proofs.Rounding
import SourceScan.Proofs.Words

/-!
# The values of number literals

A numeral stands for a fraction (`numeralValue`): the number its digits spell in front of the point,
and the number they spell behind it with as many places. Reading keeps this fraction exactly
(**`value_of_read?`**), and it is rounded once. Hence **`tokenize_rounds`**: a scanned literal is
the number nearest to its text, however long that is.
-/

namespace SourceScan

/-- **The value of a numeral.** -/
def numeralValue (text : List Char) : ℚ :=
  let whole := text.takeWhile Char.isDigit
  let fraction := (text.dropWhile Char.isDigit).tail
  Nat.ofDigitChars 10 whole 0 + Nat.ofDigitChars 10 fraction 0 / 10 ^ fraction.length

/-! ## Reading digits -/

/-- `Digits.toNat` on decimal digits is `Nat.ofDigitChars`. -/
theorem Digits.toNat_eq_ofDigitChars {digits : List Char} (h : ∀ c ∈ digits, c.isDigit = true) :
    Digits.toNat 10 digits = Nat.ofDigitChars 10 digits 0 := by
  rw [Digits.toNat, Nat.ofDigitChars_eq_foldl]
  refine List.foldl_ext _ _ _ fun n c hc => ?_
  rw [Digits.value, if_pos (h c hc)]

/-- Digits without a point are a whole number. -/
theorem numeralValue_digits {text : List Char} (h : IsDigits text) :
    numeralValue text = Nat.ofDigitChars 10 text 0 := by
  rw [numeralValue, List.takeWhile_eq_self_iff.2 h.2, List.dropWhile_eq_nil_iff.2 h.2]
  simp

/-- The digits on both sides of a point, as one number. -/
theorem numeralValue_point {whole fraction : List Char} (hw : IsDigits whole) :
    numeralValue (whole ++ '.' :: fraction) =
      Nat.ofDigitChars 10 (whole ++ fraction) 0 / 10 ^ fraction.length := by
  have hpoint : ¬ Char.isDigit '.' = true := by decide
  -- the digits behind the point move those in front of it by as many places
  have hjoined : Nat.ofDigitChars 10 (whole ++ fraction) 0 =
      10 ^ fraction.length * Nat.ofDigitChars 10 whole 0 + Nat.ofDigitChars 10 fraction 0 := by
    rw [Nat.ofDigitChars_append]
    exact Nat.ofDigitChars_eq_ofDigitChars_zero
  rw [numeralValue, List.takeWhile_append_of_pos hw.2, List.takeWhile_cons_of_neg hpoint,
    List.append_nil, List.dropWhile_append_of_pos hw.2, List.dropWhile_cons_of_neg hpoint,
    List.tail_cons, hjoined]
  push_cast
  field_simp

/-- The decimal kept of two parts has all their digits, and the places of the second. -/
theorem Decimal.value_ofParts {whole fraction : List Char}
    (h : ∀ c ∈ whole ++ fraction, c.isDigit = true) : (Decimal.ofParts whole fraction 0).value =
      Nat.ofDigitChars 10 (whole ++ fraction) 0 / 10 ^ fraction.length := by
  rw [value, ofParts, Digits.toNat_eq_ofDigitChars h, zero_sub, zpow_neg, zpow_natCast,
    div_eq_mul_inv]

/-- **Reading a numeral is exact.** -/
theorem Decimal.value_of_read? {text : List Char} (h : IsNumeral text) :
    ∃ d, Decimal.read? text = some d ∧ d.value = numeralValue text := by
  rcases h with h | ⟨whole, fraction, hw, hf, rfl⟩
  · refine ⟨_, Decimal.read?_digits h, ?_⟩
    rw [value_ofParts (by simpa using h.2), numeralValue_digits h]
    simp
  · refine ⟨_, Decimal.read?_point hw hf, ?_⟩
    rw [value_ofParts (hw.append hf.2).2, numeralValue_point hw]

/-- A numeral is read as the number nearest to its value. -/
theorem Binary64.read?_eq {text : List Char} {d : Decimal} (h : IsNumeral text)
    (hd : d.value = numeralValue text) : Binary64.read? text = some (ofDecimal d) := by
  obtain ⟨e, he, hvalue⟩ := Decimal.value_of_read? h
  rw [read?, he, Option.map_some, ofDecimal_congr (hvalue.trans hd.symm)]

/-- Only a NaN differs from itself. -/
theorem Binary64.equal_self {x : Binary64} (h : x.isNaN = false) : x.equal x = true := by
  simp [equal, h]

/-- A token whose value is not a NaN equals itself. -/
theorem Token.sameValue_self {t : Token}
    (h : ∀ x, t.literal = some (.number x) → x.isNaN = false) : t.sameValue t = true := by
  rw [sameValue]
  cases hliteral : t.literal with
  | none => simp
  | some literal =>
    cases literal with
    | number x => simpa [Literal.sameValue] using Binary64.equal_self (h x hliteral)
    | string text => simp [Literal.sameValue]

/-! ## Scanned numbers -/

section Tokens

variable {text : List Char} {pieces : List Piece} {t : Token}

/-- A number token has a numeral for its text, and for its value the number this is read as. -/
theorem literal_of_number (hcut : Lexes text pieces) (ht : t ∈ tokensOf pieces)
    (hkind : t.kind = .number) : IsNumeral t.lexeme.toList ∧ ∃ d : Decimal,
      t.literal = some (.number (.ofDecimal d)) ∧ d.value = numeralValue t.lexeme.toList := by
  obtain ⟨hspells, hliteral⟩ := spelled_of_mem_tokensOf hcut ht
  rw [hkind] at hspells hliteral
  obtain ⟨d, -, hvalue⟩ := Decimal.value_of_read? hspells
  refine ⟨hspells, d, ?_, hvalue⟩
  rw [hliteral, TokenKind.literal?, Binary64.read?_eq hspells hvalue, Option.map_some]

/-- A token with a number for its value is of the kind `number`. -/
theorem kind_of_literal {x : Binary64} (hcut : Lexes text pieces) (ht : t ∈ tokensOf pieces)
    (hx : t.literal = some (.number x)) : t.kind = .number := by
  rw [(spelled_of_mem_tokensOf hcut ht).2] at hx
  -- the value of a string is a text, and a mark has none
  rcases t.kind.literal_cases with hkind | hkind | hkind
  · exact hkind
  · rw [hkind] at hx
    cases hx
  · rw [TokenKind.literal?_mark hkind] at hx
    cases hx

end Tokens

/-- The numbers that a scan returns have no sign, and each is one. -/
theorem number_of_literal {source : String} {r : Reporter} {tokens : List Token} {t : Token}
    {x : Binary64} (hresult : (tokenize source r).result = .ok tokens) (ht : t ∈ tokens)
    (hx : t.literal = some (.number x)) : x.isNegative = false ∧ x.isNaN = false := by
  obtain ⟨pieces, hcut⟩ := exists_lexes source
  rcases mem_tokens_of_ok hcut hresult ht with hword | rfl
  · obtain ⟨-, d, hd, -⟩ := literal_of_number hcut hword (kind_of_literal hcut hword hx)
    obtain rfl : x = .ofDecimal d := Literal.number.inj (Option.some.inj (hx.symm.trans hd))
    exact ⟨Binary64.isNegative_ofDecimal d, Binary64.isNaN_ofDecimal d⟩
  · cases hx

/-- No piece of a source is a number that cannot be read. -/
theorem Piece.code_of_finding {here : Place} {p : Piece} {d : Diagnostic}
    (h : p.finding here = .fault d) : d.code ≠ some .invalidNumber := by
  obtain ⟨rule, text⟩ := p
  cases rule with
  | word | comment | blank => cases h
  | openString | other =>
    cases h
    simp [DiagnosticCode.invalidNumber]

/-- Where a digit comes next a number is found. -/
theorem Cursor.numberStep_finds {source : String} {c : Cursor source} (h : ¬ c.AtEnd)
    (hdigit : (c.head h).isDigit = true) :
    ∃ t, (c.numberStep h).finding = .token t ∧ t.kind = .number := by
  obtain ⟨p, hp⟩ := numberStep_takes (h := h) hdigit
  -- the finding is that of a piece, and no piece has the fault of a number that cannot be read
  have hfound := hp.found
  simp only [numberStep] at hfound ⊢
  split at hfound
  · exact ⟨_, rfl, rfl⟩
  · exact absurd rfl (Piece.code_of_finding hfound.symm)

/-- **Number literals are correctly rounded.** Each number token that a scan returns has a numeral
for its text, and of all numbers just its value satisfies `Binary64.RoundsTo` for `numeralValue` of
this text. It is the infinity from `2 ^ 1024 - 2 ^ 970` on, zero up to `2 ^ (-1075)`, not negative
and not a NaN. So `Token.sameValue` holds of every token and itself. Where a digit comes next,
`Cursor.numberStep` finds a number token, and no fault of a source has the code `invalidNumber`. -/
theorem tokenize_rounds (source : String) (r : Reporter) :
    (∀ tokens, (tokenize source r).result = .ok tokens →
      (∀ t ∈ tokens, t.sameValue t = true) ∧
      ∀ t ∈ tokens, t.kind = .number → IsNumeral t.lexeme.toList ∧
        ∃ x, t.literal = some (.number x) ∧
          (∀ y, Binary64.RoundsTo (numeralValue t.lexeme.toList) y ↔ y = x) ∧
          (x = .infinity ↔ 2 ^ 1024 - 2 ^ 970 ≤ numeralValue t.lexeme.toList) ∧
          (x = ⟨0⟩ ↔ numeralValue t.lexeme.toList ≤ 1 / 2 ^ 1075) ∧
          x.isNegative = false ∧ x.isNaN = false) ∧
    (∀ (c : Cursor source) (h : ¬ c.AtEnd), (c.head h).isDigit = true →
      ∃ t, (c.numberStep h).finding = .token t ∧ t.kind = .number) ∧
    ∀ d, Finding.fault d ∈ (Reading.of source).findings → d.code ≠ some .invalidNumber := by
  obtain ⟨pieces, hcut⟩ := exists_lexes source
  refine ⟨fun tokens hresult => ⟨fun t ht => ?_, fun t ht hnumber => ?_⟩,
    fun c h => Cursor.numberStep_finds h, fun d hd => ?_⟩
  · -- only a NaN would differ from itself
    exact Token.sameValue_self fun x hx => (number_of_literal hresult ht hx).2
  · rcases mem_tokens_of_ok hcut hresult ht with hword | rfl
    · obtain ⟨hnumeral, d, hliteral, hvalue⟩ := literal_of_number hcut hword hnumber
      rw [← hvalue]
      exact ⟨hnumeral, _, hliteral, fun y => Binary64.roundsTo_iff_eq_ofDecimal,
        Binary64.ofDecimal_eq_infinity_iff, Binary64.ofDecimal_eq_zero_iff,
        number_of_literal hresult ht hliteral⟩
    · cases hnumber
  · rw [(reading_eq hcut).1] at hd
    obtain ⟨before, p, after, -, heq⟩ := exists_of_mem_findings hd
    exact Piece.code_of_finding heq.symm

/-- Two numerals on either side of a rounding decision: the first is the middle between two numbers
and goes to the even one, the second lies behind it by its last digit. -/
theorem tokenize_rounds_middle : ∃ tokens,
    (tokenize "9007199254740993 9007199254740993.00000000000000000001" .new).result = .ok tokens ∧
      (∃ t ∈ tokens, t.literal = some (.number ⟨0x4340000000000000⟩) ∧
        Binary64.RoundsTo (2 ^ 53 + 1) ⟨0x4340000000000000⟩) ∧
      ∃ t ∈ tokens, t.literal = some (.number ⟨0x4340000000000001⟩) ∧
        Binary64.RoundsTo (2 ^ 53 + 1 + 1 / 10 ^ 20) ⟨0x4340000000000001⟩ := by
  have hrun : (tokenize "9007199254740993 9007199254740993.00000000000000000001"
      .new).result.toOption.map (·.map Token.wording) =
        some [(.number, "9007199254740993", some (.number ⟨0x4340000000000000⟩)),
          (.number, "9007199254740993.00000000000000000001",
            some (.number ⟨0x4340000000000001⟩)),
          (.endOfInput, "", none)] := by decide +kernel
  obtain ⟨tokens, hresult⟩ : ∃ tokens,
      (tokenize "9007199254740993 9007199254740993.00000000000000000001" .new).result =
        .ok tokens := exists_tokens_of_tolerant _ rfl
  rw [hresult] at hrun
  have hwordings := Option.some.inj hrun
  have hrounds := ((tokenize_rounds _ _).1 tokens hresult).2
  have hfound (lexeme : String) (x : Binary64)
      (hmem : (TokenKind.number, lexeme, some (Literal.number x)) ∈ tokens.map Token.wording) :
      ∃ t ∈ tokens, t.literal = some (.number x) ∧
        Binary64.RoundsTo (numeralValue lexeme.toList) x := by
    obtain ⟨t, ht, heq⟩ := List.mem_map.1 hmem
    obtain ⟨hkind, hrest⟩ := Prod.mk.inj heq
    obtain ⟨rfl, hliteral⟩ := Prod.mk.inj hrest
    obtain ⟨-, y, hy, hround, -⟩ := hrounds t ht hkind
    cases hliteral.symm.trans hy
    exact ⟨t, ht, hy, (hround x).2 rfl⟩
  refine ⟨tokens, hresult, ?_, ?_⟩
  · have hvalue : numeralValue "9007199254740993".toList = 2 ^ 53 + 1 := by decide +kernel
    rw [← hvalue]
    exact hfound _ _ (by simp [hwordings])
  · have hvalue : numeralValue "9007199254740993.00000000000000000001".toList =
        2 ^ 53 + 1 + 1 / 10 ^ 20 := by decide +kernel
    rw [← hvalue]
    exact hfound _ _ (by simp [hwordings])

end SourceScan
