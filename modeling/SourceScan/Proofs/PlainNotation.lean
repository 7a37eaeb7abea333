import SourceScan.Proofs.NumberValues
import SourceScan.Proofs.ShortestDigits

/-!
# Numbers as text, scanned again

A number is displayed in plain notation or with an exponent. Plain text is a numeral, of the value
of the digits it is made of (**`plainChars_spec`**), so it is scanned as one word and gives the
number back. Text with an exponent holds an `e`, which is a stray character to a scan and reported
(**`Strays.faultsOf_ne_nil`**), and so is the `i` of an infinity.

**`tokenize_displayed`** puts this together with the range in which plain notation is chosen.
-/

namespace SourceScan

/-! ## Plain notation -/

/-- Whole numbers end in `.0`. -/
theorem plainChars_whole (coefficient zeros : Nat) :
    IsNumeral (FloatStyle.plainChars ⟨coefficient, zeros⟩) ∧
      numeralValue (FloatStyle.plainChars ⟨coefficient, zeros⟩) =
        (⟨coefficient, zeros⟩ : Decimal).value := by
  have hwhole : IsDigits (Nat.toDigits 10 coefficient ++ List.replicate zeros '0') :=
    (isDigits_toDigits coefficient).append (by simp)
  have htext : FloatStyle.plainChars ⟨coefficient, zeros⟩ =
      Nat.toDigits 10 coefficient ++ List.replicate zeros '0' ++ '.' :: ['0'] := by
    rw [FloatStyle.plainChars, if_pos (Int.natCast_nonneg zeros), Int.toNat_natCast]
  have hzero : Nat.ofDigitChars 10 ['0'] (10 ^ zeros * coefficient) =
      10 * (10 ^ zeros * coefficient) := Nat.ofDigitChars_replicate_zero (n := 1)
  rw [htext]
  refine ⟨.inr ⟨_, ['0'], hwhole, ⟨by simp, by simp⟩, rfl⟩, ?_⟩
  rw [numeralValue_point hwhole, Nat.ofDigitChars_append, Nat.ofDigitChars_append,
    Nat.ofDigitChars_ten_toDigits, Nat.ofDigitChars_replicate_zero, hzero, Decimal.value,
    zpow_natCast]
  push_cast
  rw [List.length_singleton]
  ring

/-- Fractions are padded with zeros: these reach up to the point, and one more stands before it. -/
theorem plainChars_fraction (coefficient : Nat) {places : Nat} (hplaces : 0 < places) :
    IsNumeral (FloatStyle.plainChars ⟨coefficient, -places⟩) ∧
      numeralValue (FloatStyle.plainChars ⟨coefficient, -places⟩) =
        (⟨coefficient, -places⟩ : Decimal).value := by
  have hneg : ¬ (0 : ℤ) ≤ -places := by omega
  -- all that matters of the padded digits is their number and what they spell
  obtain ⟨padded, hpadded, hlength, hdigits, hvalue⟩ : ∃ padded : List Char,
      (Nat.toDigits 10 coefficient).leftpad (places + 1) '0' = padded ∧ places < padded.length ∧
        (∀ c ∈ padded, c.isDigit = true) ∧ Nat.ofDigitChars 10 padded 0 = coefficient := by
    refine ⟨_, rfl, ?_, (isDigits_leftpad_toDigits _ _).2, ofDigitChars_leftpad_toDigits _ _⟩
    rw [List.length_leftpad]
    omega
  have htext : FloatStyle.plainChars ⟨coefficient, -places⟩ =
      padded.take (padded.length - places) ++ '.' :: padded.drop (padded.length - places) := by
    simp only [FloatStyle.plainChars, if_neg hneg, neg_neg, Int.toNat_natCast, hpadded]
  have hwhole : IsDigits (padded.take (padded.length - places)) := by
    refine ⟨?_, fun c hc => hdigits c (List.mem_of_mem_take hc)⟩
    rw [← List.length_pos_iff, List.length_take]
    omega
  have hfraction : IsDigits (padded.drop (padded.length - places)) := by
    refine ⟨?_, fun c hc => hdigits c (List.mem_of_mem_drop hc)⟩
    rw [← List.length_pos_iff, List.length_drop]
    omega
  have hbehind : padded.length - (padded.length - places) = places := by omega
  rw [htext]
  refine ⟨.inr ⟨_, _, hwhole, hfraction, rfl⟩, ?_⟩
  rw [numeralValue_point hwhole, List.take_append_drop, hvalue, List.length_drop, hbehind,
    Decimal.value, zpow_neg, zpow_natCast, div_eq_mul_inv]

/-- **Plain text is a numeral, and means what it was made of.** -/
theorem plainChars_spec (d : Decimal) : IsNumeral (FloatStyle.plainChars d) ∧
    numeralValue (FloatStyle.plainChars d) = d.value := by
  obtain ⟨coefficient, exponent⟩ := d
  rcases le_or_gt 0 exponent with hle | hlt
  · obtain ⟨zeros, rfl⟩ := Int.eq_ofNat_of_zero_le hle
    exact plainChars_whole coefficient zeros
  · obtain ⟨places, rfl⟩ := Int.exists_eq_neg_ofNat hlt.le
    exact plainChars_fraction coefficient (by omega)

/-! ## Notation with an exponent -/

/-- **A character that no word is made of, in plain sight:** there is neither a string nor a comment
that it could stand in. -/
structure Strays (c : Char) (text : List Char) : Prop where
  mem : c ∈ text
  mark : TokenKind.ofChar? c = none
  digit : c.isDigit = false
  blank : isBlank c = false
  quote : '"' ∉ text
  slash : '/' ∉ text

namespace Strays

variable {c : Char} {text : List Char}

/-- A part of the text that holds the character has it in plain sight as well. -/
theorem of_subset {part : List Char} (h : Strays c text) (hmem : c ∈ part) (hpart : part ⊆ text) :
    Strays c part :=
  { h with
    mem := hmem
    quote := fun hquote => h.quote (hpart hquote)
    slash := fun hslash => h.slash (hpart hslash) }

/-- A stray character is in no digits. -/
theorem not_mem_digits {digits : List Char} (h : Strays c text) (hdigits : IsDigits digits) :
    c ∉ digits := by
  intro hmem
  have hdigit := h.digit
  rw [hdigits.2 c hmem] at hdigit
  cases hdigit

/-- A stray character is no mark, and begins none. -/
theorem ne_mark {d : Char} (h : Strays c text) (hd : (TokenKind.ofChar? d).isSome = true) :
    c ≠ d := by
  rintro rfl
  rw [h.mark] at hd
  cases hd

/-- A text of a class that holds the character is of the class of stray characters. -/
theorem eq_other {rule : Rule} (h : Strays c text) (hmatch : rule.Matches text) :
    rule = .other := by
  by_contra hrule
  have hmem := h.mem
  -- texts of all other classes are made of digits, marks, blanks, quotes and slashes, or begin so
  cases rule with
  | word kind =>
    rcases kind.literal_cases with rfl | rfl | hkind
    · rcases hmatch with hdigits | ⟨whole, fraction, hw, hf, rfl⟩
      · exact h.not_mem_digits hdigits hmem
      · rcases List.mem_append.1 hmem with hmem | hmem
        · exact h.not_mem_digits hw hmem
        · rcases List.mem_cons.1 hmem with hmem | hmem
          · exact h.ne_mark (by decide) hmem
          · exact h.not_mem_digits hf hmem
    · obtain ⟨content, -, rfl⟩ := hmatch
      exact h.quote List.mem_cons_self
    · rcases TokenKind.mark_forms ((TokenKind.spells_mark hkind).1 hmatch) with
        ⟨d, rfl, hd⟩ | ⟨d, shorter, rfl, hd, -⟩
      · exact h.ne_mark (by rw [hd]; rfl) (List.mem_singleton.1 hmem)
      · rcases List.mem_pair.1 hmem with hmem | hmem
        · exact h.ne_mark (by rw [hd]; rfl) hmem
        · exact h.ne_mark (by decide) hmem
  | comment =>
    obtain ⟨body, -, rfl⟩ := hmatch
    exact h.slash List.mem_cons_self
  | blank =>
    have hblank := h.blank
    rcases hmatch with rfl | rfl | rfl | rfl
    all_goals
      rw [List.mem_singleton.1 hmem] at hblank
      cases hblank
  | openString =>
    obtain ⟨content, -, rfl⟩ := hmatch
    exact h.quote List.mem_cons_self
  | other => exact hrule rfl

/-- The piece that holds the character is reported. -/
theorem faultsOf_ne_nil {pieces : List Piece} (h : Strays c text) (hcut : Lexes text pieces) :
    faultsOf pieces ≠ [] := by
  -- the character is in one of the pieces, and in plain sight there as well
  have hmem := h.mem
  rw [← hcut.flatMap_text] at hmem
  obtain ⟨p, hp, hcp⟩ := List.mem_flatMap.1 hmem
  have hpart : p.text ⊆ text := by
    rw [← hcut.flatMap_text]
    exact fun d hd => List.mem_flatMap.2 ⟨p, hp, hd⟩
  have hrule : p.rule = .other := (h.of_subset hcp hpart).eq_other (hcut.proper p hp).matched
  obtain ⟨here, hfound⟩ := exists_finding_of_mem hp
  rw [Piece.finding, hrule] at hfound
  exact List.ne_nil_of_mem (List.mem_filterMap.2 ⟨_, hfound, rfl⟩)

end Strays

/-- A whole number is written with digits and a sign. -/
theorem mem_toString_int {exponent : ℤ} {c : Char} (hc : c ∈ (toString exponent).toList) :
    c.isDigit = true ∨ c = '-' := by
  have hnat (n : Nat) (h : c ∈ n.repr.toList) : c.isDigit = true := by
    rw [Nat.toList_repr] at h
    exact (isDigits_toDigits n).2 c h
  cases exponent with
  | ofNat n => exact .inl (hnat n hc)
  | negSucc n =>
    change c ∈ ("-" ++ (n + 1).repr).toList at hc
    rw [String.toList_append] at hc
    rcases List.mem_append.1 hc with hc | hc
    · exact .inr (List.mem_singleton.1 hc)
    · exact .inl (hnat _ hc)

/-- Text with an exponent holds an `e`, and otherwise digits, a point and a sign. -/
theorem mem_exponentChars (d : Decimal) : 'e' ∈ FloatStyle.exponentChars d ∧
    ∀ c ∈ FloatStyle.exponentChars d, c.isDigit = true ∨ c = '.' ∨ c = 'e' ∨ c = '-' := by
  have hdigits := (isDigits_toDigits d.coefficient).2
  constructor
  · simp [FloatStyle.exponentChars]
  · intro c hc
    simp only [FloatStyle.exponentChars, List.mem_append, List.mem_cons] at hc
    rcases hc with (hc | hc) | rfl | hc
    · exact .inl (hdigits c (List.mem_of_mem_take hc))
    · split at hc
      · cases hc
      · rcases List.mem_cons.1 hc with rfl | hc
        · exact .inr (.inl rfl)
        · exact .inl (hdigits c (List.mem_of_mem_drop hc))
    · exact .inr (.inr (.inl rfl))
    · rcases mem_toString_int hc with hc | hc
      · exact .inl hc
      · exact .inr (.inr (.inr hc))

/-! ## Which notation is chosen -/

namespace Binary64

/-- Comparing a number with a quotient, in units. -/
theorem div_le_size_iff {x : Binary64} {n d : Nat} (hd : 0 < d) :
    (n / d : ℚ) ≤ x.size ↔ n * 2 ^ unitBits ≤ unitsAt x.magnitude * d := by
  have hpos : (0 : ℚ) < 2 ^ unitBits := by positivity
  have hunits : ((n * 2 ^ unitBits : Nat) : ℚ) = n * 2 ^ unitBits := by
    rw [Nat.cast_mul, Nat.cast_pow, Nat.cast_two]
  rw [← mul_le_mul_iff_left₀ hpos, size_mul_units, div_mul_eq_mul_div,
    div_le_iff₀ (Nat.cast_pos.2 hd), ← hunits, ← Nat.cast_mul, Nat.cast_le]

/-- The number read from `0.0001` is the first one that is not below that. -/
theorem le_magnitude_iff {x : Binary64} :
    (ofDecimal ⟨1, -4⟩).magnitude ≤ x.magnitude ↔ 1 / 10 ^ 4 ≤ x.size := by
  have hunits : 1 / 10 ^ 4 ≤ x.size ↔ 1 * 2 ^ unitBits ≤ unitsAt x.magnitude * 10 ^ 4 := by
    rw [← div_le_size_iff (by positivity), Nat.cast_one, Nat.cast_pow, Nat.cast_ofNat]
  rw [hunits]
  -- `m` is the last number below `0.0001`
  obtain ⟨m, hm, hbelow, habove⟩ : ∃ m, (ofDecimal ⟨1, -4⟩).magnitude = m + 1 ∧
      unitsAt m * 10 ^ 4 < 1 * 2 ^ unitBits ∧ 1 * 2 ^ unitBits ≤ unitsAt (m + 1) * 10 ^ 4 :=
    ⟨0x3F1A36E2EB1C432C, by decide +kernel, by decide +kernel, by decide +kernel⟩
  rw [hm]
  constructor
  · intro hle
    exact habove.trans (Nat.mul_le_mul_right _ (strictMono_unitsAt.monotone hle))
  · intro hle
    by_contra hlt
    have hmono := strictMono_unitsAt.monotone (Nat.lt_succ_iff.1 (not_le.1 hlt))
    have hscaled := Nat.mul_le_mul_right (10 ^ 4) hmono
    exact absurd (hle.trans hscaled) (not_le.2 hbelow)

/-- `10 ^ 16` is itself a number of the format. -/
theorem magnitude_lt_iff {x : Binary64} :
    x.magnitude < (ofDecimal ⟨1, 16⟩).magnitude ↔ x.size < 10 ^ 16 := by
  have hplace : unitsAt (ofDecimal ⟨1, 16⟩).magnitude = 10 ^ 16 * 2 ^ unitBits := by decide +kernel
  have hunits : 10 ^ 16 ≤ x.size ↔ 10 ^ 16 * 2 ^ unitBits ≤ unitsAt x.magnitude * 1 := by
    rw [← div_le_size_iff Nat.one_pos, Nat.cast_one, div_one, Nat.cast_pow, Nat.cast_ofNat]
  rw [← not_le, ← not_le, not_iff_not, hunits, mul_one, ← hplace, strictMono_unitsAt.le_iff_le]

/-- **Plain notation** is for numbers from `0.0001` up to sixteen digits before the point. -/
theorem plain_iff {x : Binary64} : FloatStyle.moderate.plain x = true ↔
    1 / 10 ^ 4 ≤ x.size ∧ x.size < 10 ^ 16 := by
  rw [FloatStyle.moderate, Bool.and_eq_true, decide_eq_true_eq, decide_eq_true_eq,
    le_magnitude_iff, magnitude_lt_iff]

/-- What is written plainly is finite. -/
theorem isFinite_of_plain {x : Binary64} (h : FloatStyle.moderate.plain x = true) : x.IsFinite := by
  have hbound : (ofDecimal ⟨1, 16⟩).magnitude < infinityBits := by decide +kernel
  rw [isFinite_iff]
  exact (magnitude_lt_iff.2 (plain_iff.1 h).2).trans hbound

/-- What is written plainly is not zero, which has a text of its own. -/
theorem magnitude_ne_zero_of_plain {x : Binary64} (h : FloatStyle.moderate.plain x = true) :
    x.magnitude ≠ 0 := by
  rw [Ne, ← size_eq_zero_iff]
  intro hzero
  have hlow := (plain_iff.1 h).1
  rw [hzero] at hlow
  norm_num at hlow

/-- The numbers that are displayed in plain notation. -/
def IsModerate (x : Binary64) : Prop := x.value = 0 ∨ (1 / 10 ^ 4 ≤ x.value ∧ x.value < 10 ^ 16)

/-- `IsModerate` on the bits: zero, or what `FloatStyle.moderate` writes plainly. -/
theorem isModerate_iff {x : Binary64} (hsign : x.isNegative = false) :
    x.IsModerate ↔ x.magnitude = 0 ∨ FloatStyle.moderate.plain x = true := by
  rw [IsModerate, value_of_unsigned hsign, size_eq_zero_iff, plain_iff]

section Displayed

variable {x : Binary64} (hsign : x.isNegative = false) (hnan : x.isNaN = false)
include hsign hnan

/-- A number without a sign that is no NaN is displayed as its magnitude. -/
theorem toList_toString_number :
    (toString (Literal.number x)).toList = FloatStyle.moderate.magnitudeChars x := by
  show (FloatStyle.moderate.render x).toList = _
  rw [FloatStyle.render, hnan, hsign]
  exact String.toList_ofList

/-- **Moderate numbers are displayed as numerals that are read as them.** -/
theorem read?_toString_number (h : x.IsModerate) : IsNumeral (toString (Literal.number x)).toList ∧
    read? (toString (Literal.number x)).toList = some x := by
  rw [isModerate_iff hsign] at h
  rw [toList_toString_number hsign hnan]
  rcases h with hzero | hplain
  · obtain rfl : x = ⟨0⟩ := eq_of_magnitude_eq rfl hsign (by decide) hzero
    refine ⟨.inr ⟨['0'], ['0'], ?_, ?_, rfl⟩, by decide +kernel⟩
    all_goals exact ⟨by simp, by simp⟩
  · -- the shortest digits are read back, and the plain text is a numeral of their value
    have hfinite := isFinite_of_plain hplain
    have hpos := magnitude_ne_zero_of_plain hplain
    have hinf : ¬ x.isInfinite = true := by
      rw [isInfinite, beq_iff_eq]
      exact (isFinite_iff.1 hfinite).ne
    rw [FloatStyle.magnitudeChars, if_neg hinf, if_neg hpos, if_pos hplain]
    obtain ⟨hnumeral, hvalue⟩ := plainChars_spec x.shortest
    refine ⟨hnumeral, ?_⟩
    rw [read?_eq hnumeral hvalue.symm, ofDecimal_shortest hsign hfinite hpos]

/-- **Other numbers are displayed with a stray character.** -/
theorem strays_toString_number (h : ¬ x.IsModerate) :
    ∃ c, Strays c (toString (Literal.number x)).toList := by
  rw [isModerate_iff hsign, not_or] at h
  rw [toList_toString_number hsign hnan, FloatStyle.magnitudeChars]
  split
  · -- an infinity is displayed as `inf`
    exact ⟨'i', by decide, rfl, rfl, rfl, by decide, by decide⟩
  · rw [if_neg h.1, if_neg h.2]
    obtain ⟨hexponent, hothers⟩ := mem_exponentChars x.shortest
    have hno (c : Char) (hc : ¬ (c.isDigit = true ∨ c = '.' ∨ c = 'e' ∨ c = '-')) :
        c ∉ FloatStyle.exponentChars x.shortest := fun hmem => hc (hothers c hmem)
    exact ⟨'e', hexponent, rfl, rfl, rfl, hno _ (by decide), hno _ (by decide)⟩

end Displayed

end Binary64

/-! ## Scanning what is displayed -/

/-- A numeral is scanned as one word. -/
theorem tokenize_numeral {text : List Char} (h : IsNumeral text) (r : Reporter) :
    ∃ t eof, (tokenize (String.ofList text) r).result = .ok [t, eof] ∧
      t.wording = (.number, String.ofList text, (Binary64.read? text).map .number) ∧
      eof.kind = .endOfInput ∧ (tokenize (String.ofList text) r).reporter = r := by
  let word : Word := ⟨.number, text, h⟩
  have hcut : Lexes (String.ofList text).toList [word.piece] := by
    rw [String.toList_ofList, ← List.append_nil text]
    exact word.lexes_cons word.piece.ends_nil .nil
  obtain ⟨tokens, hresult, hwords, hreporter⟩ :=
    tokenize_of_words hcut (List.forall_mem_singleton.2 word.faultless) r
  obtain ⟨t, rfl, ht⟩ := List.map_eq_singleton_iff.1 hwords
  exact ⟨t, _, hresult, ht, rfl, hreporter⟩

/-- A scan does not go through without a diagnostic: it halts at one, or the reporter has kept some
in addition. -/
def ReportsFaults (source : String) (r : Reporter) : Prop :=
  (∃ halt, (tokenize source r).result = .error halt) ∨
    ∃ (tokens : List Token) (faults : List Diagnostic), (tokenize source r).result = .ok tokens ∧
      (tokenize source r).reporter.kept = r.kept ++ faults.toArray ∧ faults ≠ []

/-- A scan that `ReportsFaults` and returns tokens leaves another reporter behind. -/
theorem ReportsFaults.ne_ok {source : String} {r : Reporter} {tokens : List Token}
    (h : ReportsFaults source r) (hresult : (tokenize source r).result = .ok tokens) :
    (tokenize source r).reporter ≠ r := by
  intro hreporter
  rcases h with ⟨halt, hhalt⟩ | ⟨others, faults, -, hkept, hfaults⟩
  · rw [hresult] at hhalt
    cases hhalt
  · rw [hreporter] at hkept
    exact hfaults (by simpa using hkept)

/-- Text with a stray character is not scanned without a report. -/
theorem Strays.reportsFaults {source : String} {c : Char} (h : Strays c source.toList)
    (r : Reporter) : ReportsFaults source r := by
  obtain ⟨pieces, hcut⟩ := exists_lexes source
  cases hresult : (tokenize source r).result with
  | error halt => exact .inl ⟨halt, hresult⟩
  | ok tokens =>
    refine .inr ⟨tokens, faultsOf pieces, hresult, ?_, ?_⟩
    · rw [(tokenize_ok hcut hresult).2]
    · exact h.faultsOf_ne_nil hcut

/-- **A displayed number scans back to itself exactly in the range of plain notation.** Let `x` be
the value of a number token that some scan returns, and scan its `toString`, with any reporter. Just
if `x` is `Binary64.IsModerate`, this returns one number token with the same bits and the end of the
input, and leaves the reporter as it was. For every other `x` the scan `ReportsFaults`. -/
theorem tokenize_displayed (source : String) (r s : Reporter) (tokens : List Token) (t : Token)
    (x : Binary64) (hresult : (tokenize source r).result = .ok tokens) (ht : t ∈ tokens)
    (hx : t.literal = some (.number x)) :
    ((∃ n eof, (tokenize (toString (Literal.number x)) s).result = .ok [n, eof] ∧
        n.kind = .number ∧ n.literal = some (.number x) ∧ eof.kind = .endOfInput ∧
        (tokenize (toString (Literal.number x)) s).reporter = s) ↔ x.IsModerate) ∧
      (¬ x.IsModerate → ReportsFaults (toString (Literal.number x)) s) := by
  obtain ⟨hsign, hnan⟩ := number_of_literal hresult ht hx
  have hreported (h : ¬ x.IsModerate) : ReportsFaults (toString (Literal.number x)) s := by
    obtain ⟨c, hc⟩ := Binary64.strays_toString_number hsign hnan h
    exact hc.reportsFaults s
  refine ⟨⟨?_, fun h => ?_⟩, hreported⟩
  · rintro ⟨n, eof, hscan, -, -, -, hreporter⟩
    by_contra hwide
    exact (hreported hwide).ne_ok hscan hreporter
  · obtain ⟨hnumeral, hread⟩ := Binary64.read?_toString_number hsign hnan h
    obtain ⟨n, eof, hscan, hwording, hend, hreporter⟩ := tokenize_numeral hnumeral s
    rw [String.ofList_toList] at hscan hreporter hwording
    rw [hread] at hwording
    obtain ⟨hkind, hrest⟩ := Prod.mk.inj hwording
    obtain ⟨-, hliteral⟩ := Prod.mk.inj hrest
    exact ⟨n, eof, hscan, hkind, hliteral, hend, hreporter⟩

/-- A number on either side of the upper end of the range. The first is displayed with a point, is
scanned again even by a reporter that halts on errors, and is the number it was. -/
theorem tokenize_displayed_end : ∃ tokens,
    (tokenize "9999999999999998 10000000000000000" .new).result = .ok tokens ∧
      (∃ t ∈ tokens, t.literal = some (.number ⟨0x4341C37937E07FFF⟩) ∧
        ∃ n eof, (tokenize "9999999999999998.0" .panicking).result = .ok [n, eof] ∧
          n.literal = some (.number ⟨0x4341C37937E07FFF⟩) ∧ eof.kind = .endOfInput) ∧
      ∃ t ∈ tokens, t.literal = some (.number ⟨0x4341C37937E08000⟩) ∧
        ReportsFaults "1e16" .panicking := by
  have hrun : (tokenize "9999999999999998 10000000000000000" .new).result.toOption.map
      (·.map Token.literal) = some [some (.number ⟨0x4341C37937E07FFF⟩),
        some (.number ⟨0x4341C37937E08000⟩), none] := by decide +kernel
  have hbelow : toString (Literal.number ⟨0x4341C37937E07FFF⟩) = "9999999999999998.0" := by
    decide +kernel
  have habove : toString (Literal.number ⟨0x4341C37937E08000⟩) = "1e16" := by decide +kernel
  obtain ⟨tokens, hresult⟩ : ∃ tokens,
      (tokenize "9999999999999998 10000000000000000" .new).result = .ok tokens :=
    exists_tokens_of_tolerant _ rfl
  rw [hresult] at hrun
  have hliterals := Option.some.inj hrun
  obtain ⟨t, ht, hfirst⟩ := List.mem_map.1 (hliterals ▸ List.mem_cons_self)
  obtain ⟨u, hu, hsecond⟩ := List.mem_map.1 (hliterals ▸ List.mem_cons_of_mem _ List.mem_cons_self)
  have hplain : Binary64.IsModerate ⟨0x4341C37937E07FFF⟩ :=
    (Binary64.isModerate_iff rfl).2 (.inr (by decide +kernel))
  have hexponent : ¬ Binary64.IsModerate ⟨0x4341C37937E08000⟩ := by
    rw [Binary64.isModerate_iff rfl]
    decide +kernel
  have hscan := (tokenize_displayed _ .new .panicking tokens t _ hresult ht hfirst).1.2 hplain
  have hreport := (tokenize_displayed _ .new .panicking tokens u _ hresult hu hsecond).2 hexponent
  rw [hbelow] at hscan
  rw [habove] at hreport
  obtain ⟨n, eof, hagain, -, hliteral, hend, -⟩ := hscan
  exact ⟨tokens, hresult, ⟨t, ht, hfirst, n, eof, hagain, hliteral, hend⟩, u, hu, hsecond, hreport⟩

end SourceScan
