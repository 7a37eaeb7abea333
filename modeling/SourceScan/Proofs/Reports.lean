import SourceScan.Proofs.Delivery

/-!
# What a scan reports, and where

A scan reports errors of two kinds. A stray character is reported at its own place and by its own
bytes. A string that is still open at the end has taken in all that was left, so there is one at
most, it is reported last, and the words of the source all begin before it.

The place of an open string is not that of its first character: it is reported on the line where
the source ends, with the column of its quote only if the quote is on that line too.

Which pieces are faulty is settled in `Piece.finding`. Here each faulty piece is followed to the
report it becomes (**`reportsStray_of_mem`**, **`reportsOpenString`**), and
**`tokenize_reports`** puts the reports of a scan in order.
-/

namespace SourceScan

namespace Diagnostic

/-- **A report of a stray character:** it covers the bytes of one character of the source, at the
line and the column of that character. -/
def ReportsStray (d : Diagnostic) (source : String) : Prop :=
  ∃ before c after, source.toList = before ++ c :: after ∧
    d = ⟨.error, "Unexpected character.",
      ⟨(String.ofList before).utf8ByteSize, (String.ofList before).utf8ByteSize + c.utf8Size,
        1 + before.count '\n', 1 + (before.rtakeWhile (· != '\n')).length⟩,
      some .unexpectedCharacter, []⟩

/-- **A report of an open string:** it covers the source from a quote on that no quote follows. It
is on the line where the source ends; its column is that of the quote if the quote is on this line,
and otherwise the one where the source ends. -/
def ReportsOpenString (d : Diagnostic) (source : String) (eof : Token) : Prop :=
  ∃ before content, source.toList = before ++ '"' :: content ∧ '"' ∉ content ∧
    d = ⟨.error, "Unterminated string.",
      ⟨(String.ofList before).utf8ByteSize, source.utf8ByteSize, eof.span.line,
        if eof.span.line = 1 + before.count '\n' then 1 + (before.rtakeWhile (· != '\n')).length
        else eof.span.column⟩,
      some .unterminatedString, []⟩

end Diagnostic

/-! ## From faulty pieces to reports -/

/-- A stray character is not a newline, so it ends on the line where it begins. -/
theorem Piece.finding_other {p : Piece} (hp : p.Proper) (hrule : p.rule = .other) (here : Place) :
    ∃ c, p.text = [c] ∧ p.finding here = .fault ⟨.error, "Unexpected character.",
      ⟨here.offset, here.offset + c.utf8Size, here.line, here.column⟩,
      some .unexpectedCharacter, []⟩ := by
  obtain ⟨rule, text⟩ := p
  cases hrule
  obtain ⟨c, rfl⟩ := hp.matched
  refine ⟨c, rfl, ?_⟩
  -- a newline would be a blank
  have hc : c ≠ '\n' := by
    rintro rfl
    cases hp.lastResort rfl .blank (.inr (.inr (.inr rfl)))
  have hnext : here.past [c] = ⟨here.offset + c.utf8Size, here.line, here.column + 1⟩ := by
    rw [Place.past_cons, Place.past_nil, Place.next, if_neg hc]
  simp only [Piece.finding, Place.faultSpan, hnext, if_true]
  rfl

section Pieces

variable {text : List Char} {pieces closed : List Piece}

/-- The faults among pieces that are not open strings are stray characters. -/
theorem reportsStray_of_mem {source : String} {d : Diagnostic} {others : List Piece}
    (hcut : Lexes source.toList (closed ++ others)) (hclosed : ∀ p ∈ closed, p.rule ≠ .openString)
    (hd : d ∈ faultsOf closed) : d.ReportsStray source := by
  obtain ⟨f, hf, hfault⟩ := List.mem_filterMap.1 hd
  obtain ⟨before, p, after, rfl, rfl⟩ := exists_of_mem_findings hf
  have hmem : p ∈ before ++ p :: after := by simp
  have hproper : p.Proper := hcut.proper p (List.mem_append_left others hmem)
  -- of the rules whose pieces are faults, only the one for stray characters is left
  cases hrule : p.rule with
  | word kind | comment | blank =>
    simp only [Piece.finding, hrule, Finding.fault?] at hfault
    cases hfault
  | openString => exact absurd hrule (hclosed p hmem)
  | other =>
    obtain ⟨c, htext, hfinding⟩ := Piece.finding_other hproper hrule
      (Place.start.past (before.flatMap Piece.text))
    rw [hfinding, Place.past_start] at hfault
    refine ⟨before.flatMap Piece.text, c, (after ++ others).flatMap Piece.text, ?_, ?_⟩
    · rw [← hcut.flatMap_text]
      simp [htext]
    · exact (Option.some.inj hfault).symm

/-- An open string at the end of the pieces is reported as such. -/
theorem reportsOpenString {source : String} {p : Piece} (hcut : Lexes source.toList (closed ++ [p]))
    (hrule : p.rule = .openString) : ∃ d, faultsOf (closed ++ [p]) = faultsOf closed ++ [d] ∧
      tokensOf (closed ++ [p]) = tokensOf closed ∧
      d.ReportsOpenString source (endTokenOf source) ∧
      d.span.start = (String.ofList (closed.flatMap Piece.text)).utf8ByteSize := by
  have hproper : p.Proper := hcut.proper p (by simp)
  have hsource := hcut.flatMap_text
  obtain ⟨rule, quoted⟩ := p
  cases hrule
  obtain ⟨content, hcontent, rfl⟩ := hproper.matched
  have hall : source.toList = closed.flatMap Piece.text ++ '"' :: content := by
    rw [← hsource]
    simp
  -- where the string ends is where the source ends
  have hstop : (Place.start.past (closed.flatMap Piece.text)).past ('"' :: content) =
      Place.start.past source.toList := by
    rw [hall, Place.past_append]
  refine ⟨_, by rw [faultsOf, findings_append, List.filterMap_append]; rfl, ?_, ?_, ?_⟩
  · rw [tokensOf, findings_append, List.filterMap_append]
    exact List.append_nil _
  · refine ⟨closed.flatMap Piece.text, content, hall, hcontent, ?_⟩
    simp only [Place.faultSpan, hstop, endTokenOf]
    simp only [Place.past_start, String.ofList_toList]
    rfl
  · simp only [Place.faultSpan, Place.past_start]

/-- A word begins before the end of the pieces it is among. -/
theorem start_lt_of_mem_tokensOf {others : List Piece} {t : Token}
    (hcut : Lexes text (closed ++ others)) (ht : t ∈ tokensOf closed) :
    t.span.start < (String.ofList (closed.flatMap Piece.text)).utf8ByteSize := by
  obtain ⟨f, hf, htoken⟩ := List.mem_filterMap.1 ht
  have hne : ∀ p ∈ closed, p.text ≠ [] := fun p hp =>
    hcut.text_ne_nil p (List.mem_append_left others hp)
  obtain ⟨-, hstart, hstop⟩ := span_of_mem_findings hne hf (Finding.span?_of_token? htoken)
  rw [Place.past_start] at hstop
  exact Nat.lt_of_lt_of_le hstart hstop

end Pieces

/-! ## The reports of a scan -/

section Fits

variable {source : String} {d : Diagnostic}

/-- The lines and columns within a source that is not too long fit 32 bits. -/
theorem fits_of_isPrefix {text : List Char} (hsize : source.length < UInt32.size - 1)
    (h : text <+: source.toList) : (Place.start.past text).line < UInt32.size ∧
      (Place.start.past text).column < UInt32.size := by
  obtain ⟨hline, hcolumn⟩ := Place.past_start_le text
  have hlength : text.length ≤ source.length := by
    rw [← String.length_toList]
    exact h.length_le
  omega

/-- A report of a scan is an error without notes, never about a number, at a line and a column that
fit 32 bits. -/
structure Diagnostic.IsScanError (d : Diagnostic) : Prop where
  severity_eq : d.severity = .error
  notes_eq : d.notes = []
  code_ne : d.code ≠ some .invalidNumber
  line_fits : d.span.line < UInt32.size
  column_fits : d.span.column < UInt32.size

/-- The place of a stray character is in the source, so it fits. -/
theorem Diagnostic.ReportsStray.isScanError (h : d.ReportsStray source)
    (hsize : source.length < UInt32.size - 1) : d.IsScanError := by
  obtain ⟨before, c, after, hall, rfl⟩ := h
  have hfits := fits_of_isPrefix hsize (hall ▸ List.prefix_append before (c :: after))
  rw [Place.past_start] at hfits
  have hcode : some DiagnosticCode.unexpectedCharacter ≠ some .invalidNumber := by decide
  exact ⟨rfl, rfl, hcode, hfits.1, hfits.2⟩

/-- An open string has the line of the end, and the column of its quote or of the end. -/
theorem Diagnostic.ReportsOpenString.isScanError
    (h : d.ReportsOpenString source (endTokenOf source)) (hsize : source.length < UInt32.size - 1) :
    d.IsScanError := by
  obtain ⟨before, content, hall, -, rfl⟩ := h
  have hquote := fits_of_isPrefix hsize (hall ▸ List.prefix_append before ('"' :: content))
  have hend := fits_of_isPrefix hsize (List.prefix_refl source.toList)
  rw [Place.past_start] at hquote
  have hcode : some DiagnosticCode.unterminatedString ≠ some .invalidNumber := by decide
  refine ⟨rfl, rfl, hcode, hend.1, ?_⟩
  show (if _ then _ else _) < UInt32.size
  split
  · exact hquote.2
  · exact hend.2

end Fits

/-- **Reports are exact.** Let `pieces` be the longest matches of a source (`Lexes`). What a scan
adds to a tolerant reporter is `faultsOf pieces`, each of them an `IsScanError`. First come the
stray characters, where each `ReportsStray`, and then, if a string is open at the end, the one
report that `ReportsOpenString`. No word begins at or behind an open string. -/
theorem tokenize_reports (source : String) (r : Reporter) (hsize : source.length < UInt32.size - 1)
    (hr : r.policy.panicOnError = false) :
    ∃ pieces words eof strays opened,
      Lexes source.toList pieces ∧ words = tokensOf pieces ∧
      strays ++ Option.toList opened = faultsOf pieces ∧
      (tokenize source r).result = .ok (words ++ [eof]) ∧ eof.kind = .endOfInput ∧
      (∀ t ∈ words, t.kind ≠ .endOfInput) ∧
      (tokenize source r).reporter =
        { r with kept := r.kept ++ (strays ++ Option.toList opened).toArray } ∧
      (∀ d ∈ strays, d.ReportsStray source ∧ d.IsScanError) ∧
      ∀ d ∈ opened, d.ReportsOpenString source eof ∧ d.IsScanError ∧
        ∀ t ∈ words, t.span.start < d.span.start := by
  obtain ⟨pieces, hcut⟩ := exists_lexes source
  -- all pieces but the last are closed, and the last is an open string if there is one
  obtain ⟨closed, last, rfl, hclosed, hlast⟩ := hcut.exists_closed
  have hresult := tokenize_runs (r := r) hcut (.inl hr)
  have hreporter := (tokenize_ok hcut hresult).2
  have hwords : ∀ t ∈ tokensOf (closed ++ last.toList), t.kind ≠ .endOfInput := fun t ht =>
    ne_endOfInput_of_mem_tokensOf hcut ht
  have hstrays : ∀ d ∈ faultsOf closed, d.ReportsStray source ∧ d.IsScanError := by
    intro d hd
    have hstray : d.ReportsStray source := reportsStray_of_mem hcut hclosed hd
    exact ⟨hstray, hstray.isScanError hsize⟩
  cases last with
  | none =>
    rw [Option.toList_none, List.append_nil] at hcut hresult hreporter hwords
    refine ⟨_, _, _, faultsOf closed, none, hcut, rfl, ?_, hresult, rfl, hwords, ?_, hstrays, nofun⟩
    · rw [Option.toList_none, List.append_nil]
    · rw [hreporter, Option.toList_none, List.append_nil]
  | some p =>
    obtain ⟨d, hfaults, htokens, hopen, hstart⟩ := reportsOpenString hcut (hlast p rfl)
    refine ⟨_, _, _, faultsOf closed, some d, hcut, rfl, ?_, hresult, rfl, hwords, ?_, hstrays, ?_⟩
    · rw [Option.toList_some, Option.toList_some, hfaults]
    · rw [hreporter, Option.toList_some, Option.toList_some, hfaults]
    · intro e he
      obtain rfl : d = e := Option.some.inj he
      refine ⟨hopen, hopen.isScanError hsize, fun t ht => ?_⟩
      rw [hstart]
      exact start_lt_of_mem_tokensOf hcut (htokens ▸ ht)

/-- A stray character of three bytes, and a string that is open over two lines. -/
theorem tokenize_reports_two_lines :
    "x\n€ \"a\nb".length < UInt32.size - 1 ∧ Reporter.new.policy.panicOnError = false ∧
    ∃ strays opened, (tokenize "x\n€ \"a\nb" Reporter.new).reporter.diagnostics =
        strays ++ Option.toList opened ∧
      (∀ d ∈ strays, d.ReportsStray "x\n€ \"a\nb") ∧
      (strays ++ opened.toList).map (·.span) = [⟨0, 1, 1, 1⟩, ⟨2, 5, 2, 1⟩, ⟨6, 10, 3, 2⟩] := by
  obtain ⟨_, words, eof, strays, opened, -, -, -, -, -, -, hreporter, hstrays, -⟩ :=
    tokenize_reports "x\n€ \"a\nb" Reporter.new (by decide) rfl
  have hkept : (tokenize "x\n€ \"a\nb" Reporter.new).reporter.diagnostics =
      strays ++ opened.toList := by
    rw [hreporter]
    simp [Reporter.diagnostics, Reporter.new, Reporter.withPolicy]
  have hspans : (tokenize "x\n€ \"a\nb" Reporter.new).reporter.diagnostics.map (·.span) =
      [⟨0, 1, 1, 1⟩, ⟨2, 5, 2, 1⟩, ⟨6, 10, 3, 2⟩] := by decide +kernel
  rw [hkept] at hspans
  exact ⟨by decide, rfl, strays, opened, hkept, fun d hd => (hstrays d hd).1, hspans⟩

end SourceScan
