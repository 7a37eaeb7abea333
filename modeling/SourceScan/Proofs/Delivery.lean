import SourceScan.Proofs.Cutting

/-!
# What a scan returns and reports

Delivery sends the tokens of a list of findings to the caller and the faults to a reporter.
**`deliver_ok`** says that a delivery which ran to its end did exactly this, whatever the reporter's
policy. It runs to its end if the reporter tolerates errors or there are none
(**`deliver_runs`**). Otherwise it goes as far as the policy lets it (**`deliver_reached`**,
**`deliver_halts_iff`**).

With the pieces of a source in hand, both become statements about a whole scan: **`tokenize_ok`**
and **`tokenize_runs`**.
-/

namespace SourceScan

/-- The token that was found, if it was one. -/
def Finding.token? : Finding → Option Token
  | token t => some t
  | fault _ => none
  | blank => none

/-- The diagnostic that was found, if it was one. -/
def Finding.fault? : Finding → Option Diagnostic
  | token _ => none
  | fault d => some d
  | blank => none

theorem Finding.span?_of_token? {f : Finding} {t : Token} (h : f.token? = some t) :
    f.span? = some t.span := by
  cases f <;> cases h
  rfl

theorem Finding.span?_of_fault? {f : Finding} {d : Diagnostic} (h : f.fault? = some d) :
    f.span? = some d.span := by
  cases f <;> cases h
  rfl

/-- The tokens among the findings of the pieces of a source. -/
def tokensOf (pieces : List Piece) : List Token :=
  (findings .start pieces).filterMap Finding.token?

/-- The diagnostics among the findings of the pieces of a source. -/
def faultsOf (pieces : List Piece) : List Diagnostic :=
  (findings .start pieces).filterMap Finding.fault?

/-- The token that closes the list: without text or value, behind the last character. -/
def endTokenOf (source : String) : Token :=
  let stop := Place.start.past source.toList
  .new .endOfInput "" none ⟨source.utf8ByteSize, source.utf8ByteSize, stop.line, stop.column⟩

/-- The token that closes the list when a scan ends at a place. -/
def Place.endToken (here : Place) : Token := .endOfInput here.line here.column here.offset

/-- Both are the same at the end of a source. -/
theorem endTokenOf_eq (source : String) :
    endTokenOf source = (Place.start.past source.toList).endToken := by
  have hoffset : (Place.start.past source.toList).offset = source.utf8ByteSize := by
    rw [Place.offset_past_start, String.ofList_toList]
  rw [Place.endToken, hoffset]
  rfl

/-- Each token is a word of the source, spelled as its kind demands, with the value of that
spelling and the span of its text. -/
theorem mem_tokensOf {text : List Char} {pieces : List Piece} {t : Token} (hcut : Lexes text pieces)
    (ht : t ∈ tokensOf pieces) :
    ∃ before word after, text = before ++ word ++ after ∧ t.kind.Spells word ∧
      t = .new t.kind (String.ofList word) (t.kind.literal? word)
        ((Place.start.past before).span word) := by
  obtain ⟨f, hf, htoken⟩ := List.mem_filterMap.1 ht
  obtain ⟨before, p, after, rfl, hp, rfl⟩ := mem_findings hcut hf
  obtain ⟨rule, word⟩ := p
  -- of the findings only those of words are tokens
  cases rule with
  | word kind =>
    cases htoken
    exact ⟨before, word, after, rfl, hp.matched, rfl⟩
  | comment | blank | openString | other => cases htoken

/-- No word is the end of the input. -/
theorem ne_endOfInput_of_mem_tokensOf {text : List Char} {pieces : List Piece} {t : Token}
    (hcut : Lexes text pieces) (ht : t ∈ tokensOf pieces) : t.kind ≠ .endOfInput := by
  obtain ⟨_, _, _, -, hspells, -⟩ := mem_tokensOf hcut ht
  exact hspells.ne_endOfInput

/-- Words end within the text. -/
theorem stop_le_of_mem_tokensOf {text : List Char} {pieces : List Piece} {t : Token}
    (hcut : Lexes text pieces) (ht : t ∈ tokensOf pieces) :
    t.span.stop ≤ (String.ofList text).utf8ByteSize := by
  obtain ⟨f, hf, htoken⟩ := List.mem_filterMap.1 ht
  obtain ⟨-, -, hstop⟩ := span_of_mem_findings hcut.text_ne_nil hf (Finding.span?_of_token? htoken)
  rwa [hcut.flatMap_text, Place.past_start] at hstop

/-- Faults end within the text. -/
theorem stop_le_of_mem_faultsOf {text : List Char} {pieces : List Piece} {d : Diagnostic}
    (hcut : Lexes text pieces) (hd : d ∈ faultsOf pieces) :
    d.span.stop ≤ (String.ofList text).utf8ByteSize := by
  obtain ⟨f, hf, hfault⟩ := List.mem_filterMap.1 hd
  obtain ⟨-, -, hstop⟩ := span_of_mem_findings hcut.text_ne_nil hf (Finding.span?_of_fault? hfault)
  rwa [hcut.flatMap_text, Place.past_start] at hstop

/-- A policy does not tolerate a diagnostic. -/
def Policy.HaltsOn (p : Policy) (d : Diagnostic) : Prop :=
  p.panicOnError = true ∧ d.severity = .error

instance (p : Policy) (d : Diagnostic) : Decidable (p.HaltsOn d) :=
  inferInstanceAs (Decidable (_ ∧ _))

/-- `Policy.HaltsOn` is what `Reporter.emit` tests. -/
theorem Policy.haltsOn_iff {p : Policy} {d : Diagnostic} :
    p.HaltsOn d ↔ (p.panicOnError && d.severity.isError) = true := by
  rw [HaltsOn, Bool.and_eq_true]
  cases d.severity <;> simp [Severity.isError]

namespace Reporter

/-- A diagnostic that halts is not kept. -/
theorem emit_of_haltsOn {r : Reporter} {d : Diagnostic} (h : r.policy.HaltsOn d) :
    (r.emit d).result = .error ⟨d⟩ ∧ (r.emit d).reporter = r := by
  rw [emit, if_pos (Policy.haltsOn_iff.1 h)]
  exact ⟨rfl, rfl⟩

/-- Any other diagnostic is. -/
theorem emit_of_not_haltsOn {r : Reporter} {d : Diagnostic} (h : ¬ r.policy.HaltsOn d) :
    (r.emit d).result = .ok () ∧ (r.emit d).reporter = { r with kept := r.kept.push d } := by
  rw [emit, if_neg (mt Policy.haltsOn_iff.2 h)]
  exact ⟨rfl, rfl⟩

/-- What did not halt has been kept. -/
theorem reporter_emit_of_ok {r : Reporter} {d : Diagnostic} (h : (r.emit d).result = .ok ()) :
    (r.emit d).reporter = { r with kept := r.kept.push d } := by
  by_cases hhalt : r.policy.HaltsOn d
  · rw [(emit_of_haltsOn hhalt).1] at h
    cases h
  · exact (emit_of_not_haltsOn hhalt).2

/-- Without `panicOnError` nothing halts. -/
theorem emit_of_tolerant {r : Reporter} (d : Diagnostic) (h : r.policy.panicOnError = false) :
    (r.emit d).result = .ok () := by
  refine (emit_of_not_haltsOn ?_).1
  rintro ⟨hpanic, -⟩
  rw [h] at hpanic
  cases hpanic

/-- **A delivery that ran to its end** returned the tokens and kept the faults, all in order. The
induction is on the findings, for every reporter, since a fault goes to the rest with another
one. -/
theorem deliver_ok {r : Reporter} {found : List Finding} {words : List Token}
    (h : (r.deliver found).result = .ok words) :
    words = found.filterMap Finding.token? ∧
      (r.deliver found).reporter =
        { r with kept := r.kept ++ (found.filterMap Finding.fault?).toArray } := by
  induction found generalizing r words with
  | nil =>
    cases h
    exact ⟨rfl, by simp [deliver]⟩
  | cons f found ih =>
    cases f with
    | blank => exact ih h
    | token t =>
      -- a token in front changes nothing about the rest, which must have succeeded
      simp only [deliver] at h ⊢
      cases hrest : (r.deliver found).result with
      | error halt =>
        rw [hrest] at h
        cases h
      | ok others =>
        rw [hrest] at h
        cases h
        obtain ⟨rfl, hkept⟩ := ih hrest
        exact ⟨rfl, hkept⟩
    | fault d =>
      simp only [deliver] at h ⊢
      cases hemit : (r.emit d).result with
      | error halt =>
        rw [hemit] at h
        cases h
      | ok _ =>
        rw [hemit] at h
        -- the rest goes to a reporter that has kept the fault
        obtain ⟨rfl, hkept⟩ := ih h
        refine ⟨rfl, ?_⟩
        show ((r.emit d).reporter.deliver found).reporter = _
        rw [hkept, reporter_emit_of_ok hemit]
        simp [Finding.fault?]

/-- **A delivery runs to its end** if errors do not halt, or if there are no faults. -/
theorem deliver_runs {r : Reporter} {found : List Finding}
    (h : r.policy.panicOnError = false ∨ found.filterMap Finding.fault? = []) :
    ∃ words, (r.deliver found).result = .ok words := by
  induction found generalizing r with
  | nil => exact ⟨[], rfl⟩
  | cons f found ih =>
    cases f with
    | blank => exact ih h
    | token t =>
      obtain ⟨words, hwords⟩ := ih h
      exact ⟨t :: words, by simp only [deliver, hwords]; rfl⟩
    | fault d =>
      rcases h with h | h
      · -- the reporter keeps its policy, so it goes on tolerating
        have hemit := emit_of_tolerant d h
        have hpolicy : (r.emit d).reporter.policy.panicOnError = false := by
          rw [reporter_emit_of_ok hemit]
          exact h
        obtain ⟨words, hwords⟩ := ih (.inl hpolicy)
        exact ⟨words, by simp only [deliver, hemit, hwords]⟩
      · cases h

end Reporter

/-! ## Deliveries that may halt -/

namespace Policy

/-- How far a list of diagnostics is reported: up to the first that halts, and no further. -/
def reached (p : Policy) : List Diagnostic → List Diagnostic
  | [] => []
  | d :: others => if p.HaltsOn d then [d] else d :: p.reached others

/-- The diagnostics that do not halt. -/
def tolerated (p : Policy) (ds : List Diagnostic) : List Diagnostic :=
  ds.filter fun d => ¬ p.HaltsOn d

variable {p : Policy} {d : Diagnostic} {ds : List Diagnostic}

theorem tolerated_cons_of_haltsOn (h : p.HaltsOn d) : p.tolerated (d :: ds) = p.tolerated ds := by
  rw [tolerated, List.filter_cons_of_neg (by simpa using h)]
  rfl

theorem tolerated_cons_of_not_haltsOn (h : ¬ p.HaltsOn d) :
    p.tolerated (d :: ds) = d :: p.tolerated ds := by
  rw [tolerated, List.filter_cons_of_pos (by simpa using h)]
  rfl

end Policy

namespace Reporter

/-- **A delivery** hands over the faults up to the first that halts. The others before it are
kept. -/
theorem deliver_reached (r : Reporter) (found : List Finding) :
    (r.deliver found).reporter = { r with kept := r.kept ++
      (r.policy.tolerated (r.policy.reached (found.filterMap Finding.fault?))).toArray } := by
  induction found generalizing r with
  | nil => simp [deliver, Policy.reached, Policy.tolerated]
  | cons f found ih =>
    cases f with
    | blank => exact ih r
    | token t => exact ih r
    | fault e =>
      have hfaults : (Finding.fault e :: found).filterMap Finding.fault? =
        e :: found.filterMap Finding.fault? := rfl
      by_cases hhalt : r.policy.HaltsOn e
      · -- nothing behind this fault is reached, and the fault itself is not kept
        obtain ⟨hresult, hreporter⟩ := emit_of_haltsOn hhalt
        have hnone : r.policy.tolerated [e] = [] := Policy.tolerated_cons_of_haltsOn hhalt
        simp only [deliver, hresult, hreporter, hfaults, Policy.reached, if_pos hhalt, hnone]
        simp
      · obtain ⟨hresult, hreporter⟩ := emit_of_not_haltsOn hhalt
        simp only [deliver, hresult, hreporter, hfaults, Policy.reached, if_neg hhalt,
          Policy.tolerated_cons_of_not_haltsOn hhalt, ih]
        simp

/-- A delivery halts with the fault that the policy does not tolerate, if it comes to one. -/
theorem deliver_halts_iff (r : Reporter) (found : List Finding) (d : Diagnostic) :
    (r.deliver found).result = .error ⟨d⟩ ↔
      d ∈ r.policy.reached (found.filterMap Finding.fault?) ∧ r.policy.HaltsOn d := by
  induction found generalizing r with
  | nil => simp [deliver, Policy.reached]
  | cons f found ih =>
    cases f with
    | blank => exact ih r
    | token t =>
      refine Iff.trans ?_ (ih r)
      simp only [deliver]
      cases (r.deliver found).result <;> simp [Except.map]
    | fault e =>
      have hfaults : (Finding.fault e :: found).filterMap Finding.fault? =
        e :: found.filterMap Finding.fault? := rfl
      by_cases hhalt : r.policy.HaltsOn e
      · -- this fault halts, and it is the only one reached that does
        obtain ⟨hresult, hreporter⟩ := emit_of_haltsOn hhalt
        simp only [deliver, hresult, hfaults, Policy.reached, if_pos hhalt, List.mem_singleton]
        constructor
        · intro h
          cases h
          exact ⟨rfl, hhalt⟩
        · rintro ⟨rfl, -⟩
          rfl
      · obtain ⟨hresult, hreporter⟩ := emit_of_not_haltsOn hhalt
        simp only [deliver, hresult, hreporter, hfaults, Policy.reached, if_neg hhalt,
          List.mem_cons]
        rw [ih]
        -- a fault that halts is not this one, so it is reached behind it
        constructor
        · rintro ⟨hmem, hd⟩
          exact ⟨.inr hmem, hd⟩
        · rintro ⟨rfl | hmem, hd⟩
          · exact absurd hd hhalt
          · exact ⟨hmem, hd⟩

end Reporter

/-! ## Scans -/

section Scans

variable {source : String} {r : Reporter} {pieces : List Piece}

/-- **Every source can be cut into longest matches:** its steps do so. -/
theorem exists_lexes (source : String) : ∃ pieces, Lexes source.toList pieces := by
  obtain ⟨pieces, hlexes, -, -⟩ := (Cursor.start source).read_cuts
  rw [Cursor.rest_start] at hlexes
  exact ⟨pieces, hlexes⟩

/-- The findings of a reading are those of the pieces of its source. -/
theorem reading_eq (hcut : Lexes source.toList pieces) :
    (Reading.of source).findings = findings .start pieces ∧
      (Reading.of source).endToken = endTokenOf source := by
  -- the steps cut the source, and there is one way to cut it
  obtain ⟨others, hlexes, hfound, hwalk⟩ := (Cursor.start source).read_cuts
  rw [Cursor.rest_start] at hlexes hwalk
  rw [hcut.unique hlexes]
  refine ⟨hfound, ?_⟩
  show Token.endOfInput _ _ _ = endTokenOf source
  have hoffset : (Reading.of source).stop.offset = source.utf8ByteSize := by
    rw [Reading.of, hwalk.offset_eq, Cursor.place_start, Place.offset_past_start,
      String.ofList_toList]
  rw [endTokenOf, hoffset, ← Cursor.place_start, ← hwalk.place_eq]
  rfl

/-- Of a scan, the result is that of its delivery with the end of the input behind it. -/
theorem tokenize_result_deliver (source : String) (r : Reporter) : (tokenize source r).result =
    (r.deliver (Reading.of source).findings).result.map (· ++ [(Reading.of source).endToken]) := by
  simp only [tokenize]
  cases (r.deliver (Reading.of source).findings).result <;> rfl

/-- Of a scan, the reporter is that of its delivery. -/
theorem tokenize_reporter_deliver (source : String) (r : Reporter) :
    (tokenize source r).reporter = (r.deliver (Reading.of source).findings).reporter := by
  simp only [tokenize]
  cases (r.deliver (Reading.of source).findings).result <;> rfl

theorem tokenize_result (hcut : Lexes source.toList pieces) : (tokenize source r).result =
    (r.deliver (findings .start pieces)).result.map (· ++ [endTokenOf source]) := by
  rw [tokenize_result_deliver, (reading_eq hcut).1, (reading_eq hcut).2]

theorem tokenize_reporter (hcut : Lexes source.toList pieces) :
    (tokenize source r).reporter = (r.deliver (findings .start pieces)).reporter := by
  rw [tokenize_reporter_deliver, (reading_eq hcut).1]

/-- **A scan that returned tokens** returned `tokensOf` the pieces of its source and behind them
`endTokenOf` it, and `faultsOf` the pieces is what the reporter has kept in addition. -/
theorem tokenize_ok {tokens : List Token} (hcut : Lexes source.toList pieces)
    (h : (tokenize source r).result = .ok tokens) :
    tokens = tokensOf pieces ++ [endTokenOf source] ∧
      (tokenize source r).reporter = { r with kept := r.kept ++ (faultsOf pieces).toArray } := by
  rw [tokenize_result hcut] at h
  cases hwords : (r.deliver (findings .start pieces)).result with
  | error halt =>
    rw [hwords] at h
    cases h
  | ok words =>
    rw [hwords] at h
    cases h
    obtain ⟨rfl, hkept⟩ := Reporter.deliver_ok hwords
    exact ⟨rfl, (tokenize_reporter hcut).trans hkept⟩

/-- **A scan returns tokens** if the reporter tolerates errors, or if there are none. -/
theorem tokenize_runs (hcut : Lexes source.toList pieces)
    (h : r.policy.panicOnError = false ∨ faultsOf pieces = []) :
    (tokenize source r).result = .ok (tokensOf pieces ++ [endTokenOf source]) := by
  obtain ⟨words, hwords⟩ := Reporter.deliver_runs h
  rw [tokenize_result hcut, hwords, (Reporter.deliver_ok hwords).1]
  rfl

theorem exists_tokens_of_tolerant (source : String) (h : r.policy.panicOnError = false) :
    ∃ tokens, (tokenize source r).result = .ok tokens := by
  obtain ⟨pieces, hcut⟩ := exists_lexes source
  exact ⟨_, tokenize_runs hcut (.inl h)⟩

/-- What a scan returns are the words of its source and the end of the input. -/
theorem mem_tokens_of_ok {tokens : List Token} {t : Token} (hcut : Lexes source.toList pieces)
    (h : (tokenize source r).result = .ok tokens) (ht : t ∈ tokens) :
    t ∈ tokensOf pieces ∨ t = endTokenOf source := by
  rw [(tokenize_ok hcut h).1] at ht
  simpa using ht

end Scans

end SourceScan
