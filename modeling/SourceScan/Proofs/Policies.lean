import SourceScan.Proofs.Delivery

/-!
# Reporters do not influence a scan

Nothing that a scan finds depends on the reporter. Whatever a tolerant reporter holds and whether it
echoes, it gets the same reports, and the caller gets the same tokens.

A reporter that halts does so at the first error. So its scan follows from that of a tolerant one:
if no report is added there, the halting reporter gives the same tokens, and otherwise it halts with
the first report. In both cases it keeps what it had.

**`deliver_halts`** is the only new fact. Faults are not mixed with warnings or notes
(**`severity_of_mem_faultsOf`**), so the first fault is what halts.
-/

namespace SourceScan

/-- Both kinds of faulty pieces are reported as errors. -/
theorem Piece.severity_of_finding {here : Place} {p : Piece} {d : Diagnostic}
    (h : (p.finding here).fault? = some d) : d.severity = .error := by
  obtain ⟨rule, text⟩ := p
  cases rule with
  | word | comment | blank => cases h
  | openString | other =>
    cases h
    rfl

/-- **All faults of a source are errors.** -/
theorem severity_of_mem_faultsOf {pieces : List Piece} {d : Diagnostic} (hd : d ∈ faultsOf pieces) :
    d.severity = .error := by
  obtain ⟨f, hf, hfault⟩ := List.mem_filterMap.1 hd
  obtain ⟨before, p, after, -, rfl⟩ := exists_of_mem_findings hf
  exact Piece.severity_of_finding hfault

/-- **The first fault ends the delivery** to a reporter that halts on errors, and is not kept. -/
theorem Reporter.deliver_halts {r : Reporter} {found : List Finding} {d : Diagnostic}
    {others : List Diagnostic} (hr : r.policy.panicOnError = true)
    (hfirst : found.filterMap Finding.fault? = d :: others) (hd : d.severity = .error) :
    (r.deliver found).result = .error ⟨d⟩ ∧ (r.deliver found).reporter = r := by
  have hhalt : r.policy.HaltsOn d := ⟨hr, hd⟩
  have hreached : r.policy.reached (found.filterMap Finding.fault?) = [d] := by
    rw [hfirst, Policy.reached, if_pos hhalt]
  have hnone : r.policy.tolerated [d] = [] := Policy.tolerated_cons_of_haltsOn hhalt
  constructor
  · rw [deliver_halts_iff, hreached]
    exact ⟨List.mem_singleton_self d, hhalt⟩
  · rw [deliver_reached, hreached, hnone]
    simp

/-- **One scan for all reporters.** Let `tokens` and `faults` be what a scan with `Reporter.new`
returns and keeps. Reporters `r` and `s` that do not panic on errors, with anything in them and
echoing or not, give the same `tokens` and keep `faults` behind what they hold. A reporter `p` that
panics on errors is left as it was. It gives `tokens` if there are no `faults`, and otherwise a
`Halt` whose message is that of the first. -/
theorem tokenize_any_reporter (source : String) (r s p : Reporter)
    (hr : r.policy.panicOnError = false) (hs : s.policy.panicOnError = false)
    (hp : p.policy.panicOnError = true) :
    ∃ tokens faults,
      (tokenize source .new).result = .ok tokens ∧
      (tokenize source .new).reporter.diagnostics = faults ∧
      ((tokenize source r).result = .ok tokens ∧
        (tokenize source r).reporter = { r with kept := r.kept ++ faults.toArray }) ∧
      ((tokenize source s).result = .ok tokens ∧
        (tokenize source s).reporter = { s with kept := s.kept ++ faults.toArray }) ∧
      (faults = [] → (tokenize source p).result = .ok tokens ∧ (tokenize source p).reporter = p) ∧
      ∀ d others, faults = d :: others → (∃ halt, (tokenize source p).result = .error halt ∧
        halt.message = "Diagnostic error: " ++ toString d) ∧ (tokenize source p).reporter = p := by
  obtain ⟨pieces, hcut⟩ := exists_lexes source
  -- without `panicOnError` a scan depends on its pieces alone
  have tolerant {q : Reporter} (hq : q.policy.panicOnError = false) :
      (tokenize source q).result = .ok (tokensOf pieces ++ [endTokenOf source]) ∧
        (tokenize source q).reporter = { q with kept := q.kept ++ (faultsOf pieces).toArray } := by
    have hresult := tokenize_runs hcut (.inl hq)
    exact ⟨hresult, (tokenize_ok hcut hresult).2⟩
  obtain ⟨hnew, hreports⟩ := tolerant (q := .new) rfl
  refine ⟨_, faultsOf pieces, hnew, ?_, tolerant hr, tolerant hs, ?_, ?_⟩
  · rw [hreports, Reporter.diagnostics, Array.toList_append]
    rfl
  · intro hnone
    have hresult := tokenize_runs (r := p) hcut (.inr hnone)
    refine ⟨hresult, ?_⟩
    rw [(tokenize_ok hcut hresult).2, hnone, Array.append_empty]
  · intro d others hfirst
    have hd : d.severity = .error := severity_of_mem_faultsOf (hfirst ▸ List.mem_cons_self)
    obtain ⟨hresult, hreporter⟩ := Reporter.deliver_halts hp hfirst hd
    refine ⟨⟨⟨d⟩, ?_, rfl⟩, ?_⟩
    · rw [tokenize_result hcut, hresult]
      rfl
    · rw [tokenize_reporter hcut, hreporter]

/-- Two faults, and reporters that hold something already. -/
theorem tokenize_any_reporter_two_faults :
    let held : Array Diagnostic := #[.warning "old" (.point 7 0)]
    let tokens : List Token :=
      [.new .number "1" (some (.number ⟨0x3FF0000000000000⟩)) ⟨0, 1, 1, 1⟩, .endOfInput 2 4 5]
    let faults : List Diagnostic :=
      [⟨.error, "Unexpected character.", ⟨2, 3, 2, 1⟩, some .unexpectedCharacter, []⟩,
        ⟨.error, "Unterminated string.", ⟨4, 5, 2, 3⟩, some .unterminatedString, []⟩]
    (Reporter.mk ⟨false, true⟩ held).policy.panicOnError = false ∧
    Reporter.new.policy.panicOnError = false ∧
    (Reporter.mk ⟨true, false⟩ held).policy.panicOnError = true ∧
    (tokenize "1\n@ \"" .new).result = .ok tokens ∧
    (tokenize "1\n@ \"" ⟨⟨false, true⟩, held⟩).result = .ok tokens ∧
    (tokenize "1\n@ \"" ⟨⟨false, true⟩, held⟩).reporter.kept = held ++ faults.toArray ∧
    (∃ halt, (tokenize "1\n@ \"" ⟨⟨true, false⟩, held⟩).result = .error halt ∧
      halt.message = "Diagnostic error: [line 2] Error: Unexpected character.") ∧
    (tokenize "1\n@ \"" ⟨⟨true, false⟩, held⟩).reporter.kept = held := by
  intro held tokens faults
  obtain ⟨found, reports, hnew, hreports, ⟨hechoing, hadded⟩, -, -, hhalts⟩ :=
    tokenize_any_reporter "1\n@ \"" ⟨⟨false, true⟩, held⟩ .new ⟨⟨true, false⟩, held⟩ rfl rfl rfl
  have htokens : (tokenize "1\n@ \"" .new).result = .ok tokens := by decide +kernel
  have hfaults : (tokenize "1\n@ \"" .new).reporter.diagnostics = faults := by decide +kernel
  obtain rfl : found = tokens := Except.ok.inj (hnew.symm.trans htokens)
  obtain rfl : reports = faults := hreports.symm.trans hfaults
  obtain ⟨⟨halt, hresult, hmessage⟩, hkept⟩ := hhalts _ _ rfl
  refine ⟨rfl, rfl, rfl, htokens, hechoing, ?_, ⟨halt, hresult, ?_⟩, ?_⟩
  · rw [hadded]
  · rw [hmessage]
    decide
  · rw [hkept]

end SourceScan
