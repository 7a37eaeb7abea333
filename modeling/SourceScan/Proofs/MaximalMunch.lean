import SourceScan.Proofs.Delivery

/-!
# A scan is the maximal munch lexer of the grammar

The main result of the theory of single scans. On the one side stands `tokenize`: five small
scanners behind a dispatch on the first character, each with its own look-ahead. On the other side
stands the grammar, cut out by the longest match and nothing else.
-/

namespace SourceScan

/-- **Scanning is maximal munch.** There is exactly one way to cut a source into longest matches
(`Lexes`). For a policy that does not panic on errors `tokenize` returns `tokensOf` these pieces,
closed by `endTokenOf` the source, and adds `faultsOf` them to what the reporter has kept. Among the
words no token is an end of the input, and those with a value are the literals. -/
theorem tokenize_eq_maximal_munch (source : String) (r : Reporter)
    (hr : r.policy.panicOnError = false) :
    ∃ pieces, Lexes source.toList pieces ∧ (∀ others, Lexes source.toList others → others = pieces) ∧
      (tokenize source r).result = .ok (tokensOf pieces ++ [endTokenOf source]) ∧
      (tokenize source r).reporter = { r with kept := r.kept ++ (faultsOf pieces).toArray } ∧
      ∀ t ∈ tokensOf pieces, t.kind ≠ .endOfInput ∧ t.literal.isSome = t.kind.isLiteral := by
  obtain ⟨pieces, hcut⟩ := exists_lexes source
  have hresult := tokenize_runs hcut (.inl hr)
  refine ⟨pieces, hcut, fun others h => h.unique hcut, hresult, (tokenize_ok hcut hresult).2, ?_⟩
  intro t ht
  -- a word is spelled as its kind demands, and its value is that of the spelling
  obtain ⟨before, word, after, -, hspells, heq⟩ := mem_tokensOf hcut ht
  refine ⟨hspells.ne_endOfInput, ?_⟩
  rw [heq]
  exact hspells.isSome_literal?

/-- A source with a number, a stray letter of two bytes, a comment, a two-character mark and an open
string. -/
theorem tokenize_eq_maximal_munch_mixed : Reporter.new.policy.panicOnError = false ∧
    ∃ pieces, Lexes "1.5é//x\n!=\"a".toList pieces ∧
      (tokensOf pieces).map (fun t => (t.lexeme, t.span.start, t.span.stop)) =
        [("1.5", 0, 3), ("!=", 9, 11)] ∧
      (faultsOf pieces).map (fun d => (d.code, d.span)) =
        [(some DiagnosticCode.unexpectedCharacter, Span.mk 3 5 1 4),
          (some DiagnosticCode.unterminatedString, Span.mk 11 13 2 3)] := by
  obtain ⟨pieces, hcut, -, hresult, hreporter, -⟩ :=
    tokenize_eq_maximal_munch "1.5é//x\n!=\"a" Reporter.new rfl
  have htokens : (tokenize "1.5é//x\n!=\"a" Reporter.new).result.toOption.map
      (·.dropLast.map fun t => (t.lexeme, t.span.start, t.span.stop)) =
        some [("1.5", 0, 3), ("!=", 9, 11)] := by decide +kernel
  have hfaults : (tokenize "1.5é//x\n!=\"a" Reporter.new).reporter.kept.toList.map
      (fun d => (d.code, d.span)) = [(some DiagnosticCode.unexpectedCharacter, Span.mk 3 5 1 4),
        (some DiagnosticCode.unterminatedString, Span.mk 11 13 2 3)] := by decide +kernel
  rw [hresult] at htokens
  rw [hreporter] at hfaults
  refine ⟨rfl, pieces, hcut, ?_, ?_⟩
  · simpa [Except.toOption] using htokens
  · simpa [Reporter.new, Reporter.withPolicy] using hfaults

end SourceScan
