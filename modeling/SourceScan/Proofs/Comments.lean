import SourceScan.Proofs.Lines

/-!
# Comments

A comment may be put at the end of every line that does not end inside a string, and it may say
anything. What is read is the same with the comment and without: the same words and the same
reports, on the same lines and in the same columns. Only the bytes behind the comment stand further
on, by as many as the comment has.

There is one way to put a comment there that does not work. A line that ends in a slash would make
a comment of that slash.

* **`Lexes.append_comment`**: the comment is a piece of its own, or it becomes part of the comment
  that the line ends with. Neither says anything.
* **`endTokenOf_line_comment`**: the next line has the same number.
-/

namespace SourceScan

/-! ## Cutting a line with a comment -/

/-- Two lists of pieces in which the same words and the same faults are found, wherever the pieces
begin. -/
structure FindAlike (pieces others : List Piece) : Prop where
  tokens : ∀ here, (findings here pieces).filterMap Finding.token? =
    (findings here others).filterMap Finding.token?
  faults : ∀ here, (findings here pieces).filterMap Finding.fault? =
    (findings here others).filterMap Finding.fault?

/-- A piece in front of both changes nothing about that. -/
theorem FindAlike.cons {pieces others : List Piece} (h : FindAlike pieces others) (p : Piece) :
    FindAlike (p :: pieces) (p :: others) := by
  constructor
  · intro here
    rw [findings, findings, List.filterMap_cons, List.filterMap_cons, h.tokens]
  · intro here
    rw [findings, findings, List.filterMap_cons, List.filterMap_cons, h.faults]

/-- A comment by itself is cut into this comment. -/
theorem lexes_comment {text : List Char} (h : Rule.comment.Matches text) :
    Lexes text [⟨.comment, text⟩] := by
  have hmunch : Munches (text ++ []) ⟨.comment, text⟩ :=
    (munches_iff (p := ⟨.comment, text⟩)).2 ⟨⟨h, nofun⟩, .inl rfl⟩
  rw [List.append_nil] at hmunch
  exact .cons (p := ⟨.comment, text⟩) (List.append_nil text).symm hmunch .nil

/-- **A comment behind a text** that has no open string and does not end in a slash. The induction
is on the pieces of the text; only the last of them has the comment right behind it. -/
theorem Lexes.append_comment {text body : List Char} {pieces : List Piece} (h : Lexes text pieces)
    (hbody : '\n' ∉ body) (hopen : ∀ p ∈ pieces, p.rule ≠ .openString)
    (hslash : ∀ p, pieces.getLast? = some p → p.rule ≠ .word .slash) :
    ∃ others, Lexes (text ++ '/' :: '/' :: body) others ∧
      (∀ p ∈ others, p.rule ≠ .openString) ∧ FindAlike others pieces := by
  induction h with
  | nil => exact ⟨_, lexes_comment ⟨body, hbody, rfl⟩, by simp, fun _ => rfl, fun _ => rfl⟩
  | @cons text after p pieces cut first rest ih =>
    obtain ⟨hp, hpieces⟩ := List.forall_mem_cons.1 hopen
    subst cut
    by_cases hlast : p.rule = .comment ∧ after = []
    · -- the text ends in a comment, and this comment goes on
      obtain ⟨hrule, rfl⟩ := hlast
      obtain rfl := rest.unique .nil
      obtain ⟨line, hline, htext⟩ : Rule.comment.Matches p.text := hrule ▸ first.matched
      have hlonger : Rule.comment.Matches (p.text ++ '/' :: '/' :: body) := by
        refine ⟨line ++ '/' :: '/' :: body, ?_, by rw [htext]; rfl⟩
        simp [hline, hbody]
      refine ⟨_, List.append_nil p.text ▸ lexes_comment hlonger, by simp, ?_⟩
      obtain ⟨rule, quoted⟩ := p
      cases hrule
      exact ⟨fun _ => rfl, fun _ => rfl⟩
    · have hbehind : ∀ q, pieces.getLast? = some q → q.rule ≠ .word .slash := by
        intro q hq
        refine hslash q ?_
        rw [List.getLast?_cons, hq]
        rfl
      obtain ⟨others, hcut, hothers, halike⟩ := ih hpieces hbehind
      -- `p` is no slash if the comment comes right behind it, and no comment then
      obtain ⟨hproper, hends⟩ := munches_iff.1 first
      have hfollowed : p.Ends (after ++ '/' :: '/' :: body) := by
        refine hends.append hp (fun hnil => ?_) rfl
        have halone : (p :: pieces).getLast? = some p := by
          subst hnil
          rw [rest.unique .nil]
          rfl
        exact Piece.ends_cons hp rfl (by decide) (by decide)
          (fun hrule => absurd hrule (hslash p halone)) fun hrule => absurd ⟨hrule, hnil⟩ hlast
      refine ⟨p :: others, ?_, List.forall_mem_cons.2 ⟨hp, hothers⟩, halike.cons p⟩
      rw [List.append_assoc]
      exact .cons rfl (munches_iff.2 ⟨hproper, hfollowed⟩) hcut

/-- The last piece of a text is a slash only if the last word is one, at the end of the text. -/
theorem rule_ne_slash_of_tokensOf {source : String} {pieces : List Piece}
    (hcut : Lexes source.toList pieces) (h : ∀ t, (tokensOf pieces).getLast? = some t →
      ¬ (t.kind = .slash ∧ t.span.stop = source.utf8ByteSize)) :
    ∀ p, pieces.getLast? = some p → p.rule ≠ .word .slash := by
  intro p hp hrule
  obtain ⟨before, rfl⟩ := List.getLast?_eq_some_iff.1 hp
  let here := Place.start.past (before.flatMap Piece.text)
  have hfound : tokensOf (before ++ [p]) =
      tokensOf before ++ [.new .slash (String.ofList p.text) none (here.span p.text)] := by
    rw [tokensOf, findings_append, List.filterMap_append]
    refine congrArg _ ?_
    rw [findings, List.filterMap_cons, Piece.finding, hrule]
    rfl
  refine h _ (by rw [hfound, List.getLast?_concat]) ⟨rfl, ?_⟩
  -- the text ends where its last piece ends
  have hwhole : before.flatMap Piece.text ++ p.text = source.toList := by
    rw [← hcut.flatMap_text]
    simp
  show (here.past p.text).offset = source.utf8ByteSize
  rw [← Place.past_append, hwhole, Place.past_start, String.ofList_toList]

/-! ## Behind the line -/

/-- A comment does not end the line. -/
theorem endTokenOf_line_comment (p : String) {c : String} (hc : '\n' ∉ c.toList) :
    (endTokenOf (p ++ "//" ++ c)).line = (endTokenOf p).line := by
  have hcount : (p ++ "//" ++ c).toList.count '\n' = p.toList.count '\n' := by
    rw [String.toList_append, String.toList_append, List.count_append, List.count_append,
      List.count_eq_zero.2 hc]
    rfl
  show (Place.start.past (p ++ "//" ++ c).toList).line = (Place.start.past p.toList).line
  rw [Place.line_past, Place.line_past, hcount]

/-- What stands below a line stands behind it, with all its bytes. -/
theorem start_lt_shift (s : Span) (bytes lines : Nat) :
    bytes < (s.shift (bytes + 1) lines).start := by
  show bytes < s.start + (bytes + 1)
  omega

/-- **Comments influence nothing.** Let `words` and `faults` be what a scan of `p` returns and adds,
with no `unterminatedString` among the faults, and no slash at the end of `p` as the last word. Let
`c` have no newline. Then `p ++ "\n" ++ s` gives `words` and some tokens `below`, and `faults` and
some reports `more`. With `"//" ++ c` put behind `p` the tokens are `words` and those `below` under
`Token.shift`, by the bytes of the comment and no line, and the reports are `faults` and `more`
under `Diagnostic.shift`. What is not shifted ends within `p`, and what is shifted begins behind
it. -/
theorem tokenize_line_comment (p c s : String) (rp r r' : Reporter) (words : List Token)
    (eof : Token) (faults : List Diagnostic) (hc : '\n' ∉ c.toList)
    (hrp : rp.policy.panicOnError = false) (hr : r.policy.panicOnError = false)
    (hr' : r'.policy.panicOnError = false)
    (hwords : (tokenize p rp).result = .ok (words ++ [eof]))
    (hfaults : (tokenize p rp).reporter.kept = rp.kept ++ faults.toArray)
    (hclosed : ∀ d ∈ faults, d.code ≠ some .unterminatedString)
    (hslash : ∀ t, words.getLast? = some t → ¬ (t.kind = .slash ∧ t.span.stop = p.utf8ByteSize)) :
    ∃ (below : List Token) (more : List Diagnostic),
      (tokenize (p ++ "\n" ++ s) r).result = .ok (words ++ below) ∧
      (tokenize (p ++ "\n" ++ s) r).reporter.kept = r.kept ++ (faults ++ more).toArray ∧
      (tokenize (p ++ "//" ++ c ++ "\n" ++ s) r').result =
        .ok (words ++ below.map (Token.shift (2 + c.utf8ByteSize) 0)) ∧
      (tokenize (p ++ "//" ++ c ++ "\n" ++ s) r').reporter.kept =
        r'.kept ++ (faults ++ more.map (Diagnostic.shift (2 + c.utf8ByteSize) 0)).toArray ∧
      (∀ t ∈ words, t.span.stop ≤ p.utf8ByteSize) ∧ (∀ t ∈ below, p.utf8ByteSize < t.span.start) ∧
      (∀ d ∈ faults, d.span.stop ≤ p.utf8ByteSize) ∧ ∀ d ∈ more, p.utf8ByteSize < d.span.start := by
  obtain ⟨pieces, hp⟩ := exists_lexes p
  obtain ⟨pieces', hs⟩ := exists_lexes s
  -- what is known about the scan of `p` is known about its pieces
  obtain rfl := eq_faultsOf_of_kept hp hrp hfaults
  have hopen := not_openString_of_faultsOf hclosed
  obtain ⟨rfl, -⟩ := List.append_inj' (tokenize_ok hp hwords).1 rfl
  have hlast := rule_ne_slash_of_tokensOf hp hslash
  obtain ⟨others, hline, hothers, halike⟩ := hp.append_comment hc hopen hlast
  let q := p ++ "//" ++ c
  have hq : Lexes q.toList others := by
    have hall : q.toList = p.toList ++ '/' :: '/' :: c.toList := by simp [q]
    rwa [hall]
  have hbytes : q.utf8ByteSize + 1 = p.utf8ByteSize + 1 + (2 + c.utf8ByteSize) := by
    have hmarks : "//".utf8ByteSize = 2 := rfl
    simp only [q, String.utf8ByteSize_append, hmarks]
    omega
  have hlines : (endTokenOf q).line = (endTokenOf p).line + 0 := endTokenOf_line_comment p hc
  -- below the line both go on with what is found in `s`, the second moved on by the comment as well
  obtain ⟨hresult, hkept⟩ := tokenize_join (r := r) hp hs hopen hr
  obtain ⟨hresult', hkept'⟩ := tokenize_join (r := r') hq hs hothers hr'
  have hsame : tokensOf others = tokensOf pieces := halike.tokens .start
  have hsame' : faultsOf others = faultsOf pieces := halike.faults .start
  rw [hsame, hbytes, hlines, ← Token.map_shift_shift] at hresult'
  rw [hsame', hbytes, hlines, ← Diagnostic.map_shift_shift] at hkept'
  refine ⟨_, _, hresult, hkept, hresult', hkept', ?_, ?_, ?_, ?_⟩
  · intro t ht
    have hstop := stop_le_of_mem_tokensOf hp ht
    rwa [String.ofList_toList] at hstop
  · intro t ht
    obtain ⟨t, -, rfl⟩ := List.mem_map.1 ht
    exact start_lt_shift t.span _ _
  · intro d hd
    have hstop := stop_le_of_mem_faultsOf hp hd
    rwa [String.ofList_toList] at hstop
  · intro d hd
    obtain ⟨d, -, rfl⟩ := List.mem_map.1 hd
    exact start_lt_shift d.span _ _

/-- A line that ends in a comment already, and a comment with a quote, a slash and a character of
three bytes. -/
theorem tokenize_line_comment_open_quote :
    let words : List Token := [.new .bang "!" none ⟨0, 1, 1, 1⟩]
    let faults : List Diagnostic :=
      [⟨.error, "Unexpected character.", ⟨1, 3, 1, 2⟩, some .unexpectedCharacter, []⟩]
    '\n' ∉ "\"/€".toList ∧ Reporter.new.policy.panicOnError = false ∧
    (tokenize "!é // a" .new).result = .ok (words ++ [.endOfInput 1 8 8]) ∧
    (tokenize "!é // a" .new).reporter.kept = Reporter.new.kept ++ faults.toArray ∧
    (∀ d ∈ faults, d.code ≠ some .unterminatedString) ∧
    (∀ t, words.getLast? = some t → ¬ (t.kind = .slash ∧ t.span.stop = "!é // a".utf8ByteSize)) ∧
    ∃ (below : List Token) (more : List Diagnostic),
      (tokenize ("!é // a" ++ "\n" ++ "-\n\"") .new).result = .ok (words ++ below) ∧
      (tokenize ("!é // a" ++ "//" ++ "\"/€" ++ "\n" ++ "-\n\"") .new).result =
        .ok (words ++ below.map (Token.shift 7 0)) ∧
      (tokenize ("!é // a" ++ "//" ++ "\"/€" ++ "\n" ++ "-\n\"") .new).reporter.diagnostics =
        faults ++ more.map (Diagnostic.shift 7 0) ∧
      more.map (·.span) = [⟨11, 12, 3, 1⟩] := by
  intro words faults
  have hc : '\n' ∉ "\"/€".toList := by decide
  have hwords : (tokenize "!é // a" .new).result = .ok (words ++ [.endOfInput 1 8 8]) := by
    decide +kernel
  have hfaults : (tokenize "!é // a" .new).reporter.kept = Reporter.new.kept ++ faults.toArray := by
    decide +kernel
  have hclosed : ∀ d ∈ faults, d.code ≠ some .unterminatedString := by decide
  have hslash : ∀ t, words.getLast? = some t →
      ¬ (t.kind = .slash ∧ t.span.stop = "!é // a".utf8ByteSize) := by
    rintro t ht ⟨hkind, -⟩
    cases ht
    cases hkind
  obtain ⟨below, more, hplain, hkept, hresult, hkept', -⟩ := tokenize_line_comment "!é // a" "\"/€"
    "-\n\"" .new .new .new words _ faults hc rfl rfl rfl hwords hfaults hclosed hslash
  have hbytes : 2 + "\"/€".utf8ByteSize = 7 := rfl
  rw [hbytes] at hresult hkept'
  have hspans : (tokenize ("!é // a" ++ "\n" ++ "-\n\"") .new).reporter.diagnostics.map (·.span) =
      [⟨1, 3, 1, 2⟩, ⟨11, 12, 3, 1⟩] := by decide +kernel
  rw [Reporter.diagnostics, hkept] at hspans
  refine ⟨hc, rfl, hwords, hfaults, hclosed, hslash, below, more, hplain, hresult, ?_, ?_⟩
  · rw [Reporter.diagnostics, hkept']
    simp [Reporter.new, Reporter.withPolicy]
  · simpa [Reporter.new, Reporter.withPolicy, faults] using hspans

end SourceScan
