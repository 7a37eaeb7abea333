import SourceScan.Proofs.Shift

/-!
# Scanning line by line

No piece of a source reaches across the end of a line, except strings. So a text can be cut at a
newline, provided that no string is open there, and the two parts can be scanned one by one: the
words and the reports of the first part stand as they are, and those of the second part move down
behind them.

* **`Lexes.append_newline`**: the cut of the whole is the two cuts with the newline between them.
* **`past_newline`**: behind a newline a source begins anew, further down.
-/

namespace SourceScan

/-! ## Cutting at a newline -/

/-- The newline between two texts, as a piece. -/
def newlinePiece : Piece := ⟨.blank, ['\n']⟩

theorem munches_newline (after : List Char) : Munches ('\n' :: after) newlinePiece := by
  refine (munches_iff (p := newlinePiece)).2 ⟨⟨?_, nofun⟩, trivial⟩
  exact .inr (.inr (.inr rfl))

/-- **Cutting at a newline** that is in no string. No other piece takes a newline in, whatever it
looks for behind itself. -/
theorem Lexes.append_newline {a b : List Char} {pieces others : List Piece} (ha : Lexes a pieces)
    (hb : Lexes b others) (hclosed : ∀ p ∈ pieces, p.rule ≠ .openString) :
    Lexes (a ++ '\n' :: b) (pieces ++ newlinePiece :: others) := by
  refine ha.append (.cons rfl (munches_newline b) hb) hclosed (fun p hp => ?_) rfl
  have hopen := hclosed p (List.mem_of_getLast? hp)
  exact Piece.ends_cons hopen rfl (by decide) (by decide) (fun _ => by decide) fun _ => rfl

/-! ## Moving down -/

/-- **Behind a newline a source begins anew,** as many lines down as the text before it has. -/
theorem past_newline (a : List Char) : Place.start.past (a ++ ['\n']) =
    Place.start.shift ((String.ofList a).utf8ByteSize + 1) (Place.start.past a).line := by
  have hnl : '\n'.utf8Size = 1 := rfl
  rw [Place.past_append, Place.past_cons, Place.past_nil, Place.past_start, Place.next, if_pos rfl,
    hnl, Place.shift, Place.start, Place.mk.injEq]
  exact ⟨(Nat.zero_add _).symm, Nat.add_comm .., rfl⟩

section Join

variable {a b : String} {pieces others : List Piece}

/-- **What is found in two texts with a newline between them:** what is found in the first, a blank,
and what is found in the second, moved behind the newline. -/
theorem findings_join (hcut : Lexes a.toList pieces) :
    findings .start (pieces ++ newlinePiece :: others) = findings .start pieces ++
      .blank :: (findings .start others).map
        (Finding.shift (a.utf8ByteSize + 1) (endTokenOf a).line) := by
  have hline : (endTokenOf a).line = (Place.start.past a.toList).line := rfl
  have hsize : a.utf8ByteSize = (String.ofList a.toList).utf8ByteSize := by
    rw [String.ofList_toList]
  rw [findings_append, hcut.flatMap_text, hline, hsize, ← findings_shift, ← past_newline,
    Place.past_append]
  rfl

theorem tokensOf_join (hcut : Lexes a.toList pieces) :
    tokensOf (pieces ++ newlinePiece :: others) = tokensOf pieces ++
      (tokensOf others).map (Token.shift (a.utf8ByteSize + 1) (endTokenOf a).line) := by
  rw [tokensOf, findings_join hcut, List.filterMap_append, List.filterMap_cons_none rfl,
    filterMap_moved (Finding.token?_shift _ _)]
  rfl

theorem faultsOf_join (hcut : Lexes a.toList pieces) :
    faultsOf (pieces ++ newlinePiece :: others) = faultsOf pieces ++
      (faultsOf others).map (Diagnostic.shift (a.utf8ByteSize + 1) (endTokenOf a).line) := by
  rw [faultsOf, findings_join hcut, List.filterMap_append, List.filterMap_cons_none rfl,
    filterMap_moved (Finding.fault?_shift _ _)]
  rfl

/-- The end of the input is that of the second text, moved. -/
theorem endTokenOf_join : endTokenOf (a ++ "\n" ++ b) =
    (endTokenOf b).shift (a.utf8ByteSize + 1) (endTokenOf a).line := by
  have hall : (a ++ "\n" ++ b).toList = (a.toList ++ ['\n']) ++ b.toList := by
    rw [String.toList_append, String.toList_append]
    rfl
  have hline : (endTokenOf a).line = (Place.start.past a.toList).line := rfl
  rw [endTokenOf_eq (a ++ "\n" ++ b), endTokenOf_eq b, hline, hall, Place.past_append, past_newline,
    Place.past_shift, Place.endToken_shift, String.ofList_toList]

/-- **A scan of two texts with a newline between them,** in terms of the pieces of the two. -/
theorem tokenize_join {r : Reporter} (ha : Lexes a.toList pieces) (hb : Lexes b.toList others)
    (hopen : ∀ p ∈ pieces, p.rule ≠ .openString) (hr : r.policy.panicOnError = false) :
    (tokenize (a ++ "\n" ++ b) r).result = .ok (tokensOf pieces ++ (tokensOf others ++
        [endTokenOf b]).map (Token.shift (a.utf8ByteSize + 1) (endTokenOf a).line)) ∧
      (tokenize (a ++ "\n" ++ b) r).reporter.kept = r.kept ++ (faultsOf pieces ++
        (faultsOf others).map
          (Diagnostic.shift (a.utf8ByteSize + 1) (endTokenOf a).line)).toArray := by
  have hcut : Lexes (a ++ "\n" ++ b).toList (pieces ++ newlinePiece :: others) := by
    have hall : (a ++ "\n" ++ b).toList = a.toList ++ '\n' :: b.toList := by simp
    rw [hall]
    exact ha.append_newline hb hopen
  have hjoined := tokenize_runs (r := r) hcut (.inl hr)
  have hreporter := (tokenize_ok hcut hjoined).2
  rw [tokensOf_join ha, endTokenOf_join, List.append_assoc] at hjoined
  rw [faultsOf_join ha] at hreporter
  refine ⟨?_, ?_⟩
  · rw [hjoined, List.map_append]
    rfl
  · rw [hreporter]

end Join

/-- An open string is reported. -/
theorem exists_report_of_openString {pieces : List Piece} {p : Piece} (hp : p ∈ pieces)
    (hrule : p.rule = .openString) : ∃ d ∈ faultsOf pieces, d.code = some .unterminatedString := by
  obtain ⟨here, hfound⟩ := exists_finding_of_mem hp
  rw [Piece.finding, hrule] at hfound
  exact ⟨_, List.mem_filterMap.2 ⟨_, hfound, rfl⟩, rfl⟩

/-- What reports no open string has none. -/
theorem not_openString_of_faultsOf {pieces : List Piece}
    (h : ∀ d ∈ faultsOf pieces, d.code ≠ some .unterminatedString) :
    ∀ p ∈ pieces, p.rule ≠ .openString := by
  intro p hp hrule
  obtain ⟨d, hd, hcode⟩ := exists_report_of_openString hp hrule
  exact h d hd hcode

/-- What a tolerant reporter has in addition after a scan are the faults of the source. -/
theorem eq_faultsOf_of_kept {source : String} {pieces : List Piece} {r : Reporter}
    {faults : List Diagnostic} (hcut : Lexes source.toList pieces)
    (hr : r.policy.panicOnError = false)
    (hkept : (tokenize source r).reporter.kept = r.kept ++ faults.toArray) :
    faults = faultsOf pieces := by
  rw [(tokenize_ok hcut (tokenize_runs hcut (.inl hr))).2] at hkept
  have hlists := congrArg Array.toList hkept
  rw [Array.toList_append, Array.toList_append] at hlists
  exact (List.append_cancel_left hlists).symm

/-- **Scanning line by line.** Scan `a`, `b` and `a ++ "\n" ++ b`, each with a reporter of its own
that does not panic on errors. Let `faults` be what the scan of `a` adds to its reporter, and let
none of them have the code `unterminatedString`. Then the scan of both returns the words of `a` and
behind them the tokens of `b` under `Token.shift`, and it adds `faults` and behind them what the
scan of `b` adds, under `Diagnostic.shift`. The shift is by the bytes of `a` and the newline, and by
the line of `a`'s end. -/
theorem tokenize_append_newline (a b : String) (ra rb r : Reporter) (faults : List Diagnostic)
    (hra : ra.policy.panicOnError = false) (hrb : rb.policy.panicOnError = false)
    (hr : r.policy.panicOnError = false)
    (hfaults : (tokenize a ra).reporter.kept = ra.kept ++ faults.toArray)
    (hclosed : ∀ d ∈ faults, d.code ≠ some .unterminatedString) :
    ∃ (words : List Token) (eof : Token) (others : List Token) (more : List Diagnostic),
      (tokenize a ra).result = .ok (words ++ [eof]) ∧ eof.kind = .endOfInput ∧
      (∀ t ∈ words, t.kind ≠ .endOfInput) ∧
      (tokenize b rb).result = .ok others ∧
      (tokenize b rb).reporter.kept = rb.kept ++ more.toArray ∧
      (tokenize (a ++ "\n" ++ b) r).result =
        .ok (words ++ others.map (Token.shift (a.utf8ByteSize + 1) eof.line)) ∧
      (tokenize (a ++ "\n" ++ b) r).reporter.kept = r.kept ++
        (faults ++ more.map (Diagnostic.shift (a.utf8ByteSize + 1) eof.line)).toArray := by
  obtain ⟨pieces, ha⟩ := exists_lexes a
  obtain ⟨pieces', hb⟩ := exists_lexes b
  have hresult := tokenize_runs (r := ra) ha (.inl hra)
  have hresult' := tokenize_runs (r := rb) hb (.inl hrb)
  -- what the scan of `a` added are the faults of its pieces, so no piece is an open string
  obtain rfl := eq_faultsOf_of_kept ha hra hfaults
  have hopen := not_openString_of_faultsOf hclosed
  obtain ⟨hjoined, hkept⟩ := tokenize_join (r := r) ha hb hopen hr
  refine ⟨_, _, _, faultsOf pieces', hresult, rfl, ?_, hresult', ?_, hjoined, hkept⟩
  · intro t ht
    exact ne_endOfInput_of_mem_tokensOf ha ht
  · rw [(tokenize_ok hb hresult').2]

/-- A text whose last line is a comment, in front of one with a string that stays open. -/
theorem tokenize_append_newline_comment :
    let faults : List Diagnostic :=
      [⟨.error, "Unexpected character.", ⟨0, 2, 1, 1⟩, some .unexpectedCharacter, []⟩]
    let words : List Token :=
      [.new .semicolon ";" none ⟨2, 3, 1, 2⟩, .new .slash "/" none ⟨4, 5, 2, 1⟩]
    let others : List Token :=
      [.new .number "2" (some (.number ⟨0x4000000000000000⟩)) ⟨0, 1, 1, 1⟩,
        .new .dot "." none ⟨1, 2, 1, 2⟩, .endOfInput 2 3 5]
    let more : List Diagnostic :=
      [⟨.error, "Unterminated string.", ⟨3, 5, 2, 1⟩, some .unterminatedString, []⟩]
    Reporter.new.policy.panicOnError = false ∧
    (tokenize "é;\n/ //1" Reporter.new).reporter.kept = Reporter.new.kept ++ faults.toArray ∧
    (∀ d ∈ faults, d.code ≠ some .unterminatedString) ∧
    (tokenize "é;\n/ //1" Reporter.new).result = .ok (words ++ [.endOfInput 2 6 9]) ∧
    (tokenize "2.\n\"3" Reporter.new).result = .ok others ∧
    (tokenize ("é;\n/ //1" ++ "\n" ++ "2.\n\"3") Reporter.new).result =
      .ok (words ++ others.map (Token.shift 10 2)) ∧
    (tokenize ("é;\n/ //1" ++ "\n" ++ "2.\n\"3") Reporter.new).reporter.kept =
      Reporter.new.kept ++ (faults ++ more.map (Diagnostic.shift 10 2)).toArray := by
  intro faults words others more
  have hfaults : (tokenize "é;\n/ //1" Reporter.new).reporter.kept =
      Reporter.new.kept ++ faults.toArray := by decide +kernel
  have hclosed : ∀ d ∈ faults, d.code ≠ some .unterminatedString := by decide
  have hwords : (tokenize "é;\n/ //1" Reporter.new).result =
      .ok (words ++ [.endOfInput 2 6 9]) := by decide +kernel
  have hothers : (tokenize "2.\n\"3" Reporter.new).result = .ok others := by decide +kernel
  have hmore : (tokenize "2.\n\"3" Reporter.new).reporter.kept =
      Reporter.new.kept ++ more.toArray := by decide +kernel
  obtain ⟨found, eof, below, reports, hresult, -, -, hresult', hreports, hjoined, hkept⟩ :=
    tokenize_append_newline "é;\n/ //1" "2.\n\"3" Reporter.new Reporter.new Reporter.new faults
      rfl rfl rfl hfaults hclosed
  -- the parts of the theorem are the tokens and the reports that stand above
  obtain ⟨rfl, hlast⟩ := List.append_inj' (Except.ok.inj (hresult.symm.trans hwords)) rfl
  obtain rfl : eof = .endOfInput 2 6 9 := (List.cons.inj hlast).1
  obtain rfl : below = others := Except.ok.inj (hresult'.symm.trans hothers)
  have hsame : reports = more := by
    have hlists := congrArg Array.toList (hreports.symm.trans hmore)
    rw [Array.toList_append, Array.toList_append] at hlists
    exact List.append_cancel_left hlists
  rw [hsame] at hkept
  exact ⟨rfl, hfaults, hclosed, hwords, hothers, hjoined, hkept⟩

end SourceScan
