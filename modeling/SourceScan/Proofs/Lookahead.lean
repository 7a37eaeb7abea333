import SourceScan.Proofs.Delivery

/-!
# How far a scan looks ahead

Two characters behind a piece settle that it ends there. A number needs both, a point and the digit
behind it; every other piece needs one or none. So what a scan finds in the front of a text is
settled by this front and two more characters, whatever comes after them.

* **`Piece.ends_append_congr`**: no piece sees past two characters.
* **`Munches.far_congr`** is the step lemma: a longest match within the front is one whatever
  follows.
* **`filter_endsBy_findings`** is the run lemma: two scans stay together until one of them, and then
  both, leave the front.
-/

namespace SourceScan

/-- **Two characters decide whether a piece ends.** `Piece.Ends` looks at the first character behind
a piece, and for a number at the second; both are in `near`. -/
theorem Piece.ends_append_congr {p : Piece} {near : List Char} (hnear : 2 ≤ near.length)
    (far far' : List Char) : p.Ends (near ++ far) ↔ p.Ends (near ++ far') := by
  obtain ⟨x, y, more, rfl⟩ : ∃ x y more, near = x :: y :: more := by
    rcases near with _ | ⟨x, _ | ⟨y, more⟩⟩
    · cases hnear
    · simp at hnear
    · exact ⟨x, y, more, rfl⟩
  obtain ⟨rule, text⟩ := p
  cases rule with
  | word kind =>
    rcases kind.literal_cases with rfl | rfl | hkind
    · exact Iff.rfl
    · exact Iff.rfl
    · rw [ends_mark hkind, ends_mark hkind]
      exact Iff.rfl
  | comment => simp [Ends]
  | openString => simp [Ends]
  | blank | other => exact Iff.rfl

section Front

variable {front near far far' : List Char} {p : Piece}

/-- **A longest match within the front** is one in front of anything. -/
theorem Munches.far_congr (far' : List Char) (hnear : 2 ≤ near.length)
    (h : Munches (front ++ (near ++ far)) p) (hp : p.text.length ≤ front.length) :
    p.text <+: front ∧ Munches (front ++ (near ++ far')) p := by
  have hinside : p.text <+: front :=
    List.prefix_of_prefix_length_le h.taken (List.prefix_append front _) hp
  refine ⟨hinside, ?_⟩
  -- behind the piece comes the rest of the front, and then at least two characters
  obtain ⟨between, rfl⟩ := hinside
  rw [List.append_assoc] at h ⊢
  obtain ⟨hproper, hends⟩ := munches_iff.1 h
  have hlong : 2 ≤ (between ++ near).length := by
    rw [List.length_append]
    omega
  rw [← List.append_assoc] at hends
  refine munches_iff.2 ⟨hproper, ?_⟩
  rw [← List.append_assoc]
  exact (Piece.ends_append_congr hlong far far').1 hends

/-- What was found ends at a byte or before it. -/
def Finding.endsBy (offset : Nat) (f : Finding) : Bool := f.span?.any (·.stop ≤ offset)

/-- A blank has no span, and so it never ends by anything. -/
theorem Finding.endsBy_iff {offset : Nat} {f : Finding} :
    f.endsBy offset = true ↔ ∃ s, f.span? = some s ∧ s.stop ≤ offset := by
  cases f <;> simp [endsBy, span?]

/-- **Behind the front nothing is found in it:** once a piece reaches out of the front, no finding
of this piece or a later one ends there. -/
theorem filter_endsBy_eq_nil {here : Place} {after : List Char} {pieces : List Piece}
    (hcut : Lexes (front ++ after) (p :: pieces)) (hp : front.length < p.text.length) :
    (findings here (p :: pieces)).filter (Finding.endsBy (here.past front).offset) = [] := by
  obtain ⟨extra, hextra⟩ : front <+: p.text := by
    refine List.prefix_of_prefix_length_le (List.prefix_append front after) ?_ hp.le
    rw [← hcut.flatMap_text, List.flatMap_cons]
    exact List.prefix_append _ _
  have hbehind : (here.past front).offset < (here.past p.text).offset := by
    rw [← hextra, Place.past_append]
    refine Place.offset_lt_past _ ?_
    rintro rfl
    rw [← hextra, List.append_nil] at hp
    exact lt_irrefl _ hp
  refine List.filter_eq_nil_iff.2 fun f hf hends => ?_
  obtain ⟨s, hs, hstop⟩ := Finding.endsBy_iff.1 hends
  rcases List.mem_cons.1 hf with rfl | hf
  · -- the first piece ends behind the front
    have hfirst := (Piece.span?_finding hs).2
    omega
  · -- and a later one ends behind that
    have hne : ∀ q ∈ pieces, q.text ≠ [] := fun q hq =>
      hcut.text_ne_nil q (List.mem_cons_of_mem p hq)
    have hlater := span_of_mem_findings hne hf hs
    omega

/-- **Two scans agree on the front.** They take the same pieces as long as these lie within it. The
induction is on the pieces of the first scan; the second has to take the same piece, and where the
first one leaves the front the second cannot stay in it. -/
theorem filter_endsBy_findings (hnear : 2 ≤ near.length) {text : List Char}
    {pieces others : List Piece} (here : Place) (h : Lexes text pieces)
    (htext : text = front ++ (near ++ far)) (h' : Lexes (front ++ (near ++ far')) others) :
    (findings here pieces).filter (Finding.endsBy (here.past front).offset) =
      (findings here others).filter (Finding.endsBy (here.past front).offset) := by
  have hne : near ≠ [] := by
    rintro rfl
    cases hnear
  induction h generalizing front others here with
  | nil => simp [hne] at htext
  | @cons text after p pieces cut first rest ih =>
    subst htext
    generalize htext' : front ++ (near ++ far') = text' at h'
    cases h' with
    | nil => simp [hne] at htext'
    | @cons _ after' q others cut' first' rest' =>
      subst htext'
      by_cases hp : p.text.length ≤ front.length
      · -- within the front the first piece is the longest match of both texts
        obtain ⟨⟨between, rfl⟩, hsame⟩ := first.far_congr far' hnear hp
        obtain rfl := hsame.unique first'
        rw [List.append_assoc] at cut cut'
        obtain rfl := List.append_cancel_left cut
        obtain rfl := List.append_cancel_left cut'
        have hrest := ih (here.past p.text) rfl rest'
        rw [findings, findings, List.filter_cons, List.filter_cons, Place.past_append, hrest]
      · -- otherwise both pieces reach out of it
        have hq : front.length < q.text.length := by
          by_contra hle
          have hsame := (first'.far_congr far hnear (not_lt.1 hle)).2
          obtain rfl := hsame.unique first
          exact hp (not_lt.1 hle)
        rw [filter_endsBy_eq_nil (.cons cut first rest) (not_le.1 hp),
          filter_endsBy_eq_nil (.cons cut' first' rest') hq]

end Front

/-! ## The words and the reports in the front -/

/-- What is selected of findings has their spans, so what ends by an offset is selected of those
that do. -/
theorem filter_filterMap_endsBy {α : Type} {select : Finding → Option α} {span : α → Span}
    (h : ∀ {f a}, select f = some a → f.span? = some (span a)) (offset : Nat)
    (found : List Finding) : (found.filterMap select).filter (fun a => (span a).stop ≤ offset) =
      (found.filter (Finding.endsBy offset)).filterMap select := by
  rw [List.filter_filterMap, List.filterMap_filter]
  refine List.filterMap_congr fun f _ => ?_
  cases hselect : select f with
  | none => simp
  | some a => simp [Finding.endsBy, h hselect, Option.filter]

/-- The end of a source lies behind any part of it that something follows. -/
theorem stop_endTokenOf_append {front after : String} (h : 0 < after.utf8ByteSize) :
    ¬ (endTokenOf (front ++ after)).span.stop ≤ front.utf8ByteSize := by
  show ¬ (front ++ after).utf8ByteSize ≤ front.utf8ByteSize
  rw [String.utf8ByteSize_append]
  omega

/-- **A scan looks no further than two characters ahead.** Let `x` have two characters. For any `y`
and `y'`, scans of `p ++ x ++ y` and `p ++ x ++ y'`, by reporters that do not panic on errors,
return the same tokens in the same order among those with `span.stop ≤ p.utf8ByteSize`, and add the
same reports among those with the code `unexpectedCharacter` that end there. -/
theorem tokenize_lookahead (p x y y' : String) (r r' : Reporter) (hx : x.length = 2)
    (hr : r.policy.panicOnError = false) (hr' : r'.policy.panicOnError = false) :
    ∃ (tokens : List Token) (faults : List Diagnostic) (tokens' : List Token)
        (faults' : List Diagnostic),
      (tokenize (p ++ x ++ y) r).result = .ok tokens ∧
      (tokenize (p ++ x ++ y) r).reporter.kept = r.kept ++ faults.toArray ∧
      (tokenize (p ++ x ++ y') r').result = .ok tokens' ∧
      (tokenize (p ++ x ++ y') r').reporter.kept = r'.kept ++ faults'.toArray ∧
      tokens.filter (·.span.stop ≤ p.utf8ByteSize) =
        tokens'.filter (·.span.stop ≤ p.utf8ByteSize) ∧
      faults.filter (fun d => d.code = some .unexpectedCharacter ∧ d.span.stop ≤ p.utf8ByteSize) =
        faults'.filter (fun d =>
          d.code = some .unexpectedCharacter ∧ d.span.stop ≤ p.utf8ByteSize) := by
  obtain ⟨pieces, hcut⟩ := exists_lexes (p ++ x ++ y)
  obtain ⟨others, hcut'⟩ := exists_lexes (p ++ x ++ y')
  have hresult := tokenize_runs (r := r) hcut (.inl hr)
  have hresult' := tokenize_runs (r := r') hcut' (.inl hr')
  have hsplit (y : String) : (p ++ x ++ y).toList = p.toList ++ (x.toList ++ y.toList) := by simp
  have hnear : 2 ≤ x.toList.length := by
    rw [String.length_toList, hx]
  have hfront : (Place.start.past p.toList).offset = p.utf8ByteSize := by
    rw [Place.past_start, String.ofList_toList]
  have hfound := filter_endsBy_findings hnear .start hcut (hsplit y) (hsplit y' ▸ hcut')
  rw [hfront] at hfound
  -- the end of the input lies behind `p` in both sources
  have hsize : 0 < x.utf8ByteSize := by
    refine Nat.pos_of_ne_zero fun hzero => ?_
    rw [String.utf8ByteSize_eq_zero_iff.1 hzero] at hx
    cases hx
  -- so the tokens that end within `p` are found there
  have hwords (y : String) (pieces : List Piece) :
      (tokensOf pieces ++ [endTokenOf (p ++ x ++ y)]).filter (·.span.stop ≤ p.utf8ByteSize) =
        ((findings .start pieces).filter (Finding.endsBy p.utf8ByteSize)).filterMap
          Finding.token? := by
    have hend : ¬ (endTokenOf (p ++ (x ++ y))).span.stop ≤ p.utf8ByteSize :=
      stop_endTokenOf_append (by rw [String.utf8ByteSize_append]; omega)
    rw [List.filter_append, String.append_assoc, List.filter_cons_of_neg (by simpa using hend),
      List.filter_nil, List.append_nil]
    exact filter_filterMap_endsBy Finding.span?_of_token? _ _
  have hfaults : (faultsOf pieces).filter (·.span.stop ≤ p.utf8ByteSize) =
      (faultsOf others).filter (·.span.stop ≤ p.utf8ByteSize) := by
    rw [faultsOf, faultsOf, filter_filterMap_endsBy Finding.span?_of_fault?,
      filter_filterMap_endsBy Finding.span?_of_fault?, hfound]
  refine ⟨_, faultsOf pieces, _, faultsOf others, hresult, ?_, hresult', ?_, ?_, ?_⟩
  · rw [(tokenize_ok hcut hresult).2]
  · rw [(tokenize_ok hcut' hresult').2]
  · rw [hwords, hwords, hfound]
  · -- the reports of stray characters are some of the reports that end within `p`
    have hcoded := congrArg
      (List.filter fun d : Diagnostic => d.code = some .unexpectedCharacter) hfaults
    simpa only [List.filter_filter, Bool.decide_and] using hcoded

/-- A number with a point behind it, and a stray character in front. What follows the two characters
behind the number opens a string in one source and not in the other. -/
theorem tokenize_lookahead_point : ".é".length = 2 ∧ Reporter.new.policy.panicOnError = false ∧
    ∃ tokens faults tokens' faults',
      (tokenize ("é 7 1" ++ ".é" ++ "\"=") .new).result = .ok tokens ∧
      (tokenize ("é 7 1" ++ ".é" ++ "\"=") .new).reporter.diagnostics = faults ∧
      (tokenize ("é 7 1" ++ ".é" ++ "=") .new).result = .ok tokens' ∧
      (tokenize ("é 7 1" ++ ".é" ++ "=") .new).reporter.diagnostics = faults' ∧
      (tokens.filter (·.span.stop ≤ 6)).map (·.lexeme) = ["7", "1"] ∧
      tokens.filter (·.span.stop ≤ 6) = tokens'.filter (·.span.stop ≤ 6) ∧
      faults.map (·.span) = [⟨0, 2, 1, 1⟩, ⟨7, 9, 1, 7⟩, ⟨9, 11, 1, 8⟩] ∧
      faults.filter (fun d => d.code = some .unexpectedCharacter ∧ d.span.stop ≤ 6) =
        faults'.filter (fun d => d.code = some .unexpectedCharacter ∧ d.span.stop ≤ 6) := by
  have hsize : "é 7 1".utf8ByteSize = 6 := rfl
  obtain ⟨tokens, faults, tokens', faults', hresult, hkept, hresult', hkept', htokens, hfaults⟩ :=
    tokenize_lookahead "é 7 1" ".é" "\"=" "=" .new .new rfl rfl rfl
  rw [hsize] at htokens hfaults
  have hreports : (tokenize ("é 7 1" ++ ".é" ++ "\"=") .new).reporter.diagnostics = faults := by
    rw [Reporter.diagnostics, hkept]
    simp [Reporter.new, Reporter.withPolicy]
  have hwords : (tokenize ("é 7 1" ++ ".é" ++ "\"=") .new).result.toOption.map
      (fun tokens => (tokens.filter (·.span.stop ≤ 6)).map (·.lexeme)) = some ["7", "1"] := by
    decide +kernel
  have hspans : (tokenize ("é 7 1" ++ ".é" ++ "\"=") .new).reporter.diagnostics.map (·.span) =
      [⟨0, 2, 1, 1⟩, ⟨7, 9, 1, 7⟩, ⟨9, 11, 1, 8⟩] := by decide +kernel
  rw [hresult] at hwords
  rw [hreports] at hspans
  refine ⟨rfl, rfl, tokens, faults, tokens', faults', hresult, hreports, hresult', ?_,
    Option.some.inj hwords, htokens, hspans, hfaults⟩
  rw [Reporter.diagnostics, hkept']
  simp [Reporter.new, Reporter.withPolicy]

end SourceScan
