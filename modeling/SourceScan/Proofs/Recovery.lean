import Mathlib.Algebra.GroupWithZero.Nat
import Mathlib.Data.List.Forall2
import SourceScan.Proofs.Shift

/-!
# Recovery from stray characters

A stray character is reported and passed over, and the scan goes on as if a space had stood there.
This is meant literally: with a space in the place of every character that is reported, a source has
the same words and the same other reports, on the same lines and in the same columns. A space may
have fewer bytes than the character it replaces, and by so many bytes what follows moves up.

* **`Piece.ends_congr`**: no piece looks for a stray character behind itself, nor for a space.
* **`Lexes.recover`**: the pieces stay the same, apart from those that are replaced.
* **`findings_recover`** is the run lemma: two runs, one over the source and one over the source
  with the spaces, which are at any time as many bytes apart as have been saved so far.
-/

namespace SourceScan

/-! ## Spaces in the place of stray characters -/

/-- Where stray characters are reported. -/
def straySpans (faults : List Diagnostic) : List Span :=
  (faults.filter fun d => d.code = some .unexpectedCharacter).map (·.span)

/-- A text that begins at an offset, with a space in the place of each covered character. -/
def blankOut (covered : List Span) : Nat → List Char → List Char
  | _, [] => []
  | offset, x :: text =>
    (if covered.any (·.contains offset) then ' ' else x) ::
      blankOut covered (offset + x.utf8Size) text

/-- **The source with spaces** in the place of the characters that some spans cover. -/
def withSpaces (source : String) (covered : List Span) : String :=
  String.ofList (blankOut covered 0 source.toList)

/-- **The bytes saved before an offset,** when each covered character becomes one byte. -/
def saved (covered : List Span) (offset : Nat) : Nat :=
  ((covered.filter fun s => s.stop ≤ offset).map (·.length - 1)).sum

/-! ## What pieces look for behind themselves -/

/-- Two characters that make no difference behind a piece. -/
structure LooksLike (x y : Char) : Prop where
  digit : x.isDigit = y.isDigit
  point : x = '.' ↔ y = '.'
  equal : x = '=' ↔ y = '='
  slash : x = '/' ↔ y = '/'
  newline : x = '\n' ↔ y = '\n'

/-- A character makes no difference to itself. -/
theorem LooksLike.refl (x : Char) : LooksLike x x := ⟨rfl, Iff.rfl, Iff.rfl, Iff.rfl, Iff.rfl⟩

section Alike

variable {after after' : List Char}

/-- Texts that look alike begin with a digit both or neither. -/
theorem any_head?_congr (h : List.Forall₂ LooksLike after after') :
    after.head?.any Char.isDigit = after'.head?.any Char.isDigit := by
  cases h with
  | nil => rfl
  | cons hx _ => simpa using hx.digit

/-- Texts that look alike begin with a character that `LooksLike` tells apart both or neither. -/
theorem head?_eq_congr {c : Char} (h : List.Forall₂ LooksLike after after')
    (hc : ∀ {x y}, LooksLike x y → (x = c ↔ y = c)) :
    after.head? = some c ↔ after'.head? = some c := by
  cases h with
  | nil => exact Iff.rfl
  | cons hx _ => simpa using hc hx

/-- **A piece ends in front of one text just if it ends in front of the other.** All that
`Piece.Ends` asks for is in `LooksLike`, of the first character behind the piece and of the
second. -/
theorem Piece.ends_congr {p : Piece} (h : List.Forall₂ LooksLike after after') :
    p.Ends after ↔ p.Ends after' := by
  have htail : List.Forall₂ LooksLike after.tail after'.tail := by
    cases h with
    | nil => exact .nil
    | cons _ hrest => exact hrest
  have hnil : after = [] ↔ after' = [] := by
    rw [← List.length_eq_zero_iff, ← List.length_eq_zero_iff, h.length_eq]
  obtain ⟨rule, text⟩ := p
  cases rule with
  | word kind =>
    rcases kind.literal_cases with rfl | rfl | hkind
    · simp only [Ends, any_head?_congr h, any_head?_congr htail, head?_eq_congr h LooksLike.point]
    · exact Iff.rfl
    · rw [ends_mark hkind, ends_mark hkind, ne_eq, ne_eq, ne_eq, ne_eq,
        head?_eq_congr h LooksLike.equal, head?_eq_congr h LooksLike.slash]
  | comment => simp only [Ends, hnil, head?_eq_congr h LooksLike.newline]
  | openString => exact hnil
  | blank | other => exact Iff.rfl

end Alike

/-- **A stray character looks like a space,** since no rule but the last begins with it. -/
theorem Piece.Proper.looksLike_space {p : Piece} (hp : p.Proper) (hrule : p.rule = .other) :
    ∃ x, p.text = [x] ∧ LooksLike x ' ' := by
  obtain ⟨rule, text⟩ := p
  cases hrule
  obtain ⟨x, rfl⟩ := hp.matched
  -- a rule that begins with `x` would have a longer text than `other`, or the same text first
  have hnone (rule : Rule) (hbegins : rule.Begins x) : rule = .other := by
    obtain ⟨r, hr, hother⟩ := hbegins.single
    exact hother (hp.lastResort rfl r hr)
  refine ⟨x, rfl, ?_, ?_, ?_, ?_, ?_⟩
  · cases hx : x.isDigit with
    | false => rfl
    | true => cases hnone (.word .number) hx
  · refine iff_of_false ?_ (by decide)
    rintro rfl
    cases hnone (.word .dot) rfl
  · refine iff_of_false ?_ (by decide)
    rintro rfl
    cases hnone (.word .equal) rfl
  · refine iff_of_false ?_ (by decide)
    rintro rfl
    cases hnone (.word .slash) rfl
  · refine iff_of_false ?_ (by decide)
    rintro rfl
    cases hnone .blank rfl

/-! ## The pieces of the source with spaces -/

/-- The piece that is read in the place of a piece. -/
def Piece.recovered (p : Piece) : Piece := if p.rule = .other then ⟨.blank, [' ']⟩ else p

theorem Piece.recovered_of_other {p : Piece} (h : p.rule = .other) :
    p.recovered = ⟨.blank, [' ']⟩ := if_pos h

theorem Piece.recovered_of_ne {p : Piece} (h : p.rule ≠ .other) : p.recovered = p := if_neg h

/-- The text that is made of the recovered pieces. -/
def recoveredText (pieces : List Piece) : List Char := pieces.flatMap (·.recovered.text)

/-- The recovered text looks like the text, character by character. -/
theorem forall₂_looksLike_recovered {pieces : List Piece} (h : ∀ p ∈ pieces, p.Proper) :
    List.Forall₂ LooksLike (pieces.flatMap Piece.text) (recoveredText pieces) := by
  induction pieces with
  | nil => exact .nil
  | cons p pieces ih =>
    obtain ⟨hp, hpieces⟩ := List.forall_mem_cons.1 h
    refine List.rel_append ?_ (ih hpieces)
    show List.Forall₂ LooksLike p.text p.recovered.text
    by_cases hrule : p.rule = .other
    · obtain ⟨x, htext, hx⟩ := hp.looksLike_space hrule
      rw [Piece.recovered_of_other hrule, htext]
      exact .cons hx .nil
    · rw [Piece.recovered_of_ne hrule]
      exact List.forall₂_same.2 fun x _ => LooksLike.refl x

/-- **The source with spaces is cut into the recovered pieces.** What stands behind a piece has
changed, but to the piece it looks as before. -/
theorem Lexes.recover {text : List Char} {pieces : List Piece} (h : Lexes text pieces) :
    Lexes (recoveredText pieces) (pieces.map Piece.recovered) := by
  induction h with
  | nil => exact .nil
  | @cons text after p pieces cut first rest ih =>
    subst cut
    obtain ⟨hproper, hends⟩ := munches_iff.1 first
    have hmunch : p.recovered.Proper ∧ p.recovered.Ends (recoveredText pieces) := by
      by_cases hrule : p.rule = .other
      · rw [Piece.recovered_of_other hrule]
        exact ⟨⟨.inl rfl, nofun⟩, trivial⟩
      · rw [Piece.recovered_of_ne hrule]
        have hbehind := forall₂_looksLike_recovered rest.proper
        rw [rest.flatMap_text] at hbehind
        exact ⟨hproper, (Piece.ends_congr hbehind).1 hends⟩
    exact .cons rfl (munches_iff.2 hmunch) ih

/-! ## Counting what is saved -/

section Saved

variable {earlier later : List Span}

/-- `saved` before an offset comes from the spans that lie before it. -/
theorem saved_append {offset : Nat} (hearlier : ∀ s ∈ earlier, s.stop ≤ offset)
    (hlater : ∀ s ∈ later, offset < s.stop) :
    saved (earlier ++ later) offset = (earlier.map (·.length - 1)).sum := by
  have hkept : earlier.filter (fun s => s.stop ≤ offset) = earlier :=
    List.filter_eq_self.2 fun s hs => decide_eq_true (hearlier s hs)
  have hdropped : later.filter (fun s => s.stop ≤ offset) = [] :=
    List.filter_eq_nil_iff.2 fun s hs => by simpa using hlater s hs
  rw [saved, List.filter_append, hkept, hdropped, List.append_nil]

/-- Where no span reaches, a text stays as it is. -/
theorem blankOut_append {covered : List Span} {offset : Nat} {text : List Char}
    (rest : List Char) (h : ∀ s ∈ covered,
      s.stop ≤ offset ∨ offset + (String.ofList text).utf8ByteSize ≤ s.start) :
    blankOut covered offset (text ++ rest) =
      text ++ blankOut covered (offset + (String.ofList text).utf8ByteSize) rest := by
  induction text generalizing offset with
  | nil => simp
  | cons x text ih =>
    have hsize : (String.ofList (x :: text)).utf8ByteSize =
        x.utf8Size + (String.ofList text).utf8ByteSize := by
      rw [String.ofList_cons, String.utf8ByteSize_append, String.utf8ByteSize_singleton]
    have hpos : 0 < x.utf8Size := x.utf8Size_pos
    rw [hsize] at h ⊢
    -- a span that contained the first character would reach into the text
    have huncovered : covered.any (·.contains offset) = false := by
      refine List.any_eq_false.2 fun s hs => ?_
      simp only [Span.contains, Bool.and_eq_true, decide_eq_true_eq]
      have := h s hs
      omega
    have hrest : ∀ s ∈ covered, s.stop ≤ offset + x.utf8Size ∨
        offset + x.utf8Size + (String.ofList text).utf8ByteSize ≤ s.start := by
      intro s hs
      have := h s hs
      omega
    rw [List.cons_append, blankOut, huncovered, ih hrest, Nat.add_assoc]
    rfl

end Saved

/-- Where the stray characters among some pieces are. -/
def strayPlaces (here : Place) (pieces : List Piece) : List Span :=
  straySpans ((findings here pieces).filterMap Finding.fault?)

/-- Where a piece is if it is a stray character. -/
def Piece.strayPlace (here : Place) (p : Piece) : List Span :=
  if p.rule = .other then [here.faultSpan p.text] else []

theorem Piece.strayPlace_of_other {here : Place} {p : Piece} (h : p.rule = .other) :
    p.strayPlace here = [here.faultSpan p.text] := if_pos h

theorem Piece.strayPlace_of_ne {here : Place} {p : Piece} (h : p.rule ≠ .other) :
    p.strayPlace here = [] := if_neg h

/-- The first piece has its place first, if it is a stray character. -/
theorem strayPlaces_cons (here : Place) (p : Piece) (pieces : List Piece) :
    strayPlaces here (p :: pieces) =
      p.strayPlace here ++ strayPlaces (here.past p.text) pieces := by
  obtain ⟨rule, text⟩ := p
  cases rule with
  | word | comment | blank | openString | other => rfl

/-- Stray characters are not empty, and stand behind the place where the pieces begin. -/
theorem bounds_of_mem_strayPlaces {here : Place} {pieces : List Piece} {s : Span}
    (hne : ∀ p ∈ pieces, p.text ≠ []) (hs : s ∈ strayPlaces here pieces) :
    here.offset ≤ s.start ∧ s.start < s.stop := by
  obtain ⟨d, hd, rfl⟩ := List.mem_map.1 hs
  obtain ⟨f, hf, hfault⟩ := List.mem_filterMap.1 (List.mem_of_mem_filter hd)
  obtain ⟨hstart, hstop, -⟩ := span_of_mem_findings hne hf (Finding.span?_of_fault? hfault)
  exact ⟨hstart, hstop⟩

/-! ## Two runs in step

`Arrived` is the invariant of the run over the source: all that is covered lies before the place
where it is, or is still to come. It is what ties the bytes saved so far to the pieces passed. -/

/-- **A run has come to a place,** with pieces ahead: what is covered ends before the place, or it
is a stray character among the pieces. -/
structure Arrived (earlier covered : List Span) (here : Place) (pieces : List Piece) : Prop where
  covered_eq : covered = earlier ++ strayPlaces here pieces
  earlier_le : ∀ s ∈ earlier, s.stop ≤ here.offset

/-- What is found in the source, and what is found instead in the source with spaces: nothing where
a stray character was, and otherwise the same, before the bytes that have been saved. -/
inductive Finding.Recovers (covered : List Span) : Finding → Finding → Prop where
  | stray {d : Diagnostic} (hd : d.code = some .unexpectedCharacter) :
    Recovers covered (.fault d) .blank
  | blank : Recovers covered .blank .blank
  | token {t t' : Token} (h : t = t'.shift (saved covered t.span.start) 0) :
    Recovers covered (.token t) (.token t')
  | fault {d d' : Diagnostic} (hd : d.code ≠ some .unexpectedCharacter)
      (h : d = d'.shift (saved covered d.span.start) 0) : Recovers covered (.fault d) (.fault d')

section Run

variable {earlier covered : List Span} {here here' : Place} {p : Piece} {pieces : List Piece}

/-- **What has been saved on arrival** comes from the spans before the place, and from all of
them. -/
theorem Arrived.saved_eq (h : Arrived earlier covered here pieces)
    (hne : ∀ p ∈ pieces, p.text ≠ []) :
    saved covered here.offset = (earlier.map (·.length - 1)).sum := by
  rw [h.covered_eq]
  refine saved_append h.earlier_le fun s hs => ?_
  have hbounds := bounds_of_mem_strayPlaces hne hs
  omega

/-- One piece further, what is covered of this piece lies before. -/
theorem Arrived.next (h : Arrived earlier covered here (p :: pieces)) :
    Arrived (earlier ++ p.strayPlace here) covered (here.past p.text) pieces := by
  constructor
  · rw [h.covered_eq, strayPlaces_cons, List.append_assoc]
  · intro s hs
    rcases List.mem_append.1 hs with hs | hs
    · exact Nat.le_trans (h.earlier_le s hs) (here.offset_le_past p.text)
    · unfold Piece.strayPlace at hs
      split at hs
      · rw [List.mem_singleton.1 hs]
        exact Nat.le_refl _
      · cases hs

/-- **The step lemma for the text:** a piece becomes the piece that is read in its place. -/
theorem Arrived.blankOut_text (h : Arrived earlier covered here (p :: pieces)) (hp : p.Proper)
    (hne : ∀ q ∈ pieces, q.text ≠ []) (rest : List Char) :
    blankOut covered here.offset (p.text ++ rest) =
      p.recovered.text ++ blankOut covered (here.past p.text).offset rest := by
  by_cases hrule : p.rule = .other
  · -- the stray character is covered by its own span
    obtain ⟨x, htext, -⟩ := hp.looksLike_space hrule
    have hcovers : (here.faultSpan p.text).contains here.offset = true := by
      have hlt := here.offset_lt_past hp.matched.ne_nil
      simp only [Span.contains, Place.faultSpan, Nat.le_refl, hlt, decide_true, Bool.and_self]
    have hany : covered.any (·.contains here.offset) = true := by
      refine List.any_eq_true.2 ⟨here.faultSpan p.text, ?_, hcovers⟩
      rw [h.next.covered_eq, Piece.strayPlace_of_other hrule]
      simp
    rw [Piece.recovered_of_other hrule, htext, Place.past_cons, Place.past_nil, Place.offset_next,
      List.singleton_append, blankOut, hany]
    rfl
  · have hoffset := here.offset_past p.text
    rw [Piece.recovered_of_ne hrule, hoffset]
    refine blankOut_append rest fun s hs => ?_
    -- the piece is not covered itself, and what is covered lies before or behind it
    rw [h.next.covered_eq, Piece.strayPlace_of_ne hrule, List.append_nil] at hs
    rcases List.mem_append.1 hs with hs | hs
    · exact .inl (h.earlier_le s hs)
    · have hbounds := bounds_of_mem_strayPlaces hne hs
      omega

/-- **The step lemma for the place:** the two runs stay as far apart as bytes have been saved. -/
theorem Arrived.place_past (h : Arrived earlier covered here (p :: pieces)) (hp : p.Proper)
    (hne : ∀ q ∈ p :: pieces, q.text ≠ [])
    (hplace : here = here'.shift (saved covered here.offset) 0) :
    here.past p.text =
      (here'.past p.recovered.text).shift (saved covered (here.past p.text).offset) 0 := by
  have hbefore := h.saved_eq hne
  have hafter := h.next.saved_eq fun q hq => hne q (List.mem_cons_of_mem p hq)
  by_cases hrule : p.rule = .other
  · obtain ⟨x, htext, hx⟩ := hp.looksLike_space hrule
    have hnl : x ≠ '\n' := mt hx.newline.1 (by decide)
    have hnext : here.past p.text = ⟨here.offset + x.utf8Size, here.line, here.column + 1⟩ := by
      rw [htext, Place.past_cons, Place.past_nil, Place.next, if_neg hnl]
    have hlength : (here.faultSpan p.text).length = x.utf8Size := by
      rw [Span.length, Place.faultSpan, hnext]
      exact Nat.add_sub_cancel_left _ _
    rw [Piece.strayPlace_of_other hrule, List.map_append, List.sum_append, ← hbefore, List.map_cons,
      List.map_nil, List.sum_singleton, hlength] at hafter
    have hoffset : here.offset = here'.offset + saved covered here.offset :=
      congrArg Place.offset hplace
    have hline : here.line = here'.line := by
      rw [hplace]
      rfl
    have hcolumn : here.column = here'.column := by
      rw [hplace]
      rfl
    -- the space has one byte, and the other bytes of `x` are saved
    have hpos : 0 < x.utf8Size := x.utf8Size_pos
    have hspace : here'.past [' '] = ⟨here'.offset + 1, here'.line, here'.column + 1⟩ := rfl
    rw [hafter, hnext, Piece.recovered_of_other hrule, hspace, Place.shift, Place.mk.injEq]
    refine ⟨?_, hline, congrArg Nat.succ hcolumn⟩
    show here.offset + x.utf8Size =
      here'.offset + 1 + (saved covered here.offset + (x.utf8Size - 1))
    omega
  · rw [Piece.strayPlace_of_ne hrule, List.append_nil, ← hbefore] at hafter
    rw [Piece.recovered_of_ne hrule, hafter, ← Place.past_shift, ← hplace]

/-- **The step lemma for what is found.** -/
theorem Piece.finding_recovers (p : Piece)
    (hplace : here = here'.shift (saved covered here.offset) 0) :
    Finding.Recovers covered (p.finding here) (p.recovered.finding here') := by
  by_cases hrule : p.rule = .other
  · rw [recovered_of_other hrule, finding, hrule]
    exact .stray rfl
  · have hmoved : p.finding here = (p.finding here').shift (saved covered here.offset) 0 := by
      rw [← finding_shift, ← hplace]
    rw [recovered_of_ne hrule]
    obtain ⟨rule, text⟩ := p
    cases rule with
    | word kind => exact .token (Finding.token.inj hmoved)
    | comment | blank => exact .blank
    | openString =>
      have hcode : some DiagnosticCode.unterminatedString ≠ some .unexpectedCharacter := by decide
      exact .fault hcode (Finding.fault.inj hmoved)
    | other => exact absurd rfl hrule

/-- **The run lemma for the text:** with spaces in it, it is made of the recovered pieces. The
induction is on the pieces, with `Arrived` as its invariant, as in the next lemma. -/
theorem Arrived.blankOut_flatMap (h : Arrived earlier covered here pieces)
    (hproper : ∀ p ∈ pieces, p.Proper) :
    blankOut covered here.offset (pieces.flatMap Piece.text) = recoveredText pieces := by
  induction pieces generalizing earlier here with
  | nil => rfl
  | cons p pieces ih =>
    obtain ⟨hp, hpieces⟩ := List.forall_mem_cons.1 hproper
    have hne : ∀ q ∈ pieces, q.text ≠ [] := fun q hq => (hpieces q hq).matched.ne_nil
    rw [List.flatMap_cons, h.blankOut_text hp hne, ih h.next hpieces]
    rfl

/-- **The run lemma for what is found:** the recovered pieces are found instead of the pieces, and
at the end the two runs are as far apart as bytes have been saved. -/
theorem Arrived.findings_recover (h : Arrived earlier covered here pieces)
    (hproper : ∀ p ∈ pieces, p.Proper)
    (hplace : here = here'.shift (saved covered here.offset) 0) :
    List.Forall₂ (Finding.Recovers covered) (findings here pieces)
        (findings here' (pieces.map Piece.recovered)) ∧
      here.past (pieces.flatMap Piece.text) = (here'.past (recoveredText pieces)).shift
        (saved covered (here.past (pieces.flatMap Piece.text)).offset) 0 := by
  induction pieces generalizing earlier here here' with
  | nil => exact ⟨.nil, hplace⟩
  | cons p pieces ih =>
    obtain ⟨hp, hpieces⟩ := List.forall_mem_cons.1 hproper
    have hne : ∀ q ∈ p :: pieces, q.text ≠ [] := fun q hq => (hproper q hq).matched.ne_nil
    obtain ⟨hfound, hend⟩ := ih h.next hpieces (h.place_past hp hne hplace)
    refine ⟨.cons (p.finding_recovers hplace) hfound, ?_⟩
    rw [List.flatMap_cons, Place.past_append]
    exact hend.trans (congrArg (Place.shift _ 0) (Place.past_append ..).symm)

/-- The words among what is found are the same. -/
theorem forall₂_token?_recovers {found found' : List Finding}
    (h : List.Forall₂ (Finding.Recovers covered) found found') :
    List.Forall₂ (fun t t' => t = t'.shift (saved covered t.span.start) 0)
      (found.filterMap Finding.token?) (found'.filterMap Finding.token?) := by
  induction h with
  | nil => exact .nil
  | cons first _ ih =>
    cases first with
    | token ht => exact .cons ht ih
    | stray | blank | fault => exact ih

/-- The faults among what is found are the same, apart from the stray characters. -/
theorem forall₂_fault?_recovers {found found' : List Finding}
    (h : List.Forall₂ (Finding.Recovers covered) found found') :
    List.Forall₂ (fun d d' => d = d'.shift (saved covered d.span.start) 0)
      ((found.filterMap Finding.fault?).filter fun d => d.code ≠ some .unexpectedCharacter)
      (found'.filterMap Finding.fault?) := by
  induction h with
  | nil => exact .nil
  | cons first _ ih =>
    cases first with
    | @fault d _ hd ht =>
      have hfirst : Finding.fault? (.fault d) = some d := rfl
      rw [List.filterMap_cons_some hfirst, List.filter_cons_of_pos (by simpa using hd)]
      exact .cons ht ih
    | @stray d hd =>
      have hfirst : Finding.fault? (.fault d) = some d := rfl
      rw [List.filterMap_cons_some hfirst, List.filter_cons_of_neg (by simpa using hd)]
      exact ih
    | token | blank => exact ih

end Run

/-- **A stray character is as good as a space.** Let `tokens` and `faults` be what a scan of a
source returns and adds to a reporter that does not panic on errors, and replace every character in
`straySpans faults` by a space (`withSpaces`). A scan of this text returns the same tokens, the end
of the input included, and adds the same faults but for those with the code `unexpectedCharacter`.
All that differs is the offsets: each token and fault of the source is that of the other text under
`shift`, by the bytes `saved` before it and no line. -/
theorem tokenize_withSpaces (source : String) (r r' : Reporter)
    (hr : r.policy.panicOnError = false) (hr' : r'.policy.panicOnError = false) :
    ∃ tokens faults tokens' faults',
      (tokenize source r).result = .ok tokens ∧
      (tokenize source r).reporter.kept = r.kept ++ faults.toArray ∧
      (tokenize (withSpaces source (straySpans faults)) r').result = .ok tokens' ∧
      (tokenize (withSpaces source (straySpans faults)) r').reporter.kept =
        r'.kept ++ faults'.toArray ∧
      List.Forall₂ (fun t t' => t = t'.shift (saved (straySpans faults) t.span.start) 0)
        tokens tokens' ∧
      List.Forall₂ (fun d d' => d = d'.shift (saved (straySpans faults) d.span.start) 0)
        (faults.filter fun d => d.code ≠ some .unexpectedCharacter) faults' := by
  obtain ⟨pieces, hcut⟩ := exists_lexes source
  -- at the start nothing has been saved
  have hstart : Arrived [] (straySpans (faultsOf pieces)) .start pieces := ⟨rfl, nofun⟩
  have hplace : Place.start =
      Place.start.shift (saved (straySpans (faultsOf pieces)) Place.start.offset) 0 := by
    rw [hstart.saved_eq hcut.text_ne_nil]
    rfl
  have htext : withSpaces source (straySpans (faultsOf pieces)) =
      String.ofList (recoveredText pieces) := by
    rw [withSpaces, ← hstart.blankOut_flatMap hcut.proper, hcut.flatMap_text]
    rfl
  obtain ⟨hfound, hend⟩ := hstart.findings_recover hcut.proper hplace
  have hcut' : Lexes (String.ofList (recoveredText pieces)).toList
      (pieces.map Piece.recovered) := by
    rw [String.toList_ofList]
    exact hcut.recover
  have hresult := tokenize_runs (r := r) hcut (.inl hr)
  have hresult' := tokenize_runs (r := r') hcut' (.inl hr')
  have hkept := (tokenize_ok hcut hresult).2
  have hkept' := (tokenize_ok hcut' hresult').2
  refine ⟨tokensOf pieces ++ [endTokenOf source], faultsOf pieces,
    tokensOf (pieces.map Piece.recovered) ++ [endTokenOf (String.ofList (recoveredText pieces))],
    faultsOf (pieces.map Piece.recovered), hresult, ?_, ?_, ?_, ?_, forall₂_fault?_recovers hfound⟩
  · rw [hkept]
  · rw [htext, hresult']
  · rw [htext, hkept']
  -- the end of the input is found like a word, at the end of both runs
  refine List.rel_append (forall₂_token?_recovers hfound) (.cons ?_ .nil)
  rw [hcut.flatMap_text] at hend
  rw [endTokenOf_eq, endTokenOf_eq, String.toList_ofList, ← Place.endToken_shift]
  exact congrArg Place.endToken hend

/-- Stray characters of two and three bytes where `!=` and `1.2` could have been, and an open string
with such a character in it. -/
theorem tokenize_withSpaces_operators : Reporter.new.policy.panicOnError = false ∧
    ∃ tokens faults tokens' faults',
      (tokenize "!é=1.€2\"é" .new).result = .ok tokens ∧
      (tokenize "!é=1.€2\"é" .new).reporter.diagnostics = faults ∧
      withSpaces "!é=1.€2\"é" (straySpans faults) = "! =1. 2\"é" ∧
      (tokenize "! =1. 2\"é" .new).result = .ok tokens' ∧
      (tokenize "! =1. 2\"é" .new).reporter.diagnostics = faults' ∧
      tokens'.map (·.span) = [⟨0, 1, 1, 1⟩, ⟨2, 3, 1, 3⟩, ⟨3, 4, 1, 4⟩, ⟨4, 5, 1, 5⟩, ⟨6, 7, 1, 7⟩,
        ⟨10, 10, 1, 10⟩] ∧
      List.Forall₂ (fun t t' => t = t'.shift (saved (straySpans faults) t.span.start) 0)
        tokens tokens' ∧
      List.Forall₂ (fun d d' => d = d'.shift (saved (straySpans faults) d.span.start) 0)
        (faults.filter fun d => d.code ≠ some .unexpectedCharacter) faults' := by
  obtain ⟨tokens, faults, tokens', faults', hresult, hkept, hresult', hkept', htokens, hfaults⟩ :=
    tokenize_withSpaces "!é=1.€2\"é" .new .new rfl rfl
  have hreports : (tokenize "!é=1.€2\"é" .new).reporter.diagnostics = faults := by
    rw [Reporter.diagnostics, hkept]
    simp [Reporter.new, Reporter.withPolicy]
  have hspans : straySpans (tokenize "!é=1.€2\"é" .new).reporter.diagnostics =
      [⟨1, 3, 1, 2⟩, ⟨6, 9, 1, 6⟩] := by decide +kernel
  have hspaces : withSpaces "!é=1.€2\"é" [⟨1, 3, 1, 2⟩, ⟨6, 9, 1, 6⟩] = "! =1. 2\"é" := by
    decide +kernel
  rw [← hspans, hreports] at hspaces
  rw [hspaces] at hresult' hkept'
  have hrun : (tokenize "! =1. 2\"é" .new).result.toOption.map (·.map (·.span)) =
      some [⟨0, 1, 1, 1⟩, ⟨2, 3, 1, 3⟩, ⟨3, 4, 1, 4⟩, ⟨4, 5, 1, 5⟩, ⟨6, 7, 1, 7⟩, ⟨10, 10, 1, 10⟩] := by
    decide +kernel
  rw [hresult'] at hrun
  refine ⟨rfl, tokens, faults, tokens', faults', hresult, hreports, hspaces, hresult', ?_,
    Option.some.inj hrun, htokens, hfaults⟩
  rw [Reporter.diagnostics, hkept']
  simp [Reporter.new, Reporter.withPolicy]

end SourceScan
