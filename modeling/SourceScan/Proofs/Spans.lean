import Mathlib.Data.Set.Card
import Mathlib.Order.Interval.Finset.Nat
import SourceScan.Proofs.Delivery

/-!
# Spans as ranges of bytes

A span contains the bytes from its start up to its stop, and it is as long as there are such bytes,
also when its bounds are the wrong way round. Being empty asks for more: a reversed span contains
nothing and still does not count as empty (**`Span.length_isEmpty`**).

Covering is how spans are put together. It can be done in many ways, since two neighbours may be
covered first, or last, or by parts: a `Span.Grouping` is one such way. When the spans stand in
order (**`Span.InOrder`**), it does not matter which way is taken: what comes out reaches from the
start of the first span to the stop of the last (**`Span.Grouping.whole_eq`**). The tokens of a scan
stand in order (**`inOrder_tokens`**), and so neighbouring tokens cover a stretch of the source.
-/

namespace SourceScan

namespace Span

/-! ## How much a span contains -/

/-- What `contains` computes, as a proposition. -/
theorem contains_iff {s : Span} {offset : Nat} :
    s.contains offset = true ↔ s.start ≤ offset ∧ offset < s.stop := by
  rw [contains, Bool.and_eq_true, decide_eq_true_eq, decide_eq_true_eq]

theorem isEmpty_iff {s : Span} : s.isEmpty = true ↔ s.start = s.stop := by
  rw [isEmpty, beq_iff_eq]

theorem length_eq_zero_iff {s : Span} : s.length = 0 ↔ s.stop ≤ s.start := Nat.sub_eq_zero_iff_le

/-- A span is as long as the offsets it contains are many. -/
theorem encard_contains (s : Span) : {offset | s.contains offset = true}.encard = s.length := by
  have hrange : {offset | s.contains offset = true} = ↑(Finset.Ico s.start s.stop) := by
    ext offset
    rw [Set.mem_ofPred_eq, contains_iff, Finset.mem_coe, Finset.mem_Ico]
  rw [hrange, Set.encard_coe_eq_coe_finsetCard, Nat.card_Ico, length]

/-- **Length and emptiness.** For every span, `length` is the number of offsets that it `contains`.
And `isEmpty` says that it contains none just if `start ≤ stop`: a reversed span contains nothing,
and its `isEmpty` is false. -/
theorem length_isEmpty (s : Span) :
    {offset | s.contains offset = true}.encard = s.length ∧
      ((s.isEmpty = true ↔ {offset | s.contains offset = true}.encard = 0) ↔ s.start ≤ s.stop) := by
  refine ⟨s.encard_contains, ?_⟩
  rw [s.encard_contains, Nat.cast_eq_zero, isEmpty_iff, length_eq_zero_iff]
  omega

/-- A reversed span contains nothing, but is not empty. -/
theorem length_isEmpty_reversed : ¬ ((Span.mk 1 0 1 1).isEmpty = true ↔
    {offset | (Span.mk 1 0 1 1).contains offset = true}.encard = 0) := by
  intro hempty
  rw [encard_contains] at hempty
  exact absurd (hempty.2 rfl) (by decide)

/-! ## Spans in order -/

/-- **Spans that follow one another:** their bounds are in order, and each ends before the next ones
begin. -/
structure InOrder (spans : List Span) : Prop where
  start_le_stop : ∀ s ∈ spans, s.start ≤ s.stop
  apart : spans.Pairwise fun s t => s.stop ≤ t.start

/-- Some spans of a row are a row. -/
theorem InOrder.sublist {spans others : List Span} (h : InOrder others)
    (hsub : spans.Sublist others) : InOrder spans :=
  ⟨fun s hs => h.start_le_stop s (hsub.subset hs), h.apart.sublist hsub⟩

namespace InOrder

variable {spans : List Span} {i j k : Nat}

/-- Earlier spans end before later ones begin. -/
theorem stop_le_start (h : InOrder spans) (hij : i < j) (hj : j < spans.length) :
    spans[i].stop ≤ spans[j].start :=
  List.pairwise_iff_getElem.1 h.apart i j _ hj hij

theorem start_le_stop_getElem (h : InOrder spans) (hi : i < spans.length) :
    spans[i].start ≤ spans[i].stop :=
  h.start_le_stop _ (List.getElem_mem hi)

/-- Starts are in order, those of one span included. -/
theorem start_le_start (h : InOrder spans) (hij : i ≤ j) (hj : j < spans.length) :
    spans[i].start ≤ spans[j].start := by
  rcases hij.eq_or_lt with rfl | hlt
  · exact Nat.le_refl _
  · exact (h.start_le_stop_getElem _).trans (h.stop_le_start hlt hj)

/-- Stops are in order, those of one span included. -/
theorem stop_le_stop (h : InOrder spans) (hij : i ≤ j) (hj : j < spans.length) :
    spans[i].stop ≤ spans[j].stop := by
  rcases hij.eq_or_lt with rfl | hlt
  · exact Nat.le_refl _
  · exact (h.stop_le_start hlt hj).trans (h.start_le_stop_getElem hj)

/-- Covering two spans of a row, the first of them first, loses nothing on either side. -/
theorem cover_eq (h : InOrder spans) (hij : i ≤ j) (hj : j < spans.length) :
    spans[i].cover spans[j] =
      ⟨spans[i].start, spans[j].stop, spans[i].line, spans[i].column⟩ := by
  rw [cover, Nat.min_eq_left (h.start_le_start hij hj), Nat.max_eq_right (h.stop_le_stop hij hj)]

/-- **A stretch of a row holds the bytes of its own spans,** and none of the spans on either
side. -/
theorem between_iff (h : InOrder spans) (hij : i ≤ j) (hj : j < spans.length)
    (hk : k < spans.length) {offset : Nat} (hoffset : spans[k].contains offset = true) :
    spans[i].start ≤ offset ∧ offset < spans[j].stop ↔ i ≤ k ∧ k ≤ j := by
  obtain ⟨hstart, hstop⟩ := contains_iff.1 hoffset
  constructor
  · rintro ⟨hfrom, hto⟩
    -- a span outside ends before the stretch, or begins behind it
    refine ⟨Nat.le_of_not_lt fun hbefore => ?_, Nat.le_of_not_lt fun hbehind => ?_⟩
    · have hends := h.stop_le_start hbefore (Nat.lt_of_le_of_lt hij hj)
      omega
    · have hends := h.stop_le_start hbehind hk
      omega
  · rintro ⟨hik, hkj⟩
    exact ⟨(h.start_le_start hik hk).trans hstart, hstop.trans_le (h.stop_le_stop hkj hj)⟩

end InOrder

/-! ## Covering two by two -/

/-- **A way to cover a row of spans two by two,** down to one. -/
inductive Grouping where
  | one (s : Span)
  | both (left right : Grouping)

namespace Grouping

/-- The row of spans. -/
def spans : Grouping → List Span
  | one s => [s]
  | both left right => left.spans ++ right.spans

/-- What comes out in the end. -/
def whole : Grouping → Span
  | one s => s
  | both left right => left.whole.cover right.whole

/-- The span at the left end. -/
def first : Grouping → Span
  | one s => s
  | both left _ => left.first

/-- The span at the right end. -/
def last : Grouping → Span
  | one s => s
  | both _ right => right.last

/-- The first span of the row is the one at the left end. -/
theorem head?_spans (g : Grouping) : g.spans.head? = some g.first := by
  induction g with
  | one s => rfl
  | both left right ihleft _ => rw [spans, List.head?_append, ihleft, first, Option.some_or]

/-- The last span of the row is the one at the right end. -/
theorem getLast?_spans (g : Grouping) : g.spans.getLast? = some g.last := by
  induction g with
  | one s => rfl
  | both left right _ ihright => rw [spans, List.getLast?_append, ihright, last, Option.some_or]

theorem first_mem (g : Grouping) : g.first ∈ g.spans := List.mem_of_head? g.head?_spans

theorem last_mem (g : Grouping) : g.last ∈ g.spans := List.mem_of_getLast? g.getLast?_spans

/-- **Spans in order are covered from the first to the last,** however they are grouped. The
induction is on the grouping; both halves are in order themselves. -/
theorem whole_eq (g : Grouping) (h : InOrder g.spans) :
    g.whole = ⟨g.first.start, g.last.stop, g.first.line, g.first.column⟩ := by
  induction g with
  | one s => rfl
  | both left right ihleft ihright =>
    have hleft : InOrder left.spans := h.sublist (List.sublist_append_left _ _)
    have hright : InOrder right.spans := h.sublist (List.sublist_append_right _ _)
    -- everything on the left ends before anything on the right begins
    have hapart := (List.pairwise_append.1 h.apart).2.2
    have hstart : left.first.start ≤ right.first.start :=
      (hleft.start_le_stop _ left.first_mem).trans (hapart _ left.first_mem _ right.first_mem)
    have hstop : left.last.stop ≤ right.last.stop :=
      (hapart _ left.last_mem _ right.last_mem).trans (hright.start_le_stop _ right.last_mem)
    rw [whole, ihleft hleft, ihright hright, cover, Nat.min_eq_left hstart, Nat.max_eq_right hstop]
    rfl

/-- The two ends of a grouping of some neighbours in a row. -/
theorem first_last_of_spans_eq {g : Grouping} {spans : List Span} {i j : Nat} (hij : i ≤ j)
    (hj : j < spans.length) (hg : g.spans = (spans.take (j + 1)).drop i) :
    g.first = spans[i] ∧ g.last = spans[j] := by
  have hlong : i < (spans.take (j + 1)).length := by
    rw [List.length_take]
    omega
  -- both are ends of a list, and that is given as a stretch of the row
  constructor
  · apply Option.some.inj
    rw [← head?_spans, hg, List.head?_drop, List.getElem?_eq_getElem hlong, List.getElem_take]
  · apply Option.some.inj
    rw [← getLast?_spans, hg, List.getLast?_drop, if_neg (Nat.not_le_of_lt hlong),
      List.getLast?_take, if_neg (Nat.succ_ne_zero j), Nat.add_sub_cancel,
      List.getElem?_eq_getElem hj, Option.some_or]

/-- **Neighbours in a row in order** are covered from the first of them to the last. -/
theorem whole_of_spans_eq {g : Grouping} {spans : List Span} {i j : Nat} (h : InOrder spans)
    (hij : i ≤ j) (hj : j < spans.length) (hg : g.spans = (spans.take (j + 1)).drop i) :
    g.whole = ⟨spans[i].start, spans[j].stop, spans[i].line, spans[i].column⟩ := by
  have hrow : InOrder g.spans := by
    rw [hg]
    exact h.sublist ((List.drop_sublist _ _).trans (List.take_sublist _ _))
  obtain ⟨hfirst, hlast⟩ := first_last_of_spans_eq hij hj hg
  rw [g.whole_eq hrow, hfirst, hlast]

end Grouping

end Span

/-! ## The tokens of a source -/

/-- **Tokens stand in order.** The end of the input is behind all words, and covers nothing. -/
theorem inOrder_tokens {source : String} {pieces : List Piece} (hcut : Lexes source.toList pieces) :
    Span.InOrder ((tokensOf pieces ++ [endTokenOf source]).map Token.span) := by
  constructor
  · intro s hs
    obtain ⟨t, ht, rfl⟩ := List.mem_map.1 hs
    rcases List.mem_append.1 ht with hword | hend
    · obtain ⟨f, hf, htoken⟩ := List.mem_filterMap.1 hword
      exact (span_of_mem_findings hcut.text_ne_nil hf (Finding.span?_of_token? htoken)).2.1.le
    · cases List.mem_singleton.1 hend
      exact Nat.le_refl _
  · rw [List.pairwise_map, List.pairwise_append]
    refine ⟨?_, List.pairwise_singleton _ _, fun t ht e he => ?_⟩
    · refine (pairwise_findings hcut.text_ne_nil).filterMap Finding.token? ?_
      intro f g horder t ht u hu
      exact (horder _ (Finding.span?_of_token? ht) _ (Finding.span?_of_token? hu)).2
    · cases List.mem_singleton.1 he
      have hstop := stop_le_of_mem_tokensOf hcut ht
      rwa [String.ofList_toList] at hstop

/-- A token begins and ends where the source can be cut. -/
theorem exists_cuts_of_token {source : String} {pieces : List Piece} {t : Token}
    (hcut : Lexes source.toList pieces) (ht : t ∈ tokensOf pieces ++ [endTokenOf source]) :
    ∃ before text : List Char, before <+: source.toList ∧ before ++ text <+: source.toList ∧
      (String.ofList before).utf8ByteSize = t.span.start ∧
      (String.ofList (before ++ text)).utf8ByteSize = t.span.stop := by
  rcases List.mem_append.1 ht with hword | hend
  · -- a word stands between the text before it and the text behind it
    obtain ⟨before, word, after, hsource, -, heq⟩ := mem_tokensOf hcut hword
    have hspan : t.span = (Place.start.past before).span word := congrArg Token.span heq
    refine ⟨before, word, ⟨word ++ after, ?_⟩, ⟨after, hsource.symm⟩, ?_, ?_⟩
    · rw [hsource, List.append_assoc]
    · rw [hspan, ← Place.offset_past_start]
      rfl
    · rw [hspan, ← Place.offset_past_start, Place.past_append]
      rfl
  · cases List.mem_singleton.1 hend
    refine ⟨source.toList, [], List.prefix_refl _, ?_, ?_, ?_⟩
    · rw [List.append_nil]
    · rw [String.ofList_toList]
      rfl
    · rw [List.append_nil, String.ofList_toList]
      rfl

/-- Of two beginnings of a text, the one with fewer bytes is a beginning of the other. -/
theorem isPrefix_of_utf8ByteSize_le {a b text : List Char} (ha : a <+: text) (hb : b <+: text)
    (h : (String.ofList a).utf8ByteSize ≤ (String.ofList b).utf8ByteSize) : a <+: b := by
  rcases List.prefix_or_prefix_of_prefix ha hb with hprefix | ⟨more, rfl⟩
  · exact hprefix
  · have hnone : (String.ofList more).utf8ByteSize = 0 := by
      rw [String.ofList_append, String.utf8ByteSize_append] at h
      omega
    have hmore : more = [] := by
      rw [← String.toList_ofList (l := more), String.utf8ByteSize_eq_zero_iff.1 hnone]
      rfl
    rw [hmore, List.append_nil]

/-- The text from the beginning of one token to the end of another. -/
theorem exists_text_between {source : String} {pieces : List Piece} {t u : Token}
    (hcut : Lexes source.toList pieces) (ht : t ∈ tokensOf pieces ++ [endTokenOf source])
    (hu : u ∈ tokensOf pieces ++ [endTokenOf source]) (h : t.span.start ≤ u.span.stop) :
    ∃ before inside after : String, source = before ++ inside ++ after ∧
      before.utf8ByteSize = t.span.start ∧ (before ++ inside).utf8ByteSize = u.span.stop := by
  obtain ⟨before, _, hbefore, -, hstart, -⟩ := exists_cuts_of_token hcut ht
  obtain ⟨front, text, -, htext, -, hstop⟩ := exists_cuts_of_token hcut hu
  obtain ⟨inside, hinside⟩ : before <+: front ++ text :=
    isPrefix_of_utf8ByteSize_le hbefore htext (by rwa [hstart, hstop])
  obtain ⟨after, hafter⟩ := htext
  refine ⟨String.ofList before, String.ofList inside, String.ofList after, ?_, hstart, ?_⟩
  · rw [← String.ofList_append, ← String.ofList_append, hinside, hafter, String.ofList_toList]
  · rw [← String.ofList_append, hinside, hstop]

/-- **Neighbouring tokens cover a stretch of the source.** Let `tokens` be what scans of a source
return, and let a `Span.Grouping` have the spans of the tokens from the `i`-th to the `j`-th. Its
`whole` is the `cover` of the `i`-th and the `j`-th span: it reaches from the start of the one to
the stop of the other, at the line and column of the first. Its `length` is that of the text there
in bytes, it `contains` the offsets between, and of the offsets in the span of any token those of
the tokens from `i` to `j`. -/
theorem tokenize_covered (source : String) : ∃ tokens : List Token,
    (∀ r : Reporter, r.policy.panicOnError = false → (tokenize source r).result = .ok tokens) ∧
    (∀ r : Reporter, ∀ others, (tokenize source r).result = .ok others → others = tokens) ∧
    ∀ (i j : Nat) (hij : i ≤ j) (hj : j < tokens.length) (g : Span.Grouping),
      g.spans = ((tokens.map Token.span).take (j + 1)).drop i →
      g.whole = ⟨tokens[i].span.start, tokens[j].span.stop, tokens[i].span.line,
        tokens[i].span.column⟩ ∧
      g.whole = tokens[i].span.cover tokens[j].span ∧
      (∃ before inside after : String, source = before ++ inside ++ after ∧
        before.utf8ByteSize = tokens[i].span.start ∧
        (before ++ inside).utf8ByteSize = tokens[j].span.stop ∧
        g.whole.length = inside.utf8ByteSize) ∧
      (∀ offset, g.whole.contains offset = true ↔
        tokens[i].span.start ≤ offset ∧ offset < tokens[j].span.stop) ∧
      ∀ (k : Nat) (hk : k < tokens.length) (offset : Nat), tokens[k].span.contains offset = true →
        (g.whole.contains offset = true ↔ i ≤ k ∧ k ≤ j) := by
  obtain ⟨pieces, hcut⟩ := exists_lexes source
  have hspans := inOrder_tokens hcut
  have htext := fun t ht u hu => exists_text_between (t := t) (u := u) hcut ht hu
  refine ⟨tokensOf pieces ++ [endTokenOf source], fun r hr => tokenize_runs hcut (.inl hr),
    fun r others h => (tokenize_ok hcut h).1, ?_⟩
  -- from here on the tokens are any whose spans stand in order
  generalize tokensOf pieces ++ [endTokenOf source] = tokens at hspans htext ⊢
  intro i j hij hj g hg
  have hlast : j < (tokens.map Token.span).length := by rwa [List.length_map]
  have hwhole := Span.Grouping.whole_of_spans_eq hspans hij hlast hg
  have hcover := hspans.cover_eq hij hlast
  have hbounds := (hspans.start_le_start hij hlast).trans (hspans.start_le_stop_getElem hlast)
  simp only [List.getElem_map] at hwhole hcover hbounds
  have hcontains (offset : Nat) : g.whole.contains offset = true ↔
      tokens[i].span.start ≤ offset ∧ offset < tokens[j].span.stop := by
    rw [hwhole, Span.contains_iff]
  refine ⟨hwhole, hwhole.trans hcover.symm, ?_, hcontains, ?_⟩
  · obtain ⟨before, inside, after, hsource, hstart, hstop⟩ :=
      htext _ (List.getElem_mem _) _ (List.getElem_mem hj) hbounds
    refine ⟨before, inside, after, hsource, hstart, hstop, ?_⟩
    rw [String.utf8ByteSize_append] at hstop
    rw [hwhole]
    show tokens[j].span.stop - tokens[i].span.start = inside.utf8ByteSize
    omega
  · intro k hk offset hoffset
    have hin : k < (tokens.map Token.span).length := by rwa [List.length_map]
    have hbyte : (tokens.map Token.span)[k].contains offset = true := by rwa [List.getElem_map]
    have hbetween := hspans.between_iff hij hlast hin hbyte
    simp only [List.getElem_map] at hbetween
    rw [hcontains, hbetween]

/-- Three tokens over two lines, covered from the left and from the right. -/
theorem tokenize_covered_two_ways :
    let plus : Span := ⟨2, 3, 1, 3⟩
    let quoted : Span := ⟨4, 8, 1, 5⟩
    let semicolon : Span := ⟨9, 10, 2, 1⟩
    ∃ tokens : List Token, (tokenize "1 + \"é\"\n;" .new).result = .ok tokens ∧
      1 ≤ 3 ∧ ∃ _ : 3 < tokens.length,
      ∀ g ∈ [Span.Grouping.both (.both (.one plus) (.one quoted)) (.one semicolon),
          .both (.one plus) (.both (.one quoted) (.one semicolon))],
        g.spans = ((tokens.map Token.span).take 4).drop 1 ∧ g.whole = ⟨2, 10, 1, 3⟩ ∧
        g.whole = tokens[1].span.cover tokens[3].span := by
  intro plus quoted semicolon
  obtain ⟨tokens, hresult, -, hcovered⟩ := tokenize_covered "1 + \"é\"\n;"
  have hnew := hresult .new rfl
  have hspans : tokens.map Token.span =
      [⟨0, 1, 1, 1⟩, plus, quoted, semicolon, ⟨10, 10, 2, 2⟩] := by
    have hrun : (tokenize "1 + \"é\"\n;" .new).result.toOption.map (·.map Token.span) =
        some [⟨0, 1, 1, 1⟩, plus, quoted, semicolon, ⟨10, 10, 2, 2⟩] := by decide +kernel
    rw [hnew] at hrun
    exact Option.some.inj hrun
  have hlength : 3 < tokens.length := by
    have hfive := congrArg List.length hspans
    rw [List.length_map] at hfive
    rw [hfive]
    decide
  refine ⟨tokens, hnew, by decide, hlength, fun g hg => ?_⟩
  have hrow : g.spans = ((tokens.map Token.span).take 4).drop 1 := by
    rw [hspans]
    simp only [List.mem_cons, List.not_mem_nil, or_false] at hg
    rcases hg with rfl | rfl
    all_goals rfl
  obtain ⟨-, hcover, -⟩ := hcovered 1 3 (by decide) hlength g hrow
  refine ⟨hrow, ?_, hcover⟩
  simp only [List.mem_cons, List.not_mem_nil, or_false] at hg
  rcases hg with rfl | rfl
  all_goals decide

end SourceScan
