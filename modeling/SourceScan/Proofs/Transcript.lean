import SourceScan.Proofs.Policies

/-!
# The log of a scan

The log of `tokenize` has an entry with the size of the source, then the entries of words and of
reports, then an entry with their numbers. The scan traces words, and `Reporter.emit` echoes
reports. An `Event` is a word or a report, and `Event.inOrder` merges the words and the reports of a
source by their first bytes.

The events of a scan are those of the `findings` of its pieces, so they stand in the order of the
text (**`pairwise_start_findings`**), and merging gives this order back (**`Event.inOrder_eq`**).
`Reporter.deliver` logs the entries of its events, up to the last one (**`log_deliver_of_ok`**) or
up to the report that halts it (**`log_deliver_of_error`**).
-/

namespace SourceScan

/-- Something a scan has to tell: a word it read, or a diagnostic it reported. -/
inductive Event where
  | word (t : Token)
  | report (d : Diagnostic)

namespace Event

/-- The first byte of the text that an event is about. -/
def start : Event → Nat
  | word t => t.span.start
  | report d => d.span.start

/-- **What an event leaves in the log.** A word is traced with its place. A report is an error, and
is there only if reports are echoed. -/
def entries (echo : Bool) : Event → List Log.Entry
  | word t => [⟨.trace, s!"{t} at {t.span.line}:{t.span.column}"⟩]
  | report d => if echo then [⟨.error, toString d⟩] else []

/-- The words and the reports of a source in one order, that of their first bytes. -/
def inOrder (words : List Token) (reports : List Diagnostic) : List Event :=
  (words.map word).merge (reports.map report) fun a b => a.start ≤ b.start

end Event

/-- The first line of the log. -/
def logHead (source : String) : Log.Entry :=
  ⟨.debug, s!"scanning {source.utf8ByteSize} bytes"⟩

/-- **The log of a scan,** as a function of the source, its words, the end of the input, and the
reports. -/
def transcript (echo : Bool) (source : String) (words : List Token) (eof : Token)
    (reports : List Diagnostic) : List Log.Entry :=
  logHead source :: ((Event.inOrder words reports).flatMap (Event.entries echo) ++
    [⟨.debug, s!"scanned {words.length + 1} tokens over {eof.line} lines, {reports.length} errors"⟩])

/-! ## Events in order -/

/-- What there is to tell about a finding. -/
def Finding.event? : Finding → Option Event
  | token t => some (.word t)
  | fault d => some (.report d)
  | blank => none

/-- An event starts where the finding it is about does. -/
theorem Finding.span?_of_event? {f : Finding} {e : Event} (h : f.event? = some e) :
    ∃ s, f.span? = some s ∧ s.start = e.start := by
  cases f with
  | token t | fault d =>
    cases h
    exact ⟨_, rfl, rfl⟩
  | blank => cases h

/-- Events stand in the order of the text. -/
theorem pairwise_start_findings {here : Place} {pieces : List Piece}
    (hne : ∀ p ∈ pieces, p.text ≠ []) :
    ((findings here pieces).filterMap Finding.event?).Pairwise (·.start < ·.start) := by
  refine (pairwise_findings hne).filterMap Finding.event? ?_
  intro f g horder e he e' he'
  obtain ⟨s, hs, hstart⟩ := Finding.span?_of_event? he
  obtain ⟨t, ht, hstart'⟩ := Finding.span?_of_event? he'
  -- a finding has bytes, and the next one is behind them
  obtain ⟨hbytes, hbehind⟩ := horder s hs t ht
  rw [← hstart, ← hstart']
  exact Nat.lt_of_lt_of_le hbytes hbehind

/-- The faults of findings are among their events. -/
theorem report_mem_events {found : List Finding} {d : Diagnostic}
    (hd : d ∈ found.filterMap Finding.fault?) : .report d ∈ found.filterMap Finding.event? := by
  obtain ⟨f, hf, hfault⟩ := List.mem_filterMap.1 hd
  refine List.mem_filterMap.2 ⟨f, hf, ?_⟩
  cases f <;> cases hfault
  rfl

/-- The words of findings are among their events. -/
theorem word_mem_events {found : List Finding} {t : Token}
    (ht : t ∈ found.filterMap Finding.token?) : .word t ∈ found.filterMap Finding.event? := by
  obtain ⟨f, hf, htoken⟩ := List.mem_filterMap.1 ht
  refine List.mem_filterMap.2 ⟨f, hf, ?_⟩
  cases f <;> cases htoken
  rfl

/-- A word in front of all reports comes first. -/
theorem Event.inOrder_cons_word {t : Token} {words : List Token} {reports : List Diagnostic}
    (h : ∀ d ∈ reports, t.span.start < d.span.start) :
    inOrder (t :: words) reports = word t :: inOrder words reports := by
  cases reports with
  | nil => simp [inOrder]
  | cons d reports =>
    have hle : (word t).start ≤ (report d).start := Nat.le_of_lt (h d List.mem_cons_self)
    rw [inOrder, List.map_cons, List.map_cons, List.cons_merge_cons_pos _ _ _ (by simpa using hle)]
    rfl

/-- A report in front of all words comes first. -/
theorem Event.inOrder_cons_report {d : Diagnostic} {words : List Token} {reports : List Diagnostic}
    (h : ∀ t ∈ words, d.span.start < t.span.start) :
    inOrder words (d :: reports) = report d :: inOrder words reports := by
  cases words with
  | nil => simp [inOrder]
  | cons t words =>
    have hlt : (report d).start < (word t).start := h t List.mem_cons_self
    rw [inOrder, List.map_cons, List.map_cons, List.cons_merge_cons_neg _ _ _ (by simpa using hlt)]
    rfl

/-- **Order decides.** When the events of some findings are in order, merging their words and their
reports gives the events back. The induction is on the findings: the event of the first one starts
in front of all others, so it is the first of the merged ones. -/
theorem Event.inOrder_eq {found : List Finding}
    (h : (found.filterMap Finding.event?).Pairwise (·.start < ·.start)) :
    inOrder (found.filterMap Finding.token?) (found.filterMap Finding.fault?) =
      found.filterMap Finding.event? := by
  induction found with
  | nil => simp [inOrder]
  | cons f found ih =>
    cases f with
    | blank => exact ih h
    | token t =>
      obtain ⟨hfirst, hothers⟩ := List.pairwise_cons.1 h
      have hreports : ∀ d ∈ found.filterMap Finding.fault?, t.span.start < d.span.start :=
        fun d hd => hfirst (.report d) (report_mem_events hd)
      exact (inOrder_cons_word hreports).trans (congrArg (word t :: ·) (ih hothers))
    | fault d =>
      obtain ⟨hfirst, hothers⟩ := List.pairwise_cons.1 h
      have hwords : ∀ t ∈ found.filterMap Finding.token?, d.span.start < t.span.start :=
        fun t ht => hfirst (.word t) (word_mem_events ht)
      exact (inOrder_cons_report hwords).trans (congrArg (report d :: ·) (ih hothers))

/-! ## What a delivery logs -/

section Deliveries

variable {r : Reporter} {found : List Finding}

/-- A report is echoed before anything else is done with it. -/
theorem Reporter.log_emit {d : Diagnostic} (hd : d.severity = .error) :
    (r.emit d).log = (Event.report d).entries r.policy.echo := by
  have hentry : d.logEntry = ⟨.error, toString d⟩ := by
    rw [Diagnostic.logEntry, hd]
    rfl
  rw [emit, Event.entries, hentry]
  split <;> rfl

/-- The entry of a word is the same with and without echo. -/
theorem Token.singleton_logEntry (t : Token) (echo : Bool) :
    [t.logEntry] = (Event.word t).entries echo := by
  simp only [logEntry, Event.entries, toString, String.append_assoc]

/-- **A delivery that runs to its end** logs the entries of all its events. The induction is on the
findings, for every reporter, since a report leaves another reporter to the findings behind it. -/
theorem Reporter.log_deliver_of_ok {words : List Token}
    (herror : ∀ d ∈ found.filterMap Finding.fault?, d.severity = .error)
    (h : (r.deliver found).result = .ok words) : (r.deliver found).log =
      (found.filterMap Finding.event?).flatMap (Event.entries r.policy.echo) := by
  induction found generalizing r words with
  | nil => rfl
  | cons f found ih =>
    cases f with
    | blank => exact ih herror h
    | token t =>
      -- a word is returned only if the delivery behind it returns
      cases hrest : (r.deliver found).result with
      | error halt =>
        simp only [deliver, hrest] at h
        cases h
      | ok others =>
        show [t.logEntry] ++ (r.deliver found).log = _
        rw [ih herror hrest, t.singleton_logEntry r.policy.echo]
        rfl
    | fault d =>
      obtain ⟨hd, hothers⟩ := List.forall_mem_cons.1 herror
      by_cases hhalt : r.policy.HaltsOn d
      · simp only [deliver, (emit_of_haltsOn hhalt).1] at h
        cases h
      · obtain ⟨hresult, hreporter⟩ := emit_of_not_haltsOn hhalt
        simp only [deliver, hresult] at h ⊢
        -- the reporter keeps its policy, so it goes on echoing as before
        rw [ih hothers h, log_emit hd, hreporter]
        rfl

/-- **A delivery that is halted** logs the entries of its events up to the report that halts it,
which is `halt.cause`. The induction is as for `log_deliver_of_ok`. -/
theorem Reporter.log_deliver_of_error {halt : Halt}
    (herror : ∀ d ∈ found.filterMap Finding.fault?, d.severity = .error)
    (h : (r.deliver found).result = .error halt) : ∃ before after,
      found.filterMap Finding.event? = before ++ .report halt.cause :: after ∧
        (r.deliver found).log =
          (before ++ [.report halt.cause]).flatMap (Event.entries r.policy.echo) := by
  induction found generalizing r with
  | nil => cases h
  | cons f found ih =>
    cases f with
    | blank => exact ih herror h
    | token t =>
      cases hrest : (r.deliver found).result with
      | ok others =>
        simp only [deliver, hrest] at h
        cases h
      | error other =>
        simp only [deliver, hrest] at h
        cases h
        obtain ⟨before, after, hevents, hlog⟩ := ih herror hrest
        refine ⟨.word t :: before, after, congrArg (List.cons _) hevents, ?_⟩
        show [t.logEntry] ++ (r.deliver found).log = _
        rw [hlog, t.singleton_logEntry r.policy.echo]
        rfl
    | fault d =>
      obtain ⟨hd, hothers⟩ := List.forall_mem_cons.1 herror
      by_cases hhalt : r.policy.HaltsOn d
      · -- the first report halts: nothing is logged before it, and nothing behind it
        simp only [deliver, (emit_of_haltsOn hhalt).1] at h ⊢
        cases h
        refine ⟨[], found.filterMap Finding.event?, rfl, ?_⟩
        rw [log_emit hd, List.nil_append, List.flatMap_singleton]
      · obtain ⟨hresult, hreporter⟩ := emit_of_not_haltsOn hhalt
        simp only [deliver, hresult] at h ⊢
        obtain ⟨before, after, hevents, hlog⟩ := ih hothers h
        refine ⟨.report d :: before, after, congrArg (List.cons _) hevents, ?_⟩
        rw [hlog, log_emit hd, hreporter]
        rfl

end Deliveries

/-! ## What a scan logs -/

section Scans

variable {source : String} {r : Reporter} {pieces : List Piece}

/-- The events of a scan are its words and its reports in their order. -/
theorem events_eq (hcut : Lexes source.toList pieces) :
    (findings .start pieces).filterMap Finding.event? =
      Event.inOrder (tokensOf pieces) (faultsOf pieces) :=
  (Event.inOrder_eq (pairwise_start_findings hcut.text_ne_nil)).symm

/-- Errors that are added to a reporter are counted in addition. -/
theorem Reporter.errorCount_append {ds : List Diagnostic} (h : ∀ d ∈ ds, d.severity = .error) :
    Reporter.errorCount { r with kept := r.kept ++ ds.toArray } = r.errorCount + ds.length := by
  have hall : ds.toArray.countP (fun d => d.severity == .error) = ds.length := by
    rw [List.countP_toArray, List.countP_eq_length]
    intro d hd
    rw [h d hd]
    rfl
  rw [errorCount, Array.countP_append, hall, errorCount]

/-- A scan that returns tokens logs its whole transcript. -/
theorem log_tokenize_of_ok {tokens : List Token} (hcut : Lexes source.toList pieces)
    (h : (tokenize source r).result = .ok tokens) : (tokenize source r).log =
      transcript r.policy.echo source (tokensOf pieces) (endTokenOf source) (faultsOf pieces) := by
  have herror : ∀ d ∈ faultsOf pieces, d.severity = .error := fun _ => severity_of_mem_faultsOf
  obtain ⟨hfound, hend⟩ := reading_eq hcut
  have hline : (Reading.of source).stop.line = (endTokenOf source).line := by
    rw [← hend]
    rfl
  have hreporter := (tokenize_ok hcut h).2
  rw [tokenize_reporter hcut] at hreporter
  rw [tokenize_result hcut] at h
  cases hwords : (r.deliver (findings .start pieces)).result with
  | error halt =>
    rw [hwords] at h
    cases h
  | ok words =>
    have hlog := Reporter.log_deliver_of_ok herror hwords
    rw [events_eq hcut] at hlog
    obtain rfl := (Reporter.deliver_ok hwords).1
    -- the count of errors is a difference, and what the reporter held before drops out of it
    have hcount : (r.deliver (findings .start pieces)).reporter.errorCount - r.errorCount =
        (faultsOf pieces).length := by
      rw [hreporter, Reporter.errorCount_append herror, Nat.add_sub_cancel_left]
    simp only [tokenize, hfound, hwords, hlog, hcount, hline, List.length_append,
      List.length_singleton]
    rfl

/-- A scan that is halted logs its transcript up to the report that halted it. -/
theorem log_tokenize_of_error {halt : Halt} (hcut : Lexes source.toList pieces)
    (h : (tokenize source r).result = .error halt) : ∃ before after,
      Event.inOrder (tokensOf pieces) (faultsOf pieces) = before ++ .report halt.cause :: after ∧
        (tokenize source r).log = logHead source ::
          (before ++ [.report halt.cause]).flatMap (Event.entries r.policy.echo) := by
  have herror : ∀ d ∈ faultsOf pieces, d.severity = .error := fun _ => severity_of_mem_faultsOf
  have hfound := (reading_eq hcut).1
  rw [tokenize_result hcut] at h
  cases hresult : (r.deliver (findings .start pieces)).result with
  | ok words =>
    rw [hresult] at h
    cases h
  | error other =>
    rw [hresult] at h
    cases h
    obtain ⟨before, after, hevents, hlog⟩ := Reporter.log_deliver_of_error herror hresult
    rw [events_eq hcut] at hevents
    refine ⟨before, after, hevents, ?_⟩
    simp only [tokenize, hfound, hresult, hlog]
    rfl

/-- What a scan returns and adds to the reporter depends on nothing of the reporter but on whether
it halts. -/
theorem tokenize_congr {s : Reporter} (hcut : Lexes source.toList pieces)
    (hs : s.policy.panicOnError = r.policy.panicOnError) :
    (tokenize source s).result = (tokenize source r).result ∧
      ∃ added, (tokenize source r).reporter = { r with kept := r.kept ++ added } ∧
        (tokenize source s).reporter = { s with kept := s.kept ++ added } := by
  by_cases hruns : r.policy.panicOnError = false ∨ faultsOf pieces = []
  · -- both run to their end, and keep all reports
    have hr := tokenize_runs hcut hruns
    have hs := tokenize_runs hcut (hs ▸ hruns)
    exact ⟨hs.trans hr.symm, _, (tokenize_ok hcut hr).2, (tokenize_ok hcut hs).2⟩
  · -- both halt at the first report, and keep nothing
    obtain ⟨hpanic, hfaults⟩ := not_or.1 hruns
    rw [Bool.not_eq_false] at hpanic
    obtain ⟨d, others, hfirst⟩ := List.exists_cons_of_ne_nil hfaults
    have hd : d.severity = .error := severity_of_mem_faultsOf (hfirst ▸ List.mem_cons_self)
    obtain ⟨hr, hrkept⟩ := Reporter.deliver_halts hpanic hfirst hd
    obtain ⟨hs, hskept⟩ := Reporter.deliver_halts (hs.trans hpanic) hfirst hd
    rw [tokenize_result hcut, tokenize_result hcut, tokenize_reporter hcut, tokenize_reporter hcut,
      hr, hs, hrkept, hskept]
    exact ⟨rfl, #[], by simp, by simp⟩

end Scans

/-- **The log is a transcript.** Let `words` and `reports` be what a scan with the fresh reporter
`Reporter.new` returns and keeps. A scan of the same source with any reporter that comes to its end
logs their whole `transcript`: the head, the events in the order of the source (`Event.inOrder`),
and the sum, which counts the reports of this scan and not those that the reporter held before. A
scan that is halted logs the same up to the report that halted it. A logger with the level `most`
gets the entries that pass it (`Log.Entry.passes`). What a scan returns and adds to the reporter is
the same with and without echo, whatever else the reporter holds. -/
theorem tokenize_transcript (source : String) (r : Reporter) (most : Option Log.Level) :
    ∃ words eof reports,
      (tokenize source .new).result = .ok (words ++ [eof]) ∧ eof.kind = .endOfInput ∧
      (∀ t ∈ words, t.kind ≠ .endOfInput) ∧
      (tokenize source .new).reporter.diagnostics = reports ∧
      (Event.inOrder words reports).Pairwise (·.start < ·.start) ∧
      (∀ tokens, (tokenize source r).result = .ok tokens → tokens = words ++ [eof] ∧
        (tokenize source r).reporter = { r with kept := r.kept ++ reports.toArray } ∧
        (tokenize source r).log = transcript r.policy.echo source words eof reports ∧
        Log.heard most (tokenize source r).log =
          (transcript r.policy.echo source words eof reports).filter (·.passes most)) ∧
      (∀ halt, (tokenize source r).result = .error halt → ∃ before after,
        Event.inOrder words reports = before ++ .report halt.cause :: after ∧
        (tokenize source r).log = logHead source ::
          (before ++ [Event.report halt.cause]).flatMap (Event.entries r.policy.echo) ∧
        Log.heard most (tokenize source r).log = (logHead source ::
          (before ++ [Event.report halt.cause]).flatMap (Event.entries r.policy.echo)).filter
            (·.passes most)) ∧
      ∀ s : Reporter, s.policy.panicOnError = r.policy.panicOnError →
        (tokenize source s).result = (tokenize source r).result ∧
        ∃ added, (tokenize source r).reporter = { r with kept := r.kept ++ added } ∧
          (tokenize source s).reporter = { s with kept := s.kept ++ added } := by
  obtain ⟨pieces, hcut⟩ := exists_lexes source
  have hnew := tokenize_runs (r := .new) hcut (.inl rfl)
  refine ⟨tokensOf pieces, endTokenOf source, faultsOf pieces, hnew, rfl,
    fun t ht => ne_endOfInput_of_mem_tokensOf hcut ht, ?_, ?_, ?_, ?_, ?_⟩
  · -- the fresh reporter held nothing before
    rw [(tokenize_ok hcut hnew).2, Reporter.diagnostics, Array.toList_append]
    rfl
  · rw [← events_eq hcut]
    exact pairwise_start_findings hcut.text_ne_nil
  · intro tokens htokens
    obtain ⟨hwords, hreporter⟩ := tokenize_ok hcut htokens
    have hlog := log_tokenize_of_ok hcut htokens
    refine ⟨hwords, hreporter, hlog, ?_⟩
    rw [hlog, Log.heard]
  · intro halt hhalt
    obtain ⟨before, after, hevents, hlog⟩ := log_tokenize_of_error hcut hhalt
    refine ⟨before, after, hevents, hlog, ?_⟩
    rw [hlog, Log.heard]
  · intro s hs
    exact tokenize_congr hcut hs

/-- A source with a word on each side of a fault, scanned by a reporter that holds an error already
and echoes, and by one that halts. -/
theorem tokenize_transcript_both_ways :
    let held : Array Diagnostic := #[.error "old" (.point 7 0)]
    (∃ words eof reports,
      (tokenize "1\n@ +" ⟨⟨false, true⟩, held⟩).result = .ok (words ++ [eof]) ∧
      (transcript true "1\n@ +" words eof reports).filter (·.passes (some .trace)) =
        [⟨.debug, "scanning 5 bytes"⟩, ⟨.trace, "NUMBER 1 1.0 at 1:1"⟩,
          ⟨.error, "[line 2] Error: Unexpected character."⟩, ⟨.trace, "PLUS + null at 2:3"⟩,
          ⟨.debug, "scanned 3 tokens over 2 lines, 1 errors"⟩]) ∧
    ∃ halt before, (tokenize "1\n@ +" ⟨⟨true, true⟩, held⟩).result = .error halt ∧
      (logHead "1\n@ +" ::
        (before ++ [.report halt.cause]).flatMap (Event.entries true)).filter (·.passes (some .debug)) =
          [⟨.debug, "scanning 5 bytes"⟩, ⟨.error, "[line 2] Error: Unexpected character."⟩] := by
  intro held
  constructor
  · obtain ⟨words, eof, reports, -, -, -, -, -, hends, -, -⟩ :=
      tokenize_transcript "1\n@ +" ⟨⟨false, true⟩, held⟩ (some .trace)
    obtain ⟨tokens, hresult⟩ :=
      exists_tokens_of_tolerant (r := ⟨⟨false, true⟩, held⟩) "1\n@ +" rfl
    obtain ⟨rfl, -, -, hlog⟩ := hends tokens hresult
    refine ⟨words, eof, reports, hresult, hlog.symm.trans ?_⟩
    decide +kernel
  · obtain ⟨words, eof, reports, -, -, -, -, -, -, hhalts, -⟩ :=
      tokenize_transcript "1\n@ +" ⟨⟨true, true⟩, held⟩ (some .debug)
    cases hresult : (tokenize "1\n@ +" ⟨⟨true, true⟩, held⟩).result with
    | ok tokens =>
      have hnone : (tokenize "1\n@ +" ⟨⟨true, true⟩, held⟩).result.toOption.isNone = true := by
        decide +kernel
      rw [hresult] at hnone
      cases hnone
    | error halt =>
      obtain ⟨before, after, -, -, hlog⟩ := hhalts halt hresult
      refine ⟨halt, before, rfl, hlog.symm.trans ?_⟩
      decide +kernel

end SourceScan
