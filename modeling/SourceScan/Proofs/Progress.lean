import SourceScan.Proofs.Delivery
import SourceScan.Proofs.PlainLoop

/-!
# The loop never fails and always moves on

Nothing keeps the numbers of a `Scanner` within its text, except what the loop does with them. It
begins at the place of a cursor, and each lexeme leads from the place of a cursor to the place of
another one, further on. At the place of a cursor no operation fails.

* **`Scanner.scanToken?_follows`** is the step: a lexeme is read as the step of the cursor reads it.
* **`Scanner.Reached.stands`** is what every reached state has in common, by induction on the
  iterations.
* **`Scanner.loop?_delivers`** is the run, by the recursion of the cursor.
* **`scan?_eq_tokenize`**: the loop with the reporter in it comes to the same as reading first and
  delivering afterwards, for every reporter, halting or not.
-/

namespace SourceScan

namespace Scanner

variable {source : String} {s : Scanner} {c d : Cursor source} {h : ¬ c.AtEnd}

/-! ## The step -/

/-- What a finding does to a scan. -/
def receive (s : Scanner) : Finding → Scanner
  | .token t => { s with tokens := s.tokens ++ [t], log := s.log ++ [t.logEntry] }
  | .fault d =>
    { s with
      reporter := (s.reporter.emit d).reporter
      log := s.log ++ (s.reporter.emit d).log
      halted := (s.reporter.emit d).halt? }
  | .blank => s

/-- What the step of a cursor does to a scan. -/
def follow (s : Scanner) (step : c.Step) : Scanner :=
  { s with here := step.stop.place }.receive step.finding

/-- A token with the text of the lexeme is the token between the two cursors. -/
theorem addToken?_follows (begun : s.start = c.place) (hle : c.pos ≤ d.pos) (kind : TokenKind)
    (literal : Option Literal) : addToken? source kind literal { s with here := d.place } =
      some ({ s with here := d.place }.receive (.token (c.tokenTo d kind literal))) := by
  have hslice : slice? source c.place.offset d.place.offset = some (c.textTo d) :=
    Cursor.slice?_eq hle
  simp only [addToken?, begun, hslice]
  rfl

/-- A report on the lexeme is the report between the two cursors. -/
theorem report_follows (begun : s.start = c.place) (f : Fault) :
    report f { s with here := d.place } =
      { s with here := d.place }.receive (.fault (c.faultTo d f)) := by
  simp only [report, begun]
  rfl

/-- An operator that `=` can follow. -/
theorem oneOrTwo?_follows {kind longer : TokenKind} (begun : s.start = c.place)
    (room : (c.next h).HasRoom) (hlonger : kind.withEqual? = some longer) :
    oneOrTwo? source '=' longer kind { s with here := (c.next h).place } =
      some (s.follow (c.operatorStep h kind)) := by
  have hfirst : c.pos ≤ (c.next h).pos := String.Pos.le_of_lt (c.pos_lt_pos_next h)
  unfold Cursor.operatorStep
  split
  · next longer' stop hlonger' haccept =>
    obtain rfl := Option.some.inj (hlonger.symm.trans hlonger')
    simp only [oneOrTwo?, Cursor.accept?_place_of_some room haccept]
    have hle : c.pos ≤ stop.pos := String.Pos.le_trans hfirst (Cursor.pos_le_of_accept? haccept)
    exact addToken?_follows begun hle longer none
  · next hnone =>
    have haccept : (c.next h).accept? '=' = none := by
      cases haccept : (c.next h).accept? '=' with
      | none => rfl
      | some stop => exact absurd haccept (hnone longer stop hlonger)
    simp only [oneOrTwo?, Cursor.accept?_place_of_none haccept]
    exact addToken?_follows begun hfirst kind none

/-- An operator that no `=` can follow is read without looking ahead. -/
theorem addToken?_follows_operator {kind : TokenKind} (begun : s.start = c.place)
    (hlonger : kind.withEqual? = none) :
    addToken? source kind none { s with here := (c.next h).place } =
      some (s.follow (c.operatorStep h kind)) := by
  have hfirst : c.pos ≤ (c.next h).pos := String.Pos.le_of_lt (c.pos_lt_pos_next h)
  unfold Cursor.operatorStep
  split
  · next longer stop hsome _ =>
    rw [hlonger] at hsome
    cases hsome
  · exact addToken?_follows begun hfirst kind none

/-- A quote is one byte wide. -/
theorem offset_next_of_quote (hquote : c.head h = '"') : (c.next h).offset = c.offset + 1 := by
  rw [Cursor.offset_next, hquote]
  rfl

/-- A string whose second quote is ahead of `d`. The value is the text between the quotes. -/
theorem closeString?_follows (begun : s.start = c.place) (room : d.HasRoom)
    (hquote : c.head h = '"') (hle : (c.next h).pos ≤ d.pos)
    (hend : ¬ d.AtEnd) (hlast : d.head hend = '"') :
    closeString? source { s with here := d.place } = some ({ s with here := d.tail.place }.receive
      (.token (c.tokenTo d.tail .string (some (.string ((c.next h).textTo d)))))) := by
  have htail : d.tail = d.next hend := dif_neg hend
  -- the quotes are one byte wide, so the value is cut behind the first and in front of the second
  have hdifference : difference? (d.next hend).place.offset 1 = some d.offset := by
    have hoffset : (d.next hend).place.offset = d.offset + 1 := offset_next_of_quote hlast
    rw [hoffset]
    exact if_pos (Nat.le_add_left 1 _)
  have hslice : slice? source (s.start.offset + 1) d.offset = some ((c.next h).textTo d) := by
    have hoffset : s.start.offset + 1 = (c.next h).offset := by
      rw [begun]
      exact (offset_next_of_quote hquote).symm
    rw [hoffset]
    exact Cursor.slice?_eq hle
  have hwhole : c.pos ≤ (d.next hend).pos :=
    String.Pos.le_trans (String.Pos.le_of_lt (c.pos_lt_pos_next h))
      (String.Pos.le_trans hle (String.Pos.le_of_lt (d.pos_lt_pos_next hend)))
  rw [htail]
  simp only [closeString?, Cursor.advance?_place room hend, Option.bind_eq_bind, Option.bind_some,
    hdifference, hslice]
  exact addToken?_follows begun hwhole .string _

/-- A string, closed or open. -/
theorem string?_follows (begun : s.start = c.place) (room : (c.next h).HasRoom)
    (hquote : c.head h = '"') :
    string? source { s with here := (c.next h).place } = some (s.follow (c.stringStep h)) := by
  have walk := Cursor.reads_skipWhile (· != '"') (c.next h)
  obtain ⟨_, -, -, hstop⟩ := Cursor.reads_upTo '"' (c.next h)
  simp only [string?, Cursor.stringBody?_place room, Cursor.stringStep, Option.bind_eq_bind,
    Option.bind_some, Cursor.atEnd_place]
  by_cases hend : ((c.next h).skipWhile (· != '"')).AtEnd
  · simp only [if_pos hend]
    exact congrArg some (report_follows begun .unterminatedString)
  · -- the run stopped before the end, so it stopped at a quote
    have hlast : ((c.next h).skipWhile (· != '"')).head hend = '"' := by
      have hquoted := hstop.resolve_left (mt Cursor.rest_eq_nil_iff.1 hend)
      rw [Cursor.rest_eq_cons _ hend] at hquoted
      exact Option.some.inj hquoted
    simp only [if_neg hend]
    exact closeString?_follows begun (room.of_reads walk) hquote walk.pos_le hend hlast

/-- A number. -/
theorem number?_follows (begun : s.start = c.place) (room : (c.next h).HasRoom) :
    number? source { s with here := (c.next h).place } = some (s.follow (c.numberStep h)) := by
  have hle : c.pos ≤ (c.next h).skipNumber.pos := String.Pos.le_of_lt (c.numberStep h).moves
  have hslice : slice? source s.start.offset (c.next h).skipNumber.place.offset =
      some (c.textTo (c.next h).skipNumber) := by
    rw [begun]
    exact Cursor.slice?_eq hle
  simp only [number?, Cursor.pastNumber?_place room, Option.bind_eq_bind, Option.bind_some, hslice,
    Cursor.numberStep]
  cases Binary64.read? (c.textTo (c.next h).skipNumber).toList with
  | some value => exact addToken?_follows begun hle .number _
  | none => exact congrArg some (report_follows begun _)

/-- A slash or a comment. -/
theorem slashOrComment?_follows (begun : s.start = c.place) (room : (c.next h).HasRoom)
    (hslash : c.head h = '/') : slashOrComment? source { s with here := (c.next h).place } =
      some (s.follow (c.step h)) := by
  simp only [Cursor.step, if_pos hslash]
  split
  · next slashes haccept =>
    have hroom := room.of_reads (Cursor.reads_accept? haccept)
    simp only [slashOrComment?, Cursor.accept?_place_of_some room haccept, Option.bind_eq_bind,
      Option.bind_some, if_true, Cursor.lineComment?_place hroom]
    rfl
  · next haccept =>
    simp only [slashOrComment?, Cursor.accept?_place_of_none haccept, Option.bind_eq_bind,
      Option.bind_some]
    exact addToken?_follows_operator begun rfl

/-- **A lexeme is read as the step of the cursor reads it.** `scanToken?` and `Cursor.step` look at
the first character in the same order, and each case has its lemma above. -/
theorem scanToken?_follows (begun : s.start = c.place) (hhere : s.here = c.place) (room : c.HasRoom)
    (h : ¬ c.AtEnd) : s.scanToken? source = some (s.follow (c.step h)) := by
  have hroom := room.next h
  simp only [scanToken?, hhere, Cursor.advance?_place room h, Option.bind_eq_bind, Option.bind_some]
  by_cases hslash : c.head h = '/'
  · rw [if_pos hslash]
    exact slashOrComment?_follows begun hroom hslash
  · simp only [if_neg hslash, Cursor.step]
    cases hmark : TokenKind.ofChar? (c.head h) with
    | some kind =>
      cases hlonger : kind.withEqual? with
      | some longer =>
        simp only [hlonger]
        exact oneOrTwo?_follows begun hroom hlonger
      | none =>
        simp only [hlonger]
        exact addToken?_follows_operator begun hlonger
    | none =>
      by_cases hblank : isBlank (c.head h) = true
      · simp only [if_pos hblank]
        rfl
      · by_cases hquote : c.head h = '"'
        · simp only [if_neg hblank, if_pos hquote]
          exact string?_follows begun hroom hquote
        · by_cases hdigit : (c.head h).isDigit = true
          · simp only [if_neg hblank, if_neg hquote, if_pos hdigit]
            exact number?_follows begun hroom
          · simp only [if_neg hblank, if_neg hquote, if_neg hdigit]
            exact congrArg some (report_follows begun .unexpectedCharacter)

/-! ## The states of the loop -/

@[simp] theorem here_receive (s : Scanner) (f : Finding) : (s.receive f).here = s.here := by
  cases f <;> rfl

@[simp] theorem start_receive (s : Scanner) (f : Finding) : (s.receive f).start = s.start := by
  cases f <;> rfl

/-- A token that is received is put behind the others. -/
theorem tokens_receive (s : Scanner) (f : Finding) :
    (s.receive f).tokens = s.tokens ++ f.token?.toList := by
  cases f <;> simp [receive, Finding.token?]

/-- A fault that is received is kept, if the reporter is tolerant. -/
theorem reporter_receive {s : Scanner} (f : Finding)
    (htolerant : s.reporter.policy.panicOnError = false) : (s.receive f).reporter =
      { s.reporter with kept := s.reporter.kept ++ f.fault?.toList.toArray } := by
  cases f with
  | token | blank => simp [receive, Finding.fault?]
  | fault d =>
    show (s.reporter.emit d).reporter = _
    rw [Reporter.reporter_emit_of_ok (s.reporter.emit_of_tolerant d htolerant)]
    simp [Finding.fault?]

/-- Receiving a finding leaves the reporter tolerant. -/
theorem tolerant_receive {s : Scanner} (f : Finding)
    (htolerant : s.reporter.policy.panicOnError = false) :
    (s.receive f).reporter.policy.panicOnError = false := by
  rw [reporter_receive f htolerant]
  exact htolerant

/-- A tolerant reporter does not halt the scan. -/
theorem halted_receive {s : Scanner} (f : Finding)
    (htolerant : s.reporter.policy.panicOnError = false) (hgoing : s.halted = none) :
    (s.receive f).halted = none := by
  cases f with
  | token | blank => exact hgoing
  | fault d =>
    show (s.reporter.emit d).halt? = none
    rw [Outcome.halt?, s.reporter.emit_of_tolerant d htolerant]

/-- **A scan stands at a cursor,** and its lexeme began at another one: `before` has been read up to
there, and then `lexeme`. -/
structure Stands (s : Scanner) (b c : Cursor source) (before lexeme : List Char) : Prop where
  before : Cursor.Reads (.start source) before b
  lexeme : Cursor.Reads b lexeme c
  start : s.start = b.place
  here : s.here = c.place

namespace Stands

variable {b : Cursor source} {before lexeme : List Char}

theorem init (source : String) (r : Reporter) :
    (init source r).Stands (.start source) (.start source) [] [] :=
  ⟨.refl _, .refl _, rfl, rfl⟩

theorem walk (stands : s.Stands b c before lexeme) :
    Cursor.Reads (.start source) (before ++ lexeme) c := stands.before.trans stands.lexeme

/-- Behind a lexeme the next one begins, with nothing read of it. -/
theorem beginLexeme (stands : s.Stands b c before lexeme) :
    s.beginLexeme.Stands c c (before ++ lexeme) [] :=
  ⟨stands.walk, .refl c, stands.here, stands.here⟩

theorem room (stands : s.Stands b c before lexeme) (hsize : source.length < UInt32.size - 1) :
    c.HasRoom := Cursor.hasRoom_of_reads hsize stands.walk

/-- Both ends of the lexeme are places of cursors that can be reached. -/
theorem inText (stands : s.Stands b c before lexeme) : s.InText source := by
  refine ⟨?_, ?_, ?_⟩
  · rw [stands.start]
    exact Cursor.isIn_place stands.before
  · rw [stands.here]
    exact Cursor.isIn_place stands.walk
  · rw [stands.start, stands.here]
    exact stands.lexeme.pos_le

/-- A scan that has not been halted stops where its cursor is at the end. -/
theorem stops_iff (stands : s.Stands b c before lexeme) (hgoing : s.halted = none) :
    s.Stops source ↔ c.AtEnd := by
  rw [Stops, hgoing, stands.here, Cursor.atEnd_place]
  simp

/-- An iteration from a cursor leads to the end of the step there, over some text. -/
theorem iterate (stands : s.Stands b c before lexeme) (hsize : source.length < UInt32.size - 1)
    (h : ¬ c.AtEnd) : s.beginLexeme.scanToken? source = some (s.beginLexeme.follow (c.step h)) ∧
      ∃ text, text ≠ [] ∧
        (s.beginLexeme.follow (c.step h)).Stands c (c.step h).stop (before ++ lexeme) text := by
  have begun : s.beginLexeme.start = c.place := stands.here
  refine ⟨scanToken?_follows begun stands.here (stands.room hsize) h, ?_⟩
  obtain ⟨p, hp⟩ := c.step_takes h
  refine ⟨p.text, hp.proper.matched.ne_nil, stands.walk, hp.walk, ?_, ?_⟩
  · rw [follow, start_receive]
    exact stands.here
  · rw [follow, here_receive]

end Stands

section States

variable {r : Reporter} {n : Nat}

/-- **Every reached state stands at a cursor,** and each iteration has read a character at least.
The induction is on the iterations. -/
theorem Reached.stands (hsize : source.length < UInt32.size - 1) (reached : Reached source r n s) :
    ∃ (b c : Cursor source) (before lexeme : List Char),
      s.Stands b c before lexeme ∧ n ≤ (before ++ lexeme).length := by
  induction reached with
  | init => exact ⟨_, _, _, _, .init source r, Nat.le_refl _⟩
  | iterate _ h hnext ih =>
    obtain ⟨b, c, before, lexeme, stands, hn⟩ := ih
    have hend : ¬ c.AtEnd := by
      intro hend
      apply h
      left
      rw [stands.here]
      exact Cursor.atEnd_place.2 hend
    obtain ⟨hscan, text, htext, stands'⟩ := stands.iterate hsize hend
    obtain rfl := Option.some.inj (hscan.symm.trans hnext)
    refine ⟨_, _, _, _, stands', ?_⟩
    -- the lexeme of this iteration pays for it
    have hone : 0 < text.length := List.length_pos_iff.2 htext
    rw [List.length_append]
    omega

/-- A tolerant reporter never halts the scan. -/
theorem Reached.going (hsize : source.length < UInt32.size - 1)
    (hr : r.policy.panicOnError = false) (reached : Reached source r n s) :
    s.reporter.policy.panicOnError = false ∧ s.halted = none := by
  induction reached with
  | init => exact ⟨hr, rfl⟩
  | iterate before h hnext ih =>
    -- each iteration is a step of the cursor, and receiving its finding does not halt
    obtain ⟨htolerant, hgoing⟩ := ih
    obtain ⟨b, c, _, _, stands, -⟩ := before.stands hsize
    have hend : ¬ c.AtEnd := mt (stands.stops_iff hgoing).2 h
    obtain ⟨hscan, -⟩ := stands.iterate hsize hend
    obtain rfl := Option.some.inj (hscan.symm.trans hnext)
    exact ⟨tolerant_receive _ htolerant, halted_receive _ htolerant hgoing⟩

/-- **What an iteration does:** it moves on, and adds a token, or a report, or nothing. -/
theorem Stands.progress {b : Cursor source} {before lexeme : List Char}
    (stands : s.Stands b c before lexeme) (hsize : source.length < UInt32.size - 1)
    (htolerant : s.reporter.policy.panicOnError = false) (h : ¬ c.AtEnd) :
    ∃ next, s.beginLexeme.scanToken? source = some next ∧
      s.here.offset < next.here.offset ∧ s.Appends next := by
  obtain ⟨hscan, -⟩ := stands.iterate hsize h
  refine ⟨_, hscan, ?_, (c.step h).finding.token?.toList, (c.step h).finding.fault?.toList,
    tokens_receive _ _, reporter_receive _ htolerant, ?_⟩
  · rw [stands.here, follow, here_receive]
    exact (c.step h).moves
  · cases (c.step h).finding <;> simp [Finding.token?, Finding.fault?]

end States

/-! ## The run -/

/-- What a scan comes to with the given tokens: these, or the error that halted it. -/
def resultWith (s : Scanner) (words : List Token) : Except Halt (List Token) :=
  match s.halted with
  | none => .ok words
  | some halt => .error halt

/-- A scan that has come to `last` has delivered the findings, up to one that halted it. -/
def Delivers (s : Scanner) (found : List Finding) (last : Scanner) : Prop :=
  ∃ words log, s.reporter.deliver found = ⟨last.resultWith words, last.reporter, log⟩ ∧
    last.tokens = s.tokens ++ words ∧ last.log = s.log ++ log

section Delivers

variable {f : Finding} {found : List Finding} {last : Scanner}

/-- With nothing to deliver a scan stays as it is. -/
theorem Delivers.nil (hgoing : s.halted = none) : s.Delivers [] s := by
  refine ⟨[], [], ?_, by simp, by simp⟩
  rw [resultWith, hgoing]
  rfl

/-- Nothing comes behind a finding that halts, so it is the last that is delivered. -/
theorem Delivers.halting {halt : Halt} (hgoing : s.halted = none)
    (hhalt : (s.receive f).halted = some halt) : s.Delivers (f :: found) (s.receive f) := by
  cases f with
  -- only a report can halt
  | token | blank =>
    rw [show (s.receive _).halted = s.halted from rfl, hgoing] at hhalt
    cases hhalt
  | fault d =>
    refine ⟨[], (s.reporter.emit d).log, ?_, by simp [receive], rfl⟩
    have hresult : (s.reporter.emit d).result = .error halt := by
      have hhalts : (s.reporter.emit d).halt? = some halt := hhalt
      unfold Outcome.halt? at hhalts
      cases hresult : (s.reporter.emit d).result with
      | ok _ =>
        rw [hresult] at hhalts
        cases hhalts
      | error halt' =>
        rw [hresult] at hhalts
        rw [Option.some.inj hhalts]
    rw [resultWith, hhalt]
    simp only [Reporter.deliver, hresult]
    rfl

/-- A finding that does not halt is delivered before the others. -/
theorem Delivers.cons (hgoing : (s.receive f).halted = none)
    (onward : (s.receive f).Delivers found last) : s.Delivers (f :: found) last := by
  obtain ⟨words, log, hdeliver, htokens, hlog⟩ := onward
  cases f with
  | blank => exact ⟨words, log, hdeliver, htokens, hlog⟩
  | token t =>
    refine ⟨t :: words, t.logEntry :: log, ?_, ?_, ?_⟩
    · have hrest : s.reporter.deliver found = ⟨last.resultWith words, last.reporter, log⟩ :=
        hdeliver
      simp only [Reporter.deliver, hrest, resultWith]
      cases last.halted <;> rfl
    · simp [htokens, receive]
    · simp [hlog, receive]
  | fault d =>
    refine ⟨words, (s.reporter.emit d).log ++ log, ?_, htokens, ?_⟩
    · have hrest : (s.reporter.emit d).reporter.deliver found =
          ⟨last.resultWith words, last.reporter, log⟩ := hdeliver
      have hgoes : (s.reporter.emit d).halt? = none := hgoing
      unfold Outcome.halt? at hgoes
      simp only [Reporter.deliver, hrest]
      cases hresult : (s.reporter.emit d).result with
      | ok _ => rfl
      | error halt =>
        rw [hresult] at hgoes
        cases hgoes
    · simp [hlog, receive]

end Delivers

/-- The loop ends where there is nothing left to do. -/
theorem loop?_of_stops (hstops : s.Stops source) : s.loop? source = some s := by
  apply iterate?_of_inl
  rw [if_pos hstops]
  rfl

/-- The loop goes on with the next lexeme as long as it does not end. -/
theorem loop?_of_not_stops {next : Scanner} (hstops : ¬ s.Stops source)
    (hnext : s.beginLexeme.scanToken? source = some next) :
    s.loop? source = next.loop? source := by
  apply iterate?_of_inr
  rw [if_neg hstops, hnext]
  rfl

/-- **The loop runs to the end of the text,** or to a report that halts it, and delivers what the
steps of the cursor find. -/
theorem loop?_delivers {b : Cursor source} {before lexeme : List Char} {n : Nat} {r : Reporter}
    (hsize : source.length < UInt32.size - 1) (stands : s.Stands b c before lexeme)
    (hgoing : s.halted = none) (reached : Reached source r n s) :
    ∃ m last, Reached source r m last ∧ s.loop? source = some last ∧
      (last.halted = none → last.here = c.read.stop.place ∧ c.read.stop.AtEnd) ∧
      s.Delivers c.read.findings last := by
  -- a scan stands at the cursor from which the rest is read, and that carries the induction
  induction c using Cursor.read.induct generalizing s n b before lexeme with
  | case1 c h =>
    rw [Cursor.read, dif_pos h]
    have hloop := loop?_of_stops ((stands.stops_iff hgoing).2 h)
    exact ⟨n, s, reached, hloop, fun _ => ⟨stands.here, h⟩, .nil hgoing⟩
  | case2 c h =>
    rename_i ih
    have hstops : ¬ s.Stops source := mt (stands.stops_iff hgoing).1 h
    obtain ⟨hscan, text, -, stands'⟩ := stands.iterate hsize h
    have hreached := reached.iterate hstops hscan
    rw [loop?_of_not_stops hstops hscan, Cursor.read, dif_neg h]
    -- the loop goes on behind this step, unless the report in it has halted the scan
    cases hhalted : (s.beginLexeme.follow (c.step h)).halted with
    | some halt =>
      have hstops' : (s.beginLexeme.follow (c.step h)).Stops source := by
        right
        rw [hhalted]
        rfl
      refine ⟨_, _, hreached, loop?_of_stops hstops', fun hnone => ?_,
        Delivers.halting (s := { s.beginLexeme with here := (c.step h).stop.place }) hgoing hhalted⟩
      rw [hhalted] at hnone
      cases hnone
    | none =>
      obtain ⟨m, last, hlast, hloop, hend, hdelivers⟩ := ih stands' hhalted hreached
      exact ⟨m, last, hlast, hloop, hend,
        Delivers.cons (s := { s.beginLexeme with here := (c.step h).stop.place }) hhalted hdelivers⟩

end Scanner

section Scan

variable {source : String} {r : Reporter}

/-- A delivery takes no error back. -/
theorem errorCount_le_deliver {found : List Finding} {words : List Token} {last : Reporter}
    {log : List Log.Entry} (hdeliver : r.deliver found = ⟨.ok words, last, log⟩) :
    r.errorCount ≤ last.errorCount := by
  have hresult : (r.deliver found).result = .ok words := by rw [hdeliver]
  have hkept := (Reporter.deliver_ok hresult).2
  rw [hdeliver] at hkept
  obtain rfl := hkept
  simp [Reporter.errorCount, Array.countP_append]

/-- A loop that delivers the findings of a reading makes the scan of the source. -/
theorem scan?_of_loop? {last : Scanner} (hloop : (Scanner.init source r).loop? source = some last)
    (hhere : last.halted = none → last.here = (Reading.of source).stop.place)
    (hdelivers : (Scanner.init source r).Delivers (Reading.of source).findings last) :
    scan? source r = some (tokenize source r) := by
  obtain ⟨words, log, hdeliver, htokens, hlog⟩ := hdelivers
  -- at first there are no tokens, and one entry in the log
  have hwords : last.tokens = words := htokens
  have hentries : last.log = openingEntry source :: log := hlog
  simp only [scan?, hloop, Option.bind_eq_bind, Option.bind_some]
  cases hhalted : last.halted with
  | some halt =>
    have hdeliver' : r.deliver (Reading.of source).findings =
        ⟨.error halt, last.reporter, log⟩ := by
      rw [Scanner.resultWith, hhalted] at hdeliver
      exact hdeliver
    simp only [tokenize, hdeliver', hentries]
    rfl
  | none =>
    have hdeliver' : r.deliver (Reading.of source).findings = ⟨.ok words, last.reporter, log⟩ := by
      rw [Scanner.resultWith, hhalted] at hdeliver
      exact hdeliver
    -- the errors counted are no fewer than before, so their difference exists
    have herrors : difference? last.reporter.errorCount r.errorCount =
        some (last.reporter.errorCount - r.errorCount) := if_pos (errorCount_le_deliver hdeliver')
    simp only [herrors, hwords, hentries, hhere hhalted, Option.bind_some, tokenize, hdeliver']
    rfl

/-- **Reporting while scanning is reporting afterwards.** `scan?` emits each fault as soon as it is
found, and stops if the reporter halts. `tokenize` reads the whole source first and then delivers
what it has found. For `source.length < UInt32.size - 1` and every reporter they have the same
`Outcome`: the tokens or the `Halt`, the reporter with what it kept, and the log. -/
theorem scan?_eq_tokenize (r : Reporter) (hsize : source.length < UInt32.size - 1) :
    scan? source r = some (tokenize source r) := by
  obtain ⟨_, last, -, hloop, hend, hdelivers⟩ :=
    Scanner.loop?_delivers hsize (.init source r) rfl .init
  exact scan?_of_loop? hloop (fun hgoing => (hend hgoing).1) hdelivers

/-- **The scan of a text that is not too long never fails.** For `source.length < UInt32.size - 1`
and a policy that does not panic on errors, `scan?` has the outcome of `tokenize`, and its loop ends
after at most `source.length` iterations. Each `Scanner.Reached` state is `Scanner.InText`, and
before the end of the text an iteration succeeds, moves on and `Appends` at most one token or one
report. The inner loops `lineComment?`, `stringBody?` and `digits?` end wherever in the text they
are begun. -/
theorem scan?_never_fails (source : String) (r : Reporter)
    (hsize : source.length < UInt32.size - 1) (hr : r.policy.panicOnError = false) :
    scan? source r = some (tokenize source r) ∧
    (∃ n last, Scanner.Reached source r n last ∧ n ≤ source.length ∧ last.here.AtEnd source ∧
      (Scanner.init source r).loop? source = some last) ∧
    (∀ n s, Scanner.Reached source r n s → n ≤ source.length ∧ s.InText source ∧
      s.beginLexeme.InText source ∧ (¬ s.here.AtEnd source →
        ∃ next, s.beginLexeme.scanToken? source = some next ∧
          s.here.offset < next.here.offset ∧ s.Appends next)) ∧
    ∀ here : Place, here.IsIn source → (here.lineComment? source).isSome ∧
      (here.stringBody? source).isSome ∧ (here.digits? source).isSome := by
  -- a state that is reached has read as much of the text as there were iterations at least
  have bounded {n : Nat} {s : Scanner} (reached : Scanner.Reached source r n s) :
      ∃ (b c : Cursor source) (before lexeme : List Char),
        s.Stands b c before lexeme ∧ n ≤ source.length := by
    obtain ⟨b, c, before, lexeme, stands, hn⟩ := reached.stands hsize
    have hread : (before ++ lexeme) <+: source.toList :=
      ⟨c.rest, by rw [← stands.walk.rest_eq, Cursor.rest_start]⟩
    have hlength := hread.length_le
    rw [String.length_toList] at hlength
    exact ⟨b, c, before, lexeme, stands, Nat.le_trans hn hlength⟩
  refine ⟨scan?_eq_tokenize r hsize, ?_, ?_, ?_⟩
  · obtain ⟨m, last, hreached, hloop, hend, -⟩ :=
      Scanner.loop?_delivers hsize (.init source r) rfl .init
    obtain ⟨hhere, hlast⟩ := hend (hreached.going hsize hr).2
    obtain ⟨_, _, _, _, -, hm⟩ := bounded hreached
    refine ⟨m, last, hreached, hm, ?_, hloop⟩
    rw [hhere]
    exact Cursor.atEnd_place.2 hlast
  · intro n s reached
    obtain ⟨b, c, before, lexeme, stands, hn⟩ := bounded reached
    refine ⟨hn, stands.inText, stands.beginLexeme.inText, fun hend => ?_⟩
    rw [stands.here] at hend
    exact stands.progress hsize (reached.going hsize hr).1 (mt Cursor.atEnd_place.2 hend)
  · intro here hin
    obtain ⟨c, before, walk, rfl⟩ := Cursor.exists_place_of_isIn hin
    have room := Cursor.hasRoom_of_reads hsize walk
    rw [Cursor.lineComment?_place room, Cursor.stringBody?_place room, Cursor.digits?_place room]
    exact ⟨rfl, rfl, rfl⟩

/-- A text with the end mark in it, characters of two, three and four bytes, and a lexeme of every
kind. -/
theorem scan?_never_fails_wide :
    let source := "é\x00 >= \"日\n\x00\" 1.5 // 😀\n/"
    source.length < UInt32.size - 1 ∧ Reporter.new.policy.panicOnError = false ∧
    scan? source .new = some (tokenize source .new) ∧
    (tokenize source .new).reporter.diagnostics.map (·.span) = [⟨0, 2, 1, 1⟩, ⟨2, 3, 1, 2⟩] ∧
    (∃ n last, Scanner.Reached source .new n last ∧ n ≤ 22 ∧ last.here.AtEnd source) := by
  intro source
  have hlength : source.length = 22 := by decide
  have hsize : source.length < UInt32.size - 1 := by decide
  obtain ⟨hscan, ⟨n, last, hreached, hn, hlast, -⟩, -, -⟩ :=
    scan?_never_fails source .new hsize rfl
  exact ⟨hsize, rfl, hscan, by decide +kernel, n, last, hreached, hlength ▸ hn, hlast⟩

end Scan

end SourceScan
