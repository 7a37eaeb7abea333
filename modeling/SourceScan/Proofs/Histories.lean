import Mathlib.Data.List.DropRight
import SourceScan.Proofs.Delivery

/-!
# What a reporter holds after any history of uses

A reporter is used many times: for single diagnostics, for whole scans, and in between it is
emptied by `Reporter.take` or `Reporter.clear`. Some of these uses halt it, and it is used again
afterwards. After any history each accepted diagnostic has been taken, has been cleared, or is still
held, and it is only one of these.

`Use.emissions` says what a use has to report without looking at the reporter: a scan reports what
`Reporter.new` would keep of it, as far as the policy lets it come. What a reporter holds, hands out
and halts with is stated in terms of it.

* **`Reporter.diagnostics_use`** and **`Reporter.use_halts_iff`** are the step lemmas.
* **`Reporter.diagnostics_after`** and **`Reporter.released_turns`** are the run lemmas.
-/

namespace SourceScan

/-! ## Uses -/

/-- **One use of a reporter.** -/
inductive Use where
  | emitLine (line : Nat) (message : String)
  | emit (d : Diagnostic)
  | emitDraft (d : Diagnostic.Draft)
  | scan (source : String)
  | take
  | clear

/-- What a use comes back with. -/
inductive Reply where
  | done
  | tokens (ts : List Token)
  | handedOut (ds : List Diagnostic)
  | halted (h : Halt)

/-- The reply of an operation that may have been halted. -/
def Reply.ofResult {α : Type} (f : α → Reply) : Except Halt α → Reply
  | .ok a => f a
  | .error h => .halted h

/-- A reply that no success makes says that the operation was halted. -/
theorem Reply.ofResult_eq_halted_iff {α : Type} {f : α → Reply} {result : Except Halt α} {h : Halt}
    (hf : ∀ a, f a ≠ .halted h) : Reply.ofResult f result = .halted h ↔ result = .error h := by
  cases result with
  | ok a => simp [ofResult, hf a]
  | error halt => simp [ofResult]

/-- A use with the reporter as it was before, and the reply. -/
structure Turn where
  before : Reporter
  use : Use
  reply : Reply

namespace Reporter

/-- The reply to a use, and the reporter that it leaves behind. -/
def use (r : Reporter) : Use → Reply × Reporter
  | .emitLine line message =>
    (.ofResult (fun _ => .done) (r.emitLine line message).result, (r.emitLine line message).reporter)
  | .emit d => (.ofResult (fun _ => .done) (r.emit d).result, (r.emit d).reporter)
  | .emitDraft d => (.ofResult (fun _ => .done) (r.emitDraft d).result, (r.emitDraft d).reporter)
  | .scan source => (.ofResult .tokens (tokenize source r).result, (tokenize source r).reporter)
  | .take => (.handedOut r.take.1, r.take.2)
  | .clear => (.done, r.clear)

/-- The reporter after a history of uses. -/
def after (r : Reporter) (uses : List Use) : Reporter := uses.foldl (fun r u => (r.use u).2) r

/-- A history of uses, turn by turn. -/
def turns (r : Reporter) : List Use → List Turn
  | [] => []
  | u :: uses => ⟨r, u, (r.use u).1⟩ :: (r.use u).2.turns uses

end Reporter

/-- What leaves a reporter in a turn: the list that is handed out, or what is thrown away. -/
def Turn.released (t : Turn) : List Diagnostic :=
  match t.use, t.reply with
  | .take, .handedOut ds => ds
  | .clear, _ => t.before.diagnostics
  | _, _ => []

/-! ## What uses have to report -/

namespace Use

/-- **The diagnostics a use reports,** one after the other. Those of a scan are the ones that
`Reporter.new` collects from the source, as far as the policy lets the scan come. -/
def emissions (p : Policy) : Use → List Diagnostic
  | emitLine line message => [.error message (.point line 0)]
  | emit d => [d]
  | emitDraft d => [d.build]
  | scan source => p.reached (tokenize source .new).reporter.diagnostics
  | take => []
  | clear => []

/-- The uses that empty a reporter. -/
def releases : Use → Bool
  | take => true
  | clear => true
  | _ => false

/-- The diagnostics a reporter keeps of those that a use reports. -/
def accepted (p : Policy) (u : Use) : List Diagnostic := p.tolerated (u.emissions p)

end Use

/-! ## The step -/

namespace Reporter

/-- A single diagnostic is kept if the policy tolerates it. -/
theorem emit_tolerated (r : Reporter) (d : Diagnostic) :
    (r.emit d).reporter = { r with kept := r.kept ++ (r.policy.tolerated [d]).toArray } := by
  by_cases hhalt : r.policy.HaltsOn d
  · rw [(emit_of_haltsOn hhalt).2, Policy.tolerated_cons_of_haltsOn hhalt]
    simp [Policy.tolerated]
  · rw [(emit_of_not_haltsOn hhalt).2, Policy.tolerated_cons_of_not_haltsOn hhalt]
    simp [Policy.tolerated]

/-- A single diagnostic halts the reporter if the policy does not tolerate it. -/
theorem emit_halts_iff (r : Reporter) (d e : Diagnostic) :
    (r.emit d).result = .error ⟨e⟩ ↔ e ∈ [d] ∧ r.policy.HaltsOn e := by
  rw [List.mem_singleton]
  by_cases hhalt : r.policy.HaltsOn d
  · rw [(emit_of_haltsOn hhalt).1]
    constructor
    · intro h
      cases h
      exact ⟨rfl, hhalt⟩
    · rintro ⟨rfl, -⟩
      rfl
  · rw [(emit_of_not_haltsOn hhalt).1]
    constructor
    · rintro ⟨⟩
    · rintro ⟨rfl, he⟩
      exact absurd he hhalt

/-- `Reporter.new` keeps the faults of a source, all of them. -/
theorem diagnostics_tokenize_new (source : String) :
    (tokenize source .new).reporter.diagnostics =
      (Reading.of source).findings.filterMap Finding.fault? := by
  obtain ⟨words, hwords⟩ :
      ∃ words, (Reporter.new.deliver (Reading.of source).findings).result = .ok words :=
    deliver_runs (.inl rfl)
  rw [tokenize_reporter_deliver, (deliver_ok hwords).2, diagnostics, Array.toList_append]
  rfl

/-- **What a use adds.** A reporter that is not emptied keeps what it has, and behind it what it
accepts. -/
theorem use_of_not_releases {u : Use} (r : Reporter) (h : u.releases = false) :
    (r.use u).2 = { r with kept := r.kept ++ (u.accepted r.policy).toArray } := by
  cases u with
  | emitLine line message => exact r.emit_tolerated _
  | emit d => exact r.emit_tolerated d
  | emitDraft d => exact r.emit_tolerated d.build
  | scan source =>
    rw [Use.accepted, Use.emissions, diagnostics_tokenize_new]
    exact (tokenize_reporter_deliver source r).trans (r.deliver_reached _)
  | take | clear => cases h

/-- A use that empties a reporter reports nothing. -/
theorem use_of_releases {u : Use} (r : Reporter) (h : u.releases = true) :
    (r.use u).2 = r.clear ∧ u.accepted r.policy = [] := by
  cases u with
  | take | clear => exact ⟨rfl, rfl⟩
  | emitLine | emit | emitDraft | scan => cases h

@[simp]
theorem policy_use (r : Reporter) (u : Use) : (r.use u).2.policy = r.policy := by
  cases h : u.releases with
  | false => rw [r.use_of_not_releases h]
  | true => rw [(r.use_of_releases h).1, clear]

/-- **What a reporter holds after a use.** -/
theorem diagnostics_use (r : Reporter) (u : Use) : (r.use u).2.diagnostics =
    if u.releases then [] else r.diagnostics ++ u.accepted r.policy := by
  cases h : u.releases with
  | false =>
    rw [r.use_of_not_releases h]
    exact Array.toList_append
  | true =>
    rw [(r.use_of_releases h).1]
    rfl

/-- **What leaves and what stays** in a use is what was there and what came. -/
theorem released_use (r : Reporter) (u : Use) :
    (Turn.mk r u (r.use u).1).released ++ (r.use u).2.diagnostics =
      r.diagnostics ++ u.accepted r.policy := by
  rw [diagnostics_use]
  cases u with
  | take | clear => rfl
  | emitLine | emit | emitDraft | scan => rfl

/-- **What halts a use** is one of the diagnostics that it reports, if the policy halts on it. -/
theorem use_halts_iff (r : Reporter) (u : Use) (d : Diagnostic) :
    (r.use u).1 = .halted ⟨d⟩ ↔ d ∈ u.emissions r.policy ∧ r.policy.HaltsOn d := by
  cases u with
  | emitLine line message =>
    exact (Reply.ofResult_eq_halted_iff (by simp)).trans (r.emit_halts_iff _ d)
  | emit e => exact (Reply.ofResult_eq_halted_iff (by simp)).trans (r.emit_halts_iff e d)
  | emitDraft e =>
    exact (Reply.ofResult_eq_halted_iff (by simp)).trans (r.emit_halts_iff e.build d)
  | scan source =>
    rw [Use.emissions, diagnostics_tokenize_new]
    refine (Reply.ofResult_eq_halted_iff (by simp)).trans (Iff.trans ?_ (r.deliver_halts_iff _ d))
    -- the end of the input that comes behind the tokens is no halt
    rw [tokenize_result_deliver]
    cases (r.deliver (Reading.of source).findings).result <;> simp [Except.map]
  | take | clear => simp [use, Use.emissions]

/-! ## The run -/

@[simp]
theorem policy_after (r : Reporter) (uses : List Use) : (r.after uses).policy = r.policy := by
  induction uses generalizing r with
  | nil => rfl
  | cons u uses ih => exact (ih _).trans (r.policy_use u)

theorem after_concat (r : Reporter) (uses : List Use) (u : Use) :
    r.after (uses ++ [u]) = ((r.after uses).use u).2 := List.foldl_concat ..

/-- **What a reporter holds** is what it has accepted since it was last emptied. -/
theorem diagnostics_after (p : Policy) (uses : List Use) :
    ((withPolicy p).after uses).diagnostics =
      (uses.rtakeWhile fun u => !u.releases).flatMap (Use.accepted p) := by
  -- the last use decides: it empties the reporter, or it adds to what was held before
  induction uses using List.reverseRecOn with
  | nil => rfl
  | append_singleton uses u ih =>
    rw [after_concat, diagnostics_use, policy_after]
    cases h : u.releases with
    | true =>
      have hlast : (uses ++ [u]).rtakeWhile (fun u => !u.releases) = [] :=
        List.rtakeWhile_concat_neg _ _ _ (by simp [h])
      rw [hlast]
      rfl
    | false =>
      have hlast : (uses ++ [u]).rtakeWhile (fun u => !u.releases) =
          uses.rtakeWhile (fun u => !u.releases) ++ [u] :=
        List.rtakeWhile_concat_pos _ _ _ (by simp [h])
      rw [hlast, List.flatMap_append, ← ih, List.flatMap_singleton]
      rfl

/-- **Nothing is lost or doubled:** what has left a reporter, and then what it still holds, is what
it held at first, and then what it accepted. -/
theorem released_turns (r : Reporter) (uses : List Use) :
    (r.turns uses).flatMap Turn.released ++ (r.after uses).diagnostics =
      r.diagnostics ++ uses.flatMap (Use.accepted r.policy) := by
  induction uses generalizing r with
  | nil => simp [turns, after]
  | cons u uses ih =>
    -- the uses that follow find the reporter as the first has left it, under the same policy
    have hrest := ih (r.use u).2
    rw [policy_use] at hrest
    calc ((r.turns (u :: uses)).flatMap Turn.released) ++ (r.after (u :: uses)).diagnostics
        = (Turn.mk r u (r.use u).1).released ++
            (((r.use u).2.turns uses).flatMap Turn.released ++
              ((r.use u).2.after uses).diagnostics) := by
          rw [← List.append_assoc]
          rfl
      _ = r.diagnostics ++ u.accepted r.policy ++ uses.flatMap (Use.accepted r.policy) := by
          rw [hrest, ← List.append_assoc, released_use]
      _ = r.diagnostics ++ (u :: uses).flatMap (Use.accepted r.policy) := by
          rw [List.append_assoc]
          rfl

/-- In every turn the policy is that of the first reporter, and the reply is that of the reporter
found there. -/
theorem of_mem_turns {r : Reporter} {uses : List Use} {t : Turn} (ht : t ∈ r.turns uses) :
    t.before.policy = r.policy ∧ t.reply = (t.before.use t.use).1 := by
  induction uses generalizing r with
  | nil => cases ht
  | cons u uses ih =>
    rcases List.mem_cons.1 ht with rfl | ht
    · exact ⟨rfl, rfl⟩
    · obtain ⟨hpolicy, hreply⟩ := ih ht
      exact ⟨hpolicy.trans (r.policy_use u), hreply⟩

/-- A history has a turn for each of its uses. -/
theorem use_turns (r : Reporter) (uses : List Use) : (r.turns uses).map Turn.use = uses := by
  induction uses generalizing r with
  | nil => rfl
  | cons u uses ih => exact congrArg (u :: ·) (ih _)

/-! ## Counts -/

/-- `hasErrors` and `errorCount` look for the same severity, one with `isError` and one with
`==`. -/
theorem hasErrors_iff (r : Reporter) : r.hasErrors = true ↔ 0 < r.errorCount := by
  have hsame : (fun d : Diagnostic => d.severity.isError) = fun d => d.severity == .error := by
    funext d
    cases d.severity <;> rfl
  rw [errorCount, Array.countP_pos_iff, hasErrors, hsame, Array.any_eq_true']

/-- The severities divide what is kept. -/
theorem countP_severity (ds : List Diagnostic) :
    ds.countP (·.severity == .error) + ds.countP (·.severity == .warning) +
      ds.countP (·.severity == .note) = ds.length := by
  induction ds with
  | nil => rfl
  | cons d ds ih =>
    simp only [List.countP_cons, List.length_cons, ← ih]
    cases d.severity <;> simp <;> omega

/-- A reporter that halts on errors holds none. -/
theorem errorCount_after {p : Policy} (uses : List Use) (hp : p.panicOnError = true) :
    ((withPolicy p).after uses).errorCount = 0 := by
  rw [errorCount, ← Array.countP_toList, List.countP_eq_zero]
  -- what is held has been accepted, and an error would have halted
  intro d hd
  have hheld : d ∈ (uses.rtakeWhile fun u => !u.releases).flatMap (Use.accepted p) := by
    rw [← diagnostics_after]
    exact hd
  obtain ⟨u, -, haccepted⟩ := List.mem_flatMap.1 hheld
  have hgoes : ¬ p.HaltsOn d := by simpa using (List.mem_filter.1 haccepted).2
  intro hsevere
  exact hgoes ⟨hp, eq_of_beq hsevere⟩

/-- **A reporter accounts for all it accepts.** Take a fresh reporter of any policy (`withPolicy`,
so `new` and `panicking` too) and any history of `Use`s, where halted uses are followed by others.
Its `diagnostics` are what it `accepted` since the last `take` or `clear`. What was `released` in
its `turns` and what it still holds are, in order, all that it ever `accepted`. A use is halted just
by a diagnostic among its `emissions` that is an error, under a policy that halts on errors.
`hasErrors` and the three counts agree with what it holds, and under such a policy `errorCount` is
zero. -/
theorem after_accounts (policy : Policy) (uses : List Use) :
    let fresh := withPolicy policy
    let last := fresh.after uses
    last.diagnostics = (uses.rtakeWhile fun u => !u.releases).flatMap (Use.accepted policy) ∧
    (fresh.turns uses).map Turn.use = uses ∧
    (fresh.turns uses).flatMap Turn.released ++ last.diagnostics =
      uses.flatMap (Use.accepted policy) ∧
    (∀ t ∈ fresh.turns uses, ∀ d, t.reply = .halted ⟨d⟩ ↔
      d ∈ t.use.emissions policy ∧ policy.panicOnError = true ∧ d.severity = .error) ∧
    (last.hasErrors = true ↔ 0 < last.errorCount) ∧
    last.errorCount + last.warningCount + last.kept.countP (·.severity == .note) =
      last.kept.size ∧
    (policy.panicOnError = true → last.errorCount = 0) := by
  intro fresh last
  refine ⟨diagnostics_after policy uses, use_turns fresh uses, released_turns fresh uses, ?_,
    last.hasErrors_iff, ?_, errorCount_after uses⟩
  · intro t ht d
    obtain ⟨hpolicy, hreply⟩ := of_mem_turns ht
    rw [hreply, use_halts_iff, hpolicy]
    rfl
  · have hcounts := countP_severity last.diagnostics
    simpa only [errorCount, warningCount, diagnostics, Array.countP_toList,
      Array.length_toList] using hcounts

end Reporter

end SourceScan
