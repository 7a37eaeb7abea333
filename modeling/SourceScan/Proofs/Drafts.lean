import SourceScan.Reporter

/-!
# Two ways to make one diagnostic

A `Diagnostic` is made with its span and then given details (`withDetails`), or a `Draft` is given
details and spans in any order (`Draft.setAll`) and built in the end. The span that counts is the
last one given, and the details are those given before it and behind it.

* **`withDetails_eq`** says what details do: the last code counts, and notes are kept in order.
* **`Draft.build_setAll`** says what a draft builds after any sequence of calls.
-/

namespace SourceScan.Diagnostic

/-! ## Details -/

/-- **What a diagnostic can be given** besides its place. -/
inductive Detail where
  | code (c : DiagnosticCode)
  | note (text : String)

/-- The code among the details. -/
def Detail.code? : Detail → Option DiagnosticCode
  | code c => some c
  | note _ => none

/-- The text of a note. -/
def Detail.note? : Detail → Option String
  | code _ => none
  | note text => some text

/-- A diagnostic with one detail more. -/
def withDetail (d : Diagnostic) : Detail → Diagnostic
  | .code c => d.withCode c
  | .note text => d.withNote text

/-- A diagnostic with details added one by one. -/
def withDetails (d : Diagnostic) (details : List Detail) : Diagnostic := details.foldl withDetail d

/-- **What details do.** The last code counts, and all notes are kept in order. The induction is on
the details, for every diagnostic, since the first detail makes another one of it. -/
theorem withDetails_eq (d : Diagnostic) (details : List Detail) :
    d.withDetails details = { d with
      code := (details.filterMap Detail.code?).getLast?.or d.code
      notes := d.notes ++ details.filterMap Detail.note? } := by
  induction details generalizing d with
  | nil => simp [withDetails]
  | cons detail details ih =>
    refine (ih (d.withDetail detail)).trans ?_
    cases detail with
    | code c =>
      -- the code is kept as long as no other follows
      simp [withDetail, withCode, Detail.code?, Detail.note?, List.filterMap_cons,
        List.getLast?_cons]
    | note text =>
      simp [withDetail, withNote, Detail.code?, Detail.note?, List.filterMap_cons]

/-! ## Drafts -/

/-- A diagnostic moved to another place. -/
def placed (d : Diagnostic) (s : Span) : Diagnostic := { d with span := s }

namespace Draft

/-- **A call on a draft.** -/
inductive Call where
  | detail (d : Detail)
  | span (s : Span)

/-- The detail that a call gives. -/
def Call.detail? : Call → Option Detail
  | detail d => some d
  | span _ => none

/-- The span that a call gives. -/
def Call.span? : Call → Option Span
  | detail _ => none
  | span s => some s

/-- A draft after one call. -/
def set (d : Draft) : Call → Draft
  | .detail (.code c) => d.setCode c
  | .detail (.note text) => d.addNote text
  | .span s => d.setSpan s

/-- A draft after a sequence of calls. -/
def setAll (d : Draft) (calls : List Call) : Draft := calls.foldl set d

/-- A detail given to a draft is given to the diagnostic, wherever that is moved afterwards. -/
theorem placed_build_set_detail (d : Draft) (detail : Detail) (s : Span) :
    (d.set (.detail detail)).build.placed s = (d.build.placed s).withDetail detail := by
  cases detail <;> rfl

/-- Details do not move a draft. -/
theorem span_build_set_detail (d : Draft) (detail : Detail) :
    (d.set (.detail detail)).build.span = d.build.span := by
  cases detail <;> rfl

/-- **What a draft builds** after any calls: the diagnostic it would have built before them, at the
place that was named last, with all the details given. -/
theorem build_setAll (d : Draft) (calls : List Call) :
    (d.setAll calls).build =
      (d.build.placed ((calls.filterMap Call.span?).getLast?.getD d.build.span)).withDetails
        (calls.filterMap Call.detail?) := by
  induction calls generalizing d with
  | nil => rfl
  | cons call calls ih =>
    refine (ih (d.set call)).trans ?_
    cases call with
    | detail detail =>
      -- a detail is added at the place the draft has, and does not move it
      rw [List.filterMap_cons_none (rfl : (Call.detail detail).span? = none),
        List.filterMap_cons_some (rfl : (Call.detail detail).detail? = some detail),
        placed_build_set_detail, span_build_set_detail]
      rfl
    | span s =>
      -- an earlier span counts until the next one is given
      rw [List.filterMap_cons_some (rfl : (Call.span s).span? = some s),
        List.filterMap_cons_none (rfl : (Call.span s).detail? = none), List.getLast?_cons]
      rfl

end Draft

/-- **Both ways make one diagnostic.** Let `draft` be a new draft after the calls `before`, then the
call `span`, then the details `after`. It builds `direct`, which is the `plain` diagnostic at `span`
with the details of `before` and `after`. That has the last code among the details, if any, and
their notes in order. `Reporter.emitDraft` of the draft is `Reporter.emit` of `direct`, for every
reporter: reply, kept diagnostics and log. -/
theorem build_draft_eq (severity : Severity) (message : String) (span : Span)
    (before : List Draft.Call) (after : List Detail) :
    let details := before.filterMap Draft.Call.detail? ++ after
    let draft := (Draft.new severity message).setAll (before ++ .span span :: after.map .detail)
    let direct := (plain severity message span).withDetails details
    draft.build = direct ∧
      direct = ⟨severity, message, span, (details.filterMap Detail.code?).getLast?,
        details.filterMap Detail.note?⟩ ∧
      ∀ r : Reporter, r.emitDraft draft = r.emit direct := by
  intro details draft direct
  let calls : List Draft.Call := before ++ .span span :: after.map .detail
  -- of the spans given, the last is `span`, and its call gives no detail
  have hspans : calls.filterMap Draft.Call.span? = before.filterMap Draft.Call.span? ++ [span] := by
    simp [calls, List.filterMap_map, Function.comp_def, Draft.Call.span?]
  have hdetails : calls.filterMap Draft.Call.detail? = details := by
    simp [calls, details, List.filterMap_cons, List.filterMap_map, Function.comp_def,
      Draft.Call.detail?]
  have hbuild : draft.build = direct := by
    refine ((Draft.new severity message).build_setAll calls).trans ?_
    rw [hspans, hdetails, List.getLast?_concat]
    rfl
  refine ⟨hbuild, ?_, fun r => congrArg r.emit hbuild⟩
  refine (withDetails_eq _ details).trans ?_
  simp [plain]

end SourceScan.Diagnostic
