import SourceScan.Diagnostic

/-!
# Reporters

A reporter receives diagnostics and keeps them. Its policy says whether it also echoes each one to
the log, and whether it halts on the first error. An error that halts is echoed like any other but
not kept, so a halting reporter never holds an error.

What an operation does is an `Outcome`: its result, or the diagnostic that halted it, together
with the reporter it leaves behind and the log entries it wrote. A reporter stays usable after a
halt.
-/

namespace SourceScan

/-- How diagnostics are handled. -/
structure Policy where
  /-- Halt on the first error instead of keeping it. -/
  panicOnError : Bool := false
  /-- Echo each diagnostic to the log. -/
  echo : Bool := false
deriving DecidableEq, Inhabited

/-- The error that ended an operation early. -/
structure Halt where
  cause : Diagnostic
deriving DecidableEq, Inhabited

def Halt.message (h : Halt) : String := s!"Diagnostic error: {h.cause}"

/-- **A receiver of diagnostics,** with those it keeps in the order of their arrival. -/
structure Reporter where
  policy : Policy
  kept : Array Diagnostic
deriving DecidableEq, Inhabited

/-- What an operation on a reporter did. -/
structure Outcome (α : Type) where
  result : Except Halt α
  reporter : Reporter
  log : List Log.Entry

namespace Reporter

def withPolicy (policy : Policy) : Reporter := ⟨policy, #[]⟩

/-- A reporter that keeps everything in silence. -/
def new : Reporter := withPolicy {}

/-- A reporter that halts on the first error. -/
def panicking : Reporter := withPolicy { panicOnError := true }

/-- **Reporting a diagnostic.** It is echoed first; then it either halts or is kept. -/
def emit (r : Reporter) (d : Diagnostic) : Outcome Unit :=
  let log := if r.policy.echo then [d.logEntry] else []
  if r.policy.panicOnError && d.severity.isError then ⟨.error ⟨d⟩, r, log⟩
  else ⟨.ok (), { r with kept := r.kept.push d }, log⟩

/-- Reports an error of which only the line is known. -/
def emitLine (r : Reporter) (line : Nat) (message : String) : Outcome Unit :=
  r.emit (.error message (.point line 0))

def emitDraft (r : Reporter) (d : Diagnostic.Draft) : Outcome Unit := r.emit d.build

def errorCount (r : Reporter) : Nat := r.kept.countP fun d => d.severity == .error

def warningCount (r : Reporter) : Nat := r.kept.countP fun d => d.severity == .warning

def hasErrors (r : Reporter) : Bool := r.kept.any fun d => d.severity.isError

def diagnostics (r : Reporter) : List Diagnostic := r.kept.toList

def clear (r : Reporter) : Reporter := { r with kept := #[] }

/-- Hands out what was kept and empties the reporter. -/
def take (r : Reporter) : List Diagnostic × Reporter := (r.diagnostics, r.clear)

end Reporter

end SourceScan
