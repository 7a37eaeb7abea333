/-!
# Log entries

An operation returns the entries it logs, in order and unfiltered. A logger with a maximum level
keeps those that pass it (`Entry.passes`).
-/

namespace SourceScan.Log

/-- The level of an entry, from errors down to the trace of single steps. -/
inductive Level where
  | error
  | warn
  | info
  | debug
  | trace
deriving DecidableEq, Inhabited

/-- The place of a level in the order from `error` to `trace`. -/
def Level.rank : Level → Nat
  | .error => 0
  | .warn => 1
  | .info => 2
  | .debug => 3
  | .trace => 4

def Level.name : Level → String
  | .error => "ERROR"
  | .warn => "WARN"
  | .info => "INFO"
  | .debug => "DEBUG"
  | .trace => "TRACE"

/-- One line of the log. -/
structure Entry where
  level : Level
  text : String
deriving DecidableEq, Inhabited

/-- **The maximum level.** Nothing passes when the log is off, which is `none`; otherwise every
level up to and including the given one does. -/
def Entry.passes (e : Entry) : Option Level → Bool
  | none => false
  | some most => e.level.rank ≤ most.rank

/-- The entries that a logger with the given maximum level keeps. -/
def heard (most : Option Level) (entries : List Entry) : List Entry :=
  entries.filter (·.passes most)

end SourceScan.Log
