import SourceScan.Scan.Step
import SourceScan.Reporter

/-!
# Scanning a source

A source is read step by step from its first character to its end. What the steps find depends on
the source alone; it is then delivered in order, the words to the list of tokens and the faults to
a reporter. A reporter that halts ends the delivery there: no tokens come out, and what was
reported before stays reported.

Reading first and delivering afterwards gives what a scanner gives that reports while it reads:
`scan?_eq_tokenize` (`Proofs.Progress`) shows this for every reporter, halting ones included, and
every source that 32-bit counters are enough for.
-/

namespace SourceScan

/-- What the steps from a cursor on found, and where the last one ended. -/
structure Reading (source : String) where
  findings : List Finding
  stop : Cursor source

namespace Cursor

variable {source : String}

/-- **The steps from a cursor to the end.** -/
def read (c : Cursor source) : Reading source :=
  if h : c.AtEnd then ⟨[], c⟩
  else
    let s := c.step h
    let r := s.stop.read
    ⟨s.finding :: r.findings, r.stop⟩
termination_by c.bytesAhead
decreasing_by exact bytesAhead_lt_of_pos_lt (c.step h).moves

end Cursor

def Reading.of (source : String) : Reading source := (Cursor.start source).read

/-- The token that closes the list. -/
def Reading.endToken {source : String} (r : Reading source) : Token :=
  .endOfInput r.stop.line r.stop.column r.stop.offset

/-- **Delivery.** Tokens are collected and traced, faults are reported, and blanks dropped. -/
def Reporter.deliver (r : Reporter) : List Finding → Outcome (List Token)
  | [] => ⟨.ok [], r, []⟩
  | .blank :: rest => r.deliver rest
  | .token t :: rest =>
    let o := r.deliver rest
    ⟨o.result.map (t :: ·), o.reporter, t.logEntry :: o.log⟩
  | .fault d :: rest =>
    let e := r.emit d
    match e.result with
    | .error halt => ⟨.error halt, e.reporter, e.log⟩
    | .ok _ =>
      let o := e.reporter.deliver rest
      ⟨o.result, o.reporter, e.log ++ o.log⟩

def openingEntry (source : String) : Log.Entry :=
  ⟨.debug, s!"scanning {source.utf8ByteSize} bytes"⟩

def closingEntry (tokens lines errors : Nat) : Log.Entry :=
  ⟨.debug, s!"scanned {tokens} tokens over {lines} lines, {errors} errors"⟩

/-- **Scanning a source.** The tokens, closed by the end of the input, with all faults reported to
`r`; or the halt of a reporter that does not tolerate them. The errors counted in the log are
those of this scan, whatever the reporter held before. -/
def tokenize (source : String) (r : Reporter) : Outcome (List Token) :=
  let reading := Reading.of source
  let o := r.deliver reading.findings
  let log := openingEntry source :: o.log
  match o.result with
  | .error halt => ⟨.error halt, o.reporter, log⟩
  | .ok words =>
    let tokens := words ++ [reading.endToken]
    let errors := o.reporter.errorCount - r.errorCount
    ⟨.ok tokens, o.reporter, log ++ [closingEntry tokens.length reading.stop.line errors]⟩

end SourceScan
