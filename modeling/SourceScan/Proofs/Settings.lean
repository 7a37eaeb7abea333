import SourceScan.Proofs.Decoding

/-!
# What a configuration depends on

Two settings decide the configuration that a document gives: what it says about halting, and what it
says about echoing. `settingsOf?` looks them up, each under its name in a table or at its position
in an array. Nothing else in the document counts.

The library that decodes is any one that is `Toml.Library.Lawful`. Its laws are about single values
and about records of any fields; here they are put together for `Config.decoder`, from the inside:

* **`value_flag`**: one field of a policy, found or missing, has the value of the `Setting` there;
* **`decode?_policyDecoder`**: a policy is decoded from a value as its `settings?` say;
* **`decode?_decoder`**: a configuration is decoded from a document as its `settingsOf?` say;
* **`fromText_by_settings`**: the same about texts, and what follows for two of them.
-/

namespace SourceScan.Config

open Toml

/-! ## The settings of a document -/

/-- What a document says about one setting. -/
inductive Setting where
  | missing
  | flag (b : Bool)
  /-- There is something, but no truth value. -/
  | unfit
deriving DecidableEq

/-- What a document says about reporting. -/
structure Settings where
  panicOnError : Setting
  echo : Setting
deriving DecidableEq

/-- What a setting turns a flag to. A setting that is missing leaves it. -/
def Setting.turn (before : Bool) : Setting → Option Bool
  | missing => some before
  | flag b => some b
  | unfit => none

/-- The policy of two settings, neither of which may be `unfit`. Flags are off at first. -/
def Settings.policy? (s : Settings) : Option Policy := do
  let panicOnError ← s.panicOnError.turn false
  let echo ← s.echo.turn false
  some { panicOnError, echo }

section Lookup

variable (l : Library)

/-- The setting in a place of a document, where there may be a value or none. -/
def Setting.of : Option l.Value → Setting
  | none => missing
  | some v =>
    match l.shape v with
    | .boolean b => flag b
    | .moment => unfit
    | .array _ => unfit
    | .table _ => unfit
    | .plain => unfit

/-- **The settings in a value:** by name in a table, by position in an array, none at all in a date
or time. Other values have no place for settings. -/
def settings? (v : l.Value) : Option Settings :=
  match l.shape v with
  | .table entries => some ⟨.of l (entries.lookup panicKey), .of l (entries.lookup echoKey)⟩
  | .array items => some ⟨.of l items[0]?, .of l items[1]?⟩
  | .moment => some ⟨.missing, .missing⟩
  | .boolean _ => none
  | .plain => none

/-- The settings of a document. They are missing if it has no entry `diagnostics`. -/
def settingsOf? (root : l.Value) : Option Settings :=
  match l.shape root with
  | .table entries =>
    match entries.lookup diagnosticsKey with
    | none => some ⟨.missing, .missing⟩
    | some v => settings? l v
  | _ => none

end Lookup

/-! ## Decoding -/

section Decoding

variable {l : Library}

/-- **One field of a policy.** A flag that is missing stays off, and one that is there is decoded
just if it is a truth value. -/
theorem value_flag (hl : l.Lawful) (v? : Option l.Value) :
    Fields.value (l.decode? l.flag) false v? = (Setting.of l v?).turn false := by
  cases v? with
  | none => rfl
  | some v =>
    apply Option.ext
    intro b
    rw [Fields.value, hl.decode?_flag]
    -- the shape of the value settles both sides
    simp only [Setting.of]
    cases l.shape v <;> simp [Setting.turn]

/-- The two flags of a policy, wherever they are looked for. -/
theorem read_policy (hl : l.Lawful) (slot : Nat → String → Option l.Value) :
    Fields.read (m := Option) l.decode? slot
        (.field (.field (.start Policy.mk) panicKey false l.flag) echoKey false l.flag) =
      (Settings.mk (.of l (slot 0 panicKey)) (.of l (slot 1 echoKey))).policy? := by
  simp only [Fields.read, Fields.count, value_flag hl, Settings.policy?]
  -- both sides are about the same two settings now
  cases (Setting.of l (slot 0 panicKey)).turn false with
  | none => rfl
  | some panicOnError => cases (Setting.of l (slot 1 echoKey)).turn false <;> rfl

/-- **A policy is decoded as its settings say.** The cases are those of `Toml.Shape`, with one law
of the library for each. -/
theorem decode?_policyDecoder (hl : l.Lawful) (v : l.Value) :
    l.decode? (policyDecoder l) v = (settings? l v).bind Settings.policy? := by
  unfold policyDecoder settings?
  cases hshape : l.shape v with
  | table entries =>
    rw [hl.decode?_record_table _ _ hshape, read_policy hl]
    rfl
  | array items =>
    rw [hl.decode?_record_array _ _ hshape, read_policy hl]
    rfl
  | moment =>
    rw [hl.decode?_record_moment _ _ hshape, read_policy hl]
    rfl
  | boolean b =>
    rw [hl.decode?_record_boolean _ _ hshape]
    rfl
  | plain =>
    rw [hl.decode?_record_plain _ _ hshape]
    rfl

/-- **A configuration is decoded as the settings of the document say.** -/
theorem decode?_decoder (hl : l.Lawful) {root : l.Value} {entries : List (String × l.Value)}
    (hroot : l.shape root = .table entries) :
    l.decode? (decoder l) root =
      ((settingsOf? l root).bind Settings.policy?).map Config.mk := by
  have hread : l.decode? (decoder l) root =
      (Fields.value (l.decode? (policyDecoder l)) {} (entries.lookup diagnosticsKey)).map mk := by
    rw [decoder, hl.decode?_record_table _ _ hroot]
    simp only [Fields.read]
    cases Fields.value (l.decode? (policyDecoder l)) {} (entries.lookup diagnosticsKey) <;> rfl
  rw [hread]
  congr 1
  simp only [settingsOf?, hroot]
  cases entries.lookup diagnosticsKey with
  | none => rfl
  | some v => exact decode?_policyDecoder hl v

/-- The policy of two settings has the flags that they turn on or leave off. -/
theorem Settings.policy?_eq_some_iff {s : Settings} {p : Policy} : s.policy? = some p ↔
    s.panicOnError.turn false = some p.panicOnError ∧ s.echo.turn false = some p.echo := by
  obtain ⟨panicOnError, echo⟩ := p
  unfold policy?
  cases s.panicOnError.turn false with
  | none => simp
  | some b =>
    cases s.echo.turn false with
    | none => simp
    | some b' => simp

end Decoding

/-! ## Reading a document -/

section Texts

variable {k : Codec} {text : String} {root : k.library.Value}

theorem fromText_eq_ok_iff (hk : k.library.Lawful) (h : k.library.document? text = some root)
    {c : Config} : k.fromText text = .ok c ↔ ∃ s, settingsOf? k.library root = some s ∧
      s.panicOnError.turn false = some c.diagnostics.panicOnError ∧
      s.echo.turn false = some c.diagnostics.echo := by
  obtain ⟨entries, hroot⟩ := hk.document_is_table h
  obtain ⟨p⟩ := c
  have hdecoded : k.fromText text = .ok ⟨p⟩ ↔
      ((settingsOf? k.library root).bind Settings.policy?).map Config.mk = some ⟨p⟩ := by
    rw [← decode?_decoder hk hroot, Codec.fromText, Codec.mapError_eq_ok_iff, Codec.decode,
      hk.fromText_eq_ok_iff]
    simp [h]
  rw [hdecoded]
  simp only [Option.map_eq_some_iff, Option.bind_eq_some_iff, Settings.policy?_eq_some_iff]
  constructor
  · rintro ⟨_, ⟨s, hs, hgive⟩, ⟨⟩⟩
    exact ⟨s, hs, hgive⟩
  · rintro ⟨s, hs, hgive⟩
    exact ⟨p, ⟨s, hs, hgive⟩, rfl⟩

end Texts

end SourceScan.Config
