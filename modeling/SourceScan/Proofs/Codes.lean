import SourceScan.Diagnostic
import SourceScan.Proofs.Grammar

/-!
# Texts of diagnostic codes

The text of a code is its family and then its number, with nothing between them and with zeros in
front of small numbers only. It still tells the two apart, as long as families hold no digits: the
family ends at the first digit of the text, and the zeros in front of a number do not count. So a
code can be read back from its text, and no two codes have the same.
-/

namespace SourceScan.DiagnosticCode

/-- **Reading a code.** The family reaches up to the first digit, and from there on stands the
number. -/
def read (text : String) : DiagnosticCode :=
  ⟨String.ofList (text.toList.takeWhile fun x => !x.isDigit),
    Nat.ofDigitChars 10 (text.toList.dropWhile fun x => !x.isDigit) 0⟩

/-- The text is cut where the padded number begins. -/
theorem takeWhile_dropWhile_chars {c : DiagnosticCode}
    (hfamily : ∀ x ∈ c.family.toList, x.isDigit = false) :
    c.chars.takeWhile (fun x => !x.isDigit) = c.family.toList ∧
      c.chars.dropWhile (fun x => !x.isDigit) = (Nat.toDigits 10 c.number).leftpad width '0' := by
  have hdigitless : ∀ x ∈ c.family.toList, (!x.isDigit) = true := by
    intro x hx
    rw [hfamily x hx, Bool.not_false]
  -- the padding begins with a digit if there is any, and otherwise the number does
  obtain ⟨hne, hdigits⟩ := isDigits_leftpad_toDigits c.number width
  obtain ⟨first, others, hpadded⟩ := List.exists_cons_of_ne_nil hne
  have hfirst : first.isDigit = true := hdigits first (hpadded ▸ List.mem_cons_self)
  rw [chars, List.takeWhile_append_of_pos hdigitless, List.dropWhile_append_of_pos hdigitless,
    hpadded]
  simp [hfirst]

/-- **A code is read back from its text,** however many digits its number has. -/
theorem read_text {c : DiagnosticCode} (hfamily : ∀ x ∈ c.family.toList, x.isDigit = false) :
    read c.text = c := by
  obtain ⟨htake, hdrop⟩ := takeWhile_dropWhile_chars hfamily
  rw [read, text, String.toList_ofList, htake, hdrop, String.ofList_toList,
    ofDigitChars_leftpad_toDigits]

/-- **Codes are known by their texts.** Let `c` and `d` be codes whose `family` has no digit in it.
Their `text`s are equal just if their `family` and their `number` are. `read` gives either code back
from its `text`, and `toString` is the `text`. -/
theorem text_eq_iff {c d : DiagnosticCode} (hc : ∀ x ∈ c.family.toList, x.isDigit = false)
    (hd : ∀ x ∈ d.family.toList, x.isDigit = false) :
    (c.text = d.text ↔ c.family = d.family ∧ c.number = d.number) ∧
      (read c.text = c ∧ toString c = c.text) ∧ (read d.text = d ∧ toString d = d.text) := by
  refine ⟨⟨fun htext => ?_, fun ⟨hfamily, hnumber⟩ => ?_⟩, ⟨read_text hc, rfl⟩, ⟨read_text hd, rfl⟩⟩
  · have hsame : c = d := by
      calc c = read c.text := (read_text hc).symm
        _ = read d.text := by rw [htext]
        _ = d := read_text hd
    exact ⟨congrArg family hsame, congrArg number hsame⟩
  · rw [text, text, chars, chars, hfamily, hnumber]

/-- A number that is padded, and one that is longer than the padding reaches. -/
theorem text_eq_iff_five_digits :
    let wide : DiagnosticCode := ⟨"E", 10234⟩
    let padded : DiagnosticCode := ⟨"É-", 7⟩
    (∀ x ∈ wide.family.toList, x.isDigit = false) ∧
    (∀ x ∈ padded.family.toList, x.isDigit = false) ∧
    wide.text = "E10234" ∧ padded.text = "É-0007" ∧ wide.text ≠ padded.text ∧
    read "E10234" = wide ∧ read "É-0007" = padded := by
  intro wide padded
  have hletter : ∀ x ∈ wide.family.toList, x.isDigit = false := by simp [wide]
  have hdash : ∀ x ∈ padded.family.toList, x.isDigit = false := by simp [padded]
  have hwide : wide.text = "E10234" := by decide +kernel
  have hpadded : padded.text = "É-0007" := by decide +kernel
  obtain ⟨hiff, ⟨hread, -⟩, ⟨hread', -⟩⟩ := text_eq_iff hletter hdash
  rw [hwide] at hread
  rw [hpadded] at hread'
  refine ⟨hletter, hdash, hwide, hpadded, fun htext => ?_, hread, hread'⟩
  exact absurd (hiff.1 htext).2 (by decide)

/-- With a digit at its end, a family may pass for a shorter one. -/
example : text ⟨"E1", 234⟩ = text ⟨"E", 10234⟩ := by decide +kernel

end SourceScan.DiagnosticCode
