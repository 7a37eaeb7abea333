import SourceScan.Cursor

/-!
# What a cursor has passed and what lies ahead

A cursor cuts its text in two: the characters it has `passed` and the `rest`. The lemmas say what
each operation does to the two lists, so that a reader of a proof need not look at positions.

* **`passed_append_rest`**: nothing is lost and nothing is read twice.
* **`rest_eq_cons`**, **`passed_next`**: a step moves one character from one list to the other.
* **`peek_eq`**: one byte is enough to see an ASCII character ahead.
* **`rest_skipWhile`**: skipping a run drops it from what lies ahead.
* **`offset_eq`**: the byte offset is the size of what has been passed.
* **`textTo_splits`**: the text between two cursors is the part passed by one and not the other.
* **`sliceFrom?_eq_some_iff`**: a slice is what is left of the passed text behind its first bytes.
-/

namespace SourceScan.Cursor

variable {source : String}

/-- **The characters before the cursor.** -/
def passed (c : Cursor source) : List Char := (source.sliceTo c.pos).copy.toList

/-- **Nothing is lost and nothing is read twice.** -/
theorem passed_append_rest (c : Cursor source) : c.passed ++ c.rest = source.toList := by
  have h := c.pos.splits.eq_append
  rw [passed, rest, remaining, ← String.toList_append, ← h]

/-- The offset of a cursor counts the bytes of `passed`. -/
theorem offset_eq (c : Cursor source) : c.offset = (String.ofList c.passed).utf8ByteSize := by
  rw [passed, String.ofList_toList, offset, c.pos.splits.offset_eq_rawEndPos]
  rfl

/-- Of any two halves that a text `Splits` into at a cursor, the second is `rest`. -/
theorem rest_eq_of_splits {c : Cursor source} {before after : String}
    (h : c.pos.Splits before after) : c.rest = after.toList := by
  rw [rest, remaining, String.Pos.Splits.eq_right c.pos.splits h]

/-- Of any two halves that a text `Splits` into at a cursor, the first is `passed`. -/
theorem passed_eq_of_splits {c : Cursor source} {before after : String}
    (h : c.pos.Splits before after) : c.passed = before.toList := by
  rw [passed, String.Pos.Splits.eq_left c.pos.splits h]

/-! ## The ends -/

@[simp] theorem rest_start : (start source).rest = source.toList :=
  rest_eq_of_splits (String.splits_startPos source)

@[simp] theorem passed_start : (start source).passed = [] :=
  (passed_eq_of_splits (String.splits_startPos source)).trans (by simp)

/-- `AtEnd` is about positions, and says the same as an empty `rest`. -/
theorem rest_eq_nil_iff {c : Cursor source} : c.rest = [] ↔ c.AtEnd := by
  rw [rest, String.toList_eq_nil_iff, AtEnd, c.pos.splits.eq_endPos_iff]
  rfl

/-! ## One step -/

/-- **A step takes the first character off `rest`.** -/
theorem rest_eq_cons (c : Cursor source) (h : ¬ c.AtEnd) :
    c.rest = c.head h :: (c.next h).rest := by
  rw [rest_eq_of_splits (String.Pos.splits_next_right c.pos h), rest, remaining, pos_next]
  simp [head]

/-- **A step puts it behind `passed`.** -/
theorem passed_next (c : Cursor source) (h : ¬ c.AtEnd) :
    (c.next h).passed = c.passed ++ [c.head h] := by
  have hs := String.Pos.splits_next c.pos h
  rw [← pos_next c h] at hs
  rw [passed_eq_of_splits hs, passed]
  simp [head]

theorem offset_next (c : Cursor source) (h : ¬ c.AtEnd) :
    (c.next h).offset = c.offset + (c.head h).utf8Size := by
  rw [offset_eq, offset_eq, passed_next]
  simp

theorem head?_eq (c : Cursor source) : c.head? = c.rest.head? := by
  unfold head?
  split
  · next h => rw [rest_eq_nil_iff.2 h]; rfl
  · next h => rw [rest_eq_cons c h]; rfl

@[simp] theorem rest_tail (c : Cursor source) : c.tail.rest = c.rest.tail := by
  unfold tail
  split
  · next h => rw [rest_eq_nil_iff.2 h]; rfl
  · next h => rw [rest_eq_cons c h]; rfl

/-! ## Looking ahead

`peek` decodes a character only if its first byte does not tell what it is. That it tells is a fact
about the encoding: the bytes below 128 are the encodings of the characters below 128. -/

/-- A first byte below 128 has its highest bit clear, and so announces one byte. -/
theorem utf8ByteSize_of_lt {b : UInt8} (hb : b < 128) (hfirst : b.IsUTF8FirstByte) :
    b.utf8ByteSize hfirst = 1 := by
  have hlow : b &&& 0x80 = 0 := by
    have htop : b.toNat.testBit 7 = false := Nat.testBit_lt_two_pow (UInt8.lt_iff_toNat_lt.1 hb)
    apply UInt8.toNat_inj.1
    rw [UInt8.toNat_and]
    apply Nat.eq_of_testBit_eq
    intro i
    show (b.toNat &&& 2 ^ 7).testBit i = (0 : Nat).testBit i
    rw [Nat.testBit_and, Nat.testBit_two_pow, Nat.zero_testBit]
    -- bit 7 is clear in `b`, and all other bits are in the mask
    by_cases hi : 7 = i
    · rw [← hi, htop, Bool.false_and]
    · rw [decide_eq_false hi, Bool.and_false]
  rw [UInt8.utf8ByteSize, if_pos hlow]

/-- A character of one byte is that byte. -/
theorem ofUInt8_toUInt8 {x : Char} (h : x.utf8Size = 1) : Char.ofUInt8 x.val.toUInt8 = x := by
  have hval : x.val.toNat ≤ 127 := Char.utf8Size_eq_one_iff.1 h
  apply Char.ext
  apply UInt32.toNat_inj.1
  show x.val.toUInt8.toUInt32.toNat = x.val.toNat
  rw [UInt8.toNat_toUInt32, UInt32.toNat_toUInt8]
  omega

/-- The byte at a position is the first byte of the character there. -/
theorem head?_utf8EncodeChar_get (p : source.Pos) (h : p ≠ source.endPos) :
    (String.utf8EncodeChar (p.get h)).head? = some (p.byte h) := by
  have hslice : p.toSlice ≠ source.toSlice.endPos :=
    ne_of_apply_ne String.Pos.ofToSlice (by simpa using h)
  have hencode := String.Slice.Pos.utf8Encode_get_eq_extract p.toSlice hslice
  rw [List.utf8Encode_singleton] at hencode
  have hlength : 0 < (String.utf8EncodeChar (p.toSlice.get hslice)).length := by
    simp [Char.utf8Size_pos]
  show (String.utf8EncodeChar (p.toSlice.get hslice)).head? = some (p.toSlice.byte hslice)
  rw [List.head?_eq_getElem?, List.getElem?_eq_getElem hlength, List.getElem_eq_getElem_toByteArray]
  simp only [hencode, ByteArray.getElem_extract]
  simp [String.Slice.Pos.byte, String.Slice.getUTF8Byte, String.getUTF8Byte]

/-- **A byte below 128 tells the character.** The byte at a position belongs to the encoding of the
character there, by `head?_utf8EncodeChar_get`, and it is all of this encoding. -/
theorem ofUInt8_byte (c : Cursor source) (h : ¬ c.AtEnd) (hb : c.pos.byte h < 128) :
    Char.ofUInt8 (c.pos.byte h) = c.head h := by
  have hsize : (c.head h).utf8Size = 1 := by
    rw [← utf8ByteSize_of_lt hb String.Pos.isUTF8FirstByte_byte]
    exact String.Pos.utf8ByteSize_byte.symm
  have hbyte : c.pos.byte h = (c.head h).val.toUInt8 := by
    have hencode : String.utf8EncodeChar (c.pos.get h) = [(c.head h).val.toUInt8] :=
      String.utf8EncodeChar_eq_singleton hsize
    have hfirst := head?_utf8EncodeChar_get c.pos h
    rw [hencode] at hfirst
    exact (Option.some.inj hfirst).symm
  rw [hbyte, ofUInt8_toUInt8 hsize]

/-- Both ways in which `peek` finds the character ahead give the first of `rest`. -/
theorem peek_eq (c : Cursor source) : c.peek = c.rest.head?.getD endMark := by
  unfold peek
  split
  · next h => rw [rest_eq_nil_iff.2 h]; rfl
  · next h =>
    rw [rest_eq_cons c h]
    split
    · next hb => exact ofUInt8_byte c h hb
    · rfl

theorem peekNext_eq (c : Cursor source) : c.peekNext = c.rest[1]?.getD endMark := by
  rw [peekNext, head?_eq, rest_tail]
  cases c.rest with
  | nil => rfl
  | cons x xs => cases xs <;> rfl

/-- A character is taken if it is the first of `rest`. -/
theorem accept?_eq (c : Cursor source) (x : Char) :
    c.accept? x = if c.rest.head? = some x then some c.tail else none := by
  -- at the end nothing is equal to `x`, although the end mark may be
  simp only [accept?, peek_eq, ← rest_eq_nil_iff]
  cases c.rest with
  | nil => simp
  | cons y ys => by_cases hy : y = x <;> simp [hy]

/-! ## Runs -/

/-- Skipping a run drops it from `rest`. The induction is that of `skipWhile`: at the end, within
the run, and behind it. -/
theorem rest_skipWhile (test : Char → Bool) (c : Cursor source) :
    (c.skipWhile test).rest = c.rest.dropWhile test := by
  fun_induction skipWhile test c with
  | case1 c h => rw [rest_eq_nil_iff.2 h]; rfl
  | case2 c h ht ih => rw [ih, rest_eq_cons c h, List.dropWhile_cons_of_pos ht]
  | case3 c h ht => rw [rest_eq_cons c h, List.dropWhile_cons_of_neg ht]

/-! ## Stretches between two cursors -/

/-- The text between two cursors is what the second has passed beyond the first. -/
theorem textTo_splits {c d : Cursor source} (h : c.pos ≤ d.pos) :
    d.passed = c.passed ++ (c.textTo d).toList ∧ c.rest = (c.textTo d).toList ++ d.rest := by
  have hs : (source.slice c.pos d.pos h).copy = c.textTo d := by
    rw [textTo, String.extract_eq_copy_slice _ _ h]
  obtain ⟨before, after, hc, hd⟩ := String.copy_slice_eq_iff_splits.1 ⟨h, hs⟩
  refine ⟨?_, ?_⟩
  · rw [passed_eq_of_splits hd, passed_eq_of_splits hc, String.toList_append]
  · rw [rest_eq_of_splits hc, rest_eq_of_splits hd, String.toList_append]

/-! ## Slices

A slice begins at any byte its caller names. There is text from that byte on if the byte is where a
cut of the passed text can be made. -/

/-- A byte offset is looked up as the position that has this offset. -/
theorem pos?_eq_some_iff {start : Nat} {p : source.Pos} :
    source.pos? ⟨start⟩ = some p ↔ p.offset.byteIdx = start := by
  unfold String.pos? String.Slice.pos?
  constructor
  · intro h
    obtain ⟨q, hq, rfl⟩ := Option.map_eq_some_iff.1 h
    split at hq
    · cases hq
      rfl
    · cases hq
  · rintro rfl
    have hvalid : String.Pos.Raw.isValidForSlice source.toSlice ⟨p.offset.byteIdx⟩ = true :=
      String.Pos.Raw.isValidForSlice_eq_true_iff.2 p.toSlice.isValidForSlice
    rw [dif_pos hvalid]
    rfl

/-- A slice can be taken from every character boundary up to the cursor, and from no other byte. -/
theorem isSome_sliceFrom?_iff {c : Cursor source} {start : Nat} :
    (c.sliceFrom? start).isSome = true ↔
      (⟨start⟩ : String.Pos.Raw).IsValid source ∧ start ≤ c.offset := by
  constructor
  · intro h
    unfold sliceFrom? at h
    split at h
    · next p hp =>
      obtain rfl := pos?_eq_some_iff.1 hp
      split at h
      · next hle => exact ⟨p.isValid, hle⟩
      · cases h
    · cases h
  · rintro ⟨hvalid, hle⟩
    have hp : source.pos? ⟨start⟩ = some (source.pos ⟨start⟩ hvalid) := pos?_eq_some_iff.2 rfl
    have hpos : source.pos ⟨start⟩ hvalid ≤ c.pos := hle
    rw [sliceFrom?, hp]
    simp only [if_pos hpos, Option.isSome_some]

/-- What a cursor has passed is found by its size: it is the first of any two halves `before` and
`inside` of the text if `before` has as many bytes as the cursor's offset. -/
theorem passed_of_append {c : Cursor source} {before inside : List Char}
    (hcut : before ++ inside = source.toList)
    (hoffset : c.offset = (String.ofList before).utf8ByteSize) : c.passed = before := by
  have hsplits : c.pos.Splits (String.ofList before) (String.ofList inside) := by
    constructor
    · rw [← String.ofList_append, hcut, String.ofList_toList]
    · exact String.Pos.Raw.ext hoffset
  rw [passed_eq_of_splits hsplits, String.toList_ofList]

/-- **The text from a byte up to the cursor** is what is left of the passed text behind as many
bytes. -/
theorem sliceFrom?_eq_some_iff {c : Cursor source} {start : Nat} {text : String} :
    c.sliceFrom? start = some text ↔
      ∃ before, c.passed = before ++ text.toList ∧ (String.ofList before).utf8ByteSize = start := by
  constructor
  · intro h
    unfold sliceFrom? at h
    split at h
    · next p hp =>
      split at h
      · next hle =>
        cases h
        -- the cursor at the start of the slice has passed what comes before it
        exact ⟨_, (textTo_splits (c := ⟨p, c.line, c.column⟩) hle).1,
          (offset_eq ⟨p, c.line, c.column⟩).symm.trans (pos?_eq_some_iff.1 hp)⟩
      · cases h
    · cases h
  · rintro ⟨before, hpassed, rfl⟩
    have hcut : before ++ (text.toList ++ c.rest) = source.toList := by
      rw [← List.append_assoc, ← hpassed, passed_append_rest]
    have hvalid : (⟨(String.ofList before).utf8ByteSize⟩ : String.Pos.Raw).IsValid source := by
      refine String.Pos.Raw.isValid_iff_exists_append.2
        ⟨String.ofList before, String.ofList (text.toList ++ c.rest), ?_, rfl⟩
      rw [← String.ofList_append, hcut, String.ofList_toList]
    -- a cursor at that byte has passed the same text, however the byte was found
    let here : Cursor source := ⟨source.pos _ hvalid, c.line, c.column⟩
    have hhere : here.passed = before := passed_of_append hcut rfl
    have hle : here.pos ≤ c.pos := by
      have hoffset : here.offset ≤ c.offset := by
        rw [offset_eq, offset_eq, hhere, hpassed, String.ofList_append, String.utf8ByteSize_append]
        omega
      exact hoffset
    have hinside := (textTo_splits hle).1
    rw [hhere, hpassed] at hinside
    have hp : source.pos? ⟨(String.ofList before).utf8ByteSize⟩ = some here.pos :=
      pos?_eq_some_iff.2 rfl
    rw [sliceFrom?, hp, String.toList_injective (List.append_cancel_left hinside)]
    exact if_pos hle

end SourceScan.Cursor
