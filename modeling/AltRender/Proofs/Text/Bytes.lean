import AltRender.Text.Bytes
import AltRender.Text.Letters

/-!
# `Proofs/Text/Bytes` — where a text may be cut

A character is a byte that begins it and up to three that go on with it (`utf8EncodeChar_eq`), and
no byte is of both kinds. So the offsets at which a text may be cut are the lengths of its
beginnings (`isBoundary_iff`), and what is cut out between two of them is the text between
(`slice_append`). A character of one byte is found by looking for that byte (`leadByte_eq_iff`).

All of this is about the bytes of one character, of which there are four forms, and each form is
checked by its bits (`utf8EncodeChar_cases`). Going from one character to a text is an induction in
which the offset grows by the size of the character. That bytes of the one kind are below 128 or
from 192 on, and those of the other kind between the two, decides every question that readers ask of
a single byte.
-/

set_option autoImplicit false

namespace AltRender.Text

/-! ## The bytes of a character -/

/-- The byte that begins a character. -/
def leadByte (c : Char) : UInt8 :=
  (String.utf8EncodeChar c).headD 0

/-- The bytes that go on with a character. -/
def trail (c : Char) : List UInt8 :=
  (String.utf8EncodeChar c).tail

theorem forall_byte {P : UInt8 → Prop} (h : ∀ n < 256, P (UInt8.ofNat n)) (b : UInt8) : P b := by
  have hb := h b.toNat b.toNat_lt
  rwa [UInt8.ofNat_toNat] at hb

theorem utf8EncodeChar_eq (c : Char) : String.utf8EncodeChar c = leadByte c :: trail c := by
  have hlength := String.length_utf8EncodeChar c
  have hpos := c.utf8Size_pos
  unfold leadByte trail
  cases h : String.utf8EncodeChar c with
  | nil =>
    rw [h] at hlength
    simp at hlength
    omega
  | cons b bs => rfl

/-- A byte made of six bits and the mark of those that go on with a character. -/
theorem isContinuation_mark (b : UInt8) : isContinuation (b &&& 0x3f ||| 0x80) = true :=
  forall_byte (P := fun b => isContinuation (b &&& 0x3f ||| 0x80) = true) (by decide +kernel) b

/-- The bytes that begin a character of two, three and four bytes. -/
theorem le_lead (b : UInt8) :
    0xc0 ≤ (b &&& 0x1f ||| 0xc0) ∧ 0xc0 ≤ (b &&& 0x0f ||| 0xe0) ∧ 0xc0 ≤ (b &&& 0x07 ||| 0xf0) :=
  forall_byte (P := fun b =>
    0xc0 ≤ (b &&& 0x1f ||| 0xc0) ∧ 0xc0 ≤ (b &&& 0x0f ||| 0xe0) ∧
    0xc0 ≤ (b &&& 0x07 ||| 0xf0)) (by decide +kernel) b

/-- **The forms of a character's bytes:** one below 128, or one from 192 on and others between the
two. -/
theorem utf8EncodeChar_cases (c : Char) :
    (c.toNat < 128 ∧ leadByte c = c.toUInt8 ∧ trail c = []) ∨
      (128 ≤ c.toNat ∧ 0xc0 ≤ leadByte c ∧ ∀ b ∈ trail c, isContinuation b = true) := by
  have hascii : c.utf8Size = 1 ↔ c.toNat < 128 := by
    rw [Char.utf8Size_eq_one_iff, UInt32.le_iff_toNat_le]
    show c.toNat ≤ 127 ↔ c.toNat < 128
    omega
  rcases c.utf8Size_eq with h | h | h | h
  · rw [leadByte, trail, String.utf8EncodeChar_eq_singleton h]
    exact .inl ⟨hascii.mp h, rfl, rfl⟩
  · have hlarge : 128 ≤ c.toNat := by omega
    rw [leadByte, trail, String.utf8EncodeChar_eq_cons_cons h]
    exact .inr ⟨hlarge, (le_lead _).1, by simp [isContinuation_mark]⟩
  · have hlarge : 128 ≤ c.toNat := by omega
    rw [leadByte, trail, String.utf8EncodeChar_eq_cons_cons_cons h]
    exact .inr ⟨hlarge, (le_lead _).2.1, by simp [isContinuation_mark]⟩
  · have hlarge : 128 ≤ c.toNat := by omega
    rw [leadByte, trail, String.utf8EncodeChar_eq_cons_cons_cons_cons h]
    exact .inr ⟨hlarge, (le_lead _).2.2, by simp [isContinuation_mark]⟩

theorem toNat_toUInt8 {c : Char} (h : c.toNat < 128) : c.toUInt8.toNat = c.toNat := by
  show c.val.toUInt8.toNat = c.val.toNat
  rw [UInt32.toNat_toUInt8]
  exact Nat.mod_eq_of_lt (Nat.lt_trans h (by decide))

theorem isContinuation_iff {b : UInt8} :
    isContinuation b = true ↔ 128 ≤ b.toNat ∧ b.toNat < 192 := by
  simp only [isContinuation, Bool.and_eq_true, decide_eq_true_eq, UInt8.le_iff_toNat_le,
    UInt8.lt_iff_toNat_lt]
  rfl

theorem isContinuation_leadByte (c : Char) : isContinuation (leadByte c) = false := by
  rw [Bool.eq_false_iff, Ne, isContinuation_iff]
  rcases utf8EncodeChar_cases c with ⟨hascii, hlead, -⟩ | ⟨-, hlead, -⟩
  · rw [hlead, toNat_toUInt8 hascii]
    omega
  · have hlarge : 192 ≤ (leadByte c).toNat := UInt8.le_iff_toNat_le.mp hlead
    omega

theorem isContinuation_of_mem_trail {c : Char} {b : UInt8} (h : b ∈ trail c) :
    isContinuation b = true := by
  rcases utf8EncodeChar_cases c with ⟨-, -, htrail⟩ | ⟨-, -, htrail⟩
  · rw [htrail] at h
    exact absurd h List.not_mem_nil
  · exact htrail b h

theorem trail_of_ascii {c : Char} (h : c.toNat < 128) : trail c = [] := by
  rcases utf8EncodeChar_cases c with ⟨-, -, htrail⟩ | ⟨hlarge, -, -⟩
  · exact htrail
  · omega

/-- **A character of one byte is begun by no other byte,** and its byte begins no other
character. -/
theorem leadByte_eq_iff {c mark : Char} (hmark : mark.toNat < 128) :
    leadByte c = mark.toUInt8 ↔ c = mark := by
  rcases utf8EncodeChar_cases c with ⟨hascii, hlead, -⟩ | ⟨hlarge, hlead, -⟩
  · rw [hlead, ← UInt8.toNat_inj, toNat_toUInt8 hascii, toNat_toUInt8 hmark]
    exact ⟨Char.toNat_inj.mp, fun h => congrArg Char.toNat h⟩
  · have hlarge' : 192 ≤ (leadByte c).toNat := UInt8.le_iff_toNat_le.mp hlead
    refine ⟨fun h => ?_, fun h => ?_⟩
    · rw [h, toNat_toUInt8 hmark] at hlarge'
      omega
    · rw [h] at hlarge
      omega

theorem ne_of_isContinuation {b : UInt8} (h : isContinuation b = true) {mark : Char}
    (hmark : mark.toNat < 128) : b ≠ mark.toUInt8 := by
  rintro rfl
  have := (isContinuation_iff.mp h).1
  rw [toNat_toUInt8 hmark] at this
  omega

/-! ## The bytes of a text -/

@[simp] theorem utf8_nil : utf8 [] = [] := rfl

theorem utf8_cons (c : Char) (cs : List Char) :
    utf8 (c :: cs) = leadByte c :: (trail c ++ utf8 cs) := by
  rw [utf8, List.flatMap_cons, utf8EncodeChar_eq]
  rfl

@[simp] theorem utf8_append (as bs : List Char) : utf8 (as ++ bs) = utf8 as ++ utf8 bs :=
  List.flatMap_append

theorem length_trail (c : Char) : (trail c).length + 1 = c.utf8Size := by
  rw [← String.length_utf8EncodeChar, utf8EncodeChar_eq]
  rfl

theorem utf8Size_of_ascii {c : Char} (h : c.toNat < 128) : c.utf8Size = 1 := by
  rw [← length_trail, trail_of_ascii h]
  rfl

theorem length_utf8 (cs : List Char) : (utf8 cs).length = byteLength cs := by
  induction cs with
  | nil => rfl
  | cons c cs ih =>
    have := length_trail c
    rw [utf8_cons, List.length_cons, List.length_append, ih, byteLength_cons]
    omega

theorem fromUTF8?_utf8 (cs : List Char) :
    String.fromUTF8? (utf8 cs).toByteArray = some (String.ofList cs) := by
  have hbytes : (utf8 cs).toByteArray = (String.ofList cs).toByteArray :=
    String.toByteArray_ofList.symm
  rw [hbytes, String.fromUTF8?, dif_pos (String.ofList cs).isValidUTF8]
  rfl

/-! ## Reading bytes -/

theorem byteAt_eq_ok_iff {bytes : List UInt8} {i : Nat} {b : UInt8} :
    byteAt bytes i = .ok b ↔ bytes[i]? = some b := by
  unfold byteAt
  cases bytes[i]? <;> simp

theorem byteAt_append (as : List UInt8) (b : UInt8) (bs : List UInt8) :
    byteAt (as ++ b :: bs) as.length = .ok b := by
  rw [byteAt, List.getElem?_append_right (Nat.le_refl _), Nat.sub_self, List.getElem?_cons_zero]

theorem getElem?_utf8 (xs : List Char) (c : Char) (ys : List Char) :
    (utf8 (xs ++ c :: ys))[byteLength xs]? = some (leadByte c) := by
  rw [utf8_append, utf8_cons, ← length_utf8, List.getElem?_append_right (Nat.le_refl _),
    Nat.sub_self, List.getElem?_cons_zero]

/-- The byte at which a character begins. -/
theorem byteAt_utf8 (xs : List Char) (c : Char) (ys : List Char) :
    byteAt (utf8 (xs ++ c :: ys)) (byteLength xs) = .ok (leadByte c) := by
  rw [byteAt, getElem?_utf8]

/-! ## Cutting -/

theorem isBoundary_append (xs ys : List Char) :
    isBoundary (utf8 (xs ++ ys)) (byteLength xs) = true := by
  cases ys with
  | nil => simp [isBoundary, length_utf8]
  | cons c ys =>
    rw [isBoundary, getElem?_utf8, Option.any_some, isContinuation_leadByte, Bool.not_false,
      Bool.or_true]

/-- Behind a character a text may be cut where its rest may be cut. -/
theorem isBoundary_cons {c : Char} {cs : List Char} {i : Nat} (hi : i ≠ 0)
    (h : isBoundary (utf8 (c :: cs)) i = true) :
    c.utf8Size ≤ i ∧ isBoundary (utf8 cs) (i - c.utf8Size) = true := by
  have hlength := length_trail c
  obtain ⟨n, rfl⟩ := Nat.exists_eq_succ_of_ne_zero hi
  simp only [isBoundary, utf8_cons, List.length_cons, List.length_append, length_utf8,
    List.getElem?_cons_succ, Bool.or_eq_true, beq_iff_eq] at h
  by_cases hinside : n < (trail c).length
  · -- The bytes that go on with a character are no place to cut.
    exfalso
    rcases h with (h | h) | h
    · exact hi h
    · omega
    · rw [List.getElem?_append_left hinside, List.getElem?_eq_getElem hinside, Option.any_some,
        isContinuation_of_mem_trail (List.getElem_mem hinside)] at h
      exact absurd h (by decide)
  · have hsub : n + 1 - c.utf8Size = n - (trail c).length := by omega
    refine ⟨by omega, ?_⟩
    simp only [isBoundary, length_utf8, Bool.or_eq_true, beq_iff_eq, hsub]
    rcases h with (h | h) | h
    · exact absurd h hi
    · exact .inl (.inr (by omega))
    · rw [List.getElem?_append_right (Nat.le_of_not_lt hinside)] at h
      exact .inr h

/-- **A text may be cut just where one of its beginnings ends.** -/
theorem isBoundary_iff {cs : List Char} {i : Nat} :
    isBoundary (utf8 cs) i = true ↔ ∃ xs ys, cs = xs ++ ys ∧ i = byteLength xs := by
  refine ⟨fun h => ?_, ?_⟩
  · induction cs generalizing i with
    | nil => exact ⟨[], [], rfl, by simpa [isBoundary] using h⟩
    | cons c cs ih =>
      by_cases hzero : i = 0
      · exact ⟨[], c :: cs, rfl, hzero⟩
      · obtain ⟨hle, hrest⟩ := isBoundary_cons hzero h
        obtain ⟨xs, ys, hcs, hi⟩ := ih hrest
        exact ⟨c :: xs, ys, by rw [hcs, List.cons_append], by rw [byteLength_cons]; omega⟩
  · rintro ⟨xs, ys, rfl, rfl⟩
    exact isBoundary_append xs ys

theorem isBoundary_of_slice {text : String} {start stop : Nat} {part : String}
    (h : slice text start stop = .ok part) : isBoundary (utf8 text.toList) start = true := by
  rw [slice] at h
  split at h
  · rename_i hbounds
    exact hbounds.2.2.1
  · exact absurd h (by simp)

/-- **What is cut out of a text** between the ends of two of its beginnings is what stands between
them. -/
theorem slice_append {text : String} {xs ys zs : List Char} (h : text.toList = xs ++ ys ++ zs) :
    slice text (byteLength xs) (byteLength (xs ++ ys)) = .ok (String.ofList ys) := by
  have hstart : isBoundary (utf8 text.toList) (byteLength xs) = true := by
    rw [h, List.append_assoc]
    exact isBoundary_append _ _
  have hstop : isBoundary (utf8 text.toList) (byteLength (xs ++ ys)) = true := by
    rw [h]
    exact isBoundary_append _ _
  have hle : byteLength xs ≤ byteLength (xs ++ ys) := by
    rw [byteLength_append]
    exact Nat.le_add_right _ _
  have hend : byteLength (xs ++ ys) ≤ (utf8 text.toList).length := by
    rw [h, length_utf8, byteLength_append (xs ++ ys)]
    exact Nat.le_add_right _ _
  have hpart : ((utf8 text.toList).take (byteLength (xs ++ ys))).drop (byteLength xs) =
    utf8 ys := by
    rw [h, utf8_append, ← length_utf8 (xs ++ ys), List.take_left, utf8_append, ← length_utf8,
      List.drop_left]
  rw [slice, if_pos ⟨hle, hend, hstart, hstop⟩, hpart, fromUTF8?_utf8]

end AltRender.Text
