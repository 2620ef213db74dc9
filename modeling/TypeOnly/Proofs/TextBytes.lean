import TypeOnly.Proofs.TextSpans

/-!
The bytes of a text. They can be cut where characters begin, and only a byte below 128 stands for a
character alone.
-/

namespace TypeOnly.Text

set_option autoImplicit false

def utf8 (s : String) : List UInt8 := s.toByteArray.data.toList

theorem length_utf8 (s : String) : (utf8 s).length = s.utf8ByteSize := by
  rw [utf8, Array.length_toList, ← String.size_toByteArray]
  rfl

theorem utf8_append (s t : String) : utf8 (s ++ t) = utf8 s ++ utf8 t := by
  rw [utf8, String.toByteArray_append, ByteArray.data_append, Array.toList_append]
  rfl

theorem utf8_injective {s t : String} (h : utf8 s = utf8 t) : s = t :=
  String.toByteArray_inj.mp (ByteArray.ext (Array.toList_inj.mp h))

/-- Where the bytes of a text are cut in two, both parts are texts or neither is. -/
theorem isValidUTF8_iff {s : String} {x y : ByteArray} (h : s.toByteArray = x ++ y) :
    x.IsValidUTF8 ↔ y.IsValidUTF8 := by
  have hsize : s.utf8ByteSize = x.size + y.size := by
    rw [← String.size_toByteArray, h, ByteArray.size_append]
  have hle : (⟨x.size⟩ : String.Pos.Raw) ≤ s.rawEndPos := by
    rw [String.Pos.Raw.le_iff, String.byteIdx_rawEndPos, hsize]
    exact Nat.le_add_right _ _
  have hfront : s.toByteArray.extract 0 x.size = x := by
    rw [h, ByteArray.extract_append_eq_left rfl]
  have hback : s.toByteArray.extract x.size s.utf8ByteSize = y := by
    rw [h, ByteArray.extract_append_eq_right rfl hsize]
  have hcut := String.Pos.Raw.isValid_iff_isValidUTF8_extract_zero.symm.trans
    (String.Pos.Raw.isValid_iff_isValidUTF8_extract_utf8ByteSize (s := s) (p := ⟨x.size⟩))
  rw [hfront, hback] at hcut
  exact ⟨fun hx => (hcut.mp ⟨hle, hx⟩).2, fun hy => (hcut.mpr ⟨hle, hy⟩).2⟩

theorem toByteArray_eq_append {s : String} {xs ys : List UInt8} (h : xs ++ ys = utf8 s) :
    s.toByteArray = ⟨xs.toArray⟩ ++ ⟨ys.toArray⟩ := by
  apply ByteArray.ext
  rw [ByteArray.data_append, ← Array.toList_inj, Array.toList_append]
  exact h.symm

theorem exists_rest_of_utf8 {before s : String} (h : utf8 before <+: utf8 s) :
    ∃ rest, s = before ++ rest := by
  obtain ⟨ys, hys⟩ := h
  have hvalid := (isValidUTF8_iff (toByteArray_eq_append hys)).mp before.isValidUTF8
  refine ⟨String.ofByteArray _ hvalid, utf8_injective ?_⟩
  rw [utf8_append, ← hys]
  rfl

theorem exists_front_of_utf8 {after s : String} (h : utf8 after <:+ utf8 s) :
    ∃ front, s = front ++ after := by
  obtain ⟨xs, hxs⟩ := h
  have hvalid := (isValidUTF8_iff (toByteArray_eq_append hxs)).mpr after.isValidUTF8
  refine ⟨String.ofByteArray _ hvalid, utf8_injective ?_⟩
  rw [utf8_append, ← hxs]
  rfl

/-- A beginning and an end that have room in a text do not overlap. -/
theorem exists_middle_of_utf8 {before after s : String}
    (hroom : before.utf8ByteSize + after.utf8ByteSize ≤ s.utf8ByteSize)
    (hbefore : utf8 before <+: utf8 s) (hafter : utf8 after <:+ utf8 s) :
    ∃ middle, s = before ++ middle ++ after := by
  obtain ⟨rest, rfl⟩ := exists_rest_of_utf8 hbefore
  obtain ⟨front, hfront⟩ := exists_front_of_utf8 hafter
  have hle : before.utf8ByteSize ≤ front.utf8ByteSize := by
    rw [hfront, String.utf8ByteSize_append] at hroom
    omega
  obtain ⟨middle, rfl, rfl⟩ := Text.boundary_after hfront hle
  exact ⟨middle, hfront⟩

/-! ### Characters -/

def encode (cs : List Char) : List UInt8 := cs.flatMap String.utf8EncodeChar

/-- The character that a byte below 128 stands for; no byte of a longer character gives one of
those. -/
def letter (b : UInt8) : Char := Char.ofNat b.toNat

@[simp] theorem encode_nil : encode [] = [] := rfl

@[simp] theorem encode_cons (c : Char) (cs : List Char) :
    encode (c :: cs) = String.utf8EncodeChar c ++ encode cs := rfl

@[simp] theorem encode_append (cs ds : List Char) : encode (cs ++ ds) = encode cs ++ encode ds :=
  List.flatMap_append

theorem toNat_letter (b : UInt8) : (letter b).toNat = b.toNat := by
  have h := b.toNat_lt
  have hvalid : b.toNat.isValidChar := Or.inl (by omega)
  rw [letter, Char.ofNat, dif_pos hvalid]
  rfl

theorem letter_eq_iff {b n : UInt8} {c : Char} (hc : letter n = c) : letter b = c ↔ b = n := by
  rw [← hc]
  refine ⟨fun h => ?_, fun h => h ▸ rfl⟩
  apply UInt8.toNat_inj.mp
  rw [← toNat_letter, ← toNat_letter, h]

theorem letter_ofNat {n : Nat} (h : n < 256) : (letter (UInt8.ofNat n)).toNat = n := by
  rw [toNat_letter, UInt8.toNat_ofNat_of_lt' h]

/-- A character is one byte, or some that stand for nothing else. -/
theorem encode_cases (c : Char) :
    (∃ b, String.utf8EncodeChar c = [b] ∧ letter b = c) ∨
    (128 ≤ c.toNat ∧ ∀ b ∈ String.utf8EncodeChar c, 128 ≤ (letter b).toNat) := by
  have hval : c.val.toNat = c.toNat := rfl
  unfold String.utf8EncodeChar
  dsimp only
  rw [hval]
  by_cases hascii : c.toNat ≤ 127
  · left
    rw [if_pos hascii]
    refine ⟨_, rfl, ?_⟩
    apply Char.toNat_inj.mp
    exact letter_ofNat (by omega)
  · right
    rw [if_neg hascii]
    refine ⟨by omega, ?_⟩
    have hhigh {n : Nat} (hlow : 128 ≤ n) (hlt : n < 256) :
        128 ≤ (letter (UInt8.ofNat n)).toNat := (letter_ofNat hlt).symm ▸ hlow
    split
    · simp only [List.forall_mem_cons, List.not_mem_nil, false_implies, implies_true, and_true]
      exact ⟨hhigh (by omega) (by omega), hhigh (by omega) (by omega)⟩
    · split
      · simp only [List.forall_mem_cons, List.not_mem_nil, false_implies, implies_true, and_true]
        exact ⟨hhigh (by omega) (by omega), hhigh (by omega) (by omega),
          hhigh (by omega) (by omega)⟩
      · simp only [List.forall_mem_cons, List.not_mem_nil, false_implies, implies_true, and_true]
        exact ⟨hhigh (by omega) (by omega), hhigh (by omega) (by omega),
          hhigh (by omega) (by omega), hhigh (by omega) (by omega)⟩

theorem utf8_ofList (cs : List Char) : utf8 (String.ofList cs) = encode cs := by
  simp [utf8, encode, List.utf8Encode]

theorem utf8_eq_encode (s : String) : utf8 s = encode s.toList := by
  rw [← utf8_ofList, String.ofList_toList]

theorem fromUTF8?_utf8 (s : String) : String.fromUTF8? ⟨(utf8 s).toArray⟩ = some s := by
  have hvalid : ByteArray.IsValidUTF8 ⟨(utf8 s).toArray⟩ := s.isValidUTF8
  rw [String.fromUTF8?, dif_pos hvalid]
  rfl

theorem ne_of_high {c d : Char} (hc : 128 ≤ c.toNat) (hd : d.toNat < 128) : c ≠ d := by
  rintro rfl
  omega

theorem head?_encode {cs : List Char} {x : Char} (hx : x.toNat < 128) :
    (encode cs).head?.map letter = some x ↔ cs.head? = some x := by
  cases cs with
  | nil => simp
  | cons c cs =>
    rw [encode_cons]
    rcases encode_cases c with ⟨b, hb, hletter⟩ | ⟨hc, hhigh⟩
    · simp [hb, hletter]
    · obtain ⟨b, bs, hbs⟩ := List.exists_cons_of_ne_nil (String.utf8EncodeChar_ne_nil (c := c))
      have hb := hhigh b (by simp [hbs])
      simp [hbs, ne_of_high hb hx, ne_of_high hc hx]

end TypeOnly.Text
