import TypeOnly.Edit
import TypeOnly.Proofs.TextSpans

/-!
Insertions at increasing offsets between characters always succeed: the pieces of the text are put
together again with one literal at each cut.
-/

namespace TypeOnly

set_option autoImplicit false

namespace Insertion

variable {pending : List Insertion} {offset : Nat}

theorem takeWhile_of_lt (h : ∀ i ∈ pending, offset < i.offset) :
    pending.takeWhile (·.offset = offset) = [] ∧
      pending.dropWhile (·.offset = offset) = pending := by
  cases pending with
  | nil => exact ⟨rfl, rfl⟩
  | cons i rest =>
    have hne : i.offset ≠ offset := Nat.ne_of_gt (h i List.mem_cons_self)
    exact ⟨List.takeWhile_cons_of_neg (by simpa using hne),
      List.dropWhile_cons_of_neg (by simpa using hne)⟩

theorem splice_nil (offset : Nat) (cs : List Char) : splice [] offset cs = .ok cs := by
  unfold splice
  rfl

/-- A character that ends before the first offset is passed over. -/
theorem splice_cons (h : ∀ i ∈ pending, offset < i.offset) {c : Char}
    (hc : ∀ i ∈ pending, offset + c.utf8Size ≤ i.offset) (cs : List Char) :
    splice pending offset (c :: cs) =
      (splice pending (offset + c.utf8Size) cs).map (c :: ·) := by
  obtain ⟨htake, hdrop⟩ := takeWhile_of_lt h
  cases pending with
  | nil => simp only [splice_nil, Except.map]
  | cons next later =>
    have hnext : ¬ next.offset < offset + c.utf8Size := Nat.not_lt.mpr (hc next List.mem_cons_self)
    conv => lhs; unfold splice
    simp only [htake, hdrop, if_neg hnext, List.flatMap_nil, List.nil_append]

/-- Nothing is inserted before the first offset. -/
theorem splice_skip (before after : List Char)
    (h : ∀ i ∈ pending, offset + (String.ofList before).utf8ByteSize ≤ i.offset) :
    splice pending offset (before ++ after) =
      (splice pending (offset + (String.ofList before).utf8ByteSize) after).map (before ++ ·) := by
  induction before generalizing offset with
  | nil =>
    have hsame : offset + (String.ofList []).utf8ByteSize = offset := by simp
    rw [hsame, List.nil_append]
    cases splice pending offset after <;> simp only [Except.map, List.nil_append]
  | cons c before ih =>
    have hpos := c.utf8Size_pos
    have hsize : offset + (String.ofList (c :: before)).utf8ByteSize =
        offset + c.utf8Size + (String.ofList before).utf8ByteSize := by
      rw [Text.size_cons, Nat.add_assoc]
    rw [hsize] at h ⊢
    have hlt : ∀ i ∈ pending, offset < i.offset := by
      intro i hi
      have hle := h i hi
      omega
    have hc : ∀ i ∈ pending, offset + c.utf8Size ≤ i.offset := by
      intro i hi
      have hle := h i hi
      omega
    rw [List.cons_append, splice_cons hlt hc, ih h]
    generalize offset + c.utf8Size + (String.ofList before).utf8ByteSize = place
    cases splice pending place after <;> simp only [Except.map, List.cons_append]

/-- At its offset an insertion is put before the rest. -/
theorem splice_here (i : Insertion) (cs : List Char) :
    splice (i :: pending) i.offset cs =
      (splice pending i.offset cs).map (i.literal.toList ++ ·) := by
  have htake : (i :: pending).takeWhile (·.offset = i.offset) =
      i :: pending.takeWhile (·.offset = i.offset) := List.takeWhile_cons_of_pos (by simp)
  have hdrop : (i :: pending).dropWhile (·.offset = i.offset) =
      pending.dropWhile (·.offset = i.offset) := List.dropWhile_cons_of_pos (by simp)
  unfold splice
  simp only [htake, hdrop, List.flatMap_cons]
  cases pending.dropWhile (·.offset = i.offset) with
  | nil => simp [Except.map]
  | cons next later =>
    cases cs with
    | nil => rfl
    | cons c rest =>
      dsimp only
      split
      · rfl
      · cases splice (next :: later) (i.offset + c.utf8Size) rest <;> simp [Except.map]

/-- Insertions of one literal are put where the text is cut. -/
theorem splice_cut {literal text : String} {pieces : List String}
    (hcut : Text.Cut offset (pending.map (·.offset)) text pieces)
    (hsorted : pending.Pairwise fun i j => i.offset < j.offset)
    (hliteral : ∀ i ∈ pending, i.literal = literal) :
    splice pending offset text.toList = .ok (literal.intercalate pieces).toList := by
  induction pending generalizing offset text pieces with
  | nil =>
    cases hcut
    rw [splice_nil]
    simp
  | cons i pending ih =>
    obtain ⟨hfirst, hrest⟩ := List.pairwise_cons.mp hsorted
    rw [List.map_cons] at hcut
    generalize ho : i.offset = o at hcut
    cases hcut with
    | @cut _ _ after pieces before hcut =>
      have hsize : (String.ofList before.toList).utf8ByteSize = before.utf8ByteSize := by
        rw [String.ofList_toList]
      have hbound : ∀ j ∈ i :: pending,
          offset + (String.ofList before.toList).utf8ByteSize ≤ j.offset := by
        intro j hj
        rw [hsize, ← ho]
        rcases List.mem_cons.mp hj with rfl | hj
        · exact Nat.le_refl _
        · exact Nat.le_of_lt (hfirst j hj)
      have hlater := ih hcut hrest fun j hj => hliteral j (List.mem_cons_of_mem i hj)
      rw [String.toList_append, splice_skip before.toList after.toList hbound, hsize, ← ho,
        splice_here i after.toList, ho, hlater, hliteral i List.mem_cons_self,
        String.intercalate_cons_of_ne_nil hcut.ne_nil]
      simp [Except.map]

/-- Insertions of one literal at increasing offsets between characters can always be made. -/
theorem apply_of_boundaries {is : List Insertion} {literal text : String}
    (hsorted : is.Pairwise fun i j => i.offset < j.offset)
    (hboundary : ∀ i ∈ is, Text.Boundary text i.offset)
    (hliteral : ∀ i ∈ is, i.literal = literal) :
    ∃ pieces, Text.Cut 0 (is.map (·.offset)) text pieces ∧
      apply text is = .ok (literal.intercalate pieces) := by
  have hoffsets : (is.map (·.offset)).Pairwise (· < ·) := List.pairwise_map.mpr hsorted
  obtain ⟨pieces, hcut⟩ : ∃ pieces, Text.Cut 0 (is.map (·.offset)) text pieces := by
    apply Text.exists_cut hoffsets
    intro o ho
    obtain ⟨i, hi, rfl⟩ := List.mem_map.mp ho
    exact ⟨i.offset, hboundary i hi, (Nat.zero_add _).symm⟩
  refine ⟨pieces, hcut, ?_⟩
  have hsort : sort is = is := by
    apply List.mergeSort_of_pairwise
    apply hsorted.imp
    intro i j hij
    simpa using Nat.le_of_lt hij
  rw [apply, hsort, splice_cut hcut hsorted hliteral]
  exact congrArg Except.ok String.ofList_toList

end Insertion

end TypeOnly
