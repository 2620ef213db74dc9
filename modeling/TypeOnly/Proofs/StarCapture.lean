import TypeOnly.Proofs.InsertedLiterals
import TypeOnly.Proofs.PathMappings
import TypeOnly.Proofs.TextBytes

/-!
What a star stands for. A pattern fits a name exactly if a text in the place of its first star makes
the name of it, and there is one such text only. Cut out by counting bytes, it still lies between
characters, behind what stands before the star and in front of what stands after it.
-/

namespace TypeOnly.Wildcard

set_option autoImplicit false

open Text (Span Boundary replaceFirst utf8 length_utf8 utf8_append exists_middle_of_utf8)

/-! ### Putting a text in the place of the star -/

theorem replaceFirst_star {before : String} (h : '*' ∉ before.toList) (captured after : String) :
    replaceFirst '*' captured (before ++ "*" ++ after) = before ++ captured ++ after := by
  rw [replaceFirst, breakAt_star before after h]
  apply String.toList_injective
  simp

theorem capture?_iff_replaceFirst {pattern name captured : String}
    (hstar : hasStar pattern = true) :
    capture? pattern name = some captured ↔ replaceFirst '*' captured pattern = name := by
  rw [capture?_eq_some_iff hstar]
  constructor
  · rintro ⟨before, after, rfl, hfirst, rfl⟩
    exact replaceFirst_star hfirst captured after
  · rintro rfl
    obtain ⟨before, after, rfl, hfirst⟩ := exists_star hstar
    exact ⟨before, after, rfl, hfirst, replaceFirst_star hfirst captured after⟩

/-! ### Cutting by bytes -/

/-- Where the text that the first star of a pattern stands for begins and ends in a name. What
stands before and after the star is looked for among the bytes of the name. -/
def slice? (pattern name : String) : Option (Nat × Nat) :=
  match Text.breakAt '*' pattern.toList with
  | none => none
  | some (before, after) =>
    let front := utf8 (String.ofList before)
    let back := utf8 (String.ofList after)
    let bytes := utf8 name
    if front.length + back.length ≤ bytes.length && front.isPrefixOf bytes &&
        back.isSuffixOf bytes then
      some (front.length, bytes.length - back.length)
    else none

theorem slice?_star {before : String} (h : '*' ∉ before.toList) (after name : String) :
    slice? (before ++ "*" ++ after) name =
      if before.utf8ByteSize + after.utf8ByteSize ≤ name.utf8ByteSize ∧
          utf8 before <+: utf8 name ∧ utf8 after <:+ utf8 name then
        some (before.utf8ByteSize, name.utf8ByteSize - after.utf8ByteSize)
      else none := by
  rw [slice?, breakAt_star before after h]
  simp only [String.ofList_toList, length_utf8, Bool.and_eq_true, decide_eq_true_eq,
    List.isPrefixOf_iff_prefix, List.isSuffixOf_iff_suffix, and_assoc]

theorem slice?_eq_some_iff {pattern name : String} {a b : Nat} (hstar : hasStar pattern = true) :
    slice? pattern name = some (a, b) ↔ ∃ before captured, Captures pattern name before captured ∧
      a = before.utf8ByteSize ∧ b = (before ++ captured).utf8ByteSize := by
  constructor
  · intro h
    obtain ⟨before, after, rfl, hfirst⟩ := exists_star hstar
    rw [slice?_star hfirst] at h
    obtain ⟨⟨hroom, hbefore, hafter⟩, hends⟩ := Option.ite_none_right_eq_some.mp h
    obtain ⟨rfl, rfl⟩ := Prod.mk.inj (Option.some.inj hends)
    obtain ⟨middle, rfl⟩ := exists_middle_of_utf8 hroom hbefore hafter
    refine ⟨before, middle, ⟨after, rfl, hfirst, rfl⟩, rfl, ?_⟩
    rw [String.utf8ByteSize_append, Nat.add_sub_cancel]
  · rintro ⟨before, captured, ⟨after, rfl, hfirst, rfl⟩, rfl, rfl⟩
    rw [slice?_star hfirst, if_pos, String.utf8ByteSize_append, Nat.add_sub_cancel]
    simp only [String.utf8ByteSize_append, utf8_append]
    refine ⟨by omega, ?_, List.suffix_append _ _⟩
    rw [List.append_assoc]
    exact List.prefix_append _ _

theorem Captures.textIn_eq {pattern name before captured : String}
    (h : Captures pattern name before captured) :
    (Span.upTo before.utf8ByteSize (before ++ captured).utf8ByteSize).textIn name = captured := by
  obtain ⟨after, _, _, rfl⟩ := h
  apply Span.Covers.textIn_eq
  refine ⟨before, after, rfl, rfl, ?_⟩
  rw [Span.upTo, String.utf8ByteSize_append, Nat.add_sub_cancel_left]

theorem capture?_eq_slice {pattern : String} (hstar : hasStar pattern = true) (name : String) :
    capture? pattern name = (slice? pattern name).map fun s => (Span.upTo s.1 s.2).textIn name := by
  apply Option.ext
  intro captured
  rw [capture?_eq_some_iff hstar, Option.map_eq_some_iff]
  constructor
  · rintro ⟨before, hcaptures⟩
    exact ⟨_, (slice?_eq_some_iff hstar).mpr ⟨before, captured, hcaptures, rfl, rfl⟩,
      hcaptures.textIn_eq⟩
  · rintro ⟨⟨a, b⟩, hslice, rfl⟩
    obtain ⟨before, captured, hcaptures, rfl, rfl⟩ := (slice?_eq_some_iff hstar).mp hslice
    rw [hcaptures.textIn_eq]
    exact ⟨before, hcaptures⟩

/-- A pattern with a star fits exactly the names that a text in the place of its first star makes of
it, and that text is the answer. It is cut out between characters, from the end of what stands
before the star to the beginning of what stands after it. A pattern without a star fits itself
only. -/
theorem capture_undoes_replacement (pattern name : String) :
    (hasStar pattern = true →
      (∀ captured, capture? pattern name = some captured ↔
        replaceFirst '*' captured pattern = name) ∧
      (∀ captured other, replaceFirst '*' captured pattern = name →
        replaceFirst '*' other pattern = name → captured = other) ∧
      capture? pattern name =
        (slice? pattern name).map (fun s => (Span.upTo s.1 s.2).textIn name) ∧
      ∀ a b, slice? pattern name = some (a, b) → a ≤ b ∧ Boundary name a ∧ Boundary name b ∧
        ∃ before captured, Captures pattern name before captured ∧ a = before.utf8ByteSize ∧
          b = (before ++ captured).utf8ByteSize) ∧
    (hasStar pattern = false → ∀ captured, capture? pattern name = some captured ↔
      pattern = name ∧ captured = "") := by
  refine ⟨fun hstar => ⟨fun _ => capture?_iff_replaceFirst hstar, ?_,
    capture?_eq_slice hstar name, ?_⟩, fun hplain _ => capture?_plain hplain⟩
  · intro captured other hcaptured hother
    rw [← capture?_iff_replaceFirst hstar] at hcaptured hother
    exact Option.some.inj (hcaptured.symm.trans hother)
  · intro a b hslice
    obtain ⟨before, captured, hcaptures, rfl, rfl⟩ := (slice?_eq_some_iff hstar).mp hslice
    refine ⟨?_, ?_, ?_, before, captured, hcaptures, rfl, rfl⟩
    · rw [String.utf8ByteSize_append]
      exact Nat.le_add_right _ _
    · obtain ⟨after, _, _, rfl⟩ := hcaptures
      exact ⟨before, captured ++ after, String.append_assoc, rfl⟩
    · obtain ⟨after, _, _, rfl⟩ := hcaptures
      exact ⟨before ++ captured, after, rfl, rfl⟩

theorem capture_undoes_replacement_accent : capture? "é*é" "é" = none ∧
    capture? "é*é" "é*é" = some "*" ∧ slice? "é*é" "é*é" = some (2, 3) ∧
    Boundary "é*é" 2 ∧ Boundary "é*é" 3 ∧ capture? "é" "é" = some "" := by
  have hstar : hasStar "é*é" = true := by decide
  have hslice : slice? "é*é" "é*é" = some (2, 3) := by decide
  obtain ⟨_, _, hshort, _⟩ := (capture_undoes_replacement "é*é" "é").1 hstar
  obtain ⟨hiff, _, _, hbetween⟩ := (capture_undoes_replacement "é*é" "é*é").1 hstar
  obtain ⟨_, hstart, hstop, _⟩ := hbetween 2 3 hslice
  have hplain := (capture_undoes_replacement "é" "é").2 (by decide) ""
  refine ⟨?_, (hiff "*").mpr (by decide), hslice, hstart, hstop, hplain.mpr ⟨rfl, rfl⟩⟩
  -- the two ends would share the only character
  rw [hshort]
  decide

end TypeOnly.Wildcard
