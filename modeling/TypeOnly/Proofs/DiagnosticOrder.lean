import TypeOnly.Diagnostic
import TypeOnly.Proofs.ListFacts

/-!
Arranged diagnostics: the order is total and transitive, and its ties agree in all that is compared.
So to leave diagnostics of some numbers out makes no difference to the others, before or after.
-/

namespace TypeOnly

set_option autoImplicit false

universe u

section Lexicographic

variable {α : Type u} [DecidableEq α] {r : α → α → Bool} {x y z : α} {s t w : Bool}

theorem lexicographic_total (htotal : ∀ x y, x ≠ y → (r x y || r y x) = true)
    (hrest : (s || t) = true) :
    ((if x ≠ y then r x y else s) || (if y ≠ x then r y x else t)) = true := by
  by_cases h : x = y
  · simpa [h] using hrest
  · simpa [h, Ne.symm h] using htotal x y h

theorem lexicographic_trans (hanti : ∀ x y, r x y = true → r y x = true → x = y)
    (htrans : ∀ x y z, r x y = true → r y z = true → r x z = true)
    (hrest : s = true → t = true → w = true)
    (hxy : (if x ≠ y then r x y else s) = true) (hyz : (if y ≠ z then r y z else t) = true) :
    (if x ≠ z then r x z else w) = true := by
  by_cases hx : x = y
  · subst hx
    by_cases hz : x = z
    · subst hz
      simp only [ne_eq, not_true_eq_false, if_false] at hxy hyz ⊢
      exact hrest hxy hyz
    · simpa [hz] using hyz
  · rw [if_pos hx] at hxy
    by_cases hz : y = z
    · subst hz
      rw [if_pos hx]
      exact hxy
    · rw [if_pos hz] at hyz
      have hne : x ≠ z := by
        rintro rfl
        exact hx (hanti x y hxy hyz)
      rw [if_pos hne]
      exact htrans x y z hxy hyz

theorem lexicographic_tie (hanti : ∀ x y, r x y = true → r y x = true → x = y)
    (hxy : (if x ≠ y then r x y else s) = true) (hyx : (if y ≠ x then r y x else t) = true) :
    x = y ∧ s = true ∧ t = true := by
  by_cases h : x = y
  · subst h
    simp only [ne_eq, not_true_eq_false, if_false] at hxy hyx
    exact ⟨rfl, hxy, hyx⟩
  · rw [if_pos h] at hxy
    rw [if_pos (Ne.symm h)] at hyx
    exact False.elim (h (hanti x y hxy hyx))

end Lexicographic

namespace Diagnostic

theorem nameLe_total (a b : Option String) (_ : a ≠ b) : (nameLe a b || nameLe b a) = true := by
  cases a <;> cases b <;> simp [nameLe, String.le_total]

theorem nameLe_trans (a b c : Option String) (hab : nameLe a b = true) (hbc : nameLe b c = true) :
    nameLe a c = true := by
  cases a <;> cases b <;> cases c <;> simp [nameLe] at *
  exact String.le_trans hab hbc

theorem nameLe_antisymm (a b : Option String) (hab : nameLe a b = true)
    (hba : nameLe b a = true) : a = b := by
  cases a <;> cases b <;> simp [nameLe] at *
  exact String.le_antisymm hab hba

theorem natLt_total (a b : Nat) (h : a ≠ b) : (decide (a < b) || decide (b < a)) = true := by
  simp only [Bool.or_eq_true, decide_eq_true_eq]
  omega

theorem natLt_trans (a b c : Nat) (hab : decide (a < b) = true) (hbc : decide (b < c) = true) :
    decide (a < c) = true := by
  simp only [decide_eq_true_eq] at *
  omega

theorem natLt_antisymm (a b : Nat) (hab : decide (a < b) = true) (hba : decide (b < a) = true) :
    a = b := by
  simp only [decide_eq_true_eq] at *
  omega

theorem le_total (a b : Diagnostic) : (le a b || le b a) = true := by
  apply lexicographic_total nameLe_total
  apply lexicographic_total natLt_total
  apply lexicographic_total natLt_total
  apply lexicographic_total natLt_total
  simpa using String.le_total a.message b.message

theorem le_trans (a b c : Diagnostic) (hab : le a b = true) (hbc : le b c = true) :
    le a c = true := by
  refine lexicographic_trans nameLe_antisymm nameLe_trans ?_ hab hbc
  refine lexicographic_trans natLt_antisymm natLt_trans ?_
  refine lexicographic_trans natLt_antisymm natLt_trans ?_
  refine lexicographic_trans natLt_antisymm natLt_trans ?_
  intro hab hbc
  simpa using String.le_trans (by simpa using hab) (by simpa using hbc)

/-- What comes before and after each other is told at the same place, with the same words. -/
theorem tie_of_le {a b : Diagnostic} (hab : le a b = true) (hba : le b a = true) :
    a.path?.map Path.slashed = b.path?.map Path.slashed ∧ a.span = b.span ∧ a.code = b.code ∧
      a.message = b.message := by
  obtain ⟨hpath, hab, hba⟩ := lexicographic_tie nameLe_antisymm hab hba
  obtain ⟨hstart, hab, hba⟩ := lexicographic_tie natLt_antisymm hab hba
  obtain ⟨hlength, hab, hba⟩ := lexicographic_tie natLt_antisymm hab hba
  obtain ⟨hcode, hab, hba⟩ := lexicographic_tie natLt_antisymm hab hba
  have hmessage := String.le_antisymm (of_decide_eq_true hab) (of_decide_eq_true hba)
  have hspan : a.span = b.span := by
    cases ha : a.span
    cases hb : b.span
    simp_all
  exact ⟨hpath, hspan, hcode, hmessage⟩

/-! ### Leaving diagnostics out -/

theorem filter_mergeSort (q : Diagnostic → Bool) (ds : List Diagnostic) :
    (ds.mergeSort le).filter q = (ds.filter q).mergeSort le := by
  induction ds with
  | nil => simp
  | cons d ds ih =>
    obtain ⟨l₁, l₂, hsort, hrest, hbefore⟩ := List.mergeSort_cons le_trans le_total d ds
    rw [hsort, List.filter_append]
    rw [hrest, List.filter_append] at ih
    by_cases hd : q d = true
    · obtain ⟨k₁, k₂, ksort, krest, kbefore⟩ :=
        List.mergeSort_cons le_trans le_total d (ds.filter q)
      rw [List.filter_cons_of_pos hd, List.filter_cons_of_pos hd, ksort]
      -- both lists are cut where the diagnostics stop to come before `d`
      have hafter : ∀ b ∈ l₂, le d b = true := by
        have hs := List.pairwise_mergeSort le_trans le_total (d :: ds)
        rw [hsort] at hs
        exact (List.pairwise_cons.mp (List.pairwise_append.mp hs).2.1).1
      have kafter : ∀ b ∈ k₂, le d b = true := by
        have hs := List.pairwise_mergeSort le_trans le_total (d :: ds.filter q)
        rw [ksort] at hs
        exact (List.pairwise_cons.mp (List.pairwise_append.mp hs).2.1).1
      obtain ⟨rfl, rfl⟩ := cut_unique (c := fun b => le d b) (ih.trans krest)
        (fun b hb => by simpa using hbefore b (List.mem_filter.mp hb).1)
        (fun b hb => hafter b (List.mem_filter.mp hb).1)
        (fun b hb => by simpa using kbefore b hb) kafter
      rfl
    · rw [List.filter_cons_of_neg hd, List.filter_cons_of_neg hd]
      exact ih

/-- Diagnostics that tell the same name their file in the same way. -/
def Coherent (ds : List Diagnostic) : Prop :=
  ∀ a ∈ ds, ∀ b ∈ ds, same a b = true → a.path?.map Path.slashed = b.path?.map Path.slashed

theorem same_iff {a b : Diagnostic} : same a b = true ↔
    a.path?.map Path.parts = b.path?.map Path.parts ∧ a.span = b.span ∧ a.code = b.code ∧
      a.message = b.message := by
  simp [same, and_assoc]

theorem le_of_same {a b : Diagnostic} (h : same a b = true)
    (hp : a.path?.map Path.slashed = b.path?.map Path.slashed) : le b a = true := by
  obtain ⟨_, hspan, hcode, hmessage⟩ := same_iff.mp h
  simp [le, hp, hspan, hcode, hmessage]

theorem dropAfter_of_ne {last : Diagnostic} {ds : List Diagnostic}
    (h : ∀ d ∈ ds, same last d = false) : dropAfter last ds = dropRepeated ds := by
  cases ds with
  | nil => rfl
  | cons d ds =>
    have hd := h d List.mem_cons_self
    simp [dropAfter, dropRepeated, hd]

theorem filter_dropAfter {q : Diagnostic → Bool} (hq : ∀ a b, a.code = b.code → q a = q b)
    {last : Diagnostic} {ds : List Diagnostic}
    (hs : (last :: ds).Pairwise fun a b => le a b = true) (hc : Coherent (last :: ds)) :
    (dropAfter last ds).filter q =
      if q last then dropAfter last (ds.filter q) else dropRepeated (ds.filter q) := by
  induction ds generalizing last with
  | nil => simp [dropAfter, dropRepeated]
  | cons d ds ih =>
    obtain ⟨hlast, hds⟩ := List.pairwise_cons.mp hs
    have hskip : (last :: ds).Pairwise fun a b => le a b = true :=
      List.pairwise_cons.mpr ⟨fun b hb => hlast b (List.mem_cons_of_mem _ hb),
        (List.pairwise_cons.mp hds).2⟩
    have hcskip : Coherent (last :: ds) := by
      intro a ha b hb
      exact hc a (List.cons_subset_cons last (List.subset_cons_self d ds) ha)
        b (List.cons_subset_cons last (List.subset_cons_self d ds) hb)
    have hcd : Coherent (d :: ds) := fun a ha b hb =>
      hc a (List.mem_cons_of_mem _ ha) b (List.mem_cons_of_mem _ hb)
    by_cases hsame : same last d = true
    · have hqd : q d = q last := hq d last (same_iff.mp hsame).2.2.1.symm
      rw [dropAfter, if_pos hsame, ih hskip hcskip]
      by_cases hl : q last = true
      · rw [if_pos hl, if_pos hl, List.filter_cons_of_pos (hqd.trans hl), dropAfter, if_pos hsame]
      · rw [if_neg hl, if_neg hl, List.filter_cons_of_neg (by rw [hqd]; exact hl)]
    · rw [dropAfter, if_neg hsame]
      by_cases hd : q d = true
      · rw [List.filter_cons_of_pos hd, List.filter_cons_of_pos hd, ih hds hcd, if_pos hd,
          dropAfter, if_neg hsame, dropRepeated, ite_self]
      · rw [List.filter_cons_of_neg hd, List.filter_cons_of_neg hd, ih hds hcd, if_neg hd]
        by_cases hl : q last = true
        · rw [if_pos hl]
          refine (dropAfter_of_ne ?_).symm
          -- `d` stands between, so what tells the same as `last` would have the number of `d`
          intro e he
          obtain ⟨he, _⟩ := List.mem_filter.mp he
          apply Bool.eq_false_iff.mpr
          intro hse
          have hp := hc last List.mem_cons_self e
            (List.mem_cons_of_mem _ (List.mem_cons_of_mem _ he)) hse
          have hde := (List.pairwise_cons.mp hds).1 e he
          have htie := tie_of_le (hlast d List.mem_cons_self)
            (le_trans d e last hde (le_of_same hse hp))
          exact hd ((hq last d htie.2.2.1).symm.trans hl)
        · rw [if_neg hl]

theorem Coherent.subset {ds es : List Diagnostic} (h : Coherent ds) (hsub : es ⊆ ds) :
    Coherent es := fun a ha b hb => h a (hsub ha) b (hsub hb)

/-- To leave out diagnostics by their numbers is the same before and after arranging. -/
theorem filter_arrange {q : Diagnostic → Bool} (hq : ∀ a b, a.code = b.code → q a = q b)
    {ds : List Diagnostic} (hc : Coherent ds) :
    (arrange ds).filter q = arrange (ds.filter q) := by
  unfold arrange
  rw [← filter_mergeSort]
  have hs := List.pairwise_mergeSort le_trans le_total ds
  have hc' : Coherent (ds.mergeSort le) := hc.subset fun a ha => List.mem_mergeSort.mp ha
  cases hl : ds.mergeSort le with
  | nil => rfl
  | cons d rest =>
    rw [hl] at hs hc'
    rw [dropRepeated]
    by_cases hd : q d = true
    · rw [List.filter_cons_of_pos hd, List.filter_cons_of_pos hd, filter_dropAfter hq hs hc',
        if_pos hd, dropRepeated]
    · rw [List.filter_cons_of_neg hd, List.filter_cons_of_neg hd, filter_dropAfter hq hs hc',
        if_neg hd]

/-! ### What is told -/

theorem dropAfter_sublist (last : Diagnostic) (ds : List Diagnostic) :
    (dropAfter last ds).Sublist ds := by
  induction ds generalizing last with
  | nil => exact List.Sublist.refl _
  | cons d ds ih =>
    unfold dropAfter
    split
    · exact (ih last).cons d
    · exact (ih d).cons_cons d

theorem arrange_sublist (ds : List Diagnostic) : (arrange ds).Sublist (ds.mergeSort le) := by
  unfold arrange
  cases ds.mergeSort le with
  | nil => exact List.Sublist.refl _
  | cons x rest => exact (dropAfter_sublist x rest).cons_cons x

theorem arrange_sorted (ds : List Diagnostic) :
    (arrange ds).Pairwise fun a b => le a b = true :=
  (List.pairwise_mergeSort le_trans le_total ds).sublist (arrange_sublist ds)

theorem mem_of_mem_arrange {ds : List Diagnostic} {d : Diagnostic} (h : d ∈ arrange ds) :
    d ∈ ds := List.mem_mergeSort.mp ((arrange_sublist ds).subset h)

theorem same_refl (d : Diagnostic) : same d d = true := same_iff.mpr ⟨rfl, rfl, rfl, rfl⟩

theorem exists_same_dropAfter {last d : Diagnostic} {ds : List Diagnostic} (h : d ∈ last :: ds) :
    ∃ d' ∈ last :: dropAfter last ds, same d' d = true := by
  induction ds generalizing last with
  | nil =>
    obtain rfl := List.mem_singleton.mp h
    exact ⟨d, List.mem_cons_self, same_refl d⟩
  | cons x ds ih =>
    rcases List.mem_cons.mp h with rfl | h
    · exact ⟨d, List.mem_cons_self, same_refl d⟩
    · unfold dropAfter
      split
      · rename_i hx
        rcases List.mem_cons.mp h with rfl | h
        · exact ⟨last, List.mem_cons_self, hx⟩
        · exact ih (List.mem_cons_of_mem last h)
      · obtain ⟨d', hd', hsame⟩ := ih h
        exact ⟨d', List.mem_cons_of_mem last hd', hsame⟩

/-- Every diagnostic is told, perhaps by another one that tells the same. -/
theorem exists_same_arrange {ds : List Diagnostic} {d : Diagnostic} (h : d ∈ ds) :
    ∃ d' ∈ arrange ds, same d' d = true := by
  unfold arrange
  have hsorted : d ∈ ds.mergeSort le := List.mem_mergeSort.mpr h
  cases hl : ds.mergeSort le with
  | nil => rw [hl] at hsorted; simp at hsorted
  | cons x rest =>
    rw [hl] at hsorted
    exact exists_same_dropAfter hsorted

end Diagnostic

end TypeOnly
