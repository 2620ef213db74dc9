import Mathlib.Data.List.Forall2
import Mathlib.Data.List.Nodup

/-!
Facts about lists that more than one part of the development needs, or that belong to none of them.
-/

namespace TypeOnly

set_option autoImplicit false

/-- Two entries of a list without repetitions stand in one order only. -/
theorem eq_of_sublists {α : Type} {x y : α} {l : List α} (hl : l.Nodup) (hxy : [x, y].Sublist l)
    (hyx : [y, x].Sublist l) : x = y := by
  induction l with
  | nil => cases hxy
  | cons z l ih =>
    obtain ⟨hz, hl⟩ := List.nodup_cons.mp hl
    cases hxy with
    | cons _ hxy =>
      cases hyx with
      | cons _ hyx => exact ih hl hxy hyx
      | cons_cons _ _ => exact absurd (hxy.subset (by simp)) hz
    | cons_cons _ _ =>
      cases hyx with
      | cons _ hyx => exact absurd (hyx.subset (by simp)) hz
      | cons_cons _ _ => rfl

/-- A list is cut in one way only into what fails a test and what passes it. -/
theorem cut_unique {α : Type} {c : α → Bool} {k₁ k₂ l₁ l₂ : List α}
    (h : k₁ ++ k₂ = l₁ ++ l₂) (hk₁ : ∀ a ∈ k₁, c a = false) (hk₂ : ∀ a ∈ k₂, c a = true)
    (hl₁ : ∀ a ∈ l₁, c a = false) (hl₂ : ∀ a ∈ l₂, c a = true) : k₁ = l₁ ∧ k₂ = l₂ := by
  have hk : (k₁ ++ k₂).filter c = k₂ := by
    rw [List.filter_append, List.filter_eq_nil_iff.mpr (by simpa using hk₁),
      List.filter_eq_self.mpr hk₂, List.nil_append]
  have hl : (l₁ ++ l₂).filter c = l₂ := by
    rw [List.filter_append, List.filter_eq_nil_iff.mpr (by simpa using hl₁),
      List.filter_eq_self.mpr hl₂, List.nil_append]
  obtain rfl : k₂ = l₂ := by rw [← hk, h, hl]
  exact ⟨List.append_cancel_right h, rfl⟩

theorem zipIdx_pairwise {α : Type} (l : List α) : l.zipIdx.Pairwise fun x y => x.2 < y.2 := by
  rw [← List.pairwise_map (f := Prod.snd) (R := (· < ·)), List.zipIdx_map_snd]
  exact List.pairwise_lt_range' 1

theorem getLast?_dropWhile {α : Type} {p : α → Bool} {l : List α} (h : l.dropWhile p ≠ []) :
    (l.dropWhile p).getLast? = l.getLast? := by
  have hlast := List.getLast?_eq_some_getLast h
  rw [hlast]
  conv_rhs => rw [← List.takeWhile_append_dropWhile (p := p) (l := l)]
  rw [List.getLast?_append, hlast, Option.some_or]

theorem exists_of_map_eq {α β γ : Type} {f : α → γ} {g : β → γ} {as : List α} {bs : List β}
    (h : as.map f = bs.map g) {a : α} (ha : a ∈ as) : ∃ b ∈ bs, f a = g b := by
  have hmem : f a ∈ bs.map g := h ▸ List.mem_map_of_mem ha
  obtain ⟨b, hb, he⟩ := List.mem_map.mp hmem
  exact ⟨b, hb, he.symm⟩

theorem map_some_filterMap {α β : Type} {g : α → Option β} {l : List α}
    (h : ∀ a ∈ l, (g a).isSome = true) : (l.filterMap g).map some = l.map g := by
  induction l with
  | nil => rfl
  | cons a l ih =>
    obtain ⟨b, hb⟩ := Option.isSome_iff_exists.mp (h a List.mem_cons_self)
    rw [List.filterMap_cons_some hb, List.map_cons, List.map_cons, hb,
      ih fun x hx => h x (List.mem_cons_of_mem a hx)]

theorem findSome?_eq_of_mem {α β : Type} {f : α → Option β} {l l' : List α}
    (hmem : ∀ a, a ∈ l' ↔ a ∈ l)
    (honce : ∀ a ∈ l, ∀ b ∈ l, (f a).isSome = true → (f b).isSome = true → a = b) :
    l'.findSome? f = l.findSome? f := by
  cases hl : l.findSome? f with
  | none =>
    rw [List.findSome?_eq_none_iff] at hl ⊢
    exact fun a ha => hl a ((hmem a).mp ha)
  | some b =>
    obtain ⟨a, ha, hab⟩ := List.exists_of_findSome?_eq_some hl
    cases hl' : l'.findSome? f with
    | none =>
      rw [List.findSome?_eq_none_iff] at hl'
      rw [hl' a ((hmem a).mpr ha)] at hab
      cases hab
    | some b' =>
      obtain ⟨a', ha', hab'⟩ := List.exists_of_findSome?_eq_some hl'
      have he := honce a ha a' ((hmem a').mp ha') (by rw [hab]; rfl) (by rw [hab']; rfl)
      rw [← hab, ← hab', he]

theorem forall₂_append {α β : Type} {R : α → β → Prop} {first second : List α} {l : List β}
    (h : List.Forall₂ R (first ++ second) l) :
    ∃ front back, l = front ++ back ∧ List.Forall₂ R first front ∧ List.Forall₂ R second back := by
  refine ⟨l.take first.length, l.drop first.length, (List.take_append_drop _ _).symm, ?_, ?_⟩
  · simpa using List.forall₂_take first.length h
  · simpa using List.forall₂_drop first.length h

theorem mapM_eq_some_iff {α β : Type} {f : α → Option β} {l : List α} {l' : List β} :
    l.mapM f = some l' ↔ List.Forall₂ (fun a b => f a = some b) l l' := by
  induction l generalizing l' with
  | nil => simp [List.forall₂_nil_left_iff, eq_comm]
  | cons a l ih =>
    rw [List.mapM_cons, List.forall₂_cons_left_iff]
    simp only [Option.bind_eq_bind, Option.bind_eq_some_iff, Option.pure_def, Option.some.injEq, ih]
    constructor
    · rintro ⟨b, hb, l'', hl'', rfl⟩
      exact ⟨b, l'', hb, hl'', rfl⟩
    · rintro ⟨b, l'', hb, hl'', rfl⟩
      exact ⟨b, hb, l'', hl'', rfl⟩

end TypeOnly
