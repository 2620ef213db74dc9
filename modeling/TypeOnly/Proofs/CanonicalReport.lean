import Mathlib.Data.Prod.Lex
import Mathlib.Data.String.Basic
import Mathlib.Order.WithBot
import TypeOnly.Proofs.DiagnosticOrder

/-!
Arranged diagnostics as a canonical list. They come in the order of their keys, and nothing is lost
or added. Each thing is told once, whatever order the diagnostics were in, exactly if those that
tell the same stand together in the order of the keys. A key has the name of a file with backslashes
turned into slashes, but a name with a backslash is another name, so this can fail.
-/

namespace TypeOnly

set_option autoImplicit false

namespace Diagnostic

/-- What a diagnostic is ordered by: none before any file, then the name of the file with slashes,
the place, the number and the words. -/
def key (d : Diagnostic) : WithBot String ×ₗ ℕ ×ₗ ℕ ×ₗ ℕ ×ₗ String :=
  toLex (d.path?.elim ⊥ fun p => (p.slashed : WithBot String),
    toLex (d.span.start, toLex (d.span.length, toLex (d.code, d.message))))

/-- What a diagnostic tells, with the file as the parts of its path. -/
def told (d : Diagnostic) : Option (List Part) × ℕ × ℕ × ℕ × String :=
  (d.path?.map Path.parts, d.span.start, d.span.length, d.code, d.message)

theorem told_eq_iff {a b : Diagnostic} : told a = told b ↔ same a b = true := by
  have hspan : a.span = b.span ↔ a.span.start = b.span.start ∧ a.span.length = b.span.length := by
    cases a.span
    cases b.span
    simp
  rw [same_iff, hspan]
  simp [told, and_assoc]

section Order

variable {α β γ : Type} [DecidableEq α] [Preorder β] [LE γ]

theorem lexicographic_iff {r : α → α → Bool} {x y : α} {s : Bool} {u v : β} {w z : γ}
    (heq : x = y ↔ u = v) (hfirst : x ≠ y → (r x y = true ↔ u < v)) (hrest : s = true ↔ w ≤ z) :
    (if x ≠ y then r x y else s) = true ↔ toLex (u, w) ≤ toLex (v, z) := by
  rw [Prod.Lex.toLex_le_toLex]
  by_cases h : x = y
  · simp [h, heq.mp h, hrest]
  · have hne : u ≠ v := fun huv => h (heq.mpr huv)
    simp [h, hne, hfirst h]

theorem numbers_iff {m n : ℕ} {s : Bool} {w z : γ} (hrest : s = true ↔ w ≤ z) :
    (if m ≠ n then decide (m < n) else s) = true ↔ toLex (m, w) ≤ toLex (n, z) :=
  lexicographic_iff (r := fun m n => decide (m < n)) Iff.rfl (fun _ => decide_eq_true_iff) hrest

end Order

theorem le_iff_key_le {a b : Diagnostic} : le a b = true ↔ key a ≤ key b := by
  refine lexicographic_iff ?_ ?_ (numbers_iff (numbers_iff (numbers_iff decide_eq_true_iff)))
  · cases a.path? <;> cases b.path? <;> simp
  · intro hne
    cases ha : a.path? <;> cases hb : b.path? <;> simp_all [nameLe, lt_iff_le_and_ne]

/-! ### Told once -/

/-- What stands between two diagnostics that tell the same tells it too. -/
def Together (ds : List Diagnostic) : Prop :=
  ∀ a ∈ ds, ∀ b ∈ ds, told a = told b →
    ∀ c ∈ ds, key a ≤ key c ∧ key c ≤ key b → told c = told a

instance (a b : Diagnostic) : Decidable (key a ≤ key b) := decidable_of_iff _ le_iff_key_le

set_option synthInstance.maxSize 512 in
instance (ds : List Diagnostic) : Decidable (Together ds) :=
  inferInstanceAs (Decidable (∀ a ∈ ds, ∀ b ∈ ds, told a = told b →
    ∀ c ∈ ds, key a ≤ key c ∧ key c ≤ key b → told c = told a))

theorem Together.subset {ds es : List Diagnostic} (h : Together ds) (hsub : es ⊆ ds) :
    Together es := fun a ha b hb htold c hc => h a (hsub ha) b (hsub hb) htold c (hsub hc)

theorem arrange_keys (ds : List Diagnostic) : ((arrange ds).map key).Pairwise (· ≤ ·) := by
  rw [List.pairwise_map]
  exact (arrange_sorted ds).imp le_iff_key_le.mp

theorem mem_told_arrange {ds : List Diagnostic} {d : Diagnostic} (h : d ∈ ds) :
    told d ∈ (arrange ds).map told := by
  obtain ⟨d', hd', hsame⟩ := exists_same_arrange h
  rw [← told_eq_iff.mpr hsame]
  exact List.mem_map_of_mem hd'

theorem mem_map_told_arrange {ds : List Diagnostic} {x} :
    x ∈ (arrange ds).map told ↔ x ∈ ds.map told := by
  constructor
  · intro hx
    obtain ⟨d, hd, rfl⟩ := List.mem_map.mp hx
    exact List.mem_map_of_mem (mem_of_mem_arrange hd)
  · intro hx
    obtain ⟨d, hd, rfl⟩ := List.mem_map.mp hx
    exact mem_told_arrange hd

theorem nodup_dropAfter {last : Diagnostic} {ds : List Diagnostic} (h : Together (last :: ds))
    (hsorted : (last :: ds).Pairwise fun a b => le a b = true) :
    ((last :: dropAfter last ds).map told).Nodup := by
  induction ds generalizing last with
  | nil => exact List.pairwise_singleton _ (told last)
  | cons d ds ih =>
    obtain ⟨hlast, hds⟩ := List.pairwise_cons.mp hsorted
    unfold dropAfter
    split
    · apply ih
      · exact h.subset (List.cons_subset_cons last (List.subset_cons_self d ds))
      · exact List.pairwise_cons.mpr ⟨fun b hb => hlast b (List.mem_cons_of_mem d hb),
          (List.pairwise_cons.mp hds).2⟩
    · rename_i hother
      rw [List.map_cons]
      refine List.nodup_cons.mpr ⟨?_, ih (h.subset (List.subset_cons_self last _)) hds⟩
      intro hmem
      obtain ⟨e, he, htold⟩ := List.mem_map.mp hmem
      have hin : e ∈ d :: ds := List.cons_subset_cons d (dropAfter_sublist d ds).subset he
      have hde : key d ≤ key e := by
        rcases List.mem_cons.mp hin with rfl | hin
        · exact le_refl _
        · exact le_iff_key_le.mp ((List.pairwise_cons.mp hds).1 e hin)
      -- the last one kept and `e` tell the same, and `d` stands between them
      have hd := h last List.mem_cons_self e (List.mem_cons_of_mem last hin) htold.symm d
        (List.mem_cons_of_mem last List.mem_cons_self)
        ⟨le_iff_key_le.mp (hlast d List.mem_cons_self), hde⟩
      exact hother (told_eq_iff.mp hd.symm)

theorem nodup_told_arrange {ds : List Diagnostic} (h : Together ds) :
    ((arrange ds).map told).Nodup := by
  have hsorted := List.pairwise_mergeSort le_trans le_total ds
  have hsort : Together (ds.mergeSort le) := h.subset fun a ha => List.mem_mergeSort.mp ha
  unfold arrange
  cases hds : ds.mergeSort le with
  | nil => exact List.nodup_nil
  | cons d rest =>
    rw [hds] at hsorted hsort
    exact nodup_dropAfter hsort hsorted

/-- What is told first has a smaller key. Where what tells the same stands together, no two things
are told before each other. -/
theorem told_arrange_eq {ds es : List Diagnostic} (h : Together ds) (hperm : es.Perm ds) :
    (arrange es).map told = (arrange ds).map told := by
  let before := fun x y => ∃ a ∈ ds, ∃ b ∈ ds, told a = x ∧ told b = y ∧ key a ≤ key b
  have hbefore : ∀ fs : List Diagnostic, fs ⊆ ds → ((arrange fs).map told).Pairwise before := by
    intro fs hfs
    rw [List.pairwise_map]
    refine (arrange_sorted fs).imp_of_mem ?_
    intro a b ha hb hab
    exact ⟨a, hfs (mem_of_mem_arrange ha), b, hfs (mem_of_mem_arrange hb), rfl, rfl,
      le_iff_key_le.mp hab⟩
  have htold : ((arrange es).map told).Perm ((arrange ds).map told) := by
    rw [List.perm_ext_iff_of_nodup (nodup_told_arrange (h.subset hperm.subset))
      (nodup_told_arrange h)]
    intro x
    rw [mem_map_told_arrange, mem_map_told_arrange]
    exact (hperm.map told).mem_iff
  refine htold.eq_of_pairwise ?_ (hbefore es hperm.subset) (hbefore ds (List.Subset.refl ds))
  rintro _ _ - - ⟨a, ha, b, hb, rfl, rfl, hab⟩ ⟨b', hb', a', ha', hb'b, ha'a, hba⟩
  rcases LinearOrder.le_total (key a) (key b') with hle | hle
  · have hmid := h a ha a' ha' ha'a.symm b' hb' ⟨hle, hba⟩
    rw [← hmid, hb'b]
  · have hmid := h b' hb' b hb hb'b a ha ⟨hle, hab⟩
    rw [hmid, hb'b]

/-! ### Told again -/

/-- Of what does not repeat itself, nothing is dropped. -/
theorem sublist_dropAfter {ts : List _} {last : Diagnostic} {ds : List Diagnostic}
    (h : ts.Sublist ((last :: ds).map told)) (hts : ts.IsChain (· ≠ ·)) :
    ts.Sublist ((last :: dropAfter last ds).map told) := by
  induction ds generalizing last ts with
  | nil => exact h
  | cons d ds ih =>
    rw [List.map_cons, List.map_cons] at h
    unfold dropAfter
    split
    · rename_i hsame
      apply ih _ hts
      rw [← told_eq_iff.mpr hsame] at h
      cases h with
      | cons _ h => exact h
      | cons_cons _ h =>
        cases h with
        | cons _ h => exact h.cons_cons _
        | cons_cons _ h => exact absurd rfl (List.isChain_cons_cons.mp hts).1
    · rw [List.map_cons]
      cases h with
      | cons _ h => exact (ih h hts).cons _
      | cons_cons _ h => exact (ih h hts.of_cons).cons_cons _

theorem sublist_told_arrange {ds es : List Diagnostic} (h : es.Sublist ds)
    (hsorted : es.Pairwise fun a b => key a ≤ key b) (hes : (es.map told).IsChain (· ≠ ·)) :
    (es.map told).Sublist ((arrange ds).map told) := by
  have hsort : es.Sublist (ds.mergeSort le) :=
    List.sublist_mergeSort le_trans le_total (hsorted.imp le_iff_key_le.mpr) h
  unfold arrange
  cases hds : ds.mergeSort le with
  | nil =>
    rw [hds] at hsort
    exact hsort.map told
  | cons d rest =>
    rw [hds] at hsort
    exact sublist_dropAfter (hsort.map told) hes

theorem together_of_canonical {ds : List Diagnostic}
    (h : ∀ es, es.Perm ds → ((arrange es).map told).Nodup ∧
      (arrange es).map told = (arrange ds).map told) : Together ds := by
  rintro a ha b hb htold c hc ⟨hac, hcb⟩
  by_contra hother
  have hne : told a ≠ told c := fun hac => hother hac.symm
  have hcin : c ∈ ds.erase a := (List.mem_erase_of_ne fun hca => hother (congrArg told hca)).mpr hc
  have hperm : (a :: c :: (ds.erase a).erase c).Perm ds :=
    ((List.perm_cons_erase hcin).symm.cons a).trans (List.perm_cons_erase ha).symm
  by_cases hab : a = b
  · -- the two tie, and are told in either order
    subst hab
    have hfirst : ([a, c].map told).Sublist ((arrange ds).map told) := by
      rw [← (h _ hperm).2]
      exact sublist_told_arrange (((List.nil_sublist _).cons_cons c).cons_cons a)
        (List.pairwise_pair.mpr hac) (by simpa using hne)
    have hsecond : ([c, a].map told).Sublist ((arrange ds).map told) := by
      rw [← (h _ ((List.Perm.swap a c _).trans hperm)).2]
      exact sublist_told_arrange (((List.nil_sublist _).cons_cons a).cons_cons c)
        (List.pairwise_pair.mpr hcb) (by simpa using hother)
    exact hne (eq_of_sublists (h ds (List.Perm.refl ds)).1 hfirst hsecond)
  · have hbin : b ∈ (ds.erase a).erase c :=
      (List.mem_erase_of_ne fun hbc => hother ((congrArg told hbc).symm.trans htold.symm)).mpr
        ((List.mem_erase_of_ne fun hba => hab hba.symm).mpr hb)
    have hperm' := (((List.perm_cons_erase hbin).symm.cons c).cons a).trans hperm
    have hthree : ([a, c, b].map told).Sublist
        ((arrange (a :: c :: b :: ((ds.erase a).erase c).erase b)).map told) := by
      apply sublist_told_arrange ((((List.nil_sublist _).cons_cons b).cons_cons c).cons_cons a)
      · simp [hac, hcb, hac.trans hcb]
      · simp [hne, ← htold, hother]
    have hnodup := (h _ hperm').1.sublist hthree
    simp [htold] at hnodup

/-- Arranged diagnostics come in the order of their keys and tell what was to be told. They tell it
once and in the same way for all orders of the diagnostics exactly if what tells the same stands
together. -/
theorem arrange_canonical (ds : List Diagnostic) :
    ((arrange ds).map key).Pairwise (· ≤ ·) ∧
    arrange ds ⊆ ds ∧
    (∀ d ∈ ds, told d ∈ (arrange ds).map told) ∧
    ((∀ es, es.Perm ds → ((arrange es).map told).Nodup ∧
      (arrange es).map told = (arrange ds).map told) ↔ Together ds) := by
  refine ⟨arrange_keys ds, fun d hd => mem_of_mem_arrange hd, fun d hd => mem_told_arrange hd,
    together_of_canonical, ?_⟩
  intro h es hperm
  exact ⟨nodup_told_arrange (h.subset hperm.subset), told_arrange_eq h hperm⟩

theorem arrange_of_sorted {ds : List Diagnostic} (h : ds.Pairwise fun a b => le a b = true) :
    arrange ds = dropRepeated ds := by
  rw [arrange, List.mergeSort_of_pairwise h]

/-- The same problem at the beginning of any file. -/
def unknownIn (path : String) : Diagnostic := ⟨2304, "m", some ⟨⟨path⟩, "x"⟩, ⟨0, 1⟩⟩

/-- Diagnostics of a project and of two files, one of them under two names. -/
def respelled : List Diagnostic :=
  [global (.badText "m"), unknownIn "/a.ts", unknownIn "/a.ts", unknownIn "/b//c.ts",
    unknownIn "/b/c.ts"]

theorem arrange_canonical_respelled :
    Together respelled ∧ ∀ es, es.Perm respelled → (arrange es).map told =
      [told (global (.badText "m")), told (unknownIn "/a.ts"), told (unknownIn "/b/c.ts")] := by
  have htogether : Together respelled := by decide +kernel
  refine ⟨htogether, fun es hperm => ?_⟩
  rw [((arrange_canonical respelled).2.2.2.mpr htogether es hperm).2,
    arrange_of_sorted (by decide +kernel)]
  decide +kernel

/-- A file with a slash in its name has the key of one with a backslash, so it is told of between
two that tell the same, unless these come one after the other from the beginning. -/
theorem arrange_repeats_backslash :
    arrange [unknownIn "/a\\b.ts", unknownIn "/a/b.ts", unknownIn "/a\\b.ts"] =
      [unknownIn "/a\\b.ts", unknownIn "/a/b.ts", unknownIn "/a\\b.ts"] ∧
    arrange [unknownIn "/a\\b.ts", unknownIn "/a\\b.ts", unknownIn "/a/b.ts"] =
      [unknownIn "/a\\b.ts", unknownIn "/a/b.ts"] := by
  rw [arrange_of_sorted (by decide +kernel), arrange_of_sorted (by decide +kernel)]
  decide +kernel

end Diagnostic

end TypeOnly
