import TypeOnly.Proofs.Ancestors
import TypeOnly.Proofs.SelectedFiles

/-!
Variants of a source file: files of one folder whose names differ in their extension only. Of
several variants the one whose extension comes first in its family is kept.
-/

namespace TypeOnly

set_option autoImplicit false

namespace Config

open Source (declarationExtensions javaScriptExtensions)

/-! ### Extensions -/

/-- The extensions in the order in which they are taken off a name. -/
def endings : List String :=
  declarationExtensions ++ [".ts", ".tsx", ".mts", ".cts"] ++ javaScriptExtensions

theorem mem_endings_iff {e : String} : e ∈ endings ↔ e ∈ families.flatten := by
  have h : endings ⊆ families.flatten ∧ families.flatten ⊆ endings := by decide
  exact ⟨fun he => h.1 he, fun he => h.2 he⟩

/-- No extension comes before one that it ends: the longer one is taken off first. -/
theorem endings_pairwise : endings.Pairwise fun a b => ¬ a.toList <:+ b.toList := by
  simp only [← List.isSuffixOf_iff_suffix]
  decide

/-- A name ends in an extension, and in no longer one. -/
def EndsIn (name e : String) : Prop :=
  e ∈ families.flatten ∧ Text.endsWith e name = true ∧
    ∀ other ∈ families.flatten, Text.endsWith other name = true → other.length ≤ e.length

theorem EndsIn.unique {name e e' : String} (h : EndsIn name e) (h' : EndsIn name e') : e = e' := by
  have hlength : e.length = e'.length :=
    Nat.le_antisymm (h'.2.2 e h.1 h.2.1) (h.2.2 e' h'.1 h'.2.1)
  have hsuffix := Text.suffix_of_endsWith h.2.1 h'.2.1 hlength.le
  apply String.toList_injective
  apply hsuffix.eq_of_length
  rw [String.length_toList, String.length_toList, hlength]

theorem stem_cases (name : String) :
    (∃ e, EndsIn name e ∧ name = Source.stem name ++ e) ∨
    (Source.stem name = name ∧ ∀ e ∈ families.flatten, Text.endsWith e name = false) := by
  have hstem : Source.stem name = (endings.findSome? fun e => Text.dropEnd? e name).getD name := rfl
  cases hfound : endings.findSome? fun e => Text.dropEnd? e name with
  | none =>
    right
    refine ⟨by rw [hstem, hfound, Option.getD_none], fun e he => ?_⟩
    rw [List.findSome?_eq_none_iff] at hfound
    rw [← Text.dropEnd?_isSome, hfound e (mem_endings_iff.mpr he), Option.isSome_none]
  | some rest =>
    left
    obtain ⟨before, e, after, hsplit, hdrop, hbefore⟩ := List.findSome?_eq_some_iff.mp hfound
    have hends : Text.endsWith e name = true := by
      rw [← Text.dropEnd?_isSome, hdrop, Option.isSome_some]
    have he : e ∈ endings := by simp [hsplit]
    refine ⟨e, ⟨mem_endings_iff.mp he, hends, fun other hother hother' => ?_⟩, ?_⟩
    · -- a longer ending would come later, and none that comes later is longer
      by_contra hlonger
      have hsuffix := Text.suffix_of_endsWith hends hother' (by omega)
      have hmem := mem_endings_iff.mpr hother
      rw [hsplit] at hmem
      have hpairs := endings_pairwise
      rw [hsplit] at hpairs
      rcases List.mem_append.mp hmem with hmem | hmem
      · have hnone := hbefore other hmem
        rw [← Text.dropEnd?_isSome, hnone] at hother'
        cases hother'
      · rcases List.mem_cons.mp hmem with rfl | hmem
        · exact hlonger (Nat.le_refl _)
        · exact List.rel_of_pairwise_cons (List.pairwise_append.mp hpairs).2.1 hmem hsuffix
    · rw [hstem, hfound, Option.getD_some]
      exact Text.eq_append_of_dropEnd? hdrop

/-! ### Variants -/

/-- A file is this variant: it is in the folder, its name is the stem and the extension of that
rank, and no longer extension ends its name. -/
structure Variant.Of (v : Variant) (p : Path) : Prop where
  family : v.family ∈ families
  name : ∃ e, v.family[v.rank]? = some e ∧ EndsIn (v.stem ++ e) e ∧
    p.parts = v.folder ++ [.name (v.stem ++ e)]

theorem families_disjoint : ∀ f ∈ families, ∀ g ∈ families, ∀ e ∈ f, e ∈ g → f = g := by decide

theorem families_nodup : ∀ f ∈ families, f.Nodup := by decide

theorem Variant.ofPath?_eq_some_iff {p : Path} {v : Variant} :
    Variant.ofPath? p = some v ↔ v.Of p := by
  constructor
  · intro h
    simp only [Variant.ofPath?, Option.bind_eq_bind, Option.bind_eq_some_iff] at h
    obtain ⟨name, hname, extension, hextension, family, hfamily, hv⟩ := h
    obtain rfl := Option.some.inj hv
    have hmem := List.mem_of_find?_eq_some hfamily
    have hcontains : extension ∈ family := by simpa using List.find?_some hfamily
    have happend := Text.eq_append_of_dropStart? hextension
    refine ⟨hmem, extension, by simp [hcontains], ?_, ?_⟩
    · rw [← happend]
      rcases stem_cases name with ⟨e, hends, he⟩ | ⟨_, hnone⟩
      · have heq : extension = e := (String.append_right_inj _).mp (happend.symm.trans he)
        exact heq ▸ hends
      · have hends := Text.endsWith_append (Source.stem name) extension
        rw [← happend, hnone extension (List.mem_flatten.mpr ⟨family, hmem, hcontains⟩)] at hends
        cases hends
    · rw [← happend]
      exact Path.parts_of_fileName? hname
  · rintro ⟨hmem, e, he, hends, hparts⟩
    obtain ⟨folder, stem, family, rank⟩ := v
    dsimp only at hmem he hends hparts
    have hname := Path.fileName?_of_parts hparts
    have hin : e ∈ family := List.mem_of_getElem? he
    have hstem : Source.stem (stem ++ e) = stem := by
      rcases stem_cases (stem ++ e) with ⟨e', hends', happend⟩ | ⟨_, hnone⟩
      · rw [← hends.unique hends'] at happend
        exact ((String.append_left_inj e).mp happend).symm
      · have hfalse := hnone e hends.1
        rw [Text.endsWith_append] at hfalse
        cases hfalse
    have hfind : families.find? (fun f => f.contains e) = some family := by
      cases hfind : families.find? (fun f => f.contains e) with
      | none => simpa [hin] using List.find?_eq_none.mp hfind family hmem
      | some g =>
        have hg : e ∈ g := by simpa using List.find?_some hfind
        rw [families_disjoint g (List.mem_of_find?_eq_some hfind) family hmem e hg hin]
    have hrank : family.idxOf e = rank := by
      obtain ⟨hlt, rfl⟩ := List.getElem?_eq_some_iff.mp he
      exact (families_nodup family hmem).idxOf_getElem rank hlt
    have hfolder : p.parent.parts = folder := by
      have hsame := Path.parts_of_fileName? hname
      rw [hparts] at hsame
      exact (List.append_cancel_right hsame).symm
    simp only [Variant.ofPath?, hname, Option.bind_eq_bind, Option.bind_some, hstem,
      Text.dropStart?_append, hfind, hrank, hfolder]
    rfl

theorem Variant.Of.unique {p : Path} {v w : Variant} (hv : v.Of p) (hw : w.Of p) : v = w := by
  rw [← Variant.ofPath?_eq_some_iff] at hv hw
  exact Option.some.inj (hv.symm.trans hw)

/-- What is written differently and says the same is the same variant. -/
theorem Variant.Of.of_same {p q : Path} {v : Variant} (h : v.Of p) (hsame : p.same q = true) :
    v.Of q := by
  rw [Path.same_iff] at hsame
  obtain ⟨e, he, hends, hparts⟩ := h.name
  exact ⟨h.family, e, he, hends, hsame ▸ hparts⟩

/-- The first file has the folder, the stem and the family of the second one, and a better rank. -/
def Outranks (q p : Path) : Prop :=
  ∃ folder stem family rank rank', Variant.Of ⟨folder, stem, family, rank⟩ q ∧
    Variant.Of ⟨folder, stem, family, rank'⟩ p ∧ rank < rank'

theorem outranks_iff_shadows {q p : Path} : Outranks q p ↔ Shadows q p := by
  unfold Outranks Shadows
  constructor
  · rintro ⟨folder, stem, family, rank, rank', hq, hp, hlt⟩
    exact ⟨_, _, Variant.ofPath?_eq_some_iff.mpr hp, Variant.ofPath?_eq_some_iff.mpr hq,
      Variant.beats_iff.mpr ⟨rfl, hlt⟩⟩
  · rintro ⟨⟨folder, stem, family, rank'⟩, ⟨_, _, _, rank⟩, hp, hq, hbeats⟩
    obtain ⟨hsame, hlt⟩ := Variant.beats_iff.mp hbeats
    cases hsame
    exact ⟨_, _, _, rank, rank', Variant.ofPath?_eq_some_iff.mp hq,
      Variant.ofPath?_eq_some_iff.mp hp, hlt⟩

instance (q p : Path) : Decidable (Shadows q p) :=
  decidable_of_iff ((Variant.ofPath? p).any fun v => (Variant.ofPath? q).any fun w => w.beats v) (by
    simp only [Option.any_eq_true]
    exact ⟨fun ⟨v, hv, w, hw, h⟩ => ⟨v, w, hv, hw, h⟩, fun ⟨v, w, hv, hw, h⟩ => ⟨v, hv, w, hw, h⟩⟩)

instance (q p : Path) : Decidable (Outranks q p) := decidable_of_iff _ outranks_iff_shadows.symm

theorem Outranks.of_same {q q' p p' : Path} (h : Outranks q p) (hq : q.same q' = true)
    (hp : p.same p' = true) : Outranks q' p' := by
  obtain ⟨folder, stem, family, rank, rank', hq', hp', hlt⟩ := h
  exact ⟨folder, stem, family, rank, rank', hq'.of_same hq, hp'.of_same hp, hlt⟩

/-! ### What is kept -/

section Kept

variable {files : List Path} {f : Path}

theorem mem_preferred_iff : f ∈ preferred files ↔ f ∈ files ∧ ∀ g ∈ files, ¬ Outranks g f := by
  rw [mem_preferred]
  apply and_congr_right
  intro _
  constructor
  · intro h g hg houtranks
    obtain ⟨v, w, hv, hw, hbeats⟩ := outranks_iff_shadows.mp houtranks
    rw [h v hv g hg w hw] at hbeats
    cases hbeats
  · intro h v hv g hg w hw
    rw [← Bool.not_eq_true]
    exact fun hbeats => h g hg (outranks_iff_shadows.mpr ⟨v, w, hv, hw, hbeats⟩)

theorem preferred_eq_filter (files : List Path) :
    preferred files = files.filter fun f => ∀ g ∈ files, ¬ Outranks g f := by
  have hfilter : ∃ keep : Path → Bool, preferred files = files.filter keep := ⟨_, rfl⟩
  obtain ⟨keep, hkeep⟩ := hfilter
  rw [hkeep]
  apply List.filter_congr
  intro f hf
  have hmem := @mem_preferred_iff files f
  rw [hkeep, List.mem_filter] at hmem
  rw [Bool.eq_iff_iff, decide_eq_true_eq]
  exact ⟨fun h => (hmem.mp ⟨hf, h⟩).2, fun h => (hmem.mpr ⟨hf, h⟩).2⟩

/-- Among the variants of a file one of the best rank is left. -/
theorem exists_preferred {v : Variant} (hf : f ∈ files) (hv : v.Of f) :
    ∃ g ∈ preferred files, ∃ rank ≤ v.rank, Variant.Of { v with rank := rank } g := by
  -- whatever outranks a file has a smaller rank, so that going from one to the next comes to an end
  induction hrank : v.rank using Nat.strong_induction_on generalizing f v with
  | _ n ih =>
    subst hrank
    by_cases hkept : f ∈ preferred files
    · exact ⟨f, hkept, v.rank, Nat.le_refl _, hv⟩
    · rw [mem_preferred_iff] at hkept
      push Not at hkept
      obtain ⟨g, hg, folder, stem, family, rank, rank', hg', hf', hlt⟩ := hkept hf
      obtain rfl := hv.unique hf'
      obtain ⟨best, hbest, r, hr, hof⟩ := ih rank hlt hg hg' rfl
      exact ⟨best, hbest, r, Nat.le_trans hr (Nat.le_of_lt hlt), hof⟩

theorem preferred_of_not_variant (hf : f ∈ files) (hnone : ∀ v : Variant, ¬ v.Of f) :
    f ∈ preferred files := by
  rw [mem_preferred_iff]
  refine ⟨hf, fun g _ houtranks => ?_⟩
  obtain ⟨_, _, _, _, _, _, hof, _⟩ := houtranks
  exact hnone _ hof

/-- A path of one list says the same as a path of another one. -/
def Repeated (files files' : List Path) : Prop := ∀ g ∈ files, ∃ g' ∈ files', g.same g' = true

theorem preferred_mono {files' : List Path} {f' : Path} (hrepeated : Repeated files' files)
    (hf' : f' ∈ files') (hsame : f.same f' = true) (h : f ∈ preferred files) :
    f' ∈ preferred files' := by
  rw [mem_preferred_iff] at h ⊢
  refine ⟨hf', fun g' hg' houtranks => ?_⟩
  obtain ⟨g, hg, hgsame⟩ := hrepeated g' hg'
  exact h.2 g hg (houtranks.of_same hgsame ((Path.same_comm f' f).trans hsame))

theorem preferred_preferred (files : List Path) :
    preferred (preferred files) = preferred files := by
  rw [preferred_eq_filter (preferred files), List.filter_eq_self]
  intro f hf
  rw [decide_eq_true_eq]
  intro g hg
  exact (mem_preferred_iff.mp hf).2 g (mem_preferred_iff.mp hg).1

end Kept

/-- From a list of files those are left, in their order, of which no file of the list has the same
folder, stem and family and a better rank. So one file at least is left of each group, every file
without a family is left, which ones are left depends only on what the list holds, and a second time
nothing changes. -/
theorem preferred_best (files : List Path) :
    preferred files = files.filter (fun f => ∀ g ∈ files, ¬ Outranks g f) ∧
    (∀ f ∈ files, ∀ v : Variant, v.Of f →
      ∃ g ∈ preferred files, ∃ rank ≤ v.rank, Variant.Of { v with rank := rank } g) ∧
    (∀ f ∈ files, (∀ v : Variant, ¬ v.Of f) → f ∈ preferred files) ∧
    (∀ files', Repeated files files' → Repeated files' files → ∀ f ∈ files, ∀ f' ∈ files',
      f.same f' = true → (f ∈ preferred files ↔ f' ∈ preferred files')) ∧
    preferred (preferred files) = preferred files := by
  refine ⟨preferred_eq_filter files, ?_, ?_, ?_, preferred_preferred files⟩
  · intro f hf v hv
    exact exists_preferred hf hv
  · intro f hf hnone
    exact preferred_of_not_variant hf hnone
  · intro files' h h' f hf f' hf' hsame
    exact ⟨preferred_mono h' hf' hsame, preferred_mono h hf ((Path.same_comm f' f).trans hsame)⟩

/-- A stem with a point in it, and a file that is no source. -/
def dotted : List Path := [⟨"/a.test.d.ts"⟩, ⟨"/README"⟩, ⟨"/a.test.ts"⟩, ⟨"/./a.test.js"⟩]

theorem of_dotted : Variant.Of ⟨[.root], "a.test", [".ts", ".tsx", ".d.ts", ".js", ".jsx"], 2⟩
    ⟨"/a.test.d.ts"⟩ := by
  refine ⟨by decide, ".d.ts", rfl, ⟨by decide, ?_, ?_⟩, ?_⟩
  all_goals decide +kernel

theorem preferred_best_dotted :
    preferred dotted = [⟨"/README"⟩, ⟨"/a.test.ts"⟩] ∧
      ∃ g ∈ preferred dotted, ∃ rank ≤ 2,
        Variant.Of ⟨[.root], "a.test", [".ts", ".tsx", ".d.ts", ".js", ".jsx"], rank⟩ g := by
  obtain ⟨hfilter, hgroup, _⟩ := preferred_best dotted
  refine ⟨hfilter.trans (by decide +kernel), ?_⟩
  exact hgroup ⟨"/a.test.d.ts"⟩ List.mem_cons_self _ of_dotted

end Config

end TypeOnly
