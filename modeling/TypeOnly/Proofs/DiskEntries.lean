import Mathlib.Data.List.Nodup
import TypeOnly.Disk
import TypeOnly.Proofs.Outcomes

/-!
What is at the places of a disk, and what is there after something was put at one of them.
-/

namespace TypeOnly

set_option autoImplicit false

namespace Location

variable {α : Type} {entries : List (Location × α)} {loc loc' : Location}

theorem lookup_put_self (entries : List (Location × α)) (loc : Location) (e : α) :
    (put entries loc e).lookup loc = some e := by
  have hmap (entries : List (Location × α)) (h : (entries.lookup loc).isSome = true) :
      (entries.map fun old => if old.1 = loc then (loc, e) else old).lookup loc = some e := by
    induction entries with
    | nil => simp at h
    | cons x rest ih =>
      rw [List.map_cons, List.lookup_cons]
      by_cases hx : x.1 = loc
      · simp [hx]
      · rw [List.lookup_cons, beq_false_of_ne (Ne.symm hx)] at h
        simp [hx, beq_false_of_ne (Ne.symm hx), ih h]
  unfold put
  split
  · rename_i h
    exact hmap entries h
  · rename_i h
    rw [Bool.not_eq_true, Option.isSome_eq_false_iff, Option.isNone_iff_eq_none] at h
    simp [List.lookup_append, h]

theorem lookup_put_of_ne (e : α) (hne : loc' ≠ loc) :
    (put entries loc e).lookup loc' = entries.lookup loc' := by
  have hmap (entries : List (Location × α)) :
      (entries.map fun old => if old.1 = loc then (loc, e) else old).lookup loc' =
        entries.lookup loc' := by
    induction entries with
    | nil => rfl
    | cons x rest ih =>
      rw [List.map_cons, List.lookup_cons, List.lookup_cons, ih]
      by_cases hx : x.1 = loc
      · simp [hx, beq_false_of_ne hne]
      · simp [hx]
  unfold put
  split
  · exact hmap entries
  · simp [List.lookup_append, List.lookup_cons, beq_false_of_ne hne]

theorem map_fst_put {old : α} (e : α) (h : entries.lookup loc = some old) :
    (put entries loc e).map Prod.fst = entries.map Prod.fst := by
  unfold put
  rw [h, Option.isSome_some, if_pos rfl, List.map_map]
  apply List.map_congr_left
  intro x _
  by_cases hx : x.1 = loc
  · simp [hx]
  · simp [hx]

theorem ne_of_lookup_none (h : entries.lookup loc = none) : ∀ x ∈ entries, x.1 ≠ loc := by
  intro x hx he
  simpa [he] using List.lookup_eq_none_iff.mp h x hx

theorem mem_of_lookup {e : α} (h : entries.lookup loc = some e) : (loc, e) ∈ entries := by
  obtain ⟨before, after, hentries, _⟩ := List.lookup_eq_some_iff.mp h
  rw [hentries]
  simp

section New

variable (h : entries.lookup loc = none)
include h

theorem put_new (e : α) : put entries loc e = entries ++ [(loc, e)] := by
  simp [put, h]

/-- What is put at a new place can be put there anew. -/
theorem put_put_new (e e' : α) : put (put entries loc e) loc e' = put entries loc e' := by
  have hmap : (entries.map fun old => if old.1 = loc then (loc, e') else old) = entries := by
    rw [List.map_congr_left (g := id), List.map_id]
    intro x hx
    exact if_neg (ne_of_lookup_none h x hx)
  rw [put, lookup_put_self, Option.isSome_some, if_pos rfl, put_new h, put_new h, List.map_append,
    hmap]
  simp

theorem unlink_put_new (e : α) : unlink (put entries loc e) loc = entries := by
  have hall : entries.filter (fun old => old.1 ≠ loc) = entries := by
    apply List.filter_eq_self.mpr
    intro x hx
    simpa using ne_of_lookup_none h x hx
  rw [put_new h, unlink, List.filter_append, hall]
  simp

end New

/-! ### The way to a place -/

/-- Every folder on the way to a place is there. -/
def Reached (isFolderAt : Location → Bool) (loc : Location) : Prop :=
  ∀ n < loc.length, isFolderAt (loc.take n) = true

namespace Reached

variable {isFolderAt : Location → Bool}

theorem nil (isFolderAt : Location → Bool) : Reached isFolderAt [] := fun n hn => by simp at hn

theorem dropLast (h : loc.Reached isFolderAt) : Reached isFolderAt loc.dropLast := by
  intro n hn
  rw [List.length_dropLast] at hn
  rw [List.dropLast_eq_take, List.take_take, Nat.min_eq_left (by omega)]
  exact h n (by omega)

theorem isFolderAt_dropLast (h : loc.Reached isFolderAt) (hloc : isFolderAt loc = true) :
    isFolderAt loc.dropLast = true := by
  by_cases hnil : loc = []
  · rw [hnil] at hloc ⊢
    exact hloc
  · rw [List.dropLast_eq_take]
    have hlength : 0 < loc.length := List.length_pos_iff.mpr hnil
    exact h _ (by omega)

theorem concat (h : loc.Reached isFolderAt) (hloc : isFolderAt loc = true) (s : String) :
    Reached isFolderAt (loc ++ [s]) := by
  intro n hn
  by_cases hlast : n = loc.length
  · rw [hlast, List.take_left]
    exact hloc
  · rw [List.length_append, List.length_singleton] at hn
    rw [List.take_append_of_le_length (by omega)]
    exact h n (by omega)

end Reached

end Location

namespace Disk

variable {d : Disk}

theorem get?_of_ne_nil {loc : Location} (h : loc ≠ []) : d.get? loc = d.entries.lookup loc := by
  cases loc with
  | nil => exact False.elim (h rfl)
  | cons s loc => rfl

theorem get?_put_of_ne {loc loc' : Location} (e : Entry) (hne : loc' ≠ loc) :
    (d.put loc e).get? loc' = d.get? loc' := by
  by_cases hnil : loc' = []
  · rw [hnil]
    rfl
  · rw [get?_of_ne_nil hnil, get?_of_ne_nil hnil]
    exact Location.lookup_put_of_ne e hne

theorem get?_put_self {loc : Location} (e : Entry) (hloc : loc ≠ []) :
    (d.put loc e).get? loc = some e := by
  rw [get?_of_ne_nil hloc]
  exact Location.lookup_put_self d.entries loc e

theorem ne_nil_of_get?_none {loc : Location} (h : d.get? loc = none) : loc ≠ [] := by
  rintro rfl
  simp [get?] at h

theorem lookup_of_get?_none {loc : Location} (h : d.get? loc = none) :
    d.entries.lookup loc = none := by
  rwa [← get?_of_ne_nil (ne_nil_of_get?_none h)]

theorem isFolderAt_nil (d : Disk) : d.isFolderAt [] = true := by simp [isFolderAt, get?]

theorem locations_put {loc : Location} {old : Entry} (e : Entry) (hloc : loc ≠ [])
    (h : d.get? loc = some old) : (d.put loc e).entries.map Prod.fst = d.entries.map Prod.fst := by
  rw [get?_of_ne_nil hloc] at h
  exact Location.map_fst_put e h

/-- A file can come to a place where no folder is. -/
theorem isFolderAt_put {loc : Location} (bytes : ByteArray) (hloc : loc ≠ [])
    (h : d.isFolderAt loc = false) (loc' : Location) :
    (d.put loc (.file bytes)).isFolderAt loc' = d.isFolderAt loc' := by
  by_cases hne : loc' = loc
  · rw [hne, h, isFolderAt, get?_put_self _ hloc]
    rfl
  · rw [isFolderAt, isFolderAt, get?_put_of_ne _ hne]

theorem not_isFolderAt {loc : Location} {bytes : ByteArray} (h : d.get? loc = some (.file bytes)) :
    d.isFolderAt loc = false := by
  simp [isFolderAt, h]

section New

variable {loc : Location} (h : d.get? loc = none)
include h

theorem isFolderAt_put_new (bytes : ByteArray) (loc' : Location) :
    (d.put loc (.file bytes)).isFolderAt loc' = d.isFolderAt loc' :=
  isFolderAt_put bytes (ne_nil_of_get?_none h) (by rw [isFolderAt, h]; rfl) loc'

theorem put_put_new (e e' : Entry) : (d.put loc e).put loc e' = d.put loc e' :=
  congrArg Disk.mk (Location.put_put_new (lookup_of_get?_none h) e e')

theorem unlink_put_new (e : Entry) : (d.put loc e).unlink loc = d :=
  congrArg Disk.mk (Location.unlink_put_new (lookup_of_get?_none h) e)

theorem move_put_new (e : Entry) (target : Location) :
    (d.put loc e).move loc target = d.put target e := by
  rw [move, get?_put_self e (ne_nil_of_get?_none h)]
  dsimp only
  rw [unlink_put_new h]

end New

/-- The disk with these texts in its top folder. -/
def ofTexts (texts : List (String × String)) : Disk :=
  ⟨texts.map fun (name, text) => ([name], .file text.toUTF8)⟩

theorem eq_of_entries {ε : Type} {x : Except ε Disk} {d : Disk}
    (h : x.toOption.map Disk.entries = some d.entries) : x = .ok d := by
  obtain ⟨⟨entries⟩, rfl, rfl⟩ := exists_of_toOption_map h
  rfl

end Disk

end TypeOnly
