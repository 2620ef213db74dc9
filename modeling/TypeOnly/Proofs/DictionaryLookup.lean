import Mathlib.Data.List.Nodup
import TypeOnly.Dictionary

/-!
What a dictionary holds under a key, after entries were added to it. Its keys stand in order, so
that the last entry under a key is the only one.
-/

namespace TypeOnly

set_option autoImplicit false

variable {α : Type} {entries : List (String × α)}

/-! ### Entries in order -/

theorem lookup_cons_eq (e : String × α) (entries : List (String × α)) (k : String) :
    (e :: entries).lookup k = if k = e.1 then some e.2 else entries.lookup k := by
  rw [List.lookup_cons]
  by_cases hk : k = e.1
  · simp [hk]
  · simp [hk, beq_false_of_ne hk]

theorem lookup_eq_none_of_lt {k : String} (h : ∀ e ∈ entries, k < e.1) :
    entries.lookup k = none := by
  apply List.lookup_eq_none_iff.mpr
  intro e he
  rw [bne_iff_ne]
  rintro rfl
  exact String.lt_irrefl _ (h e he)

theorem mem_iff_lookup (h : (entries.map Prod.fst).Nodup) {k : String} {v : α} :
    (k, v) ∈ entries ↔ entries.lookup k = some v := by
  induction entries with
  | nil => simp
  | cons e rest ih =>
    obtain ⟨hfirst, hrest⟩ := List.nodup_cons.mp h
    rw [List.mem_cons, ih hrest, lookup_cons_eq]
    by_cases hk : k = e.1
    · have hnone : rest.lookup k ≠ some v := by
        rw [ne_eq, ← ih hrest]
        exact fun hv => hfirst (hk ▸ List.mem_map_of_mem hv)
      rw [if_pos hk, or_iff_left hnone, hk, Option.some.injEq, eq_comm, Prod.ext_iff]
      exact and_iff_right rfl
    · rw [if_neg hk, or_iff_right]
      exact fun he => hk (congrArg Prod.fst he)

namespace Ascending

theorem nodup_keys (h : Ascending entries) : (entries.map Prod.fst).Nodup := by
  rw [List.Nodup, List.pairwise_map]
  apply h.imp
  intro a b hlt heq
  exact String.lt_irrefl _ (heq ▸ hlt)

theorem lookup_reverse (h : Ascending entries) (k : String) :
    entries.reverse.lookup k = entries.lookup k := by
  induction entries with
  | nil => rfl
  | cons e rest ih =>
    obtain ⟨hfirst, hrest⟩ := List.pairwise_cons.mp h
    rw [List.reverse_cons, List.lookup_append, ih hrest, lookup_cons_eq, lookup_cons_eq,
      List.lookup_nil]
    by_cases hk : k = e.1
    · rw [hk, lookup_eq_none_of_lt hfirst, if_pos rfl]
      rfl
    · rw [if_neg hk, if_neg hk, Option.or_none]

theorem lookup_altered (h : Ascending entries) (f : Option α → α) (key k : String) :
    (Dictionary.altered f key entries).lookup k =
      if k = key then some (f (entries.lookup key)) else entries.lookup k := by
  induction entries with
  | nil => exact lookup_cons_eq (key, f none) [] k
  | cons e rest ih =>
    obtain ⟨hfirst, hrest⟩ := List.pairwise_cons.mp h
    unfold Dictionary.altered
    split
    · rename_i hsame
      rw [lookup_cons_eq, lookup_cons_eq, lookup_cons_eq, hsame, if_pos rfl]
      split
      · rfl
      · rfl
    · rename_i hne
      split
      · rename_i hlt
        have hbelow : ∀ e' ∈ e :: rest, key < e'.1 := by
          intro e' he'
          rcases List.mem_cons.mp he' with rfl | he'
          · exact hlt
          · exact String.lt_trans hlt (hfirst e' he')
        rw [lookup_eq_none_of_lt hbelow, lookup_cons_eq]
      · rw [lookup_cons_eq, lookup_cons_eq, lookup_cons_eq, ih hrest, if_neg (Ne.symm hne)]
        split
        · rename_i hk
          rw [if_neg (hk ▸ hne)]
        · rfl

end Ascending

/-! ### Values -/

namespace Dictionary

variable (d : Dictionary α)

@[simp] theorem get?_empty (k : String) : (∅ : Dictionary α).get? k = none := rfl

theorem get?_alter (f : Option α → α) (key k : String) :
    (d.alter f key).get? k = if k = key then some (f (d.get? key)) else d.get? k :=
  d.ascending.lookup_altered f key k

theorem get?_insert (key k : String) (value : α) :
    (d.insert key value).get? k = if k = key then some value else d.get? k :=
  d.get?_alter (fun _ => value) key k

/-- Of several values for a key, the last one is kept. -/
theorem get?_insertAll (entries : List (String × α)) (k : String) :
    (d.insertAll entries).get? k = (entries.reverse.lookup k).or (d.get? k) := by
  unfold insertAll
  induction entries generalizing d with
  | nil => rw [List.foldl_nil, List.reverse_nil, List.lookup_nil, Option.none_or]
  | cons e entries ih =>
    rw [List.foldl_cons, ih, List.reverse_cons, List.lookup_append, Option.or_assoc, get?_insert,
      lookup_cons_eq, List.lookup_nil]
    split
    · rfl
    · rfl

theorem get?_ofList (entries : List (String × α)) (k : String) :
    (ofList entries).get? k = entries.reverse.lookup k := by
  rw [ofList, get?_insertAll, get?_empty, Option.or_none]

/-- With each key once, a dictionary has the entries that it is made of. -/
theorem get?_ofList_iff (h : (entries.map Prod.fst).Nodup) {key : String} {value : α} :
    (ofList entries).get? key = some value ↔ (key, value) ∈ entries := by
  have hreverse : (entries.reverse.map Prod.fst).Nodup := by
    rw [List.map_reverse]
    exact List.nodup_reverse.mpr h
  rw [get?_ofList, ← mem_iff_lookup hreverse, List.mem_reverse]

theorem mem_entries_iff {k : String} {v : α} : (k, v) ∈ d.entries ↔ d.get? k = some v :=
  mem_iff_lookup d.ascending.nodup_keys

/-- Maps with the same values are the same. -/
theorem ext_get? {d d' : Dictionary α} (h : ∀ k, d.get? k = d'.get? k) : d = d' := by
  have hperm : d.entries.Perm d'.entries := by
    rw [List.perm_ext_iff_of_nodup d.ascending.nodup_keys.of_map d'.ascending.nodup_keys.of_map]
    rintro ⟨k, v⟩
    rw [mem_entries_iff, mem_entries_iff, h]
  have hentries : d.entries = d'.entries := by
    apply hperm.eq_of_pairwise ?_ d.ascending d'.ascending
    intro a b _ _ hab hba
    exact (String.lt_asymm hab hba).elim
  cases d
  cases d'
  cases hentries
  rfl

end Dictionary

end TypeOnly
