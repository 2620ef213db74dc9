/-!
Finite maps from texts. The entries of a map stand in ascending order of their keys, so that two
maps with the same entries are the same.
-/

namespace TypeOnly

set_option autoImplicit false

universe u

variable {α : Type u}

/-- Entries in ascending order of their keys. -/
def Ascending (entries : List (String × α)) : Prop := entries.Pairwise fun a b => a.1 < b.1

/-- A finite map, which has each key once. -/
structure Dictionary (α : Type u) where
  entries : List (String × α)
  ascending : Ascending entries
deriving DecidableEq, Repr

namespace Dictionary

instance : EmptyCollection (Dictionary α) := ⟨⟨[], .nil⟩⟩

instance : Inhabited (Dictionary α) := ⟨∅⟩

/-- The value of a key. -/
def get? (d : Dictionary α) (key : String) : Option α := d.entries.lookup key

/-- The entries in which a key has the value that `f` makes of the one it has. -/
def altered (f : Option α → α) (key : String) : List (String × α) → List (String × α)
  | [] => [(key, f none)]
  | (k, v) :: rest =>
    if k = key then (k, f (some v)) :: rest
    else if key < k then (key, f none) :: (k, v) :: rest
    else (k, v) :: altered f key rest

section Altered

variable {f : Option α → α} {key : String}

theorem key_of_mem_altered {entries : List (String × α)} {e : String × α}
    (he : e ∈ altered f key entries) : e.1 = key ∨ ∃ e' ∈ entries, e'.1 = e.1 := by
  induction entries with
  | nil =>
    obtain rfl := List.mem_singleton.mp he
    exact Or.inl rfl
  | cons first rest ih =>
    unfold altered at he
    split at he
    · rename_i hkey
      rcases List.mem_cons.mp he with rfl | he
      · exact Or.inl hkey
      · exact Or.inr ⟨e, List.mem_cons_of_mem _ he, rfl⟩
    · split at he
      · rcases List.mem_cons.mp he with rfl | he
        · exact Or.inl rfl
        · exact Or.inr ⟨e, he, rfl⟩
      · rcases List.mem_cons.mp he with rfl | he
        · exact Or.inr ⟨_, List.mem_cons_self, rfl⟩
        · rcases ih he with hkey | ⟨e', he', hkey⟩
          · exact Or.inl hkey
          · exact Or.inr ⟨e', List.mem_cons_of_mem _ he', hkey⟩

theorem ascending_altered {entries : List (String × α)} (h : Ascending entries) :
    Ascending (altered f key entries) := by
  induction entries with
  | nil => exact List.pairwise_singleton _ _
  | cons first rest ih =>
    obtain ⟨hfirst, hrest⟩ := List.pairwise_cons.mp h
    unfold altered
    split
    · exact List.pairwise_cons.mpr ⟨hfirst, hrest⟩
    · rename_i hkey
      split
      · rename_i hlt
        refine List.pairwise_cons.mpr ⟨fun e he => ?_, h⟩
        rcases List.mem_cons.mp he with rfl | he
        · exact hlt
        · exact String.lt_trans hlt (hfirst e he)
      · rename_i hlt
        refine List.pairwise_cons.mpr ⟨fun e he => ?_, ih hrest⟩
        rcases key_of_mem_altered he with rfl | ⟨e', he', hsame⟩
        · exact Std.lt_of_le_of_ne hlt hkey
        · exact hsame ▸ hfirst e' he'

end Altered

/-- Gives a key the value that `f` makes of the one it has. -/
def alter (f : Option α → α) (key : String) (d : Dictionary α) : Dictionary α :=
  ⟨altered f key d.entries, ascending_altered d.ascending⟩

/-- Gives a key a value; a later value takes the place of an earlier one. -/
def insert (key : String) (value : α) (d : Dictionary α) : Dictionary α :=
  alter (fun _ => value) key d

def insertAll (d : Dictionary α) (entries : List (String × α)) : Dictionary α :=
  entries.foldl (fun d e => d.insert e.1 e.2) d

/-- The entries in order, a repeated key having its last value. -/
def ofList (entries : List (String × α)) : Dictionary α := insertAll ∅ entries

end Dictionary

end TypeOnly
