import TypeOnly.Proofs.ListFacts
import TypeOnly.Proofs.PackageExports
import TypeOnly.Proofs.TextSpans

/-!
Which declared module a specifier names. The modules can be found by an index from names to the
places of their first declarations. In whatever order its entries are gone through, the choice is
the same: the first declaration of the very name, or else that of the pattern with the most text
before its star, and of the smallest of those.
-/

namespace TypeOnly.Program

set_option autoImplicit false

open Source (NamedModule)
open Wildcard (Captures capture? capture?_eq_some_iff hasStar)

/-! ### Places of declarations -/

/-- Where a module is declared: which file it is in, and which of the modules of that file it is. -/
structure Slot where
  file : Nat
  block : Nat
deriving DecidableEq

namespace Slot

/-- One declaration comes before another one: its file is loaded before, or it stands before the
other in the same file. -/
def Before (s t : Slot) : Prop := s.file < t.file ∨ s.file = t.file ∧ s.block < t.block

theorem Before.asymm {s t : Slot} (h : s.Before t) : ¬ t.Before s := by
  unfold Before at *
  omega

theorem eq_of_not_before {s t : Slot} (hst : ¬ s.Before t) (hts : ¬ t.Before s) : s = t := by
  cases s
  cases t
  simp only [Before, Slot.mk.injEq] at *
  omega

end Slot

/-- The module at a place. -/
def moduleAt? (p : Program) (s : Slot) : Option (ProgramMember × NamedModule) :=
  p.files[s.file]?.bind fun f =>
    f.outline.bind fun o => o.namedModules[s.block]?.map fun m => (f, m)

/-- The modules that are declared by name, with their places. -/
def placedModules (p : Program) : List (Slot × ProgramMember × NamedModule) :=
  p.files.zipIdx.flatMap fun x =>
    ((x.1.outline.map (·.namedModules)).getD []).zipIdx.map fun y => (⟨x.2, y.2⟩, x.1, y.1)

theorem mem_placedModules {p : Program} {s : Slot} {x : ProgramMember × NamedModule} :
    (s, x) ∈ p.placedModules ↔ p.moduleAt? s = some x := by
  obtain ⟨f, m⟩ := x
  obtain ⟨i, j⟩ := s
  simp only [placedModules, moduleAt?, List.mem_flatMap, List.mem_map, Prod.exists,
    List.mem_zipIdx_iff_getElem?, Option.bind_eq_some_iff, Option.map_eq_some_iff]
  constructor
  · rintro ⟨f', i', hf, m', j', hm, he⟩
    cases he
    cases ho : f.outline with
    | none => simp [ho] at hm
    | some o => exact ⟨f, hf, o, ho, m, by simpa [ho] using hm, rfl⟩
  · rintro ⟨f', hf, o, ho, m', hm, he⟩
    cases he
    exact ⟨f, i, hf, m, j, by simpa [ho] using hm, rfl⟩

theorem placedModules_pairwise (p : Program) :
    p.placedModules.Pairwise fun x y => x.1.Before y.1 := by
  apply List.pairwise_flatMap.mpr
  refine ⟨fun x _ => ?_, (zipIdx_pairwise p.files).imp ?_⟩
  · rw [List.pairwise_map]
    exact (zipIdx_pairwise _).imp fun h => Or.inr ⟨rfl, h⟩
  · intro x y hxy u hu v hv
    obtain ⟨_, _, rfl⟩ := List.mem_map.mp hu
    obtain ⟨_, _, rfl⟩ := List.mem_map.mp hv
    exact Or.inl hxy

theorem map_placedModules (p : Program) : p.placedModules.map Prod.snd = p.namedModules := by
  have hfile (x : ProgramMember × Nat) :
      (((x.1.outline.map (·.namedModules)).getD []).zipIdx.map fun y =>
        ((⟨x.2, y.2⟩ : Slot), x.1, y.1)).map Prod.snd = namedModulesOf x.1 := by
    rw [List.map_map]
    change (List.map ((fun m => (x.1, m)) ∘ Prod.fst) _) = _
    rw [← List.map_map, List.zipIdx_map_fst]
    unfold namedModulesOf
    cases x.1.outline with
    | none => rfl
    | some o => rfl
  have hfiles := List.zipIdx_map_fst 0 p.files
  rw [placedModules, List.map_flatMap, namedModules_eq_flatMap, ← hfiles, List.flatMap_map, hfiles]
  simp only [hfile]

/-! ### First declarations -/

/-- Some module is declared by a name. -/
def Declares (p : Program) (name : String) : Prop :=
  ∃ s x, p.moduleAt? s = some x ∧ x.2.name = name

/-- The place of the first declaration of a name. -/
structure FirstDeclared (p : Program) (name : String) (s : Slot) : Prop where
  named : ∃ x, p.moduleAt? s = some x ∧ x.2.name = name
  first : ∀ t x, p.moduleAt? t = some x → x.2.name = name → ¬ t.Before s

theorem FirstDeclared.unique {p : Program} {name : String} {s t : Slot}
    (hs : p.FirstDeclared name s) (ht : p.FirstDeclared name t) : s = t := by
  obtain ⟨x, hx, hname⟩ := hs.named
  obtain ⟨y, hy, hname'⟩ := ht.named
  exact Slot.eq_of_not_before (ht.first s x hx hname) (hs.first t y hy hname')

/-- The first module of a name that is found in the order of loading. -/
def firstPlaced? (p : Program) (name : String) : Option (Slot × ProgramMember × NamedModule) :=
  p.placedModules.find? fun x => x.2.2.name = name

theorem firstDeclared_of_firstPlaced? {p : Program} {name : String} {s : Slot}
    {x : ProgramMember × NamedModule} (h : p.firstPlaced? name = some (s, x)) :
    p.FirstDeclared name s ∧ p.moduleAt? s = some x := by
  have hat := mem_placedModules.mp (List.mem_of_find?_eq_some h)
  obtain ⟨hname, before, after, hplaced, hbefore⟩ := List.find?_eq_some_iff_append.mp h
  refine ⟨⟨⟨x, hat, of_decide_eq_true hname⟩, fun t y hy hnamed hlt => ?_⟩, hat⟩
  -- an earlier place would be among those that were passed over
  have hmem := mem_placedModules.mpr hy
  have horder := p.placedModules_pairwise
  rw [hplaced] at hmem horder
  obtain ⟨_, hrest, _⟩ := List.pairwise_append.mp horder
  rcases List.mem_append.mp hmem with hin | hin
  · simpa [hnamed] using hbefore _ hin
  · rcases List.mem_cons.mp hin with heq | hin
    · cases heq
      exact hlt.asymm hlt
    · exact hlt.asymm ((List.pairwise_cons.mp hrest).1 _ hin)

theorem firstPlaced?_eq_some_iff {p : Program} {name : String} {s : Slot}
    {x : ProgramMember × NamedModule} :
    p.firstPlaced? name = some (s, x) ↔ p.FirstDeclared name s ∧ p.moduleAt? s = some x := by
  constructor
  · exact firstDeclared_of_firstPlaced?
  · rintro ⟨hfirst, hat⟩
    obtain ⟨y, hy, hname⟩ := hfirst.named
    cases hfound : p.firstPlaced? name with
    | none =>
      have hnone := List.find?_eq_none.mp hfound _ (mem_placedModules.mpr hy)
      exact (hnone (decide_eq_true hname)).elim
    | some found =>
      obtain ⟨t, z⟩ := found
      obtain ⟨hfirst', hat'⟩ := firstDeclared_of_firstPlaced? hfound
      obtain rfl := hfirst.unique hfirst'
      rw [Option.some.inj (hat.symm.trans hat')]

theorem find?_namedModules {p : Program} (name : String) :
    p.namedModules.find? (fun x => x.2.name = name) = (p.firstPlaced? name).map Prod.snd := by
  rw [← map_placedModules, List.find?_map]
  rfl

theorem Declares.exists_first {p : Program} {name : String} (h : p.Declares name) :
    ∃ s, p.FirstDeclared name s := by
  obtain ⟨t, x, hx, hname⟩ := h
  have hsome : (p.firstPlaced? name).isSome = true :=
    List.find?_isSome.mpr ⟨_, mem_placedModules.mpr hx, decide_eq_true hname⟩
  obtain ⟨⟨s, y⟩, hy⟩ := Option.isSome_iff_exists.mp hsome
  exact ⟨s, (firstPlaced?_eq_some_iff.mp hy).1⟩

theorem FirstDeclared.declares {p : Program} {name : String} {s : Slot}
    (h : p.FirstDeclared name s) : p.Declares name := by
  obtain ⟨x, hx, hname⟩ := h.named
  exact ⟨s, x, hx, hname⟩

/-! ### The index -/

/-- Adds a module to an index, unless there is one of its name. -/
def addToIndex (d : Dictionary Slot) (x : Slot × ProgramMember × NamedModule) : Dictionary Slot :=
  d.alter (fun old => old.getD x.1) x.2.2.name

/-- The places of the modules by their names, the first declaration of a name being kept. -/
def index (p : Program) : Dictionary Slot := p.placedModules.foldl addToIndex ∅

theorem get?_addToIndex (d : Dictionary Slot) (xs : List (Slot × ProgramMember × NamedModule))
    (name : String) :
    (xs.foldl addToIndex d).get? name =
      (d.get? name).or ((xs.find? fun x => x.2.2.name = name).map Prod.fst) := by
  induction xs generalizing d with
  | nil => simp
  | cons x xs ih =>
    rw [List.foldl_cons, ih, addToIndex, Dictionary.get?_alter]
    by_cases hname : name = x.2.2.name
    · rw [if_pos hname, ← hname, List.find?_cons_of_pos (by simp [hname])]
      cases d.get? name <;> simp
    · rw [if_neg hname, List.find?_cons_of_neg (by simpa using Ne.symm hname)]

/-- The index holds the first declaration of every name. -/
theorem mem_index {p : Program} {name : String} {s : Slot} :
    (name, s) ∈ p.index.entries ↔ p.FirstDeclared name s := by
  rw [Dictionary.mem_entries_iff, index, get?_addToIndex, Dictionary.get?_empty, Option.none_or,
    Option.map_eq_some_iff]
  constructor
  · rintro ⟨⟨t, x⟩, hx, rfl⟩
    exact (firstPlaced?_eq_some_iff.mp hx).1
  · intro h
    obtain ⟨x, hx, _⟩ := h.named
    exact ⟨(s, x), firstPlaced?_eq_some_iff.mpr ⟨h, hx⟩, rfl⟩

/-! ### The choice -/

/-- The later of two entries, unless the name of the first one goes before. -/
def betterEntry (best e : String × Slot) : String × Slot :=
  if goesBefore best.1 e.1 then best else e

/-- The place of the module for a specifier, found by going through the entries of an index in some
order. -/
def chosenIn? (order : List (String × Slot)) (specifier : String) : Option Slot :=
  match order.lookup specifier with
  | some s => some s
  | none =>
    match order.filter fun e => hasStar e.1 && (capture? e.1 specifier).isSome with
    | [] => none
    | first :: rest => some (rest.foldl betterEntry first).2

/-- The place of the module that a specifier should name. -/
inductive Chosen (p : Program) (specifier : String) : Slot → Prop where
  | named {s : Slot} (h : p.FirstDeclared specifier s) : Chosen p specifier s
  | pattern {name before captured : String} {s : Slot} (hnone : ¬ p.Declares specifier)
      (h : p.FirstDeclared name s) (hfits : Captures name specifier before captured)
      (hbest : ∀ name' before' captured', p.Declares name' →
        Captures name' specifier before' captured' →
          before'.length < before.length ∨ before'.length = before.length ∧ ¬ name' < name) :
      Chosen p specifier s

/-- Of two beginnings of a text the one with more bytes has more characters. -/
theorem length_lt_iff {a b x y : String} (h : a ++ x = b ++ y) :
    a.length < b.length ↔ a.utf8ByteSize < b.utf8ByteSize := by
  constructor
  · intro hlt
    by_contra hle
    obtain ⟨between, rfl, _⟩ := Text.boundary_after h.symm (Nat.le_of_not_lt hle)
    rw [String.length_append] at hlt
    omega
  · intro hlt
    obtain ⟨between, rfl, _⟩ := Text.boundary_after h (Nat.le_of_lt hlt)
    have hne : between.length ≠ 0 := by
      intro hzero
      rw [String.length_eq_zero_iff.mp hzero, String.append_empty] at hlt
      exact Nat.lt_irrefl _ hlt
    rw [String.length_append]
    omega

/-- Among the patterns for one specifier, those with more text before their stars go first. -/
theorem goesBefore_iff_length {specifier a x c b y d : String} (ha : Captures a specifier x c)
    (hb : Captures b specifier y d) :
    goesBefore a b = true ↔ y.length < x.length ∨ y.length = x.length ∧ a < b := by
  rw [goesBefore_iff, ha.weight, hb.weight]
  obtain ⟨after, _, _, hspecifier⟩ := ha
  obtain ⟨after', _, _, hspecifier'⟩ := hb
  have hsame : x ++ (c ++ after) = y ++ (d ++ after') := by
    rw [← String.append_assoc, ← String.append_assoc, ← hspecifier, ← hspecifier']
  have hless := length_lt_iff hsame
  have hmore := length_lt_iff hsame.symm
  have hequal : x.utf8ByteSize = y.utf8ByteSize ↔ y.length = x.length := by omega
  rw [hmore, hequal]

theorem fits_iff {name specifier : String} :
    (hasStar name && (capture? name specifier).isSome) = true ↔
      ∃ before captured, Captures name specifier before captured := by
  rw [Bool.and_eq_true, Option.isSome_iff_exists]
  constructor
  · rintro ⟨hstar, captured, hcapture⟩
    obtain ⟨before, hfits⟩ := (capture?_eq_some_iff hstar).mp hcapture
    exact ⟨before, captured, hfits⟩
  · rintro ⟨before, captured, hfits⟩
    exact ⟨hfits.hasStar, captured, (capture?_eq_some_iff hfits.hasStar).mpr ⟨before, hfits⟩⟩

section Choice

variable {p : Program} {specifier : String}

theorem Chosen.unique {s t : Slot} (hs : p.Chosen specifier s) (ht : p.Chosen specifier t) :
    s = t := by
  cases hs with
  | named hs =>
    cases ht with
    | named ht => exact hs.unique ht
    | pattern hnone => exact (hnone hs.declares).elim
  | @pattern name before captured _ hnone hs hfits hbest =>
    cases ht with
    | named ht => exact (hnone ht.declares).elim
    | @pattern name' before' captured' _ _ ht hfits' hbest' =>
      have hle := hbest name' before' captured' ht.declares hfits'
      have hge := hbest' name before captured hs.declares hfits
      obtain rfl : name = name' := by
        rcases hle with hlt | ⟨hlength, hnot⟩
        · rcases hge with hlt' | ⟨hlength', _⟩ <;> omega
        · rcases hge with hlt' | ⟨_, hnot'⟩
          · omega
          · exact String.le_antisymm (String.not_lt.mp hnot) (String.not_lt.mp hnot')
      exact hs.unique ht

theorem not_chosen (hnone : ¬ p.Declares specifier)
    (hno : ∀ name before captured, p.Declares name → ¬ Captures name specifier before captured)
    (s : Slot) : ¬ p.Chosen specifier s := by
  intro hchosen
  cases hchosen with
  | named hs => exact hnone hs.declares
  | pattern _ hs hfits _ => exact hno _ _ _ hs.declares hfits

theorem Chosen.of_unbeaten {name : String} {s : Slot} (hnone : ¬ p.Declares specifier)
    (h : p.FirstDeclared name s)
    (hfits : ∃ before captured, Captures name specifier before captured)
    (hbest : ∀ name', p.Declares name' →
      (∃ before captured, Captures name' specifier before captured) →
        ¬ goesBefore name' name = true) : p.Chosen specifier s := by
  obtain ⟨before, captured, hfits⟩ := hfits
  refine .pattern hnone h hfits fun name' before' captured' hdeclares hfits' => ?_
  have hnot := hbest name' hdeclares ⟨before', captured', hfits'⟩
  rw [goesBefore_iff_length hfits' hfits, not_or, not_and] at hnot
  rcases Nat.lt_or_ge before'.length before.length with hlt | hge
  · exact Or.inl hlt
  · have hlength : before'.length = before.length := Nat.le_antisymm (Nat.le_of_not_lt hnot.1) hge
    exact Or.inr ⟨hlength, hnot.2 hlength.symm⟩

/-! ### Going through the index -/

variable {order : List (String × Slot)}

theorem lookup_order (hperm : order.Perm p.index.entries) {name : String} {s : Slot} :
    order.lookup name = some s ↔ p.FirstDeclared name s := by
  have hnodup : (order.map Prod.fst).Nodup :=
    (hperm.map Prod.fst).nodup_iff.mpr p.index.ascending.nodup_keys
  rw [← mem_iff_lookup hnodup, hperm.mem_iff, mem_index]

theorem not_declares_of_lookup (hperm : order.Perm p.index.entries)
    (h : order.lookup specifier = none) : ¬ p.Declares specifier := by
  intro hdeclares
  obtain ⟨s, hs⟩ := hdeclares.exists_first
  rw [(lookup_order hperm).mpr hs] at h
  cases h

theorem mem_fits (hperm : order.Perm p.index.entries) {e : String × Slot} :
    e ∈ order.filter (fun e => hasStar e.1 && (capture? e.1 specifier).isSome) ↔
      p.FirstDeclared e.1 e.2 ∧ ∃ before captured, Captures e.1 specifier before captured := by
  rw [List.mem_filter, hperm.mem_iff, mem_index, fits_iff]

theorem betterEntry_cases (a b : String × Slot) :
    (betterEntry a b = a ∧ ¬ goesBefore b.1 a.1 = true) ∨
      (betterEntry a b = b ∧ ¬ goesBefore a.1 b.1 = true) := by
  by_cases h : goesBefore a.1 b.1 = true
  · exact Or.inl ⟨if_pos h, goesBefore_asymm h⟩
  · exact Or.inr ⟨if_neg h, h⟩

theorem chosen_of_chosenIn? (hperm : order.Perm p.index.entries) {s : Slot}
    (h : chosenIn? order specifier = some s) : p.Chosen specifier s := by
  unfold chosenIn? at h
  split at h
  · rename_i t ht
    obtain rfl := Option.some.inj h
    exact .named ((lookup_order hperm).mp ht)
  · rename_i hnone
    split at h
    · cases h
    · rename_i first rest hfilter
      obtain rfl := Option.some.inj h
      obtain ⟨hmem, hbest⟩ := foldl_unbeaten betterEntry_cases rest first
      rw [← hfilter] at hmem hbest
      obtain ⟨hfirst, hfits⟩ := (mem_fits hperm).mp hmem
      refine .of_unbeaten (not_declares_of_lookup hperm hnone) hfirst hfits ?_
      intro name' hdeclares hfits'
      obtain ⟨s', hs'⟩ := hdeclares.exists_first
      exact hbest (name', s') ((mem_fits hperm).mpr ⟨hs', hfits'⟩)

theorem not_chosen_of_chosenIn? (hperm : order.Perm p.index.entries)
    (h : chosenIn? order specifier = none) (s : Slot) : ¬ p.Chosen specifier s := by
  unfold chosenIn? at h
  split at h
  · cases h
  · rename_i hnone
    split at h
    · rename_i hfilter
      apply not_chosen (not_declares_of_lookup hperm hnone)
      intro name before captured hdeclares hfits
      obtain ⟨t, ht⟩ := hdeclares.exists_first
      have hmem := (mem_fits (e := (name, t)) hperm).mpr ⟨ht, before, captured, hfits⟩
      rw [hfilter] at hmem
      cases hmem
    · cases h

theorem chosenIn?_eq_some_iff (hperm : order.Perm p.index.entries) {s : Slot} :
    chosenIn? order specifier = some s ↔ p.Chosen specifier s := by
  constructor
  · exact chosen_of_chosenIn? hperm
  · intro hs
    cases hchosen : chosenIn? order specifier with
    | none => exact (not_chosen_of_chosenIn? hperm hchosen s hs).elim
    | some t => rw [hs.unique (chosen_of_chosenIn? hperm hchosen)]

/-! ### Going through the modules -/

theorem mem_namedModules {x : ProgramMember × NamedModule} :
    x ∈ p.namedModules ↔ ∃ s, p.moduleAt? s = some x := by
  rw [← map_placedModules, List.mem_map]
  constructor
  · rintro ⟨⟨s, y⟩, hy, rfl⟩
    exact ⟨s, mem_placedModules.mp hy⟩
  · rintro ⟨s, hs⟩
    exact ⟨(s, x), mem_placedModules.mpr hs, rfl⟩

theorem not_declares_of_find? {name : String}
    (h : p.namedModules.find? (fun x => x.2.name = name) = none) : ¬ p.Declares name := by
  rintro ⟨s, x, hx, hname⟩
  exact List.find?_eq_none.mp h x (mem_namedModules.mpr ⟨s, hx⟩) (decide_eq_true hname)

theorem namedModule?_of_find? {x : ProgramMember × NamedModule}
    (h : p.namedModules.find? (fun x => x.2.name = specifier) = some x) :
    p.namedModule? specifier = some x := by
  unfold namedModule?
  rw [h]

theorem chosen_of_namedModule? {x : ProgramMember × NamedModule}
    (h : p.namedModule? specifier = some x) :
    ∃ s, p.Chosen specifier s ∧ p.moduleAt? s = some x := by
  obtain ⟨⟨s, y⟩, hplaced, rfl⟩ := Option.map_eq_some_iff.mp
    ((find?_namedModules x.2.name).symm.trans (namedModule?_first h))
  obtain ⟨hfirst, hat⟩ := firstPlaced?_eq_some_iff.mp hplaced
  refine ⟨s, ?_, hat⟩
  cases hexact : p.namedModules.find? fun x => x.2.name = specifier with
  | some z =>
    obtain rfl := Option.some.inj ((namedModule?_of_find? hexact).symm.trans h)
    have hname : z.2.name = specifier := by simpa using List.find?_some hexact
    exact .named (hname ▸ hfirst)
  | none =>
    rcases namedModule?_of_pattern hexact with ⟨hnone, _⟩ | ⟨z, _, hz, hfits, hbest⟩
    · rw [hnone] at h
      cases h
    · obtain rfl := Option.some.inj (hz.symm.trans h)
      refine .of_unbeaten (not_declares_of_find? hexact) hfirst (fits_iff.mp hfits) ?_
      rintro _ ⟨t, w, hw, rfl⟩ hfits'
      exact hbest w (mem_namedModules.mpr ⟨t, hw⟩) (fits_iff.mpr hfits')

theorem namedModule?_eq_none_iff : p.namedModule? specifier = none ↔ ¬ p.Declares specifier ∧
    ∀ name before captured, p.Declares name → ¬ Captures name specifier before captured := by
  constructor
  · intro h
    cases hexact : p.namedModules.find? fun x => x.2.name = specifier with
    | some z =>
      rw [namedModule?_of_find? hexact] at h
      cases h
    | none =>
      refine ⟨not_declares_of_find? hexact, ?_⟩
      rcases namedModule?_of_pattern hexact with ⟨_, hno⟩ | ⟨z, _, hz, _⟩
      · rintro _ before captured ⟨t, w, hw, rfl⟩ hfits
        have hfalse := hno w (mem_namedModules.mpr ⟨t, hw⟩)
        rw [hasPattern, fits_iff.mpr ⟨before, captured, hfits⟩] at hfalse
        cases hfalse
      · rw [hz] at h
        cases h
  · rintro ⟨hnone, hno⟩
    cases h : p.namedModule? specifier with
    | none => rfl
    | some x =>
      obtain ⟨s, hchosen, _⟩ := chosen_of_namedModule? h
      exact (not_chosen hnone hno s hchosen).elim

theorem namedModule?_eq_some_iff {x : ProgramMember × NamedModule} :
    p.namedModule? specifier = some x ↔ ∃ s, p.Chosen specifier s ∧ p.moduleAt? s = some x := by
  constructor
  · exact chosen_of_namedModule?
  · rintro ⟨s, hs, hat⟩
    cases h : p.namedModule? specifier with
    | none =>
      obtain ⟨hnone, hno⟩ := namedModule?_eq_none_iff.mp h
      exact (not_chosen hnone hno s hs).elim
    | some y =>
      obtain ⟨t, ht, hat'⟩ := chosen_of_namedModule? h
      rw [hs.unique ht, hat'] at hat
      exact hat

end Choice

/-- The index holds each declared name once, with the place of its first declaration, where there is
a module of that name. In whatever order its entries are gone through, the module for a specifier is
the same one: the first that is declared by this very name, or else the first that is declared by
the best of the patterns for it. There is none exactly if no module is declared by the name or by a
pattern for it. -/
theorem module_choice (p : Program) (specifier : String) :
    ((p.index.entries.map Prod.fst).Nodup ∧
      ∀ name s, (name, s) ∈ p.index.entries ↔ p.FirstDeclared name s) ∧
    (∀ order, order.Perm p.index.entries →
      (∀ s, chosenIn? order specifier = some s ↔ p.Chosen specifier s) ∧
      (chosenIn? order specifier).bind p.moduleAt? = p.namedModule? specifier) ∧
    (∀ x, p.namedModule? specifier = some x ↔
      ∃ s, p.Chosen specifier s ∧ p.moduleAt? s = some x) ∧
    (p.namedModule? specifier = none ↔ ¬ p.Declares specifier ∧
      ∀ name before captured, p.Declares name → ¬ Captures name specifier before captured) := by
  refine ⟨⟨p.index.ascending.nodup_keys, fun _ _ => mem_index⟩, fun order hperm => ⟨?_, ?_⟩,
    fun _ => namedModule?_eq_some_iff, namedModule?_eq_none_iff⟩
  · exact fun s => chosenIn?_eq_some_iff hperm
  · apply Option.ext
    intro x
    rw [Option.bind_eq_some_iff, namedModule?_eq_some_iff]
    simp only [chosenIn?_eq_some_iff hperm]

/-- A file that declares modules without bodies. -/
def declaring (path : String) (names : List String) : ProgramMember :=
  ⟨⟨⟨path⟩, ""⟩, .declaration, ⟨some (Source.Outline.ofItems 0 true (names.map fun name =>
    .declaration (.namespaceDecl (.text name) true .absent))), []⟩, ∅⟩

def sheets : Program :=
  ⟨[declaring "/a.d.ts" ["*.css", "a*"], declaring "/b.d.ts" ["assets/*.css", "*.css"]], []⟩

theorem module_choice_sheets :
    chosenIn? sheets.index.entries.reverse "assets/x.css" = some ⟨1, 0⟩ ∧
    (sheets.namedModule? "assets/x.css").map (fun x => x.2.name) = some "assets/*.css" ∧
    (sheets.namedModule? "x.css").map (fun x => x.1.path.text) = some "/a.d.ts" ∧
    (sheets.namedModule? "x.ts").isNone = true := by
  obtain ⟨_, hlong, _⟩ := module_choice sheets "assets/x.css"
  obtain ⟨_, hshort, _⟩ := module_choice sheets "x.css"
  obtain ⟨_, hother, _⟩ := module_choice sheets "x.ts"
  have hperm := List.reverse_perm sheets.index.entries
  rw [← (hlong _ hperm).2, ← (hshort _ hperm).2, ← (hother _ hperm).2]
  decide +kernel

end TypeOnly.Program
