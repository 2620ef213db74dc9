import TypeOnly.Proofs.Destination
import TypeOnly.Proofs.SpecifierTargets

/-!
What a package with `exports` exposes. Every answer is a file that one of the listed texts stands
for, with the star in it replaced, and nothing else of the description matters. The file is
inside the package as long as the text does not lead above it.
-/

namespace TypeOnly

set_option autoImplicit false

namespace Wildcard

/-- What stands before the first star of a pattern, and what the star stands for in a name. -/
def Captures (pattern name before captured : String) : Prop :=
  ∃ after : String, pattern = before ++ "*" ++ after ∧ '*' ∉ before.toList ∧
    name = before ++ captured ++ after

theorem exists_middle {before after cs : List Char}
    (hlength : before.length + after.length ≤ cs.length) (hbefore : before <+: cs)
    (hafter : after <:+ cs) : ∃ middle, cs = before ++ middle ++ after := by
  obtain ⟨rest, rfl⟩ := hbefore
  have hrest : after <:+ rest := by
    apply List.suffix_of_suffix_length_le hafter (List.suffix_append before rest)
    rw [List.length_append] at hlength
    omega
  obtain ⟨middle, rfl⟩ := hrest
  exact ⟨middle, (List.append_assoc before middle after).symm⟩

theorem middle_eq (before middle after : List Char) :
    ((before ++ middle ++ after).drop before.length).take
      ((before ++ middle ++ after).length - before.length - after.length) = middle := by
  have hcount : (before ++ middle ++ after).length - before.length - after.length =
      middle.length := by
    rw [List.length_append, List.length_append]
    omega
  rw [hcount, List.append_assoc, List.drop_left, List.take_left]

theorem capture?_of_breakAt {pattern name captured : String} {before after : List Char}
    (h : Text.breakAt '*' pattern.toList = some (before, after)) :
    capture? pattern name = some captured ↔ name.toList = before ++ captured.toList ++ after := by
  unfold capture?
  rw [h]
  dsimp only
  simp only [Bool.and_eq_true, decide_eq_true_eq, List.isPrefixOf_iff_prefix,
    List.isSuffixOf_iff_suffix]
  constructor
  · intro hcapture
    split at hcapture
    · rename_i hfits
      obtain ⟨middle, hname⟩ := exists_middle hfits.1.1 hfits.1.2 hfits.2
      rw [hname, middle_eq] at hcapture
      rw [hname, ← Option.some.inj hcapture, String.toList_ofList]
    · cases hcapture
  · intro hname
    rw [hname, middle_eq, String.ofList_toList, if_pos]
    refine ⟨⟨?_, ?_⟩, List.suffix_append _ after⟩
    · rw [List.length_append, List.length_append]
      omega
    · rw [List.append_assoc]
      exact List.prefix_append before _

theorem breakAt_star (before after : String) (h : '*' ∉ before.toList) :
    Text.breakAt '*' (before ++ "*" ++ after).toList = some (before.toList, after.toList) := by
  have hstar : "*".toList = ['*'] := rfl
  rw [Text.breakAt_eq_some_iff]
  exact ⟨by simp [hstar], h⟩

theorem exists_star {pattern : String} (h : hasStar pattern = true) :
    ∃ before after : String, pattern = before ++ "*" ++ after ∧ '*' ∉ before.toList := by
  obtain ⟨before, after, hpattern, hfirst⟩ :=
    List.eq_append_cons_of_mem (List.contains_iff_mem.mp h)
  refine ⟨String.ofList before, String.ofList after, ?_, by simpa using hfirst⟩
  apply String.toList_injective
  simpa using hpattern

theorem capture?_eq_some_iff {pattern name captured : String} (hstar : hasStar pattern = true) :
    capture? pattern name = some captured ↔ ∃ before, Captures pattern name before captured := by
  constructor
  · intro h
    obtain ⟨before, after, rfl, hfirst⟩ := exists_star hstar
    rw [capture?_of_breakAt (breakAt_star before after hfirst)] at h
    refine ⟨before, after, rfl, hfirst, ?_⟩
    apply String.toList_injective
    simpa using h
  · rintro ⟨before, after, rfl, hfirst, rfl⟩
    rw [capture?_of_breakAt (breakAt_star before after hfirst)]
    simp

theorem Captures.hasStar {pattern name before captured : String}
    (h : Captures pattern name before captured) : hasStar pattern = true := by
  obtain ⟨after, rfl, _⟩ := h
  simp [Wildcard.hasStar]

theorem Captures.weight {pattern name before captured : String}
    (h : Captures pattern name before captured) : weight pattern = before.utf8ByteSize := by
  obtain ⟨after, rfl, hfirst, _⟩ := h
  rw [Wildcard.weight, breakAt_star before after hfirst]
  simp

end Wildcard

namespace Package

open Wildcard (Captures weight)

/-- The values of `exports` whose keys are paths inside the package. -/
def Keyed (exports : Json) : Prop :=
  ∃ fields, exports = .object fields ∧ ∃ e ∈ fields, Text.beginsWith "." e.1 = true

/-- The value that `exports` have for a path inside the package, and what the star in its key stands
for. The path itself is the first choice for a key; of the patterns that fit, the one with the most
before its star is taken, and the last one of these. -/
inductive Selects (exports : Json) (subpath : String) : Json → String → Prop where
  | whole (hnone : ¬ Keyed exports) (hdot : subpath = ".") : Selects exports subpath exports ""
  | entry {fields : List (String × Json)} {j : Json} (hfields : exports = .object fields)
      (hkeyed : Keyed exports) (hj : fields.lookup subpath = some j) :
      Selects exports subpath j ""
  | pattern {front back : List (String × Json)} {key before captured : String} {j : Json}
      (hfields : exports = .object (front ++ (key, j) :: back)) (hkeyed : Keyed exports)
      (hnone : (front ++ (key, j) :: back).lookup subpath = none)
      (hkey : Captures key subpath before captured)
      (hfront : ∀ e ∈ front, ∀ b c, Captures e.1 subpath b c →
        b.utf8ByteSize ≤ before.utf8ByteSize)
      (hback : ∀ e ∈ back, ∀ b c, Captures e.1 subpath b c →
        b.utf8ByteSize < before.utf8ByteSize) :
      Selects exports subpath j captured

/-- The last one of the patterns that are the most specific. -/
def IsLastBest (list : List (String × Json × String)) (x : String × Json × String) : Prop :=
  ∃ front back, list = front ++ x :: back ∧ (∀ a ∈ front, weight a.1 ≤ weight x.1) ∧
    ∀ b ∈ back, weight b.1 < weight x.1

theorem isLastBest_foldl (first : String × Json × String) (rest : List (String × Json × String)) :
    IsLastBest (first :: rest) (rest.foldl moreSpecific first) := by
  induction rest generalizing first with
  | nil => exact ⟨[], [], rfl, by simp, by simp⟩
  | cons b rest ih =>
    rw [List.foldl_cons]
    obtain ⟨front, back, hlist, hfront, hback⟩ := ih (moreSpecific first b)
    generalize rest.foldl moreSpecific (moreSpecific first b) = x at hlist hfront hback ⊢
    unfold moreSpecific at hlist
    split at hlist
    · rename_i hle
      -- the second one is at least as specific as the first
      refine ⟨first :: front, back, by rw [hlist, List.cons_append], ?_, hback⟩
      have hb : weight b.1 ≤ weight x.1 := by
        cases front with
        | nil => exact Nat.le_of_eq (congrArg (fun y => weight y.1) (List.cons.inj hlist).1)
        | cons y front =>
          rw [(List.cons.inj hlist).1]
          exact hfront y List.mem_cons_self
      intro a ha
      rcases List.mem_cons.mp ha with rfl | ha
      · exact Nat.le_trans hle hb
      · exact hfront a ha
    · rename_i hlt
      cases front with
      | nil =>
        obtain ⟨rfl, rfl⟩ := List.cons.inj hlist
        refine ⟨[], b :: rest, rfl, by simp, ?_⟩
        intro y hy
        rcases List.mem_cons.mp hy with rfl | hy
        · omega
        · exact hback y hy
      | cons y front =>
        obtain ⟨rfl, hrest⟩ := List.cons.inj hlist
        have hfirst := hfront first List.mem_cons_self
        refine ⟨first :: b :: front, back, by rw [hrest]; rfl, ?_, hback⟩
        intro a ha
        rcases List.mem_cons.mp ha with rfl | ha
        · exact hfirst
        rcases List.mem_cons.mp ha with rfl | ha
        · omega
        · exact hfront a (List.mem_cons_of_mem _ ha)

theorem IsLastBest.unique {list : List (String × Json × String)} {x y : String × Json × String}
    (hx : IsLastBest list x) (hy : IsLastBest list y) : x = y := by
  obtain ⟨front, back, hlist, hfront, hback⟩ := hx
  obtain ⟨front', back', hlist', hfront', hback'⟩ := hy
  -- of two different places, the later one would be both more and not more specific
  rcases List.append_eq_append_iff.mp (hlist.symm.trans hlist') with
    ⟨between, hpre, hpost⟩ | ⟨between, hpre, hpost⟩
  · cases between with
    | nil => exact (List.cons.inj hpost).1
    | cons z between =>
      obtain ⟨rfl, hrest⟩ := List.cons.inj hpost
      have hle := hfront' x (hpre ▸ List.mem_append_right _ List.mem_cons_self)
      have hlt := hback y (hrest ▸ List.mem_append_right _ List.mem_cons_self)
      omega
  · cases between with
    | nil => exact (List.cons.inj hpost).1.symm
    | cons z between =>
      obtain ⟨rfl, hrest⟩ := List.cons.inj hpost
      have hle := hfront y (hpre ▸ List.mem_append_right _ List.mem_cons_self)
      have hlt := hback' x (hrest ▸ List.mem_append_right _ List.mem_cons_self)
      omega

/-- What a key is taken for if it is a pattern that fits. -/
def fit (subpath : String) (e : String × Json) : Option (String × Json × String) :=
  if Wildcard.hasStar e.1 then (Wildcard.capture? e.1 subpath).map fun c => (e.1, e.2, c) else none

def mostSpecific : List (String × Json × String) → Option (String × Json × String)
  | [] => none
  | first :: rest => some (rest.foldl moreSpecific first)

theorem fit_eq_some_iff {subpath : String} {e : String × Json} {x : String × Json × String} :
    fit subpath e = some x ↔
      x.1 = e.1 ∧ x.2.1 = e.2 ∧ ∃ before, Captures e.1 subpath before x.2.2 := by
  obtain ⟨key, j, captured⟩ := x
  unfold fit
  split
  · rename_i hstar
    rw [← Wildcard.capture?_eq_some_iff hstar, Option.map_eq_some_iff]
    constructor
    · rintro ⟨c, hc, he⟩
      cases he
      exact ⟨rfl, rfl, hc⟩
    · rintro ⟨rfl, rfl, hc⟩
      exact ⟨captured, hc, rfl⟩
  · rename_i hstar
    constructor
    · intro h
      cases h
    · rintro ⟨_, _, before, hcaptures⟩
      exact False.elim (hstar hcaptures.hasStar)

theorem mostSpecific_eq_some_iff {list : List (String × Json × String)}
    {x : String × Json × String} : mostSpecific list = some x ↔ IsLastBest list x := by
  cases list with
  | nil => simp [mostSpecific, IsLastBest]
  | cons first rest =>
    have hbest := isLastBest_foldl first rest
    constructor
    · intro h
      exact Option.some.inj h ▸ hbest
    · intro h
      exact congrArg some (hbest.unique h)

theorem mostSpecific_map_iff {list : List (String × Json × String)} {x : Json × String} :
    (mostSpecific list).map (·.2) = some x ↔ ∃ key, IsLastBest list (key, x) := by
  rw [Option.map_eq_some_iff]
  constructor
  · rintro ⟨⟨key, _⟩, hx, rfl⟩
    exact ⟨key, mostSpecific_eq_some_iff.mp hx⟩
  · rintro ⟨key, hx⟩
    exact ⟨_, mostSpecific_eq_some_iff.mpr hx, rfl⟩

/-- The entries of `exports` if their keys are paths inside the package. -/
def keyed? (exports : Json) : Option (List (String × Json)) :=
  exports.asObject?.filter fun fields => fields.any fun e => Text.beginsWith "." e.1

theorem keyed?_eq_some_iff {exports : Json} {fields : List (String × Json)} :
    keyed? exports = some fields ↔ exports = .object fields ∧ Keyed exports := by
  rw [keyed?, Option.filter_eq_some_iff, List.any_eq_true]
  constructor
  · rintro ⟨hfields, e, he, hdot⟩
    cases exports with
    | object found =>
      cases hfields
      exact ⟨rfl, _, rfl, e, he, hdot⟩
    | null | bool | number | string | array => cases hfields
  · rintro ⟨rfl, found, hfound, e, he, hdot⟩
    cases hfound
    exact ⟨rfl, e, he, hdot⟩

theorem keyed?_eq_none_iff {exports : Json} : keyed? exports = none ↔ ¬ Keyed exports := by
  rw [← not_iff_not, not_not, ← ne_eq, Option.ne_none_iff_exists']
  constructor
  · rintro ⟨fields, hfields⟩
    exact (keyed?_eq_some_iff.mp hfields).2
  · intro hkeyed
    obtain ⟨fields, hfields, _⟩ := id hkeyed
    exact ⟨fields, keyed?_eq_some_iff.mpr ⟨hfields, hkeyed⟩⟩

theorem exposed?_eq (exports : Json) (subpath : String) : exposed? exports subpath =
    (keyed? exports).elim (if subpath = "." then some (exports, "") else none) fun fields =>
      ((fields.lookup subpath).map fun j => (j, "")).or
        ((mostSpecific (fields.filterMap (fit subpath))).map (·.2)) := by
  unfold exposed?
  generalize hkeyed : Option.filter _ _ = keyed
  have hkeyed : keyed? exports = keyed := hkeyed
  rw [hkeyed]
  cases keyed with
  | none => rfl
  | some fields =>
    dsimp only [Option.elim_some]
    cases fields.lookup subpath with
    | some j => rfl
    | none =>
      generalize hmatching : List.filterMap _ fields = matching
      have hmatching : fields.filterMap (fit subpath) = matching := hmatching
      rw [hmatching]
      cases matching with
      | nil => rfl
      | cons first rest => rfl

/-- The patterns that fit, with the last best one among them. -/
theorem isLastBest_filterMap_iff {fields : List (String × Json)} {subpath : String} {j : Json}
    {captured : String} :
    (∃ key, IsLastBest (fields.filterMap (fit subpath)) (key, j, captured)) ↔
      ∃ front key before back, fields = front ++ (key, j) :: back ∧
        Captures key subpath before captured ∧
        (∀ e ∈ front, ∀ b c, Captures e.1 subpath b c → b.utf8ByteSize ≤ before.utf8ByteSize) ∧
        ∀ e ∈ back, ∀ b c, Captures e.1 subpath b c → b.utf8ByteSize < before.utf8ByteSize := by
  have hfits {e : String × Json} {b c : String} (h : Captures e.1 subpath b c) :
      fit subpath e = some (e.1, e.2, c) := fit_eq_some_iff.mpr ⟨rfl, rfl, b, h⟩
  constructor
  · rintro ⟨key, best, rest, hlist, hbest, hrest⟩
    obtain ⟨front, tail, rfl, rfl, htail⟩ := List.filterMap_eq_append_iff.mp hlist
    obtain ⟨idle, e, back, rfl, hidle, he, rfl⟩ := List.filterMap_eq_cons_iff.mp htail
    obtain ⟨rfl, rfl, before, hcaptures⟩ := fit_eq_some_iff.mp he
    refine ⟨front ++ idle, e.1, before, back, by simp, hcaptures, ?_, ?_⟩
    · intro x hx b c hc
      rw [← hc.weight, ← hcaptures.weight]
      rcases List.mem_append.mp hx with hx | hx
      · exact hbest _ (List.mem_filterMap.mpr ⟨x, hx, hfits hc⟩)
      · have hnone := hidle x hx
        rw [hfits hc] at hnone
        cases hnone
    · intro x hx b c hc
      rw [← hc.weight, ← hcaptures.weight]
      exact hrest _ (List.mem_filterMap.mpr ⟨x, hx, hfits hc⟩)
  · rintro ⟨front, key, before, back, rfl, hcaptures, hfront, hback⟩
    refine ⟨key, front.filterMap (fit subpath), back.filterMap (fit subpath), ?_, ?_, ?_⟩
    · rw [List.filterMap_append, List.filterMap_cons_some (hfits (e := (key, j)) hcaptures)]
    · intro x hx
      obtain ⟨e, he, hfit⟩ := List.mem_filterMap.mp hx
      obtain ⟨hkey, _, b, hc⟩ := fit_eq_some_iff.mp hfit
      rw [hkey, hc.weight, hcaptures.weight]
      exact hfront e he b _ hc
    · intro x hx
      obtain ⟨e, he, hfit⟩ := List.mem_filterMap.mp hx
      obtain ⟨hkey, _, b, hc⟩ := fit_eq_some_iff.mp hfit
      rw [hkey, hc.weight, hcaptures.weight]
      exact hback e he b _ hc

/-- The value for a path inside the package is the selected one. -/
theorem exposed?_eq_some_iff {exports : Json} {subpath : String} {j : Json} {captured : String} :
    exposed? exports subpath = some (j, captured) ↔ Selects exports subpath j captured := by
  rw [exposed?_eq]
  cases hkeyed : keyed? exports with
  | none =>
    have hnot := keyed?_eq_none_iff.mp hkeyed
    rw [Option.elim_none]
    constructor
    · intro h
      split at h
      · rename_i hdot
        cases h
        exact .whole hnot hdot
      · cases h
    · intro h
      cases h with
      | whole _ hdot => rw [if_pos hdot]
      | entry _ hyes => exact False.elim (hnot hyes)
      | pattern _ hyes => exact False.elim (hnot hyes)
  | some fields =>
    obtain ⟨rfl, hyes⟩ := keyed?_eq_some_iff.mp hkeyed
    rw [Option.elim_some, Option.or_eq_some_iff, mostSpecific_map_iff, isLastBest_filterMap_iff,
      Option.map_eq_some_iff, Option.map_eq_none_iff]
    constructor
    · rintro (⟨_, hj, he⟩ | ⟨hnone, front, key, before, back, rfl, hcaptures, hfront, hback⟩)
      · cases he
        exact .entry rfl hyes hj
      · exact .pattern rfl hyes hnone hcaptures hfront hback
    · intro h
      cases h with
      | whole hnot => exact False.elim (hnot hyes)
      | entry hfields _ hj =>
        cases hfields
        exact Or.inl ⟨j, hj, rfl⟩
      | pattern hfields _ hnone hcaptures hfront hback =>
        cases hfields
        exact Or.inr ⟨hnone, _, _, _, _, rfl, hcaptures, hfront, hback⟩

/-! ### Targets -/

/-- A text that a value of `exports` comes down to, through alternatives and conditions. -/
inductive Offers : Json → String → Prop where
  | text (t : String) : Offers (.string t) t
  | alternative {items : List Json} {j : Json} {t : String} (hj : j ∈ items) (h : Offers j t) :
      Offers (.array items) t
  | condition {fields : List (String × Json)} {c t : String} {j : Json} (hc : c ∈ conditions)
      (hj : fields.lookup c = some j) (h : Offers j t) : Offers (.object fields) t

theorem mem_targetsOfItems {items : List Json} {t : String} :
    t ∈ targetsOfItems items ↔ ∃ j ∈ items, t ∈ targets j := by
  induction items with
  | nil => simp [targetsOfItems]
  | cons j rest ih => simp [targetsOfItems, ih]

theorem lookup_targetsOfFields (fields : List (String × Json)) (c : String) :
    (targetsOfFields fields).lookup c = (fields.lookup c).map targets := by
  induction fields with
  | nil => rfl
  | cons e rest ih =>
    obtain ⟨k, j⟩ := e
    rw [targetsOfFields, lookup_cons_eq, lookup_cons_eq, ih]
    split
    · rfl
    · rfl

theorem mem_targets_object {fields : List (String × Json)} {t : String} :
    t ∈ targets (.object fields) ↔
      ∃ c ∈ conditions, ∃ j, fields.lookup c = some j ∧ t ∈ targets j := by
  rw [targets]
  simp only [List.mem_flatMap, lookup_targetsOfFields]
  constructor
  · rintro ⟨c, hc, ht⟩
    cases hj : fields.lookup c with
    | none => simp [hj] at ht
    | some j => exact ⟨c, hc, j, hj, by simpa [hj] using ht⟩
  · rintro ⟨c, hc, j, hj, ht⟩
    exact ⟨c, hc, by simpa [hj] using ht⟩

theorem mem_targets_of_offers {j : Json} {t : String} (h : Offers j t) : t ∈ targets j := by
  induction h with
  | text t => simp [targets]
  | alternative hj _ ih =>
    rw [targets]
    exact mem_targetsOfItems.mpr ⟨_, hj, ih⟩
  | condition hc hj _ ih => exact mem_targets_object.mpr ⟨_, hc, _, hj, ih⟩

theorem offers_of_mem_targets (j : Json) (t : String) (h : t ∈ targets j) : Offers j t := by
  cases j with
  | null | bool | number => simp [targets] at h
  | string s =>
    rw [targets] at h
    obtain rfl := List.mem_singleton.mp h
    exact .text t
  | array items =>
    rw [targets] at h
    obtain ⟨j, hj, ht⟩ := mem_targetsOfItems.mp h
    have hless := List.sizeOf_lt_of_mem hj
    exact .alternative hj (offers_of_mem_targets j t ht)
  | object fields =>
    obtain ⟨c, hc, j, hj, ht⟩ := mem_targets_object.mp h
    -- the value of a condition is smaller than the object that holds it
    have hless : sizeOf j < sizeOf fields := by
      obtain ⟨front, back, rfl, _⟩ := List.lookup_eq_some_iff.mp hj
      have hmem : (c, j) ∈ front ++ (c, j) :: back :=
        List.mem_append_right front List.mem_cons_self
      have hentry := List.sizeOf_lt_of_mem hmem
      rw [Prod.mk.sizeOf_spec] at hentry
      omega
    exact .condition hc hj (offers_of_mem_targets j t ht)
termination_by sizeOf j
decreasing_by
  all_goals
    subst_vars
    simp only [Json.array.sizeOf_spec, Json.object.sizeOf_spec]
    omega

/-! ### Listed texts -/

/-- The path of a file inside the package that `exports` list for another one. -/
def Lists (exports : Json) (subpath inside : String) : Prop :=
  ∃ j captured t, Selects exports subpath j captured ∧ Offers j t ∧
    Text.replaceAll '*' captured t = "./" ++ inside

theorem mem_exposedFiles_iff {exports : Json} {subpath inside : String} :
    inside ∈ exposedFiles exports subpath ↔ Lists exports subpath inside := by
  have hdrop {t : String} : Text.dropStart? "./" t = some inside ↔ t = "./" ++ inside :=
    ⟨Text.eq_append_of_dropStart?, fun h => h ▸ Text.dropStart?_append "./" inside⟩
  unfold exposedFiles
  cases hexposed : exposed? exports subpath with
  | none =>
    constructor
    · intro h
      cases h
    · rintro ⟨j, captured, _, hselects, _⟩
      rw [exposed?_eq_some_iff.mpr hselects] at hexposed
      cases hexposed
  | some x =>
    obtain ⟨j, captured⟩ := x
    dsimp only
    rw [List.mem_filterMap]
    constructor
    · rintro ⟨t, ht, hinside⟩
      exact ⟨j, captured, t, exposed?_eq_some_iff.mp hexposed, offers_of_mem_targets j t ht,
        hdrop.mp hinside⟩
    · rintro ⟨j', captured', t, hselects, hoffers, hinside⟩
      rw [exposed?_eq_some_iff.mpr hselects] at hexposed
      cases hexposed
      exact ⟨t, mem_targets_of_offers hoffers, hdrop.mpr hinside⟩

end Package

namespace Resolver

variable {r : Resolver} {disk : Disk} {folder f : Path}

theorem isAbsolute_of_loadFile {c : Path} (h : r.loadFile disk c = some f) :
    c.isAbsolute = true := by
  obtain ⟨_, _, hfind, _⟩ := Disk.find_of_isFile (List.find?_some h)
  rw [← isAbsolute_candidate (List.mem_of_find?_eq_some h)]
  exact (Disk.isAbsolute_of_find hfind).1

/-- Only the last stretch of a path changes where it stands for a file. -/
theorem parts_of_loadFile {inside : String} (hinside : Path.isAbsolute ⟨inside⟩ = false)
    (h : r.loadFile disk (folder.child inside) = some f) : ∃ name, f.parts =
      folder.parts ++ (Path.segments ⟨inside⟩).dropLast.filterMap Part.ofSegment? ++
        [.name name] := by
  have habsolute := isAbsolute_of_loadFile h
  have hfolder : folder.isAbsolute = true := by
    rwa [Path.isAbsolute_child folder (by simpa [Path.isAbsolute] using hinside)] at habsolute
  obtain ⟨base, last, name, hlast, hchild, hplace⟩ := exists_place_of_loadFile habsolute h
  obtain ⟨front, hbase, hfront⟩ := Path.exists_segments_of_last hplace.last
  obtain ⟨init, hsegments, hinit⟩ := folder.segments_join hinside
  -- up to the last slash, the file is found under the path as it is written
  have hsplit : Path.segments ⟨front⟩ = init ++ (Path.segments ⟨inside⟩).dropLast := by
    have hboth : (base.child last).segments = init ++ Path.segments ⟨inside⟩ :=
      hchild ▸ hsegments
    have hdrop := congrArg List.dropLast ((hfront last hlast).symm.trans hboth)
    have hne : Path.segments ⟨inside⟩ ≠ [] := by
      simp [Path.segments, Text.fields, Text.splitOn_ne_nil]
    rwa [List.dropLast_concat, List.dropLast_append_of_ne_nil hne] at hdrop
  refine ⟨name, ?_⟩
  rw [hplace.path, Path.parts_child hplace.absolute hplace.named,
    Path.parts_of_isAbsolute hplace.absolute, Path.parts_of_isAbsolute hfolder, hbase, hsplit]
  simp [hinit, Part.ofSegment?]

theorem inside_of_loadFile {inside : String} (hbelow : Path.StaysBelow ⟨inside⟩)
    (h : r.loadFile disk (folder.child inside) = some f) : f.Inside folder := by
  obtain ⟨hinside, habove⟩ := hbelow
  obtain ⟨name, hparts⟩ := parts_of_loadFile hinside h
  have hroot : .root ∉ (Path.segments ⟨inside⟩).dropLast.filterMap Part.ofSegment? := fun hmem =>
    Path.root_not_mem_segments ⟨inside⟩
      (((List.dropLast_sublist _).filterMap Part.ofSegment?).subset hmem)
  exact Path.inside_of_parts hroot habove hparts

theorem packageFile_eq {subpath : String} {cache : PackageCache} {package : Package}
    {exports : Json} (hpackage : ((packageIn disk folder).run cache).1 = some package)
    (hexports : package.exports = some exports) :
    ((r.packageFile disk folder subpath).run cache).1 =
      (Package.exposedFiles exports subpath).findSome? fun inside =>
        r.loadFile disk (folder.child inside) := by
  have hrun (next : Option Package → Search (Option Path)) :
      (((packageIn disk folder) >>= next).run cache).1 =
        ((next ((packageIn disk folder).run cache).1).run
          ((packageIn disk folder).run cache).2).1 := rfl
  rw [packageFile, hrun, hpackage, Option.bind_some, hexports]
  rfl

/-- A package with `exports` offers the files that they list and nothing else, whatever else its
description says. The files are inside the package where the listed texts do not lead above it. -/
theorem packageFile_listed (r : Resolver) (disk : Disk) (folder : Path) (subpath : String)
    (cache : PackageCache) (package : Package) (exports : Json)
    (hpackage : ((packageIn disk folder).run cache).1 = some package)
    (hexports : package.exports = some exports) :
    (∀ f, ((r.packageFile disk folder subpath).run cache).1 = some f →
      ∃ inside, Package.Lists exports subpath inside ∧
        r.loadFile disk (folder.child inside) = some f ∧
        (Path.StaysBelow ⟨inside⟩ → f.Inside folder)) ∧
    (((r.packageFile disk folder subpath).run cache).1 = none →
      ∀ inside, Package.Lists exports subpath inside →
        r.loadFile disk (folder.child inside) = none) ∧
    ∀ cache' package', ((packageIn disk folder).run cache').1 = some package' →
      package'.exports = some exports →
      ((r.packageFile disk folder subpath).run cache').1 =
        ((r.packageFile disk folder subpath).run cache).1 := by
  rw [packageFile_eq hpackage hexports]
  refine ⟨?_, ?_, ?_⟩
  · intro f hf
    obtain ⟨inside, hmem, hload⟩ := List.exists_of_findSome?_eq_some hf
    exact ⟨inside, Package.mem_exposedFiles_iff.mp hmem, hload, fun h => inside_of_loadFile h hload⟩
  · intro hnone inside hlists
    exact List.findSome?_eq_none_iff.mp hnone inside (Package.mem_exposedFiles_iff.mpr hlists)
  · intro cache' package' hpackage' hexports'
    exact packageFile_eq hpackage' hexports'

/-- A package that exposes files through a pattern with conditions and alternatives. -/
def patternDisk : Disk :=
  ⟨[(["pkg"], .folder), (["pkg", "main.ts"], .file "".toUTF8), (["pkg", "src"], .folder),
    (["pkg", "lib"], .folder), (["pkg", "lib", "a.ts"], .file "".toUTF8),
    (["pkg", "package.json"],
      .file ("\x7b\"types\": \"main.ts\", \"exports\": \x7b\"./f/*\": \x7b\"types\": " ++
        "[\"./none.ts\", \x7b\"default\": \"./src/../lib/*.ts\"\x7d]\x7d\x7d\x7d").toUTF8)]⟩

theorem packageFile_listed_pattern : ∃ package exports inside f,
    ((packageIn patternDisk ⟨"/pkg"⟩).run []).1 = some package ∧
    package.exports = some exports ∧
    (((ofOptions ∅).packageFile patternDisk ⟨"/pkg"⟩ "./f/a").run []).1 = some f ∧
    Package.Lists exports "./f/a" inside ∧ Path.StaysBelow ⟨inside⟩ ∧ f.Inside ⟨"/pkg"⟩ := by
  have hfiles : (((packageIn patternDisk ⟨"/pkg"⟩).run []).1.bind Package.exports).map
      (Package.exposedFiles · "./f/a") = some ["none.ts", "src/../lib/a.ts"] := by decide +kernel
  obtain ⟨exports, hfound, hlisted⟩ := Option.map_eq_some_iff.mp hfiles
  obtain ⟨package, hpackage, hexports⟩ := Option.bind_eq_some_iff.mp hfound
  have hanswer : (((ofOptions ∅).packageFile patternDisk ⟨"/pkg"⟩ "./f/a").run []).1 =
      some ⟨"/pkg/src/../lib/a.ts"⟩ := by
    rw [packageFile_eq hpackage hexports, hlisted]
    decide +kernel
  obtain ⟨inside, hlists, _, hinside⟩ :=
    (packageFile_listed (ofOptions ∅) patternDisk ⟨"/pkg"⟩ "./f/a" [] package exports hpackage
      hexports).1 _ hanswer
  have hbelow : ∀ inside ∈ ["none.ts", "src/../lib/a.ts"], Path.StaysBelow ⟨inside⟩ := by decide
  have hstays := hbelow inside (hlisted ▸ Package.mem_exposedFiles_iff.mpr hlists)
  exact ⟨package, exports, inside, _, hpackage, hexports, hanswer, hlists, hstays, hinside hstays⟩

/-- A package whose `exports` lead out of it. -/
def outwardDisk : Disk :=
  ⟨[(["pkg"], .folder), (["secret.ts"], .file "".toUTF8),
    (["pkg", "package.json"],
      .file "\x7b\"exports\": \x7b\".\": \"./../secret.ts\", \"./*\": \"./*\"\x7d\x7d".toUTF8)]⟩

/-- A listed text can lead above the package, and so can what a star stands for. Where it makes the
text begin with two slashes, the path begins anew at the top. -/
theorem packageFile_outside :
    ([".", "./../secret", ".//secret"].map fun subpath =>
      (((ofOptions ∅).packageFile outwardDisk ⟨"/pkg"⟩ subpath).run []).1.map Path.normalize) =
        List.replicate 3 (some ⟨"/secret.ts"⟩) ∧
    ¬ (⟨"/secret.ts"⟩ : Path).Inside ⟨"/pkg"⟩ := by
  have houtside : ¬ (⟨"/pkg"⟩ : Path).normalize.parts <+:
      (⟨"/secret.ts"⟩ : Path).normalize.parts := by decide
  refine ⟨by decide +kernel, ?_⟩
  rintro ⟨names, _, hparts⟩
  exact houtside ⟨_, hparts.symm⟩

end Resolver

end TypeOnly
