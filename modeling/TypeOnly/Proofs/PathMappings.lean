import TypeOnly.Proofs.ConfigStatements
import TypeOnly.Proofs.ListFacts
import TypeOnly.Proofs.PackageExports

/-!
Specifiers that are mapped to paths. Of the keys that fit a specifier the one that is equal to it is
tried first, and then those with a star, the more specific ones before the others; of the paths that
they stand for the first one with a file is taken.
-/

namespace TypeOnly

set_option autoImplicit false

/-! ### The order of keys -/

theorem not_append_lt (s t : String) : ¬ s ++ t < s := by
  change ¬ (s ++ t).toList < s.toList
  rw [String.toList_append]
  exact List.not_lt.mpr (List.IsPrefix.le (List.prefix_append _ _))

namespace Wildcard

theorem breakAt_plain {pattern : String} (h : hasStar pattern = false) :
    Text.breakAt '*' pattern.toList = none := by
  cases hbreak : Text.breakAt '*' pattern.toList with
  | none => rfl
  | some parts =>
    obtain ⟨hpattern, _⟩ := Text.breakAt_eq_some_iff.mp hbreak
    rw [hasStar, hpattern] at h
    simp at h

theorem weight_plain {pattern : String} (h : hasStar pattern = false) :
    weight pattern = pattern.utf8ByteSize := by
  rw [weight, breakAt_plain h]

theorem capture?_plain {pattern name captured : String} (h : hasStar pattern = false) :
    capture? pattern name = some captured ↔ pattern = name ∧ captured = "" := by
  rw [capture?, breakAt_plain h]
  simp [eq_comm]

/-- A pattern without a star fits itself, one with a star all names that have something in its
place. -/
theorem capture?_iff {pattern name captured : String} : capture? pattern name = some captured ↔
    (hasStar pattern = false ∧ pattern = name ∧ captured = "") ∨
      ∃ before, Captures pattern name before captured := by
  cases hstar : hasStar pattern with
  | true => simp [capture?_eq_some_iff hstar]
  | false =>
    have hnone : ¬ ∃ before, Captures pattern name before captured := by
      rintro ⟨before, hcaptures⟩
      rw [hcaptures.hasStar] at hstar
      cases hstar
    rw [or_iff_left hnone, capture?_plain hstar]
    exact (and_iff_right rfl).symm

end Wildcard

namespace Resolver

open Program (goesBefore goesBefore_iff goesBefore_irrefl)
open Wildcard (capture? capture?_iff hasStar weight weight_plain Captures)

/-- Of entries in ascending order the more specific ones come first, and those that are as specific
stay in their order. -/
theorem sortedPaths_pairwise {paths : List (String × List String)}
    (h : paths.Pairwise fun a b => a.1 < b.1) :
    (sortedPaths paths).Pairwise fun a b => goesBefore a.1 b.1 = true := by
  have htrans (a b c : String × List String) (hab : decide (weight b.1 ≤ weight a.1) = true)
      (hbc : decide (weight c.1 ≤ weight b.1) = true) :
      decide (weight c.1 ≤ weight a.1) = true := by
    rw [decide_eq_true_eq] at hab hbc ⊢
    exact Nat.le_trans hbc hab
  have htotal (a b : String × List String) :
      (decide (weight b.1 ≤ weight a.1) || decide (weight a.1 ≤ weight b.1)) = true := by
    simpa using Nat.le_total (weight b.1) (weight a.1)
  have hsorted := List.pairwise_mergeSort htrans htotal paths
  have hnodup : (sortedPaths paths).Nodup := by
    rw [sortedPaths, (List.mergeSort_perm _ _).nodup_iff]
    apply h.imp
    rintro a _ hlt rfl
    exact String.lt_irrefl _ hlt
  rw [List.pairwise_iff_forall_sublist]
  intro a b hab
  have hle : weight b.1 ≤ weight a.1 :=
    of_decide_eq_true (List.pairwise_iff_forall_sublist.mp hsorted hab)
  rw [goesBefore_iff]
  rcases Nat.lt_or_eq_of_le hle with hlt | heq
  · exact Or.inl hlt
  · refine Or.inr ⟨heq.symm, ?_⟩
    by_contra hnot
    -- then the entries stood the other way round before, and sorting has left them so
    have ha : a ∈ paths := List.mem_mergeSort.mp (hab.mem (by simp))
    have hb : b ∈ paths := List.mem_mergeSort.mp (hab.mem (by simp))
    obtain ⟨front, back, rfl⟩ := List.append_of_mem hb
    rcases List.mem_append.mp ha with ha | ha
    · exact hnot ((List.pairwise_append.mp h).2.2 a ha b List.mem_cons_self)
    · have hne : a ≠ b := List.pairwise_iff_forall_sublist.mp hnodup hab
      have hback : a ∈ back := (List.mem_cons.mp ha).resolve_left hne
      have hba : [b, a].Sublist (front ++ b :: back) := by
        apply List.sublist_append_of_sublist_right
        exact List.Sublist.cons_cons b (List.singleton_sublist.mpr hback)
      exact hne (eq_of_sublists hnodup hab
        (List.pair_sublist_mergeSort htrans htotal (decide_eq_true heq.symm.le) hba))

/-- Of two keys for one specifier the later one has a star, and is less specific than the earlier
one if that has a star too. -/
theorem later_of_goesBefore {a b specifier x y : String} (h : goesBefore a b = true)
    (ha : capture? a specifier = some x) (hb : capture? b specifier = some y) :
    hasStar b = true ∧ weight b ≤ weight a := by
  have hle : weight b ≤ weight a := by
    rcases goesBefore_iff.mp h with hlt | ⟨heq, _⟩
    · exact hlt.le
    · exact heq.ge
  refine ⟨?_, hle⟩
  rcases capture?_iff.mp hb with ⟨hplain, rfl, _⟩ | ⟨_, hcaptures⟩
  · rcases capture?_iff.mp ha with ⟨_, rfl, _⟩ | ⟨before, hcaptures⟩
    · exact (goesBefore_irrefl a h).elim
    · have hweight := hcaptures.weight
      obtain ⟨after, rfl, _, rfl⟩ := hcaptures
      rw [goesBefore_iff, hweight, weight_plain hplain, String.utf8ByteSize_append,
        String.utf8ByteSize_append] at h
      -- a key is as specific as its name only if all of the name stands before the star
      rcases h with hlt | ⟨heq, hlt⟩
      · omega
      · obtain rfl : x = "" := String.utf8ByteSize_eq_zero_iff.mp (by omega)
        obtain rfl : after = "" := String.utf8ByteSize_eq_zero_iff.mp (by omega)
        rw [String.append_empty, String.append_empty, String.append_empty] at hlt
        exact (not_append_lt before "*" hlt).elim
  · exact hcaptures.hasStar

/-- The keys that fit a specifier and what they are mapped to, in the order in which they are
tried. -/
def fitting (r : Resolver) (specifier : String) : List (String × List String) :=
  r.paths.filter fun x => (capture? x.1 specifier).isSome

theorem mapped_eq (r : Resolver) (specifier : String) : r.mapped specifier =
    (r.pathsBase.map fun base => (r.fitting specifier).flatMap fun x => x.2.map fun target =>
      base.child (Text.replaceFirst '*' ((capture? x.1 specifier).getD "") target)).getD [] := by
  unfold mapped fitting
  cases r.pathsBase with
  | none => rfl
  | some base =>
    rw [Option.map_some, Option.getD_some]
    dsimp only
    induction r.paths with
    | nil => rfl
    | cons x rest ih =>
      rw [List.flatMap_cons, ih]
      cases hcapture : capture? x.1 specifier with
      | none => rw [List.filter_cons_of_neg (by simp [hcapture]), List.nil_append]
      | some captured =>
        rw [List.filter_cons_of_pos (by simp [hcapture]), List.flatMap_cons, hcapture]
        rfl

/-! ### The first answer -/

section First

variable {disk : Disk} {A : Path → Prop} {α : Type} {r : Resolver}

theorem firstOf_eq_findSome? {look : α → Search (Option Path)} {l : List α}
    (h : ∀ a ∈ l, Steady disk A (look a) (IsFound disk)) (huniform : Uniform disk A)
    {cache : PackageCache} (hcache : Kept disk A cache) :
    ((firstOf look l).run cache).1 = l.findSome? fun a => ((look a).run []).1 := by
  induction l generalizing cache with
  | nil => rfl
  | cons a rest ih =>
    have hlook := h a List.mem_cons_self
    have hkept := hlook.keeps cache hcache
    rw [List.findSome?_cons, ← hlook.same huniform cache [] hcache Kept.nil, firstOf,
      StateT.run_bind]
    generalize (look a).run cache = found at hkept
    obtain ⟨answer, cache'⟩ := found
    cases answer with
    | none => exact ih (fun b hb => h b (List.mem_cons_of_mem a hb)) hkept
    | some file => rfl

/-- What is found among the mapped paths is the answer. -/
theorem resolve_of_mapped {specifier : String} (hdots : startsWithDots specifier = false)
    (habsolute : Path.isAbsolute ⟨specifier⟩ = false) {cache : PackageCache} {file : Path}
    (h : ((firstOf (r.load disk) (r.mapped specifier)).run cache).1 = some file)
    (containing : Path) :
    ((r.resolve disk specifier containing).run cache).1 = some file.normalize := by
  unfold resolve
  dsimp only
  rw [if_neg (by simp [hdots, habsolute]), loadNamed, bind_assoc, StateT.run_bind]
  generalize (firstOf (r.load disk) (r.mapped specifier)).run cache = found at h
  obtain ⟨answer, cache'⟩ := found
  obtain rfl : answer = some file := h
  rfl

end First

theorem paths_ofOptions {o : Options} {fields : Dictionary Json}
    (h : o.get? "paths" = some (.object fields.entries)) : (ofOptions o).paths =
      sortedPaths (fields.entries.map fun e => (e.1, (Options.textsIn e.2).getD [])) := by
  unfold ofOptions
  rw [h]
  rfl

theorem mem_fitting {o : Options} {fields : Dictionary Json}
    (h : o.get? "paths" = some (.object fields.entries)) {specifier key : String}
    {targets : List String} : (key, targets) ∈ (ofOptions o).fitting specifier ↔
      (∃ captured, capture? key specifier = some captured) ∧
        ∃ value, fields.get? key = some value ∧ targets = (Options.textsIn value).getD [] := by
  rw [fitting, paths_ofOptions h, List.mem_filter, sortedPaths, List.mem_mergeSort, List.mem_map,
    Option.isSome_iff_exists, and_comm]
  apply and_congr_right
  intro _
  constructor
  · rintro ⟨⟨key', value⟩, hmem, heq⟩
    obtain ⟨rfl, rfl⟩ := Prod.mk.inj heq
    exact ⟨value, fields.mem_entries_iff.mp hmem, rfl⟩
  · rintro ⟨value, hget, rfl⟩
    exact ⟨(key, value), fields.mem_entries_iff.mpr hget, rfl⟩

theorem fitting_pairwise {o : Options} {fields : Dictionary Json}
    (h : o.get? "paths" = some (.object fields.entries)) (specifier : String) :
    ((ofOptions o).fitting specifier).Pairwise fun a b =>
      a.1 ≠ b.1 ∧ hasStar b.1 = true ∧ weight b.1 ≤ weight a.1 := by
  have hkeys : (fields.entries.map fun e => (e.1, (Options.textsIn e.2).getD [])).Pairwise
      fun a b => a.1 < b.1 := List.pairwise_map.mpr fields.ascending
  have hsorted := sortedPaths_pairwise hkeys
  rw [← paths_ofOptions h] at hsorted
  apply (hsorted.filter _).imp_of_mem
  intro a b ha hb hbefore
  obtain ⟨x, hx⟩ := Option.isSome_iff_exists.mp (List.mem_filter.mp ha).2
  obtain ⟨y, hy⟩ := Option.isSome_iff_exists.mp (List.mem_filter.mp hb).2
  refine ⟨?_, later_of_goesBefore hbefore hx hy⟩
  intro heq
  rw [heq] at hbefore
  exact goesBefore_irrefl b.1 hbefore

/-- The keys that fit a specifier are tried once each, a key that is equal to it and has no star
before all others, and keys with a star the more specific ones first; their paths are tried in the
order in which they are listed, each with its star replaced. Where packages read the same under all
spellings of their folders, the answer is the first of these paths that stands for a file, whatever
was looked for before. -/
theorem mapped_specific_first {o : Options} {fields : Dictionary Json}
    (hpaths : o.get? "paths" = some (.object fields.entries)) (specifier : String) :
    (∀ key targets, (key, targets) ∈ (ofOptions o).fitting specifier ↔
      (∃ captured, capture? key specifier = some captured) ∧
        ∃ value, fields.get? key = some value ∧ targets = (Options.textsIn value).getD []) ∧
    (∀ key captured, capture? key specifier = some captured ↔
      (hasStar key = false ∧ key = specifier ∧ captured = "") ∨
        ∃ before, Captures key specifier before captured) ∧
    ((ofOptions o).fitting specifier).Pairwise (fun a b =>
      a.1 ≠ b.1 ∧ hasStar b.1 = true ∧ weight b.1 ≤ weight a.1) ∧
    (ofOptions o).mapped specifier =
      ((ofOptions o).pathsBase.map fun base => ((ofOptions o).fitting specifier).flatMap fun x =>
        x.2.map fun target =>
          base.child (Text.replaceFirst '*' ((capture? x.1 specifier).getD "") target)).getD [] ∧
    ∀ disk A cache, (∀ p ∈ (ofOptions o).mapped specifier, A p) → Uniform disk A →
      Kept disk A cache →
        ((firstOf ((ofOptions o).load disk) ((ofOptions o).mapped specifier)).run cache).1 =
          ((ofOptions o).mapped specifier).findSome? (fun p =>
            (((ofOptions o).load disk p).run []).1) ∧
        ∀ file containing, startsWithDots specifier = false →
          Path.isAbsolute ⟨specifier⟩ = false →
          ((ofOptions o).mapped specifier).findSome? (fun p =>
            (((ofOptions o).load disk p).run []).1) = some file →
          (((ofOptions o).resolve disk specifier containing).run cache).1 =
            some file.normalize := by
  refine ⟨fun _ _ => mem_fitting hpaths, fun _ _ => capture?_iff,
    fitting_pairwise hpaths specifier, mapped_eq _ _, ?_⟩
  intro disk A cache hasked huniform hcache
  have hfirst := firstOf_eq_findSome? (fun p hp => steady_load (r := ofOptions o) (hasked p hp))
    huniform hcache
  refine ⟨hfirst, fun file containing hdots habsolute hfound => ?_⟩
  exact resolve_of_mapped hdots habsolute (hfirst.trans hfound) containing

/-! ### Three keys for one specifier -/

/-- There is one order only in which the more specific keys come first. -/
theorem sortedPaths_eq {paths sorted : List (String × List String)}
    (h : paths.Pairwise fun a b => a.1 < b.1) (hperm : sorted.Perm paths)
    (hsorted : sorted.Pairwise fun a b => goesBefore a.1 b.1 = true) :
    sortedPaths paths = sorted := by
  apply List.Perm.eq_of_pairwise ?_ (sortedPaths_pairwise h) hsorted
    ((List.mergeSort_perm _ _).trans hperm.symm)
  intro a b _ _ hab hba
  rw [goesBefore_iff] at hab hba
  rcases hab with hab | ⟨_, hab⟩
  · rcases hba with hba | ⟨heq, _⟩ <;> omega
  · rcases hba with hba | ⟨_, hba⟩
    · omega
    · exact (String.lt_asymm hab hba).elim

def starredPaths : Dictionary Json :=
  .ofList [("p*", .array [.string "y*"]), ("pkg", .array [.string "gone"]),
    ("pkg*", .array [.string "x*"])]

def starredOptions : Options :=
  .ofList [("baseUrl", .string "/"), ("paths", .object starredPaths.entries)]

def starredDisk : Disk := .ofTexts [("x.ts", ""), ("ykg.ts", "")]

theorem paths_starredOptions :
    starredOptions.get? "paths" = some (.object starredPaths.entries) := by
  simp [starredOptions, Dictionary.get?_ofList]

theorem mapped_starred :
    (ofOptions starredOptions).mapped "pkg" = [⟨"/gone"⟩, ⟨"/x"⟩, ⟨"/ykg"⟩] := by
  have hpaths : (ofOptions starredOptions).paths =
      [("pkg", ["gone"]), ("pkg*", ["x*"]), ("p*", ["y*"])] := by
    rw [paths_ofOptions paths_starredOptions]
    apply sortedPaths_eq
    all_goals decide
  unfold mapped
  rw [hpaths]
  decide

theorem mapped_specific_first_starred :
    (((ofOptions starredOptions).resolve starredDisk "pkg" ⟨"/a.ts"⟩).run []).1 =
      some ⟨"/x.ts"⟩ := by
  have hfacts : ([⟨"/gone"⟩, ⟨"/x"⟩, ⟨"/ykg"⟩].all fun p => decide (Short p)) = true ∧
      [⟨"/gone"⟩, ⟨"/x"⟩, ⟨"/ykg"⟩].findSome? (fun p =>
        (((ofOptions starredOptions).load starredDisk p).run []).1) = some ⟨"/x.ts"⟩ ∧
      Path.normalize ⟨"/x.ts"⟩ = ⟨"/x.ts"⟩ := by decide +kernel
  obtain ⟨_, _, _, _, hfirst⟩ := mapped_specific_first paths_starredOptions "pkg"
  rw [mapped_starred] at hfirst
  have huniform : Uniform starredDisk (· ∈ [⟨"/gone"⟩, ⟨"/x"⟩, ⟨"/ykg"⟩]) := by
    apply uniform_of_short
    intro p hp
    exact of_decide_eq_true (List.all_eq_true.mp hfacts.1 p hp)
  have hresolve :=
    (hfirst starredDisk _ [] (fun _ hp => hp) huniform Kept.nil).2 ⟨"/x.ts"⟩ ⟨"/a.ts"⟩
    (by decide) (by decide) hfacts.2.1
  rw [hfacts.2.2] at hresolve
  exact hresolve

/-! ### Two targets in one folder -/

open Program (packageDisk LongTop longTop_slashes)

/-- Options that map a name to a path from some folder, and then to one from the top folder. -/
def longPaths (base : Path) : Options :=
  .ofList [("paths", .object [("pkg", .array [.string "pkg", .string "/pkg"])]),
    ("pathsBasePath", .string base.text)]

theorem ofOptions_longPaths (base : Path) : ofOptions (longPaths base) =
    ⟨none, [("pkg", ["pkg", "/pkg"])], some base, false, none, none⟩ := by
  simp [ofOptions, longPaths, Options.string?, Options.strings?, Options.allowJs, Options.bool?,
    Options.textsIn, Dictionary.get?_ofList, lookup_cons_eq, Json.asString?, Json.asObject?,
    Json.asArray?, sortedPaths]

theorem mapped_longPaths (base : Path) :
    (ofOptions (longPaths base)).mapped "pkg" = [base.child "pkg", ⟨"/pkg"⟩] := by
  rw [ofOptions_longPaths]
  rfl

theorem resolve_longPaths {base : Path} (h : LongTop base) :
    (((ofOptions (longPaths base)).resolve packageDisk "pkg" ⟨"/a.ts"⟩).run []).1 = none := by
  have hnarrow : (ofOptions (longPaths base)).allowJs = false ∧
      (ofOptions (longPaths base)).baseUrl = none := by
    rw [ofOptions_longPaths]
    exact ⟨rfl, rfl⟩
  have hlong :=
    Program.load_name h (ofOptions (longPaths base)) (Or.inl rfl) (Program.packageIn_name h)
  have hshort := Program.load_place hnarrow.1 (Or.inl rfl) (Program.packageIn_place_later h)
  have hmapped : (firstOf ((ofOptions (longPaths base)).load packageDisk)
      ((ofOptions (longPaths base)).mapped "pkg")).run [] = (none, [(base.child "pkg", none)]) := by
    rw [mapped_longPaths, firstOf, StateT.run_bind, hlong]
    change (firstOf ((ofOptions (longPaths base)).load packageDisk) [⟨"/pkg"⟩]).run
      [(base.child "pkg", none)] = _
    rw [firstOf, StateT.run_bind, hshort]
    rfl
  rw [Program.resolve_nowhere (by decide) hmapped (by rw [hnarrow.2]; rfl)]

/-- A path that is too long stands for no file, and neither does the next one in the same folder,
which stands for one by itself. -/
theorem long_path_hides_target :
    (((ofOptions (longPaths (.slashes 4091))).resolve packageDisk "pkg" ⟨"/a.ts"⟩).run []).1 =
      none ∧
    (ofOptions (longPaths (.slashes 4091))).mapped "pkg" =
      [Path.child (.slashes 4091) "pkg", ⟨"/pkg"⟩] ∧
    (((ofOptions (longPaths (.slashes 4091))).load packageDisk ⟨"/pkg"⟩).run []).1 =
      some ⟨"/pkg/main.ts"⟩ := by
  refine ⟨resolve_longPaths longTop_slashes, mapped_longPaths _, ?_⟩
  rw [ofOptions_longPaths, Program.load_place rfl (Or.inr rfl) Program.packageIn_place]
  rfl

end Resolver

end TypeOnly
