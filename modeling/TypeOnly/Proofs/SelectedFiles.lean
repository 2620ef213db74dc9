import Mathlib.Data.List.DropRight
import TypeOnly.Proofs.ExtendedConfigs
import TypeOnly.Proofs.ListFacts

/-!
The files that a configuration selects: those that it lists, and those that it includes, leaves in
and has no better variant of.
-/

namespace TypeOnly

set_option autoImplicit false

namespace Config

open Glob (Pattern)

/-! ### Paths without repetitions -/

section Distinct

variable {l kept : List Path}

theorem distinctPaths_append (a b kept : List Path) :
    distinctPaths (a ++ b) kept = distinctPaths b (distinctPaths a kept) := by
  induction a generalizing kept with
  | nil => rfl
  | cons p a ih =>
    rw [List.cons_append, distinctPaths, distinctPaths, ih]

theorem distinctPaths_nodup (h : (kept.map Path.parts).Nodup) :
    ((distinctPaths l kept).map Path.parts).Nodup := by
  induction l generalizing kept with
  | nil => exact h
  | cons p rest ih =>
    rw [distinctPaths]
    apply ih
    split
    · exact h
    · rename_i hnew
      rw [List.map_append, List.map_singleton, ← List.concat_eq_append]
      apply List.Nodup.concat ?_ h
      intro hp
      obtain ⟨q, hq, hparts⟩ := List.mem_map.mp hp
      exact hnew (List.any_eq_true.mpr ⟨q, hq, Path.same_iff.mpr hparts.symm⟩)

/-- Among paths in normal form, first occurrences are kept. -/
theorem distinctPaths_eq (hl : ∀ p ∈ l, p.IsNormal) (hkept : ∀ p ∈ kept, p.IsNormal) :
    distinctPaths l kept = kept ++ (l.filter fun p => p ∉ kept).eraseDups := by
  induction l generalizing kept with
  | nil => rw [distinctPaths, List.filter_nil, List.eraseDups_nil, List.append_nil]
  | cons p rest ih =>
    have hrest := fun q hq => hl q (List.mem_cons_of_mem p hq)
    have hp := hl p List.mem_cons_self
    have hany : kept.any p.same = true ↔ p ∈ kept := by
      rw [List.any_eq_true]
      constructor
      · rintro ⟨q, hq, hsame⟩
        rwa [(hp.same_iff (hkept q hq)).mp hsame]
      · intro hmem
        exact ⟨p, hmem, (hp.same_iff hp).mpr rfl⟩
    rw [distinctPaths]
    by_cases hmem : p ∈ kept
    · rw [if_pos (hany.mpr hmem), ih hrest hkept, List.filter_cons_of_neg (by simp [hmem])]
    · -- what comes later is compared with the first occurrence too
      have hkept' : ∀ q ∈ kept ++ [p], q.IsNormal := by
        intro q hq
        rcases List.mem_append.mp hq with hq | hq
        · exact hkept q hq
        · exact List.mem_singleton.mp hq ▸ hp
      rw [if_neg (mt hany.mp hmem), ih hrest hkept', List.filter_cons_of_pos (by simp [hmem]),
        List.eraseDups_cons, List.filter_filter, List.append_assoc, List.singleton_append]
      congr 3
      apply List.filter_congr
      intro q _
      by_cases hq : q = p
      · simp [hq]
      · simp [hq, beq_false_of_ne hq]

theorem mem_distinctPaths (hl : ∀ p ∈ l, p.IsNormal) {p : Path} :
    p ∈ distinctPaths l [] ↔ p ∈ l := by
  rw [distinctPaths_eq hl (by simp), List.nil_append, List.mem_eraseDups]
  simp

theorem distinctPaths_starts (b kept : List Path) :
    ∃ rest, distinctPaths b kept = kept ++ rest := by
  induction b generalizing kept with
  | nil => exact ⟨[], by rw [distinctPaths, List.append_nil]⟩
  | cons p b ih =>
    rw [distinctPaths]
    split
    · exact ih kept
    · obtain ⟨rest, hrest⟩ := ih (kept ++ [p])
      exact ⟨p :: rest, by rw [hrest, List.append_assoc, List.singleton_append]⟩

end Distinct

/-! ### What a configuration asks for -/

/-- The files that are listed one by one. -/
def listedFiles (layer : Layer) : List Path :=
  (layer.files.map fun specs => specs.patterns.map fun f => specs.base.locate ⟨f⟩).getD []

/-- A spec of files to include, and the folder that it is seen from. -/
def AsksFor (layer : Layer) (folder base : Path) (spec : String) : Prop :=
  (∃ specs, layer.included = some specs ∧ base = specs.base ∧ spec ∈ specs.patterns) ∨
  (layer.included = none ∧ layer.files = none ∧ base = folder ∧ spec = "**/*")

/-- A spec of files to exclude. Without any, packages and what the compiler writes are excluded. -/
def LeavesOut (layer : Layer) (folder base : Path) (spec : String) : Prop :=
  (∃ specs, layer.excluded = some specs ∧ base = specs.base ∧ spec ∈ specs.patterns) ∨
  (layer.excluded = none ∧ base = folder ∧ (spec ∈ packageFolders ∨
    ∃ name ∈ ["outDir", "declarationDir"], layer.options.string? name = some spec))

theorem asksFor_iff {layer : Layer} {folder base : Path} {spec : String} :
    AsksFor layer folder base spec ↔
      ∃ specs, included layer folder = some specs ∧ base = specs.base ∧ spec ∈ specs.patterns := by
  unfold AsksFor included
  cases layer.included with
  | some specs => simp
  | none =>
    cases layer.files with
    | some files => simp
    | none => simp

theorem leavesOut_iff {layer : Layer} {folder base : Path} {spec : String} :
    LeavesOut layer folder base spec ↔
      base = (excluded layer folder).base ∧ spec ∈ (excluded layer folder).patterns := by
  unfold LeavesOut excluded
  cases layer.excluded with
  | some specs => simp
  | none => simp [List.mem_filterMap]

theorem not_isLeftOut_iff {layer : Layer} {folder p : Path} :
    isLeftOut ((excluded layer folder).patterns.filterMap
        (excludePattern? (excluded layer folder).base)) p = false ↔
      ∀ base spec pattern, LeavesOut layer folder base spec →
        excludePattern? base spec = some pattern →
        ∀ a ∈ p.ancestors, pattern.holds a.text = false := by
  unfold isLeftOut
  rw [List.any_eq_false]
  constructor
  · intro h base spec pattern hleaves hpattern a ha
    obtain ⟨rfl, hspec⟩ := leavesOut_iff.mp hleaves
    have hnone := h a ha
    rw [Bool.not_eq_true, List.any_eq_false] at hnone
    simpa using hnone pattern (List.mem_filterMap.mpr ⟨spec, hspec, hpattern⟩)
  · intro h a ha
    rw [Bool.not_eq_true, List.any_eq_false]
    intro pattern hpattern
    obtain ⟨spec, hspec, hpattern⟩ := List.mem_filterMap.mp hpattern
    rw [Bool.not_eq_true]
    exact h _ spec pattern (leavesOut_iff.mpr ⟨rfl, hspec⟩) hpattern a ha

/-! ### Specs -/

def lastText (p : Path) : String := (p.parts.getLast?.map Part.text).getD ""

/-- The last part of a spec has a wildcard or names a source file. Anything else is a folder. -/
def namesFiles (base : Path) (spec : String) (extensions : List String) : Bool :=
  isWild (lastText (base.locate ⟨spec⟩)) || Source.endsInOneOf (base.locate ⟨spec⟩) extensions

/-- The parts of a spec from the first wildcard on; a folder stands for all that is in it. -/
def wildcards (base : Path) (spec : String) (extensions : List String) : List String :=
  (splitSpec base spec).2 ++ if namesFiles base spec extensions then [] else ["**", "*"]

/-- A spec that names a source file below a wildcard. -/
def NamesBelowWildcard (base : Path) (spec : String) (extensions : List String) : Prop :=
  (splitSpec base spec).2 ≠ [] ∧ isWild (lastText (base.locate ⟨spec⟩)) = false ∧
    Source.endsInOneOf (base.locate ⟨spec⟩) extensions = true

section Specs

variable {disk : Disk} {base p : Path} {spec : String} {extensions : List String}

theorem splitSpec_plain (h : (splitSpec base spec).2 = []) :
    (splitSpec base spec).1 = base.locate ⟨spec⟩ ∧
      isWild (lastText (base.locate ⟨spec⟩)) = false := by
  have hnormal : (base.locate ⟨spec⟩).IsNormal := ⟨_, rfl⟩
  unfold splitSpec splitWild at h ⊢
  dsimp only at h ⊢
  rw [List.map_eq_nil_iff, List.dropWhile_eq_nil_iff] at h
  constructor
  · rw [List.takeWhile_eq_self_iff.mpr h, hnormal.ofParts_parts]
  · unfold lastText
    cases hlast : (base.locate ⟨spec⟩).parts.getLast? with
    | none => rfl
    | some part => simpa using h part (List.mem_of_getLast? hlast)

theorem splitSpec_last (h : (splitSpec base spec).2 ≠ []) :
    (splitSpec base spec).2.getLast? = some (lastText (base.locate ⟨spec⟩)) := by
  unfold splitSpec splitWild at h ⊢
  dsimp only at h ⊢
  rw [ne_eq, List.map_eq_nil_iff] at h
  have hlast := getLast?_dropWhile h
  rw [List.getLast?_eq_some_getLast h] at hlast
  rw [lastText, List.getLast?_map, List.getLast?_eq_some_getLast h, ← hlast, Option.map_some,
    Option.getD_some]

theorem splitInclude_eq (h : ¬ NamesBelowWildcard base spec extensions) :
    splitInclude base spec extensions =
      ((splitSpec base spec).1, wildcards base spec extensions) := by
  unfold splitInclude wildcards namesFiles
  by_cases hwild : (splitSpec base spec).2 = []
  · obtain ⟨hplain, hlast⟩ := splitSpec_plain hwild
    simp only [hwild, hlast, hplain, List.getLast?_nil, Bool.false_or, List.nil_append]
  · have hfile : isWild (lastText (base.locate ⟨spec⟩)) = false →
        Source.endsInOneOf (base.locate ⟨spec⟩) extensions = false := by
      intro hlast
      rw [← Bool.not_eq_true]
      exact fun hends => h ⟨hwild, hlast, hends⟩
    simp only [splitSpec_last hwild]
    cases hlast : isWild (lastText (base.locate ⟨spec⟩)) with
    | true => simp
    | false => simp [hfile hlast]

theorem not_inPackages_iff {plain : Path} : inPackages plain p = false ↔
    ∀ below, p.parts = plain.parts ++ below → ∀ part ∈ below, part.text ∉ packageFolders := by
  unfold inPackages Path.below?
  constructor
  · intro h below hbelow part hpart hpackage
    rw [hbelow, if_pos (by simp), List.drop_left, Option.any_some, List.any_eq_false] at h
    exact h part hpart (by simpa using hpackage)
  · intro h
    split
    · rename_i hstart
      obtain ⟨below, hbelow⟩ := List.isPrefixOf_iff_prefix.mp hstart
      rw [← hbelow, List.drop_left, Option.any_some, List.any_eq_false]
      intro part hpart
      simpa using h below hbelow.symm part hpart
    · rfl

end Specs

/-- A pattern is expanded to all that is there and matches it. -/
def GlobExact (disk : Disk) (text : String) : Prop :=
  ∀ p, p ∈ Glob.expand disk text ↔ p.IsNormal ∧ disk.exists? p = true ∧
    ∃ pattern, Pattern.parse? text = some pattern ∧ pattern.holds p.text = true

/-- A spec stands for a path, without leading into packages. -/
def Selects (base : Path) (spec : String) (extensions : List String) (p : Path) : Prop :=
  (wildcards base spec extensions = [] ∧ p = (splitSpec base spec).1) ∨
  (wildcards base spec extensions ≠ [] ∧ p.IsNormal ∧
    (∃ pattern,
      Pattern.parse? (patternText (splitSpec base spec).1 (wildcards base spec extensions)) =
        some pattern ∧ pattern.holds p.text = true) ∧
    ∀ below, p.parts = (splitSpec base spec).1.parts ++ below →
      ∀ part ∈ below, part.text ∉ packageFolders)

section Files

variable {disk : Disk} {base p : Path} {spec : String} {extensions : List String}
variable {patterns : List Pattern}

theorem exists_of_isFile (h : disk.isFile p = true) : disk.exists? p = true := by
  unfold Disk.isFile at h
  unfold Disk.exists?
  cases hentry : disk.entry? p with
  | none => simp [hentry] at h
  | some e => rfl

theorem wildcards_eq_nil (h : wildcards base spec extensions = []) :
    (splitSpec base spec).1 = base.locate ⟨spec⟩ ∧
      Source.endsInOneOf (splitSpec base spec).1 extensions = true := by
  obtain ⟨hwild, hfiles⟩ := List.append_eq_nil_iff.mp h
  obtain ⟨hplain, hlast⟩ := splitSpec_plain hwild
  have hnames : namesFiles base spec extensions = true := by
    cases hnames : namesFiles base spec extensions with
    | true => rfl
    | false => simp [hnames] at hfiles
  refine ⟨hplain, ?_⟩
  rw [hplain]
  simpa [namesFiles, hlast] using hnames

theorem mem_filesOfSpec (hplain : ¬ NamesBelowWildcard base spec extensions)
    (hglob : wildcards base spec extensions ≠ [] →
      GlobExact disk (patternText (splitSpec base spec).1 (wildcards base spec extensions))) :
    p ∈ filesOfSpec disk base extensions patterns spec ↔
      disk.isFile p = true ∧ Source.endsInOneOf p extensions = true ∧
        Selects base spec extensions p ∧ isLeftOut patterns p = false := by
  unfold filesOfSpec
  rw [splitInclude_eq hplain]
  dsimp only
  unfold Selects
  -- without wildcards nothing is looked up by pattern, and the name alone says that it is a source
  -- file
  by_cases hwild : wildcards base spec extensions = []
  · obtain ⟨_, hends⟩ := wildcards_eq_nil hwild
    rw [hwild, List.isEmpty_nil, if_pos rfl]
    constructor
    · intro h
      split at h
      · rename_i hkept
        have hp := List.mem_singleton.mp h
        rw [Bool.and_eq_true, Bool.not_eq_true', ← hp] at hkept
        exact ⟨hkept.1, hp ▸ hends, Or.inl ⟨rfl, hp⟩, hkept.2⟩
      · cases h
    · rintro ⟨hfile, _, hselects, hkept⟩
      rcases hselects with ⟨_, hp⟩ | ⟨hne, _⟩
      · rw [← hp, if_pos (by simp [hfile, hkept])]
        exact List.mem_singleton_self p
      · exact False.elim (hne rfl)
  · rw [if_neg (by simpa using hwild), List.mem_mergeSort, List.mem_filter, hglob hwild p]
    simp only [Bool.and_eq_true, Bool.not_eq_true', not_inPackages_iff]
    constructor
    · rintro ⟨⟨hnormal, _, hmatches⟩, ⟨⟨hfile, hends⟩, hpackages⟩, hkept⟩
      exact ⟨hfile, hends, Or.inr ⟨hwild, hnormal, hmatches, hpackages⟩, hkept⟩
    · rintro ⟨hfile, hends, hselects, hkept⟩
      rcases hselects with ⟨hnil, _⟩ | ⟨_, hnormal, hmatches, hpackages⟩
      · exact False.elim (hwild hnil)
      · exact ⟨⟨hnormal, exists_of_isFile hfile, hmatches⟩, ⟨⟨hfile, hends⟩, hpackages⟩, hkept⟩

/-! ### Variants -/

/-- Whether a file is taken instead of another one. -/
def Variant.beats (a b : Variant) : Bool :=
  a.folder = b.folder && a.stem = b.stem && a.family = b.family && a.rank < b.rank

theorem Variant.beats_iff {v w : Variant} :
    w.beats v = true ↔ w.group = v.group ∧ w.rank < v.rank := by
  simp [beats, group, and_assoc]

theorem lookup_noteRank (v : Variant) (best : List (Variant.Group × Nat)) (g : Variant.Group) :
    (noteRank v best).lookup g =
      if g = v.group then some ((best.lookup g).elim v.rank (min · v.rank)) else best.lookup g := by
  induction best with
  | nil =>
    by_cases hg : g = v.group
    · simp [noteRank, hg]
    · simp [noteRank, hg, List.lookup_cons, beq_false_of_ne hg]
  | cons e rest ih =>
    obtain ⟨k, r⟩ := e
    by_cases hk : k = v.group
    · rw [noteRank, if_pos hk]
      by_cases hg : g = v.group
      · simp [hk, hg]
      · simp [hk, hg, List.lookup_cons, beq_false_of_ne hg]
    · rw [noteRank, if_neg hk, List.lookup_cons, List.lookup_cons, ih]
      by_cases hg : g = k
      · simp [hg, hk]
      · simp [beq_false_of_ne hg]

/-- What is kept for a group is the least of what was kept and of the ranks that are noted. -/
theorem lookup_foldl_noteRank {vs : List Variant} {best : List (Variant.Group × Nat)}
    {g : Variant.Group} {r : Nat} :
    (vs.foldl (fun best v => noteRank v best) best).lookup g = some r ↔
      (best.lookup g = some r ∨ ∃ v ∈ vs, v.group = g ∧ v.rank = r) ∧
      (∀ r', best.lookup g = some r' → r ≤ r') ∧ ∀ v ∈ vs, v.group = g → r ≤ v.rank := by
  induction vs generalizing best with
  | nil =>
    constructor
    · intro h
      exact ⟨Or.inl h, fun r' h' => Nat.le_of_eq (Option.some.inj (h.symm.trans h')), by simp⟩
    · rintro ⟨h | ⟨v, hv, _⟩, _⟩
      · exact h
      · cases hv
  | cons v vs ih =>
    rw [List.foldl_cons, ih, lookup_noteRank]
    by_cases hg : g = v.group
    · subst hg
      simp only [if_true, Option.some.injEq, List.mem_cons, forall_eq_or_imp, forall_eq',
        exists_eq_or_imp, true_and, forall_true_left]
      cases best.lookup v.group with
      | none => simp
      | some old =>
        simp only [Option.elim_some, Option.some.injEq, forall_eq']
        constructor
        · rintro ⟨hmin | hlater, hle, hall⟩
          · refine ⟨?_, by omega, by omega, hall⟩
            omega
          · exact ⟨Or.inr (Or.inr hlater), by omega, by omega, hall⟩
        · rintro ⟨hold | hrank | hlater, hle, hle', hall⟩
          · exact ⟨Or.inl (by omega), by omega, hall⟩
          · exact ⟨Or.inl (by omega), by omega, hall⟩
          · exact ⟨Or.inr hlater, by omega, hall⟩
    · simp [hg, Ne.symm hg]

theorem lookup_bestRanks {files : List Path} {v : Variant} :
    (bestRanks files).lookup v.group = some v.rank ↔
      (∃ q ∈ files, ∃ w, Variant.ofPath? q = some w ∧ w.group = v.group ∧ w.rank = v.rank) ∧
      ∀ q ∈ files, ∀ w, Variant.ofPath? q = some w → w.beats v = false := by
  rw [bestRanks, lookup_foldl_noteRank]
  simp only [List.lookup_nil, reduceCtorEq, false_or, IsEmpty.forall_iff, implies_true, true_and,
    List.mem_filterMap, forall_exists_index, and_imp]
  apply and_congr
  · constructor
    · rintro ⟨w, ⟨q, hq, hw⟩, hsame⟩
      exact ⟨q, hq, w, hw, hsame⟩
    · rintro ⟨q, hq, w, hw, hsame⟩
      exact ⟨w, ⟨q, hq, hw⟩, hsame⟩
  · constructor
    · intro h q hq w hw
      rw [← Bool.not_eq_true, Variant.beats_iff]
      rintro ⟨hsame, hlt⟩
      have hle := h w q hq hw hsame
      omega
    · intro h w q hq hw hsame
      have hnot := h q hq w hw
      rw [← Bool.not_eq_true, Variant.beats_iff] at hnot
      exact Nat.le_of_not_lt fun hlt => hnot ⟨hsame, hlt⟩

/-- A file is kept if no file of the list is taken instead of it. -/
theorem mem_preferred {files : List Path} : p ∈ preferred files ↔
    p ∈ files ∧ ∀ v, Variant.ofPath? p = some v → ∀ q ∈ files, ∀ w, Variant.ofPath? q = some w →
      w.beats v = false := by
  unfold preferred
  dsimp only
  rw [List.mem_filter]
  apply and_congr_right
  intro hp
  cases hv : Variant.ofPath? p with
  | none => simp
  | some v =>
    simp only [beq_iff_eq, lookup_bestRanks]
    constructor
    · rintro ⟨_, hbest⟩ v' hv'
      obtain rfl := Option.some.inj hv'
      exact hbest
    · intro hbest
      exact ⟨⟨p, hp, v, hv, rfl, rfl⟩, hbest v rfl⟩

end Files

/-! ### Selected files -/

/-- A source file that is included and not excluded. -/
structure Passes (disk : Disk) (layer : Layer) (folder p : Path) : Prop where
  isFile : disk.isFile p = true
  isSource : Source.endsInOneOf p (Source.sourceExtensions layer.options.allowJs) = true
  asked : ∃ base spec, AsksFor layer folder base spec ∧
    Selects base spec (Source.sourceExtensions layer.options.allowJs) p
  leftIn : ∀ base spec pattern, LeavesOut layer folder base spec →
    excludePattern? base spec = some pattern → ∀ a ∈ p.ancestors, pattern.holds a.text = false

/-- A file is taken instead of another one. -/
def Shadows (q p : Path) : Prop :=
  ∃ v w, Variant.ofPath? p = some v ∧ Variant.ofPath? q = some w ∧ w.beats v = true

/-- What is included and not excluded, whatever its variants. -/
def foundFiles (disk : Disk) (layer : Layer) (folder : Path) : List Path :=
  ((included layer folder).map fun specs =>
    specs.patterns.flatMap (filesOfSpec disk specs.base
      (Source.sourceExtensions layer.options.allowJs)
      ((excluded layer folder).patterns.filterMap
        (excludePattern? (excluded layer folder).base)))).getD []

theorem selectedFiles_eq (disk : Disk) (layer : Layer) (folder : Path) :
    selectedFiles disk layer folder =
      distinctPaths (listedFiles layer ++ preferred (foundFiles disk layer folder)) [] := by
  unfold selectedFiles listedFiles foundFiles
  dsimp only
  cases layer.files with
  | none =>
    cases included layer folder with
    | none => rfl
    | some specs => rfl
  | some files =>
    cases included layer folder with
    | none => rfl
    | some specs => rfl

section Selection

variable {disk : Disk} {layer : Layer} {folder p : Path}

theorem listedFiles_isNormal : ∀ p ∈ listedFiles layer, p.IsNormal := by
  intro p hp
  unfold listedFiles at hp
  cases hfiles : layer.files with
  | none =>
    rw [hfiles] at hp
    cases hp
  | some specs =>
    rw [hfiles] at hp
    obtain ⟨f, _, rfl⟩ := List.mem_map.mp hp
    exact ⟨_, rfl⟩

variable (hplain : ∀ base spec, AsksFor layer folder base spec →
  ¬ NamesBelowWildcard base spec (Source.sourceExtensions layer.options.allowJs))
variable (hglob : ∀ base spec, AsksFor layer folder base spec →
  wildcards base spec (Source.sourceExtensions layer.options.allowJs) ≠ [] →
    GlobExact disk (patternText (splitSpec base spec).1
      (wildcards base spec (Source.sourceExtensions layer.options.allowJs))))
include hplain hglob

theorem mem_foundFiles : p ∈ foundFiles disk layer folder ↔ Passes disk layer folder p := by
  have hmem : p ∈ foundFiles disk layer folder ↔
      ∃ base spec, AsksFor layer folder base spec ∧
        p ∈ filesOfSpec disk base (Source.sourceExtensions layer.options.allowJs)
          ((excluded layer folder).patterns.filterMap
            (excludePattern? (excluded layer folder).base)) spec := by
    simp only [asksFor_iff, foundFiles]
    cases included layer folder with
    | none => simp
    | some specs => simp [List.mem_flatMap]
  rw [hmem]
  constructor
  · rintro ⟨base, spec, hasks, hp⟩
    obtain ⟨hfile, hends, hselects, hkept⟩ :=
      (mem_filesOfSpec (hplain base spec hasks) (hglob base spec hasks)).mp hp
    exact ⟨hfile, hends, ⟨base, spec, hasks, hselects⟩, not_isLeftOut_iff.mp hkept⟩
  · rintro ⟨hfile, hends, ⟨base, spec, hasks, hselects⟩, hkept⟩
    refine ⟨base, spec, hasks, ?_⟩
    apply (mem_filesOfSpec (hplain base spec hasks) (hglob base spec hasks)).mpr
    exact ⟨hfile, hends, hselects, not_isLeftOut_iff.mpr hkept⟩

theorem mem_preferred_found : p ∈ preferred (foundFiles disk layer folder) ↔
    Passes disk layer folder p ∧ ∀ q, Passes disk layer folder q → ¬ Shadows q p := by
  rw [mem_preferred, mem_foundFiles hplain hglob]
  apply and_congr_right
  intro _
  constructor
  · rintro h q hq ⟨v, w, hv, hw, hbeats⟩
    rw [h v hv q ((mem_foundFiles hplain hglob).mpr hq) w hw] at hbeats
    cases hbeats
  · intro h v hv q hq w hw
    rw [← Bool.not_eq_true]
    exact fun hbeats => h q ((mem_foundFiles hplain hglob).mp hq) ⟨v, w, hv, hw, hbeats⟩

omit hplain hglob in
theorem Selects.isNormal {base : Path} {spec : String} {extensions : List String}
    (h : Selects base spec extensions p) : p.IsNormal := by
  rcases h with ⟨hwild, hp⟩ | ⟨_, hnormal, _⟩
  · rw [hp, (wildcards_eq_nil hwild).1]
    exact ⟨_, rfl⟩
  · exact hnormal

/-- As long as no source file is named below a wildcard, and patterns are expanded to what is there
and matches them, a configuration selects the files that it lists, in their order, and then exactly
the source files that it includes and does not exclude and of which there is no better variant. A
configuration that selects none is not accepted. -/
theorem selected_exactly :
    (selectedFiles disk layer folder).Nodup ∧
    (∃ rest, selectedFiles disk layer folder = (listedFiles layer).eraseDups ++ rest) ∧
    (∀ p, p ∉ listedFiles layer → (p ∈ selectedFiles disk layer folder ↔
      Passes disk layer folder p ∧ ∀ q, Passes disk layer folder q → ¬ Shadows q p)) ∧
    (selectedFiles disk layer folder = [] → ∀ cwd path c, Starts disk cwd path c →
      (layerFrom disk c).1 = layer → c.folder = folder → ∃ problems : List Problem,
        emptyProblem layer c.path ∈ problems ∧ resolve disk cwd path = .error (.configInvalid
          (Diagnostic.renderAll cwd (problems.map Diagnostic.global)))) := by
  have hnormal :
      ∀ p ∈ listedFiles layer ++ preferred (foundFiles disk layer folder), p.IsNormal := by
    intro p hp
    rcases List.mem_append.mp hp with hp | hp
    · exact listedFiles_isNormal p hp
    · obtain ⟨_, _, _, hselects⟩ := ((mem_preferred_found hplain hglob).mp hp).1.asked
      exact hselects.isNormal
  refine ⟨?_, ?_, ?_, ?_⟩
  · rw [selectedFiles_eq]
    exact List.Nodup.of_map Path.parts (distinctPaths_nodup List.nodup_nil)
  · rw [selectedFiles_eq, distinctPaths_append, distinctPaths_eq listedFiles_isNormal (by simp)]
    obtain ⟨rest, hrest⟩ := distinctPaths_starts (preferred (foundFiles disk layer folder))
      (listedFiles layer).eraseDups
    exact ⟨rest, by simpa using hrest⟩
  · intro p hp
    rw [selectedFiles_eq, mem_distinctPaths hnormal, List.mem_append,
      mem_preferred_found hplain hglob]
    exact ⟨fun h => h.resolve_left hp, Or.inr⟩
  · rintro hnone cwd path c hstarts rfl rfl
    apply hstarts.resolve_error
    rw [problems_fromValue, hnone, List.isEmpty_nil, if_pos rfl]
    exact List.mem_append_right _ (List.mem_singleton_self _)

end Selection

/-! ### A folder that is included, and a file below a wildcard -/

/-- Whether a pattern is expanded so can be checked place by place. -/
theorem globExact_of_places {disk : Disk} {text : String}
    (hexpand : ∀ p ∈ Glob.expand disk text, p = p.normalize ∧ disk.exists? p = true ∧
      ((Pattern.parse? text).any fun pattern => pattern.holds p.text) = true)
    (hplaces : ∀ loc ∈ [] :: disk.entries.map Prod.fst, ∀ above : Bool,
      ((Pattern.parse? text).any fun pattern =>
        pattern.holds (Path.ofParts (Path.way above loc)).text) = true →
      Path.ofParts (Path.way above loc) ∈ Glob.expand disk text) : GlobExact disk text := by
  intro p
  rw [← Option.any_eq_true]
  constructor
  · intro hp
    obtain ⟨hnormal, hthere, hmatches⟩ := hexpand p hp
    exact ⟨⟨p, hnormal⟩, hthere, hmatches⟩
  · rintro ⟨hnormal, hthere, hmatches⟩
    obtain ⟨e, he⟩ := Option.isSome_iff_exists.mp hthere
    unfold Disk.entry? at he
    split at he
    · rename_i loc hfind
      obtain ⟨above, hway⟩ := hnormal.way_of_find hfind
      rw [← hnormal.ofParts_parts, hway] at hmatches ⊢
      apply hplaces loc ?_ above hmatches
      by_cases hloc : loc = []
      · rw [hloc]
        exact List.mem_cons_self
      · rw [Disk.get?_of_ne_nil hloc] at he
        obtain ⟨before, after, hentries, _⟩ := List.lookup_eq_some_iff.mp he
        exact List.mem_cons_of_mem _ (by simp [hentries])
    · cases he

/-- A folder with a file and its declarations. -/
def sourcesDisk : Disk := ⟨[(["src"], .folder), (["src", "a.ts"], .file "".toUTF8),
  (["src", "a.d.ts"], .file "".toUTF8)]⟩

/-- A configuration that only includes the files of one spec. -/
def includeLayer (spec : String) : Layer := ⟨∅, none, some ⟨[spec], ⟨"/"⟩⟩, none⟩

theorem asksFor_includeLayer {text spec : String} {base : Path} :
    AsksFor (includeLayer text) ⟨"/"⟩ base spec ↔ base = ⟨"/"⟩ ∧ spec = text := by
  simp [AsksFor, includeLayer]

theorem passes_includeLayer {disk : Disk} {text : String} {p : Path}
    (hfile : disk.isFile p = true)
    (hsource : Source.endsInOneOf p (Source.sourceExtensions false) = true)
    (hwild : wildcards ⟨"/"⟩ text (Source.sourceExtensions false) ≠ []) (hnormal : p = p.normalize)
    (hmatches : ((Pattern.parse? (patternText (splitSpec ⟨"/"⟩ text).1
      (wildcards ⟨"/"⟩ text (Source.sourceExtensions false)))).any fun pattern =>
        pattern.holds p.text) = true)
    (hpackages : inPackages (splitSpec ⟨"/"⟩ text).1 p = false)
    (hleftIn : isLeftOut (packageFolders.filterMap (excludePattern? ⟨"/"⟩)) p = false) :
    Passes disk (includeLayer text) ⟨"/"⟩ p := by
  refine ⟨hfile, hsource, ⟨⟨"/"⟩, text, asksFor_includeLayer.mpr ⟨rfl, rfl⟩, Or.inr ?_⟩, ?_⟩
  · rw [Option.any_eq_true] at hmatches
    exact ⟨hwild, ⟨p, hnormal⟩, hmatches, not_inPackages_iff.mp hpackages⟩
  · apply not_isLeftOut_iff.mp
    exact hleftIn

theorem not_shadows_of_rank {p : Path} (h : (Variant.ofPath? p).map Variant.rank = some 0)
    (q : Path) :
    ¬ Shadows q p := by
  rintro ⟨v, w, hv, _, hbeats⟩
  rw [hv] at h
  have hrank : v.rank = 0 := Option.some.inj h
  simp [Variant.beats, hrank] at hbeats

theorem selected_exactly_sources :
    ⟨"/src/a.ts"⟩ ∈ selectedFiles sourcesDisk (includeLayer "src") ⟨"/"⟩ := by
  have htext : patternText (splitSpec ⟨"/"⟩ "src").1
      (wildcards ⟨"/"⟩ "src" (Source.sourceExtensions false)) = "/src/**/*" := by
    decide +kernel
  have hpasses : Passes sourcesDisk (includeLayer "src") ⟨"/"⟩ ⟨"/src/a.ts"⟩ := by
    apply passes_includeLayer
    all_goals decide +kernel
  have hglob : GlobExact sourcesDisk "/src/**/*" := by
    apply globExact_of_places
    all_goals decide +kernel
  refine ((@selected_exactly sourcesDisk (includeLayer "src") ⟨"/"⟩ ?_ ?_).2.2.1 ⟨"/src/a.ts"⟩
    List.not_mem_nil).mpr ⟨hpasses, fun q _ => not_shadows_of_rank (by decide +kernel) q⟩
  · intro base spec hasks hbelow
    obtain ⟨rfl, rfl⟩ := asksFor_includeLayer.mp hasks
    exact hbelow.1 (by decide +kernel)
  · intro base spec hasks _
    obtain ⟨rfl, rfl⟩ := asksFor_includeLayer.mp hasks
    exact htext ▸ hglob

/-- One file, in a folder of a folder. -/
def nestedDisk : Disk := ⟨[(["src"], .folder), (["src", "a"], .folder),
  (["src", "a", "index.ts"], .file "".toUTF8)]⟩

/-- The name below the wildcard is taken for a folder, and the file is passed over. -/
theorem below_wildcard_passed_over :
    Passes nestedDisk (includeLayer "src/*/index.ts") ⟨"/"⟩ ⟨"/src/a/index.ts"⟩ ∧
      (∀ q, ¬ Shadows q ⟨"/src/a/index.ts"⟩) ∧
      selectedFiles nestedDisk (includeLayer "src/*/index.ts") ⟨"/"⟩ = [] := by
  have hsplit : splitInclude ⟨"/"⟩ "src/*/index.ts" (Source.sourceExtensions false) =
      (⟨"/src"⟩, ["*", "index.ts", "**", "*"]) := by
    decide +kernel
  have hexpand :
      Glob.expand nestedDisk (patternText ⟨"/src"⟩ ["*", "index.ts", "**", "*"]) = [] := by
    decide +kernel
  have hnone (patterns : List Pattern) : filesOfSpec nestedDisk ⟨"/"⟩
      (Source.sourceExtensions false) patterns "src/*/index.ts" = [] := by
    unfold filesOfSpec
    rw [hsplit]
    simp [hexpand]
  refine ⟨?_, not_shadows_of_rank (by decide +kernel), ?_⟩
  · apply passes_includeLayer
    all_goals decide +kernel
  · rw [selectedFiles_eq]
    have hfound : foundFiles nestedDisk (includeLayer "src/*/index.ts") ⟨"/"⟩ = [] := by
      change List.flatMap _ ["src/*/index.ts"] = []
      rw [List.flatMap_singleton]
      exact hnone _
    rw [hfound]
    rfl

end Config

end TypeOnly
