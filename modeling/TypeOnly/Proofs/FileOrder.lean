import TypeOnly.Proofs.DeclaredModules
import TypeOnly.Proofs.DiagnosticSources
import TypeOnly.Proofs.ListFacts
import TypeOnly.Proofs.LoadClosure

/-!
Two programs with the same files in different order. If no module is declared by one name in two of
the files, each specifier means the same module in both, and so the same is told of every file. It
is told in the same order unless the names of two files differ only in the way of their slashes.
-/

namespace TypeOnly

set_option autoImplicit false

open Source (Scope Import Export Forward NamedModule)
open TypeOnly.Path (Slashed)

namespace Diagnostic

/-- Diagnostics that come before and after each other are the same one. -/
def Strict (ds : List Diagnostic) : Prop :=
  ∀ a ∈ ds, ∀ b ∈ ds, (le a b = true ∧ le b a = true ∨ same a b = true) → a = b

theorem dropAfter_nodup {last : Diagnostic} {ds : List Diagnostic} (hstrict : Strict (last :: ds))
    (hsorted : (last :: ds).Pairwise fun a b => le a b = true) :
    (last :: dropAfter last ds).Nodup := by
  induction ds generalizing last with
  | nil => exact List.nodup_singleton last
  | cons d ds ih =>
    obtain ⟨hlast, hds⟩ := List.pairwise_cons.mp hsorted
    have hsub : last :: ds ⊆ last :: d :: ds :=
      List.cons_subset_cons last (List.subset_cons_self d ds)
    unfold dropAfter
    split
    · apply ih
      · exact fun a ha b hb => hstrict a (hsub ha) b (hsub hb)
      · exact List.pairwise_cons.mpr ⟨fun b hb => hlast b (List.mem_cons_of_mem d hb),
          (List.pairwise_cons.mp hds).2⟩
    · rename_i hother
      have htail := ih (fun a ha b hb =>
        hstrict a (List.mem_cons_of_mem last ha) b (List.mem_cons_of_mem last hb)) hds
      refine List.nodup_cons.mpr ⟨?_, htail⟩
      intro hmem
      rcases List.mem_cons.mp hmem with rfl | hmem
      · exact hother (same_refl last)
      · -- what stands between two equal ones is equal to them
        have hafter := (dropAfter_sublist d ds).subset hmem
        have hd : last = d := hstrict last List.mem_cons_self d
          (List.mem_cons_of_mem last List.mem_cons_self)
          (Or.inl ⟨hlast d List.mem_cons_self, (List.pairwise_cons.mp hds).1 last hafter⟩)
        exact hother (hd ▸ same_refl last)

theorem mem_arrange {ds : List Diagnostic} (hstrict : Strict ds) {d : Diagnostic} :
    d ∈ arrange ds ↔ d ∈ ds := by
  refine ⟨mem_of_mem_arrange, ?_⟩
  intro hd
  obtain ⟨d', hd', hsame⟩ := exists_same_arrange hd
  rw [← hstrict d' (mem_of_mem_arrange hd') d hd (Or.inr hsame)]
  exact hd'

theorem arrange_nodup {ds : List Diagnostic} (hstrict : Strict ds) : (arrange ds).Nodup := by
  have hsorted := List.pairwise_mergeSort le_trans le_total ds
  have hstrict' : Strict (ds.mergeSort le) := fun a ha b hb =>
    hstrict a (List.mem_mergeSort.mp ha) b (List.mem_mergeSort.mp hb)
  unfold arrange
  cases hds : ds.mergeSort le with
  | nil => exact List.nodup_nil
  | cons d rest =>
    rw [hds] at hsorted hstrict'
    exact dropAfter_nodup hstrict' hsorted

theorem arrange_eq_of_mem {ds es : List Diagnostic} (hstrict : Strict ds)
    (h : ∀ d, d ∈ es ↔ d ∈ ds) : arrange es = arrange ds := by
  have hstrict' : Strict es := fun a ha b hb => hstrict a ((h a).mp ha) b ((h b).mp hb)
  have hperm : (arrange es).Perm (arrange ds) := by
    rw [List.perm_ext_iff_of_nodup (arrange_nodup hstrict') (arrange_nodup hstrict)]
    intro d
    rw [mem_arrange hstrict', mem_arrange hstrict, h]
  refine hperm.eq_of_pairwise ?_ (arrange_sorted es) (arrange_sorted ds)
  intro a b ha hb hab hba
  exact hstrict a ((mem_arrange hstrict).mp (hperm.subset ha)) b (mem_of_mem_arrange hb)
    (Or.inl ⟨hab, hba⟩)

end Diagnostic

namespace Program

/-! ### Files and modules -/

/-- No name of a module is declared in two files. -/
def DeclaredOnce (p : Program) : Prop :=
  ∀ x ∈ p.namedModules, ∀ y ∈ p.namedModules, x.2.name = y.2.name →
    x.1.path.parts = y.1.path.parts

theorem DeclaredOnce.of_none {p : Program} (h : p.namedModules.length = 0) : p.DeclaredOnce := by
  intro x hx
  rw [List.length_eq_zero_iff.mp h] at hx
  cases hx

/-- The modules that a file declares by name. -/
def namedModulesOf (f : ProgramMember) : List (ProgramMember × NamedModule) :=
  match f.outline with
  | some s => s.namedModules.map fun m => (f, m)
  | none => []

theorem namedModules_eq_flatMap (p : Program) :
    p.namedModules = p.files.flatMap namedModulesOf := rfl

theorem fst_of_mem_namedModulesOf {f : ProgramMember} {x : ProgramMember × NamedModule}
    (h : x ∈ namedModulesOf f) : x.1 = f := by
  unfold namedModulesOf at h
  split at h
  · obtain ⟨m, _, rfl⟩ := List.mem_map.mp h
    rfl
  · simp at h

variable {p p' : Program}

theorem find?_namedModules_eq (hp : DistinctPaths p.files) (honce : p.DeclaredOnce)
    (hfiles : ∀ f, f ∈ p'.files ↔ f ∈ p.files) (name : String) :
    p'.namedModules.find? (fun x => x.2.name = name) =
      p.namedModules.find? fun x => x.2.name = name := by
  rw [namedModules_eq_flatMap, namedModules_eq_flatMap, List.find?_flatMap, List.find?_flatMap]
  apply findSome?_eq_of_mem hfiles
  have hdeclared (f : ProgramMember) (hf : f ∈ p.files)
      (hsome : ((namedModulesOf f).find? fun x => x.2.name = name).isSome = true) :
      ∃ x ∈ p.namedModules, x.1 = f ∧ x.2.name = name := by
    obtain ⟨x, hx⟩ := Option.isSome_iff_exists.mp hsome
    have hmem := List.mem_of_find?_eq_some hx
    refine ⟨x, List.mem_flatMap.mpr ⟨f, hf, hmem⟩, fst_of_mem_namedModulesOf hmem, ?_⟩
    simpa using List.find?_some hx
  intro f hf g hg hfname hgname
  obtain ⟨x, hx, rfl, hxname⟩ := hdeclared f hf hfname
  obtain ⟨y, hy, rfl, hyname⟩ := hdeclared g hg hgname
  exact hp.eq_of_parts hf hg (honce x hx y hy (hxname.trans hyname.symm))

theorem goesBefore_total {a b : String} (h : a ≠ b) :
    goesBefore a b = true ∨ goesBefore b a = true := by
  rw [goesBefore_iff, goesBefore_iff]
  rcases Nat.lt_trichotomy (Wildcard.weight a) (Wildcard.weight b) with hlt | heq | hlt
  · exact Or.inr (Or.inl hlt)
  · by_cases hlt : a < b
    · exact Or.inl (Or.inr ⟨heq, hlt⟩)
    · have hgt : b < a := by
        by_contra hgt
        exact h (String.le_antisymm (String.not_lt.mp hgt) (String.not_lt.mp hlt))
      exact Or.inr (Or.inr ⟨heq.symm, hgt⟩)
  · exact Or.inl (Or.inl hlt)

theorem goesBefore_asymm {a b : String} (h : goesBefore a b = true) : ¬ goesBefore b a = true :=
  fun h' => goesBefore_irrefl a (goesBefore_trans h h')

theorem not_goesBefore_trans {a b c : String} (hab : ¬ goesBefore a b = true)
    (hbc : ¬ goesBefore b c = true) : ¬ goesBefore a c = true := by
  intro hac
  by_cases heq : a = b
  · exact hbc (heq ▸ hac)
  · rcases goesBefore_total heq with h | h
    · exact hab h
    · exact hbc (goesBefore_trans h hac)

/-- Nothing goes before what is kept of a list by comparing names in turn, whichever of two with the
same name is kept. -/
theorem foldl_unbeaten {α : Type} {name : α → String} {pick : α → α → α}
    (hpick : ∀ a b, (pick a b = a ∧ ¬ goesBefore (name b) (name a) = true) ∨
      (pick a b = b ∧ ¬ goesBefore (name a) (name b) = true)) (xs : List α) (best : α) :
    xs.foldl pick best ∈ best :: xs ∧
      ∀ x ∈ best :: xs, ¬ goesBefore (name x) (name (xs.foldl pick best)) = true := by
  induction xs generalizing best with
  | nil =>
    refine ⟨List.mem_singleton_self best, fun x hx => ?_⟩
    rw [List.mem_singleton.mp hx]
    exact goesBefore_irrefl _
  | cons y xs ih =>
    rw [List.foldl_cons]
    obtain ⟨hmem, hbest⟩ := ih (pick best y)
    have hpicked := hbest (pick best y) List.mem_cons_self
    rcases hpick best y with ⟨hkeep, hnot⟩ | ⟨hkeep, hnot⟩
    · rw [hkeep] at hmem hbest hpicked ⊢
      refine ⟨?_, fun x hx => ?_⟩
      · rcases List.mem_cons.mp hmem with h | h
        · exact List.mem_cons.mpr (Or.inl h)
        · exact List.mem_cons_of_mem best (List.mem_cons_of_mem y h)
      · rcases List.mem_cons.mp hx with rfl | hx
        · exact hpicked
        rcases List.mem_cons.mp hx with rfl | hx
        · exact not_goesBefore_trans hnot hpicked
        · exact hbest x (List.mem_cons_of_mem best hx)
    · rw [hkeep] at hmem hbest hpicked ⊢
      refine ⟨List.mem_cons_of_mem best hmem, fun x hx => ?_⟩
      rcases List.mem_cons.mp hx with rfl | hx
      · exact not_goesBefore_trans hnot hpicked
      · exact hbest x hx

/-- Nothing goes before the best module. -/
theorem foldl_betterModule_best (ms : List (ProgramMember × NamedModule))
    (best : ProgramMember × NamedModule) :
    ∀ x ∈ best :: ms, ¬ goesBefore x.2.name (ms.foldl betterModule best).2.name = true := by
  have hpick (a b : ProgramMember × NamedModule) :
      (betterModule a b = a ∧ ¬ goesBefore b.2.name a.2.name = true) ∨
        (betterModule a b = b ∧ ¬ goesBefore a.2.name b.2.name = true) := by
    by_cases h : goesBefore b.2.name a.2.name = true
    · exact Or.inr ⟨if_pos h, goesBefore_asymm h⟩
    · exact Or.inl ⟨if_neg h, h⟩
  exact (foldl_unbeaten hpick ms best).2

/-- Whether a declared module has a pattern for a specifier. -/
def hasPattern (specifier : String) (x : ProgramMember × NamedModule) : Bool :=
  Wildcard.hasStar x.2.name && (Wildcard.capture? x.2.name specifier).isSome

theorem namedModule?_of_pattern {specifier : String}
    (hexact : p.namedModules.find? (fun x => x.2.name = specifier) = none) :
    (p.namedModule? specifier = none ∧ ∀ x ∈ p.namedModules, hasPattern specifier x = false) ∨
    ∃ x ∈ p.namedModules, p.namedModule? specifier = some x ∧ hasPattern specifier x = true ∧
      ∀ y ∈ p.namedModules, hasPattern specifier y = true →
        ¬ goesBefore y.2.name x.2.name = true := by
  unfold namedModule?
  rw [hexact]
  dsimp only
  split
  · rename_i hnone
    refine Or.inl ⟨rfl, fun x hx => ?_⟩
    exact Bool.eq_false_iff.mpr (List.filter_eq_nil_iff.mp hnone x hx)
  · rename_i first rest hsome
    have hmem := List.mem_of_find?_eq_some (find?_foldl_betterModule rest first)
    rw [← hsome] at hmem
    refine Or.inr ⟨_, (List.mem_filter.mp hmem).1, rfl, (List.mem_filter.mp hmem).2, ?_⟩
    intro y hy hpattern
    apply foldl_betterModule_best
    rw [← hsome]
    exact List.mem_filter.mpr ⟨hy, hpattern⟩

theorem namedModule?_eq (hp : DistinctPaths p.files) (honce : p.DeclaredOnce)
    (hfiles : ∀ f, f ∈ p'.files ↔ f ∈ p.files) (specifier : String) :
    p'.namedModule? specifier = p.namedModule? specifier := by
  have hfind := find?_namedModules_eq hp honce hfiles
  have hmem (x : ProgramMember × NamedModule) : x ∈ p'.namedModules ↔ x ∈ p.namedModules := by
    rw [namedModules_eq_flatMap, namedModules_eq_flatMap, List.mem_flatMap, List.mem_flatMap]
    simp only [hfiles]
  cases hexact : p.namedModules.find? fun x => x.2.name = specifier with
  | some x =>
    have hexact' := (hfind specifier).trans hexact
    simp only [namedModule?, hexact, hexact']
  | none =>
    have hexact' := (hfind specifier).trans hexact
    rcases namedModule?_of_pattern hexact with ⟨hnone, hno⟩ | ⟨x, hx, hsome, hpattern, hbest⟩
    · rcases namedModule?_of_pattern hexact' with ⟨hnone', _⟩ | ⟨x', hx', _, hpattern', _⟩
      · rw [hnone, hnone']
      · rw [hno x' ((hmem x').mp hx')] at hpattern'
        cases hpattern'
    · rcases namedModule?_of_pattern hexact' with
        ⟨_, hno'⟩ | ⟨x', hx', hsome', hpattern', hbest'⟩
      · rw [hno' x ((hmem x).mpr hx)] at hpattern
        cases hpattern
      · -- neither of the two best patterns goes before the other, so they are one
        have hname : x'.2.name = x.2.name := by
          by_contra hne
          rcases goesBefore_total hne with hbefore | hbefore
          · exact hbest x' ((hmem x').mp hx') hpattern' hbefore
          · exact hbest' x ((hmem x).mpr hx) hpattern hbefore
        have hfirst := namedModule?_first hsome
        have hfirst' := namedModule?_first hsome'
        rw [hfind, hname, hfirst] at hfirst'
        rw [hsome, hsome', ← hfirst']

theorem file?_eq (hp : DistinctPaths p.files) (hp' : DistinctPaths p'.files)
    (hfiles : ∀ f, f ∈ p'.files ↔ f ∈ p.files) (path : Path) : p'.file? path = p.file? path := by
  cases hfile : p.file? path with
  | none =>
    apply List.find?_eq_none.mpr
    exact fun f hf => List.find?_eq_none.mp hfile f ((hfiles f).mp hf)
  | some f =>
    have hf := List.mem_of_find?_eq_some hfile
    exact (hp'.file?_eq_some ((hfiles f).mpr hf)).mpr ((hp.file?_eq_some hf).mp hfile)

theorem moduleFor?_eq (hp : DistinctPaths p.files) (hp' : DistinctPaths p'.files)
    (honce : p.DeclaredOnce) (hfiles : ∀ f, f ∈ p'.files ↔ f ∈ p.files) :
    p'.moduleFor? = p.moduleFor? := by
  have hfile : p'.file? = p.file? := funext (file?_eq hp hp' hfiles)
  funext m specifier
  rw [moduleFor?, moduleFor?, hfile, namedModule?_eq hp honce hfiles]

/-! ### Lookups -/

section Lookup

variable (h : p'.moduleFor? = p.moduleFor?) (g : ExportLookup) (m : ModuleView)

include h

theorem followImport_eq (b : Import) : p'.followImport g m b = p.followImport g m b := by
  unfold followImport
  rw [h]

theorem followRemote_eq (source name : String) :
    p'.followRemote g m source name = p.followRemote g m source name := by
  unfold followRemote
  rw [h]

theorem followLocal_eq (name : String) : p'.followLocal g m name = p.followLocal g m name := by
  unfold followLocal
  simp only [followImport_eq h]

theorem followEntry_eq (e : Export) : p'.followEntry g m e = p.followEntry g m e := by
  unfold followEntry
  simp only [followLocal_eq h, followRemote_eq h, h]

theorem followEntries_eq (es : List Export) (a : Answer) :
    p'.followEntries g m es a = p.followEntries g m es a := by
  induction es generalizing a with
  | nil => rfl
  | cons e es ih => simp only [followEntries, followEntry_eq h, ih]

theorem followStars_eq (name : String) (fs : List Forward) (a : Answer) :
    p'.followStars g m name fs a = p.followStars g m name fs a := by
  induction fs generalizing a with
  | nil => rfl
  | cons f fs ih => simp only [followStars, followRemote_eq h, ih]

theorem followExport_eq (steps : Nat) : p'.followExport steps = p.followExport steps := by
  induction steps with
  | zero => rfl
  | succ steps ih =>
    funext m name
    simp only [followExport, followOnce, followScope, followEntries_eq h, followStars_eq h, ih]

end Lookup

theorem lookupBound_eq (hperm : p'.files.Perm p.files) : p'.lookupBound = p.lookupBound := by
  have hmodules : p'.modules.Perm p.modules := by
    unfold modules
    apply (hperm.map _).append
    rw [namedModules_eq_flatMap, namedModules_eq_flatMap]
    exact (hperm.flatMap_right _).map _
  unfold lookupBound
  rw [hmodules.length_eq, (hmodules.map nameCount).foldr_eq]

theorem fileDiagnostics_eq (h : p'.moduleFor? = p.moduleFor?) (hperm : p'.files.Perm p.files)
    (verbatim : Bool) (f : ProgramMember) :
    p'.fileDiagnostics verbatim f = p.fileDiagnostics verbatim f := by
  have hexported : p'.exported = p.exported := by
    unfold exported
    rw [lookupBound_eq hperm, followExport_eq h]
  unfold fileDiagnostics scopeDiagnostics importProblem? exportProblem?
  simp only [hexported, followImport_eq h, followLocal_eq h, followRemote_eq h, h]

/-! ### What is told -/

/-- Where no two files have one path, only one diagnostic tells the same. -/
theorem eq_of_same {verbatim : Bool} (hp : DistinctPaths p.files) {a b : Diagnostic}
    (ha : a ∈ p.problems verbatim) (hb : b ∈ p.problems verbatim)
    (h : Diagnostic.same a b = true) : a = b := by
  obtain ⟨hpath, hspan, hcode, hmessage⟩ := Diagnostic.same_iff.mp h
  have hfile : a.file = b.file := by
    unfold Diagnostic.path? at hpath
    rcases file_of_mem_problems ha with hnone | ⟨f, hf, hsome⟩
    · rcases file_of_mem_problems hb with hnone' | ⟨g, hg, hsome'⟩
      · rw [hnone, hnone']
      · simp [hnone, hsome'] at hpath
    · rcases file_of_mem_problems hb with hnone' | ⟨g, hg, hsome'⟩
      · simp [hnone', hsome] at hpath
      · simp only [hsome, hsome', Option.map_some, Option.some.injEq] at hpath
        rw [hsome, hsome', hp.eq_of_parts hf hg hpath]
  cases a
  cases b
  simp_all

theorem problems_strict (hp : DistinctPaths p.files) (hslashed : ∀ f ∈ p.files, Slashed f.path)
    (verbatim : Bool) : Diagnostic.Strict (p.problems verbatim) := by
  intro a ha b hb hab
  rcases hab with ⟨hab, hba⟩ | hsame
  · obtain ⟨hslash, hrest⟩ := Diagnostic.tie_of_le hab hba
    -- paths that are written with slashes only are compared as they are
    have htext {d : Diagnostic} (hd : d ∈ p.problems verbatim) :
        d.path?.map Path.slashed = d.path?.map Path.text := by
      unfold Diagnostic.path?
      rcases file_of_mem_problems hd with hnone | ⟨f, hf, hsome⟩
      · rw [hnone]
        rfl
      · rw [hsome]
        exact congrArg some (Path.slashed_eq (hslashed f hf))
    have hpath : a.path? = b.path? := by
      rw [htext ha, htext hb] at hslash
      refine Option.map_injective ?_ hslash
      intro x y hxy
      cases x
      cases y
      exact congrArg Path.mk hxy
    exact eq_of_same hp ha hb (Diagnostic.same_iff.mpr ⟨by rw [hpath], hrest⟩)
  · exact eq_of_same hp ha hb hsame

/-- Programs with the same files and the same missing root files are told the same of. -/
theorem check_eq_of_files (hp : DistinctPaths p.files) (hp' : DistinctPaths p'.files)
    (hfiles : ∀ f, f ∈ p'.files ↔ f ∈ p.files)
    (habsent : ∀ q, q ∈ p'.absentRoots ↔ q ∈ p.absentRoots) (honce : p.DeclaredOnce)
    (hslashed : ∀ f ∈ p.files, Slashed f.path) (options : Options) :
    p'.check options = p.check options := by
  have hperm : p'.files.Perm p.files :=
    (List.perm_ext_iff_of_nodup hp'.of_map hp.of_map).mpr hfiles
  have hdiagnostics := fileDiagnostics_eq (moduleFor?_eq hp hp' honce hfiles) hperm options.verbatim
  rw [check_eq_arrange, check_eq_arrange]
  apply Diagnostic.arrange_eq_of_mem (problems_strict hp hslashed _)
  intro d
  simp only [problems, List.mem_append, List.mem_map, List.mem_flatMap, hfiles, habsent,
    hdiagnostics]

end Program

end TypeOnly
