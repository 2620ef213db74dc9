import TypeOnly.Proofs.Destination
import TypeOnly.Proofs.FileVariants
import TypeOnly.Proofs.RootOrder

/-!
Whether a file is a source is asked in three ways: by the endings of its name when files are
selected, by what follows the last point when they are loaded, and by what can be taken off the
name. The answers agree, except for names that are nothing but an extension: these are selected and
then passed over.
-/

namespace TypeOnly

set_option autoImplicit false

namespace Source

open Config (EndsIn families stem_cases)

/-! ### Kinds by extension -/

/-- Names that are nothing but an extension, other than one of declarations. -/
def bareNames (allowJs : Bool) : List String :=
  [".ts", ".tsx", ".mts", ".cts"] ++ if allowJs then javaScriptExtensions else []

/-- What a file with this extension is. -/
def extensionKind (e : String) : Kind :=
  if e ∈ declarationExtensions then .declaration
  else if e = ".tsx" then .tsx
  else if e = ".jsx" then .jsx
  else if e ∈ javaScriptExtensions then .javaScript
  else .typeScript

theorem mem_families_iff {e : String} :
    e ∈ families.flatten ↔ e ∈ declarationExtensions ∨ e ∈ bareNames true := by
  have h : families.flatten ⊆ declarationExtensions ++ bareNames true ∧
      declarationExtensions ++ bareNames true ⊆ families.flatten := by decide
  rw [← List.mem_append]
  exact ⟨fun he => h.1 he, fun he => h.2 he⟩

theorem length_declaration : ∀ e ∈ declarationExtensions, 4 < e.length := by decide

theorem length_bare : ∀ e ∈ bareNames true, 0 < e.length ∧ e.length ≤ 4 := by decide

variable {p : Path} {name e : String}

/-- The longest extension that a name ends in is one of declarations if any is. -/
theorem endsInOneOf_declaration (hname : p.fileName? = some name) (h : EndsIn name e) :
    endsInOneOf p declarationExtensions = true ↔ e ∈ declarationExtensions := by
  unfold endsInOneOf
  rw [hname, Option.any_some, List.any_eq_true]
  refine ⟨?_, fun he => ⟨e, he, h.2.1⟩⟩
  rintro ⟨other, hother, hends⟩
  have hlong := length_declaration other hother
  have hle := h.2.2 other (mem_families_iff.mpr (Or.inl hother)) hends
  rcases mem_families_iff.mp h.1 with he | he
  · exact he
  · have hshort := (length_bare e he).2
    omega

theorem not_endsIn (h : ∀ e ∈ families.flatten, Text.endsWith e name = false) :
    ¬ EndsIn name e := by
  intro hends
  have hfalse := hends.2.1
  rw [h e hends.1] at hfalse
  cases hfalse

theorem endsIn_bare (h : name ∈ bareNames true) : EndsIn name name := by
  have hself : ∀ n ∈ bareNames true, n ∈ families.flatten ∧ Text.endsWith n n = true ∧
      ∀ other ∈ families.flatten, Text.endsWith other n = true → other.length ≤ n.length := by
    decide
  exact hself name h

theorem kindOf?_bare (hname : p.fileName? = some name) (h : name ∈ bareNames true) :
    kindOf? p = none := by
  have hdeclaration : endsInOneOf p declarationExtensions = false := by
    rw [← Bool.not_eq_true, endsInOneOf_declaration hname (endsIn_bare h)]
    intro hlong
    have hlt := length_declaration name hlong
    have hle := (length_bare name h).2
    omega
  have hsuffix : p.suffix? = none := by
    have hbreak :
        ∀ n ∈ bareNames true, Text.breakAtLast '.' n.toList = some ([], n.toList.tail) := by
      decide
    unfold Path.suffix?
    rw [hname, Option.bind_some, hbreak name h]
  unfold kindOf?
  rw [hdeclaration, hsuffix]
  rfl

/-- The kind of a file whose name is more than an extension. -/
theorem kindOf?_of_endsIn (hname : p.fileName? = some name) (h : EndsIn name e)
    (hbare : name ∉ bareNames true) : kindOf? p = some (extensionKind e) := by
  by_cases he : e ∈ declarationExtensions
  · unfold kindOf? extensionKind
    rw [if_pos ((endsInOneOf_declaration hname h).mpr he), if_pos he]
  · have hplain := (mem_families_iff.mp h.1).resolve_left he
    have hpoint : ∀ n ∈ bareNames true, n.toList = '.' :: n.toList.tail ∧ '.' ∉ n.toList.tail := by
      decide
    obtain ⟨front, hfront⟩ := List.isSuffixOf_iff_suffix.mp h.2.1
    have hsuffix : p.suffix? = some (String.ofList e.toList.tail) := by
      rw [Path.suffix?_eq_some_iff hname, String.toList_ofList]
      refine ⟨front, ?_, ?_, (hpoint e hplain).2⟩
      · rintro rfl
        have hsame : e = name := String.toList_injective hfront
        exact hbare (hsame ▸ hplain)
      · rw [← (hpoint e hplain).1, hfront]
    unfold kindOf?
    rw [if_neg (by rwa [endsInOneOf_declaration hname h]), hsuffix]
    clear h he hpoint hfront hsuffix
    revert hplain
    revert e
    decide

theorem kindOf?_eq_none (hname : p.fileName? = some name)
    (h : ∀ e ∈ families.flatten, Text.endsWith e name = false) : kindOf? p = none := by
  have hdeclaration : endsInOneOf p declarationExtensions = false := by
    unfold endsInOneOf
    rw [hname, Option.any_some, List.any_eq_false]
    intro e he
    rw [h e (mem_families_iff.mpr (Or.inl he))]
    exact Bool.false_ne_true
  have hsuffix (s : String) (hs : p.suffix? = some s) : "." ++ s ∉ families.flatten := by
    obtain ⟨front, _, hfront, _⟩ := (Path.suffix?_eq_some_iff hname).mp hs
    intro hmem
    have hends : Text.endsWith ("." ++ s) name = true := by
      unfold Text.endsWith
      rw [List.isSuffixOf_iff_suffix, hfront, String.toList_append]
      exact List.suffix_append front _
    rw [h _ hmem] at hends
    cases hends
  unfold kindOf?
  rw [hdeclaration, if_neg Bool.false_ne_true]
  split
  case h_9 => rfl
  all_goals exact (hsuffix _ ‹_› (by decide)).elim

/-- A file has a known kind as long as its name ends in an extension and is more than that. -/
theorem kindOf?_eq_some_iff (hname : p.fileName? = some name) {k : Kind} :
    kindOf? p = some k ↔ name ∉ bareNames true ∧ ∃ e, EndsIn name e ∧ extensionKind e = k := by
  by_cases hbare : name ∈ bareNames true
  · simp [kindOf?_bare hname hbare, hbare]
  rcases stem_cases name with ⟨e, hends, _⟩ | ⟨_, hnone⟩
  · rw [kindOf?_of_endsIn hname hends hbare, Option.some_inj]
    constructor
    · rintro rfl
      exact ⟨hbare, e, hends, rfl⟩
    · rintro ⟨_, e', hends', rfl⟩
      rw [hends.unique hends']
  · rw [kindOf?_eq_none hname hnone]
    refine ⟨nofun, ?_⟩
    rintro ⟨_, e, hends, _⟩
    exact (not_endsIn hnone hends).elim

/-- Without JavaScript the extensions of sources are those of all other kinds. -/
theorem mem_sourceExtensions_iff {allowJs : Bool} (he : e ∈ families.flatten) :
    e ∈ sourceExtensions allowJs ↔ ((extensionKind e).isJavaScript = true → allowJs = true) := by
  have h : ∀ allowJs, ∀ e ∈ families.flatten, e ∈ sourceExtensions allowJs ↔
      ((extensionKind e).isJavaScript = true → allowJs = true) := by decide
  exact h allowJs e he

theorem endsInOneOf_source (hname : p.fileName? = some name) (allowJs : Bool) :
    endsInOneOf p (sourceExtensions allowJs) = true ↔
      ∃ e, EndsIn name e ∧ ((extensionKind e).isJavaScript = true → allowJs = true) := by
  have hsub : ∀ allowJs, sourceExtensions allowJs ⊆ families.flatten := by decide
  -- an extension that ends one of another language does not exist
  have hclosed : ∀ allowJs, ∀ e ∈ families.flatten, ∀ other ∈ sourceExtensions allowJs,
      other.toList.isSuffixOf e.toList = true → e ∈ sourceExtensions allowJs := by decide
  unfold endsInOneOf
  rw [hname, Option.any_some, List.any_eq_true]
  constructor
  · rintro ⟨other, hother, hends⟩
    rcases stem_cases name with ⟨e, he, _⟩ | ⟨_, hnone⟩
    · have hsuffix :=
        Text.suffix_of_endsWith hends he.2.1 (he.2.2 other (hsub allowJs hother) hends)
      have hmem := hclosed allowJs e he.1 other hother (List.isSuffixOf_iff_suffix.mpr hsuffix)
      exact ⟨e, he, (mem_sourceExtensions_iff he.1).mp hmem⟩
    · rw [hnone other (hsub allowJs hother)] at hends
      cases hends
  · rintro ⟨e, he, hallowed⟩
    exact ⟨e, (mem_sourceExtensions_iff he.1).mpr hallowed, he.2.1⟩

theorem mem_bareNames_iff {allowJs : Bool} (h : name ∈ bareNames true) :
    name ∈ bareNames allowJs ↔ ((extensionKind name).isJavaScript = true → allowJs = true) := by
  have hall : ∀ allowJs, ∀ n ∈ bareNames true, n ∈ bareNames allowJs ↔
      ((extensionKind n).isJavaScript = true → allowJs = true) := by decide
  exact hall allowJs name h

theorem bareNames_subset : ∀ allowJs, bareNames allowJs ⊆ bareNames true := by decide

theorem endsInOneOf_source_iff (hname : p.fileName? = some name) (allowJs : Bool) :
    endsInOneOf p (sourceExtensions allowJs) = true ↔
      (∃ k, kindOf? p = some k ∧ (k.isJavaScript = true → allowJs = true)) ∨
        name ∈ bareNames allowJs := by
  simp only [endsInOneOf_source hname, kindOf?_eq_some_iff hname]
  by_cases hbare : name ∈ bareNames true
  · simp only [hbare, not_true_eq_false, false_and, exists_false, false_or]
    rw [mem_bareNames_iff hbare]
    constructor
    · rintro ⟨e, he, hallowed⟩
      rwa [(endsIn_bare hbare).unique he]
    · intro hallowed
      exact ⟨name, endsIn_bare hbare, hallowed⟩
  · have hnone : name ∉ bareNames allowJs := fun h => hbare (bareNames_subset allowJs h)
    constructor
    · rintro ⟨e, he, hallowed⟩
      exact Or.inl ⟨_, ⟨hbare, e, he, rfl⟩, hallowed⟩
    · rintro (⟨_, ⟨_, e, he, rfl⟩, hallowed⟩ | h)
      · exact ⟨e, he, hallowed⟩
      · exact (hnone h).elim

/-! ### What is taken off a name -/

theorem length_stem_lt_iff (name : String) : (stem name).length < name.length ↔
    ∃ e, EndsIn name e := by
  rcases stem_cases name with ⟨e, hends, happend⟩ | ⟨hstem, hnone⟩
  · refine ⟨fun _ => ⟨e, hends⟩, fun _ => ?_⟩
    have hpositive : 0 < e.length := by
      rcases mem_families_iff.mp hends.1 with he | he
      · exact Nat.lt_of_le_of_lt (Nat.zero_le 4) (length_declaration e he)
      · exact (length_bare e he).1
    have hlength := congrArg String.length happend
    rw [String.length_append] at hlength
    omega
  · rw [hstem]
    refine ⟨fun h => (Nat.lt_irrefl _ h).elim, ?_⟩
    rintro ⟨e, hends⟩
    exact (not_endsIn hnone hends).elim

theorem stem_shorter_iff (hname : p.fileName? = some name) : (stem name).length < name.length ↔
    (kindOf? p).isSome = true ∨ name ∈ bareNames true := by
  rw [length_stem_lt_iff, Option.isSome_iff_exists]
  simp only [kindOf?_eq_some_iff hname]
  constructor
  · rintro ⟨e, he⟩
    by_cases hbare : name ∈ bareNames true
    · exact Or.inr hbare
    · exact Or.inl ⟨_, hbare, e, he, rfl⟩
  · rintro (⟨_, _, e, he, _⟩ | hbare)
    · exact ⟨e, he⟩
    · exact ⟨name, endsIn_bare hbare⟩

theorem stem_declaration_iff (hname : p.fileName? = some name) :
    (∃ e ∈ declarationExtensions, name = stem name ++ e) ↔ kindOf? p = some .declaration := by
  have hkind : ∀ e ∈ families.flatten,
      extensionKind e = .declaration ↔ e ∈ declarationExtensions := by decide
  rw [kindOf?_eq_some_iff hname]
  rcases stem_cases name with ⟨e, hends, happend⟩ | ⟨_, hnone⟩
  · constructor
    · rintro ⟨e', he', happend'⟩
      obtain rfl := (String.append_right_inj _).mp (happend'.symm.trans happend)
      refine ⟨fun hbare => ?_, e', hends, (hkind e' hends.1).mpr he'⟩
      -- no name of at most four characters ends in an extension of declarations
      have hlong := length_declaration e' he'
      have hshort := (length_bare name hbare).2
      have hlength := congrArg String.length happend
      rw [String.length_append] at hlength
      omega
    · rintro ⟨_, e', hends', hdeclaration⟩
      obtain rfl := hends.unique hends'
      exact ⟨e, (hkind e hends.1).mp hdeclaration, happend⟩
  · constructor
    · rintro ⟨e, he, happend⟩
      have hends := Text.endsWith_append (stem name) e
      rw [← happend, hnone e (mem_families_iff.mpr (Or.inl he))] at hends
      cases hends
    · rintro ⟨_, e, hends, _⟩
      exact (not_endsIn hnone hends).elim

end Source

namespace Config

variable {disk : Disk} {layer : Layer} {folder f : Path}

theorem source_of_filesOfSpec {base : Path} {extensions : List String}
    {patterns : List Glob.Pattern} {spec : String}
    (h : f ∈ filesOfSpec disk base extensions patterns spec) :
    disk.isFile f = true ∧ Source.endsInOneOf f extensions = true := by
  unfold filesOfSpec at h
  dsimp only at h
  split at h
  · rename_i hempty
    split at h
    · rename_i hkept
      rw [List.mem_singleton.mp h]
      rw [Bool.and_eq_true] at hkept
      refine ⟨hkept.1, ?_⟩
      unfold splitInclude at hempty ⊢
      generalize splitSpec base spec = found at hempty ⊢
      obtain ⟨plain, wild⟩ := found
      cases wild with
      | nil =>
        by_contra hnot
        simp [hnot] at hempty
      | cons segment rest =>
        dsimp only at hempty
        split at hempty <;> split at hempty <;> cases hempty
    · cases h
  · rw [List.mem_mergeSort, List.mem_filter] at h
    simp only [Bool.and_eq_true] at h
    exact h.2.1.1

theorem source_of_foundFiles (h : f ∈ foundFiles disk layer folder) :
    disk.isFile f = true ∧
      Source.endsInOneOf f (Source.sourceExtensions layer.options.allowJs) = true := by
  unfold foundFiles at h
  cases hspecs : included layer folder with
  | none =>
    rw [hspecs] at h
    cases h
  | some specs =>
    rw [hspecs] at h
    obtain ⟨spec, _, hspec⟩ := List.mem_flatMap.mp h
    exact source_of_filesOfSpec hspec

end Config

namespace Program

variable {disk : Disk} {roots : List Path} {options : Options} {p : Program} {f : Path}

/-- Of the root files that are there, those are loaded whose kind is known. -/
theorem exists_root_iff (hload : load disk roots options = .ok p) (hroot : f ∈ roots)
    (hfile : disk.isFile f = true) :
    (∃ g ∈ p.files, g.path = f.normalize) ↔ (Source.kindOf? f.normalize).isSome = true := by
  constructor
  · rintro ⟨g, hg, hpath⟩
    obtain ⟨_, hnext⟩ := load_next hload g hg
    rw [← hpath, hnext.kind]
    rfl
  · intro hkind
    obtain ⟨_, _, hfinished⟩ := Finished.of_load hload
    apply Covered.loaded
    apply hfinished.closing.roots f hroot (Option.isSome_iff_ne_none.mp hkind)
    rw [← Bool.not_eq_true, isMissing_iff]
    rintro ⟨q, hread⟩
    exact Resolver.read_of_isFile hfile q hread

end Program

namespace Source

open Config (foundFiles)

/-- Files are selected by the endings of their names exactly if their kind is known and wanted, or
their names are nothing but an extension. The extension of a file can be taken off exactly if it is
known or nothing else, and it is one of declarations exactly if the file is one. Bare extensions are
names of no known kind: they are the files that a configuration includes and that are not loaded. -/
theorem sources_recognized (f : Path) :
    (∀ name, f.fileName? = some name →
      (∀ allowJs, endsInOneOf f (sourceExtensions allowJs) = true ↔
        (∃ k, kindOf? f = some k ∧ (k.isJavaScript = true → allowJs = true)) ∨
          name ∈ bareNames allowJs) ∧
      ((stem name).length < name.length ↔ (kindOf? f).isSome = true ∨ name ∈ bareNames true) ∧
      ((∃ e ∈ declarationExtensions, name = stem name ++ e) ↔ kindOf? f = some .declaration) ∧
      (name ∈ bareNames true → kindOf? f = none)) ∧
    (f.fileName? = none → kindOf? f = none ∧ ∀ endings, endsInOneOf f endings = false) ∧
    ∀ disk layer folder, f ∈ foundFiles disk layer folder → ∀ roots options p, f ∈ roots →
      Program.load disk roots options = .ok p →
        ((∃ g ∈ p.files, g.path = f.normalize) ↔
          ∀ name ∈ bareNames layer.options.allowJs, f.fileName? ≠ some name) := by
  refine ⟨?_, ?_, ?_⟩
  · intro name hname
    exact ⟨endsInOneOf_source_iff hname, stem_shorter_iff hname, stem_declaration_iff hname,
      kindOf?_bare hname⟩
  · intro hnone
    have hends (endings : List String) : endsInOneOf f endings = false := by
      rw [endsInOneOf, hnone, Option.any_none]
    refine ⟨?_, hends⟩
    unfold kindOf? Path.suffix?
    rw [hends, hnone]
    rfl
  · intro disk layer folder hf roots options p hroot hload
    obtain ⟨hfile, hends⟩ := Config.source_of_foundFiles hf
    obtain ⟨name, hname, _⟩ := (Option.any_eq_true ..).mp hends
    have hnormal := Path.fileName?_normalize hname
    rw [Program.exists_root_iff hload hroot hfile, hname]
    constructor
    · rintro hkind _ hbare ⟨⟩
      rw [kindOf?_bare hnormal (bareNames_subset _ hbare)] at hkind
      cases hkind
    · intro hbare
      rcases (endsInOneOf_source_iff hname _).mp hends with ⟨k, hk, _⟩ | hmem
      · rw [Option.isSome_iff_exists]
        rw [kindOf?_eq_some_iff hname, ← kindOf?_eq_some_iff hnormal] at hk
        exact ⟨k, hk⟩
      · exact (hbare name hmem rfl).elim

/-- Two files whose names begin with a point; one of them is nothing but an extension. -/
def pointedDisk : Disk := .ofTexts [(".ts", ""), ("..ts", "")]

theorem pointed_name_loaded : kindOf? ⟨"/..ts"⟩ = some .typeScript ∧
    ⟨"/..ts"⟩ ∈ foundFiles pointedDisk (Config.includeLayer "..ts") ⟨"/"⟩ ∧
    ∃ p, Program.load pointedDisk [⟨"/..ts"⟩] ∅ = .ok p ∧
      ∃ g ∈ p.files, g.path = Path.normalize ⟨"/..ts"⟩ := by
  have hfound : ⟨"/..ts"⟩ ∈ foundFiles pointedDisk (Config.includeLayer "..ts") ⟨"/"⟩ ∧
      (Program.load pointedDisk [⟨"/..ts"⟩] ∅).toOption.isSome = true := by
    decide +kernel
  obtain ⟨p, hload⟩ := Option.isSome_iff_exists.mp hfound.2
  have hname : ∀ name ∈ bareNames false, Path.fileName? ⟨"/..ts"⟩ ≠ some name := by decide
  have hloaded := (sources_recognized ⟨"/..ts"⟩).2.2 pointedDisk (Config.includeLayer "..ts") ⟨"/"⟩
    hfound.1 [⟨"/..ts"⟩] ∅ p (List.mem_singleton_self _) (ok_of_toOption hload)
  exact ⟨by decide, hfound.1, p, ok_of_toOption hload, hloaded.mpr hname⟩

/-- The file is selected by its name, is not loaded, and nothing is told of it. -/
theorem bare_name_passed_over :
    endsInOneOf ⟨"/.ts"⟩ (sourceExtensions true) = true ∧
    endsInOneOf ⟨"/.ts"⟩ (sourceExtensions false) = true ∧ stem ".ts" = "" ∧
    kindOf? ⟨"/.ts"⟩ = none ∧
    ⟨"/.ts"⟩ ∈ foundFiles pointedDisk (Config.includeLayer ".ts") ⟨"/"⟩ ∧
    (Program.load pointedDisk [⟨"/.ts"⟩] ∅).toOption.map
      (fun p => (p.files.map (·.path), p.absentRoots)) = some ([], []) := by
  decide +kernel

end Source

end TypeOnly
