import TypeOnly.Proofs.StaleFiles

/-!
Library code is left alone. Of declaration files, of JavaScript and of files in package folders only
the grammar is told, and a run, whether it succeeds or fails, changes no file but those it checks.
-/

namespace TypeOnly

set_option autoImplicit false

open Source (Kind)

/-! ### Files that are checked -/

namespace ProgramMember

variable {f : ProgramMember}

/-- A file that others have made, or that is not typed. -/
def IsLibrary (f : ProgramMember) : Prop :=
  f.kind = .declaration ∨ f.kind = .javaScript ∨ f.kind = .jsx ∨
    .name "node_modules" ∈ f.path.parts

theorem isOwnSource_iff : f.isOwnSource = true ↔
    (f.kind = .typeScript ∨ f.kind = .tsx) ∧ .name "node_modules" ∉ f.path.parts := by
  unfold isOwnSource
  cases f.kind <;> simp [Kind.isDeclaration, Kind.isJavaScript]

theorem isLibrary_iff : f.IsLibrary ↔ f.isOwnSource = false := by
  rw [Bool.eq_false_iff, ne_eq, isOwnSource_iff, IsLibrary]
  cases f.kind <;> simp

end ProgramMember

namespace Program

variable {disk : Disk} {roots : List Path} {options : Options} {p : Program}

/-- Of a file that is not checked only the grammar is told. -/
theorem code_of_library (hp : DistinctPaths p.files) {d : Diagnostic} (hd : d ∈ p.check options)
    {f : ProgramMember} (hf : f ∈ p.files) (hlibrary : f.IsLibrary) {path : Path}
    (hpath : d.path? = some path) (hsame : path.parts = f.path.parts) : d.code = 1005 := by
  rw [check_eq_arrange] at hd
  rcases mem_problems.mp (Diagnostic.mem_of_mem_arrange hd) with
    ⟨_, _, rfl⟩ | ⟨g, hg, ⟨i, _, rfl⟩ | ⟨hown, scope, _, htold⟩⟩
  · cases hpath
  · rfl
  · have hparts : path.parts = g.path.parts := by
      cases htold <;> cases hpath <;> rfl
    obtain rfl := hp.eq_of_parts hf hg (hsame.symm.trans hparts)
    rw [ProgramMember.isLibrary_iff.mp hlibrary] at hown
    cases hown

end Program

/-! ### Files that are changed -/

namespace EditSet

variable {sets : List EditSet} {d d' : Disk} {writing : Bool}

/-- What is changed when sets are carried out is the file of one of them. -/
theorem CarriedOut.find_of_changed (h : CarriedOut writing sets d d') {loc : Location}
    (hne : d'.get? loc ≠ d.get? loc) : ∃ s ∈ sets, d.find s.path = .ok loc := by
  induction h with
  | nil d => exact False.elim (hne rfl)
  | @cons s rest d d' d'' hs hrest ih =>
    cases writing with
    | false =>
      have hsame : d'' = d := (CarriedOut.cons hs hrest).preview
      exact False.elim (hne (by rw [hsame]))
    | true =>
      obtain ⟨place, text, _, hpatches⟩ := carryOut_patches hs
      by_cases hplace : loc = place
      · exact ⟨s, List.mem_cons_self, hplace ▸ hpatches.found⟩
      · rw [← hpatches.get?_of_ne hplace] at hne
        obtain ⟨t, ht, hfind⟩ := ih hne
        rw [hpatches.samePlaces.find_eq] at hfind
        exact ⟨t, List.mem_cons_of_mem s ht, hfind⟩

theorem applyAll_changed {style : ReportStyle} {loc : Location}
    (hne : (applyAll style writing sets d).disk.get? loc ≠ d.get? loc) :
    ∃ s ∈ sets, d.find s.path = .ok loc := by
  rcases applyAll_run style writing sets d with ⟨hdone, _⟩ | ⟨done, s, rest, _, hsets, hdone, _⟩
  · exact hdone.find_of_changed hne
  · obtain ⟨t, ht, hfind⟩ := hdone.find_of_changed hne
    rw [hsets]
    exact ⟨t, List.mem_append_left _ ht, hfind⟩

end EditSet

variable {disk : Disk} {style : ReportStyle} {writing : Bool} {config : Path}

/-- A run changes only files of its program, and of those only files that are checked. -/
theorem fixProject_changed {loc : Location}
    (hne : (fixProject disk style writing config).disk.get? loc ≠ disk.get? loc) :
    ∃ c p, Config.resolve disk style.cwd config = .ok c ∧
      Program.load disk (c.allRoots disk) c.options.forced = .ok p ∧
      ∃ f ∈ p.files, disk.find f.path = .ok loc ∧ f.isOwnSource = true := by
  unfold fixProject at hne
  cases hplan : planEdits disk style.cwd config with
  | error e =>
    rw [hplan] at hne
    exact False.elim (hne rfl)
  | ok sets =>
    rw [hplan] at hne
    obtain ⟨s, hs, hfind⟩ := EditSet.applyAll_changed hne
    obtain ⟨c, p, hconfig, hload, rfl⟩ := planEdits_ok hplan
    obtain ⟨d, hd, hfile⟩ := EditSet.source_of_ofDiagnostics hs
    obtain ⟨f, hf, hown, hfile', _⟩ := told_of_fixable hd
    have hsource : s.source = f.source := Option.some.inj (hfile.symm.trans hfile')
    refine ⟨c, p, hconfig, hload, f, hf, ?_, hown⟩
    rw [← hfind, EditSet.path, hsource]
    rfl

/-- The names on the way to a file of a program are the names in its path. -/
theorem Program.name_mem_parts {roots : List Path} {options : Options} {p : Program}
    (hload : Program.load disk roots options = .ok p) {f : ProgramMember} (hf : f ∈ p.files)
    {loc : Location} (hfind : disk.find f.path = .ok loc) {name : String} (hname : name ∈ loc) :
    .name name ∈ f.path.parts := by
  obtain ⟨above, hparts⟩ := (load_isNormal hload f hf).way_of_find hfind
  rw [hparts, Path.way]
  exact List.mem_cons_of_mem _ (List.mem_append_right _ (List.mem_map_of_mem hname))

/-- Whatever becomes of a run, a place on the disk that it changes is that of a typed source file of
the program which is in no package folder. And whatever is in a program, however it came to be
there, a diagnostic in a library file is one of its grammar. -/
theorem library_untouched (disk : Disk) (style : ReportStyle) (writing : Bool) (config : Path) :
    (∀ loc, (fixProject disk style writing config).disk.get? loc ≠ disk.get? loc →
      "node_modules" ∉ loc ∧
      ∃ c p, Config.resolve disk style.cwd config = .ok c ∧
        Program.load disk (c.allRoots disk) c.options.forced = .ok p ∧
        ∃ f ∈ p.files, disk.find f.path = .ok loc ∧ (f.kind = .typeScript ∨ f.kind = .tsx) ∧
          .name "node_modules" ∉ f.path.parts) ∧
    ∀ roots options p, Program.load disk roots options = .ok p →
      ∀ options', ∀ d ∈ p.check options', ∀ f ∈ p.files, f.IsLibrary →
        ∀ path, d.path? = some path → path.parts = f.path.parts → d.code = 1005 := by
  constructor
  · intro loc hne
    obtain ⟨c, p, hconfig, hload, f, hf, hfind, hown⟩ := fixProject_changed hne
    obtain ⟨hkind, hplace⟩ := ProgramMember.isOwnSource_iff.mp hown
    refine ⟨?_, c, p, hconfig, hload, f, hf, hfind, hkind, hplace⟩
    intro hname
    exact hplace (Program.name_mem_parts hload hf hfind hname)
  · intro roots options p hload options' d hd f hf hlibrary path hpath hsame
    exact Program.code_of_library (Program.load_distinct hload) hd hf hlibrary hpath hsame

/-- A project with a declaration file that imports a type without a mark and has a fault of its
grammar, before and after the other file is marked. -/
def libraryDisk (marker : String) : Disk :=
  .ofTexts [("tsconfig.json", "\x7b\"files\": [\"b.ts\", \"d.d.ts\"]\x7d"),
    ("a.ts", "export type T = 1"), ("b.ts", "import \x7b " ++ marker ++ "T \x7d from './a'"),
    ("d.d.ts", "import \x7b T \x7d from './a'; function f() \x7b\x7d")]

def libraryFault : Diagnostic :=
  .inFile (.badText "An implementation cannot be declared in ambient contexts")
    ⟨⟨"/d.d.ts"⟩, "import \x7b T \x7d from './a'; function f() \x7b\x7d"⟩ ⟨38, 1⟩

set_option maxRecDepth 4096 in
theorem library_untouched_declaration : ∃ p f d,
    (fixProject (libraryDisk "") plainStyle true ⟨"tsconfig.json"⟩).disk.get? ["b.ts"] ≠
      (libraryDisk "").get? ["b.ts"] ∧ "node_modules" ∉ ["b.ts"] ∧
    Program.load (libraryDisk "") [⟨"/b.ts"⟩, ⟨"/d.d.ts"⟩] (Options.forced ∅) = .ok p ∧
    f ∈ p.files ∧ f.IsLibrary ∧ d ∈ p.check (Options.forced ∅) ∧ d.path? = some f.path ∧
    d.code = 1005 := by
  have hconfig : Config.resolve (libraryDisk "") plainStyle.cwd ⟨"tsconfig.json"⟩ =
      .ok ⟨⟨"/tsconfig.json"⟩, ∅, [⟨"/b.ts"⟩, ⟨"/d.d.ts"⟩]⟩ :=
    Config.eq_of_fields (by decide +kernel)
  have hroots : Config.allRoots (libraryDisk "")
      ⟨⟨"/tsconfig.json"⟩, ∅, [⟨"/b.ts"⟩, ⟨"/d.d.ts"⟩]⟩ = [⟨"/b.ts"⟩, ⟨"/d.d.ts"⟩] := by
    decide +kernel
  have hfacts : (Program.load (libraryDisk "") [⟨"/b.ts"⟩, ⟨"/d.d.ts"⟩]
      (Options.forced ∅)).toOption.map (fun p => (p.problems (Options.forced ∅).verbatim,
        p.files[1]?.map fun f => (f.path, f.kind))) =
      some ([namedFinding, libraryFault], some (⟨"/d.d.ts"⟩, .declaration)) := by decide +kernel
  obtain ⟨p, hload, hfound⟩ := exists_of_toOption_map hfacts
  obtain ⟨hproblems, hfile⟩ := Prod.mk.inj hfound
  obtain ⟨f, hf, hmember⟩ := Option.map_eq_some_iff.mp hfile
  obtain ⟨hpath, hkind⟩ := Prod.mk.inj hmember
  have hcheck : p.check (Options.forced ∅) = [namedFinding, libraryFault] := by
    rw [Program.check_eq_arrange, hproblems]
    exact Diagnostic.arrange_pair (by decide +kernel) (by decide +kernel)
  have hplan : planEdits (libraryDisk "") plainStyle.cwd ⟨"tsconfig.json"⟩ = .ok [namedEdits] := by
    rw [planEdits_eq hconfig (hroots.symm ▸ hload)]
    exact congrArg (fun ds => Except.ok (EditSet.ofDiagnostics (fixable ds))) hcheck
  have hpatched : namedEdits.patched = .ok "import { type T } from './a'" := by
    rw [EditSet.patched, namedEdits, Insertion.apply_single]
    decide +kernel
  have hdisk := (fixProject_of_set hplan hpatched (by decide +kernel)
    (Disk.eq_of_entries (d := libraryDisk "type ") (by decide +kernel))).2
  have hchanged : (fixProject (libraryDisk "") plainStyle true ⟨"tsconfig.json"⟩).disk.get?
      ["b.ts"] ≠ (libraryDisk "").get? ["b.ts"] := by
    rw [hdisk]
    decide +kernel
  obtain ⟨hown, hgrammar⟩ := library_untouched (libraryDisk "") plainStyle true ⟨"tsconfig.json"⟩
  have hmem : f ∈ p.files := List.mem_of_getElem? hf
  have htold : libraryFault ∈ p.check (Options.forced ∅) := by simp [hcheck]
  have hplace : libraryFault.path? = some f.path := congrArg some hpath.symm
  refine ⟨p, f, libraryFault, hchanged, (hown _ hchanged).1, hload, hmem, Or.inl hkind, htold,
    hplace, ?_⟩
  exact hgrammar _ _ p hload _ _ htold f hmem (Or.inl hkind) _ hplace rfl

end TypeOnly
