import TypeOnly.Proofs.ReloadedPrograms
import TypeOnly.Proofs.DiskEdits
import TypeOnly.Run

/-!
A run on a project that was patched before. It finds nothing, as long as the patched files read
back with their marks; a file that does not can make a name stand for something else elsewhere.
-/

namespace TypeOnly

set_option autoImplicit false

/-! ### What is written -/

namespace EditSet

theorem source_of_addTo {file : SourceFile} {i : Insertion} {name : String} {sets : List EditSet}
    {s : EditSet} (h : s ∈ addTo file i name sets) :
    s.source = file ∨ ∃ s' ∈ sets, s.source = s'.source := by
  induction sets with
  | nil =>
    obtain rfl := List.mem_singleton.mp h
    exact Or.inl rfl
  | cons x rest ih =>
    unfold addTo at h
    split at h
    · rcases List.mem_cons.mp h with rfl | h
      · exact Or.inr ⟨x, List.mem_cons_self, rfl⟩
      · exact Or.inr ⟨s, List.mem_cons_of_mem x h, rfl⟩
    · rcases List.mem_cons.mp h with rfl | h
      · exact Or.inr ⟨s, List.mem_cons_self, rfl⟩
      · rcases ih h with h | ⟨s', hs', h⟩
        · exact Or.inl h
        · exact Or.inr ⟨s', List.mem_cons_of_mem x hs', h⟩

/-- Insertions go only into files that are told of. -/
theorem source_of_ofDiagnostics {ds : List Diagnostic} {s : EditSet} (h : s ∈ ofDiagnostics ds) :
    ∃ d ∈ ds, d.file = some s.source := by
  suffices hfold : ∀ sets, s ∈ ds.foldl gather sets →
      (∃ d ∈ ds, d.file = some s.source) ∨ ∃ s' ∈ sets, s.source = s'.source by
    rcases hfold [] h with h | ⟨s', hs', _⟩
    · exact h
    · simp at hs'
  clear h
  induction ds with
  | nil => exact fun sets h => Or.inr ⟨s, h, rfl⟩
  | cons d ds ih =>
    intro sets h
    rcases ih (gather sets d) h with ⟨d', hd', h⟩ | ⟨s', hs', h⟩
    · exact Or.inl ⟨d', List.mem_cons_of_mem d hd', h⟩
    · unfold gather at hs'
      split at hs'
      · rename_i file _ hfile
        rcases source_of_addTo hs' with hs' | ⟨s'', hs'', hs'⟩
        · exact Or.inl ⟨d, List.mem_cons_self, by rw [hfile, h, hs']⟩
        · exact Or.inr ⟨s'', hs'', h.trans hs'⟩
      · exact Or.inr ⟨s', hs', h⟩

theorem carryOut_sameTree {s : EditSet} {d d' : Disk} (hkind : Source.kindOf? s.path ≠ none)
    (h : s.carryOut true d = .ok d') : SameTree d d' := by
  obtain ⟨loc, text, hreplace, hpatches⟩ := carryOut_patches h
  obtain ⟨current, hread, _⟩ := hpatches.checked
  exact Disk.replace_sameTree hkind hread hreplace

theorem carryOutAll_sameTree {style : ReportStyle} {sets : List EditSet} {done : List FileReport}
    {output : String} {d : Disk} {reports : List FileReport}
    (hkinds : ∀ s ∈ sets, Source.kindOf? s.path ≠ none)
    (h : (carryOutAll style true sets done output d).result = .ok reports) :
    SameTree d (carryOutAll style true sets done output d).disk := by
  induction sets generalizing done output d with
  | nil => exact SameTree.refl d
  | cons s rest ih =>
    unfold carryOutAll at h ⊢
    cases hs : s.carryOut true d with
    | error e =>
      rw [hs] at h
      cases h
    | ok d' =>
      rw [hs] at h
      have hstep := carryOut_sameTree (hkinds s List.mem_cons_self) hs
      exact hstep.trans (ih (fun s' hs' => hkinds s' (List.mem_cons_of_mem s hs')) h)

end EditSet

/-! ### Running again -/

variable {disk : Disk} {style : ReportStyle} {config : Path} {c : Config} {p : Program}

theorem planEdits_eq (hconfig : Config.resolve disk style.cwd config = .ok c)
    (hload : Program.load disk (c.allRoots disk) c.options.forced = .ok p) :
    planEdits disk style.cwd config =
      .ok (EditSet.ofDiagnostics (fixable (p.check c.options.forced))) := by
  unfold planEdits Config.compile
  rw [hconfig]
  change (do
    let program ← (Program.load disk (c.allRoots disk) c.options.forced).mapError RunError.file
    _ : Except RunError _) >>= _ = _
  rw [hload]
  rfl

/-- What can be mended is told of a file that is checked. -/
theorem told_of_fixable {options : Options} {d : Diagnostic}
    (hd : d ∈ fixable (p.check options)) :
    ∃ f ∈ p.files, f.isOwnSource = true ∧ d.file = some f.source ∧
      ∃ scope, (ModuleView.ofFile f).scope = some scope ∧ p.Told options.verbatim f scope d := by
  obtain ⟨hcheck, hrepair⟩ := List.mem_filter.mp hd
  rw [Program.check_eq_arrange] at hcheck
  rcases Program.mem_problems.mp (Diagnostic.mem_of_mem_arrange hcheck) with
    ⟨path, _, rfl⟩ | ⟨f, hf, ⟨i, _, rfl⟩ | ⟨hown, scope, hscope, htold⟩⟩
  · simp [Diagnostic.global, Problem.code, Repair.ofCode?] at hrepair
  · simp [Diagnostic.inFile, Problem.code, Repair.ofCode?] at hrepair
  · refine ⟨f, hf, hown, ?_, scope, hscope, htold⟩
    cases htold <;> rfl

theorem source_of_planned {options : Options} {s : EditSet}
    (hs : s ∈ EditSet.ofDiagnostics (fixable (p.check options))) :
    ∃ f ∈ p.files, s.source = f.source := by
  obtain ⟨d, hd, hfile⟩ := EditSet.source_of_ofDiagnostics hs
  obtain ⟨f, hf, _, hfile', _⟩ := told_of_fixable hd
  exact ⟨f, hf, Option.some.inj (hfile.symm.trans hfile')⟩

/-- Every file that is patched is a source file of the program. -/
theorem kindOf?_of_planned (hload : Program.load disk (c.allRoots disk) c.options.forced = .ok p)
    {s : EditSet} (hs : s ∈ EditSet.ofDiagnostics (fixable (p.check c.options.forced))) :
    Source.kindOf? s.path ≠ none := by
  obtain ⟨f, hf, hsource⟩ := source_of_planned hs
  obtain ⟨_, hnext⟩ := Program.load_next hload f hf
  have hkind := hnext.kind
  have hpath : s.path = f.path := congrArg SourceFile.path hsource
  simp [hpath, hkind]

theorem fixProject_sameTree (hconfig : Config.resolve disk style.cwd config = .ok c)
    (hload : Program.load disk (c.allRoots disk) c.options.forced = .ok p)
    {reports : List FileReport} (hrun : (fixProject disk style true config).result = .ok reports) :
    SameTree disk (fixProject disk style true config).disk := by
  unfold fixProject at hrun ⊢
  rw [planEdits_eq hconfig hload] at hrun ⊢
  dsimp only at hrun ⊢
  obtain ⟨hresult, hdisk⟩ := EditSet.applyAll_eq style true
    (EditSet.ofDiagnostics (fixable (p.check c.options.forced))) disk
  rw [hresult] at hrun
  rw [hdisk]
  exact EditSet.carryOutAll_sameTree (fun s hs => kindOf?_of_planned hload hs) hrun

/-- What a run without findings prints. -/
def idleOutput (style : ReportStyle) : String :=
  if style.json then FileReport.renderJson style.cwd true [] else ""

theorem fixable_eq_nil {ds : List Diagnostic} (h : ∀ d ∈ ds, d.code ≠ 1484 ∧ d.code ≠ 1205) :
    fixable ds = [] := by
  apply List.filter_eq_nil_iff.mpr
  intro d hd
  obtain ⟨himport, hexport⟩ := h d hd
  simp [Repair.ofCode?, himport, hexport]

/-- A second run finds nothing, reports nothing and changes nothing, if the configuration and the
files of the program, as the first run left them, read back as they were, but for the marks. -/
theorem second_run_idle (hconfig : Config.resolve disk style.cwd config = .ok c)
    (hload : Program.load disk (c.allRoots disk) c.options.forced = .ok p)
    {reports : List FileReport} (hrun : (fixProject disk style true config).result = .ok reports)
    (hconfig' : Config.resolve (fixProject disk style true config).disk style.cwd config = .ok c)
    (hback : ∀ f ∈ p.files, ∃ text,
      (fixProject disk style true config).disk.read f.path = .ok text ∧
        Program.ReadsBack (p.check c.options.forced) f text) :
    fixProject (fixProject disk style true config).disk style true config =
      ⟨.ok [], idleOutput style, (fixProject disk style true config).disk⟩ := by
  have hsame := fixProject_sameTree hconfig hload hrun
  generalize (fixProject disk style true config).disk = disk' at *
  obtain ⟨p', hload', hrereads⟩ := Program.load_again hsame hload hback
  have hroots : c.allRoots disk' = c.allRoots disk := by
    simp only [Config.allRoots, hsame.automaticTypes_eq]
  rw [← hroots] at hload'
  have hfixable : fixable (p'.check c.options.forced) = [] :=
    fixable_eq_nil fun d hd => hrereads.settled hd
  unfold fixProject
  rw [planEdits_eq hconfig' hload', hfixable]
  unfold idleOutput
  cases hjson : style.json <;>
    simp [EditSet.ofDiagnostics, EditSet.applyAll, EditSet.carryOutAll, hjson]

/-! ### One finding -/

theorem Diagnostic.arrange_single (d : Diagnostic) : Diagnostic.arrange [d] = [d] := by
  simp [Diagnostic.arrange, Diagnostic.dropRepeated, Diagnostic.dropAfter]

/-- A run that plans one set, for a file that is still what was checked. -/
theorem fixProject_of_set {s : EditSet} {text : String} {disk' : Disk}
    (hplan : planEdits disk style.cwd config = .ok [s]) (hpatched : s.patched = .ok text)
    (hread : disk.read s.path = .ok s.source.text)
    (hreplace : FileSystem.replace disk s.path text = .ok disk') :
    (fixProject disk style true config).result = .ok [FileReport.ofSet s true] ∧
      (fixProject disk style true config).disk = disk' := by
  have hcarry := EditSet.carryOut_of_read hpatched hread hreplace
  unfold fixProject
  rw [hplan]
  dsimp only
  obtain ⟨hresult, hdisk⟩ := EditSet.applyAll_eq style true [s] disk
  rw [hresult, hdisk]
  simp only [EditSet.carryOutAll, hcarry, List.nil_append, and_self]

/-- A run with one finding, in a file that is still what was checked. -/
theorem fixProject_of_finding {d : Diagnostic} {s : EditSet} {text : String} {disk' : Disk}
    (hconfig : Config.resolve disk style.cwd config = .ok c)
    (hload : Program.load disk (c.allRoots disk) c.options.forced = .ok p)
    (hproblems : p.problems c.options.forced.verbatim = [d])
    (hset : EditSet.ofDiagnostics (fixable [d]) = [s]) (hpatched : s.patched = .ok text)
    (hread : disk.read s.path = .ok s.source.text)
    (hreplace : FileSystem.replace disk s.path text = .ok disk') :
    (fixProject disk style true config).result = .ok [FileReport.ofSet s true] ∧
      (fixProject disk style true config).disk = disk' := by
  have hplan := planEdits_eq hconfig hload
  rw [Program.check_eq_arrange, hproblems, Diagnostic.arrange_single, hset] at hplan
  exact fixProject_of_set hplan hpatched hread hreplace

theorem Config.eq_of_fields {x : Except RunError Config} {path : Path} {roots : List Path}
    (h : x.toOption.map (fun c => (c.path, c.roots, c.options.entries.length)) =
      some (path, roots, 0)) : x = .ok ⟨path, ∅, roots⟩ := by
  obtain ⟨⟨path', ⟨entries, _⟩, roots'⟩, rfl, hfields⟩ := exists_of_toOption_map h
  simp only [Prod.mk.injEq, List.length_eq_zero_iff] at hfields
  obtain ⟨rfl, rfl, rfl⟩ := hfields
  rfl

/-- A project that imports a type by its name, before and after it is marked. -/
def namedDisk (marker : String) : Disk :=
  .ofTexts [("tsconfig.json", "\x7b\"files\": [\"b.ts\"]\x7d"), ("a.ts", "export type T = 1"),
    ("b.ts", "import \x7b " ++ marker ++ "T \x7d from './a'")]

def namedFinding : Diagnostic :=
  .inFile (.typeImported "T") ⟨⟨"/b.ts"⟩, "import { T } from './a'"⟩ ⟨9, 1⟩

def namedEdits : EditSet :=
  ⟨⟨⟨"/b.ts"⟩, "import { T } from './a'"⟩, [⟨9, "type ", .import_⟩], ["T"]⟩

/-! ### A run that has to be repeated -/

theorem EditSet.carryOutAll_length {writing : Bool} {sets : List EditSet} {done : List FileReport}
    {output : String} {d : Disk} {reports : List FileReport}
    (h : (carryOutAll style writing sets done output d).result = .ok reports) :
    reports.length = done.length + sets.length := by
  induction sets generalizing done output d with
  | nil =>
    obtain rfl := Except.ok.inj h
    rfl
  | cons s rest ih =>
    unfold carryOutAll at h
    split at h
    · cases h
    · rw [ih h, List.length_append, List.length_cons, List.length_cons, List.length_nil]
      omega

theorem EditSet.ofDiagnostics_ne_nil {ds : List Diagnostic} {d : Diagnostic} (hd : d ∈ ds)
    (hcode : d.code = 1484) {file : SourceFile} (hfile : d.file = some file) :
    ofDiagnostics ds ≠ [] := by
  have hadd (file : SourceFile) (i : Insertion) (name : String) (sets : List EditSet) :
      addTo file i name sets ≠ [] := by
    cases sets with
    | nil => simp [addTo]
    | cons s rest =>
      unfold addTo
      split <;> simp
  have hkeep (sets : List EditSet) (d : Diagnostic) (h : sets ≠ []) : gather sets d ≠ [] := by
    unfold gather
    split
    · exact hadd _ _ _ _
    · exact h
  have hfold (ds : List Diagnostic) (sets : List EditSet) (h : sets ≠ []) :
      ds.foldl gather sets ≠ [] := by
    induction ds generalizing sets with
    | nil => exact h
    | cons d ds ih => exact ih _ (hkeep sets d h)
  obtain ⟨before, after, rfl⟩ := List.append_of_mem hd
  unfold ofDiagnostics
  rw [List.foldl_append, List.foldl_cons]
  apply hfold
  simp only [gather, hcode, hfile, Repair.ofCode?, if_true]
  exact hadd _ _ _ _

/-- A run that finds a type to mark reports it. -/
theorem fixProject_ne_idle (hconfig : Config.resolve disk style.cwd config = .ok c)
    (hload : Program.load disk (c.allRoots disk) c.options.forced = .ok p) {d : Diagnostic}
    (hd : d ∈ p.problems c.options.forced.verbatim) (hcode : d.code = 1484) {file : SourceFile}
    (hfile : d.file = some file) (writing : Bool) :
    (fixProject disk style writing config).result ≠ .ok [] := by
  intro h
  unfold fixProject at h
  rw [planEdits_eq hconfig hload] at h
  dsimp only at h
  rw [(EditSet.applyAll_eq style writing _ disk).1] at h
  have hlength := EditSet.carryOutAll_length h
  obtain ⟨d', hd', hsame⟩ := Diagnostic.exists_same_arrange hd
  obtain ⟨hparts, _, hcode', _⟩ := Diagnostic.same_iff.mp hsame
  obtain ⟨file', hfile'⟩ : ∃ file', d'.file = some file' := by
    cases hcase : d'.file with
    | some file' => exact ⟨file', rfl⟩
    | none => simp [Diagnostic.path?, hcase, hfile] at hparts
  have hfixable : d' ∈ fixable (p.check c.options.forced) := by
    apply List.mem_filter.mpr
    exact ⟨hd', by simp [hcode', hcode, Repair.ofCode?]⟩
  have hsets := EditSet.ofDiagnostics_ne_nil hfixable (hcode'.trans hcode) hfile'
  simp only [List.length_nil, Nat.zero_add] at hlength
  exact hsets (List.length_eq_zero_iff.mp hlength.symm)

/-- A project that imports a type by a string, before and after it is marked. The file that does so
is passed over once it cannot be read, and the next one has the name `v` only as a type. -/
def stringDisk (marker : String) : Disk :=
  .ofTexts [("tsconfig.json", "\x7b\"files\": [\"n.ts\"]\x7d"),
    ("x.ts", "import \x7b " ++ marker ++ "'T' as U \x7d from './y'; export const v = 1"),
    ("y.ts", "export type T = 1; export type v = 2"),
    ("m.ts", "export * from './x'; export * from './y'"), ("n.ts", "import { v } from './m'")]

def stringEdits : EditSet :=
  ⟨⟨⟨"/x.ts"⟩, "import \x7b 'T' as U \x7d from './y'; export const v = 1"⟩,
    [⟨9, "type ", .import_⟩], ["'T' as U"]⟩

set_option maxRecDepth 4096 in
/-- A mark in front of a string is not read back, and the second run finds another name. -/
theorem second_run_after_string :
    (∃ reports, (fixProject (stringDisk "") plainStyle true ⟨"tsconfig.json"⟩).result =
      .ok reports) ∧
    (fixProject (fixProject (stringDisk "") plainStyle true ⟨"tsconfig.json"⟩).disk plainStyle true
      ⟨"tsconfig.json"⟩).result ≠ .ok [] := by
  have hconfig (marker : String) (h : marker = "" ∨ marker = "type ") :
      Config.resolve (stringDisk marker) plainStyle.cwd ⟨"tsconfig.json"⟩ =
        .ok ⟨⟨"/tsconfig.json"⟩, ∅, [⟨"/n.ts"⟩]⟩ := by
    apply Config.eq_of_fields
    rcases h with rfl | rfl <;> decide +kernel
  have hroots (marker : String) (h : marker = "" ∨ marker = "type ") :
      Config.allRoots (stringDisk marker) ⟨⟨"/tsconfig.json"⟩, ∅, [⟨"/n.ts"⟩]⟩ =
        [⟨"/n.ts"⟩] := by
    rcases h with rfl | rfl <;> decide +kernel
  have hfirst : (Program.load (stringDisk "") [⟨"/n.ts"⟩] (Options.forced ∅)).toOption.map
      (fun p => p.problems (Options.forced ∅).verbatim) =
        some [.inFile (.typeImported "T") stringEdits.source ⟨9, 8⟩] := by decide +kernel
  have hsecond : (Program.load (stringDisk "type ") [⟨"/n.ts"⟩] (Options.forced ∅)).toOption.map
      (fun p => (p.problems (Options.forced ∅).verbatim).any fun d =>
        d.code == 1484 && d.file.isSome) = some true := by decide +kernel
  have hpatched : stringEdits.patched =
      .ok "import \x7b type 'T' as U \x7d from './y'; export const v = 1" := by
    rw [EditSet.patched, stringEdits, Insertion.apply_single]
    decide +kernel
  have hreplace : FileSystem.replace (stringDisk "") ⟨"/x.ts"⟩
      "import \x7b type 'T' as U \x7d from './y'; export const v = 1" = .ok (stringDisk "type ") :=
    Disk.eq_of_entries (by decide +kernel)
  obtain ⟨p, hload, hproblems⟩ := exists_of_toOption_map hfirst
  rw [← hroots "" (Or.inl rfl)] at hload
  obtain ⟨hresult, hdisk⟩ := fixProject_of_finding (hconfig "" (Or.inl rfl)) hload hproblems
    (s := stringEdits) rfl hpatched (by decide +kernel) hreplace
  refine ⟨⟨_, hresult⟩, ?_⟩
  rw [hdisk]
  obtain ⟨p', hload', hany⟩ := exists_of_toOption_map hsecond
  rw [← hroots "type " (Or.inr rfl)] at hload'
  obtain ⟨d, hd, hfound⟩ := List.any_eq_true.mp hany
  simp only [Bool.and_eq_true, beq_iff_eq] at hfound
  obtain ⟨hcode, hsome⟩ := hfound
  obtain ⟨file, hfile⟩ := Option.isSome_iff_exists.mp hsome
  exact fixProject_ne_idle (hconfig "type " (Or.inr rfl)) hload' hd hcode hfile true

end TypeOnly
