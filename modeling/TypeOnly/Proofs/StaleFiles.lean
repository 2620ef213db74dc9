import TypeOnly.Proofs.SecondRun

/-!
A run does not get in its own way. Every file is loaded by a path in normal form, which says where
it is but for a step up from the top folder, so that no file is patched twice unless it is loaded
with such a step and without it.
-/

namespace TypeOnly

set_option autoImplicit false

namespace Program

variable {disk : Disk} {p p' : Program}

theorem nextFile_mem {loaded : List ProgramMember} {queue rest : List Request}
    {missing missing' : List Path} {l : Loaded}
    (h : nextFile disk loaded queue missing = .ok (some (l, rest), missing')) :
    (∃ r ∈ queue, l.path = r.path) ∧ rest ⊆ queue := by
  induction queue generalizing missing with
  | nil => simp [nextFile] at h
  | cons r queue ih =>
    have hskip {missing : List Path}
        (h : nextFile disk loaded queue missing = .ok (some (l, rest), missing')) :
        (∃ r' ∈ r :: queue, l.path = r'.path) ∧ rest ⊆ r :: queue := by
      obtain ⟨⟨r', hr', he⟩, hrest⟩ := ih h
      exact ⟨⟨r', List.mem_cons_of_mem r hr', he⟩, fun x hx => List.mem_cons_of_mem r (hrest hx)⟩
    unfold nextFile at h
    split at h
    · exact hskip h
    · split at h
      · exact hskip h
      · split at h
        · simp only [Except.ok.injEq, Prod.mk.injEq, Option.some.injEq] at h
          obtain ⟨⟨rfl, rfl⟩, _⟩ := h
          exact ⟨⟨r, List.mem_cons_self, rfl⟩, fun x hx => List.mem_cons_of_mem r hx⟩
        · exact hskip h
        · cases h

theorem resolve_isNormal (r : Resolver) (specifier : String) (path : Path) (cache : PackageCache) :
    ∀ t ∈ ((r.resolve disk specifier path).run cache).1, t.IsNormal := by
  obtain ⟨file, hfile⟩ : ∃ file : Option Path,
      ((r.resolve disk specifier path).run cache).1 = file.map Path.normalize := by
    have hmap (search : Search (Option Path)) :
        ((search >>= fun file => pure (file.map Path.normalize)).run cache).1 =
          (search.run cache).1.map Path.normalize := rfl
    unfold Resolver.resolve
    dsimp only
    split
    · exact ⟨_, hmap _⟩
    · exact ⟨_, hmap _⟩
  intro t ht
  rw [hfile] at ht
  obtain ⟨q, _, he⟩ := Option.map_eq_some_iff.mp (Option.mem_def.mp ht)
  exact ⟨q, he.symm⟩

theorem resolveAll_isNormal (r : Resolver) (path : Path) (requests : List Source.Specifier)
    {found : List (String × Option Path)} (hfound : ∀ x ∈ found, ∀ t ∈ x.2, t.IsNormal)
    (cache : PackageCache) :
    ∀ x ∈ ((resolveAll r disk path requests found).run cache).1, ∀ t ∈ x.2, t.IsNormal := by
  induction requests generalizing found cache with
  | nil => exact hfound
  | cons s rest ih =>
    unfold resolveAll
    split
    · exact ih hfound cache
    · refine ih ?_ ((r.resolve disk s.text path).run cache).2
      intro x hx
      rcases List.mem_append.mp hx with hx | hx
      · exact hfound x hx
      · obtain rfl := List.mem_singleton.mp hx
        exact resolve_isNormal r s.text path cache

theorem loadFrom_isNormal {r : Resolver} {steps : Nat} {queue : List Request}
    {cache : PackageCache} (hqueue : ∀ q ∈ queue, q.path.IsNormal)
    (hp : ∀ f ∈ p.files, f.path.IsNormal) (h : loadFrom r disk steps queue p cache = .ok p') :
    ∀ f ∈ p'.files, f.path.IsNormal := by
  induction steps generalizing queue p cache with
  | zero => exact Except.ok.inj h ▸ hp
  | succ steps ih =>
    cases hnext : nextFile disk p.files queue p.absentRoots with
    | error e =>
      rw [loadFrom, hnext] at h
      cases h
    | ok x =>
      obtain ⟨found, missing⟩ := x
      cases found with
      | none =>
        rw [loadFrom, hnext] at h
        exact Except.ok.inj h ▸ hp
      | some x =>
        obtain ⟨l, rest⟩ := x
        obtain ⟨⟨q, hq, hpath⟩, hrest⟩ := nextFile_mem hnext
        rw [loadFrom_step hnext] at h
        refine ih ?_ ?_ h
        · intro q hq
          rcases List.mem_append.mp hq with hq | hq
          · exact hqueue q (hrest hq)
          · obtain ⟨x, hx, ht⟩ := List.mem_filterMap.mp hq
            obtain ⟨t, htarget, rfl⟩ := Option.map_eq_some_iff.mp ht
            exact resolveAll_isNormal r l.path _ (by simp) cache x hx t htarget
        · intro f hf
          rcases List.mem_append.mp hf with hf | hf
          · exact hp f hf
          · obtain rfl := List.mem_singleton.mp hf
            change l.path.IsNormal
            rw [hpath]
            exact hqueue q hq

theorem load_isNormal {roots : List Path} {options : Options}
    (h : load disk roots options = .ok p) : ∀ f ∈ p.files, f.path.IsNormal := by
  refine loadFrom_isNormal (p := ⟨[], []⟩) ?_ (by simp) h
  intro q hq
  obtain ⟨root, _, rfl⟩ := List.mem_map.mp hq
  exact ⟨root, rfl⟩

theorem load_read {roots : List Path} {options : Options} (h : load disk roots options = .ok p) :
    ∀ f ∈ p.files, disk.read f.path = .ok f.source.text := by
  refine loadFrom_invariant (p := ⟨[], []⟩)
    (I := fun files => ∀ f ∈ files, disk.read f.path = .ok f.source.text) ?_ (by simp) h
  intro files f hfiles hf g hg
  rcases List.mem_append.mp hg with hg | hg
  · exact hfiles g hg
  · exact List.mem_singleton.mp hg ▸ hf.read

/-- Files of a program that are at one place have the same path, but for a step up from the top
folder. -/
theorem load_places {roots : List Path} {options : Options} (h : load disk roots options = .ok p)
    {f g : ProgramMember} (hf : f ∈ p.files) (hg : g ∈ p.files) {loc : Location}
    (hfind : disk.find f.path = .ok loc) (hfind' : disk.find g.path = .ok loc) :
    f = g ∨ f.path.DiffersAbove g.path ∨ g.path.DiffersAbove f.path := by
  have hnormal := load_isNormal h
  rcases (hnormal f hf).eq_or_differsAbove (hnormal g hg) hfind hfind' with he | hd
  · exact Or.inl ((load_distinct h).eq_of_parts hf hg he)
  · exact Or.inr hd

end Program

namespace EditSet

/-- No two sets have the same path. -/
def DistinctSets (sets : List EditSet) : Prop :=
  sets.Pairwise fun s t => s.path.parts ≠ t.path.parts

theorem addTo_distinct {file : SourceFile} {i : Insertion} {name : String} {sets : List EditSet}
    (h : DistinctSets sets) : DistinctSets (addTo file i name sets) := by
  induction sets with
  | nil => exact List.pairwise_singleton _ _
  | cons s rest ih =>
    obtain ⟨hfirst, hrest⟩ := List.pairwise_cons.mp h
    unfold addTo
    split
    · exact List.pairwise_cons.mpr ⟨hfirst, hrest⟩
    · rename_i hother
      refine List.pairwise_cons.mpr ⟨?_, ih hrest⟩
      intro t ht he
      rcases source_of_addTo ht with hsource | ⟨t', ht', hsource⟩
      · apply hother
        rw [Path.same_iff, he, path, hsource]
      · apply hfirst t' ht'
        rw [he, path, hsource]
        rfl

theorem ofDiagnostics_distinct (ds : List Diagnostic) : DistinctSets (ofDiagnostics ds) := by
  suffices hfold : ∀ sets, DistinctSets sets → DistinctSets (ds.foldl gather sets) from
    hfold [] List.Pairwise.nil
  induction ds with
  | nil => exact fun sets h => h
  | cons d ds ih =>
    intro sets h
    apply ih
    unfold gather
    split
    · exact addTo_distinct h
    · exact h

theorem carryOut_of_changed {s : EditSet} {d : Disk} {text current : String}
    (hpatched : s.patched = .ok text) (hread : d.read s.path = .ok current)
    (hchanged : Digest.ofText current ≠ s.digest) :
    s.carryOut true d = .error ⟨.stale s.path, d⟩ := by
  have hwrite : s.write d text = .error ⟨.stale s.path, d⟩ :=
    (write_of_read hread text).trans (if_neg hchanged)
  unfold carryOut
  rw [hpatched]
  exact hwrite

theorem carryOut_ne_stale {s : EditSet} {d : Disk} {e : Setback Disk RunError}
    (hread : d.read s.path = .ok s.source.text) (h : s.carryOut true d = .error e) (path : Path) :
    e.error ≠ .stale path := by
  unfold carryOut at h
  cases hpatched : s.patched with
  | error x =>
    rw [hpatched] at h
    obtain rfl := Except.error.inj h
    simp
  | ok text =>
    rw [hpatched] at h
    change s.write d text = .error e at h
    rw [write_of_source hread] at h
    cases hreplace : FileSystem.replace d s.path text with
    | error x =>
      rw [hreplace] at h
      obtain rfl := Except.error.inj h
      simp
    | ok d' =>
      rw [hreplace] at h
      cases h

/-- Sets for different files that are still what was checked are never stale. -/
theorem applyAll_ne_stale {style : ReportStyle} {sets : List EditSet} {disk : Disk}
    (hfiles : DifferentFiles disk sets) (hread : ∀ s ∈ sets, disk.read s.path = .ok s.source.text)
    (path : Path) : (applyAll style true sets disk).result ≠ .error (.stale path) := by
  intro hstale
  rcases applyAll_run style true sets disk with
    ⟨_, hresult⟩ | ⟨done, s, rest, e, hsets, hdone, hs, hresult⟩
  · rw [hresult] at hstale
    cases hstale
  · obtain rfl := Except.error.inj (hstale.symm.trans hresult)
    rw [hsets] at hfiles
    obtain ⟨_, _, hbetween⟩ := List.pairwise_append.mp hfiles
    have hread' : (applyAll style true sets disk).disk.read s.path = .ok s.source.text := by
      rw [hdone.read_eq fun t ht => hbetween t ht s List.mem_cons_self]
      exact hread s (by simp [hsets])
    exact carryOut_ne_stale hread' hs path rfl

end EditSet

/-! ### Runs -/

variable {disk : Disk} {style : ReportStyle} {config : Path}

/-- The ways in which a run can fail before anything is carried out. -/
def RunError.IsEarly : RunError → Prop
  | .configNotFound _ | .configInvalid _ | .file _ => True
  | .edit _ | .stale _ => False

theorem Config.resolve_error {cwd : Path} {e : RunError}
    (h : Config.resolve disk cwd config = .error e) : e.IsEarly := by
  unfold Config.resolve at h
  dsimp only at h
  split at h
  · rcases error_of_bind h with h | ⟨_, h, _⟩
    · obtain rfl := Except.error.inj h
      trivial
    · cases h
  · rcases error_of_bind h with h | ⟨text, _, h⟩
    · obtain ⟨x, rfl⟩ := error_of_mapError h
      trivial
    rcases error_of_bind h with h | ⟨value, _, h⟩
    · obtain ⟨x, rfl⟩ := error_of_mapError h
      trivial
    split at h
    · cases h
    · obtain rfl := Except.error.inj h
      trivial

theorem planEdits_error {cwd : Path} {e : RunError} (h : planEdits disk cwd config = .error e) :
    e.IsEarly := by
  unfold planEdits at h
  rcases error_of_bind h with h | ⟨c, _, h⟩
  · exact Config.resolve_error h
  rcases error_of_bind h with h | ⟨ds, _, h⟩
  · unfold Config.compile at h
    rcases error_of_bind h with h | ⟨p, _, h⟩
    · obtain ⟨x, rfl⟩ := error_of_mapError h
      trivial
    · cases h
  · cases h

theorem planEdits_ne_stale {cwd : Path} {e : RunError}
    (h : planEdits disk cwd config = .error e) (path : Path) : e ≠ .stale path := by
  rintro rfl
  exact planEdits_error h

theorem Config.compile_ok {c : Config} {ds : List Diagnostic} (h : c.compile disk = .ok ds) :
    ∃ p, Program.load disk (c.allRoots disk) c.options.forced = .ok p ∧
      ds = p.check c.options.forced := by
  unfold Config.compile at h
  obtain ⟨p, hload, hcheck⟩ := ok_of_bind h
  refine ⟨p, ?_, (Except.ok.inj hcheck).symm⟩
  cases hresult : Program.load disk (c.allRoots disk) c.options.forced with
  | error e =>
    rw [hresult] at hload
    cases hload
  | ok q =>
    rw [hresult] at hload
    exact congrArg Except.ok (Except.ok.inj hload)

/-- What a run has planned, if it comes so far. -/
theorem planEdits_ok {cwd : Path} {sets : List EditSet} (h : planEdits disk cwd config = .ok sets) :
    ∃ c p, Config.resolve disk cwd config = .ok c ∧
      Program.load disk (c.allRoots disk) c.options.forced = .ok p ∧
      sets = EditSet.ofDiagnostics (fixable (p.check c.options.forced)) := by
  unfold planEdits at h
  obtain ⟨c, hconfig, h⟩ := ok_of_bind h
  obtain ⟨ds, hcompile, h⟩ := ok_of_bind h
  obtain ⟨p, hload, rfl⟩ := Config.compile_ok hcompile
  exact ⟨c, p, hconfig, hload, (Except.ok.inj h).symm⟩

/-- However files are asked for, two of them are at one place only if one has the path of the other
with a step up from the top folder. Where that is not so, no file is patched twice, and a run never
finds a file changed. -/
theorem run_not_stale
    (hplaces : ∀ c p, Config.resolve disk style.cwd config = .ok c →
      Program.load disk (c.allRoots disk) c.options.forced = .ok p →
      ∀ f ∈ p.files, ∀ g ∈ p.files, ¬ f.path.DiffersAbove g.path) :
    (∀ roots options p, Program.load disk roots options = .ok p →
      ∀ f ∈ p.files, ∀ g ∈ p.files, ∀ loc,
        disk.find f.path = .ok loc → disk.find g.path = .ok loc →
        f = g ∨ f.path.DiffersAbove g.path ∨ g.path.DiffersAbove f.path) ∧
    (∀ sets, planEdits disk style.cwd config = .ok sets → EditSet.DifferentFiles disk sets) ∧
    ∀ path, (fixProject disk style true config).result ≠ .error (.stale path) := by
  have hfiles (sets : List EditSet) (hplan : planEdits disk style.cwd config = .ok sets) :
      EditSet.DifferentFiles disk sets := by
    obtain ⟨c, p, hconfig, hload, rfl⟩ := planEdits_ok hplan
    refine List.Pairwise.imp_of_mem ?_ (EditSet.ofDiagnostics_distinct _)
    intro s t hs ht hne loc hloc hloc'
    obtain ⟨f, hf, hsource⟩ := source_of_planned hs
    obtain ⟨g, hg, hsource'⟩ := source_of_planned ht
    have hpath : s.path = f.path := congrArg SourceFile.path hsource
    have hpath' : t.path = g.path := congrArg SourceFile.path hsource'
    rw [hpath] at hloc
    rw [hpath'] at hloc'
    rcases Program.load_places hload hf hg hloc hloc' with rfl | habove | habove
    · exact hne (by rw [hpath, hpath'])
    · exact hplaces c p hconfig hload f hf g hg habove
    · exact hplaces c p hconfig hload g hg f hf habove
  refine ⟨?_, hfiles, ?_⟩
  · intro roots options p hload f hf g hg loc
    exact Program.load_places hload hf hg
  intro path
  unfold fixProject
  cases hplan : planEdits disk style.cwd config with
  | error e =>
    intro h
    exact planEdits_ne_stale hplan path (Except.error.inj h)
  | ok sets =>
    apply EditSet.applyAll_ne_stale (hfiles sets hplan)
    obtain ⟨c, p, hconfig, hload, rfl⟩ := planEdits_ok hplan
    intro s hs
    obtain ⟨f, hf, hsource⟩ := source_of_planned hs
    rw [EditSet.path, hsource]
    exact Program.load_read hload f hf

set_option maxRecDepth 4096 in
theorem run_not_stale_named : ∃ sets,
    planEdits (namedDisk "") plainStyle.cwd ⟨"tsconfig.json"⟩ = .ok sets ∧
    EditSet.DifferentFiles (namedDisk "") sets ∧
    ∀ path, (fixProject (namedDisk "") plainStyle true ⟨"tsconfig.json"⟩).result ≠
      .error (.stale path) := by
  have hconfig : Config.resolve (namedDisk "") plainStyle.cwd ⟨"tsconfig.json"⟩ =
      .ok ⟨⟨"/tsconfig.json"⟩, ∅, [⟨"/b.ts"⟩]⟩ := Config.eq_of_fields (by decide +kernel)
  have hroots : Config.allRoots (namedDisk "") ⟨⟨"/tsconfig.json"⟩, ∅, [⟨"/b.ts"⟩]⟩ =
      [⟨"/b.ts"⟩] := by decide +kernel
  have hfacts : (Program.load (namedDisk "") [⟨"/b.ts"⟩] (Options.forced ∅)).toOption.map
      (fun p => p.files.all fun f => f.path.parts[1]? ≠ some .up) = some true := by decide +kernel
  obtain ⟨p, hload, hfiles⟩ := exists_of_toOption_map hfacts
  rw [← hroots] at hload
  have hplaces : ∀ c p, Config.resolve (namedDisk "") plainStyle.cwd ⟨"tsconfig.json"⟩ = .ok c →
      Program.load (namedDisk "") (c.allRoots (namedDisk "")) c.options.forced = .ok p →
      ∀ f ∈ p.files, ∀ g ∈ p.files, ¬ f.path.DiffersAbove g.path := by
    intro c q hconfig' hload' f hf g _
    obtain rfl := Except.ok.inj (hconfig.symm.trans hconfig')
    obtain rfl := Except.ok.inj (hload.symm.trans hload')
    rintro ⟨rest, habove, _⟩
    have hpart := List.all_eq_true.mp hfiles f hf
    simp [habove] at hpart
  have hplan := planEdits_eq hconfig hload
  obtain ⟨_, hdifferent, hstale⟩ := run_not_stale hplaces
  exact ⟨_, hplan, hdifferent _ hplan, hstale⟩

theorem Diagnostic.arrange_pair {a b : Diagnostic} (hle : a.le b = true)
    (hother : same a b = false) : Diagnostic.arrange [a, b] = [a, b] := by
  have hsorted : [a, b].mergeSort le = [a, b] :=
    List.mergeSort_of_pairwise (List.pairwise_pair.mpr hle)
  simp [arrange, hsorted, dropRepeated, dropAfter, hother]

/-- A project with one file under two paths, before and after it is marked. -/
def aboveDisk (marker : String) : Disk :=
  .ofTexts [("tsconfig.json", "\x7b\"files\": [\"/../b.ts\", \"b.ts\"]\x7d"),
    ("a.ts", "export type T = 1"), ("b.ts", "import \x7b " ++ marker ++ "T \x7d from './a'")]

def aboveFinding (path : Path) : Diagnostic :=
  .inFile (.typeImported "T") ⟨path, "import { T } from './a'"⟩ ⟨9, 1⟩

def aboveEdits (path : Path) : EditSet :=
  ⟨⟨path, "import { T } from './a'"⟩, [⟨9, "type ", .import_⟩], ["T"]⟩

theorem aboveEdits_patched (path : Path) :
    (aboveEdits path).patched = .ok "import { type T } from './a'" := by
  have hsplice : (Insertion.splice [⟨9, "type ", .import_⟩] 0 "import { T } from './a'".toList).map
      String.ofList = .ok "import { type T } from './a'" := by decide +kernel
  rw [← hsplice]
  exact Insertion.apply_single _ _

set_option maxRecDepth 4096 in
/-- The file is patched under its first path, and is not what was checked under the second one. -/
theorem run_stale_above_root :
    (fixProject (aboveDisk "") plainStyle true ⟨"tsconfig.json"⟩).result =
      .error (.stale ⟨"/b.ts"⟩) := by
  have hconfig : Config.resolve (aboveDisk "") plainStyle.cwd ⟨"tsconfig.json"⟩ =
      .ok ⟨⟨"/tsconfig.json"⟩, ∅, [⟨"/../b.ts"⟩, ⟨"/b.ts"⟩]⟩ :=
    Config.eq_of_fields (by decide +kernel)
  have hroots : Config.allRoots (aboveDisk "") ⟨⟨"/tsconfig.json"⟩, ∅, [⟨"/../b.ts"⟩, ⟨"/b.ts"⟩]⟩ =
      [⟨"/../b.ts"⟩, ⟨"/b.ts"⟩] := by decide +kernel
  have hfacts : (Program.load (aboveDisk "") [⟨"/../b.ts"⟩, ⟨"/b.ts"⟩]
      (Options.forced ∅)).toOption.map (fun p => p.problems (Options.forced ∅).verbatim) =
        some [aboveFinding ⟨"/../b.ts"⟩, aboveFinding ⟨"/b.ts"⟩] := by decide +kernel
  obtain ⟨p, hload, hproblems⟩ := exists_of_toOption_map hfacts
  rw [← hroots] at hload
  have harrange : Diagnostic.arrange [aboveFinding ⟨"/../b.ts"⟩, aboveFinding ⟨"/b.ts"⟩] =
      [aboveFinding ⟨"/../b.ts"⟩, aboveFinding ⟨"/b.ts"⟩] :=
    Diagnostic.arrange_pair (by decide +kernel) (by decide +kernel)
  have hsets : EditSet.ofDiagnostics (fixable (p.check (Options.forced ∅))) =
      [aboveEdits ⟨"/../b.ts"⟩, aboveEdits ⟨"/b.ts"⟩] := by
    rw [Program.check_eq_arrange, hproblems, harrange]
    rfl
  have hfirst : (aboveEdits ⟨"/../b.ts"⟩).carryOut true (aboveDisk "") =
      .ok (aboveDisk "type ") :=
    EditSet.carryOut_of_read (aboveEdits_patched _) (by decide +kernel)
      (Disk.eq_of_entries (by decide +kernel))
  have hsecond : (aboveEdits ⟨"/b.ts"⟩).carryOut true (aboveDisk "type ") =
      .error ⟨.stale ⟨"/b.ts"⟩, aboveDisk "type "⟩ := by
    have hread : (aboveDisk "type ").read ⟨"/b.ts"⟩ = .ok "import { type T } from './a'" := by
      decide +kernel
    have hdigest : Digest.ofText "import { type T } from './a'" ≠
        (aboveEdits ⟨"/b.ts"⟩).digest := by decide +kernel
    exact EditSet.carryOut_of_changed (aboveEdits_patched _) hread hdigest
  have hdone : EditSet.CarriedOut true [aboveEdits ⟨"/../b.ts"⟩] (aboveDisk "")
      (aboveDisk "type ") := .cons hfirst (.nil _)
  unfold fixProject
  rw [planEdits_eq hconfig hload]
  dsimp only
  rw [hsets]
  exact (EditSet.applyAll_error hdone hsecond).1

end TypeOnly
