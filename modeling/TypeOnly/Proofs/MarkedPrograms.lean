import Mathlib.Data.List.Basic
import TypeOnly.Proofs.DiagnosticSources
import TypeOnly.Proofs.ListFacts
import TypeOnly.Proofs.LoadedPrograms
import TypeOnly.Proofs.UnmarkedLookup

/-!
Marking what is told to be a type. In the marked program nothing is left to mark, and all that is
told of it otherwise is what was told before.
-/

namespace TypeOnly

set_option autoImplicit false

open Source (Scope Import Export Outline)
open Text (Span)

/-- Whether a number is told of a place in a file. -/
def flagged (ds : List Diagnostic) (code : Nat) (path : Path) (span : Span) : Bool :=
  ds.any fun d =>
    d.code == code && d.path?.map Path.parts == some path.parts && d.span == span

section Mark

variable (ds : List Diagnostic)

/-- Marks an import that is told to be of a type. -/
def Source.Import.mark (path : Path) (b : Import) : Import :=
  { b with typeOnly := b.typeOnly || flagged ds 1484 path b.span }

/-- Marks an export that is told to be of a type. -/
def Source.Export.mark (path : Path) (e : Export) : Export :=
  { e with typeOnly := e.typeOnly || e.span.any (flagged ds 1205 path) }

def Source.Scope.mark (path : Path) (s : Scope) : Scope :=
  { s with imports := s.imports.map (Import.mark ds path)
           exports := s.exports.map (Export.mark ds path) }

def Source.Outline.mark (path : Path) (o : Outline) : Outline :=
  { o.toScope.mark ds path with namedModules := o.namedModules }

def ProgramMember.mark (f : ProgramMember) : ProgramMember :=
  { f with parsed := ⟨f.outline.map (Outline.mark ds f.path), f.parsed.issues⟩ }

/-- The program with everything marked that is told to be a type. -/
def Program.mark (p : Program) : Program := { p with files := p.files.map (ProgramMember.mark ds) }

theorem Source.Import.plain_mark (path : Path) (b : Import) : (b.mark ds path).plain = b.plain :=
  rfl

theorem Source.Export.plain_mark (path : Path) (e : Export) : (e.mark ds path).plain = e.plain :=
  rfl

theorem Source.Scope.plain_mark (path : Path) (s : Scope) : (s.mark ds path).plain = s.plain := by
  simp only [Scope.mark, Scope.plain, List.map_map]
  rfl

theorem Source.Outline.plain_mark (path : Path) (o : Outline) :
    (o.mark ds path).plain = o.plain := by
  simp only [Outline.mark, Outline.plain, Scope.plain_mark]

theorem ProgramMember.plain_mark (f : ProgramMember) : (f.mark ds).plain = f.plain := by
  have houtline : (f.mark ds).outline = f.outline.map (Outline.mark ds f.path) := rfl
  unfold ProgramMember.plain
  rw [houtline]
  cases f.outline with
  | none => rfl
  | some o =>
    simp only [Option.map_some, Outline.plain_mark]
    rfl

theorem Program.plain_mark (p : Program) : (p.mark ds).plain = p.plain := by
  simp only [Program.mark, Program.plain, List.map_map]
  congr 1
  apply List.map_congr_left
  intro f _
  exact f.plain_mark ds

theorem ModuleView.scope_mark (f : ProgramMember) :
    (ModuleView.ofFile (f.mark ds)).scope =
      (ModuleView.ofFile f).scope.map (Scope.mark ds f.path) := by
  have houtline : (f.mark ds).outline = f.outline.map (Outline.mark ds f.path) := rfl
  simp only [ModuleView.ofFile, houtline, Option.map_map]
  rfl

end Mark

namespace Program

variable {p p' : Program} {verbatim : Bool}

/-! ### Answers in programs of the same plain form -/

/-- A lead is followed to the same answer, up to the mark. -/
theorem answer_plain (hp : p'.plain = p.plain) {l l' : Lead} (hl : l'.plain = l.plain) :
    ((l'.run p'.exported).run []).1.plain = ((l.run p.exported).run []).1.plain := by
  have h := congrArg Prod.fst (Lead.run_plain p.exported_plain l [])
  have h' := congrArg Prod.fst (Lead.run_plain p'.exported_plain l' [])
  rw [hp, hl] at h'
  exact h'.symm.trans h

theorem isSome_moduleFor? (hp : p'.plain = p.plain) {m m' : ModuleView} (hm : m'.plain = m.plain)
    (specifier : String) :
    (p'.moduleFor? m' specifier).isSome = (p.moduleFor? m specifier).isSome := by
  have h := congrArg Option.isSome (p.moduleFor?_plain m specifier)
  have h' := congrArg Option.isSome (p'.moduleFor?_plain m' specifier)
  rw [hp, hm] at h'
  simp only [Option.isSome_map] at h h'
  exact h'.symm.trans h

theorem import_answer_plain (hp : p'.plain = p.plain) {m m' : ModuleView}
    (hm : m'.plain = m.plain) {b b' : Import} (hb : b'.plain = b.plain) :
    (((p'.importLead m' b').run p'.exported).run []).1.plain =
      (((p.importLead m b).run p.exported).run []).1.plain := by
  apply answer_plain hp
  rw [← p.importLead_plain, ← p'.importLead_plain, hp, hm, hb]

theorem export_answer_plain (hp : p'.plain = p.plain) {m m' : ModuleView}
    (hm : m'.plain = m.plain) {s s' : Scope} (hs : s'.plain = s.plain) {e e' : Export}
    (he : e'.plain = e.plain) :
    (((p'.originLead m' s' e').run p'.exported).run []).1.plain =
      (((p.originLead m s e).run p.exported).run []).1.plain := by
  apply answer_plain hp
  rw [← p.originLead_plain, ← p'.originLead_plain, hp, hm, hs, he]

/-! ### What marks do not change -/

/-- The numbers of all that no mark can mend. -/
def lastingCodes : List Nat := [1005, 1192, 2304, 2305, 2307, 6053]

def lasting (d : Diagnostic) : Bool := d.code ∈ lastingCodes

def lastingProblem (q : Problem) : Bool := q.code ∈ lastingCodes

theorem importVerdict_found_lasting (b : Import) (t : Referent) :
    (importVerdict verbatim b (.found t)).filter lastingProblem = none := by
  apply Option.filter_eq_none_iff.mpr
  intro q hq
  rcases importVerdict_eq_some.mp hq with ⟨h, _⟩ | ⟨_, _, _, _, ⟨_, rfl⟩ | ⟨_, _, rfl⟩⟩
  · cases h
  · simp [lastingProblem, lastingCodes, Problem.code]
  · simp [lastingProblem, lastingCodes, Problem.code]

theorem exportVerdict_found_lasting (e : Export) (t : Referent) :
    (exportVerdict verbatim e (.found t)).filter lastingProblem = none := by
  apply Option.filter_eq_none_iff.mpr
  intro q hq
  rcases exportVerdict_eq_some hq with ⟨h, _⟩ | ⟨_, _, _, _, _, ⟨_, rfl⟩ | ⟨_, _, rfl⟩⟩
  · cases h
  · simp [lastingProblem, lastingCodes, Problem.code]
  · simp [lastingProblem, lastingCodes, Problem.code]

/-- Answers of the same plain form differ at most in what a mark can mend. -/
theorem importVerdict_lasting {b b' : Import} (hb : b'.plain = b.plain) {a a' : Answer}
    (ha : a'.plain = a.plain) :
    (importVerdict verbatim b' a').filter lastingProblem =
      (importVerdict verbatim b a).filter lastingProblem := by
  obtain ⟨_, himported, hsource⟩ := Import.plain_eq_plain.mp hb
  cases a <;> cases a' <;> simp only [Answer.plain, reduceCtorEq] at ha
  · rw [importVerdict_found_lasting, importVerdict_found_lasting]
  · simp only [importVerdict, hsource, himported]
  · rfl

theorem exportVerdict_lasting {e e' : Export} (he : e'.plain = e.plain) {a a' : Answer}
    (ha : a'.plain = a.plain) :
    (exportVerdict verbatim e' a').filter lastingProblem =
      (exportVerdict verbatim e a).filter lastingProblem := by
  have htarget := (Export.plain_eq_plain.mp he).2.1
  cases a <;> cases a' <;> simp only [Answer.plain, reduceCtorEq] at ha
  · rw [exportVerdict_found_lasting, exportVerdict_found_lasting]
  · simp only [exportVerdict, htarget]
  · simp only [exportVerdict, htarget]

theorem importProblem_lasting (hp : p'.plain = p.plain) {m m' : ModuleView}
    (hm : m'.plain = m.plain) {b b' : Import} (hb : b'.plain = b.plain) :
    (p'.importProblem? verbatim m' b').filter lastingProblem =
      (p.importProblem? verbatim m b).filter lastingProblem := by
  have himported := (Import.plain_eq_plain.mp hb).2.1
  rw [importProblem?_eq_verdict, importProblem?_eq_verdict, himported]
  split
  · rfl
  · exact importVerdict_lasting hb (import_answer_plain hp hm hb)

theorem exportProblem_lasting (hp : p'.plain = p.plain) {m m' : ModuleView}
    (hm : m'.plain = m.plain) {s s' : Scope} (hms : m.scope = some s) (hms' : m'.scope = some s')
    (hs : s'.plain = s.plain) {e e' : Export} (he : e'.plain = e.plain) :
    (p'.exportProblem? verbatim m' e').filter lastingProblem =
      (p.exportProblem? verbatim m e).filter lastingProblem := by
  rw [exportProblem?_eq_verdict hms, exportProblem?_eq_verdict hms']
  exact exportVerdict_lasting he (export_answer_plain hp hm hs he)

theorem filter_told (q : Option Problem) (file : SourceFile) (span : Span) :
    (q.map fun problem => Diagnostic.inFile problem file span).filter lasting =
      (q.filter lastingProblem).map fun problem => Diagnostic.inFile problem file span :=
  Option.filter_map

theorem scopeDiagnostics_lasting (ds : List Diagnostic) (f : ProgramMember) :
    ((p.mark ds).scopeDiagnostics verbatim (f.mark ds)).filter lasting =
      (p.scopeDiagnostics verbatim f).filter lasting := by
  have hp := p.plain_mark ds
  have hm : (ModuleView.ofFile (f.mark ds)).plain = (ModuleView.ofFile f).plain := by
    rw [← ModuleView.ofFile_plain, ← ModuleView.ofFile_plain, f.plain_mark]
  have hscope := ModuleView.scope_mark ds f
  have hsource : (f.mark ds).source = f.source := rfl
  unfold scopeDiagnostics
  rw [hsource]
  cases hs : (ModuleView.ofFile f).scope with
  | none => simp only [hscope, hs, Option.map_none]
  | some s =>
    rw [hs, Option.map_some] at hscope
    simp only [hscope, hs, List.filter_append, List.filter_filterMap, isSome_moduleFor? hp hm,
      Scope.mark, List.filterMap_map]
    congr 1
    · congr 1
      apply List.filterMap_congr
      intro b _
      simp only [Function.comp_apply, filter_told]
      rw [importProblem_lasting hp hm (b.plain_mark ds f.path)]
      rfl
    · apply List.filterMap_congr
      intro e _
      have hspan : (e.mark ds f.path).span = e.span := rfl
      simp only [Function.comp_apply, hspan]
      cases e.span with
      | none => rfl
      | some span =>
        simp only [bind_pure_comp]
        simp only [Option.bind_eq_bind, Option.bind_some, Option.map_eq_map, filter_told]
        rw [exportProblem_lasting hp hm hs hscope (s.plain_mark ds f.path)
          (e.plain_mark ds f.path)]

theorem problems_lasting (ds : List Diagnostic) (p : Program) :
    ((p.mark ds).problems verbatim).filter lasting = (p.problems verbatim).filter lasting := by
  have habsent : (p.mark ds).absentRoots = p.absentRoots := rfl
  have hfiles : (p.mark ds).files = p.files.map (ProgramMember.mark ds) := rfl
  simp only [problems, habsent, hfiles, List.filter_append, List.filter_flatMap, List.flatMap_map]
  congr 1
  apply List.flatMap_congr
  intro f _
  have hown : (f.mark ds).isOwnSource = f.isOwnSource := rfl
  simp only [fileDiagnostics, hown, List.filter_append]
  congr 1
  split
  · exact scopeDiagnostics_lasting ds f
  · rfl

/-- What is told of a file names it by its path, which no other file has. -/
theorem coherent_problems (hp : DistinctPaths p.files) :
    Diagnostic.Coherent (p.problems verbatim) := by
  intro a ha b hb hsame
  have hparts := (Diagnostic.same_iff.mp hsame).1
  unfold Diagnostic.path? at hparts ⊢
  rcases file_of_mem_problems ha with hna | ⟨f, hf, hfa⟩
  · rcases file_of_mem_problems hb with hnb | ⟨g, _, hgb⟩
    · rw [hna, hnb]
    · simp [hna, hgb] at hparts
  · rcases file_of_mem_problems hb with hnb | ⟨g, hg, hgb⟩
    · simp [hfa, hnb] at hparts
    · have hfg : f = g :=
        hp.eq_of_parts hf hg (by simpa [hfa, hgb, ProgramMember.path] using hparts)
      rw [hfa, hgb, hfg]

theorem DistinctPaths.mark (ds : List Diagnostic) (hp : DistinctPaths p.files) :
    DistinctPaths (p.mark ds).files := by
  have hpaths : ((p.mark ds).files.map fun f => f.path.parts) =
      p.files.map fun f => f.path.parts := by
    simp only [Program.mark, List.map_map]
    rfl
  unfold DistinctPaths
  rw [hpaths]
  exact hp

theorem check_lasting (hp : DistinctPaths p.files) (ds : List Diagnostic) (o : Options) :
    ((p.mark ds).check o).filter lasting = (p.check o).filter lasting := by
  have hcode (a b : Diagnostic) (h : a.code = b.code) : lasting a = lasting b := by
    simp only [lasting, h]
  rw [check_eq_arrange, check_eq_arrange,
    Diagnostic.filter_arrange hcode (coherent_problems (hp.mark ds)),
    Diagnostic.filter_arrange hcode (coherent_problems hp), problems_lasting]

/-! ### What is left to mark -/

/-- One program is another one, read again with everything marked that is told to be a type. -/
def Rereads (ds : List Diagnostic) (p p' : Program) : Prop := p'.placeless = (p.mark ds).placeless

theorem rereads_mark (ds : List Diagnostic) (p : Program) : Rereads ds p (p.mark ds) := rfl

variable {ds : List Diagnostic} {f f' : ProgramMember} {s s' : Scope}

theorem Rereads.plain (h : Rereads ds p p') : p'.plain = p.plain := by
  rw [← p'.plain_placeless, h, Program.plain_placeless, Program.plain_mark]

theorem Rereads.absentRoots (h : Rereads ds p p') : p'.absentRoots = p.absentRoots := by
  have he : p'.placeless = (p.mark ds).placeless := h
  change p'.placeless.absentRoots = (p.mark ds).placeless.absentRoots
  rw [he]

theorem Rereads.files (h : Rereads ds p p') :
    p'.files.map ProgramMember.placeless = p.files.map fun f => (f.mark ds).placeless := by
  refine (congrArg Program.files h).trans ?_
  simp only [Program.placeless, Program.mark, List.map_map]
  rfl

theorem rereads_of_files
    (hfiles : p'.files.map ProgramMember.placeless = p.files.map fun f => (f.mark ds).placeless)
    (habsent : p'.absentRoots = p.absentRoots) : Rereads ds p p' := by
  simp only [Rereads, Program.placeless, Program.mark, List.map_map, hfiles, habsent]
  rfl

theorem Rereads.file (h : Rereads ds p p') (hf' : f' ∈ p'.files) :
    ∃ f ∈ p.files, f'.placeless = (f.mark ds).placeless :=
  exists_of_map_eq h.files hf'

theorem scope_of_placeless (h : f'.placeless = (f.mark ds).placeless)
    (hs' : (ModuleView.ofFile f').scope = some s') :
    ∃ s, (ModuleView.ofFile f).scope = some s ∧ s'.placeless = (s.mark ds f.path).placeless := by
  have hscope (g : ProgramMember) : (ModuleView.ofFile g.placeless).scope =
      (ModuleView.ofFile g).scope.map Scope.placeless := by
    have houtline : g.placeless.outline = g.outline.map Outline.placeless := rfl
    simp only [ModuleView.ofFile, houtline, Option.map_map]
    rfl
  have he := congrArg (fun g => (ModuleView.ofFile g).scope) h
  simp only [hscope, hs', ModuleView.scope_mark, Option.map_some, Option.map_map] at he
  obtain ⟨s, hs, hplaceless⟩ := Option.map_eq_some_iff.mp he.symm
  exact ⟨s, hs, hplaceless.symm⟩

/-- The file that was read first, for one that was read again. -/
theorem Rereads.member (h : Rereads ds p p') (hf' : f' ∈ p'.files)
    (hs' : (ModuleView.ofFile f').scope = some s') :
    ∃ f ∈ p.files, ∃ s, (ModuleView.ofFile f).scope = some s ∧
      s'.placeless = (s.mark ds f.path).placeless ∧ f.isOwnSource = f'.isOwnSource ∧
      (ModuleView.ofFile f').plain = (ModuleView.ofFile f).plain := by
  obtain ⟨f, hf, hfile⟩ := h.file hf'
  obtain ⟨s, hs, hscope⟩ := scope_of_placeless hfile hs'
  refine ⟨f, hf, s, hs, hscope, (congrArg ProgramMember.isOwnSource hfile).symm, ?_⟩
  rw [← ModuleView.ofFile_plain, ← ModuleView.ofFile_plain, ← f'.plain_placeless, hfile,
    ProgramMember.plain_placeless, ProgramMember.plain_mark]

theorem import_of_placeless {path : Path} (h : s'.placeless = (s.mark ds path).placeless)
    {b' : Import} (hb' : b' ∈ s'.imports) :
    ∃ b ∈ s.imports, b'.plain = b.plain ∧
      b'.typeOnly = (b.typeOnly || flagged ds 1484 path b.span) := by
  have himports := congrArg Scope.imports h
  simp only [Scope.placeless, Scope.mark, List.map_map] at himports
  obtain ⟨b, hb, he⟩ := exists_of_map_eq himports hb'
  exact ⟨b, hb, congrArg (fun b => { b with typeOnly := false }) he, congrArg Import.typeOnly he⟩

theorem export_of_placeless {path : Path} (h : s'.placeless = (s.mark ds path).placeless)
    {e' : Export} (he' : e' ∈ s'.exports) :
    ∃ e ∈ s.exports, e'.plain = e.plain ∧
      e'.typeOnly = (e.typeOnly || e.span.any (flagged ds 1205 path)) := by
  have hexports := congrArg Scope.exports h
  simp only [Scope.placeless, Scope.mark, List.map_map] at hexports
  obtain ⟨e, he, heq⟩ := exists_of_map_eq hexports he'
  exact ⟨e, he, congrArg (fun e => { e with typeOnly := false }) heq,
    congrArg Export.typeOnly heq⟩

/-- What is wrong at a place is told of it. -/
theorem flagged_of_mem {o : Options} {d : Diagnostic} {path : Path}
    (hd : d ∈ p.problems o.verbatim) (hpath : d.path? = some path) :
    flagged (p.check o) d.code path d.span = true := by
  obtain ⟨d', hd', hsame⟩ := Diagnostic.exists_same_arrange hd
  obtain ⟨hparts, hspan, hcode, _⟩ := Diagnostic.same_iff.mp hsame
  apply List.any_eq_true.mpr
  refine ⟨d', hd', ?_⟩
  simp [hcode, hspan, hparts, hpath]

variable {o : Options}

theorem Rereads.import_settled (h : Rereads (p.check o) p p') (hf' : f' ∈ p'.files)
    (hown : f'.isOwnSource = true) (hs' : (ModuleView.ofFile f').scope = some s') {b' : Import}
    (hb' : b' ∈ s'.imports) {q : Problem}
    (hq : p'.importProblem? o.verbatim (.ofFile f') b' = some q) :
    q.code ≠ 1484 ∧ q.code ≠ 1205 := by
  rw [importProblem?_eq_verdict] at hq
  split at hq
  · simp at hq
  rename_i hwhole
  rcases importVerdict_eq_some.mp hq with
    ⟨_, rfl⟩ | ⟨t', ha', hv, hmark, ⟨hvalue, rfl⟩ | ⟨_, _, rfl⟩⟩
  · rcases absentExport_code b'.source b'.imported with hcode | hcode <;> simp [hcode]
  · -- The same import was told of in the program that was read first, and was marked for it.
    exfalso
    obtain ⟨f, hf, s, hs, hscope, hown', hm⟩ := h.member hf' hs'
    obtain ⟨b, hb, hplain, htype⟩ := import_of_placeless hscope hb'
    rw [hmark, eq_comm, Bool.or_eq_false_iff] at htype
    have hanswer := import_answer_plain h.plain hm hplain
    rw [ha'] at hanswer
    obtain ⟨t, ha, hmeaning⟩ := Answer.found_of_plain hanswer
    have hproblem : p.importProblem? o.verbatim (.ofFile f) b =
        some (.typeImported (importedName b)) := by
      have himported := (Import.plain_eq_plain.mp hplain).2.1
      rw [importProblem?_eq_verdict, if_neg (himported ▸ hwhole), ha]
      exact importVerdict_eq_some.mpr
        (Or.inr ⟨t, rfl, hv, htype.1, Or.inl ⟨hmeaning ▸ hvalue, rfl⟩⟩)
    have htold := mem_problems.mpr
      (Or.inr ⟨f, hf, Or.inr ⟨hown'.trans hown, s, hs, .import_ hb hproblem⟩⟩)
    have hflagged := flagged_of_mem htold rfl
    exact Bool.false_ne_true (htype.2.symm.trans hflagged)
  · simp [Problem.code]

/-- Which entries are told to be of a type depends on where they come from, not on their marks. -/
theorem exportVerdict_type {e e' : Export} (htarget : e'.target = e.target) {a' : Answer}
    {t : Referent} (h : exportVerdict verbatim e' a' = some .typeReExported)
    (hv : verbatim = true) (hmark : e.typeOnly = false) (hvalue : t.meaning.value = false) :
    exportVerdict verbatim e (.found t) = some .typeReExported := by
  unfold exportVerdict at h ⊢
  rw [htarget] at h
  cases he : e.target with
  | declared meaning => simp [he] at h
  | whole source => simp [he] at h
  | local_ name => exact unmarked_iff.mpr ⟨hv, hmark, Or.inl ⟨hvalue, rfl⟩⟩
  | remote source name => exact unmarked_iff.mpr ⟨hv, hmark, Or.inl ⟨hvalue, rfl⟩⟩

theorem Rereads.export_settled (h : Rereads (p.check o) p p') (hf' : f' ∈ p'.files)
    (hown : f'.isOwnSource = true) (hs' : (ModuleView.ofFile f').scope = some s') {e' : Export}
    (he' : e' ∈ s'.exports) (hspan' : e'.span ≠ none) {q : Problem}
    (hq : p'.exportProblem? o.verbatim (.ofFile f') e' = some q) :
    q.code ≠ 1484 ∧ q.code ≠ 1205 := by
  rw [exportProblem?_eq_verdict hs'] at hq
  rcases exportVerdict_eq_some hq with
    ⟨_, hcode⟩ | ⟨t', name, ha', hv, hmark, ⟨hvalue, rfl⟩ | ⟨_, _, rfl⟩⟩
  · rcases hcode with hcode | hcode | hcode <;> simp [hcode]
  · exfalso
    obtain ⟨f, hf, s, hs, hscope, hown', hm⟩ := h.member hf' hs'
    obtain ⟨e, he, hplain, htype⟩ := export_of_placeless hscope he'
    rw [hmark, eq_comm, Bool.or_eq_false_iff] at htype
    have hscope_plain : s'.plain = s.plain := by
      rw [← s'.plain_placeless, hscope, Scope.plain_placeless, Scope.plain_mark]
    have hanswer := export_answer_plain h.plain hm hscope_plain hplain
    rw [ha'] at hanswer
    obtain ⟨t, ha, hmeaning⟩ := Answer.found_of_plain hanswer
    obtain ⟨_, htarget, hspan⟩ := Export.plain_eq_plain.mp hplain
    obtain ⟨span, he_span⟩ : ∃ span, e.span = some span := by
      cases hcase : e.span with
      | some span => exact ⟨span, rfl⟩
      | none =>
        rw [hcase, Option.map_none, Option.map_eq_none_iff] at hspan
        exact False.elim (hspan' hspan)
    have hproblem : p.exportProblem? o.verbatim (.ofFile f) e = some .typeReExported := by
      rw [exportProblem?_eq_verdict hs, ha]
      exact exportVerdict_type htarget hq hv htype.1 (hmeaning ▸ hvalue)
    have htold := mem_problems.mpr
      (Or.inr ⟨f, hf, Or.inr ⟨hown'.trans hown, s, hs, .export_ he he_span hproblem⟩⟩)
    have hflagged : flagged (p.check o) 1205 f.path span = true := flagged_of_mem htold rfl
    rw [he_span, Option.any_some, hflagged] at htype
    exact Bool.false_ne_true htype.2.symm
  · simp [Problem.code]

/-- In a program that was read again with its marks, nothing is left to mark. -/
theorem Rereads.settled (h : Rereads (p.check o) p p') {d : Diagnostic} (hd : d ∈ p'.check o) :
    d.code ≠ 1484 ∧ d.code ≠ 1205 := by
  rw [check_eq_arrange] at hd
  rcases mem_problems.mp (Diagnostic.mem_of_mem_arrange hd) with
    ⟨path, _, rfl⟩ | ⟨f', hf', ⟨i, _, rfl⟩ | ⟨hown, s', hs', htold⟩⟩
  · simp [Diagnostic.global, Problem.code]
  · simp [Diagnostic.inFile, Problem.code]
  · cases htold with
    | request => simp [Diagnostic.inFile, Problem.code]
    | import_ hb' hq => exact h.import_settled hf' hown hs' hb' hq
    | export_ he' hspan hq =>
      exact h.export_settled hf' hown hs' he' (by rw [hspan]; simp) hq

/-- Marking what is told to be a type takes one step: of the marked program nothing of the kind is
told any more, and all else is told as before. -/
theorem marking_settles {disk : Disk} {roots : List Path} {options : Options}
    (hload : load disk roots options = .ok p) (o : Options) :
    (∀ d ∈ (p.mark (p.check o)).check o, d.code ≠ 1484 ∧ d.code ≠ 1205) ∧
      ((p.mark (p.check o)).check o).filter lasting = (p.check o).filter lasting := by
  refine ⟨?_, check_lasting (load_distinct hload) (p.check o) o⟩
  intro d hd
  exact (rereads_mark (p.check o) p).settled hd

/-- A type that is imported and exported again, beside a name that is not there. -/
def typesDisk : Disk :=
  .ofTexts [("a.ts", "export type T = 1"),
    ("b.ts", "import { T, U } from './a'; export { T }")]

set_option maxRecDepth 4096 in
theorem marking_settles_types : ∃ p, load typesDisk [⟨"/b.ts"⟩] ∅ = .ok p ∧
    (∀ code ∈ [1484, 2305, 1205], ∃ d ∈ p.check (Options.forced ∅), d.code = code) ∧
    (∀ d ∈ (p.mark (p.check (Options.forced ∅))).check (Options.forced ∅),
      d.code ≠ 1484 ∧ d.code ≠ 1205) ∧
    ((p.mark (p.check (Options.forced ∅))).check (Options.forced ∅)).filter lasting =
      (p.check (Options.forced ∅)).filter lasting := by
  have hcodes : (load typesDisk [⟨"/b.ts"⟩] ∅).toOption.map
      (fun p => (p.problems (Options.forced ∅).verbatim).map (·.code)) =
        some [1484, 2305, 1205] := by decide +kernel
  obtain ⟨p, hload, hcodes⟩ := exists_of_toOption_map hcodes
  refine ⟨p, hload, ?_, marking_settles hload (Options.forced ∅)⟩
  intro code hcode
  rw [← hcodes] at hcode
  obtain ⟨d, hd, rfl⟩ := List.mem_map.mp hcode
  obtain ⟨d', hd', hsame⟩ := Diagnostic.exists_same_arrange hd
  exact ⟨d', hd', (Diagnostic.same_iff.mp hsame).2.2.1⟩

end Program

end TypeOnly
