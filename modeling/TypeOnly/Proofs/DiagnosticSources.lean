import TypeOnly.Program.Check
import TypeOnly.Proofs.DiagnosticOrder
import TypeOnly.Proofs.ExportLeads

/-!
What is told of a program: each diagnostic belongs to a missing root file, to an issue of a text,
or to a request, an import or an export of a file that is checked.
-/

namespace TypeOnly.Program

set_option autoImplicit false

open Source (Scope Import Export Specifier)

/-- All that is wrong with a program, not yet in order. -/
def problems (p : Program) (verbatim : Bool) : List Diagnostic :=
  p.absentRoots.map (fun path => .global (.fileNotFound path.slashed))
    ++ p.files.flatMap (p.fileDiagnostics verbatim)

theorem check_eq_arrange (p : Program) (options : Options) :
    p.check options = Diagnostic.arrange (p.problems options.verbatim) := rfl

/-- What is told of the scope of a file. -/
inductive Told (p : Program) (verbatim : Bool) (f : ProgramMember) (s : Scope) :
    Diagnostic → Prop where
  | request {r : Specifier} (hr : r ∈ s.requests)
      (hm : p.moduleFor? (.ofFile f) r.text = none) :
      Told p verbatim f s (.inFile (.moduleNotFound r.text) f.source r.span)
  | import_ {b : Import} {q : Problem} (hb : b ∈ s.imports)
      (hq : p.importProblem? verbatim (.ofFile f) b = some q) :
      Told p verbatim f s (.inFile q f.source b.span)
  | export_ {e : Export} {span : Text.Span} {q : Problem} (he : e ∈ s.exports)
      (hspan : e.span = some span) (hq : p.exportProblem? verbatim (.ofFile f) e = some q) :
      Told p verbatim f s (.inFile q f.source span)

variable {p : Program} {verbatim : Bool} {f : ProgramMember} {d : Diagnostic}

theorem mem_scopeDiagnostics :
    d ∈ p.scopeDiagnostics verbatim f ↔
      ∃ s, (ModuleView.ofFile f).scope = some s ∧ p.Told verbatim f s d := by
  cases hs : (ModuleView.ofFile f).scope with
  | none => simp [scopeDiagnostics, hs]
  | some s =>
    simp only [scopeDiagnostics, hs, List.mem_append, List.mem_filterMap, Option.some.injEq,
      exists_eq_left']
    constructor
    · rintro ((⟨r, hr, h⟩ | ⟨b, hb, h⟩) | ⟨e, he, h⟩)
      · split at h
        · simp at h
        · rename_i hm
          obtain rfl := Option.some.inj h
          exact .request hr (Option.not_isSome_iff_eq_none.mp hm)
      · obtain ⟨q, hq, rfl⟩ := Option.map_eq_some_iff.mp h
        exact .import_ hb hq
      · obtain ⟨span, hspan, h⟩ := Option.bind_eq_some_iff.mp h
        obtain ⟨q, hq, h⟩ := Option.bind_eq_some_iff.mp h
        obtain rfl := Option.some.inj h
        exact .export_ he hspan hq
    · intro h
      cases h with
      | @request r hr hm =>
        refine Or.inl (Or.inl ⟨r, hr, ?_⟩)
        rw [hm]
        rfl
      | @import_ b q hb hq =>
        refine Or.inl (Or.inr ⟨b, hb, ?_⟩)
        rw [hq]
        rfl
      | @export_ e span q he hspan hq =>
        refine Or.inr ⟨e, he, ?_⟩
        rw [hspan, hq]
        rfl

theorem mem_problems :
    d ∈ p.problems verbatim ↔
      (∃ path ∈ p.absentRoots, d = .global (.fileNotFound path.slashed)) ∨
      ∃ f ∈ p.files,
        (∃ i ∈ f.parsed.issues, d = .inFile (.badText i.message) f.source i.span) ∨
        (f.isOwnSource = true ∧
          ∃ s, (ModuleView.ofFile f).scope = some s ∧ p.Told verbatim f s d) := by
  simp only [problems, fileDiagnostics, List.mem_append, List.mem_map, List.mem_flatMap]
  constructor
  · rintro (⟨path, hpath, rfl⟩ | ⟨f, hf, ⟨i, hi, rfl⟩ | h⟩)
    · exact Or.inl ⟨path, hpath, rfl⟩
    · exact Or.inr ⟨f, hf, Or.inl ⟨i, hi, rfl⟩⟩
    · split at h
      · rename_i hown
        exact Or.inr ⟨f, hf, Or.inr ⟨hown, mem_scopeDiagnostics.mp h⟩⟩
      · simp at h
  · rintro (⟨path, hpath, rfl⟩ | ⟨f, hf, ⟨i, hi, rfl⟩ | ⟨hown, h⟩⟩)
    · exact Or.inl ⟨path, hpath, rfl⟩
    · exact Or.inr ⟨f, hf, Or.inl ⟨i, hi, rfl⟩⟩
    · refine Or.inr ⟨f, hf, Or.inr ?_⟩
      rw [if_pos hown]
      exact mem_scopeDiagnostics.mpr h

/-- A diagnostic is one of the project or of a file. -/
theorem file_of_mem_problems (hd : d ∈ p.problems verbatim) :
    d.file = none ∨ ∃ f ∈ p.files, d.file = some f.source := by
  rcases mem_problems.mp hd with ⟨path, _, rfl⟩ | ⟨f, hf, ⟨i, _, rfl⟩ | ⟨_, s, _, htold⟩⟩
  · exact Or.inl rfl
  · exact Or.inr ⟨f, hf, rfl⟩
  · refine Or.inr ⟨f, hf, ?_⟩
    cases htold <;> rfl

/-! ### Verdicts -/

/-- What an answer makes of an import. -/
def importVerdict (verbatim : Bool) (b : Import) : Answer → Option Problem
  | .absent => some (absentExport b.source b.imported)
  | .found t =>
    if !verbatim || b.typeOnly then none
    else if !t.meaning.value then some (.typeImported (importedName b))
    else if t.typeOnly then some (.typeAliasImported (importedName b))
    else none
  | .unknown => none

/-- What an answer makes of an entry of an export list. -/
def exportVerdict (verbatim : Bool) (e : Export) (a : Answer) : Option Problem :=
  match e.target with
  | .local_ name =>
    match a with
    | .absent => some (.nameNotFound name)
    | .found t => reExportProblem? verbatim e name t
    | .unknown => none
  | .remote source name =>
    match a with
    | .absent => some (absentExport source (if name = "default" then .default else .named name))
    | .found t => reExportProblem? verbatim e name t
    | .unknown => none
  | .declared _ | .whole _ => none

/-- What was found is told of only without a mark: as a type if it is no value, and else as an
alias if it was passed on only as a type. -/
theorem unmarked_iff {marked : Bool} {t : Referent} {q asType asAlias : Problem} :
    (if !verbatim || marked then none
      else if !t.meaning.value then some asType
      else if t.typeOnly then some asAlias
      else none) = some q ↔
    verbatim = true ∧ marked = false ∧
      (t.meaning.value = false ∧ q = asType ∨
        t.meaning.value = true ∧ t.typeOnly = true ∧ q = asAlias) := by
  cases verbatim <;> cases marked <;> cases t.meaning.value <;> cases t.typeOnly <;>
    simp [eq_comm]

theorem absentExport_code (source : String) (i : Source.Imported) :
    (absentExport source i).code = 1192 ∨ (absentExport source i).code = 2305 := by
  cases i <;> simp [absentExport, Problem.code]

theorem importVerdict_eq_some {b : Import} {a : Answer} {q : Problem} :
    importVerdict verbatim b a = some q ↔
      (a = .absent ∧ q = absentExport b.source b.imported) ∨
      ∃ t, a = .found t ∧ verbatim = true ∧ b.typeOnly = false ∧
        (t.meaning.value = false ∧ q = .typeImported (importedName b) ∨
          t.meaning.value = true ∧ t.typeOnly = true ∧
            q = .typeAliasImported (importedName b)) := by
  cases a with
  | absent =>
    simp only [importVerdict, Option.some.injEq, true_and, reduceCtorEq, false_and, exists_false,
      or_false]
    exact eq_comm
  | unknown => simp [importVerdict]
  | found t =>
    simp only [importVerdict, unmarked_iff, reduceCtorEq, false_and, false_or, Answer.found.injEq,
      exists_eq_left']

/-- What is told of an entry that passes on a name of its file or of another module. -/
theorem exportVerdict_eq_some {e : Export} {a : Answer} {q : Problem}
    (h : exportVerdict verbatim e a = some q) :
    (a = .absent ∧ (q.code = 1192 ∨ q.code = 2304 ∨ q.code = 2305)) ∨
      ∃ t name, a = .found t ∧ verbatim = true ∧ e.typeOnly = false ∧
        (t.meaning.value = false ∧ q = .typeReExported ∨
          t.meaning.value = true ∧ t.typeOnly = true ∧ q = .typeAliasReExported name) := by
  unfold exportVerdict at h
  split at h
  · rename_i name _
    cases a with
    | absent =>
      obtain rfl := Option.some.inj h
      exact Or.inl ⟨rfl, Or.inr (Or.inl rfl)⟩
    | unknown => simp at h
    | found t => exact Or.inr ⟨t, name, rfl, unmarked_iff.mp h⟩
  · rename_i source name _
    cases a with
    | absent =>
      obtain rfl := Option.some.inj h
      refine Or.inl ⟨rfl, ?_⟩
      rcases absentExport_code source (if name = "default" then .default else .named name) with
        hcode | hcode
      · exact Or.inl hcode
      · exact Or.inr (Or.inr hcode)
    | unknown => simp at h
    | found t => exact Or.inr ⟨t, name, rfl, unmarked_iff.mp h⟩
  · simp at h
  · simp at h

variable {m : ModuleView}

theorem importProblem?_eq_verdict (p : Program) (verbatim : Bool) (m : ModuleView) (b : Import) :
    p.importProblem? verbatim m b =
      if b.imported = .whole then none
      else importVerdict verbatim b (((p.importLead m b).run p.exported).run []).1 := by
  unfold importProblem?
  rw [p.followImport_eq_lead]
  cases hi : b.imported with
  | whole => rfl
  | named n =>
    rw [if_neg (by simp)]
    cases (((p.importLead m b).run p.exported).run []).1 <;> simp only [importVerdict, hi]
  | default =>
    rw [if_neg (by simp)]
    cases (((p.importLead m b).run p.exported).run []).1 <;> simp only [importVerdict, hi]

theorem exportProblem?_eq_verdict {s : Scope} (hs : m.scope = some s) (e : Export) :
    p.exportProblem? verbatim m e =
      exportVerdict verbatim e (((p.originLead m s e).run p.exported).run []).1 := by
  obtain ⟨exported, target, typeOnly, place⟩ := e
  cases target with
  | declared meaning => rfl
  | whole source => rfl
  | local_ name =>
    have hlead := p.followLocal_eq_lead m p.exported hs name
    exact congrArg
      (fun x => exportVerdict verbatim ⟨exported, .local_ name, typeOnly, place⟩ (x.run []).1) hlead
  | remote source name =>
    have hlead := p.followRemote_eq_lead m p.exported source name
    exact congrArg
      (fun x =>
        exportVerdict verbatim ⟨exported, .remote source name, typeOnly, place⟩ (x.run []).1) hlead

end TypeOnly.Program
