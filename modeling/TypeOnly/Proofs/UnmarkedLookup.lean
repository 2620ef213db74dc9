import TypeOnly.Proofs.ExportLeads

/-!
Marks have no say in where a lookup goes. The plain form of a program has no type-only marks, no
places and no texts; a lookup in it asks the same questions in the same order, and finds the same
up to the mark.
-/

namespace TypeOnly

set_option autoImplicit false

open Source (Scope Import Export Forward NamedModule Specifier Outline)

namespace Source

def Import.placeless (b : Import) : Import := { b with span := ⟨0, 0⟩ }

/-- An entry of a list stays one: only those are told of. -/
def Export.placeless (e : Export) : Export := { e with span := e.span.map fun _ => ⟨0, 0⟩ }

def Specifier.placeless (r : Specifier) : Specifier := { r with span := ⟨0, 0⟩ }

/-- What a module declares, imports and exports, wherever it stands. -/
def Scope.placeless (s : Scope) : Scope :=
  { s with
    imports := s.imports.map Import.placeless
    exports := s.exports.map Export.placeless
    requests := s.requests.map Specifier.placeless }

def NamedModule.placeless (m : NamedModule) : NamedModule :=
  { m with body := m.body.map Scope.placeless }

def Outline.placeless (o : Outline) : Outline :=
  { o.toScope.placeless with namedModules := o.namedModules.map NamedModule.placeless }

def Import.plain (b : Import) : Import := { b.placeless with typeOnly := false }

def Export.plain (e : Export) : Export := { e.placeless with typeOnly := false }

def Forward.plain (f : Forward) : Forward := { f with typeOnly := false }

/-- What a module declares, imports and exports, wherever it stands and however it is marked. -/
def Scope.plain (s : Scope) : Scope :=
  { s with
    imports := s.imports.map Import.plain
    exports := s.exports.map Export.plain
    forwards := s.forwards.map Forward.plain
    requests := s.requests.map Specifier.placeless }

def NamedModule.plain (m : NamedModule) : NamedModule := { m with body := m.body.map Scope.plain }

def Outline.plain (o : Outline) : Outline :=
  { o.toScope.plain with namedModules := o.namedModules.map NamedModule.plain }

theorem Import.plain_eq_plain {b b' : Import} : b'.plain = b.plain ↔
    b'.name = b.name ∧ b'.imported = b.imported ∧ b'.source = b.source := by
  simp [plain, placeless]

theorem Export.plain_eq_plain {e e' : Export} : e'.plain = e.plain ↔
    e'.name = e.name ∧ e'.target = e.target ∧
      (e'.span.map fun _ => (⟨0, 0⟩ : Text.Span)) = e.span.map fun _ => ⟨0, 0⟩ := by
  simp [plain, placeless]

end Source

def ProgramMember.plain (f : ProgramMember) : ProgramMember :=
  { f with source := ⟨f.path, ""⟩, parsed := ⟨f.outline.map Outline.plain, []⟩ }

def ProgramMember.placeless (f : ProgramMember) : ProgramMember :=
  { f with source := ⟨f.path, ""⟩, parsed := ⟨f.outline.map Outline.placeless, []⟩ }

def ModuleView.plain (m : ModuleView) : ModuleView :=
  ⟨m.file.plain, m.scope.map Scope.plain, m.ambient⟩

def Program.plain (p : Program) : Program := { p with files := p.files.map ProgramMember.plain }

/-- A program without the texts of its files and the places in them. -/
def Program.placeless (p : Program) : Program :=
  { p with files := p.files.map ProgramMember.placeless }

/-- What was found, whether passed on as a type or not. -/
def Answer.plain : Answer → Answer
  | found t => found (.of t.meaning)
  | other => other

def Lead.plain : Lead → Lead
  | answer a => answer a.plain
  | ask m name _ => ask m.plain name false

namespace Answer

@[simp] theorem plain_through (t : Bool) (a : Answer) : (a.through t).plain = a.plain := by
  cases a <;> rfl

theorem found_of_plain {a : Answer} {t : Referent} (h : (found t).plain = a.plain) :
    ∃ r, a = found r ∧ r.meaning = t.meaning := by
  cases a with
  | found r =>
    simp only [plain, found.injEq, Referent.of, Referent.mk.injEq, and_true] at h
    exact ⟨r, rfl, h.symm⟩
  | absent => simp [plain] at h
  | unknown => simp [plain] at h

theorem plain_merge (a b : Answer) : (a.merge b).plain = a.plain.merge b.plain := by
  cases a <;> cases b <;> rfl

end Answer

@[simp] theorem Lead.plain_through (t : Bool) (l : Lead) : (l.through t).plain = l.plain := by
  cases l <;> simp [Lead.through, Lead.plain]

@[simp] theorem Lead.through_false (l : Lead) : l.through false = l := by
  cases l <;> simp [Lead.through]

theorem ModuleView.ofFile_plain (f : ProgramMember) :
    ModuleView.ofFile f.plain = (ModuleView.ofFile f).plain := by
  have houtline : f.plain.outline = f.outline.map Outline.plain := rfl
  simp only [ModuleView.ofFile, ModuleView.plain, houtline, Option.map_map]
  rfl

/-! ### Places -/

namespace Source

theorem Scope.plain_placeless (s : Scope) : s.placeless.plain = s.plain := by
  have hexport (e : Export) : e.placeless.plain = e.plain := by
    simp only [Export.plain, Export.placeless, Option.map_map]
    rfl
  have hexports : (Export.plain ∘ Export.placeless) = Export.plain := funext hexport
  simp only [Scope.placeless, Scope.plain, List.map_map, hexports]
  rfl

theorem Outline.plain_placeless (o : Outline) : o.placeless.plain = o.plain := by
  have hmodule (m : NamedModule) : m.placeless.plain = m.plain := by
    simp only [NamedModule.plain, NamedModule.placeless, Option.map_map]
    congr 2
    exact funext Scope.plain_placeless
  have hmodules : (NamedModule.plain ∘ NamedModule.placeless) = NamedModule.plain :=
    funext hmodule
  simp only [Outline.placeless, Outline.plain, Scope.plain_placeless, List.map_map, hmodules]

end Source

theorem ProgramMember.plain_placeless (f : ProgramMember) : f.placeless.plain = f.plain := by
  have houtline : f.placeless.outline = f.outline.map Outline.placeless := rfl
  have houtlines : (Outline.plain ∘ Outline.placeless) = Outline.plain :=
    funext Outline.plain_placeless
  unfold ProgramMember.plain
  rw [houtline, Option.map_map, houtlines]
  rfl

theorem Program.plain_placeless (p : Program) : p.placeless.plain = p.plain := by
  have hfiles : (ProgramMember.plain ∘ ProgramMember.placeless) = ProgramMember.plain :=
    funext ProgramMember.plain_placeless
  simp only [Program.placeless, Program.plain, List.map_map, hfiles]

/-! ### Modules -/

namespace Program

variable (p : Program) (m : ModuleView)

theorem file?_plain (path : Path) :
    p.plain.file? path = (p.file? path).map ProgramMember.plain := by
  simp only [file?, plain, List.find?_map]
  rfl

/-- A declared module and its file in plain form. -/
def plainPair (x : ProgramMember × NamedModule) : ProgramMember × NamedModule :=
  (x.1.plain, x.2.plain)

theorem namedModules_plain : p.plain.namedModules = p.namedModules.map plainPair := by
  simp only [namedModules, plain, List.flatMap_map, List.map_flatMap]
  congr 1
  funext f
  have houtline : f.plain.outline = f.outline.map Outline.plain := rfl
  rw [houtline]
  cases f.outline with
  | none => rfl
  | some o =>
    simp only [Option.map_some, Outline.plain, List.map_map]
    rfl

theorem foldl_betterModule_plain (first : ProgramMember × NamedModule)
    (rest : List (ProgramMember × NamedModule)) :
    (rest.map plainPair).foldl betterModule (plainPair first) =
      plainPair (rest.foldl betterModule first) := by
  induction rest generalizing first with
  | nil => rfl
  | cons x rest ih =>
    have hstep :
        betterModule (plainPair first) (plainPair x) = plainPair (betterModule first x) := by
      change (if goesBefore x.2.name first.2.name then plainPair x else plainPair first) = _
      unfold betterModule
      split <;> rfl
    rw [List.map_cons, List.foldl_cons, List.foldl_cons, hstep, ih]

theorem namedModule?_plain (specifier : String) :
    p.plain.namedModule? specifier = (p.namedModule? specifier).map plainPair := by
  have hfind : (p.plain.namedModules.find? fun x => x.2.name = specifier) =
      (p.namedModules.find? fun x => x.2.name = specifier).map plainPair := by
    rw [p.namedModules_plain, List.find?_map]
    rfl
  have hfilter : (p.plain.namedModules.filter fun x =>
        Wildcard.hasStar x.2.name && (Wildcard.capture? x.2.name specifier).isSome) =
      (p.namedModules.filter fun x =>
        Wildcard.hasStar x.2.name && (Wildcard.capture? x.2.name specifier).isSome).map
          plainPair := by
    rw [p.namedModules_plain, List.filter_map]
    rfl
  unfold namedModule?
  rw [hfind, hfilter]
  cases p.namedModules.find? fun x => x.2.name = specifier with
  | some x => rfl
  | none =>
    dsimp only [Option.map_none]
    cases p.namedModules.filter fun x =>
        Wildcard.hasStar x.2.name && (Wildcard.capture? x.2.name specifier).isSome with
    | nil => rfl
    | cons first rest =>
      rw [List.map_cons]
      dsimp only [Option.map_some]
      rw [foldl_betterModule_plain]

theorem moduleFor?_plain (specifier : String) :
    p.plain.moduleFor? m.plain specifier = (p.moduleFor? m specifier).map ModuleView.plain := by
  have hlink : m.plain.file.link? specifier = m.file.link? specifier := rfl
  have hfile : (m.file.link? specifier).bind p.plain.file? =
      ((m.file.link? specifier).bind p.file?).map ProgramMember.plain := by
    cases m.file.link? specifier with
    | none => rfl
    | some path => exact p.file?_plain path
  unfold moduleFor?
  rw [hlink, hfile, p.namedModule?_plain]
  cases (m.file.link? specifier).bind p.file? with
  | some f =>
    dsimp only [Option.map_some]
    rw [ModuleView.ofFile_plain]
  | none => cases p.namedModule? specifier <;> rfl

/-! ### Leads -/

theorem remoteLead_plain (source name : String) :
    p.plain.remoteLead m.plain source name = (p.remoteLead m source name).plain := by
  unfold remoteLead
  rw [p.moduleFor?_plain m]
  cases p.moduleFor? m source <;> rfl

theorem importLead_plain (b : Import) :
    p.plain.importLead m.plain b.plain = (p.importLead m b).plain := by
  have hmodule : p.plain.moduleFor? m.plain b.plain.source =
      (p.moduleFor? m b.source).map ModuleView.plain := p.moduleFor?_plain m b.source
  have himported : b.plain.imported = b.imported := rfl
  unfold importLead
  rw [hmodule, himported]
  cases p.moduleFor? m b.source with
  | none => rfl
  | some target => cases b.imported <;> rfl

theorem localLead_plain (s : Scope) (name : String) :
    p.plain.localLead m.plain s.plain name = (p.localLead m s name).plain := by
  have hfind : (s.plain.imports.find? fun b => b.name = name) =
      (s.imports.find? fun b => b.name = name).map Import.plain := by
    simp only [Scope.plain, List.find?_map]
    rfl
  have hdeclared : s.plain.declarations = s.declarations := rfl
  unfold localLead
  rw [hfind, hdeclared]
  cases s.declarations.get? name with
  | some meaning => rfl
  | none =>
    cases s.imports.find? fun b => b.name = name with
    | none => rfl
    | some b => exact p.importLead_plain m b

theorem originLead_plain (s : Scope) (e : Export) :
    p.plain.originLead m.plain s.plain e.plain = (p.originLead m s e).plain := by
  have htarget : e.plain.target = e.target := rfl
  unfold originLead
  rw [htarget]
  cases e.target with
  | declared meaning => rfl
  | local_ name => exact p.localLead_plain m s name
  | remote source name => exact p.remoteLead_plain m source name
  | whole source =>
    dsimp only
    rw [p.moduleFor?_plain m]
    cases p.moduleFor? m source <;> rfl

theorem entryLeads_plain (s : Scope) (name : String) :
    p.plain.entryLeads m.plain s.plain name = (p.entryLeads m s name).map Lead.plain := by
  have hfilter : (s.plain.exports.filter fun e => e.name = name) =
      (s.exports.filter fun e => e.name = name).map Export.plain := by
    simp only [Scope.plain, List.filter_map]
    rfl
  unfold entryLeads
  rw [hfilter, List.map_map, List.map_map]
  apply List.map_congr_left
  intro e _
  simp only [Function.comp_apply, entryLead, p.originLead_plain m, Lead.plain_through]
  exact Lead.through_false _

theorem starLeads_plain (s : Scope) (name : String) :
    p.plain.starLeads m.plain s.plain name = (p.starLeads m s name).map Lead.plain := by
  unfold starLeads
  by_cases hd : name = "default"
  · simp only [hd, if_true, List.map_nil]
  · rw [if_neg hd, if_neg hd]
    simp only [Scope.plain, List.map_map]
    apply List.map_congr_left
    intro f _
    simp only [Function.comp_apply, starLead, Forward.plain, p.remoteLead_plain m,
      Lead.plain_through]
    exact Lead.through_false _

end Program

/-! ### Lookups -/

/-- One lookup does in plain modules what another one does in modules. -/
def Agree (g g' : Program.ExportLookup) : Prop :=
  ∀ (m : ModuleView) (name : String) (seen : List Query),
    (g' m.plain name).run seen = (((g m name).run seen).1.plain, ((g m name).run seen).2)

variable {g g' : Program.ExportLookup}

namespace Lead

theorem run_plain (h : Agree g g') (l : Lead) (seen : List Query) :
    (l.plain.run g').run seen = (((l.run g).run seen).1.plain, ((l.run g).run seen).2) := by
  cases l with
  | answer a => rfl
  | ask m name t =>
    simp only [plain, run_ask, h m name seen, Answer.through_false, Answer.plain_through]

theorem runAll_plain (h : Agree g g') (ls : List Lead) (a : Answer) (seen : List Query) :
    (runAll g' (ls.map plain) a.plain).run seen =
      (((runAll g ls a).run seen).1.plain, ((runAll g ls a).run seen).2) := by
  induction ls generalizing a seen with
  | nil => rfl
  | cons l ls ih =>
    simp only [List.map_cons, runAll_cons, run_plain h, ← Answer.plain_merge, ih]

theorem runFirst_plain (h : Agree g g') (ls : List Lead) (a : Answer) (seen : List Query) :
    (runFirst g' (ls.map plain) a.plain).run seen =
      (((runFirst g ls a).run seen).1.plain, ((runFirst g ls a).run seen).2) := by
  induction ls generalizing a seen with
  | nil => rfl
  | cons l ls ih =>
    simp only [List.map_cons, runFirst_cons, run_plain h]
    cases ((l.run g).run seen).1 with
    | found t => rfl
    | unknown => exact ih .unknown _
    | absent => exact ih a _

end Lead

namespace Program

variable (p : Program)

theorem scopeAnswer_plain (h : Agree g g') (m : ModuleView) (s : Scope) (name : String)
    (seen : List Query) :
    p.plain.scopeAnswer m.plain g' s.plain name seen =
      ((p.scopeAnswer m g s name seen).1.plain, (p.scopeAnswer m g s name seen).2) := by
  have hassignment : s.plain.assignment = s.assignment := rfl
  have hkind : m.plain.file.kind = m.file.kind := rfl
  have hentries (seen : List Query) :
      (Lead.runAll g' ((p.entryLeads m s name).map Lead.plain) .absent).run seen = _ :=
    Lead.runAll_plain h (p.entryLeads m s name) .absent seen
  have hstars (seen : List Query) :
      (Lead.runFirst g' ((p.starLeads m s name).map Lead.plain) .absent).run seen = _ :=
    Lead.runFirst_plain h (p.starLeads m s name) .absent seen
  unfold scopeAnswer
  rw [hassignment, hkind, p.entryLeads_plain, p.starLeads_plain]
  cases s.assignment with
  | some a =>
    change (followAssignment s a name, seen) = _
    refine Prod.ext ?_ rfl
    dsimp only
    unfold followAssignment
    split
    · rfl
    · split
      · rfl
      · split <;> rfl
  | none =>
    dsimp only
    rw [hentries]
    generalize (Lead.runAll g (p.entryLeads m s name) .absent).run seen = r
    obtain ⟨a, seen⟩ := r
    cases a with
    | found t => rfl
    | unknown => rfl
    | absent =>
      dsimp only [Answer.plain]
      rw [hstars]
      generalize (Lead.runFirst g (p.starLeads m s name) .absent).run seen = r
      obtain ⟨a, seen⟩ := r
      cases a with
      | found t => rfl
      | unknown => rfl
      | absent =>
        dsimp only [Answer.plain]
        split <;> rfl

theorem followExport_plain (steps : Nat) :
    Agree (p.followExport steps) (p.plain.followExport steps) := by
  induction steps with
  | zero => exact fun m name seen => rfl
  | succ steps ih =>
    intro m name seen
    have hquery : m.plain.query name = m.query name := rfl
    by_cases hseen : m.query name ∈ seen
    · rw [p.followExport_seen m hseen, p.plain.followExport_seen m.plain (hquery ▸ hseen)]
      rfl
    · cases hs : m.scope with
      | none =>
        have hs' : m.plain.scope = none := by simp only [ModuleView.plain, hs, Option.map_none]
        rw [p.followExport_opaque m hseen hs, p.plain.followExport_opaque m.plain hseen hs']
        rfl
      | some s =>
        have hs' : m.plain.scope = some s.plain := by
          simp only [ModuleView.plain, hs, Option.map_some]
        rw [p.followExport_fresh m hseen hs, p.plain.followExport_fresh m.plain hseen hs', hquery]
        exact p.scopeAnswer_plain ih m s name _

theorem modules_plain : p.plain.modules = p.modules.map ModuleView.plain := by
  simp only [modules, p.namedModules_plain, List.map_append, List.map_map]
  congr 1
  simp only [plain, List.map_map]
  apply List.map_congr_left
  intro f _
  exact ModuleView.ofFile_plain f

theorem nameCount_plain (m : ModuleView) : nameCount m.plain = nameCount m := by
  cases hs : m.scope <;>
    simp [nameCount, ModuleView.plain, hs, Scope.plain]

theorem lookupBound_plain : p.plain.lookupBound = p.lookupBound := by
  have hcount : p.plain.modules.map nameCount = p.modules.map nameCount := by
    rw [p.modules_plain, List.map_map]
    apply List.map_congr_left
    intro m _
    exact nameCount_plain m
  unfold lookupBound
  rw [hcount, p.modules_plain, List.length_map]

/-- What a module exports in plain form is what it exports, up to the mark. -/
theorem exported_plain : Agree p.exported p.plain.exported := by
  unfold exported
  rw [p.lookupBound_plain]
  exact p.followExport_plain p.lookupBound

end Program

end TypeOnly
