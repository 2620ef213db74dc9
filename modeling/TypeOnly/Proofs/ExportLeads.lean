import TypeOnly.Program.Lookup

/-!
Following an export is a list of leads. Each lead has its answer at once or asks another module, so
that what holds of a lookup is shown for one lead and then for all lists of them.
-/

namespace TypeOnly

set_option autoImplicit false

open Source (Scope Import Export Forward)

namespace Answer

@[simp] theorem through_false (a : Answer) : a.through false = a := by
  cases a <;> simp [through]

theorem through_through (s t : Bool) (a : Answer) :
    (a.through s).through t = a.through (s || t) := by
  cases a <;> simp [through, Bool.or_assoc]

theorem through_eq_absent {t : Bool} {a : Answer} : a.through t = absent ↔ a = absent := by
  cases a <;> simp [through]

theorem found_of_through {t : Bool} {a : Answer} {r : Referent} (h : a.through t = found r) :
    ∃ r', a = found r' := by
  cases a with
  | found r' => exact ⟨r', rfl⟩
  | absent => simp [through] at h
  | unknown => simp [through] at h

theorem merge_eq_absent {a b : Answer} : a.merge b = absent ↔ a = absent ∧ b = absent := by
  cases a <;> cases b <;> simp [merge]

theorem found_of_merge {a b : Answer} {r : Referent} (h : a.merge b = found r) :
    (∃ r', a = found r') ∨ ∃ r', b = found r' := by
  cases a <;> cases b <;> simp [merge] at h ⊢

end Answer

/-- What one export leads to: an answer, or a lookup in another module. -/
inductive Lead where
  | answer (a : Answer)
  /-- The answer of another module, perhaps passed on only as a type. -/
  | ask (m : ModuleView) (name : String) (typeOnly : Bool)

namespace Lead

def through (typeOnly : Bool) : Lead → Lead
  | answer a => answer (a.through typeOnly)
  | ask m name t => ask m name (t || typeOnly)

variable (exported : Program.ExportLookup)

def run : Lead → Following Answer
  | answer a => return a
  | ask m name typeOnly => do return (← exported m name).through typeOnly

/-- All leads, their answers merged into one. -/
def runAll : List Lead → Answer → Following Answer
  | [], a => return a
  | s :: rest, a => do runAll rest (a.merge (← s.run exported))

/-- Leads up to the first that finds something. -/
def runFirst : List Lead → Answer → Following Answer
  | [], a => return a
  | s :: rest, a => do
    match ← s.run exported with
    | .found t => return .found t
    | .unknown => runFirst rest .unknown
    | .absent => runFirst rest a

theorem run_through (typeOnly : Bool) (s : Lead) :
    (do return (← s.run exported).through typeOnly) = (s.through typeOnly).run exported := by
  cases s with
  | answer a => rfl
  | ask m name t =>
    funext seen
    simp only [run, through, bind_pure_comp, Functor.map_map, Answer.through_through]

@[simp] theorem run_answer (a : Answer) (seen : List Query) :
    ((answer a).run exported).run seen = (a, seen) := rfl

@[simp] theorem run_ask (m : ModuleView) (name : String) (t : Bool) (seen : List Query) :
    ((ask m name t).run exported).run seen =
      (((exported m name).run seen).1.through t, ((exported m name).run seen).2) := rfl

@[simp] theorem runAll_nil (a : Answer) (seen : List Query) :
    (runAll exported [] a).run seen = (a, seen) := rfl

@[simp] theorem runAll_cons (s : Lead) (rest : List Lead) (a : Answer) (seen : List Query) :
    (runAll exported (s :: rest) a).run seen =
      (runAll exported rest (a.merge ((s.run exported).run seen).1)).run
        ((s.run exported).run seen).2 := rfl

@[simp] theorem runFirst_nil (a : Answer) (seen : List Query) :
    (runFirst exported [] a).run seen = (a, seen) := rfl

theorem runFirst_cons (s : Lead) (rest : List Lead) (a : Answer) (seen : List Query) :
    (runFirst exported (s :: rest) a).run seen =
      match ((s.run exported).run seen).1 with
      | .found t => (.found t, ((s.run exported).run seen).2)
      | .unknown => (runFirst exported rest .unknown).run ((s.run exported).run seen).2
      | .absent => (runFirst exported rest a).run ((s.run exported).run seen).2 := by
  simp only [runFirst, StateT.run_bind]
  change (match ((s.run exported).run seen).1 with
    | .found t => _
    | .unknown => _
    | .absent => _ : Following Answer).run ((s.run exported).run seen).2 = _
  cases ((s.run exported).run seen).1 <;> rfl

end Lead

namespace Program

variable (p : Program) (m : ModuleView)

/-! ### The leads of a module -/

def remoteLead (source name : String) : Lead :=
  match p.moduleFor? m source with
  | some target => .ask target name false
  | none => .answer .unknown

def importLead (b : Import) : Lead :=
  match p.moduleFor? m b.source with
  | none => .answer .unknown
  | some target =>
    match b.imported with
    | .named name => .ask target name b.typeOnly
    | .default => .ask target "default" b.typeOnly
    | .whole => .answer (.found ⟨.both, b.typeOnly⟩)

def localLead (scope : Scope) (name : String) : Lead :=
  match scope.declarations.get? name with
  | some meaning => .answer (.found (.of meaning))
  | none =>
    match scope.imports.find? fun b => b.name = name with
    | some b => p.importLead m b
    | none => .answer .absent

def originLead (scope : Scope) (e : Export) : Lead :=
  match e.target with
  | .declared meaning => .answer (.found (.of meaning))
  | .local_ name => p.localLead m scope name
  | .remote source name => p.remoteLead m source name
  | .whole source =>
    match p.moduleFor? m source with
    | some _ => .answer (.found (.of .both))
    | none => .answer .unknown

def entryLead (scope : Scope) (e : Export) : Lead := (p.originLead m scope e).through e.typeOnly

def starLead (name : String) (f : Forward) : Lead :=
  (p.remoteLead m f.source name).through f.typeOnly

/-- The leads of the entries of a name. -/
def entryLeads (scope : Scope) (name : String) : List Lead :=
  (scope.exports.filter fun e => e.name = name).map (p.entryLead m scope)

/-- The leads of the modules exported as a whole, which have no say in the default. -/
def starLeads (scope : Scope) (name : String) : List Lead :=
  (if name = "default" then [] else scope.forwards).map (p.starLead m name)

variable (g : ExportLookup)

theorem followRemote_eq_lead (source name : String) :
    p.followRemote g m source name = (p.remoteLead m source name).run g := by
  unfold followRemote remoteLead
  cases p.moduleFor? m source with
  | none => rfl
  | some target =>
    simp only [Lead.run, Answer.through_false, bind_pure]

theorem followImport_eq_lead (b : Import) :
    p.followImport g m b = (p.importLead m b).run g := by
  unfold followImport importLead
  cases p.moduleFor? m b.source with
  | none => rfl
  | some target => cases b.imported <;> rfl

theorem followLocal_eq_lead {scope : Scope} (h : m.scope = some scope) (name : String) :
    p.followLocal g m name = (p.localLead m scope name).run g := by
  unfold followLocal localLead
  rw [h]
  dsimp only
  cases scope.declarations.get? name with
  | some meaning => rfl
  | none =>
    cases scope.imports.find? fun b => b.name = name with
    | none => rfl
    | some b => exact p.followImport_eq_lead m g b

theorem followEntry_eq_lead {scope : Scope} (h : m.scope = some scope) (e : Export) :
    p.followEntry g m e = (p.entryLead m scope e).run g := by
  rw [entryLead, ← Lead.run_through]
  unfold followEntry originLead
  cases e.target with
  | declared meaning => rfl
  | local_ name => simp only [p.followLocal_eq_lead m g h]
  | remote source name => simp only [p.followRemote_eq_lead m g]
  | whole source =>
    dsimp only
    cases p.moduleFor? m source <;> rfl

theorem followEntries_eq_runAll {scope : Scope} (h : m.scope = some scope) (es : List Export)
    (a : Answer) :
    p.followEntries g m es a = Lead.runAll g (es.map (p.entryLead m scope)) a := by
  induction es generalizing a with
  | nil => rfl
  | cons e es ih =>
    simp only [followEntries, List.map_cons, Lead.runAll, p.followEntry_eq_lead m g h, ih]

theorem followStars_eq_runFirst (name : String) (fs : List Forward) (a : Answer) :
    p.followStars g m name fs a = Lead.runFirst g (fs.map (p.starLead m name)) a := by
  induction fs generalizing a with
  | nil => rfl
  | cons f fs ih =>
    simp only [followStars, List.map_cons, Lead.runFirst, starLead, ← Lead.run_through,
      p.followRemote_eq_lead m g, ih, bind_assoc, pure_bind]
    congr 1
    funext x
    cases x <;> rfl

/-! ### One round of a lookup -/

/-- What a module exports under a name, by its leads. -/
def scopeAnswer (scope : Scope) (name : String) (seen : List Query) : Answer × List Query :=
  match scope.assignment with
  | some a => (followAssignment scope a name, seen)
  | none =>
    match (Lead.runAll g (p.entryLeads m scope name) .absent).run seen with
    | (.absent, seen) =>
      match (Lead.runFirst g (p.starLeads m scope name) .absent).run seen with
      | (.absent, seen) => (if m.file.kind.isJavaScript then .unknown else .absent, seen)
      | (a, seen) => (a, seen)
    | (a, seen) => (a, seen)

theorem followScope_run {scope : Scope} (h : m.scope = some scope) (name : String)
    (seen : List Query) :
    (p.followScope g m scope name).run seen = p.scopeAnswer m g scope name seen := by
  unfold followScope scopeAnswer
  cases scope.assignment with
  | some a => rfl
  | none =>
    have hentries := p.followEntries_eq_runAll m g h (scope.exports.filter fun e => e.name = name)
    have hstars := p.followStars_eq_runFirst m g name
      (if name = "default" then [] else scope.forwards)
    rw [← entryLeads] at hentries
    rw [← starLeads] at hstars
    simp only [hentries, hstars, StateT.run_bind]
    generalize (Lead.runAll g (p.entryLeads m scope name) .absent).run seen = r
    obtain ⟨a, seen⟩ := r
    cases a with
    | found t => rfl
    | unknown => rfl
    | absent =>
      change (Lead.runFirst g (p.starLeads m scope name) .absent >>= _).run seen = _
      rw [StateT.run_bind]
      dsimp only
      generalize (Lead.runFirst g (p.starLeads m scope name) .absent).run seen = r
      obtain ⟨a, seen⟩ := r
      cases a <;> rfl

theorem followAssignment_ne_absent (scope : Scope) (a : Source.ExportAssignment) (name : String) :
    followAssignment scope a name ≠ .absent := by
  unfold followAssignment
  split
  · simp
  · split
    · simp
    · split <;> simp

/-- What is found was found by `export =`, or by one of the two lists of leads. -/
theorem scopeAnswer_found {scope : Scope} {name : String} {seen : List Query} {r : Referent}
    (h : (p.scopeAnswer m g scope name seen).1 = .found r) :
    (∃ a, scope.assignment = some a ∧ followAssignment scope a name = .found r) ∨
      (scope.assignment = none ∧
        (((Lead.runAll g (p.entryLeads m scope name) .absent).run seen).1 = .found r ∨
          ∃ between,
            ((Lead.runFirst g (p.starLeads m scope name) .absent).run between).1 = .found r)) := by
  unfold scopeAnswer at h
  split at h
  · rename_i a ha
    exact Or.inl ⟨a, ha, h⟩
  · rename_i ha
    refine Or.inr ⟨ha, ?_⟩
    split at h
    · rename_i between _
      split at h
      · split at h <;> simp at h
      · rename_i hfirst
        exact Or.inr ⟨between, by rw [hfirst]; exact h⟩
    · rename_i hall
      exact Or.inl (by rw [hall]; exact h)

section Once

variable {name : String} {seen : List Query}

theorem followOnce_seen (h : m.query name ∈ seen) :
    (p.followOnce g m name).run seen = (.absent, seen) := by
  have hc : seen.contains (m.query name) = true := List.contains_iff_mem.mpr h
  change (if seen.contains (m.query name) = true then _ else _ : Following Answer).run seen = _
  rw [if_pos hc]
  rfl

theorem followOnce_opaque (h : m.query name ∉ seen) (hs : m.scope = none) :
    (p.followOnce g m name).run seen = (.unknown, m.query name :: seen) := by
  have hc : ¬ seen.contains (m.query name) = true := fun hc => h (List.contains_iff_mem.mp hc)
  change (if seen.contains (m.query name) = true then _ else _ : Following Answer).run seen = _
  rw [if_neg hc, hs]
  rfl

theorem followOnce_fresh {scope : Scope} (h : m.query name ∉ seen) (hs : m.scope = some scope) :
    (p.followOnce g m name).run seen =
      p.scopeAnswer m g scope name (m.query name :: seen) := by
  have hc : ¬ seen.contains (m.query name) = true := fun hc => h (List.contains_iff_mem.mp hc)
  rw [← p.followScope_run m _ hs]
  change (if seen.contains (m.query name) = true then _ else _ : Following Answer).run seen = _
  rw [if_neg hc, hs]
  rfl

theorem followExport_seen {steps : Nat} (h : m.query name ∈ seen) :
    (p.followExport (steps + 1) m name).run seen = (.absent, seen) :=
  p.followOnce_seen m _ h

theorem followExport_opaque {steps : Nat} (h : m.query name ∉ seen) (hs : m.scope = none) :
    (p.followExport (steps + 1) m name).run seen = (.unknown, m.query name :: seen) :=
  p.followOnce_opaque m _ h hs

theorem followExport_fresh {steps : Nat} {scope : Scope} (h : m.query name ∉ seen)
    (hs : m.scope = some scope) :
    (p.followExport (steps + 1) m name).run seen =
      p.scopeAnswer m (p.followExport steps) scope name (m.query name :: seen) :=
  p.followOnce_fresh m _ h hs

end Once

end Program

end TypeOnly
