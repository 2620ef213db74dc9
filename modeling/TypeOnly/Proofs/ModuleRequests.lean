import TypeOnly.Proofs.ConfigStatements
import TypeOnly.Proofs.LookupTermination
import TypeOnly.Proofs.RootOrder

/-!
Every module that a file names, itself or in a module that it declares, is one of its requests, and
so has a link once the file is loaded. No check ever comes to a specifier without a link: whatever
links are added to those that there are, the same is told of the program.
-/

namespace TypeOnly

set_option autoImplicit false

open Source (Scope Outline Item Import Export ExportOrigin Forward NamedModule Specifier)

/-! ### Modules that are named -/

namespace Source

/-- The module that an exported name is taken from. -/
def ExportOrigin.source? : ExportOrigin → Option String
  | remote source _ | whole source => some source
  | declared _ | local_ _ => none

/-- A scope takes a name from a module, or passes one on. -/
def Scope.Names (s : Scope) (source : String) : Prop :=
  (∃ b ∈ s.imports, b.source = source) ∨ (∃ e ∈ s.exports, e.target.source? = some source) ∨
    ∃ f ∈ s.forwards, f.source = source

/-- A file names a module, itself or in a module that it declares. -/
def Outline.Names (o : Outline) (source : String) : Prop :=
  o.toScope.Names source ∨ ∃ d ∈ o.namedModules, ∃ body, d.body = some body ∧ body.Names source

/-- Specifiers that ask for a module. -/
def Requested (requests : List Specifier) (source : String) : Prop :=
  ∃ r ∈ requests, r.text = source

namespace Item

variable {length : Nat} {i : Item} {source : String}

theorem requested_of_import {b : Import} (hb : b ∈ i.imports length) :
    Requested (i.requests length) b.source := by
  cases i with
  | importDecl clauses specifier typeOnly =>
    obtain ⟨c, hc, rfl⟩ := List.mem_map.mp hb
    have hsome : ¬ clauses.isEmpty = true := by
      rw [List.isEmpty_iff]
      exact List.ne_nil_of_mem hc
    exact ⟨specifier.specifier length, by simp [requests, hsome], rfl⟩
  | _ => cases hb

theorem source?_of_listed {specifier : Option ModuleName} {typeOnly : Bool} {c : ExportClause}
    {e : Export} (he : e ∈ listed length specifier typeOnly c) :
    e.target.source? = specifier.map (·.text) := by
  cases c <;> cases specifier <;> simp_all [listed, ExportOrigin.source?]

theorem source?_of_exportsOf {bound : List (String × Meaning)} {e : Export}
    (he : e ∈ exportsOf bound) : e.target.source? = none := by
  obtain ⟨x, _, rfl⟩ := List.mem_map.mp he
  rfl

theorem requested_of_export {implicit : Bool} {e : Export} (he : e ∈ i.exports length implicit)
    (hsource : e.target.source? = some source) : Requested (i.requests length) source := by
  -- of all items, only lists name other modules
  have hnone {bound : List (String × Meaning)} (hbound : e ∈ exportsOf bound) : False := by
    rw [source?_of_exportsOf hbound] at hsource
    cases hsource
  cases i with
  | exportList clauses specifier typeOnly =>
    obtain ⟨c, _, hc⟩ := List.mem_flatMap.mp he
    rw [source?_of_listed hc] at hsource
    obtain ⟨s, rfl, rfl⟩ := Option.map_eq_some_iff.mp hsource
    exact ⟨s.specifier length, List.mem_singleton.mpr rfl, rfl⟩
  | declaration d =>
    cases implicit with
    | true => exact (hnone he).elim
    | false => cases he
  | exportDecl d => exact (hnone he).elim
  | exportDefault what =>
    obtain rfl := List.mem_singleton.mp he
    cases what <;> cases hsource
  | importAlias name exported typeOnly =>
    cases exported with
    | true => exact (hnone he).elim
    | false => cases he
  | _ => cases he

theorem requested_of_forward {f : Forward} (hf : f ∈ i.forwards) :
    Requested (i.requests length) f.source := by
  cases i with
  | exportAll specifier typeOnly =>
    obtain rfl := List.mem_singleton.mp hf
    exact ⟨specifier.specifier length, List.mem_singleton.mpr rfl, rfl⟩
  | _ => cases hf

/-- What does not make its file a module names no other one. -/
theorem silent_of_not_modular (h : i.isModular = false) :
    i.imports length = [] ∧ i.exports length false = [] ∧ i.forwards = [] := by
  cases i with
  | statement | directive _ _ | declaration _ => exact ⟨rfl, rfl, rfl⟩
  | _ => cases h

end Item

variable {length : Nat}

theorem Scope.requested_ofItems {ambient implicit : Bool} {items : List Item} {source : String}
    (h : (Scope.ofItems length ambient implicit items).Names source) :
    Requested (Scope.ofItems length ambient implicit items).requests source := by
  have hitem {i : Item} (hi : i ∈ items) (hreq : Requested (i.requests length) source) :
      Requested (items.flatMap (Item.requests length)) source := by
    obtain ⟨r, hr, htext⟩ := hreq
    exact ⟨r, List.mem_flatMap.mpr ⟨i, hi, hr⟩, htext⟩
  rcases h with ⟨b, hb, rfl⟩ | ⟨e, he, hsource⟩ | ⟨f, hf, rfl⟩
  · obtain ⟨i, hi, hb⟩ := List.mem_flatMap.mp hb
    exact hitem hi (Item.requested_of_import hb)
  · obtain ⟨i, hi, he⟩ := List.mem_flatMap.mp he
    exact hitem hi (Item.requested_of_export he hsource)
  · obtain ⟨i, hi, hf⟩ := List.mem_flatMap.mp hf
    exact hitem hi (Item.requested_of_forward hf)

theorem Scope.not_names_of_script {ambient : Bool} {items : List Item} {source : String}
    (h : Outline.isModule items = false) :
    ¬ (Scope.ofItems length ambient false items).Names source := by
  have hsilent (i : Item) (hi : i ∈ items) :
      i.imports length = [] ∧ i.exports length false = [] ∧ i.forwards = [] :=
    Item.silent_of_not_modular (by simpa using List.any_eq_false.mp h i hi)
  rintro (⟨b, hb, _⟩ | ⟨e, he, _⟩ | ⟨f, hf, _⟩)
  · obtain ⟨i, hi, hb⟩ := List.mem_flatMap.mp hb
    simp [(hsilent i hi).1] at hb
  · obtain ⟨i, hi, he⟩ := List.mem_flatMap.mp he
    simp [(hsilent i hi).2.1] at he
  · obtain ⟨i, hi, hf⟩ := List.mem_flatMap.mp hf
    simp [(hsilent i hi).2.2] at hf

theorem NamedModule.requested_ofItem {i : Item} {d : NamedModule} {body : Scope} {source : String}
    (hd : NamedModule.ofItem length i = some d) (hbody : d.body = some body)
    (h : body.Names source) :
    Requested body.requests source := by
  unfold NamedModule.ofItem at hd
  split at hd
  · obtain rfl := Option.some.inj hd
    obtain rfl := Option.some.inj hbody
    exact Scope.requested_ofItems h
  · obtain rfl := Option.some.inj hd
    cases hbody
  · cases hd

theorem Outline.requested_ofItems {ambient : Bool} {items : List Item} {source : String}
    (h : (Outline.ofItems length ambient items).Names source) :
    Requested (Outline.ofItems length ambient items).requests source := by
  unfold Outline.ofItems at h ⊢
  dsimp only at h ⊢
  split at h
  · rename_i hmodule
    rw [if_pos hmodule]
    rcases h with h | ⟨d, hd, _⟩
    · exact Scope.requested_ofItems h
    · cases hd
  · rename_i hscript
    rw [if_neg hscript]
    rcases h with h | ⟨d, hd, body, hbody, h⟩
    · have hnone : ¬ (Scope.ofItems length ambient false items).Names source :=
        Scope.not_names_of_script (Bool.eq_false_iff.mpr hscript)
      exact (hnone h).elim
    · -- what the body asks for is asked for by the file
      obtain ⟨i, _, hi⟩ := List.mem_filterMap.mp hd
      obtain ⟨r, hr, htext⟩ := NamedModule.requested_ofItem hi hbody h
      exact ⟨r, List.mem_flatMap.mpr ⟨d, hd, by simpa [hbody] using hr⟩, htext⟩

/-- Every module that a file names is one of its requests. -/
theorem requested_of_readSource {text : String} {kind : Kind} {o : Outline}
    (ho : (readSource text kind).outline = some o) {source : String} (h : o.Names source) :
    Requested o.requests source := by
  obtain ⟨items, _, rfl⟩ := Option.map_eq_some_iff.mp ho
  exact Outline.requested_ofItems h

end Source

/-! ### More links -/

section Links

variable (extra : ProgramMember → Dictionary (Option Path))

/-- A file with more links. Those that it has stay what they are. -/
def ProgramMember.withLinks (f : ProgramMember) : ProgramMember :=
  { f with links := (extra f).insertAll f.links.entries }

def ModuleView.withLinks (m : ModuleView) : ModuleView := { m with file := m.file.withLinks extra }

def Program.withLinks (p : Program) : Program :=
  { p with files := p.files.map fun f => f.withLinks extra }

/-- Every module that a module names has a link, which can lead nowhere. -/
def ModuleView.Settled (m : ModuleView) : Prop :=
  ∀ scope, m.scope = some scope → ∀ source, scope.Names source →
    (m.file.links.get? source).isSome = true

namespace Lead

def withLinks : Lead → Lead
  | answer a => answer a
  | ask m name typeOnly => ask (m.withLinks extra) name typeOnly

variable {extra} (g : Program.ExportLookup)

theorem run_withLinks (l : Lead) :
    (l.withLinks extra).run g = l.run fun m name => g (m.withLinks extra) name := by
  cases l <;> rfl

theorem through_withLinks (t : Bool) (l : Lead) :
    (l.withLinks extra).through t = (l.through t).withLinks extra := by
  cases l <;> rfl

theorem runAll_withLinks (leads : List Lead) (a : Answer) :
    runAll g (leads.map (withLinks extra)) a =
      runAll (fun m name => g (m.withLinks extra) name) leads a := by
  induction leads generalizing a with
  | nil => rfl
  | cons l rest ih => simp only [List.map_cons, runAll, run_withLinks, ih]

theorem runFirst_withLinks (leads : List Lead) (a : Answer) :
    runFirst g (leads.map (withLinks extra)) a =
      runFirst (fun m name => g (m.withLinks extra) name) leads a := by
  induction leads generalizing a with
  | nil => rfl
  | cons l rest ih => simp only [List.map_cons, runFirst, run_withLinks, ih]

end Lead

namespace Program

variable {extra} {p : Program} {m : ModuleView}

theorem link?_withLinks {f : ProgramMember} {source : String}
    (h : (f.links.get? source).isSome = true) :
    (f.withLinks extra).link? source = f.link? source := by
  obtain ⟨target, htarget⟩ := Option.isSome_iff_exists.mp h
  have hget : (f.withLinks extra).links.get? source = some target := by
    change ((extra f).insertAll f.links.entries).get? source = some target
    have hlookup : f.links.entries.lookup source = some target := htarget
    rw [Dictionary.get?_insertAll, f.links.ascending.lookup_reverse, hlookup, Option.some_or]
  unfold ProgramMember.link?
  rw [hget, htarget]

theorem file?_withLinks (path : Path) :
    (p.withLinks extra).file? path = (p.file? path).map (·.withLinks extra) := by
  unfold file? withLinks
  rw [List.find?_map]
  rfl

/-- A declared module, in its file with more links. -/
def declaredWithLinks (extra : ProgramMember → Dictionary (Option Path))
    (x : ProgramMember × NamedModule) : ProgramMember × NamedModule := (x.1.withLinks extra, x.2)

theorem namedModules_withLinks :
    (p.withLinks extra).namedModules = p.namedModules.map (declaredWithLinks extra) := by
  have hfile (f : ProgramMember) : namedModulesOf (f.withLinks extra) =
      (namedModulesOf f).map (declaredWithLinks extra) := by
    have houtline : (f.withLinks extra).outline = f.outline := rfl
    unfold namedModulesOf
    rw [houtline]
    cases f.outline with
    | none => rfl
    | some o => simp only [List.map_map]; rfl
  rw [namedModules_eq_flatMap, namedModules_eq_flatMap, List.map_flatMap]
  unfold withLinks
  rw [List.flatMap_map]
  exact congrArg p.files.flatMap (funext hfile)

theorem foldl_betterModule_withLinks (ms : List (ProgramMember × NamedModule))
    (best : ProgramMember × NamedModule) :
    (ms.map (declaredWithLinks extra)).foldl betterModule (declaredWithLinks extra best) =
      declaredWithLinks extra (ms.foldl betterModule best) := by
  induction ms generalizing best with
  | nil => rfl
  | cons x ms ih =>
    have hstep : betterModule (declaredWithLinks extra best) (declaredWithLinks extra x) =
        declaredWithLinks extra (betterModule best x) := by
      unfold betterModule
      exact (apply_ite (declaredWithLinks extra) _ x best).symm
    rw [List.map_cons, List.foldl_cons, List.foldl_cons, hstep, ih]

theorem namedModule?_withLinks (specifier : String) : (p.withLinks extra).namedModule? specifier =
    (p.namedModule? specifier).map (declaredWithLinks extra) := by
  have hexact : (p.withLinks extra).namedModules.find? (fun x => x.2.name = specifier) =
      (p.namedModules.find? fun x => x.2.name = specifier).map (declaredWithLinks extra) := by
    rw [namedModules_withLinks, List.find?_map]
    rfl
  have hpatterns : ((p.withLinks extra).namedModules.filter fun x =>
      Wildcard.hasStar x.2.name && (Wildcard.capture? x.2.name specifier).isSome) =
      (p.namedModules.filter fun x =>
        Wildcard.hasStar x.2.name && (Wildcard.capture? x.2.name specifier).isSome).map
          (declaredWithLinks extra) := by
    rw [namedModules_withLinks, List.filter_map]
    rfl
  unfold namedModule?
  rw [hexact]
  cases p.namedModules.find? fun x => x.2.name = specifier with
  | some x => rfl
  | none =>
    dsimp only [Option.map_none]
    rw [hpatterns]
    cases p.namedModules.filter fun x =>
        Wildcard.hasStar x.2.name && (Wildcard.capture? x.2.name specifier).isSome with
    | nil => rfl
    | cons first rest => exact congrArg some (foldl_betterModule_withLinks rest first)

/-- A specifier with a link means the same module. -/
theorem moduleFor?_withLinks {source : String}
    (h : (m.file.links.get? source).isSome = true) :
    (p.withLinks extra).moduleFor? (m.withLinks extra) source =
      (p.moduleFor? m source).map (·.withLinks extra) := by
  have hlink : ((m.withLinks extra).file.link? source).bind (p.withLinks extra).file? =
      ((m.file.link? source).bind p.file?).map (·.withLinks extra) := by
    change ((m.file.withLinks extra).link? source).bind (p.withLinks extra).file? = _
    rw [link?_withLinks h, Option.map_bind]
    exact congrArg _ (funext file?_withLinks)
  unfold moduleFor?
  rw [hlink]
  cases (m.file.link? source).bind p.file? with
  | some f => rfl
  | none =>
    dsimp only [Option.map_none]
    rw [namedModule?_withLinks, Option.map_map, Option.map_map]
    rfl

/-! ### Lookups with more links -/

section Leads

variable (hm : m.Settled) {scope : Scope} (hs : m.scope = some scope)

include hm hs

theorem remoteLead_withLinks {source : String} (hsource : scope.Names source) (name : String) :
    (p.withLinks extra).remoteLead (m.withLinks extra) source name =
      (p.remoteLead m source name).withLinks extra := by
  unfold remoteLead
  rw [moduleFor?_withLinks (hm scope hs source hsource)]
  cases p.moduleFor? m source <;> rfl

theorem importLead_withLinks {b : Import} (hb : b ∈ scope.imports) :
    (p.withLinks extra).importLead (m.withLinks extra) b =
      (p.importLead m b).withLinks extra := by
  unfold importLead
  rw [moduleFor?_withLinks (hm scope hs b.source (Or.inl ⟨b, hb, rfl⟩))]
  cases p.moduleFor? m b.source with
  | none => rfl
  | some target =>
    dsimp only [Option.map_some]
    cases b.imported <;> rfl

theorem localLead_withLinks (name : String) :
    (p.withLinks extra).localLead (m.withLinks extra) scope name =
      (p.localLead m scope name).withLinks extra := by
  unfold localLead
  cases scope.declarations.get? name with
  | some meaning => rfl
  | none =>
    dsimp only
    cases hb : scope.imports.find? fun b => b.name = name with
    | none => rfl
    | some b => exact importLead_withLinks hm hs (List.mem_of_find?_eq_some hb)

theorem originLead_withLinks {e : Export} (he : e ∈ scope.exports) :
    (p.withLinks extra).originLead (m.withLinks extra) scope e =
      (p.originLead m scope e).withLinks extra := by
  have hnames {source : String} (hsource : e.target.source? = some source) : scope.Names source :=
    Or.inr (Or.inl ⟨e, he, hsource⟩)
  unfold originLead
  cases htarget : e.target with
  | declared meaning => rfl
  | local_ name => exact localLead_withLinks hm hs name
  | remote source name => exact remoteLead_withLinks hm hs (hnames (by rw [htarget]; rfl)) name
  | whole source =>
    dsimp only
    rw [moduleFor?_withLinks (hm scope hs source (hnames (by rw [htarget]; rfl)))]
    cases p.moduleFor? m source <;> rfl

theorem entryLeads_withLinks (name : String) :
    (p.withLinks extra).entryLeads (m.withLinks extra) scope name =
      (p.entryLeads m scope name).map (Lead.withLinks extra) := by
  unfold entryLeads
  rw [List.map_map]
  apply List.map_congr_left
  intro e he
  rw [Function.comp_apply, entryLead, entryLead,
    originLead_withLinks hm hs (List.mem_filter.mp he).1, Lead.through_withLinks]

theorem starLeads_withLinks (name : String) :
    (p.withLinks extra).starLeads (m.withLinks extra) scope name =
      (p.starLeads m scope name).map (Lead.withLinks extra) := by
  unfold starLeads
  rw [List.map_map]
  apply List.map_congr_left
  intro f hf
  have hmem : f ∈ scope.forwards := by
    split at hf
    · cases hf
    · exact hf
  rw [Function.comp_apply, starLead, starLead,
    remoteLead_withLinks hm hs (Or.inr (Or.inr ⟨f, hmem, rfl⟩)), Lead.through_withLinks]

theorem scopeAnswer_withLinks (g : ExportLookup) (name : String) (seen : List Query) :
    (p.withLinks extra).scopeAnswer (m.withLinks extra) g scope name seen =
      p.scopeAnswer m (fun m name => g (m.withLinks extra) name) scope name seen := by
  unfold scopeAnswer
  rw [entryLeads_withLinks hm hs, starLeads_withLinks hm hs, Lead.runAll_withLinks,
    Lead.runFirst_withLinks]
  rfl

end Leads

theorem followExport_withLinks (hp : ∀ m, p.IsModule m → m.Settled) (hm : p.IsModule m)
    (steps : Nat) (name : String) (seen : List Query) :
    ((p.withLinks extra).followExport steps (m.withLinks extra) name).run seen =
      (p.followExport steps m name).run seen := by
  induction steps generalizing m name seen with
  | zero => rfl
  | succ steps ih =>
    by_cases hq : m.query name ∈ seen
    · rw [p.followExport_seen m hq]
      exact (p.withLinks extra).followExport_seen (m.withLinks extra) hq
    cases hs : m.scope with
    | none =>
      rw [p.followExport_opaque m hq hs]
      exact followExport_opaque (p.withLinks extra) (m.withLinks extra) hq hs
    | some scope =>
      rw [p.followExport_fresh m hq hs]
      refine ((p.withLinks extra).followExport_fresh (m.withLinks extra) hq hs).trans ?_
      rw [scopeAnswer_withLinks (hp m hm) hs]
      -- what the leads of the module ask for is again a module of the program
      apply scopeAnswer_congr (Q := fun _ => True) trivial
      intro l hl v _
      have hasks := leads_ask hm hs (p.name_mem_names name) l hl
      cases l with
      | answer a => exact ⟨rfl, trivial⟩
      | ask m' name' t =>
        rw [Lead.run_ask, Lead.run_ask, ih hasks.1]
        exact ⟨rfl, trivial⟩

theorem lookupBound_withLinks : (p.withLinks extra).lookupBound = p.lookupBound := by
  have hmodules : (p.withLinks extra).modules = p.modules.map (·.withLinks extra) := by
    unfold modules
    rw [namedModules_withLinks, List.map_append, List.map_map, List.map_map, List.map_map]
    unfold withLinks
    rw [List.map_map]
    rfl
  have hcounts : (p.withLinks extra).modules.map nameCount = p.modules.map nameCount := by
    rw [hmodules, List.map_map]
    rfl
  unfold lookupBound
  rw [hcounts, hmodules, List.length_map]

theorem exported_withLinks (hp : ∀ m, p.IsModule m → m.Settled) (hm : p.IsModule m)
    (name : String) (seen : List Query) :
    ((p.withLinks extra).exported (m.withLinks extra) name).run seen =
      (p.exported m name).run seen := by
  unfold exported
  rw [lookupBound_withLinks]
  exact followExport_withLinks hp hm p.lookupBound name seen

theorem lead_withLinks (hp : ∀ m, p.IsModule m → m.Settled) {l : Lead} {name : String}
    (hl : l.Asks p.IsModule (p.names name)) :
    (((l.withLinks extra).run (p.withLinks extra).exported).run []).1 =
      ((l.run p.exported).run []).1 := by
  cases l with
  | answer a => rw [Lead.withLinks, Lead.run_answer, Lead.run_answer]
  | ask m n t => rw [Lead.withLinks, Lead.run_ask, Lead.run_ask, exported_withLinks hp hl.1]

theorem scopeDiagnostics_withLinks (hp : ∀ m, p.IsModule m → m.Settled) {f : ProgramMember}
    (hf : f ∈ p.files)
    (hrequests : ∀ scope, (ModuleView.ofFile f).scope = some scope → ∀ r ∈ scope.requests,
      (f.links.get? r.text).isSome = true) (verbatim : Bool) :
    (p.withLinks extra).scopeDiagnostics verbatim (f.withLinks extra) =
      p.scopeDiagnostics verbatim f := by
  have hm : p.IsModule (.ofFile f) := Or.inl ⟨f, hf, rfl⟩
  have hview : ModuleView.ofFile (f.withLinks extra) = (ModuleView.ofFile f).withLinks extra := rfl
  unfold scopeDiagnostics
  rw [hview]
  dsimp only
  cases hs : (ModuleView.ofFile f).scope with
  | none =>
    have hs' : ((ModuleView.ofFile f).withLinks extra).scope = none := hs
    rw [hs']
  | some scope =>
    have hs' : ((ModuleView.ofFile f).withLinks extra).scope = some scope := hs
    rw [hs']
    dsimp only
    congr 1
    · congr 1
      · apply List.filterMap_congr
        intro r hr
        rw [moduleFor?_withLinks (hrequests scope hs r hr), Option.isSome_map]
        rfl
      · apply List.filterMap_congr
        intro b hb
        rw [importProblem?_eq_verdict, importProblem?_eq_verdict,
          importLead_withLinks (hp _ hm) hs hb,
          lead_withLinks hp (importLead_asks hm hs hb "default")]
        rfl
    · apply List.filterMap_congr
      intro e he
      rw [exportProblem?_eq_verdict hs', exportProblem?_eq_verdict hs,
        originLead_withLinks (hp _ hm) hs he,
        lead_withLinks hp (originLead_asks hm hs he "default")]
      rfl

/-- Where all that is named and requested has a link, no other link is ever asked for. -/
theorem check_withLinks (hp : ∀ m, p.IsModule m → m.Settled)
    (hrequests : ∀ f ∈ p.files, ∀ scope, (ModuleView.ofFile f).scope = some scope →
      ∀ r ∈ scope.requests, (f.links.get? r.text).isSome = true) (options : Options) :
    (p.withLinks extra).check options = p.check options := by
  have hfiles : (p.withLinks extra).files.flatMap
      ((p.withLinks extra).fileDiagnostics options.verbatim) =
        p.files.flatMap (p.fileDiagnostics options.verbatim) := by
    have hmap : (p.withLinks extra).files = p.files.map (·.withLinks extra) := rfl
    rw [hmap, List.flatMap_map]
    apply List.flatMap_congr
    intro f hf
    have hown : (f.withLinks extra).isOwnSource = f.isOwnSource := rfl
    unfold fileDiagnostics
    rw [hown, scopeDiagnostics_withLinks hp hf (hrequests f hf)]
    rfl
  rw [check_eq_arrange, check_eq_arrange, problems, hfiles]
  rfl

end Program

end Links

/-! ### Loaded programs -/

namespace Program

variable {disk : Disk} {roots : List Path} {options : Options} {p : Program}

/-- What a file names, itself or in a module that it declares, has a link, which is what the search
for it has found. -/
theorem exists_link (hload : load disk roots options = .ok p) {f : ProgramMember} (hf : f ∈ p.files)
    {o : Outline} (ho : f.outline = some o) {source : String}
    (h : Source.Requested o.requests source) :
    ∃ target, f.links.get? source = some target ∧
      ∃ cache, Resolver.Kept disk (fun _ => True) cache ∧
        target = (((Resolver.ofOptions options).resolve disk source f.path).run cache).1 := by
  obtain ⟨answer, _, hfinished⟩ := Finished.of_load hload
  obtain ⟨r, hr, rfl⟩ := h
  have hrequest : r ∈ requestsOf f.parsed := by
    have hparsed : f.parsed.outline = some o := ho
    unfold requestsOf
    rw [hparsed]
    exact hr
  exact ⟨_, hfinished.agrees f hf r hrequest, hfinished.answers f.path r.text⟩

theorem requested_of_member (hload : load disk roots options = .ok p) {f : ProgramMember}
    (hf : f ∈ p.files) {o : Outline} (ho : f.outline = some o) {source : String}
    (h : o.Names source) : Source.Requested o.requests source := by
  obtain ⟨_, _, hfinished⟩ := Finished.of_load hload
  have hparsed := (hfinished.valid.members f hf).parsed
  unfold ProgramMember.outline at ho
  rw [hparsed] at ho
  exact Source.requested_of_readSource ho h

/-- What a module of a program names is named by its file. -/
theorem names_of_isModule {m : ModuleView} (hm : m ∈ p.modules) {scope : Scope}
    (hs : m.scope = some scope) {source : String} (h : scope.Names source) :
    m.file ∈ p.files ∧ ∃ o, m.file.outline = some o ∧ o.Names source := by
  rcases List.mem_append.mp hm with hm | hm
  · obtain ⟨f, hf, rfl⟩ := List.mem_map.mp hm
    obtain ⟨o, ho, rfl⟩ := Option.map_eq_some_iff.mp hs
    exact ⟨hf, o, ho, Or.inl h⟩
  · obtain ⟨⟨f, d⟩, hd, rfl⟩ := List.mem_map.mp hm
    rw [namedModules_eq_flatMap] at hd
    obtain ⟨g, hg, hd⟩ := List.mem_flatMap.mp hd
    unfold namedModulesOf at hd
    split at hd
    · rename_i o ho
      obtain ⟨d', hd', he⟩ := List.mem_map.mp hd
      obtain ⟨rfl, rfl⟩ := Prod.mk.inj he
      exact ⟨hg, o, ho, Or.inr ⟨d', hd', scope, hs, h⟩⟩
    · cases hd

theorem settled_of_load (hload : load disk roots options = .ok p) {m : ModuleView}
    (hm : m ∈ p.modules) : m.Settled := by
  intro scope hs source h
  obtain ⟨hf, o, ho, hnames⟩ := names_of_isModule hm hs h
  obtain ⟨target, hget, _⟩ := exists_link hload hf ho (requested_of_member hload hf ho hnames)
  exact Option.isSome_iff_exists.mpr ⟨target, hget⟩

/-- Where two files never have one path, nothing that is told gets lost. -/
theorem mem_check (hp : DistinctPaths p.files) {d : Diagnostic}
    (h : d ∈ p.problems options.verbatim) : d ∈ p.check options := by
  rw [check_eq_arrange]
  obtain ⟨d', hd', hsame⟩ := Diagnostic.exists_same_arrange h
  rw [← eq_of_same hp (Diagnostic.mem_of_mem_arrange hd') h hsame]
  exact hd'

/-- Every module that a file names is requested by it. In a program that was loaded each specifier
that a check can ask for has a link, which is what the search for it has found, and links for other
specifiers would change nothing. Of a module that is not found a file that is checked is told, at
one of its requests. -/
theorem named_requested :
    (∀ text kind o, (Source.readSource text kind).outline = some o →
      ∀ source, o.Names source → ∃ r ∈ o.requests, r.text = source) ∧
    ∀ disk roots options p, load disk roots options = .ok p →
      (∀ m ∈ p.modules, ∀ scope, m.scope = some scope → ∀ source, scope.Names source →
        ∃ target, m.file.links.get? source = some target ∧
          ∃ cache, Resolver.Kept disk (fun _ => True) cache ∧
            target = (((Resolver.ofOptions options).resolve disk source m.file.path).run cache).1) ∧
      (∀ extra options', (p.withLinks extra).check options' = p.check options') ∧
      ∀ f ∈ p.files, f.isOwnSource = true → ∀ o, f.outline = some o → ∀ source, o.Names source →
        p.moduleFor? (.ofFile f) source = none → ∃ r ∈ o.requests, r.text = source ∧
          ∀ options', .inFile (.moduleNotFound source) f.source r.span ∈ p.check options' := by
  refine ⟨fun text kind o ho source h => Source.requested_of_readSource ho h, ?_⟩
  intro disk roots options p hload
  refine ⟨?_, ?_, ?_⟩
  · intro m hm scope hs source h
    obtain ⟨hf, o, ho, hnames⟩ := names_of_isModule hm hs h
    exact exists_link hload hf ho (requested_of_member hload hf ho hnames)
  · intro extra options'
    apply check_withLinks
    · exact fun m hm => settled_of_load hload hm.mem_modules
    · intro f hf scope hs r hr
      obtain ⟨o, ho, rfl⟩ := Option.map_eq_some_iff.mp hs
      obtain ⟨target, hget, _⟩ := exists_link hload hf ho ⟨r, hr, rfl⟩
      exact Option.isSome_iff_exists.mpr ⟨target, hget⟩
  · intro f hf hown o ho source h hnone
    obtain ⟨r, hr, rfl⟩ := requested_of_member hload hf ho h
    refine ⟨r, hr, rfl, fun options' => mem_check (load_distinct hload) ?_⟩
    refine mem_problems.mpr (Or.inr ⟨f, hf, Or.inr ⟨hown, o.toScope, ?_, .request hr hnone⟩⟩)
    exact congrArg (Option.map fun s : Outline => s.toScope) ho

/-- A file whose declared module exports all of a file that is not there. -/
def goneDisk : Disk :=
  .ofTexts [("a.ts", "declare module 'm' \x7b export * from './gone' \x7d")]

set_option maxRecDepth 4096 in
theorem named_in_declared_module : ∃ p f o, load goneDisk [⟨"/a.ts"⟩] ∅ = .ok p ∧ f ∈ p.files ∧
    f.outline = some o ∧ o.Names "./gone" ∧ ¬ o.toScope.Names "./gone" ∧
    f.links.get? "./gone" = some none ∧ ∃ r ∈ o.requests, r.text = "./gone" ∧
      .inFile (.moduleNotFound "./gone") f.source r.span ∈ p.check ∅ := by
  have hfacts : (load goneDisk [⟨"/a.ts"⟩] ∅).toOption.any (fun p => p.files.any fun f =>
      f.isOwnSource && (p.moduleFor? (.ofFile f) "./gone").isNone &&
        f.links.get? "./gone" = some none && f.outline.any fun o =>
          o.imports.isEmpty && o.exports.isEmpty && o.forwards.isEmpty &&
            o.namedModules.any fun d => d.body.any fun s =>
              s.forwards.any fun g => g.source = "./gone") = true := by decide +kernel
  obtain ⟨p, hload, hfacts⟩ := exists_of_toOption_any hfacts
  simp only [List.any_eq_true, Option.any_eq_true, Bool.and_eq_true, decide_eq_true_eq,
    Option.isNone_iff_eq_none, List.isEmpty_iff] at hfacts
  obtain ⟨f, hf, ⟨⟨hown, hnone⟩, hlink⟩, o, ho, ⟨⟨himports, hexports⟩, hforwards⟩, d, hd, s, hs,
    hg⟩ :=
    hfacts
  have hnames : o.Names "./gone" := Or.inr ⟨d, hd, s, hs, Or.inr (Or.inr hg)⟩
  have hsilent : ¬ o.toScope.Names "./gone" := by
    unfold Scope.Names
    rw [himports, hexports, hforwards]
    simp
  obtain ⟨_, _, htold⟩ := named_requested.2 goneDisk [⟨"/a.ts"⟩] ∅ p hload
  obtain ⟨r, hr, htext, hcheck⟩ := htold f hf hown o ho "./gone" hnames hnone
  exact ⟨p, f, o, hload, hf, ho, hnames, hsilent, hlink, r, hr, htext, hcheck ∅⟩

end Program

end TypeOnly
