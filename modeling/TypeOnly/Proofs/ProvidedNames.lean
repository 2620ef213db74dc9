import TypeOnly.Proofs.DeclaredModules
import TypeOnly.Proofs.DiagnosticSources
import TypeOnly.Proofs.LoadedPrograms
import TypeOnly.Proofs.NegativeAnswers

/-!
Which names a module provides, said without a search: a name is provided if some chain of entries,
imports and exports of whole modules leads to a declaration. A lookup that finds a name has found
such a chain. If it finds that there is no such name, then all that it has seen is closed under
every way on, and no chain leads out of it.
-/

namespace TypeOnly.Program

set_option autoImplicit false

open Source (Scope Import Export Forward Imported NamedModule)

/-- Whether a module provides a name. -/
inductive Provides (p : Program) : ModuleView → String → Prop where
  | declared {m : ModuleView} {s : Scope} {e : Export} {meaning : Source.Meaning}
      (hs : m.scope = some s) (ha : s.assignment = none) (he : e ∈ s.exports)
      (ht : e.target = .declared meaning) : Provides p m e.name
  | whole {m : ModuleView} {s : Scope} {e : Export} {source : String}
      (hs : m.scope = some s) (ha : s.assignment = none) (he : e ∈ s.exports)
      (ht : e.target = .whole source) (hm : (p.moduleFor? m source).isSome) :
      Provides p m e.name
  | localDeclared {m : ModuleView} {s : Scope} {e : Export} {l : String}
      (hs : m.scope = some s) (ha : s.assignment = none) (he : e ∈ s.exports)
      (ht : e.target = .local_ l) (hd : (s.declarations.get? l).isSome) : Provides p m e.name
  | localWhole {m : ModuleView} {s : Scope} {e : Export} {l : String} {b : Import}
      (hs : m.scope = some s) (ha : s.assignment = none) (he : e ∈ s.exports)
      (ht : e.target = .local_ l) (hd : s.declarations.get? l = none)
      (hb : s.imports.find? (fun b => b.name = l) = some b) (hi : b.imported = .whole)
      (hm : (p.moduleFor? m b.source).isSome) : Provides p m e.name
  | localImport {m m' : ModuleView} {s : Scope} {e : Export} {l n : String} {b : Import}
      (hs : m.scope = some s) (ha : s.assignment = none) (he : e ∈ s.exports)
      (ht : e.target = .local_ l) (hd : s.declarations.get? l = none)
      (hb : s.imports.find? (fun b => b.name = l) = some b) (hi : b.imported.asked? = some n)
      (hm : p.moduleFor? m b.source = some m') (h : Provides p m' n) : Provides p m e.name
  | remote {m m' : ModuleView} {s : Scope} {e : Export} {source n : String}
      (hs : m.scope = some s) (ha : s.assignment = none) (he : e ∈ s.exports)
      (ht : e.target = .remote source n) (hm : p.moduleFor? m source = some m')
      (h : Provides p m' n) : Provides p m e.name
  | star {m m' : ModuleView} {s : Scope} {f : Forward} {n : String}
      (hs : m.scope = some s) (hn : n ≠ "default") (hf : f ∈ s.forwards)
      (hm : p.moduleFor? m f.source = some m') (h : Provides p m' n) : Provides p m n
  | member {m : ModuleView} {s : Scope} {target n : String}
      (hs : m.scope = some s) (ha : s.assignment = some (.name target)) (hn : n ≠ "default")
      (hx : ((s.namespaces.get? target).bind fun members => members.get? n).isSome) :
      Provides p m n

variable {p : Program} {m : ModuleView}

/-! ### What is found is provided -/

end TypeOnly.Program

namespace TypeOnly.Lead

set_option autoImplicit false

/-- The leads that come to something. -/
def Finds (p : Program) : Lead → Prop
  | answer a => ∃ t, a = .found t
  | ask m name _ => p.Provides m name

theorem finds_of_through {p : Program} {t : Bool} {l : Lead} (h : (l.through t).Finds p) :
    l.Finds p := by
  cases l with
  | answer a =>
    obtain ⟨r, hr⟩ := h
    exact Answer.found_of_through hr
  | ask m name t => exact h

section Found

variable {p : Program} {exported : Program.ExportLookup}

theorem runAll_found {leads : List Lead} {a : Answer} {v : List Query} {r : Referent}
    (h : ∀ l ∈ leads, ∀ v r, ((l.run exported).run v).1 = .found r → l.Finds p)
    (ha : ∀ r, a ≠ .found r) (hr : ((runAll exported leads a).run v).1 = .found r) :
    ∃ l ∈ leads, l.Finds p := by
  induction leads generalizing a v with
  | nil => exact False.elim (ha r hr)
  | cons l rest ih =>
    rw [runAll_cons] at hr
    by_cases hl : ∃ r', ((l.run exported).run v).1 = .found r'
    · obtain ⟨r', hr'⟩ := hl
      exact ⟨l, List.mem_cons_self, h l List.mem_cons_self v r' hr'⟩
    · have hmerge : ∀ r, a.merge ((l.run exported).run v).1 ≠ .found r := by
        intro r' hr'
        rcases Answer.found_of_merge hr' with ⟨r'', h⟩ | h
        · exact ha r'' h
        · exact hl h
      obtain ⟨l', hl', hf⟩ := ih (fun l hl => h l (List.mem_cons_of_mem _ hl)) hmerge hr
      exact ⟨l', List.mem_cons_of_mem _ hl', hf⟩

theorem runFirst_found {leads : List Lead} {a : Answer} {v : List Query} {r : Referent}
    (h : ∀ l ∈ leads, ∀ v r, ((l.run exported).run v).1 = .found r → l.Finds p)
    (ha : ∀ r, a ≠ .found r) (hr : ((runFirst exported leads a).run v).1 = .found r) :
    ∃ l ∈ leads, l.Finds p := by
  induction leads generalizing a v with
  | nil => exact False.elim (ha r hr)
  | cons l rest ih =>
    have hrest := fun l hl => h l (List.mem_cons_of_mem _ hl)
    rw [runFirst_cons] at hr
    split at hr
    · rename_i r' hr'
      exact ⟨l, List.mem_cons_self, h l List.mem_cons_self v r' hr'⟩
    · obtain ⟨l', hl', hf⟩ := ih hrest (by simp) hr
      exact ⟨l', List.mem_cons_of_mem _ hl', hf⟩
    · obtain ⟨l', hl', hf⟩ := ih hrest ha hr
      exact ⟨l', List.mem_cons_of_mem _ hl', hf⟩

end Found

end TypeOnly.Lead

namespace TypeOnly.Program

set_option autoImplicit false

open Source (Scope Import Export Forward Imported NamedModule)

variable {p : Program} {m : ModuleView}

theorem provides_of_entryLead {s : Scope} {e : Export} (hs : m.scope = some s)
    (ha : s.assignment = none) (he : e ∈ s.exports) (h : (p.entryLead m s e).Finds p) :
    p.Provides m e.name := by
  have h := Lead.finds_of_through h
  unfold originLead at h
  split at h
  · rename_i ht
    exact .declared hs ha he ht
  · rename_i l ht
    unfold localLead at h
    split at h
    · rename_i hd
      exact .localDeclared hs ha he ht (by rw [hd]; rfl)
    · rename_i hd
      split at h
      · rename_i b hb
        unfold importLead at h
        split at h
        · simp [Lead.Finds] at h
        · rename_i m' hm
          split at h
          · rename_i n hi
            exact .localImport hs ha he ht hd hb (by rw [hi]; rfl) hm h
          · rename_i hi
            exact .localImport hs ha he ht hd hb (by rw [hi]; rfl) hm h
          · rename_i hi
            exact .localWhole hs ha he ht hd hb hi (by rw [hm]; rfl)
      · simp [Lead.Finds] at h
  · rename_i source n ht
    unfold remoteLead at h
    split at h
    · rename_i m' hm
      exact .remote hs ha he ht hm h
    · simp [Lead.Finds] at h
  · rename_i source ht
    split at h
    · rename_i hm
      exact .whole hs ha he ht (by rw [hm]; rfl)
    · simp [Lead.Finds] at h

theorem provides_of_starLead {s : Scope} {n : String} {l : Lead} (hs : m.scope = some s)
    (hl : l ∈ p.starLeads m s n) (h : l.Finds p) : p.Provides m n := by
  unfold starLeads at hl
  split at hl
  · simp at hl
  · rename_i hn
    obtain ⟨f, hf, rfl⟩ := List.mem_map.mp hl
    have h := Lead.finds_of_through h
    unfold remoteLead at h
    split at h
    · rename_i m' hm
      exact .star hs hn hf hm h
    · simp [Lead.Finds] at h

theorem provides_of_assignment {s : Scope} {a : Source.ExportAssignment} {n : String}
    {r : Referent} (hs : m.scope = some s) (ha : s.assignment = some a)
    (h : followAssignment s a n = .found r) : p.Provides m n := by
  unfold followAssignment at h
  split at h
  · simp at h
  · split at h
    · simp at h
    · rename_i hn
      split at h
      · rename_i hx
        exact .member hs ha hn (by rw [hx]; rfl)
      · simp at h

theorem provides_of_followExport {steps : Nat} {n : String} {seen : List Query} {r : Referent}
    (h : ((p.followExport steps m n).run seen).1 = .found r) : p.Provides m n := by
  induction steps generalizing m n seen r with
  | zero => simp [followExport] at h
  | succ steps ih =>
    have hlead : ∀ l : Lead, ∀ v r,
        ((l.run (p.followExport steps)).run v).1 = .found r → l.Finds p := by
      intro l v r hl
      cases l with
      | answer a => exact ⟨r, hl⟩
      | ask m' n' t =>
        obtain ⟨r', hr'⟩ := Answer.found_of_through hl
        exact ih hr'
    by_cases hq : m.query n ∈ seen
    · simp [p.followExport_seen m hq] at h
    · cases hs : m.scope with
      | none => simp [p.followExport_opaque m hq hs] at h
      | some s =>
        rw [p.followExport_fresh m hq hs] at h
        rcases p.scopeAnswer_found m _ h with ⟨a, ha, h⟩ | ⟨ha, h | ⟨between, h⟩⟩
        · exact provides_of_assignment hs ha h
        · obtain ⟨l, hl, hf⟩ := Lead.runAll_found (fun l _ => hlead l) (by simp) h
          obtain ⟨e, he, rfl⟩ := List.mem_map.mp hl
          obtain ⟨he, hn⟩ := List.mem_filter.mp he
          exact of_decide_eq_true hn ▸ provides_of_entryLead hs ha he hf
        · obtain ⟨l, hl, hf⟩ := Lead.runFirst_found (fun l _ => hlead l) (by simp) h
          exact provides_of_starLead hs hl hf

end TypeOnly.Program

/-! ### What is not there is not provided -/

namespace TypeOnly.Program

set_option autoImplicit false

open Source (Scope Import Export Forward Imported NamedModule)

variable {p : Program} {m : ModuleView}

theorem Barren.listed_of_absent {seen : List Query} {n : String}
    (h : p.Barren (· = .absent) seen m n) : ∃ s, m.scope = some s ∧ s.assignment = none ∧
      (∀ l ∈ p.entryLeads m s n, l.Quiet (· = .absent) seen) ∧
        ∀ l ∈ p.starLeads m s n, l.Quiet (· = .absent) seen := by
  cases h with
  | closed hs h => cases h
  | assigned hs ha h => exact False.elim (followAssignment_ne_absent _ _ _ h)
  | stopped hs ha hentries hstop => cases hentries _ hstop
  | listed hs ha hentries hstars hkind => exact ⟨_, hs, ha, hentries, hstars⟩

/-! ### Queries tell modules apart -/

/-- A query tells its module and its name, unless a module is declared with the empty name: that
one is asked for like the file it stands in. -/
theorem eq_of_query_eq (hd : DistinctPaths p.files) (hnames : ∀ x ∈ p.namedModules, x.2.name ≠ "")
    {m m' : ModuleView} {n n' : String} (hm : p.IsModule m) (hm' : p.IsModule m')
    (h : m.query n = m'.query n') : m = m' ∧ n = n' := by
  simp only [ModuleView.query, Query.mk.injEq] at h
  obtain ⟨hparts, hambient, rfl⟩ := h
  refine ⟨?_, rfl⟩
  rcases hm with ⟨f, hf, rfl⟩ | ⟨specifier, f, d, hx, rfl⟩
  · rcases hm' with ⟨f', hf', rfl⟩ | ⟨specifier, f', d', hx', rfl⟩
    · rw [hd.eq_of_parts hf hf' hparts]
    · exact False.elim (hnames _ (mem_namedModules_of_namedModule? hx') hambient.symm)
  · rcases hm' with ⟨f', hf', rfl⟩ | ⟨specifier', f', d', hx', rfl⟩
    · exact False.elim (hnames _ (mem_namedModules_of_namedModule? hx) hambient)
    · have hfirst := namedModule?_first hx
      have hfirst' := namedModule?_first hx'
      have hname : d.name = d'.name := hambient
      simp only [hname] at hfirst
      rw [hfirst, Option.some.injEq, Prod.mk.injEq] at hfirst'
      obtain ⟨rfl, rfl⟩ := hfirst'
      rfl

/-! ### No chain leads out of what is settled -/

theorem Barren.origin_quiet {seen : List Query} {s : Scope} {e : Export}
    (h : p.Barren (· = .absent) seen m e.name) (hs : m.scope = some s) (he : e ∈ s.exports) :
    (p.originLead m s e).Quiet (· = .absent) seen := by
  obtain ⟨s', hs', _, hentries, _⟩ := h.listed_of_absent
  obtain rfl : s' = s := Option.some.inj (hs'.symm.trans hs)
  apply Lead.quiet_of_through Answer.joint_absent
  exact hentries _ (List.mem_map.mpr ⟨e, List.mem_filter.mpr ⟨he, by simp⟩, rfl⟩)

theorem Barren.star_quiet {seen : List Query} {s : Scope} {f : Forward} {n : String}
    (h : p.Barren (· = .absent) seen m n) (hs : m.scope = some s) (hn : n ≠ "default")
    (hf : f ∈ s.forwards) : (p.remoteLead m f.source n).Quiet (· = .absent) seen := by
  obtain ⟨s', hs', _, _, hstars⟩ := h.listed_of_absent
  obtain rfl : s' = s := Option.some.inj (hs'.symm.trans hs)
  apply Lead.quiet_of_through Answer.joint_absent
  refine hstars _ ?_
  rw [starLeads, if_neg hn]
  exact List.mem_map.mpr ⟨f, hf, rfl⟩

theorem not_provides_of_settled {seen : List Query} (hd : DistinctPaths p.files)
    (hnames : ∀ x ∈ p.namedModules, x.2.name ≠ "")
    (hall : ∀ q ∈ seen, p.Settled (· = .absent) seen q) {n : String} (h : p.Provides m n)
    (hm : p.IsModule m) : m.query n ∉ seen := by
  have hbarren : ∀ {m n}, p.IsModule m → m.query n ∈ seen → p.Barren (· = .absent) seen m n := by
    intro m n hm hq
    obtain ⟨m', n', hm', he, hb⟩ := hall _ hq
    obtain ⟨rfl, rfl⟩ := eq_of_query_eq hd hnames hm hm' he
    exact hb
  -- along the chain: each module on it was asked for its name, and was found to have none
  induction h with
  | declared hs ha he ht =>
    intro hq
    have hl := (hbarren hm hq).origin_quiet hs he
    simp [originLead, ht, Lead.Quiet] at hl
  | whole hs ha he ht hmod =>
    intro hq
    have hl := (hbarren hm hq).origin_quiet hs he
    obtain ⟨m', hm'⟩ := Option.isSome_iff_exists.mp hmod
    simp [originLead, ht, hm', Lead.Quiet] at hl
  | localDeclared hs ha he ht hdecl =>
    intro hq
    have hl := (hbarren hm hq).origin_quiet hs he
    obtain ⟨meaning, hmeaning⟩ := Option.isSome_iff_exists.mp hdecl
    simp [originLead, ht, localLead, hmeaning, Lead.Quiet] at hl
  | localWhole hs ha he ht hdecl hb hi hmod =>
    intro hq
    have hl := (hbarren hm hq).origin_quiet hs he
    obtain ⟨m', hm'⟩ := Option.isSome_iff_exists.mp hmod
    simp [originLead, ht, localLead, hdecl, hb, importLead, hm', hi, Lead.Quiet] at hl
  | @localImport m m' s e l n b hs ha he ht hdecl hb hi hmod _ ih =>
    intro hq
    have hl := (hbarren hm hq).origin_quiet hs he
    refine ih (isModule_of_moduleFor? hmod) ?_
    cases himp : b.imported with
    | whole => simp [himp, Imported.asked?] at hi
    | default =>
      obtain rfl : "default" = n := by simpa [himp, Imported.asked?] using hi
      simpa [originLead, ht, localLead, hdecl, hb, importLead, hmod, himp, Lead.Quiet] using hl
    | named n' =>
      obtain rfl : n' = n := by simpa [himp, Imported.asked?] using hi
      simpa [originLead, ht, localLead, hdecl, hb, importLead, hmod, himp, Lead.Quiet] using hl
  | remote hs ha he ht hmod _ ih =>
    intro hq
    have hl := (hbarren hm hq).origin_quiet hs he
    refine ih (isModule_of_moduleFor? hmod) ?_
    simpa [originLead, ht, remoteLead, hmod, Lead.Quiet] using hl
  | star hs hn hf hmod _ ih =>
    intro hq
    have hl := (hbarren hm hq).star_quiet hs hn hf
    refine ih (isModule_of_moduleFor? hmod) ?_
    simpa [remoteLead, hmod, Lead.Quiet] using hl
  | member hs ha hn hx =>
    intro hq
    obtain ⟨s', hs', ha', _⟩ := (hbarren hm hq).listed_of_absent
    obtain rfl := Option.some.inj (hs'.symm.trans hs)
    rw [ha] at ha'
    simp at ha'

theorem not_provides_of_exported (hd : DistinctPaths p.files)
    (hnames : ∀ x ∈ p.namedModules, x.2.name ≠ "") (hm : p.IsModule m) {n : String}
    (h : ((p.exported m n).run []).1 = .absent) : ¬ p.Provides m n := by
  obtain ⟨hq, hall⟩ := exported_settles Answer.joint_absent (p.stopsAtUnknown_absent m n) hm h
  intro hprovides
  exact not_provides_of_settled hd hnames hall hprovides hm hq

/-! ### What is told of names that are not there -/

/-- Whether there is what an import takes. -/
def ImportProvided (p : Program) (m : ModuleView) (b : Import) : Prop :=
  ∃ m', p.moduleFor? m b.source = some m' ∧ ∀ n, b.imported.asked? = some n → p.Provides m' n

/-- Whether a name stands for something inside a module. -/
def LocalProvided (p : Program) (m : ModuleView) (s : Scope) (l : String) : Prop :=
  (s.declarations.get? l).isSome ∨
    ∃ b, s.imports.find? (fun b => b.name = l) = some b ∧ p.ImportProvided m b

/-- Whether there is what an entry of an export list exports. -/
def OriginProvided (p : Program) (m : ModuleView) (s : Scope) (e : Export) : Prop :=
  match e.target with
  | .declared _ => True
  | .local_ l => p.LocalProvided m s l
  | .remote source n => ∃ m', p.moduleFor? m source = some m' ∧ p.Provides m' n
  | .whole source => (p.moduleFor? m source).isSome

theorem importLead_finds {b : Import} (h : p.ImportProvided m b) : (p.importLead m b).Finds p := by
  obtain ⟨m', hm', hn⟩ := h
  unfold importLead
  rw [hm']
  cases hi : b.imported with
  | named n => exact hn n (by rw [hi]; rfl)
  | default => exact hn "default" (by rw [hi]; rfl)
  | whole => exact ⟨_, rfl⟩

theorem localLead_finds {s : Scope} {l : String} (h : p.LocalProvided m s l) :
    (p.localLead m s l).Finds p := by
  unfold localLead
  split
  · exact ⟨_, rfl⟩
  · rename_i hd
    rcases h with h | ⟨b, hb, h⟩
    · rw [hd] at h
      simp at h
    · rw [hb]
      exact importLead_finds h

theorem remoteLead_finds {source n : String} {m' : ModuleView}
    (hm : p.moduleFor? m source = some m') (h : p.Provides m' n) :
    (p.remoteLead m source n).Finds p := by
  unfold remoteLead
  rw [hm]
  exact h

theorem lead_not_finds (hd : DistinctPaths p.files)
    (hnames : ∀ x ∈ p.namedModules, x.2.name ≠ "") {l : Lead} {names : List String}
    (hl : l.Asks p.IsModule names) (h : ((l.run p.exported).run []).1 = .absent) :
    ¬ l.Finds p := by
  cases l with
  | answer a =>
    rintro ⟨r, rfl⟩
    simp at h
  | ask m' n t => exact not_provides_of_exported hd hnames hl.1 (Answer.through_eq_absent.mp h)

/-- The numbers of the problems that say that a name is not there. -/
def absentCodes : List Nat := [1192, 2304, 2305]

theorem importVerdict_absent {verbatim : Bool} {b : Import} {a : Answer} {q : Problem}
    (h : importVerdict verbatim b a = some q) (hq : q.code ∈ absentCodes) :
    a = .absent ∧ q = absentExport b.source b.imported := by
  rcases importVerdict_eq_some.mp h with h | ⟨t, _, _, _, ⟨_, rfl⟩ | ⟨_, _, rfl⟩⟩
  · exact h
  · simp [Problem.code, absentCodes] at hq
  · simp [Problem.code, absentCodes] at hq

theorem exportVerdict_absent {verbatim : Bool} {e : Export} {a : Answer} {q : Problem}
    (h : exportVerdict verbatim e a = some q) (hq : q.code ∈ absentCodes) :
    a = .absent := by
  rcases exportVerdict_eq_some h with ⟨h, _⟩ | ⟨t, name, _, _, _, ⟨_, rfl⟩ | ⟨_, _, rfl⟩⟩
  · exact h
  · simp [Problem.code, absentCodes] at hq
  · simp [Problem.code, absentCodes] at hq

theorem originLead_finds {s : Scope} {e : Export} (h : p.OriginProvided m s e) :
    (p.originLead m s e).Finds p := by
  unfold OriginProvided at h
  unfold originLead
  cases ht : e.target with
  | declared meaning => exact ⟨_, rfl⟩
  | local_ l =>
    rw [ht] at h
    exact localLead_finds h
  | remote source n =>
    rw [ht] at h
    obtain ⟨m', hm', h⟩ := h
    exact remoteLead_finds hm' h
  | whole source =>
    rw [ht] at h
    obtain ⟨m', hm'⟩ := Option.isSome_iff_exists.mp h
    simp only [hm']
    exact ⟨_, rfl⟩

section Absent

variable (hd : DistinctPaths p.files) (hnames : ∀ x ∈ p.namedModules, x.2.name ≠ "")
include hd hnames

theorem importProblem_absent {verbatim : Bool} {s : Scope} {b : Import} {q : Problem}
    (hm : p.IsModule m) (hs : m.scope = some s) (hb : b ∈ s.imports)
    (h : p.importProblem? verbatim m b = some q) (hq : q.code ∈ absentCodes) :
    q = absentExport b.source b.imported ∧ ¬ p.ImportProvided m b := by
  rw [importProblem?_eq_verdict] at h
  split at h
  · simp at h
  · obtain ⟨habsent, rfl⟩ := importVerdict_absent h hq
    refine ⟨rfl, fun hprovided => ?_⟩
    exact lead_not_finds hd hnames (importLead_asks hm hs hb "") habsent
      (importLead_finds hprovided)

theorem exportProblem_absent {verbatim : Bool} {s : Scope} {e : Export} {q : Problem}
    (hm : p.IsModule m) (hs : m.scope = some s) (he : e ∈ s.exports)
    (h : p.exportProblem? verbatim m e = some q) (hq : q.code ∈ absentCodes) :
    ¬ p.OriginProvided m s e := by
  rw [exportProblem?_eq_verdict hs] at h
  have habsent := exportVerdict_absent h hq
  intro hprovided
  exact lead_not_finds hd hnames (originLead_asks hm hs he "") habsent
    (originLead_finds hprovided)

/-- A name that is told to be absent is not provided. -/
theorem told_absent {options : Options} {d : Diagnostic} (h : d ∈ p.check options)
    (hcode : d.code ∈ absentCodes) :
    ∃ f ∈ p.files, ∃ s, (ModuleView.ofFile f).scope = some s ∧
      ((∃ b ∈ s.imports, d = .inFile (absentExport b.source b.imported) f.source b.span ∧
          ¬ p.ImportProvided (.ofFile f) b) ∨
        ∃ e ∈ s.exports, ∃ q span, e.span = some span ∧ d = .inFile q f.source span ∧
          ¬ p.OriginProvided (.ofFile f) s e) := by
  rw [check_eq_arrange] at h
  rcases mem_problems.mp (Diagnostic.mem_of_mem_arrange h) with
    ⟨path, _, rfl⟩ | ⟨f, hf, ⟨i, _, rfl⟩ | ⟨_, s, hs, htold⟩⟩
  · simp [Diagnostic.global, Problem.code, absentCodes] at hcode
  · simp [Diagnostic.inFile, Problem.code, absentCodes] at hcode
  · have hm : p.IsModule (.ofFile f) := Or.inl ⟨f, hf, rfl⟩
    refine ⟨f, hf, s, hs, ?_⟩
    cases htold with
    | request => simp [Diagnostic.inFile, Problem.code, absentCodes] at hcode
    | @import_ b q hb hq =>
      obtain ⟨rfl, hnot⟩ := importProblem_absent hd hnames hm hs hb hq hcode
      exact Or.inl ⟨b, hb, rfl, hnot⟩
    | @export_ e span q he hspan hq =>
      have hnot := exportProblem_absent hd hnames hm hs he hq hcode
      exact Or.inr ⟨e, he, q, span, hspan, rfl, hnot⟩

end Absent

/-- Lookups are sound and complete: what is found is provided, and what is found to be absent is
not, however the modules refer to each other. So no name that is provided is told to be absent. -/
theorem lookup_sound_and_complete {disk : Disk} {roots : List Path} {options : Options}
    (hload : load disk roots options = .ok p)
    (hnames : ∀ x ∈ p.namedModules, x.2.name ≠ "") :
    (∀ m, p.IsModule m → ∀ n,
      ((∃ r, ((p.exported m n).run []).1 = .found r) → p.Provides m n) ∧
      (((p.exported m n).run []).1 = .absent → ¬ p.Provides m n)) ∧
    ∀ options, ∀ d ∈ p.check options, d.code ∈ absentCodes →
      ∃ f ∈ p.files, ∃ s, (ModuleView.ofFile f).scope = some s ∧
        ((∃ b ∈ s.imports, d = .inFile (absentExport b.source b.imported) f.source b.span ∧
            ¬ p.ImportProvided (.ofFile f) b) ∨
          ∃ e ∈ s.exports, ∃ q span, e.span = some span ∧ d = .inFile q f.source span ∧
            ¬ p.OriginProvided (.ofFile f) s e) := by
  have hd := load_distinct hload
  refine ⟨fun m hm n => ⟨?_, ?_⟩, ?_⟩
  · rintro ⟨r, hr⟩
    exact provides_of_followExport hr
  · exact not_provides_of_exported hd hnames hm
  · intro options d h hcode
    exact told_absent hd hnames h hcode

/-- Two files that export all of each other. -/
def mutualDisk : Disk :=
  .ofTexts [("a.ts", "export * from './b'; export const x = 1"), ("b.ts", "export * from './a'")]

set_option maxRecDepth 4096 in
theorem lookup_in_mutual_files : ∃ p m, load mutualDisk [⟨"/a.ts"⟩] ∅ = .ok p ∧
    (∀ x ∈ p.namedModules, x.2.name ≠ "") ∧ p.IsModule m ∧
    p.Provides m "x" ∧ ¬ p.Provides m "y" := by
  have hfacts : (load mutualDisk [⟨"/a.ts"⟩] ∅).toOption.map (fun p =>
      (p.namedModules.length, p.files[1]?.map fun f =>
        (((p.exported (.ofFile f) "x").run []).1, ((p.exported (.ofFile f) "y").run []).1))) =
      some (0, some (.found (.of .asValue), .absent)) := by decide +kernel
  obtain ⟨p, hload, hfacts⟩ := exists_of_toOption_map hfacts
  obtain ⟨hlength, hfile⟩ := Prod.mk.inj hfacts
  obtain ⟨f, hf, hanswers⟩ := Option.map_eq_some_iff.mp hfile
  obtain ⟨hx, hy⟩ := Prod.mk.inj hanswers
  have hnone : ∀ x ∈ p.namedModules, x.2.name ≠ "" := by
    rw [List.length_eq_zero_iff.mp hlength]
    intro x hx
    cases hx
  have hm : p.IsModule (.ofFile f) := Or.inl ⟨f, List.mem_of_getElem? hf, rfl⟩
  have h := (lookup_sound_and_complete hload hnone).1 _ hm
  exact ⟨p, .ofFile f, hload, hnone, hm, (h "x").1 ⟨_, hx⟩, (h "y").2 hy⟩

/-- A module declared with the empty name, and a file that exports all of it after all of the file
it stands in. -/
def namelessDisk : Disk :=
  .ofTexts [("f.d.ts", "declare module '' { const x: 1 }"),
    ("g.ts", "export * from './f'; export * from ''")]

set_option maxRecDepth 4096 in
/-- The two modules have the same queries, so that the second one is passed over. -/
theorem nameless_module_passed_over : ∃ p m,
    load namelessDisk [⟨"/f.d.ts"⟩, ⟨"/g.ts"⟩] ∅ = .ok p ∧ p.IsModule m ∧
    p.Provides m "x" ∧ ((p.exported m "x").run []).1 = .absent := by
  have hfacts : (load namelessDisk [⟨"/f.d.ts"⟩, ⟨"/g.ts"⟩] ∅).toOption.map (fun p =>
      p.files[1]?.map fun f => ((ModuleView.ofFile f).scope.map (·.forwards),
        ((p.exported (.ofFile f) "x").run []).1, (p.moduleFor? (.ofFile f) "").map fun m =>
          ((p.exported m "x").run []).1)) =
      some (some (some [⟨"./f", false⟩, ⟨"", false⟩], .absent,
        some (.found (.of .asValue)))) := by decide +kernel
  obtain ⟨p, hload, hfile⟩ := exists_of_toOption_map hfacts
  obtain ⟨f, hf, hfacts⟩ := Option.map_eq_some_iff.mp hfile
  simp only [Prod.mk.injEq, Option.map_eq_some_iff] at hfacts
  obtain ⟨⟨s, hs, hforwards⟩, hx, m, hm, hinner⟩ := hfacts
  refine ⟨p, .ofFile f, hload, Or.inl ⟨f, List.mem_of_getElem? hf, rfl⟩, ?_, hx⟩
  exact .star (f := ⟨"", false⟩) hs (by simp) (by simp [hforwards]) hm
    (provides_of_followExport hinner)

end TypeOnly.Program
