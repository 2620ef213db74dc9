import Mathlib.Data.List.Perm.Subperm
import TypeOnly.Proofs.ExportLeads

/-!
A lookup asks only modules of its program, and only for names that stand in them, so that what it
has seen is always a list without repetitions of finitely many queries.
-/

namespace TypeOnly

set_option autoImplicit false

open Source (Scope Import Export Forward Imported)

/-- The name that an import asks its module for; none if it takes the module as a whole. -/
def Source.Imported.asked? : Imported → Option String
  | .named name => some name
  | .default => some "default"
  | .whole => none

namespace Lead

/-- The leads that ask only for queries of a list, and only modules that satisfy a condition. -/
def Asks (ok : ModuleView → Prop) (names : List String) : Lead → Prop
  | answer _ => True
  | ask m name _ => ok m ∧ name ∈ names

theorem asks_through {ok : ModuleView → Prop} {names : List String} {l : Lead} (t : Bool)
    (h : l.Asks ok names) : (l.through t).Asks ok names := by
  cases l with
  | answer a => trivial
  | ask m name t => exact h

section Relation

variable {exported : Program.ExportLookup} {R : List Query → List Query → Prop}
variable (refl : ∀ v, R v v) (trans : ∀ {u v w}, R u v → R v w → R u w)
include refl trans

theorem runAll_relates {leads : List Lead}
    (h : ∀ l ∈ leads, ∀ v, R v ((l.run exported).run v).2) (a : Answer) (v : List Query) :
    R v ((runAll exported leads a).run v).2 := by
  induction leads generalizing a v with
  | nil => exact refl v
  | cons l rest ih =>
    rw [runAll_cons]
    exact trans (h l List.mem_cons_self v)
      (ih (fun l hl => h l (List.mem_cons_of_mem _ hl)) _ _)

theorem runFirst_relates {leads : List Lead}
    (h : ∀ l ∈ leads, ∀ v, R v ((l.run exported).run v).2) (a : Answer) (v : List Query) :
    R v ((runFirst exported leads a).run v).2 := by
  induction leads generalizing a v with
  | nil => exact refl v
  | cons l rest ih =>
    have hl := h l List.mem_cons_self v
    have hrest := ih fun l hl => h l (List.mem_cons_of_mem _ hl)
    rw [runFirst_cons]
    split
    · exact hl
    · exact trans hl (hrest _ _)
    · exact trans hl (hrest _ _)

end Relation

end Lead

namespace Program

variable {p : Program} {m : ModuleView}

/-! ### Modules -/

/-- A module that a lookup can come to: a file, or the declared module that a specifier names. -/
def IsModule (p : Program) (m : ModuleView) : Prop :=
  (∃ f ∈ p.files, m = .ofFile f) ∨
    ∃ specifier f d, p.namedModule? specifier = some (f, d) ∧ m = ⟨f, d.body, some d.name⟩

theorem isModule_of_moduleFor? {specifier : String} {target : ModuleView}
    (h : p.moduleFor? m specifier = some target) : p.IsModule target := by
  unfold moduleFor? at h
  split at h
  · rename_i f hf
    obtain ⟨path, _, hp⟩ := Option.bind_eq_some_iff.mp hf
    exact Or.inl ⟨f, List.mem_of_find?_eq_some hp, (Option.some.inj h).symm⟩
  · obtain ⟨⟨f, d⟩, hd, rfl⟩ := Option.map_eq_some_iff.mp h
    exact Or.inr ⟨specifier, f, d, hd, rfl⟩

theorem foldl_betterModule_mem (ms : List (ProgramMember × Source.NamedModule))
    (best : ProgramMember × Source.NamedModule) :
    ms.foldl betterModule best = best ∨ ms.foldl betterModule best ∈ ms := by
  induction ms generalizing best with
  | nil => exact Or.inl rfl
  | cons x ms ih =>
    rw [List.foldl_cons]
    rcases ih (betterModule best x) with h | h
    · rw [h]
      unfold betterModule
      split
      · exact Or.inr List.mem_cons_self
      · exact Or.inl rfl
    · exact Or.inr (List.mem_cons_of_mem x h)

theorem mem_namedModules_of_namedModule? {specifier : String}
    {x : ProgramMember × Source.NamedModule} (h : p.namedModule? specifier = some x) :
    x ∈ p.namedModules := by
  unfold namedModule? at h
  split at h
  · rename_i y hy
    exact Option.some.inj h ▸ List.mem_of_find?_eq_some hy
  · split at h
    · simp at h
    · rename_i first rest hrest
      have hall : ∀ y ∈ first :: rest, y ∈ p.namedModules := by
        intro y hy
        rw [← hrest] at hy
        exact (List.mem_filter.mp hy).1
      obtain rfl := Option.some.inj h
      rcases foldl_betterModule_mem rest first with h | h
      · exact hall _ (by rw [h]; exact List.mem_cons_self)
      · exact hall _ (List.mem_cons_of_mem first h)

theorem IsModule.mem_modules (h : p.IsModule m) : m ∈ p.modules := by
  rcases h with ⟨f, hf, rfl⟩ | ⟨specifier, f, d, hd, rfl⟩
  · exact List.mem_append.mpr (Or.inl (List.mem_map.mpr ⟨f, hf, rfl⟩))
  · have hmem := mem_namedModules_of_namedModule? hd
    exact List.mem_append.mpr (Or.inr (List.mem_map.mpr ⟨(f, d), hmem, rfl⟩))

/-! ### Names -/

/-- The names that the imports and exports of a module ask for, one for each of them. -/
def askedNames (m : ModuleView) : List String :=
  match m.scope with
  | some s =>
    s.imports.map (fun b => b.imported.asked?.getD "default") ++
      s.exports.map fun e => match e.target with
        | .remote _ name => name
        | _ => "default"
  | none => []

theorem length_askedNames (m : ModuleView) : (askedNames m).length = nameCount m := by
  unfold askedNames nameCount
  cases m.scope <;> simp

/-- All names that a lookup of a name can come to. -/
def names (p : Program) (name : String) : List String :=
  name :: "default" :: p.modules.flatMap askedNames

/-- All queries that a lookup of a name can come to. -/
def queries (p : Program) (name : String) : List Query :=
  p.modules.flatMap fun m => (p.names name).map m.query

theorem length_queries (p : Program) (name : String) :
    (p.queries name).length + 1 = p.lookupBound := by
  have hcount (ms : List ModuleView) :
      (ms.flatMap askedNames).length + 2 = (ms.map nameCount).foldr (· + ·) 2 := by
    induction ms with
    | nil => rfl
    | cons m ms ih =>
      rw [List.flatMap_cons, List.length_append, length_askedNames, List.map_cons, List.foldr_cons,
        ← ih, Nat.add_assoc]
  have hn : (p.names name).length = (p.modules.map nameCount).foldr (· + ·) 2 := hcount p.modules
  simp only [queries, lookupBound, List.length_flatMap, List.length_map, hn, List.map_const',
    List.sum_replicate_nat]

theorem query_mem_queries {n name : String} (hm : p.IsModule m) (hn : n ∈ p.names name) :
    m.query n ∈ p.queries name :=
  List.mem_flatMap.mpr ⟨m, hm.mem_modules, List.mem_map.mpr ⟨n, hn, rfl⟩⟩

theorem name_mem_names (p : Program) (name : String) : name ∈ p.names name :=
  List.mem_cons_self

theorem default_mem_names (p : Program) (name : String) : "default" ∈ p.names name :=
  List.mem_cons_of_mem _ List.mem_cons_self

theorem asked_mem_names {n name : String} (hm : p.IsModule m) (hn : n ∈ askedNames m) :
    n ∈ p.names name :=
  List.mem_cons_of_mem _ (List.mem_cons_of_mem _
    (List.mem_flatMap.mpr ⟨m, hm.mem_modules, hn⟩))

/-! ### What a lookup has seen -/

theorem importLead_asks {scope : Scope} {b : Import} (hm : p.IsModule m)
    (hs : m.scope = some scope) (hb : b ∈ scope.imports) (name : String) :
    (p.importLead m b).Asks p.IsModule (p.names name) := by
  unfold importLead
  split
  · trivial
  · rename_i target ht
    have hasked : b.imported.asked?.getD "default" ∈ p.names name := by
      apply asked_mem_names hm
      simp only [askedNames, hs]
      exact List.mem_append.mpr (Or.inl (List.mem_map.mpr ⟨b, hb, rfl⟩))
    split
    · rename_i n hn
      exact ⟨isModule_of_moduleFor? ht, by simpa [hn, Imported.asked?] using hasked⟩
    · exact ⟨isModule_of_moduleFor? ht, default_mem_names p name⟩
    · trivial

theorem remoteLead_asks {source n : String} {name : String} (hn : n ∈ p.names name) :
    (p.remoteLead m source n).Asks p.IsModule (p.names name) := by
  unfold remoteLead
  split
  · rename_i target ht
    exact ⟨isModule_of_moduleFor? ht, hn⟩
  · trivial

theorem localLead_asks {scope : Scope} (hm : p.IsModule m) (hs : m.scope = some scope)
    (l name : String) : (p.localLead m scope l).Asks p.IsModule (p.names name) := by
  unfold localLead
  split
  · trivial
  · split
    · rename_i b hb
      exact importLead_asks hm hs (List.mem_of_find?_eq_some hb) name
    · trivial

theorem originLead_asks {scope : Scope} {e : Export} (hm : p.IsModule m)
    (hs : m.scope = some scope) (he : e ∈ scope.exports) (name : String) :
    (p.originLead m scope e).Asks p.IsModule (p.names name) := by
  unfold originLead
  cases ht : e.target with
  | declared meaning => trivial
  | whole source =>
    dsimp only
    split <;> trivial
  | remote source n =>
    apply remoteLead_asks
    apply asked_mem_names hm
    simp only [askedNames, hs]
    exact List.mem_append.mpr (Or.inr (List.mem_map.mpr ⟨e, he, by rw [ht]⟩))
  | local_ l => exact localLead_asks hm hs l name

theorem entryLeads_ask {scope : Scope} (hm : p.IsModule m) (hs : m.scope = some scope)
    (n name : String) :
    ∀ l ∈ p.entryLeads m scope n, l.Asks p.IsModule (p.names name) := by
  intro l hl
  obtain ⟨e, he, rfl⟩ := List.mem_map.mp hl
  exact Lead.asks_through _ (originLead_asks hm hs (List.mem_filter.mp he).1 name)

theorem starLeads_ask {n name : String} (scope : Scope) (hn : n ∈ p.names name) :
    ∀ l ∈ p.starLeads m scope n, l.Asks p.IsModule (p.names name) := by
  intro l hl
  obtain ⟨f, _, rfl⟩ := List.mem_map.mp hl
  exact Lead.asks_through _ (remoteLead_asks hn)

theorem leads_ask {scope : Scope} {n name : String} (hm : p.IsModule m)
    (hs : m.scope = some scope) (hn : n ∈ p.names name) :
    ∀ l ∈ p.entryLeads m scope n ++ p.starLeads m scope n, l.Asks p.IsModule (p.names name) := by
  intro l hl
  rcases List.mem_append.mp hl with hl | hl
  · exact entryLeads_ask hm hs n name l hl
  · exact starLeads_ask scope hn l hl

/-- A lookup of a name in a module can come to a name in another one. -/
inductive Reaches (p : Program) : ModuleView → String → ModuleView → String → Prop where
  | refl (m : ModuleView) (n : String) : Reaches p m n m n
  | ask {m m' m'' : ModuleView} {n n' n'' : String} {scope : Scope} {t : Bool}
      (hs : m.scope = some scope)
      (hl : .ask m' n' t ∈ p.entryLeads m scope n ++ p.starLeads m scope n)
      (h : Reaches p m' n' m'' n'') : Reaches p m n m'' n''

theorem Reaches.isModule {m' : ModuleView} {n n' : String} (h : p.Reaches m n m' n')
    (hm : p.IsModule m) : p.IsModule m' := by
  induction h with
  | refl m n => exact hm
  | ask hs hl _ ih => exact ih (leads_ask hm hs (p.name_mem_names _) _ hl).1

/-- What was seen before is still there, and nothing but queries of the list was added, each of
them once. -/
def Grows (qs seen seen' : List Query) : Prop :=
  ∃ added, seen' = added ++ seen ∧ added.Nodup ∧ ∀ q ∈ added, q ∈ qs ∧ q ∉ seen

namespace Grows

variable {qs u v w : List Query}

theorem refl (qs v : List Query) : Grows qs v v := ⟨[], rfl, List.nodup_nil, by simp⟩

theorem trans (huv : Grows qs u v) (hvw : Grows qs v w) : Grows qs u w := by
  obtain ⟨first, rfl, hfirst, hnew⟩ := huv
  obtain ⟨second, rfl, hsecond, hnew'⟩ := hvw
  refine ⟨second ++ first, (List.append_assoc _ _ _).symm, ?_, ?_⟩
  · apply List.nodup_append.mpr
    refine ⟨hsecond, hfirst, ?_⟩
    intro q hq q' hq' he
    exact (hnew' q hq).2 (List.mem_append.mpr (Or.inl (he ▸ hq')))
  · intro q hq
    rcases List.mem_append.mp hq with hq | hq
    · exact ⟨(hnew' q hq).1, fun hu => (hnew' q hq).2 (List.mem_append.mpr (Or.inr hu))⟩
    · exact hnew q hq

theorem push {q : Query} (hq : q ∉ v) (hqs : q ∈ qs) : Grows qs v (q :: v) :=
  ⟨[q], rfl, by simp, by simpa using ⟨hqs, hq⟩⟩

theorem suffix (h : Grows qs u v) : u <:+ v := by
  obtain ⟨added, rfl, _, _⟩ := h
  exact List.suffix_append added u

theorem fresh (h : Grows qs u v) (hu : u.Nodup) : v.Nodup := by
  obtain ⟨added, rfl, hadded, hnew⟩ := h
  apply List.nodup_append.mpr
  refine ⟨hadded, hu, ?_⟩
  intro q hq q' hq' he
  exact (hnew q hq).2 (he ▸ hq')

theorem within (h : Grows qs u v) (hu : u ⊆ qs) : v ⊆ qs := by
  obtain ⟨added, rfl, _, hnew⟩ := h
  intro q hq
  rcases List.mem_append.mp hq with hq | hq
  · exact (hnew q hq).1
  · exact hu hq

end Grows

/-- More steps are left than there are queries to come. -/
structure Room (qs : List Query) (steps : Nat) (seen : List Query) : Prop where
  nodup : seen.Nodup
  within : seen ⊆ qs
  enough : qs.length < steps + seen.length

namespace Room

variable {qs seen seen' : List Query} {steps : Nat}

theorem grow (h : Room qs steps seen) (hg : Grows qs seen seen') : Room qs steps seen' where
  nodup := hg.fresh h.nodup
  within := hg.within h.within
  enough := by
    have hle := hg.suffix.length_le
    have he := h.enough
    omega

theorem steps_ne_zero (h : Room qs steps seen) : steps ≠ 0 := by
  have hle := (h.nodup.subperm h.within).length_le
  have he := h.enough
  omega

theorem push {q : Query} (h : Room qs (steps + 1) seen) (hq : q ∉ seen) (hqs : q ∈ qs) :
    Room qs steps (q :: seen) where
  nodup := List.nodup_cons.mpr ⟨hq, h.nodup⟩
  within := List.cons_subset.mpr ⟨hqs, h.within⟩
  enough := by
    have he := h.enough
    rw [List.length_cons]
    omega

end Room

theorem scopeAnswer_grows {g : ExportLookup} {n name : String} {scope : Scope}
    (hm : p.IsModule m) (hs : m.scope = some scope) (hn : n ∈ p.names name)
    (hg : ∀ m n, p.IsModule m → n ∈ p.names name →
      ∀ seen, Grows (p.queries name) seen ((g m n).run seen).2) (seen : List Query) :
    Grows (p.queries name) seen (p.scopeAnswer m g scope n seen).2 := by
  have hlead : ∀ l : Lead, l.Asks p.IsModule (p.names name) →
      ∀ v, Grows (p.queries name) v ((l.run g).run v).2 := by
    intro l hl v
    cases l with
    | answer a => exact Grows.refl _ v
    | ask m' n' t => exact hg m' n' hl.1 hl.2 v
  have hentries := Lead.runAll_relates (Grows.refl _) Grows.trans
    (fun l hl => hlead l (entryLeads_ask hm hs n name l hl)) .absent seen
  unfold scopeAnswer
  split
  · exact Grows.refl _ seen
  · split
    · rename_i seen' hrun
      rw [hrun] at hentries
      have hstars := Lead.runFirst_relates (Grows.refl _) Grows.trans
        (fun l hl => hlead l (starLeads_ask (m := m) scope hn l hl)) .absent seen'
      split <;> (rename_i hrun'; rw [hrun'] at hstars; exact hentries.trans hstars)
    · rename_i hrun
      rw [hrun] at hentries
      exact hentries

theorem followExport_grows {n name : String} (steps : Nat) (hm : p.IsModule m)
    (hn : n ∈ p.names name) (seen : List Query) :
    Grows (p.queries name) seen ((p.followExport steps m n).run seen).2 := by
  induction steps generalizing m n seen with
  | zero => exact Grows.refl _ seen
  | succ steps ih =>
    by_cases hq : m.query n ∈ seen
    · rw [p.followExport_seen m hq]
      exact Grows.refl _ seen
    · have hpush := Grows.push hq (query_mem_queries hm hn)
      cases hs : m.scope with
      | none =>
        rw [p.followExport_opaque m hq hs]
        exact hpush
      | some scope =>
        rw [p.followExport_fresh m hq hs]
        exact hpush.trans
          (scopeAnswer_grows hm hs hn (fun m n hm hn seen => ih hm hn seen) _)

end Program

end TypeOnly
