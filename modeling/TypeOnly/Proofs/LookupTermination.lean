import TypeOnly.Proofs.LoadedPrograms
import TypeOnly.Proofs.LookupBounds

/-!
Lookups come to an end, whatever was seen before and however the modules refer to each other. Each
round that goes on notes a query that was not there yet, and all queries come from one finite list,
so that only so many rounds can follow each other.
-/

namespace TypeOnly

set_option autoImplicit false

open Source (Scope Import)

/-! ### Leads that look the same up -/

namespace Lead

section Congruence

variable {g g' : Program.ExportLookup} {Q : List Query → Prop} {leads : List Lead}
variable (h : ∀ l ∈ leads, ∀ v, Q v → (l.run g).run v = (l.run g').run v ∧ Q ((l.run g).run v).2)
include h

theorem runAll_congr (a : Answer) {v : List Query} (hv : Q v) :
    (runAll g leads a).run v = (runAll g' leads a).run v := by
  induction leads generalizing a v with
  | nil => rfl
  | cons l rest ih =>
    obtain ⟨heq, hkeep⟩ := h l List.mem_cons_self v hv
    rw [runAll_cons, runAll_cons, ← heq]
    exact ih (fun l hl => h l (List.mem_cons_of_mem _ hl)) _ hkeep

theorem runFirst_congr (a : Answer) {v : List Query} (hv : Q v) :
    (runFirst g leads a).run v = (runFirst g' leads a).run v := by
  induction leads generalizing a v with
  | nil => rfl
  | cons l rest ih =>
    obtain ⟨heq, hkeep⟩ := h l List.mem_cons_self v hv
    have hrest := fun a => ih (fun l hl => h l (List.mem_cons_of_mem _ hl)) a hkeep
    rw [runFirst_cons, runFirst_cons, ← heq]
    split
    · rfl
    · exact hrest _
    · exact hrest _

theorem runAll_keeps (a : Answer) {v : List Query} (hv : Q v) : Q ((runAll g leads a).run v).2 := by
  have hstep := fun l hl v (hv : Q v) => (h l hl v hv).2
  exact runAll_relates (R := fun u v => Q u → Q v) (fun _ => id)
    (fun huv hvw hu => hvw (huv hu)) hstep a v hv

end Congruence

end Lead

namespace Program

variable {p : Program} {m : ModuleView} {name : String}

theorem scopeAnswer_congr {g g' : ExportLookup} {Q : List Query → Prop} {scope : Scope} {n : String}
    {seen : List Query} (hseen : Q seen)
    (h : ∀ l ∈ p.entryLeads m scope n ++ p.starLeads m scope n, ∀ v, Q v →
      (l.run g).run v = (l.run g').run v ∧ Q ((l.run g).run v).2) :
    p.scopeAnswer m g scope n seen = p.scopeAnswer m g' scope n seen := by
  have hentries := fun l hl => h l (List.mem_append.mpr (Or.inl hl))
  have hstars := fun l hl => h l (List.mem_append.mpr (Or.inr hl))
  unfold scopeAnswer
  cases scope.assignment with
  | some a => rfl
  | none =>
    have hkeep := Lead.runAll_keeps hentries .absent hseen
    dsimp only
    rw [← Lead.runAll_congr hentries .absent hseen]
    generalize (Lead.runAll g (p.entryLeads m scope n) .absent).run seen = r at hkeep ⊢
    obtain ⟨a, between⟩ := r
    cases a with
    | found r => rfl
    | unknown => rfl
    | absent =>
      dsimp only at hkeep ⊢
      rw [Lead.runFirst_congr hstars .absent hkeep]

/-! ### What is left to be seen -/

/-- How many of the queries that a lookup of a name can come to are still to be seen. -/
def unseen (p : Program) (name : String) (seen : List Query) : Nat :=
  ((p.queries name).filter fun q => q ∉ seen).length

theorem unseen_le_of_grows {qs seen seen' : List Query} (h : Grows qs seen seen') :
    p.unseen name seen' ≤ p.unseen name seen := by
  apply List.Sublist.length_le
  apply List.monotone_filter_right
  intro q hq
  simp only [decide_eq_true_eq] at hq ⊢
  exact fun hmem => hq (h.suffix.subset hmem)

theorem unseen_push_lt {q : Query} {seen : List Query} (hq : q ∉ seen) (hqs : q ∈ p.queries name) :
    p.unseen name (q :: seen) < p.unseen name seen := by
  have hmem : q ∈ (p.queries name).filter fun x => x ∉ seen :=
    List.mem_filter.mpr ⟨hqs, by simpa using hq⟩
  have hsub : ((p.queries name).filter fun x => x ∉ q :: seen).Sublist
      ((p.queries name).filter fun x => x ∉ seen) := by
    apply List.monotone_filter_right
    intro x hx
    simp only [List.mem_cons, not_or, decide_eq_true_eq] at hx ⊢
    exact hx.2
  apply Nat.lt_of_le_of_ne hsub.length_le
  intro he
  rw [← hsub.eq_of_length he] at hmem
  simp at hmem

theorem unseen_lt_lookupBound (p : Program) (name : String) (seen : List Query) :
    p.unseen name seen < p.lookupBound := by
  have hle : p.unseen name seen ≤ (p.queries name).length := List.length_filter_le _ _
  have hlength := p.length_queries name
  omega

/-! ### Rounds -/

/-- So many rounds of a lookup, with `g` for all that they ask for in the end. -/
def rounds (p : Program) (g : ExportLookup) : Nat → ExportLookup
  | 0 => g
  | steps + 1 => p.followOnce (p.rounds g steps)

theorem rounds_followExport (steps more : Nat) :
    p.rounds (p.followExport more) steps = p.followExport (more + steps) := by
  induction steps with
  | zero => rfl
  | succ steps ih =>
    rw [rounds, ih]
    rfl

/-- A round asks for more only after it has noted its own query: it comes to the same with any two
lookups that agree from then on. -/
theorem followOnce_congr {n : String} {seen : List Query} (hm : p.IsModule m)
    (hn : n ∈ p.names name) {g g' : ExportLookup}
    (h : ∀ m' n' v, p.IsModule m' → n' ∈ p.names name →
      Grows (p.queries name) (m.query n :: seen) v →
      (g m' n').run v = (g' m' n').run v ∧ Grows (p.queries name) v ((g m' n').run v).2) :
    (p.followOnce g m n).run seen = (p.followOnce g' m n).run seen := by
  by_cases hq : m.query n ∈ seen
  · rw [p.followOnce_seen m g hq, p.followOnce_seen m g' hq]
  · cases hs : m.scope with
    | none => rw [p.followOnce_opaque m g hq hs, p.followOnce_opaque m g' hq hs]
    | some scope =>
      rw [p.followOnce_fresh m g hq hs, p.followOnce_fresh m g' hq hs]
      apply scopeAnswer_congr (Q := Grows (p.queries name) (m.query n :: seen)) (Grows.refl _ _)
      intro l hl v hv
      have hasks := leads_ask hm hs hn l hl
      cases l with
      | answer a => exact ⟨rfl, hv⟩
      | ask m' n' t =>
        obtain ⟨heq, hgrows⟩ := h m' n' v hasks.1 hasks.2 hv
        rw [Lead.run_ask, Lead.run_ask, heq]
        exact ⟨rfl, hv.trans (heq ▸ hgrows)⟩

/-- More rounds than there are queries to be seen never come to what lies behind them. -/
theorem rounds_eq {g : ExportLookup} {steps : Nat} {n : String} {seen : List Query}
    (hm : p.IsModule m) (hn : n ∈ p.names name) (h : p.unseen name seen < steps) :
    (p.rounds g steps m n).run seen = (p.followExport steps m n).run seen := by
  induction steps generalizing m n seen with
  | zero => omega
  | succ steps ih =>
    by_cases hq : m.query n ∈ seen
    · rw [p.followExport_seen m hq]
      exact p.followOnce_seen m _ hq
    · apply followOnce_congr hm hn
      intro m' n' v hm' hn' hv
      have hless := unseen_push_lt hq (query_mem_queries hm hn)
      have hle : p.unseen name v ≤ p.unseen name (m.query n :: seen) := unseen_le_of_grows hv
      have hv' : p.unseen name v < steps := by omega
      have heq := ih hm' hn' hv'
      rw [heq]
      exact ⟨rfl, followExport_grows steps hm' hn' v⟩

theorem followExport_eq_of_le {steps steps' : Nat} {n : String} {seen : List Query}
    (hm : p.IsModule m) (hn : n ∈ p.names name) (h : p.unseen name seen < steps)
    (hle : steps ≤ steps') :
    (p.followExport steps' m n).run seen = (p.followExport steps m n).run seen := by
  obtain ⟨more, rfl⟩ := Nat.exists_eq_add_of_le' hle
  rw [← rounds_followExport]
  exact rounds_eq hm hn h

/-! ### Ends -/

/-- A search that looks exports up is over after so many rounds: it comes to the same, whatever
further rounds would find. -/
def EndsWithin (p : Program) (steps : Nat) (search : ExportLookup → Following Answer)
    (seen : List Query) : Prop :=
  ∀ g g', (search (p.rounds g steps)).run seen = (search (p.rounds g' steps)).run seen

theorem lead_endsWithin {seen : List Query} {steps : Nat} {l : Lead}
    (hl : l.Asks p.IsModule (p.names name)) (h : p.unseen name seen < steps) :
    p.EndsWithin steps l.run seen := by
  intro g g'
  cases l with
  | answer a => rfl
  | ask m n t => rw [Lead.run_ask, Lead.run_ask, rounds_eq hl.1 hl.2 h, rounds_eq hl.1 hl.2 h]

theorem followLocal_endsWithin {seen : List Query} {steps : Nat} (hm : p.IsModule m) (l : String)
    (h : p.unseen name seen < steps) :
    p.EndsWithin steps (fun exported => p.followLocal exported m l) seen := by
  intro g g'
  cases hs : m.scope with
  | none => simp only [followLocal, hs]
  | some scope =>
    dsimp only
    rw [p.followLocal_eq_lead m _ hs, p.followLocal_eq_lead m _ hs]
    exact lead_endsWithin (localLead_asks hm hs l name) h g g'

theorem followImport_endsWithin {seen : List Query} {steps : Nat} {scope : Scope} {b : Import}
    (hm : p.IsModule m) (hs : m.scope = some scope) (hb : b ∈ scope.imports)
    (h : p.unseen name seen < steps) :
    p.EndsWithin steps (fun exported => p.followImport exported m b) seen := by
  intro g g'
  dsimp only
  rw [p.followImport_eq_lead m, p.followImport_eq_lead m]
  exact lead_endsWithin (importLead_asks hm hs hb name) h g g'

/-- Lookups of exports, local names and imports end from whatever was seen before, after at most one
round more than there are queries left to be seen. A round that goes on notes a new query of a
finite list before it asks for more, and the lookup that is run is the one without any bound. -/
theorem lookups_end (p : Program) {m : ModuleView} (hm : p.IsModule m) (name : String)
    (seen : List Query) :
    (∀ n ∈ p.names name,
      p.EndsWithin (p.unseen name seen + 1) (fun exported => exported m n) seen ∧
      (p.exported m n).run seen = (p.followOnce p.exported m n).run seen ∧
      Grows (p.queries name) seen ((p.exported m n).run seen).2) ∧
    (∀ l, p.EndsWithin (p.unseen name seen + 1) (fun exported => p.followLocal exported m l) seen) ∧
    (∀ scope, m.scope = some scope → ∀ b ∈ scope.imports,
      p.EndsWithin (p.unseen name seen + 1) (fun exported => p.followImport exported m b) seen) ∧
    ∀ n ∈ p.names name,
      (m.query n ∈ seen → ∀ g, (p.followOnce g m n).run seen = (.absent, seen)) ∧
      (m.query n ∉ seen → m.query n ∈ p.queries name ∧
        p.unseen name (m.query n :: seen) < p.unseen name seen ∧
        ∀ g g', (∀ m' n' v, p.IsModule m' → n' ∈ p.names name →
            Grows (p.queries name) (m.query n :: seen) v →
            (g m' n').run v = (g' m' n').run v ∧ Grows (p.queries name) v ((g m' n').run v).2) →
          (p.followOnce g m n).run seen = (p.followOnce g' m n).run seen) := by
  have hless : p.unseen name seen < p.unseen name seen + 1 := Nat.lt_succ_self _
  refine ⟨?_, ?_, ?_, ?_⟩
  · intro n hn
    refine ⟨?_, ?_, followExport_grows _ hm hn seen⟩
    · intro g g'
      dsimp only
      rw [rounds_eq hm hn hless, rounds_eq hm hn hless]
    · have hbound := p.unseen_lt_lookupBound name seen
      exact (followExport_eq_of_le hm hn hbound (Nat.le_succ _)).symm
  · intro l
    exact followLocal_endsWithin hm l hless
  · intro scope hs b hb
    exact followImport_endsWithin hm hs hb hless
  · intro n hn
    refine ⟨fun hq g => p.followOnce_seen m g hq, ?_⟩
    intro hq
    have hqs := query_mem_queries hm hn
    exact ⟨hqs, unseen_push_lt hq hqs, fun g g' h => followOnce_congr hm hn h⟩

/-- Two files that export a name of each other under the other's name. -/
def circleDisk : Disk :=
  .ofTexts [("a.ts", "export { x as y } from './b'"), ("b.ts", "export { y as x } from './a'")]

set_option maxRecDepth 4096 in
theorem lookups_end_in_circle : ∃ p m, load circleDisk [⟨"/a.ts"⟩] ∅ = .ok p ∧ p.IsModule m ∧
    p.EndsWithin (p.unseen "y" [] + 1) (fun exported => exported m "y") [] ∧
    ((p.exported m "y").run []).1 = .absent ∧ ((p.exported m "y").run []).2.length = 2 := by
  have hfacts : (load circleDisk [⟨"/a.ts"⟩] ∅).toOption.map (fun p =>
      p.files.head?.map fun f => (((p.exported (.ofFile f) "y").run []).1,
        ((p.exported (.ofFile f) "y").run []).2.length)) = some (some (.absent, 2)) := by
    decide +kernel
  obtain ⟨p, hload, hfile⟩ := exists_of_toOption_map hfacts
  obtain ⟨f, hf, hanswer⟩ := Option.map_eq_some_iff.mp hfile
  have hm : p.IsModule (.ofFile f) := Or.inl ⟨f, List.mem_of_head? hf, rfl⟩
  have hends := ((lookups_end p hm "y" []).1 "y" (p.name_mem_names "y")).1
  exact ⟨p, .ofFile f, hload, hm, hends, Prod.mk.inj hanswer⟩

end Program

end TypeOnly
