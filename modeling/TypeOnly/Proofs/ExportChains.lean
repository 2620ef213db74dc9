import TypeOnly.Proofs.LookupAgreement
import TypeOnly.Proofs.LookupTermination
import TypeOnly.Proofs.ProvidedNames

/-!
A lookup asks for nothing twice, which is meant to end circles. Here it is compared with the lookup
that remembers only what it is on its way through, and so passes over circles and nothing else. Both
say of the same names that they are absent. They give the same answers if no name has two entries in
one module that ask further, and no entry with other modules behind it leads to something unknown.
-/

namespace TypeOnly

set_option autoImplicit false

open Source (Scope)
open Answer (NotFound Alike joint_notFound joint_absent)

namespace Program

variable {p : Program} {m : ModuleView} {P : Answer → Prop} {g : ExportLookup} {n : String}

/-! ### What is not known -/

/-- Whether some way on from a name of a module ends where nothing is known. -/
inductive Clouded (p : Program) : ModuleView → String → Prop where
  | closed {m : ModuleView} {n : String} (hs : m.scope = none) : Clouded p m n
  | assigned {m : ModuleView} {n : String} {s : Scope} {a : Source.ExportAssignment}
      (hs : m.scope = some s) (ha : s.assignment = some a) (h : followAssignment s a n = .unknown) :
      Clouded p m n
  | javaScript {m : ModuleView} {n : String} (h : m.file.kind.isJavaScript = true) : Clouded p m n
  | nowhere {m : ModuleView} {n : String} {s : Scope} (hs : m.scope = some s)
      (hl : .answer .unknown ∈ p.entryLeads m s n ++ p.starLeads m s n) : Clouded p m n
  | onward {m m' : ModuleView} {n n' : String} {s : Scope} {t : Bool} (hs : m.scope = some s)
      (hl : .ask m' n' t ∈ p.entryLeads m s n ++ p.starLeads m s n) (h : Clouded p m' n') :
      Clouded p m n

theorem clouded_of_lead {s : Scope} (hs : m.scope = some s)
    (hg : ∀ m n v, ((g m n).run v).1 = .unknown → p.Clouded m n) {l : Lead}
    (hl : l ∈ p.entryLeads m s n ++ p.starLeads m s n) {v : List Query}
    (h : ((l.run g).run v).1 = .unknown) : p.Clouded m n := by
  cases l with
  | answer a =>
    obtain rfl : a = .unknown := h
    exact .nowhere hs hl
  | ask m' n' t =>
    refine .onward hs hl (hg m' n' v ?_)
    rw [Lead.run_ask] at h
    revert h
    cases ((g m' n').run v).1 <;> simp [Answer.through]

theorem clouded_of_followOnce (hg : ∀ m n v, ((g m n).run v).1 = .unknown → p.Clouded m n)
    {v : List Query} (h : ((p.followOnce g m n).run v).1 = .unknown) : p.Clouded m n := by
  by_cases hq : m.query n ∈ v
  · rw [p.followOnce_seen m g hq] at h
    simp at h
  cases hs : m.scope with
  | none => exact .closed hs
  | some s =>
    rw [p.followOnce_fresh m g hq hs] at h
    cases ha : s.assignment with
    | some a =>
      simp only [scopeAnswer, ha] at h
      exact .assigned hs ha h
    | none =>
      by_cases hall :
          ((Lead.runAll g (p.entryLeads m s n) .absent).run (m.query n :: v)).1 = .absent
      · by_cases hfirst : ((Lead.runFirst g (p.starLeads m s n) .absent).run
            ((Lead.runAll g (p.entryLeads m s n) .absent).run (m.query n :: v)).2).1 = .absent
        · by_contra hclear
          have hkind : m.file.kind.isJavaScript = true → Answer.unknown = Answer.absent :=
            fun hjs => False.elim (hclear (.javaScript hjs))
          have habsent := scopeAnswer_gives ha joint_absent hall fun _ => ⟨hfirst, hkind⟩
          rw [h] at habsent
          cases habsent
        · rw [scopeAnswer_stars ha hall hfirst] at h
          obtain ⟨l, hl, w, hw⟩ := Lead.unknown_of_runFirst (by simp) h
          exact clouded_of_lead hs hg (List.mem_append.mpr (Or.inr hl)) hw
      · rw [scopeAnswer_entries ha hall] at h
        obtain ⟨l, hl, w, hw⟩ := Lead.unknown_of_runAll (by simp) h
        exact clouded_of_lead hs hg (List.mem_append.mpr (Or.inl hl)) hw

theorem clouded_of_followExport (steps : Nat) {v : List Query}
    (h : ((p.followExport steps m n).run v).1 = .unknown) : p.Clouded m n := by
  induction steps generalizing m n v with
  | zero => simp [followExport] at h
  | succ steps ih => exact clouded_of_followOnce (fun m n v => ih) h

/-! ### The lookup that forgets -/

/-- The lookup that remembers only what it is on its way through, and forgets it with the answer. -/
def followOnChain (p : Program) : Nat → ExportLookup
  | 0 => fun _ _ => return .absent
  | steps + 1 => fun m name => do
    let chain ← get
    let answer ← p.followOnce (followOnChain p steps) m name
    set chain
    return answer

def onChain (p : Program) : ExportLookup := p.followOnChain p.lookupBound

theorem followOnChain_run (steps : Nat) (m : ModuleView) (n : String) (chain : List Query) :
    (p.followOnChain (steps + 1) m n).run chain =
      (((p.followOnce (p.followOnChain steps) m n).run chain).1, chain) := rfl

theorem followOnChain_forgets (steps : Nat) (m : ModuleView) (n : String) (chain : List Query) :
    ((p.followOnChain steps m n).run chain).2 = chain := by
  cases steps <;> rfl

theorem lead_forgets (steps : Nat) (l : Lead) (chain : List Query) :
    ((l.run (p.followOnChain steps)).run chain).2 = chain := by
  cases l with
  | answer a => rfl
  | ask m n t => exact followOnChain_forgets steps m n chain

theorem runAll_forgets (steps : Nat) (leads : List Lead) (a : Answer) (chain : List Query) :
    ((Lead.runAll (p.followOnChain steps) leads a).run chain).2 = chain :=
  Lead.runAll_relates (R := fun u v => v = u) (fun _ => rfl) (fun huv hvw => hvw.trans huv)
    (fun l _ v => lead_forgets steps l v) a chain

theorem clouded_of_followOnChain (steps : Nat) {v : List Query}
    (h : ((p.followOnChain steps m n).run v).1 = .unknown) : p.Clouded m n := by
  induction steps generalizing m n v with
  | zero => simp [followOnChain] at h
  | succ steps ih => exact clouded_of_followOnce (fun m n v => ih) h

theorem followOnChain_eq_of_room {steps : Nat} {name : String} {chain : List Query}
    (hm : p.IsModule m) (hn : n ∈ p.names name) (hroom : Room (p.queries name) steps chain)
    (more : Nat) :
    (p.followOnChain (steps + more) m n).run chain = (p.followOnChain steps m n).run chain := by
  induction steps generalizing m n chain with
  | zero => exact False.elim (hroom.steps_ne_zero rfl)
  | succ steps ih =>
    by_cases hq : m.query n ∈ chain
    · rw [Nat.succ_add, followOnChain_run, followOnChain_run, p.followOnce_seen m _ hq,
        p.followOnce_seen m _ hq]
    · have hroom' := hroom.push hq (query_mem_queries hm hn)
      have honce : (p.followOnce (p.followOnChain (steps + more)) m n).run chain =
          (p.followOnce (p.followOnChain steps) m n).run chain := by
        apply followOnce_congr hm hn
        intro m' n' v hm' hn' hgrows
        refine ⟨ih hm' hn' (hroom'.grow hgrows), ?_⟩
        rw [followOnChain_forgets]
        exact Grows.refl _ v
      rw [Nat.succ_add, followOnChain_run, followOnChain_run, honce]

/-- What was looked up before and is settled is settled for the lookup that forgets. -/
theorem followOnChain_settled (hP : Answer.Joint P) (hd : DistinctPaths p.files)
    (hnames : ∀ x ∈ p.namedModules, x.2.name ≠ "") {seen chain : List Query}
    (hall : ∀ q ∈ seen, q ∈ chain ∨ p.Settled P seen q) {steps : Nat} (hm : p.IsModule m)
    (hq : m.query n ∈ seen) : P ((p.followOnChain steps m n).run chain).1 := by
  induction steps generalizing m n chain with
  | zero => exact hP.absent
  | succ steps ih =>
    rw [followOnChain_run]
    by_cases hc : m.query n ∈ chain
    · rw [p.followOnce_seen m _ hc]
      exact hP.absent
    have hbarren : p.Barren P seen m n := by
      rcases hall _ hq with hq | ⟨m', n', hm', he, hb⟩
      · exact absurd hq hc
      · obtain ⟨rfl, rfl⟩ := eq_of_query_eq hd hnames hm hm' he
        exact hb
    have hlead : ∀ l : Lead, l.Asks p.IsModule (p.names n) → l.Quiet P seen → ∀ v,
        v = m.query n :: chain → P ((l.run (p.followOnChain steps)).run v).1 ∧
          ((l.run (p.followOnChain steps)).run v).2 = m.query n :: chain := by
      rintro l hl hquiet v rfl
      refine ⟨?_, lead_forgets steps l _⟩
      cases l with
      | answer a => exact hquiet
      | ask m' n' t =>
        refine hP.through.mpr (ih ?_ hl.1 hquiet)
        intro q hq
        exact (hall q hq).imp_left (List.mem_cons_of_mem _)
    have hentries {s : Scope} (hs : m.scope = some s)
        (h : ∀ l ∈ p.entryLeads m s n, l.Quiet P seen) := fun l hl =>
      hlead l (entryLeads_ask hm hs n n l hl) (h l hl)
    cases hbarren with
    | closed hs h =>
      rw [p.followOnce_opaque m _ hc hs]
      exact h
    | assigned hs ha h =>
      rw [p.followOnce_fresh m _ hc hs]
      simp only [scopeAnswer, ha]
      exact h
    | stopped hs ha h hstop =>
      rw [p.followOnce_fresh m _ hc hs]
      apply scopeAnswer_gives ha hP
      · exact (Lead.runAll_gives hP (hentries hs h) hP.absent rfl).1
      · intro habsent
        exact absurd habsent (Lead.runAll_ne_absent (by simp) hstop)
    | @listed s hs ha h hstars hkind =>
      rw [p.followOnce_fresh m _ hc hs]
      apply scopeAnswer_gives ha hP
      · exact (Lead.runAll_gives hP (hentries hs h) hP.absent rfl).1
      · intro _
        refine ⟨?_, hkind⟩
        have hstars' := fun l hl =>
          hlead l (starLeads_ask (m := m) s (p.name_mem_names n) l hl) (hstars l hl)
        exact Lead.runFirst_gives hP hstars' hP.absent (runAll_forgets steps _ _ _)

/-! ### Absent names -/

/-- What is absent for the lookup that forgets is absent, whatever was seen on the way. -/
theorem absent_of_followOnChain {steps : Nat} {name : String} {seen chain : List Query}
    (hm : p.IsModule m) (hn : n ∈ p.names name) (hsub : chain ⊆ seen)
    (h : ((p.followOnChain steps m n).run chain).1 = .absent) :
    ((p.followExport steps m n).run seen).1 = .absent := by
  induction steps generalizing m n seen chain with
  | zero => rfl
  | succ steps ih =>
    by_cases hq : m.query n ∈ seen
    · rw [p.followExport_seen m hq]
    have hc : m.query n ∉ chain := fun hc => hq (hsub hc)
    rw [followOnChain_run] at h
    cases hs : m.scope with
    | none =>
      rw [p.followOnce_opaque m _ hc hs] at h
      cases h
    | some s =>
      rw [p.followOnce_fresh m _ hc hs] at h
      rw [p.followExport_fresh m hq hs]
      have hlead : ∀ l : Lead, l.Asks p.IsModule (p.names name) →
          ((l.run (p.followOnChain steps)).run (m.query n :: chain)).1 = .absent →
          ∀ v, m.query n :: chain ⊆ v → ((l.run (p.followExport steps)).run v).1 = .absent ∧
            m.query n :: chain ⊆ ((l.run (p.followExport steps)).run v).2 := by
        intro l hl habsent v hv
        cases l with
        | answer a => exact ⟨habsent, hv⟩
        | ask m' n' t =>
          have habsent' := ih hl.1 hl.2 hv (Answer.through_eq_absent.mp habsent)
          refine ⟨Answer.through_eq_absent.mpr habsent', ?_⟩
          intro q hq
          exact (followExport_grows steps hl.1 hl.2 v).suffix.subset (hv hq)
      have hsub' : m.query n :: chain ⊆ m.query n :: seen := List.cons_subset_cons _ hsub
      have hkeep (l : Lead) (v : List Query) (_ : v = m.query n :: chain)
          (ha : ((l.run (p.followOnChain steps)).run v).1 = .absent) :
          ((l.run (p.followOnChain steps)).run v).2 = v ∧
            ((l.run (p.followOnChain steps)).run
              ((l.run (p.followOnChain steps)).run v).2).1 = .absent := by
        rw [lead_forgets]
        exact ⟨rfl, ha⟩
      rcases scopeAnswer_joint joint_absent h rfl with
        ⟨x, _, hx, _⟩ | ⟨hnone, ⟨_, hunknown⟩ | ⟨between, b, hall, hfirst, hb, hkind⟩⟩
      · exact absurd hx (followAssignment_ne_absent s x n)
      · cases hunknown
      · have hstay (l : Lead) (v : List Query) (hv : v = m.query n :: chain) :
            ((l.run (p.followOnChain steps)).run v).2 = m.query n :: chain :=
          (lead_forgets _ l v).trans hv
        obtain ⟨_, hbetween, _, hentries⟩ := Lead.runAll_joint (R := fun u v => v = u)
          (K := fun l v => ((l.run (p.followOnChain steps)).run v).1 = .absent)
          joint_absent (fun _ => rfl) (fun huv hvw => hvw.trans huv)
          (fun huv hl => by rw [huv]; exact hl) (fun l _ => hstay l) (fun l _ => hkeep l) rfl rfl
          hall
        subst hbetween
        obtain ⟨hafter, hstars⟩ := Lead.runFirst_joint (R := fun u v => v = u)
          (K := fun l v => ((l.run (p.followOnChain steps)).run v).1 = .absent)
          joint_absent (fun _ => rfl) (fun huv hvw => hvw.trans huv)
          (fun huv hl => by rw [huv]; exact hl) (fun l _ => hstay l) (fun l _ => hkeep l) rfl hb
          hfirst
        rw [hafter] at hstars
        have hentries' := fun l hl => hlead l (entryLeads_ask hm hs n name l hl) (hentries l hl)
        have hstars' := fun l hl => hlead l (starLeads_ask (m := m) s hn l hl) (hstars l hl)
        obtain ⟨hall', hsub''⟩ := Lead.runAll_gives joint_absent hentries' rfl hsub'
        exact scopeAnswer_gives hnone joint_absent hall' fun _ =>
          ⟨Lead.runFirst_gives joint_absent hstars' rfl hsub'', hkind⟩

section Loaded

variable (hd : DistinctPaths p.files) (hnames : ∀ x ∈ p.namedModules, x.2.name ≠ "")
include hd hnames

theorem absent_iff_onChain (hm : p.IsModule m) (n : String) :
    ((p.exported m n).run []).1 = .absent ↔ ((p.onChain m n).run []).1 = .absent := by
  constructor
  · intro h
    obtain ⟨hq, hall⟩ := exported_settles joint_absent (p.stopsAtUnknown_absent m n) hm h
    exact followOnChain_settled joint_absent hd hnames (fun q hq => Or.inr (hall q hq)) hm hq
  · exact absent_of_followOnChain hm (p.name_mem_names n) (List.Subset.refl _)

end Loaded

/-! ### Names that are found -/

/-- Nowhere on the ways of a lookup has a name two entries that both ask other modules. -/
def SingleAsk (p : Program) (m : ModuleView) (n : String) : Prop :=
  ∀ m' s n', p.Reaches m n m' n' → m'.scope = some s →
    (p.entryLeads m' s n').Pairwise fun l l' => ¬ (l.IsAsk ∧ l'.IsAsk)

/-- Where modules exported as a whole stand behind the entries of a name on the ways of a lookup, no
entry asks for what leads to something unknown. -/
def ClearEntries (p : Program) (m : ModuleView) (n : String) : Prop :=
  ∀ m' s n', p.Reaches m n m' n' → m'.scope = some s → p.starLeads m' s n' ≠ [] →
    ∀ m'' n'' t, .ask m'' n'' t ∈ p.entryLeads m' s n' → ¬ p.Clouded m'' n''

section Ways

variable {m' : ModuleView} {n' : String} {s : Scope} {t : Bool} (hs : m.scope = some s)
  (hl : .ask m' n' t ∈ p.entryLeads m s n ++ p.starLeads m s n)
include hs hl

theorem SingleAsk.ask (h : p.SingleAsk m n) : p.SingleAsk m' n' :=
  fun x s' y hreaches => h x s' y (.ask hs hl hreaches)

theorem ClearEntries.ask (h : p.ClearEntries m n) : p.ClearEntries m' n' :=
  fun x s' y hreaches => h x s' y (.ask hs hl hreaches)

end Ways

theorem ClearEntries.unknown_of_runAll (h : p.ClearEntries m n) {m' : ModuleView} {n' : String}
    {s : Scope} (hreaches : p.Reaches m n m' n') (hs : m'.scope = some s)
    (hg : ∀ m n v, ((g m n).run v).1 = .unknown → p.Clouded m n) {v : List Query}
    (hall : ((Lead.runAll g (p.entryLeads m' s n') .absent).run v).1 = .unknown) :
    .answer .unknown ∈ p.entryLeads m' s n' ∨ p.starLeads m' s n' = [] := by
  obtain ⟨l, hl, w, hw⟩ := Lead.unknown_of_runAll (by simp) hall
  cases l with
  | answer a =>
    obtain rfl : a = .unknown := hw
    exact Or.inl hl
  | ask m'' n'' t =>
    refine Or.inr ?_
    by_contra hstars
    refine h m' s n' hreaches hs hstars m'' n'' t hl (hg m'' n'' w ?_)
    rw [Lead.run_ask] at hw
    revert hw
    cases ((g m'' n'').run w).1 <;> simp [Answer.through]

/-- With other modules behind them, the entries of a name come to absent for one lookup if they do
for another one that finds the same. -/
theorem ClearEntries.absent_of_alike (h : p.ClearEntries m n) {s : Scope} (hs : m.scope = some s)
    (hstars : p.starLeads m s n ≠ []) {g' : ExportLookup}
    (hg' : ∀ m n v, ((g' m n).run v).1 = .unknown → p.Clouded m n) {v w : List Query}
    (halike : Alike ((Lead.runAll g (p.entryLeads m s n) .absent).run v).1
      ((Lead.runAll g' (p.entryLeads m s n) .absent).run w).1)
    (habsent : ((Lead.runAll g (p.entryLeads m s n) .absent).run v).1 = .absent) :
    ((Lead.runAll g' (p.entryLeads m s n) .absent).run w).1 = .absent := by
  cases hanswer : ((Lead.runAll g' (p.entryLeads m s n) .absent).run w).1 with
  | absent => rfl
  | found r =>
    have hfound := (halike r).mpr hanswer
    rw [habsent] at hfound
    cases hfound
  | unknown =>
    rcases h.unknown_of_runAll (.refl m n) hs hg' hanswer with hstop | hnil
    · exact absurd habsent (Lead.runAll_ne_absent (by simp) hstop)
    · exact absurd hnil hstars

theorem ClearEntries.stopsAtUnknown (h : p.ClearEntries m n) : p.StopsAtUnknown NotFound m n := by
  intro _ steps m' s n' v hreaches hs hall
  exact h.unknown_of_runAll hreaches hs (fun m n v => clouded_of_followExport steps) hall

/-- What was seen is on the chain, or was looked up without finding anything. -/
structure Covers (p : Program) (qs : List Query) (steps : Nat) (chain seen : List Query) :
    Prop where
  subset : chain ⊆ seen
  settled : ∀ q ∈ seen, q ∈ chain ∨ p.Settled NotFound seen q
  room : Room qs steps seen

namespace Covers

variable {qs chain seen seen' : List Query} {steps : Nat}

theorem push {q : Query} (h : p.Covers qs (steps + 1) chain seen) (hq : q ∉ seen) (hqs : q ∈ qs) :
    p.Covers qs steps (q :: chain) (q :: seen) where
  subset := List.cons_subset_cons q h.subset
  settled := by
    intro x hx
    rcases List.mem_cons.mp hx with rfl | hx
    · exact Or.inl List.mem_cons_self
    · exact (h.settled x hx).imp (List.mem_cons_of_mem q)
        fun hx => hx.mono (List.subset_cons_self q seen)
  room := h.room.push hq hqs

theorem next (h : p.Covers qs steps chain seen) (hgrows : Grows qs seen seen')
    (hcloses : p.Closes NotFound seen seen') : p.Covers qs steps chain seen' where
  subset := fun _ hq => hcloses.subset (h.subset hq)
  settled := by
    intro q hq
    rcases hcloses.settled q hq with hq | hq
    · exact (h.settled q hq).imp_right fun hq => hq.mono hcloses.subset
    · exact Or.inr hq
  room := h.room.grow hgrows

section Leads

variable {name : String} {s : Scope} (hm : p.IsModule m) (hn : n ∈ p.names name)
  (hs : m.scope = some s) (hclear : p.ClearEntries m n)
  (h : p.Covers (p.queries name) steps chain seen)
include hm hn hs hclear h

/-- A lead that comes to nothing leaves only what is settled behind. -/
theorem lead {l : Lead} (hl : l ∈ p.entryLeads m s n ++ p.starLeads m s n)
    (hnot : NotFound ((l.run (p.followExport steps)).run seen).1) :
    p.Covers (p.queries name) steps chain ((l.run (p.followExport steps)).run seen).2 := by
  cases l with
  | answer a => exact h
  | ask m' n' t =>
    obtain ⟨hm', hn'⟩ := leads_ask hm hs hn _ hl
    have hcloses := followExport_settles joint_notFound (hclear.ask hs hl).stopsAtUnknown hm' hn'
      h.room (joint_notFound.through.mp hnot) rfl
    exact h.next (followExport_grows steps hm' hn' seen) hcloses.1

/-- So do entries that all come to absent. -/
theorem entries
    (habsent : ((Lead.runAll (p.followExport steps) (p.entryLeads m s n) .absent).run seen).1 =
      .absent) :
    p.Covers (p.queries name) steps chain
      ((Lead.runAll (p.followExport steps) (p.entryLeads m s n) .absent).run seen).2 := by
  have hstep : ∀ l ∈ p.entryLeads m s n, ∀ v, True →
      ((l.run (p.followExport steps)).run v).1 = .absent →
      (p.Covers (p.queries name) steps chain v → p.Covers (p.queries name) steps chain
        ((l.run (p.followExport steps)).run v).2) ∧ True := by
    intro l hl v _ hv
    refine ⟨fun hcovers => hcovers.lead hm hn hs hclear (List.mem_append_left _ hl) ?_, trivial⟩
    rw [hv]
    exact joint_notFound.absent
  obtain ⟨_, _, hnext, _⟩ := Lead.runAll_joint
    (R := fun u v => p.Covers (p.queries name) steps chain u →
      p.Covers (p.queries name) steps chain v)
    (K := fun _ _ => True) joint_absent (fun _ h => h) (fun huv hvw h => hvw (huv h))
    (fun _ _ => trivial) (fun _ _ _ => id) hstep trivial habsent rfl
  exact hnext h

end Leads

end Covers

/-- Where both lookups find the same by every lead, they find the same in a module. -/
theorem scopeAnswer_alike_onChain {steps : Nat} {name : String} {chain seen : List Query}
    {s : Scope} (hsingle : p.SingleAsk m n) (hclear : p.ClearEntries m n) (hm : p.IsModule m)
    (hn : n ∈ p.names name) (hs : m.scope = some s) (hnone : s.assignment = none)
    (hcovers : p.Covers (p.queries name) steps chain seen)
    (hlead : ∀ l ∈ p.entryLeads m s n ++ p.starLeads m s n, ∀ v,
      p.Covers (p.queries name) steps chain v →
        Alike ((l.run (p.followExport steps)).run v).1
          ((l.run (p.followOnChain steps)).run chain).1) :
    Alike (p.scopeAnswer m (p.followExport steps) s n seen).1
      (p.scopeAnswer m (p.followOnChain steps) s n chain).1 := by
  have hall := Lead.runAll_alike (fun l _ => lead_forgets (p := p) steps l chain)
    (fun l hl => hlead l (List.mem_append_left _ hl)) (hsingle m s n (.refl m n) hs)
    (Alike.refl .absent) hcovers
  apply scopeAnswer_alike hnone hall
  · -- The entries come to absent on both sides or on none, unless nothing stands behind them.
    by_cases hstars : p.starLeads m s n = []
    · exact Or.inl hstars
    · exact Or.inr ⟨
        hclear.absent_of_alike hs hstars (fun m n v => clouded_of_followOnChain _) hall,
        hclear.absent_of_alike hs hstars (fun m n v => clouded_of_followExport _) hall.symm⟩
  · intro habsent
    rw [runAll_forgets]
    exact Lead.runFirst_alike (fun l _ => lead_forgets (p := p) steps l chain)
      (fun l hl => hlead l (List.mem_append_right _ hl))
      (fun l hl v hv => hv.lead hm hn hs hclear (List.mem_append_right _ hl))
      joint_notFound.absent joint_notFound.absent (hcovers.entries hm hn hs hclear habsent)

section Found

variable (hd : DistinctPaths p.files) (hnames : ∀ x ∈ p.namedModules, x.2.name ≠ "")
include hd hnames

/-- Both lookups find the same, as long as nothing was found in what only one of them has seen. -/
theorem followExport_alike {steps : Nat} {name : String} {chain seen : List Query}
    (hsingle : p.SingleAsk m n) (hclear : p.ClearEntries m n) (hm : p.IsModule m)
    (hn : n ∈ p.names name) (hcovers : p.Covers (p.queries name) steps chain seen) :
    Alike ((p.followExport steps m n).run seen).1
      ((p.followOnChain steps m n).run chain).1 := by
  induction steps generalizing m n chain seen with
  | zero => exact False.elim (hcovers.room.steps_ne_zero rfl)
  | succ steps ih =>
    by_cases hq : m.query n ∈ seen
    · rw [p.followExport_seen m hq]
      exact Answer.alike_of_notFound joint_notFound.absent
        (followOnChain_settled joint_notFound hd hnames hcovers.settled hm hq)
    have hc : m.query n ∉ chain := fun hc => hq (hcovers.subset hc)
    rw [followOnChain_run]
    cases hs : m.scope with
    | none =>
      rw [p.followExport_opaque m hq hs, p.followOnce_opaque m _ hc hs]
      exact Alike.refl _
    | some s =>
      rw [p.followExport_fresh m hq hs, p.followOnce_fresh m _ hc hs]
      cases hnone : s.assignment with
      | some a =>
        simp only [scopeAnswer, hnone]
        exact Alike.refl _
      | none =>
        apply scopeAnswer_alike_onChain hsingle hclear hm hn hs hnone
          (hcovers.push hq (query_mem_queries hm hn))
        intro l hl v hv
        cases l with
        | answer a => exact Alike.refl a
        | ask m' n' t =>
          obtain ⟨hm', hn'⟩ := leads_ask hm hs hn _ hl
          exact (ih (hsingle.ask hs hl) (hclear.ask hs hl) hm' hn' hv).through t

end Found

/-! ### The two lookups -/

/-- Asking for nothing twice takes away circles only, as far as absent names go. Found and unknown
names can change with it, but only where a name on the way has two ways on. -/
theorem lookup_ends_circles {disk : Disk} {roots : List Path} {options : Options}
    (hload : load disk roots options = .ok p) (hnames : ∀ x ∈ p.namedModules, x.2.name ≠ "")
    (hm : p.IsModule m) (n : String) :
    (∀ steps, p.lookupBound ≤ steps →
      (p.followOnChain steps m n).run [] = (p.onChain m n).run []) ∧
    (((p.exported m n).run []).1 = .absent ↔ ((p.onChain m n).run []).1 = .absent) ∧
    (p.SingleAsk m n → p.ClearEntries m n →
      ((p.exported m n).run []).1 = ((p.onChain m n).run []).1) := by
  have hd := load_distinct hload
  have habsent := absent_iff_onChain hd hnames hm n
  refine ⟨?_, habsent, ?_⟩
  · intro steps hsteps
    obtain ⟨more, rfl⟩ := Nat.exists_eq_add_of_le hsteps
    exact followOnChain_eq_of_room hm (p.name_mem_names n) (p.room_lookupBound n) more
  · intro hsingle hclear
    have hcovers : p.Covers (p.queries n) p.lookupBound [] [] :=
      ⟨List.Subset.refl _, by simp, p.room_lookupBound n⟩
    exact (followExport_alike hd hnames hsingle hclear hm (p.name_mem_names n)
      hcovers).eq habsent

section Scopes

variable (hm : p.IsModule m) (n : String)
include hm

theorem singleAsk_of_nodup (h : ∀ m ∈ p.modules, ∀ s, m.scope = some s →
    (s.exports.map (·.name)).Nodup) : p.SingleAsk m n := by
  intro m' s n' hreaches hs
  have hnodup := List.pairwise_map.mp (h m' (hreaches.isModule hm).mem_modules s hs)
  refine List.pairwise_map.mpr (List.Pairwise.imp_of_mem ?_ (hnodup.filter _))
  intro e e' he he' hne
  simp only [List.mem_filter, decide_eq_true_eq] at he he'
  exact absurd (he.2.trans he'.2.symm) hne

theorem clearEntries_of_apart (h : ∀ m ∈ p.modules, ∀ s, m.scope = some s →
    s.exports = [] ∨ s.forwards = []) : p.ClearEntries m n := by
  intro m' s n' hreaches hs hstars m'' n'' t hl
  rcases h m' (hreaches.isModule hm).mem_modules s hs with hexports | hforwards
  · simp [entryLeads, hexports] at hl
  · exact absurd (by simp [starLeads, hforwards]) hstars

end Scopes

/-- A file that comes to another one in two ways. -/
def diamondDisk : Disk :=
  .ofTexts [("a.ts", "export * from './b'; export * from './c'"),
    ("b.ts", "export { x } from './d'"), ("c.ts", "export { x } from './d'"),
    ("d.ts", "export type x = 1")]

set_option maxRecDepth 4096 in
theorem lookup_ends_circles_diamond : ∃ p m, load diamondDisk [⟨"/a.ts"⟩] ∅ = .ok p ∧
    p.IsModule m ∧ ((p.exported m "x").run []).1 = .found (.of .asType) ∧
    ((p.exported m "x").run []).1 = ((p.onChain m "x").run []).1 := by
  have hfacts : (load diamondDisk [⟨"/a.ts"⟩] ∅).toOption.map (fun p =>
      (p.namedModules.length, p.modules.all (fun m => m.scope.all fun s =>
          decide (s.exports.map (·.name)).Nodup && (s.exports.isEmpty || s.forwards.isEmpty)),
        p.files.head?.map fun f => ((p.exported (.ofFile f) "x").run []).1)) =
      some (0, true, some (.found (.of .asType))) := by decide +kernel
  obtain ⟨p, hload, hfacts⟩ := exists_of_toOption_map hfacts
  simp only [Prod.mk.injEq, List.all_eq_true, Option.all_eq_true, Bool.and_eq_true,
    decide_eq_true_eq, Bool.or_eq_true, List.isEmpty_iff, Option.map_eq_some_iff] at hfacts
  obtain ⟨hlength, hscopes, f, hf, hx⟩ := hfacts
  have hnone : ∀ x ∈ p.namedModules, x.2.name ≠ "" := by
    rw [List.length_eq_zero_iff.mp hlength]
    intro x hx
    cases hx
  have hm : p.IsModule (.ofFile f) := Or.inl ⟨f, List.mem_of_head? hf, rfl⟩
  have hsingle := singleAsk_of_nodup hm "x" fun m hm s hs => (hscopes m hm s hs).1
  have hclear := clearEntries_of_apart hm "x" fun m hm s hs => (hscopes m hm s hs).2
  exact ⟨p, .ofFile f, hload, hm, hx,
    (lookup_ends_circles hload hnone hm "x").2.2 hsingle hclear⟩

/-- A diamond around a file that exports an expression, with other exports behind its second way. -/
def cloudedDisk : Disk :=
  .ofTexts [("a.ts", "export * from './b'; export * from './c'"),
    ("b.ts", "export { x } from './d'"), ("c.ts", "export { x } from './d'; export * from './e'"),
    ("d.ts", "export = 1"), ("e.ts", "export type x = 1")]

/-- A name exported twice from one file, first as a type. -/
def doubledDisk : Disk :=
  .ofTexts [("a.ts", "export type { x } from './b'; export { x } from './b'"),
    ("b.ts", "export class x {}")]

set_option maxRecDepth 4096 in
/-- On the second way to a file it says that there is no such name. -/
theorem second_way_passed_over :
    (∃ p m, load cloudedDisk [⟨"/a.ts"⟩] ∅ = .ok p ∧ p.IsModule m ∧
      ((p.exported m "x").run []).1 = .found (.of .asType) ∧
      ((p.onChain m "x").run []).1 = .unknown) ∧
    ∃ p m, load doubledDisk [⟨"/a.ts"⟩] ∅ = .ok p ∧ p.IsModule m ∧
      ((p.exported m "x").run []).1 = .found ⟨.both, true⟩ ∧
      ((p.onChain m "x").run []).1 = .found ⟨.both, false⟩ := by
  have hclouded : (load cloudedDisk [⟨"/a.ts"⟩] ∅).toOption.map (fun p =>
      p.files.head?.map fun f =>
        (((p.exported (.ofFile f) "x").run []).1, ((p.onChain (.ofFile f) "x").run []).1)) =
      some (some (.found (.of .asType), .unknown)) := by decide +kernel
  have hdoubled : (load doubledDisk [⟨"/a.ts"⟩] ∅).toOption.map (fun p =>
      p.files.head?.map fun f =>
        (((p.exported (.ofFile f) "x").run []).1, ((p.onChain (.ofFile f) "x").run []).1)) =
      some (some (.found ⟨.both, true⟩, .found ⟨.both, false⟩)) := by decide +kernel
  obtain ⟨p, hload, hfile⟩ := exists_of_toOption_map hclouded
  obtain ⟨f, hf, hx⟩ := Option.map_eq_some_iff.mp hfile
  obtain ⟨q, hload', hfile'⟩ := exists_of_toOption_map hdoubled
  obtain ⟨f', hf', hx'⟩ := Option.map_eq_some_iff.mp hfile'
  exact ⟨⟨p, .ofFile f, hload, Or.inl ⟨f, List.mem_of_head? hf, rfl⟩, Prod.mk.inj hx⟩,
    q, .ofFile f', hload', Or.inl ⟨f', List.mem_of_head? hf', rfl⟩, Prod.mk.inj hx'⟩

end Program

end TypeOnly
