import TypeOnly.Proofs.LookupBounds

/-!
Answers that a lookup gives only if all its leads give one of them, such as that there is no such
name. When a lookup ends with such an answer, all that it has seen is closed under every way on.
-/

namespace TypeOnly

set_option autoImplicit false

open Source (Scope ExportAssignment)

namespace Answer

/-- A kind of answer that finds nothing, and that exports give together only if each of them
does. -/
structure Joint (P : Answer → Prop) : Prop where
  found : ∀ r, ¬ P (.found r)
  absent : P .absent
  through : ∀ {t a}, P (a.through t) ↔ P a
  merge : ∀ {a b}, P (a.merge b) ↔ P a ∧ P b

def NotFound (a : Answer) : Prop := ∀ r, a ≠ .found r

theorem joint_absent : Joint (· = .absent) where
  found := by simp
  absent := rfl
  through := through_eq_absent
  merge := merge_eq_absent

theorem joint_notFound : Joint NotFound where
  found := fun r h => h r rfl
  absent := by simp [NotFound]
  through := by
    intro t a
    cases a <;> simp [NotFound, Answer.through]
  merge := by
    intro a b
    cases a <;> cases b <;> simp [NotFound, Answer.merge]

end Answer

namespace Lead

variable {P : Answer → Prop}

/-- The leads that come to nothing new. -/
def Quiet (P : Answer → Prop) (seen : List Query) : Lead → Prop
  | answer a => P a
  | ask m name _ => m.query name ∈ seen

theorem Quiet.mono {seen seen' : List Query} {l : Lead} (h : l.Quiet P seen)
    (hsub : seen ⊆ seen') : l.Quiet P seen' := by
  cases l with
  | answer a => exact h
  | ask m name t => exact hsub h

theorem quiet_of_through (hP : Answer.Joint P) {seen : List Query} {t : Bool} {l : Lead}
    (h : (l.through t).Quiet P seen) : l.Quiet P seen := by
  cases l with
  | answer a => exact hP.through.mp h
  | ask m name t => exact h

theorem runFirst_unknown_ne_absent {g : Program.ExportLookup} (leads : List Lead)
    (v : List Query) : ((runFirst g leads .unknown).run v).1 ≠ .absent := by
  induction leads generalizing v with
  | nil => simp
  | cons l rest ih =>
    rw [runFirst_cons]
    split
    · simp
    · exact ih _
    · exact ih _

section Joint

variable {g : Program.ExportLookup} {Pre : List Query → Prop} {R : List Query → List Query → Prop}
variable {K : Lead → List Query → Prop} {leads : List Lead} {a b : Answer} {v v' : List Query}
variable (hP : Answer.Joint P) (refl : ∀ v, R v v) (trans : ∀ {u v w}, R u v → R v w → R u w)
variable (mono : ∀ {l u v}, R u v → K l u → K l v)
variable (hpre : ∀ l ∈ leads, ∀ v, Pre v → Pre ((l.run g).run v).2)
variable (h : ∀ l ∈ leads, ∀ v, Pre v → P ((l.run g).run v).1 →
  R v ((l.run g).run v).2 ∧ K l ((l.run g).run v).2)
include hP refl trans mono hpre h

/-- What holds of each lead once it has given such an answer holds of all leads in the end, if they
give it together. -/
theorem runAll_joint (hv : Pre v) (hb : P b) (hr : (runAll g leads a).run v = (b, v')) :
    P a ∧ Pre v' ∧ R v v' ∧ ∀ l ∈ leads, K l v' := by
  induction leads generalizing a v with
  | nil =>
    obtain ⟨rfl, rfl⟩ := Prod.mk.inj hr
    exact ⟨hb, hv, refl v, by simp⟩
  | cons l rest ih =>
    rw [runAll_cons] at hr
    obtain ⟨hmerge, hpre', hrest, hkept⟩ := ih
      (fun l hl => hpre l (List.mem_cons_of_mem _ hl))
      (fun l hl => h l (List.mem_cons_of_mem _ hl)) (hpre l List.mem_cons_self v hv) hr
    obtain ⟨ha, hl⟩ := hP.merge.mp hmerge
    obtain ⟨hfirst, hk⟩ := h l List.mem_cons_self v hv hl
    refine ⟨ha, hpre', trans hfirst hrest, ?_⟩
    intro x hx
    rcases List.mem_cons.mp hx with rfl | hx
    · exact mono hrest hk
    · exact hkept x hx

theorem runFirst_joint (hv : Pre v) (hb : P b) (hr : (runFirst g leads a).run v = (b, v')) :
    R v v' ∧ ∀ l ∈ leads, K l v' := by
  induction leads generalizing a v with
  | nil =>
    obtain ⟨rfl, rfl⟩ := Prod.mk.inj hr
    exact ⟨refl v, by simp⟩
  | cons l rest ih =>
    -- The answer of the first lead is one of those in question, and the others go on from it.
    obtain ⟨hl, a', hr'⟩ : P ((l.run g).run v).1 ∧ ∃ a',
        (runFirst g rest a').run ((l.run g).run v).2 = (b, v') := by
      rw [runFirst_cons] at hr
      split at hr
      · obtain ⟨rfl, _⟩ := Prod.mk.inj hr
        exact absurd hb (hP.found _)
      · rename_i hunknown
        refine ⟨?_, _, hr⟩
        have hne := runFirst_unknown_ne_absent (g := g) rest ((l.run g).run v).2
        rw [hr] at hne
        rw [hunknown]
        cases b with
        | found r => exact absurd hb (hP.found r)
        | absent => exact absurd rfl hne
        | unknown => exact hb
      · rename_i habsent
        exact ⟨habsent ▸ hP.absent, _, hr⟩
    obtain ⟨hfirst, hk⟩ := h l List.mem_cons_self v hv hl
    obtain ⟨hrest, hkept⟩ := ih (fun l hl => hpre l (List.mem_cons_of_mem _ hl))
      (fun l hl => h l (List.mem_cons_of_mem _ hl)) (hpre l List.mem_cons_self v hv) hr'
    refine ⟨trans hfirst hrest, ?_⟩
    intro x hx
    rcases List.mem_cons.mp hx with rfl | hx
    · exact mono hrest hk
    · exact hkept x hx

end Joint

end Lead

namespace Program

variable {p : Program} {m : ModuleView} {P : Answer → Prop}

/-- No lead of a name in a module comes to anything new. -/
inductive Barren (p : Program) (P : Answer → Prop) (seen : List Query) (m : ModuleView)
    (n : String) : Prop where
  | closed (hs : m.scope = none) (h : P .unknown)
  | assigned {s : Scope} {a : ExportAssignment} (hs : m.scope = some s)
      (ha : s.assignment = some a) (h : P (followAssignment s a n))
  /-- The modules exported as a whole are not asked, as an entry leads nowhere. -/
  | stopped {s : Scope} (hs : m.scope = some s) (ha : s.assignment = none)
      (hentries : ∀ l ∈ p.entryLeads m s n, l.Quiet P seen)
      (hstop : .answer .unknown ∈ p.entryLeads m s n)
  | listed {s : Scope} (hs : m.scope = some s) (ha : s.assignment = none)
      (hentries : ∀ l ∈ p.entryLeads m s n, l.Quiet P seen)
      (hstars : ∀ l ∈ p.starLeads m s n, l.Quiet P seen)
      (hkind : m.file.kind.isJavaScript = true → P .unknown)

theorem Barren.mono {seen seen' : List Query} {n : String} (h : p.Barren P seen m n)
    (hsub : seen ⊆ seen') : p.Barren P seen' m n := by
  cases h with
  | closed hs h => exact .closed hs h
  | assigned hs ha h => exact .assigned hs ha h
  | stopped hs ha hentries hstop =>
    exact .stopped hs ha (fun l hl => (hentries l hl).mono hsub) hstop
  | listed hs ha hentries hstars hkind =>
    exact .listed hs ha (fun l hl => (hentries l hl).mono hsub)
      (fun l hl => (hstars l hl).mono hsub) hkind

def Settled (p : Program) (P : Answer → Prop) (seen : List Query) (q : Query) : Prop :=
  ∃ m n, p.IsModule m ∧ q = m.query n ∧ p.Barren P seen m n

theorem Settled.mono {seen seen' : List Query} {q : Query} (h : p.Settled P seen q)
    (hsub : seen ⊆ seen') : p.Settled P seen' q := by
  obtain ⟨m, n, hm, hq, hb⟩ := h
  exact ⟨m, n, hm, hq, hb.mono hsub⟩

/-- All that was added to what had been seen is settled. -/
structure Closes (p : Program) (P : Answer → Prop) (seen seen' : List Query) : Prop where
  subset : seen ⊆ seen'
  settled : ∀ q ∈ seen', q ∈ seen ∨ p.Settled P seen' q

namespace Closes

variable {u v w : List Query}

theorem refl (p : Program) (P : Answer → Prop) (v : List Query) : p.Closes P v v :=
  ⟨fun _ h => h, fun _ h => Or.inl h⟩

theorem trans (huv : p.Closes P u v) (hvw : p.Closes P v w) : p.Closes P u w := by
  refine ⟨fun _ h => hvw.subset (huv.subset h), ?_⟩
  intro q hq
  rcases hvw.settled q hq with hq | hq
  · rcases huv.settled q hq with hq | hq
    · exact Or.inl hq
    · exact Or.inr (hq.mono hvw.subset)
  · exact Or.inr hq

/-- What a module was asked for is settled once its leads are. -/
theorem of_barren {n : String} (hm : p.IsModule m) (h : p.Closes P (m.query n :: u) v)
    (hb : p.Barren P v m n) : p.Closes P u v ∧ m.query n ∈ v := by
  refine ⟨⟨fun q hq => h.subset (List.mem_cons_of_mem _ hq), ?_⟩, h.subset List.mem_cons_self⟩
  intro q hq
  rcases h.settled q hq with hq | hq
  · rcases List.mem_cons.mp hq with rfl | hq
    · exact Or.inr ⟨m, n, hm, rfl, hb⟩
    · exact Or.inl hq
  · exact Or.inr hq

end Closes

/-- How a module comes to give such an answer. -/
theorem scopeAnswer_joint (hP : Answer.Joint P) {g : ExportLookup} {s : Scope} {n : String}
    {a : Answer} {seen seen' : List Query} (ha : P a)
    (h : p.scopeAnswer m g s n seen = (a, seen')) :
    (∃ x, s.assignment = some x ∧ P (followAssignment s x n) ∧ seen' = seen) ∨
      (s.assignment = none ∧
        (((Lead.runAll g (p.entryLeads m s n) .absent).run seen = (.unknown, seen') ∧ P .unknown) ∨
          ∃ between b,
            (Lead.runAll g (p.entryLeads m s n) .absent).run seen = (.absent, between) ∧
            (Lead.runFirst g (p.starLeads m s n) .absent).run between = (b, seen') ∧ P b ∧
            (m.file.kind.isJavaScript = true → P .unknown))) := by
  unfold scopeAnswer at h
  split at h
  · rename_i x hx
    obtain ⟨rfl, rfl⟩ := Prod.mk.inj h
    exact Or.inl ⟨x, hx, ha, rfl⟩
  · rename_i hnone
    refine Or.inr ⟨hnone, ?_⟩
    split at h
    · rename_i between hall
      refine Or.inr ⟨between, ?_⟩
      split at h
      · rename_i hfirst
        obtain ⟨rfl, rfl⟩ := Prod.mk.inj h
        refine ⟨.absent, hall, hfirst, hP.absent, ?_⟩
        intro hkind
        rwa [if_pos hkind] at ha
      · rename_i b _ hne hfirst
        obtain ⟨rfl, rfl⟩ := Prod.mk.inj h
        refine ⟨_, hall, hfirst, ha, fun _ => ?_⟩
        cases b with
        | found r => exact absurd ha (hP.found r)
        | absent => exact absurd rfl hne
        | unknown => exact ha
    · rename_i b _ hne hall
      obtain ⟨rfl, rfl⟩ := Prod.mk.inj h
      cases b with
      | found r => exact absurd ha (hP.found r)
      | absent => exact absurd rfl hne
      | unknown => exact Or.inl ⟨hall, ha⟩

/-- Entries that come to something unknown leave no modules exported as a whole unasked that could
matter. -/
def StopsAtUnknown (p : Program) (P : Answer → Prop) (m : ModuleView) (n : String) : Prop :=
  P .unknown → ∀ steps m' s n' v, p.Reaches m n m' n' → m'.scope = some s →
    ((Lead.runAll (p.followExport steps) (p.entryLeads m' s n') .absent).run v).1 = .unknown →
    .answer .unknown ∈ p.entryLeads m' s n' ∨ p.starLeads m' s n' = []

theorem stopsAtUnknown_absent (p : Program) (m : ModuleView) (n : String) :
    p.StopsAtUnknown (· = .absent) m n := by
  intro h
  cases h

theorem StopsAtUnknown.ask {m' : ModuleView} {n n' : String} {s : Scope} {t : Bool}
    (h : p.StopsAtUnknown P m n) (hs : m.scope = some s)
    (hl : .ask m' n' t ∈ p.entryLeads m s n ++ p.starLeads m s n) : p.StopsAtUnknown P m' n' := by
  intro hP steps x s' y v hreaches
  exact h hP steps x s' y v (.ask hs hl hreaches)

/-- A lookup with such an answer settles all that it has seen. -/
theorem followExport_settles (hP : Answer.Joint P) {steps : Nat} {n name : String} {a : Answer}
    {seen seen' : List Query} (hstops : p.StopsAtUnknown P m n) (hm : p.IsModule m)
    (hn : n ∈ p.names name) (hroom : Room (p.queries name) steps seen) (ha : P a)
    (h : (p.followExport steps m n).run seen = (a, seen')) :
    p.Closes P seen seen' ∧ m.query n ∈ seen' := by
  induction steps generalizing m n a seen seen' with
  | zero => exact False.elim (hroom.steps_ne_zero rfl)
  | succ steps ih =>
    by_cases hq : m.query n ∈ seen
    · rw [p.followExport_seen m hq] at h
      obtain ⟨_, rfl⟩ := Prod.mk.inj h
      exact ⟨Closes.refl p P seen, hq⟩
    cases hs : m.scope with
    | none =>
      rw [p.followExport_opaque m hq hs] at h
      obtain ⟨rfl, rfl⟩ := Prod.mk.inj h
      exact Closes.of_barren hm (Closes.refl p P _) (.closed hs ha)
    | some s =>
      have hroom' := hroom.push hq (query_mem_queries hm hn)
      have hlead : ∀ l ∈ p.entryLeads m s n ++ p.starLeads m s n, ∀ v,
          Room (p.queries name) steps v → Room (p.queries name) steps
            ((l.run (p.followExport steps)).run v).2 := by
        intro l hl v hv
        have hasks := leads_ask hm hs hn l hl
        cases l with
        | answer a => exact hv
        | ask m' n' t => exact hv.grow (followExport_grows steps hasks.1 hasks.2 v)
      have hquiet : ∀ l ∈ p.entryLeads m s n ++ p.starLeads m s n, ∀ v,
          Room (p.queries name) steps v → P ((l.run (p.followExport steps)).run v).1 →
          p.Closes P v ((l.run (p.followExport steps)).run v).2 ∧
            l.Quiet P ((l.run (p.followExport steps)).run v).2 := by
        intro l hl v hv hanswer
        have hasks := leads_ask hm hs hn l hl
        cases l with
        | answer a => exact ⟨Closes.refl p P v, hanswer⟩
        | ask m' n' t =>
          exact ih (hstops.ask hs hl) hasks.1 hasks.2 hv (hP.through.mp hanswer) rfl
      have hmono : ∀ {l : Lead} {u v}, p.Closes P u v → l.Quiet P u → l.Quiet P v :=
        fun hcloses hl => hl.mono hcloses.subset
      have hentries := fun l hl => hlead l (List.mem_append_left _ hl)
      have hentries' := fun l hl => hquiet l (List.mem_append_left _ hl)
      have hstars := fun l hl => hlead l (List.mem_append_right _ hl)
      have hstars' := fun l hl => hquiet l (List.mem_append_right _ hl)
      rw [p.followExport_fresh m hq hs] at h
      rcases scopeAnswer_joint hP ha h with
        ⟨x, hx, hPx, rfl⟩ | ⟨hnone, ⟨hall, hunknown⟩ | ⟨between, b, hall, hfirst, hb, hkind⟩⟩
      · exact Closes.of_barren hm (Closes.refl p P _) (.assigned hs hx hPx)
      · obtain ⟨_, _, hcloses, hqe⟩ := Lead.runAll_joint (K := fun l v => l.Quiet P v) hP
          (Closes.refl p P) Closes.trans hmono hentries hentries' hroom' hunknown hall
        apply Closes.of_barren hm hcloses
        rcases hstops hunknown steps m s n _ (.refl m n) hs (congrArg Prod.fst hall)
          with hstop | hnil
        · exact .stopped hs hnone hqe hstop
        · exact .listed hs hnone hqe (by simp [hnil]) fun _ => hunknown
      · obtain ⟨_, hbetween, hcloses, hqe⟩ := Lead.runAll_joint (K := fun l v => l.Quiet P v) hP
          (Closes.refl p P) Closes.trans hmono hentries hentries' hroom' hP.absent hall
        obtain ⟨hcloses', hqs⟩ := Lead.runFirst_joint (K := fun l v => l.Quiet P v) hP
          (Closes.refl p P) Closes.trans hmono hstars hstars' hbetween hb hfirst
        apply Closes.of_barren hm (hcloses.trans hcloses')
        exact .listed hs hnone (fun l hl => (hqe l hl).mono hcloses'.subset) hqs hkind

/-- A lookup that has seen nothing yet has room for all its queries. -/
theorem room_lookupBound (p : Program) (name : String) :
    Room (p.queries name) p.lookupBound [] := by
  refine ⟨List.nodup_nil, by simp, ?_⟩
  have hlength := p.length_queries name
  rw [List.length_nil]
  omega

/-- All that a whole lookup has seen is settled by such an answer. -/
theorem exported_settles (hP : Answer.Joint P) {n : String} (hstops : p.StopsAtUnknown P m n)
    (hm : p.IsModule m) (h : P ((p.exported m n).run []).1) :
    m.query n ∈ ((p.exported m n).run []).2 ∧
      ∀ q ∈ ((p.exported m n).run []).2, p.Settled P ((p.exported m n).run []).2 q := by
  obtain ⟨hcloses, hmem⟩ :=
    followExport_settles hP hstops hm (p.name_mem_names n) (p.room_lookupBound n) h rfl
  refine ⟨hmem, ?_⟩
  intro q hq
  rcases hcloses.settled q hq with hq | hq
  · simp at hq
  · exact hq

end Program

end TypeOnly
