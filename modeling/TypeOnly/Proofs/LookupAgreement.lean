import TypeOnly.Proofs.NegativeAnswers

/-!
Two lookups that find the same. What they may differ in is whether they know that there is nothing
to find. Leads carry this over from the modules that are asked to the module that asks.
-/

namespace TypeOnly

set_option autoImplicit false

open Source (Scope)

/-! ### Answers that find the same -/

namespace Answer

/-- Two answers that find the same, or both nothing. -/
def Alike (a b : Answer) : Prop := ∀ r, a = .found r ↔ b = .found r

variable {a b c d : Answer}

theorem Alike.refl (a : Answer) : Alike a a := fun _ => Iff.rfl

theorem Alike.symm (h : Alike a b) : Alike b a := fun r => (h r).symm

theorem alike_of_notFound (ha : NotFound a) (hb : NotFound b) : Alike a b :=
  fun r => ⟨fun h => False.elim (ha r h), fun h => False.elim (hb r h)⟩

theorem Alike.found_or (h : Alike a b) :
    (∃ r, a = .found r ∧ b = .found r) ∨ (NotFound a ∧ NotFound b) := by
  cases a with
  | found r => exact Or.inl ⟨r, rfl, (h r).mp rfl⟩
  | absent => exact Or.inr ⟨by simp [NotFound], fun r hr => by simpa using (h r).mpr hr⟩
  | unknown => exact Or.inr ⟨by simp [NotFound], fun r hr => by simpa using (h r).mpr hr⟩

theorem Alike.through (h : Alike a b) (t : Bool) : Alike (a.through t) (b.through t) := by
  rcases h.found_or with ⟨r, rfl, rfl⟩ | ⟨ha, hb⟩
  · exact Alike.refl _
  · exact alike_of_notFound (joint_notFound.through.mpr ha) (joint_notFound.through.mpr hb)

theorem merge_found_of_notFound {r : Referent} (ha : NotFound a) :
    (found r).merge a = found r ∧ a.merge (found r) = found r := by
  cases a with
  | found x => exact False.elim (ha x rfl)
  | absent => exact ⟨rfl, rfl⟩
  | unknown => exact ⟨rfl, rfl⟩

theorem Alike.merge (h : Alike a b) (h' : Alike c d) : Alike (a.merge c) (b.merge d) := by
  rcases h.found_or with ⟨r, rfl, rfl⟩ | ⟨ha, hb⟩
  · rcases h'.found_or with ⟨x, rfl, rfl⟩ | ⟨hc, hd⟩
    · exact Alike.refl _
    · rw [(merge_found_of_notFound hc).1, (merge_found_of_notFound hd).1]
      exact Alike.refl _
  · rcases h'.found_or with ⟨x, rfl, rfl⟩ | ⟨hc, hd⟩
    · rw [(merge_found_of_notFound ha).2, (merge_found_of_notFound hb).2]
      exact Alike.refl _
    · exact alike_of_notFound (joint_notFound.merge.mpr ⟨ha, hc⟩)
        (joint_notFound.merge.mpr ⟨hb, hd⟩)

theorem Alike.eq (h : Alike a b) (habsent : a = .absent ↔ b = .absent) : a = b := by
  rcases h.found_or with ⟨r, rfl, rfl⟩ | ⟨ha, hb⟩
  · rfl
  · cases a with
    | found r => exact False.elim (ha r rfl)
    | absent => exact (habsent.mp rfl).symm
    | unknown =>
      cases b with
      | found r => exact False.elim (hb r rfl)
      | absent => exact habsent.mpr rfl
      | unknown => rfl

end Answer

open Answer (NotFound Alike joint_notFound joint_absent)

/-! ### Leads on two lookups -/

namespace Lead

variable {P : Answer → Prop} {Q : List Query → Prop} {g g' : Program.ExportLookup}
variable {leads : List Lead} {a b : Answer} {v chain : List Query}

theorem runAll_gives (hP : Answer.Joint P)
    (h : ∀ l ∈ leads, ∀ v, Q v → P ((l.run g).run v).1 ∧ Q ((l.run g).run v).2) (ha : P a)
    (hv : Q v) : P ((runAll g leads a).run v).1 ∧ Q ((runAll g leads a).run v).2 := by
  induction leads generalizing a v with
  | nil => exact ⟨ha, hv⟩
  | cons l rest ih =>
    obtain ⟨hl, hv'⟩ := h l List.mem_cons_self v hv
    rw [runAll_cons]
    exact ih (fun l hl => h l (List.mem_cons_of_mem _ hl)) (hP.merge.mpr ⟨ha, hl⟩) hv'

theorem runFirst_gives (hP : Answer.Joint P)
    (h : ∀ l ∈ leads, ∀ v, Q v → P ((l.run g).run v).1 ∧ Q ((l.run g).run v).2) (ha : P a)
    (hv : Q v) : P ((runFirst g leads a).run v).1 := by
  induction leads generalizing a v with
  | nil => exact ha
  | cons l rest ih =>
    obtain ⟨hl, hv'⟩ := h l List.mem_cons_self v hv
    have hrest := fun l hl => h l (List.mem_cons_of_mem _ hl)
    rw [runFirst_cons]
    split
    · rename_i r hr
      rw [hr] at hl
      exact False.elim (hP.found r hl)
    · rename_i hunknown
      rw [hunknown] at hl
      exact ih hrest hl hv'
    · exact ih hrest ha hv'

theorem absent_of_runAll (h : ((runAll g leads a).run v).1 = .absent) : a = .absent := by
  induction leads generalizing a v with
  | nil => exact h
  | cons l rest ih =>
    rw [runAll_cons] at h
    exact (Answer.merge_eq_absent.mp (ih h)).1

theorem runAll_ne_absent (hb : b ≠ .absent) (hl : answer b ∈ leads) :
    ((runAll g leads a).run v).1 ≠ .absent := by
  induction leads generalizing a v with
  | nil => simp at hl
  | cons l rest ih =>
    rw [runAll_cons]
    rcases List.mem_cons.mp hl with rfl | hl
    · intro h
      exact hb (Answer.merge_eq_absent.mp (absent_of_runAll h)).2
    · exact ih hl

theorem unknown_of_runAll (ha : a ≠ .unknown) (h : ((runAll g leads a).run v).1 = .unknown) :
    ∃ l ∈ leads, ∃ w, ((l.run g).run w).1 = .unknown := by
  induction leads generalizing a v with
  | nil => exact absurd h ha
  | cons l rest ih =>
    by_cases hl : ((l.run g).run v).1 = .unknown
    · exact ⟨l, List.mem_cons_self, v, hl⟩
    · have hmerge : a.merge ((l.run g).run v).1 ≠ .unknown := by
        revert ha hl
        cases a <;> cases ((l.run g).run v).1 <;> simp [Answer.merge]
      rw [runAll_cons] at h
      obtain ⟨x, hx, hw⟩ := ih hmerge h
      exact ⟨x, List.mem_cons_of_mem _ hx, hw⟩

theorem unknown_of_runFirst (ha : a ≠ .unknown) (h : ((runFirst g leads a).run v).1 = .unknown) :
    ∃ l ∈ leads, ∃ w, ((l.run g).run w).1 = .unknown := by
  induction leads generalizing a v with
  | nil => exact absurd h ha
  | cons l rest ih =>
    rw [runFirst_cons] at h
    split at h
    · simp at h
    · rename_i hl
      exact ⟨l, List.mem_cons_self, v, hl⟩
    · obtain ⟨x, hx, hw⟩ := ih ha h
      exact ⟨x, List.mem_cons_of_mem _ hx, hw⟩

/-- The leads that ask another module. -/
def IsAsk : Lead → Prop
  | answer _ => False
  | ask _ _ _ => True

theorem runAll_answers_alike (hleads : ∀ l ∈ leads, ¬ l.IsAsk) (h : Alike a b)
    (v w : List Query) : Alike ((runAll g leads a).run v).1 ((runAll g' leads b).run w).1 := by
  induction leads generalizing a b v w with
  | nil => exact h
  | cons l rest ih =>
    cases l with
    | ask m n t => exact False.elim (hleads _ List.mem_cons_self trivial)
    | answer c =>
      rw [runAll_cons, runAll_cons]
      exact ih (fun l hl => hleads l (List.mem_cons_of_mem _ hl)) (h.merge (Alike.refl c)) _ _

section Alike

variable (hchain : ∀ l ∈ leads, ((l.run g').run chain).2 = chain)
variable (hlead : ∀ l ∈ leads, ∀ v, Q v → Alike ((l.run g).run v).1 ((l.run g').run chain).1)
include hchain hlead

/-- Only one of the leads asks, so that what it has seen makes no difference to the others. -/
theorem runAll_alike (hpair : leads.Pairwise fun l l' => ¬ (l.IsAsk ∧ l'.IsAsk)) (h : Alike a b)
    (hv : Q v) : Alike ((runAll g leads a).run v).1 ((runAll g' leads b).run chain).1 := by
  induction leads generalizing a b v with
  | nil => exact h
  | cons l rest ih =>
    have hmerge := h.merge (hlead l List.mem_cons_self v hv)
    obtain ⟨hfirst, hrest⟩ := List.pairwise_cons.mp hpair
    rw [runAll_cons, runAll_cons, hchain l List.mem_cons_self]
    cases l with
    | answer c =>
      exact ih (fun l hl => hchain l (List.mem_cons_of_mem _ hl))
        (fun l hl => hlead l (List.mem_cons_of_mem _ hl)) hrest hmerge hv
    | ask m n t =>
      exact runAll_answers_alike (fun l hl hask => hfirst l hl ⟨trivial, hask⟩) hmerge _ _

theorem runFirst_alike
    (hkeep : ∀ l ∈ leads, ∀ v, Q v → NotFound ((l.run g).run v).1 → Q ((l.run g).run v).2)
    (ha : NotFound a) (hb : NotFound b) (hv : Q v) :
    Alike ((runFirst g leads a).run v).1 ((runFirst g' leads b).run chain).1 := by
  induction leads generalizing a b v with
  | nil => exact Answer.alike_of_notFound ha hb
  | cons l rest ih =>
    have skip {g : Program.ExportLookup} {a : Answer} {v : List Query} (ha : NotFound a)
        (hl : NotFound ((l.run g).run v).1) : ∃ a', NotFound a' ∧
          (runFirst g (l :: rest) a).run v = (runFirst g rest a').run ((l.run g).run v).2 := by
      rw [runFirst_cons]
      split
      · rename_i r hr
        exact False.elim (hl r hr)
      · exact ⟨.unknown, by simp [NotFound], rfl⟩
      · exact ⟨a, ha, rfl⟩
    rcases (hlead l List.mem_cons_self v hv).found_or with ⟨r, hr, hr'⟩ | ⟨hn, hn'⟩
    · rw [runFirst_cons, runFirst_cons, hr, hr']
      exact Alike.refl _
    · obtain ⟨a', ha', he⟩ := skip ha hn
      obtain ⟨b', hb', he'⟩ := skip hb hn'
      rw [he, he', hchain l List.mem_cons_self]
      exact ih (fun l hl => hchain l (List.mem_cons_of_mem _ hl))
        (fun l hl => hlead l (List.mem_cons_of_mem _ hl))
        (fun l hl => hkeep l (List.mem_cons_of_mem _ hl)) ha' hb'
        (hkeep l List.mem_cons_self v hv hn)

end Alike

end Lead

namespace Program

variable {p : Program} {m : ModuleView} {P : Answer → Prop} {g g' : ExportLookup} {n : String}

/-! ### One module on two lookups -/

section Scope

variable {s : Scope} {seen chain : List Query} (hnone : s.assignment = none)
include hnone

theorem scopeAnswer_entries
    (h : ((Lead.runAll g (p.entryLeads m s n) .absent).run seen).1 ≠ .absent) :
    p.scopeAnswer m g s n seen = (Lead.runAll g (p.entryLeads m s n) .absent).run seen := by
  unfold scopeAnswer
  rw [hnone]
  dsimp only
  generalize (Lead.runAll g (p.entryLeads m s n) .absent).run seen = r at h ⊢
  obtain ⟨a, between⟩ := r
  cases a with
  | absent => exact absurd rfl h
  | found r => rfl
  | unknown => rfl

theorem scopeAnswer_stars
    (h : ((Lead.runAll g (p.entryLeads m s n) .absent).run seen).1 = .absent)
    (h' : ((Lead.runFirst g (p.starLeads m s n) .absent).run
      ((Lead.runAll g (p.entryLeads m s n) .absent).run seen).2).1 ≠ .absent) :
    p.scopeAnswer m g s n seen = (Lead.runFirst g (p.starLeads m s n) .absent).run
      ((Lead.runAll g (p.entryLeads m s n) .absent).run seen).2 := by
  unfold scopeAnswer
  rw [hnone]
  dsimp only
  generalize (Lead.runAll g (p.entryLeads m s n) .absent).run seen = r at h h' ⊢
  obtain ⟨a, between⟩ := r
  obtain rfl : a = .absent := h
  dsimp only at h' ⊢
  generalize (Lead.runFirst g (p.starLeads m s n) .absent).run between = r at h' ⊢
  obtain ⟨b, after⟩ := r
  cases b with
  | absent => exact absurd rfl h'
  | found r => rfl
  | unknown => rfl

theorem scopeAnswer_gives (hP : Answer.Joint P)
    (hall : P ((Lead.runAll g (p.entryLeads m s n) .absent).run seen).1)
    (hfirst : ((Lead.runAll g (p.entryLeads m s n) .absent).run seen).1 = .absent →
      P ((Lead.runFirst g (p.starLeads m s n) .absent).run
        ((Lead.runAll g (p.entryLeads m s n) .absent).run seen).2).1 ∧
      (m.file.kind.isJavaScript = true → P .unknown)) :
    P (p.scopeAnswer m g s n seen).1 := by
  by_cases hentries : ((Lead.runAll g (p.entryLeads m s n) .absent).run seen).1 = .absent
  · obtain ⟨hstars, hkind⟩ := hfirst hentries
    by_cases hlast : ((Lead.runFirst g (p.starLeads m s n) .absent).run
        ((Lead.runAll g (p.entryLeads m s n) .absent).run seen).2).1 = .absent
    · unfold scopeAnswer
      rw [hnone]
      dsimp only
      generalize (Lead.runAll g (p.entryLeads m s n) .absent).run seen = r at hentries hlast ⊢
      obtain ⟨a, between⟩ := r
      obtain rfl : a = .absent := hentries
      dsimp only at hlast ⊢
      generalize (Lead.runFirst g (p.starLeads m s n) .absent).run between = r at hlast ⊢
      obtain ⟨b, after⟩ := r
      obtain rfl : b = .absent := hlast
      dsimp only
      split
      · rename_i hjs
        exact hkind hjs
      · exact hP.absent
    · rw [scopeAnswer_stars hnone hentries hlast]
      exact hstars
  · rw [scopeAnswer_entries hnone hentries]
    exact hall

theorem scopeAnswer_alike
    (hall : Alike ((Lead.runAll g (p.entryLeads m s n) .absent).run seen).1
      ((Lead.runAll g' (p.entryLeads m s n) .absent).run chain).1)
    (hskip : p.starLeads m s n = [] ∨
      (((Lead.runAll g (p.entryLeads m s n) .absent).run seen).1 = .absent ↔
        ((Lead.runAll g' (p.entryLeads m s n) .absent).run chain).1 = .absent))
    (hfirst : ((Lead.runAll g (p.entryLeads m s n) .absent).run seen).1 = .absent →
      Alike ((Lead.runFirst g (p.starLeads m s n) .absent).run
          ((Lead.runAll g (p.entryLeads m s n) .absent).run seen).2).1
        ((Lead.runFirst g' (p.starLeads m s n) .absent).run
          ((Lead.runAll g' (p.entryLeads m s n) .absent).run chain).2).1) :
    Alike (p.scopeAnswer m g s n seen).1 (p.scopeAnswer m g' s n chain).1 := by
  have hunknown : m.file.kind.isJavaScript = true → NotFound .unknown := fun _ => by
    simp [NotFound]
  rcases hall.found_or with ⟨r, hr, hr'⟩ | ⟨hn, hn'⟩
  · rw [scopeAnswer_entries hnone (by rw [hr]; simp), scopeAnswer_entries hnone (by rw [hr']; simp),
      hr, hr']
    exact Alike.refl _
  rcases hskip with hnil | hiff
  · -- There is nothing to fall back on.
    have hstars {g : ExportLookup} (v : List Query) :
        NotFound ((Lead.runFirst g (p.starLeads m s n) .absent).run v).1 := by
      rw [hnil]
      simp [NotFound]
    exact Answer.alike_of_notFound
      (scopeAnswer_gives hnone joint_notFound hn fun _ => ⟨hstars _, hunknown⟩)
      (scopeAnswer_gives hnone joint_notFound hn' fun _ => ⟨hstars _, hunknown⟩)
  by_cases hentries : ((Lead.runAll g (p.entryLeads m s n) .absent).run seen).1 = .absent
  · rcases (hfirst hentries).found_or with ⟨r, hr, hr'⟩ | ⟨hs, hs'⟩
    · rw [scopeAnswer_stars hnone hentries (by rw [hr]; simp),
        scopeAnswer_stars hnone (hiff.mp hentries) (by rw [hr']; simp), hr, hr']
      exact Alike.refl _
    · exact Answer.alike_of_notFound
        (scopeAnswer_gives hnone joint_notFound hn fun _ => ⟨hs, hunknown⟩)
        (scopeAnswer_gives hnone joint_notFound hn' fun _ => ⟨hs', hunknown⟩)
  · exact Answer.alike_of_notFound
      (scopeAnswer_gives hnone joint_notFound hn fun h => absurd h hentries)
      (scopeAnswer_gives hnone joint_notFound hn' fun h => absurd (hiff.mpr h) hentries)

end Scope

end Program

end TypeOnly
