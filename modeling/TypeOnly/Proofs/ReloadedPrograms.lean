import TypeOnly.Proofs.MarkedPrograms
import TypeOnly.Proofs.ReplacedFiles

/-!
Loading a program again after the texts of its files were marked. If every file reads back as it
was, but for the marks, the same files are loaded in the same order.
-/

namespace TypeOnly.Program

set_option autoImplicit false

open Source (Outline Specifier)

/-- A text of a file says what the file said, but for the marks that are told to be missing. -/
def ReadsBack (ds : List Diagnostic) (f : ProgramMember) (text : String) : Prop :=
  (Source.readSource text f.kind).outline.map Outline.placeless =
    f.outline.map fun o => (o.mark ds f.path).placeless

instance (ds : List Diagnostic) (f : ProgramMember) (text : String) :
    Decidable (ReadsBack ds f text) :=
  inferInstanceAs (Decidable (_ = _))

variable {d d' : Disk} {ds : List Diagnostic}

theorem resolveAll_eq (hsame : SameTree d d') (r : Resolver) (path : Path)
    {requests requests' : List Specifier}
    (h : requests'.map Specifier.placeless = requests.map Specifier.placeless)
    (found : List (String × Option Path)) :
    resolveAll r d' path requests' found = resolveAll r d path requests found := by
  induction requests generalizing requests' found with
  | nil =>
    obtain rfl := List.map_eq_nil_iff.mp h
    rfl
  | cons q requests ih =>
    obtain ⟨q', rest', rfl, hq, hrest⟩ := List.map_eq_cons_iff.mp h
    have htext : q'.text = q.text := by
      change q'.placeless.text = q.placeless.text
      rw [hq]
    simp only [resolveAll, htext, hsame.resolve_eq, ih hrest]

theorem read_notFound (hsame : SamePlaces d d') {p q : Path} (h : d.read p = .error (.notFound q)) :
    d'.read p = .error (.notFound q) := by
  have hbytes : d.readBytes p = .error (.notFound q) := by
    unfold Disk.read at h
    cases hb : d.readBytes p with
    | error e =>
      rw [hb] at h
      cases h
      rfl
    | ok bytes =>
      rw [hb] at h
      dsimp only [bind, Except.bind] at h
      split at h <;> cases h
  have hbytes' : d'.readBytes p = .error (.notFound q) := by
    unfold Disk.readBytes at hbytes ⊢
    rw [hsame.find_eq]
    split at hbytes
    · exact hbytes
    · cases hbytes
    · rename_i loc hfind
      split at hbytes
      · cases hbytes
      · cases hbytes
      · rename_i hnone
        have hnone' : d'.get? loc = none := by
          rw [← Option.not_isSome_iff_eq_none, hsame.isSome_get?, hnone]
          simp
        simp only [hnone']
        exact hbytes
  unfold Disk.read
  rw [hbytes']
  rfl

theorem nextFile_again (text : Path → String) (hsame : SamePlaces d d')
    {files files' : List ProgramMember}
    (hfiles : files'.map (·.path) = files.map (·.path)) {queue : List Request}
    {missing missing' : List Path} {found : Option (Loaded × List Request)}
    (h : nextFile d files queue missing = .ok (found, missing'))
    (hread : ∀ x ∈ found, d'.read x.1.path = .ok (text x.1.path)) :
    nextFile d' files' queue missing =
      .ok (found.map fun x => ({ x.1 with text := text x.1.path }, x.2), missing') := by
  induction queue generalizing missing with
  | nil =>
    simp only [nextFile, Except.ok.injEq, Prod.mk.injEq] at h ⊢
    obtain ⟨rfl, rfl⟩ := h
    exact ⟨rfl, rfl⟩
  | cons r queue ih =>
    have hany :
        (files'.any fun f => f.path.same r.path) = files.any fun f => f.path.same r.path := by
      have hmap (fs : List ProgramMember) : (fs.any fun f => f.path.same r.path) =
          (fs.map (·.path)).any fun q => q.same r.path := by
        rw [List.any_map]
        rfl
      rw [hmap, hmap, hfiles]
    unfold nextFile at h ⊢
    rw [hany]
    split at h
    · rename_i hold
      rw [if_pos hold]
      exact ih h
    · rename_i hnew
      rw [if_neg hnew]
      split at h
      · exact ih h
      · dsimp only
        split at h
        · simp only [Except.ok.injEq, Prod.mk.injEq] at h
          obtain ⟨rfl, rfl⟩ := h
          simp only [hread _ rfl, Option.map_some]
        · rename_i hmissing
          simp only [read_notFound hsame hmissing]
          exact ih h
        · simp at h

theorem loadFrom_subset {r : Resolver} {steps : Nat} {queue : List Request} {p p' : Program}
    {cache : PackageCache} (h : loadFrom r d steps queue p cache = .ok p') :
    p.files ⊆ p'.files := by
  refine loadFrom_invariant (I := fun files => p.files ⊆ files) ?_ (List.Subset.refl _) h
  intro files f hfiles _
  exact List.subset_append_of_subset_left _ hfiles

theorem Rereads.paths {p p' : Program} (h : Rereads ds p p') :
    p'.files.map (·.path) = p.files.map (·.path) := by
  have hpaths := congrArg (List.map ProgramMember.path) h.files
  simp only [List.map_map] at hpaths
  exact hpaths

theorem ReadsBack.requests {f : ProgramMember} {text : String} (h : ReadsBack ds f text) :
    (requestsOf (Source.readSource text f.kind)).map Specifier.placeless =
      (requestsOf f.parsed).map Specifier.placeless := by
  have hrequests (parsed : Source.SourceModule) :
      (requestsOf parsed).map Specifier.placeless =
        (parsed.outline.map Outline.placeless).elim [] (·.requests) := by
    unfold requestsOf
    cases parsed.outline <;> rfl
  have houtline : f.outline = f.parsed.outline := rfl
  rw [hrequests, hrequests, h, houtline]
  cases f.parsed.outline <;> rfl

theorem ReadsBack.member {l : Loaded} {links : List (String × Option Path)} {text : String}
    (h : ReadsBack ds (memberOf l links) text) :
    (memberOf { l with text } links).placeless = ((memberOf l links).mark ds).placeless := by
  have houtline : ((memberOf l links).mark ds).outline.map Outline.placeless =
      (memberOf l links).outline.map fun o => (o.mark ds l.path).placeless :=
    Option.map_map Outline.placeless (Outline.mark ds l.path) (memberOf l links).outline
  have hoff : (memberOf { l with text } links).outline.map Outline.placeless =
      (memberOf l links).outline.map fun o => (o.mark ds l.path).placeless := h
  simp only [ProgramMember.placeless, houtline, hoff]
  rfl

/-- The program that is loaded again is the first one with its marks. -/
theorem loadFrom_again {t : Path → String} (hsame : SameTree d d') {r : Resolver} {steps : Nat}
    {queue : List Request} {p p' q : Program} {cache : PackageCache} (hp : Rereads ds p p')
    (h : loadFrom r d steps queue p cache = .ok q)
    (hback : ∀ f ∈ q.files, d'.read f.path = .ok (t f.path) ∧ ReadsBack ds f (t f.path)) :
    ∃ q', loadFrom r d' steps queue p' cache = .ok q' ∧ Rereads ds q q' := by
  induction steps generalizing queue p p' cache with
  | zero => exact ⟨p', rfl, Except.ok.inj h ▸ hp⟩
  | succ steps ih =>
    cases hnext : nextFile d p.files queue p.absentRoots with
    | error e =>
      rw [loadFrom, hnext] at h
      simp at h
    | ok x =>
      obtain ⟨found, missing⟩ := x
      cases found with
      | none =>
        have hnext' := nextFile_again t hsame.toSamePlaces hp.paths hnext (by simp)
        rw [← hp.absentRoots] at hnext'
        rw [loadFrom, hnext] at h
        rw [loadFrom, hnext']
        obtain rfl := Except.ok.inj h
        exact ⟨_, rfl, rereads_of_files hp.files rfl⟩
      | some x =>
        obtain ⟨l, rest⟩ := x
        rw [loadFrom_step hnext] at h
        -- The file that was loaded next is one of those that read back.
        obtain ⟨hread, hreads⟩ :=
          hback _ (loadFrom_subset h (List.mem_append_right _ List.mem_cons_self))
        have hread : d'.read l.path = .ok (t l.path) := hread
        have hreads : ReadsBack ds (memberOf l (linksOf r d l cache).1) (t l.path) := hreads
        have hnext' := nextFile_again t hsame.toSamePlaces hp.paths hnext (by simpa using hread)
        rw [← hp.absentRoots, Option.map_some] at hnext'
        have hlinks : linksOf r d' { l with text := t l.path } cache = linksOf r d l cache := by
          have hresolve := resolveAll_eq hsame r l.path hreads.requests []
          exact congrArg (fun search => search.run cache) hresolve
        rw [loadFrom_step hnext', hlinks]
        have hadd : Rereads ds ⟨p.files ++ [memberOf l (linksOf r d l cache).1], missing⟩
            ⟨p'.files ++ [memberOf { l with text := t l.path } (linksOf r d l cache).1],
              missing⟩ := by
          refine rereads_of_files ?_ rfl
          rw [List.map_append, List.map_append, hp.files, List.map_singleton, List.map_singleton,
            hreads.member]
        exact ih hadd h

theorem load_again (hsame : SameTree d d') {roots : List Path} {options : Options} {p : Program}
    (h : load d roots options = .ok p)
    (hback : ∀ f ∈ p.files, ∃ text, d'.read f.path = .ok text ∧ ReadsBack ds f text) :
    ∃ p', load d' roots options = .ok p' ∧ Rereads ds p p' := by
  have hlength : d'.entries.length = d.entries.length := by
    simpa using congrArg List.length hsame.locations
  unfold load at h ⊢
  rw [hlength]
  refine loadFrom_again (t := fun q => (d'.read q).toOption.getD "") hsame
    (rereads_mark ds ⟨[], []⟩) h ?_
  intro f hf
  obtain ⟨text, hread, hreads⟩ := hback f hf
  rw [hread]
  exact ⟨rfl, hreads⟩

end TypeOnly.Program
