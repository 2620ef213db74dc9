import Mathlib.Logic.Relation
import TypeOnly.Proofs.ModuleSearch

/-!
A program is the closure of its root files under what they ask for. Loading is a sequence of rounds,
each of which takes one request from a queue. There are never more rounds than can be taken, the
root files come first, and what is loaded in the end is the least set of files with the root files
in it and every file that one of them asks for.
-/

namespace TypeOnly.Program

set_option autoImplicit false

open Relation (ReflTransGen)
open Resolver (Kept Uniform IsTarget)
open Source (Specifier)

/-! ### Rounds -/

/-- How far loading has come. -/
structure Loading where
  queue : List Request
  program : Program
  cache : PackageCache

def follow (links : List (String × Option Path)) : List Request :=
  links.filterMap fun x => x.2.map fun t => ⟨t, false⟩

/-- One request is taken from the queue: the file is loaded already, its kind is not known, it is
not there, or it is loaded. -/
inductive Round (r : Resolver) (disk : Disk) : Loading → Loading → Prop where
  | known {q : Request} {rest : List Request} {p : Program} {cache : PackageCache}
      (hknown : ∃ f ∈ p.files, f.path.parts = q.path.parts) :
      Round r disk ⟨q :: rest, p, cache⟩ ⟨rest, p, cache⟩
  | foreign {q : Request} {rest : List Request} {p : Program} {cache : PackageCache}
      (hkind : Source.kindOf? q.path = none) :
      Round r disk ⟨q :: rest, p, cache⟩ ⟨rest, p, cache⟩
  | absent {q : Request} {rest : List Request} {p : Program} {cache : PackageCache}
      (hkind : Source.kindOf? q.path ≠ none)
      (hread : disk.read q.path = .error (.notFound q.path)) :
      Round r disk ⟨q :: rest, p, cache⟩
        ⟨rest, ⟨p.files, if q.isRoot then p.absentRoots ++ [q.path] else p.absentRoots⟩, cache⟩
  | loaded {l : Loaded} {isRoot : Bool} {rest : List Request} {p : Program} {cache : PackageCache}
      (hnew : ∀ f ∈ p.files, f.path.parts ≠ l.path.parts)
      (hkind : Source.kindOf? l.path = some l.kind) (hread : disk.read l.path = .ok l.text) :
      Round r disk ⟨⟨l.path, isRoot⟩ :: rest, p, cache⟩
        ⟨rest ++ follow (linksOf r disk l cache).1,
          ⟨p.files ++ [memberOf l (linksOf r disk l cache).1], p.absentRoots⟩,
          (linksOf r disk l cache).2⟩

/-- Loading is over: nothing is left to be loaded, or a file cannot be read. -/
inductive Ends (disk : Disk) : Loading → Except DiskError Program → Prop where
  | done {p : Program} {cache : PackageCache} : Ends disk ⟨[], p, cache⟩ (.ok p)
  | failed {q : Request} {rest : List Request} {p : Program} {cache : PackageCache} {e : DiskError}
      (hkind : Source.kindOf? q.path ≠ none) (hread : disk.read q.path = .error e)
      (herror : ∀ x, e ≠ .notFound x) : Ends disk ⟨q :: rest, p, cache⟩ (.error e)

/-- Loading before its first round. -/
def Loading.start (roots : List Path) : Loading :=
  ⟨roots.map fun root => ⟨root.normalize, true⟩, ⟨[], []⟩, []⟩

variable {r : Resolver} {disk : Disk} {A : Path → Prop} {s s' : Loading} {f : ProgramMember}

theorem notFound_path {p x : Path} (h : disk.read p = .error (.notFound x)) : x = p := by
  unfold Disk.read at h
  cases hb : disk.readBytes p with
  | error e =>
    rw [hb] at h
    obtain rfl := Except.error.inj h
    unfold Disk.readBytes at hb
    split at hb
    · obtain rfl := DiskError.notFound.inj (Except.error.inj hb)
      rfl
    · cases hb
    · split at hb
      · cases hb
      · cases hb
      · obtain rfl := DiskError.notFound.inj (Except.error.inj hb)
        rfl
  | ok bytes =>
    rw [hb] at h
    simp only [bind, Except.bind] at h
    split at h <;> cases h

theorem nextFile_cons (r : Resolver) (disk : Disk) (files : List ProgramMember) (q : Request)
    (rest : List Request) (missing : List Path) :
    (∃ missing', (∀ cache,
        Round r disk ⟨q :: rest, ⟨files, missing⟩, cache⟩ ⟨rest, ⟨files, missing'⟩, cache⟩) ∧
      nextFile disk files (q :: rest) missing = nextFile disk files rest missing') ∨
    (∃ l : Loaded, q.path = l.path ∧ (∀ f ∈ files, f.path.parts ≠ l.path.parts) ∧
      Source.kindOf? l.path = some l.kind ∧ disk.read l.path = .ok l.text ∧
      nextFile disk files (q :: rest) missing = .ok (some (l, rest), missing)) ∨
    ∃ e, Source.kindOf? q.path ≠ none ∧ disk.read q.path = .error e ∧ (∀ x, e ≠ .notFound x) ∧
      nextFile disk files (q :: rest) missing = .error e := by
  by_cases hknown : (files.any fun f => f.path.same q.path) = true
  · obtain ⟨f, hf, hsame⟩ := List.any_eq_true.mp hknown
    refine Or.inl ⟨missing, fun cache => .known ⟨f, hf, Path.same_iff.mp hsame⟩, ?_⟩
    rw [nextFile, if_pos hknown]
  have hnew : ∀ f ∈ files, f.path.parts ≠ q.path.parts := by
    intro f hf he
    exact hknown (List.any_eq_true.mpr ⟨f, hf, Path.same_iff.mpr he⟩)
  cases hkind : Source.kindOf? q.path with
  | none =>
    refine Or.inl ⟨missing, fun cache => .foreign hkind, ?_⟩
    rw [nextFile, if_neg hknown, hkind]
  | some kind =>
    cases hread : disk.read q.path with
    | ok text =>
      refine Or.inr (Or.inl ⟨⟨q.path, kind, text⟩, rfl, hnew, hkind, hread, ?_⟩)
      rw [nextFile, if_neg hknown, hkind, hread]
    | error e =>
      cases e with
      | notFound x =>
        obtain rfl := notFound_path hread
        refine Or.inl ⟨_, fun cache => .absent (by simp [hkind]) hread, ?_⟩
        rw [nextFile, if_neg hknown, hkind, hread]
      | blocked x o =>
        refine Or.inr (Or.inr ⟨_, by simp, rfl, by simp, ?_⟩)
        rw [nextFile, if_neg hknown, hkind, hread]
      | notText x =>
        refine Or.inr (Or.inr ⟨_, by simp, rfl, by simp, ?_⟩)
        rw [nextFile, if_neg hknown, hkind, hread]

/-! ### What holds in every round -/

/-- The folders in which the files of a program look for packages. -/
def AskedBy (r : Resolver) (disk : Disk) (files : List ProgramMember) (folder : Path) : Prop :=
  ∃ f ∈ files, ∃ s ∈ requestsOf f.parsed, folder ∈ r.asked disk s.text f.path

/-- A file as it was read, without its links. -/
def asRead (f : ProgramMember) : Loaded := ⟨f.path, f.kind, f.source.text⟩

/-- A file that was read and parsed, with one link for each of its specifiers. -/
structure IsMember (r : Resolver) (disk : Disk) (A : Path → Prop) (f : ProgramMember) : Prop where
  normal : f.path.IsNormal
  kind : Source.kindOf? f.path = some f.kind
  read : disk.read f.path = .ok f.source.text
  parsed : f.parsed = Source.readSource f.source.text f.kind
  links : ∃ links, f.links = Dictionary.ofList links ∧ Answered r disk A f.path links ∧
    Linked (requestsOf f.parsed) [] links
  same : Uniform disk A → f = memberOf (asRead f) (linksOf r disk (asRead f) []).1

structure Valid (r : Resolver) (disk : Disk) (A : Path → Prop) (s : Loading) : Prop where
  cache : Kept disk A s.cache
  distinct : DistinctPaths s.program.files
  members : ∀ f ∈ s.program.files, IsMember r disk A f
  normal : ∀ q ∈ s.queue, q.path.IsNormal

theorem isMember_memberOf {l : Loaded} {cache : PackageCache} (hcache : Kept disk A cache)
    (hnormal : l.path.IsNormal) (hkind : Source.kindOf? l.path = some l.kind)
    (hread : disk.read l.path = .ok l.text)
    (hasked : ∀ s ∈ requestsOf (Source.readSource l.text l.kind),
      ∀ folder ∈ r.asked disk s.text l.path, A folder) :
    IsMember r disk A (memberOf l (linksOf r disk l cache).1) := by
  have hlinks := steady_linksOf hasked
  refine ⟨hnormal, hkind, hread, rfl, ?_, ?_⟩
  · obtain ⟨hanswered, hlinked⟩ := hlinks.answer cache hcache
    exact ⟨_, rfl, hanswered, hlinked⟩
  · intro huniform
    exact congrArg (memberOf l) (hlinks.same huniform cache [] hcache Kept.nil)

theorem Valid.round (h : Valid r disk A s) (hround : Round r disk s s')
    (hasked : ∀ folder, AskedBy r disk s'.program.files folder → A folder) :
    Valid r disk A s' := by
  obtain ⟨hcache, hdistinct, hmembers, hnormal⟩ := h
  cases hround with
  | known hknown =>
    exact ⟨hcache, hdistinct, hmembers, fun q hq => hnormal q (List.mem_cons_of_mem _ hq)⟩
  | foreign hkind =>
    exact ⟨hcache, hdistinct, hmembers, fun q hq => hnormal q (List.mem_cons_of_mem _ hq)⟩
  | absent hkind hread =>
    exact ⟨hcache, hdistinct, hmembers, fun q hq => hnormal q (List.mem_cons_of_mem _ hq)⟩
  | @loaded l isRoot rest p cache hnew hkind hread =>
    have hpath : l.path.IsNormal := hnormal _ List.mem_cons_self
    have hrequests : ∀ sp ∈ requestsOf (Source.readSource l.text l.kind),
        ∀ folder ∈ r.asked disk sp.text l.path, A folder := by
      intro sp hsp folder hfolder
      exact hasked folder ⟨_, List.mem_append_right _ List.mem_cons_self, sp, hsp, hfolder⟩
    have hlinks := steady_linksOf hrequests
    refine ⟨hlinks.keeps cache hcache, ?_, ?_, ?_⟩
    · have hnext : Next disk p.files (memberOf l (linksOf r disk l cache).1) := by
        refine ⟨?_, hkind, hread, rfl⟩
        intro hmem
        obtain ⟨f, hf, he⟩ := List.mem_map.mp hmem
        exact hnew f hf he
      exact hdistinct.next hnext
    · intro f hf
      rcases List.mem_append.mp hf with hf | hf
      · exact hmembers f hf
      · obtain rfl := List.mem_singleton.mp hf
        exact isMember_memberOf hcache hpath hkind hread hrequests
    · intro q hq
      rcases List.mem_append.mp hq with hq | hq
      · exact hnormal q (List.mem_cons_of_mem _ hq)
      · obtain ⟨x, hx, ht⟩ := List.mem_filterMap.mp hq
        obtain ⟨t, htarget, rfl⟩ := Option.map_eq_some_iff.mp ht
        exact ((((hlinks.answer cache hcache).1.answers x hx).1) t htarget).1

theorem valid_start (roots : List Path) : Valid r disk A (.start roots) := by
  refine ⟨Kept.nil, List.nodup_nil, by simp [Loading.start], ?_⟩
  intro q hq
  obtain ⟨root, _, rfl⟩ := List.mem_map.mp hq
  exact ⟨root, rfl⟩

/-! ### There is an end to the rounds -/

/-- A file has at most two paths in normal form. -/
theorem Valid.length_le (h : Valid r disk A s) :
    s.program.files.length ≤ 2 * disk.entries.length := by
  have hplaces : (s.program.files.map fun f => f.path.parts) ⊆
      (disk.entries.map fun e => Path.way false e.1) ++
        disk.entries.map fun e => Path.way true e.1 := by
    intro parts hparts
    obtain ⟨f, hf, rfl⟩ := List.mem_map.mp hparts
    obtain ⟨loc, bytes, hfind, hget⟩ := Disk.find_of_read (h.members f hf).read
    obtain ⟨above, hway⟩ := (h.members f hf).normal.way_of_find hfind
    have hne : loc ≠ [] := by
      rintro rfl
      cases hget
    rw [Disk.get?_of_ne_nil hne] at hget
    obtain ⟨before, after, hentries, _⟩ := List.lookup_eq_some_iff.mp hget
    have hmem : (loc, Entry.file bytes) ∈ disk.entries := by simp [hentries]
    rw [hway]
    cases above with
    | false => exact List.mem_append_left _ (List.mem_map.mpr ⟨_, hmem, rfl⟩)
    | true => exact List.mem_append_right _ (List.mem_map.mpr ⟨_, hmem, rfl⟩)
  have hlength := List.Nodup.length_le_of_subset h.distinct hplaces
  simp only [List.length_map, List.length_append] at hlength
  omega

theorem loadFrom_ends {steps : Nat} {queue : List Request} {p : Program} {cache : PackageCache}
    (h : Valid r disk (fun _ => True) ⟨queue, p, cache⟩)
    (hsteps : 2 * disk.entries.length < steps + p.files.length) :
    ∃ last, ReflTransGen (Round r disk) ⟨queue, p, cache⟩ last ∧
      Ends disk last (loadFrom r disk steps queue p cache) := by
  induction steps generalizing queue p cache with
  | zero =>
    have hlength := h.length_le
    dsimp only at hlength
    omega
  | succ steps ihsteps =>
    induction queue generalizing p with
    | nil => exact ⟨_, .refl, .done⟩
    | cons q rest ihqueue =>
      obtain ⟨files, missing⟩ := p
      rcases nextFile_cons r disk files q rest missing with
        ⟨missing', hround, hnext⟩ | ⟨l, hpath, hnew, hkind, hread, hnext⟩ |
          ⟨e, hkind, hread, herror, hnext⟩
      · obtain ⟨last, hrun, hends⟩ := ihqueue (h.round (hround cache) fun _ _ => trivial) hsteps
        refine ⟨last, .head (hround cache) hrun, ?_⟩
        rw [loadFrom] at hends ⊢
        rw [hnext]
        exact hends
      · obtain ⟨path, isRoot⟩ := q
        obtain rfl := hpath
        have hround : Round r disk ⟨⟨l.path, isRoot⟩ :: rest, ⟨files, missing⟩, cache⟩ _ :=
          .loaded hnew hkind hread
        obtain ⟨last, hrun, hends⟩ := ihsteps (h.round hround fun _ _ => trivial) (by
          dsimp only at hsteps ⊢
          rw [List.length_append, List.length_singleton]
          omega)
        refine ⟨last, .head hround hrun, ?_⟩
        rw [loadFrom_step hnext]
        exact hends
      · refine ⟨_, .refl, ?_⟩
        rw [loadFrom, hnext]
        exact .failed hkind hread herror

theorem load_ends (disk : Disk) (roots : List Path) (options : Options) :
    ∃ last, ReflTransGen (Round (.ofOptions options) disk) (.start roots) last ∧
      Ends disk last (load disk roots options) :=
  loadFrom_ends (valid_start roots) (by simp)

theorem Round.subset (h : Round r disk s s') : s.program.files ⊆ s'.program.files := by
  cases h with
  | known => exact List.Subset.refl _
  | foreign => exact List.Subset.refl _
  | absent => exact List.Subset.refl _
  | loaded => exact List.subset_append_left _ _

theorem subset_of_rounds (h : ReflTransGen (Round r disk) s s') :
    s.program.files ⊆ s'.program.files := by
  induction h with
  | refl => exact List.Subset.refl _
  | tail _ hround ih => exact List.Subset.trans ih hround.subset

/-- What each round on the way to an end keeps holds in the end. -/
theorem rounds_invariant {I : Loading → Prop} {last : Loading}
    (hround : ∀ s s', Round r disk s s' → s'.program.files ⊆ last.program.files → I s → I s')
    (h : ReflTransGen (Round r disk) s last) (hs : I s) : I last := by
  induction h using ReflTransGen.head_induction_on with
  | refl => exact hs
  | head hfirst hrest ih => exact ih (hround _ _ hfirst (subset_of_rounds hrest) hs)

theorem AskedBy.mono {files files' : List ProgramMember} (hsub : files ⊆ files') {folder : Path}
    (h : AskedBy r disk files folder) : AskedBy r disk files' folder := by
  obtain ⟨f, hf, hasked⟩ := h
  exact ⟨f, hsub hf, hasked⟩

theorem Valid.rounds {last : Loading} (h : ReflTransGen (Round r disk) s last)
    (hs : Valid r disk (AskedBy r disk last.program.files) s) :
    Valid r disk (AskedBy r disk last.program.files) last := by
  refine rounds_invariant ?_ h hs
  intro s s' hround hsub hvalid
  exact hvalid.round hround fun _ => AskedBy.mono hsub

/-! ### Files that can be reached -/

def isMissing (disk : Disk) (q : Path) : Bool :=
  match disk.read q with
  | .error (.notFound _) => true
  | _ => false

theorem isMissing_iff {q : Path} :
    isMissing disk q = true ↔ ∃ x, disk.read q = .error (.notFound x) := by
  unfold isMissing
  split
  · rename_i x hread
    exact ⟨fun _ => ⟨x, hread⟩, fun _ => rfl⟩
  · rename_i hother
    constructor
    · simp
    · rintro ⟨x, hread⟩
      exact False.elim (hother x hread)

theorem isMissing_of_error {q : Path} {e : DiskError} (hread : disk.read q = .error e)
    (herror : ∀ x, e ≠ .notFound x) : isMissing disk q = false := by
  rw [← Bool.not_eq_true, isMissing_iff]
  rintro ⟨x, hmissing⟩
  exact herror x (Except.error.inj (hread.symm.trans hmissing))

/-- The least set with the root files that are there and all that a file in it asks for, as far as
the kind of the file is known. -/
inductive Reach (disk : Disk) (roots : List Path) (answer : Path → String → Option Path) :
    Path → Prop where
  | root {root : Path} (hroot : root ∈ roots) (hkind : Source.kindOf? root.normalize ≠ none)
      (hthere : isMissing disk root.normalize = false) : Reach disk roots answer root.normalize
  | request {l : Loaded} {sp : Specifier} {t : Path} (hpath : Reach disk roots answer l.path)
      (hkind : Source.kindOf? l.path = some l.kind) (hread : disk.read l.path = .ok l.text)
      (hsp : sp ∈ requestsOf (Source.readSource l.text l.kind))
      (hanswer : answer l.path sp.text = some t) (htarget : Source.kindOf? t ≠ none) :
      Reach disk roots answer t

/-- A file is loaded or asked for. -/
def Covered (s : Loading) (q : Path) : Prop :=
  (∃ f ∈ s.program.files, f.path = q) ∨ ∃ x ∈ s.queue, x.path = q

def Agrees (answer : Path → String → Option Path) (files : List ProgramMember) : Prop :=
  ∀ f ∈ files, ∀ sp ∈ requestsOf f.parsed, f.links.get? sp.text = some (answer f.path sp.text)

/-- Only what can be reached is loaded or asked for, and nothing that can be reached in one step is
left out. -/
structure Closing (disk : Disk) (roots : List Path) (answer : Path → String → Option Path)
    (s : Loading) : Prop where
  visited : ∀ f ∈ s.program.files, Reach disk roots answer f.path
  pending : ∀ q ∈ s.queue, Source.kindOf? q.path ≠ none → isMissing disk q.path = false →
    Reach disk roots answer q.path
  roots : ∀ root ∈ roots, Source.kindOf? root.normalize ≠ none →
    isMissing disk root.normalize = false → Covered s root.normalize
  links : ∀ f ∈ s.program.files, ∀ sp ∈ requestsOf f.parsed, ∀ t, answer f.path sp.text = some t →
    Source.kindOf? t ≠ none → Covered s t

variable {roots : List Path} {answer : Path → String → Option Path}

theorem mem_follow {l : Loaded} {cache : PackageCache} (hcache : Kept disk (fun _ => True) cache)
    (hagrees : Agrees answer [memberOf l (linksOf r disk l cache).1]) {q : Request} :
    q ∈ follow (linksOf r disk l cache).1 ↔ q.isRoot = false ∧
      ∃ sp ∈ requestsOf (Source.readSource l.text l.kind), answer l.path sp.text = some q.path := by
  obtain ⟨hanswered, hlinked⟩ :=
    (steady_linksOf (r := r) (l := l) fun _ _ _ _ => trivial).answer cache hcache
  have hagree := hagrees _ List.mem_cons_self
  have hlinks (sp : Specifier) (hsp : sp ∈ requestsOf (Source.readSource l.text l.kind)) :
      (sp.text, answer l.path sp.text) ∈ (linksOf r disk l cache).1 :=
    (Dictionary.get?_ofList_iff hanswered.once).mp (hagree sp hsp)
  constructor
  · intro hq
    obtain ⟨x, hx, ht⟩ := List.mem_filterMap.mp hq
    obtain ⟨t, htarget, rfl⟩ := Option.map_eq_some_iff.mp ht
    obtain ⟨sp, hsp, htext⟩ :
        ∃ sp ∈ requestsOf (Source.readSource l.text l.kind), sp.text = x.1 := by
      simpa using (hlinked x.1).mp (List.mem_map_of_mem hx)
    refine ⟨rfl, sp, hsp, ?_⟩
    have hsame := List.inj_on_of_nodup_map hanswered.once hx (hlinks sp hsp) htext.symm
    rw [hsame] at htarget
    exact htarget
  · rintro ⟨hroot, sp, hsp, hanswer⟩
    refine List.mem_filterMap.mpr ⟨_, hlinks sp hsp, ?_⟩
    obtain ⟨path, isRoot⟩ := q
    simp only [hanswer, Option.map_some]
    exact congrArg (fun b => some (Request.mk path b)) hroot.symm

theorem Covered.round (hvalid : Valid r disk A s) (hround : Round r disk s s') {q : Path}
    (hkind : Source.kindOf? q ≠ none) (hthere : isMissing disk q = false) (h : Covered s q) :
    Covered s' q := by
  rcases h with ⟨f, hf, rfl⟩ | ⟨x, hx, rfl⟩
  · exact Or.inl ⟨f, hround.subset hf, rfl⟩
  cases hround with
  | known hknown =>
    rcases List.mem_cons.mp hx with rfl | hx
    · obtain ⟨f, hf, hparts⟩ := hknown
      have hnormal := hvalid.normal _ List.mem_cons_self
      exact Or.inl ⟨f, hf, (hvalid.members f hf).normal.eq_of_parts hnormal hparts⟩
    · exact Or.inr ⟨x, hx, rfl⟩
  | foreign hforeign =>
    rcases List.mem_cons.mp hx with rfl | hx
    · exact False.elim (hkind hforeign)
    · exact Or.inr ⟨x, hx, rfl⟩
  | absent _ hread =>
    rcases List.mem_cons.mp hx with rfl | hx
    · have hmissing := isMissing_iff.mpr ⟨_, hread⟩
      rw [hthere] at hmissing
      cases hmissing
    · exact Or.inr ⟨x, hx, rfl⟩
  | loaded hnew hkind hread =>
    rcases List.mem_cons.mp hx with rfl | hx
    · exact Or.inl ⟨_, List.mem_append_right _ List.mem_cons_self, rfl⟩
    · exact Or.inr ⟨x, List.mem_append_left _ hx, rfl⟩

theorem Closing.round (hvalid : Valid r disk (fun _ => True) s) (h : Closing disk roots answer s)
    (hround : Round r disk s s') (hagrees : Agrees answer s'.program.files)
    (htargets : ∀ path text t, answer path text = some t → isMissing disk t = false) :
    Closing disk roots answer s' := by
  have hroots : ∀ root ∈ roots, Source.kindOf? root.normalize ≠ none →
      isMissing disk root.normalize = false → Covered s' root.normalize :=
    fun root hroot hkind hthere =>
      (h.roots root hroot hkind hthere).round hvalid hround hkind hthere
  have hlinks : ∀ f ∈ s.program.files, ∀ sp ∈ requestsOf f.parsed, ∀ t,
      answer f.path sp.text = some t → Source.kindOf? t ≠ none → Covered s' t :=
    fun f hf sp hsp t ht hkind =>
      (h.links f hf sp hsp t ht hkind).round hvalid hround hkind (htargets _ _ t ht)
  cases hround with
  | known => exact ⟨h.visited, fun q hq => h.pending q (List.mem_cons_of_mem _ hq), hroots, hlinks⟩
  | foreign =>
    exact ⟨h.visited, fun q hq => h.pending q (List.mem_cons_of_mem _ hq), hroots, hlinks⟩
  | absent => exact ⟨h.visited, fun q hq => h.pending q (List.mem_cons_of_mem _ hq), hroots, hlinks⟩
  | @loaded l isRoot rest p cache hnew hkind hread =>
    have hthere : isMissing disk l.path = false := by simp [isMissing, hread]
    have hreach : Reach disk roots answer l.path :=
      h.pending _ List.mem_cons_self (by simp [hkind]) hthere
    have hmem (q : Request) := mem_follow (q := q) hvalid.cache
      fun f hf => hagrees f (List.mem_append_right _ hf)
    refine ⟨?_, ?_, hroots, ?_⟩
    · intro f hf
      rcases List.mem_append.mp hf with hf | hf
      · exact h.visited f hf
      · obtain rfl := List.mem_singleton.mp hf
        exact hreach
    · intro q hq hqkind hqthere
      rcases List.mem_append.mp hq with hq | hq
      · exact h.pending q (List.mem_cons_of_mem _ hq) hqkind hqthere
      · obtain ⟨_, sp, hsp, hanswer⟩ := (hmem q).mp hq
        exact .request hreach hkind hread hsp hanswer hqkind
    · intro f hf sp hsp t ht htkind
      rcases List.mem_append.mp hf with hf | hf
      · exact hlinks f hf sp hsp t ht htkind
      · obtain rfl := List.mem_singleton.mp hf
        have hasked : (⟨t, false⟩ : Request) ∈ follow (linksOf r disk l cache).1 :=
          (hmem _).mpr ⟨rfl, sp, hsp, ht⟩
        exact Or.inr ⟨_, List.mem_append_right _ hasked, rfl⟩

theorem closing_start (disk : Disk) (roots : List Path) (answer : Path → String → Option Path) :
    Closing disk roots answer (.start roots) := by
  refine ⟨by simp [Loading.start], ?_, ?_, by simp [Loading.start]⟩
  · intro q hq hkind hthere
    obtain ⟨root, hroot, rfl⟩ := List.mem_map.mp hq
    exact .root hroot hkind hthere
  · intro root hroot _ _
    exact Or.inr ⟨_, List.mem_map_of_mem hroot, rfl⟩

/-! ### The order of files -/

/-- Whether there is a file at a path, of a kind that is known. -/
def isThere (disk : Disk) (q : Path) : Bool :=
  (Source.kindOf? q).isSome && (disk.read q).toOption.isSome

/-- Whether a file of a kind that is known is missing. -/
def isAbsent (disk : Disk) (q : Path) : Bool := (Source.kindOf? q).isSome && isMissing disk q

/-- The files that requests name and that are there. -/
def thereIn (disk : Disk) (taken : List Request) : List Path :=
  (taken.map (·.path)).filter (isThere disk)

/-- The root files that requests name and that are missing. -/
def absentIn (disk : Disk) (taken : List Request) : List Path :=
  ((taken.filter (·.isRoot)).map (·.path)).filter (isAbsent disk)

/-- The requests that were taken so far tell the files and their order; the root files were asked
for first. -/
structure Ordered (disk : Disk) (roots : List Path) (taken : List Request) (s : Loading) :
    Prop where
  requests : ∃ linked, taken ++ s.queue = (Loading.start roots).queue ++ linked ∧
    ∀ q ∈ linked, q.isRoot = false
  files : s.program.files.map (·.path) = (thereIn disk taken).eraseDups
  absent : s.program.absentRoots = absentIn disk taken

theorem thereIn_concat (disk : Disk) (taken : List Request) (q : Request) :
    thereIn disk (taken ++ [q]) =
      thereIn disk taken ++ if isThere disk q.path then [q.path] else [] := by
  rw [thereIn, List.map_append, List.filter_append, List.map_singleton, List.filter_singleton,
    Bool.cond_eq_ite]
  rfl

theorem absentIn_concat (disk : Disk) (taken : List Request) (q : Request) :
    absentIn disk (taken ++ [q]) =
      absentIn disk taken ++ if q.isRoot && isAbsent disk q.path then [q.path] else [] := by
  rw [absentIn, List.filter_append, List.map_append, List.filter_append]
  cases hroot : q.isRoot <;> simp [absentIn, hroot, List.filter_singleton]

theorem eraseDups_concat_of_mem {l : List Path} {x : Path} (h : x ∈ l) :
    (l ++ [x]).eraseDups = l.eraseDups := by
  rw [List.eraseDups_append]
  simp [List.removeAll, h]

theorem eraseDups_concat_of_not_mem {l : List Path} {x : Path} (h : x ∉ l) :
    (l ++ [x]).eraseDups = l.eraseDups ++ [x] := by
  rw [List.eraseDups_append]
  simp [List.removeAll, h, List.eraseDups_cons]

theorem IsMember.isThere (h : IsMember r disk A f) : isThere disk f.path = true := by
  simp [Program.isThere, h.kind, h.read, Except.toOption]

theorem isAbsent_of_read {q : Path} {text : String} (h : disk.read q = .ok text) :
    isAbsent disk q = false := by
  simp [isAbsent, isMissing, h]

theorem isRoot_of_mem_follow {links : List (String × Option Path)} {q : Request}
    (h : q ∈ follow links) : q.isRoot = false := by
  obtain ⟨x, _, ht⟩ := List.mem_filterMap.mp h
  obtain ⟨t, _, rfl⟩ := Option.map_eq_some_iff.mp ht
  rfl

theorem Ordered.mem_thereIn {taken : List Request} (h : Ordered disk roots taken s) {q : Path} :
    q ∈ thereIn disk taken ↔ ∃ f ∈ s.program.files, f.path = q := by
  rw [← List.mem_eraseDups, ← h.files, List.mem_map]

/-- A request is passed over when its file is not there or is loaded. -/
theorem Ordered.pass {taken rest : List Request} {q : Request} {p : Program} {cache : PackageCache}
    (h : Ordered disk roots taken ⟨q :: rest, p, cache⟩)
    (hthere : isThere disk q.path = true → ∃ f ∈ p.files, f.path = q.path) {missing : List Path}
    (hmissing : missing =
      p.absentRoots ++ if q.isRoot && isAbsent disk q.path then [q.path] else []) :
    Ordered disk roots (taken ++ [q]) ⟨rest, ⟨p.files, missing⟩, cache⟩ := by
  refine ⟨?_, ?_, ?_⟩
  · obtain ⟨linked, hqueue, hlinked⟩ := h.requests
    refine ⟨linked, ?_, hlinked⟩
    rw [List.append_assoc, List.singleton_append]
    exact hqueue
  · rw [thereIn_concat]
    split
    · rename_i hq
      rw [eraseDups_concat_of_mem (h.mem_thereIn.mpr (hthere hq))]
      exact h.files
    · rw [List.append_nil]
      exact h.files
  · rw [absentIn_concat, ← h.absent]
    exact hmissing

/-- A file that is loaded comes after the files that were. -/
theorem Ordered.load {taken rest : List Request} {q : Request} {p : Program}
    {cache cache' : PackageCache} (h : Ordered disk roots taken ⟨q :: rest, p, cache⟩)
    (hthere : isThere disk q.path = true) (habsent : isAbsent disk q.path = false)
    (hpath : f.path = q.path) (hnew : ∀ f ∈ p.files, f.path ≠ q.path)
    (links : List (String × Option Path)) :
    Ordered disk roots (taken ++ [q])
      ⟨rest ++ follow links, ⟨p.files ++ [f], p.absentRoots⟩, cache'⟩ := by
  refine ⟨?_, ?_, ?_⟩
  · obtain ⟨linked, hqueue, hlinked⟩ := h.requests
    refine ⟨linked ++ follow links, ?_, ?_⟩
    · rw [List.append_assoc, List.singleton_append, ← List.append_assoc, ← hqueue,
        List.append_assoc, List.cons_append]
    · intro q hq
      rcases List.mem_append.mp hq with hq | hq
      · exact hlinked q hq
      · exact isRoot_of_mem_follow hq
  · have hmem : q.path ∉ thereIn disk taken := by
      intro hmem
      obtain ⟨f, hf, hsame⟩ := h.mem_thereIn.mp hmem
      exact hnew f hf hsame
    rw [thereIn_concat, if_pos hthere, eraseDups_concat_of_not_mem hmem, ← h.files,
      List.map_append, List.map_singleton, hpath]
  · rw [absentIn_concat, habsent, Bool.and_false, if_neg Bool.false_ne_true, List.append_nil]
    exact h.absent

theorem Ordered.round {taken : List Request} (hvalid : Valid r disk A s)
    (h : Ordered disk roots taken s) (hround : Round r disk s s') :
    ∃ q, Ordered disk roots (taken ++ [q]) s' := by
  cases hround with
  | @known q rest p cache hknown =>
    obtain ⟨f, hf, hparts⟩ := hknown
    have hnormal := hvalid.normal q List.mem_cons_self
    have hpath := (hvalid.members f hf).normal.eq_of_parts hnormal hparts
    have hread := (hvalid.members f hf).read
    rw [hpath] at hread
    exact ⟨q, h.pass (fun _ => ⟨f, hf, hpath⟩) (by simp [isAbsent_of_read hread])⟩
  | @foreign q rest p cache hkind =>
    exact ⟨q, h.pass (by simp [isThere, hkind]) (by simp [isAbsent, hkind])⟩
  | @absent q rest p cache hkind hread =>
    have habsent : isAbsent disk q.path = true := by
      rw [isAbsent, isMissing_iff.mpr ⟨_, hread⟩, Option.isSome_iff_ne_none.mpr hkind]
      rfl
    refine ⟨q, h.pass (by simp [isThere, hread, Except.toOption]) ?_⟩
    cases q.isRoot <;> simp [habsent]
  | @loaded l isRoot rest p cache hnew hkind hread =>
    have hthere : isThere disk l.path = true := by simp [isThere, hkind, hread, Except.toOption]
    exact ⟨⟨l.path, isRoot⟩, h.load hthere (isAbsent_of_read hread) rfl
      (fun f hf hpath => hnew f hf (congrArg Path.parts hpath)) _⟩

theorem ordered_start (disk : Disk) (roots : List Path) :
    Ordered disk roots [] (.start roots) := ⟨⟨[], by simp⟩, rfl, rfl⟩

/-- When all requests were taken, the root files stand first and the others are no root files. -/
theorem Ordered.rootsFirst {taken : List Request} {p : Program} {cache : PackageCache}
    (h : Ordered disk roots taken ⟨[], p, cache⟩) :
    (∃ others, p.files.map (·.path) =
        ((roots.map Path.normalize).filter (isThere disk)).eraseDups ++ others ∧
      ∀ q ∈ others, q ∉ roots.map Path.normalize) ∧
    p.absentRoots = (roots.map Path.normalize).filter (isAbsent disk) := by
  obtain ⟨⟨linked, htaken, hlinked⟩, hfiles, habsent⟩ := h
  rw [List.append_nil] at htaken
  have hpaths : (Loading.start roots).queue.map (·.path) = roots.map Path.normalize := by
    simp [Loading.start, Function.comp_def]
  constructor
  · rw [thereIn, htaken, List.map_append, List.filter_append, hpaths, List.eraseDups_append]
      at hfiles
    refine ⟨_, hfiles, ?_⟩
    intro q hq hroot
    rw [List.mem_eraseDups] at hq
    simp only [List.removeAll, List.mem_filter, Bool.not_eq_true', List.elem_eq_mem,
      decide_eq_false_iff_not, not_and] at hq
    exact hq.2 hroot hq.1.2
  · rw [habsent, absentIn, htaken, List.filter_append]
    have hroots : (Loading.start roots).queue.filter (·.isRoot) = (Loading.start roots).queue := by
      rw [List.filter_eq_self]
      intro q hq
      obtain ⟨root, _, rfl⟩ := List.mem_map.mp hq
      rfl
    have hnone : linked.filter (·.isRoot) = [] := by
      rw [List.filter_eq_nil_iff]
      intro q hq
      simp [hlinked q hq]
    rw [hroots, hnone, List.append_nil, hpaths]

/-! ### Programs -/

/-- A program that holds what can be reached from its root files, and where each file leads. -/
structure IsClosure (disk : Disk) (roots : List Path) (answer : Path → String → Option Path)
    (p : Program) : Prop where
  distinct : DistinctPaths p.files
  index : ∀ (path : Path) (i : Nat) (f : ProgramMember), p.files[i]? = some f →
    (p.file? path = some f ↔ f.path.parts = path.parts)
  reach : ∀ q, (∃ f ∈ p.files, f.path = q) ↔ Reach disk roots answer q
  rootsFirst : ∃ others, p.files.map (·.path) =
      ((roots.map Path.normalize).filter (isThere disk)).eraseDups ++ others ∧
    ∀ q ∈ others, q ∉ roots.map Path.normalize
  absentRoots : p.absentRoots = (roots.map Path.normalize).filter (isAbsent disk)
  links : Agrees answer p.files

theorem DistinctPaths.file?_eq_some {p : Program} (h : DistinctPaths p.files) {path : Path}
    (hf : f ∈ p.files) : p.file? path = some f ↔ f.path.parts = path.parts := by
  constructor
  · intro hfind
    exact Path.same_iff.mp (List.find?_some (p := fun g : ProgramMember => g.path.same path) hfind)
  · intro hparts
    cases hfind : p.file? path with
    | none =>
      have hnone := List.find?_eq_none.mp hfind f hf
      exact False.elim (hnone (Path.same_iff.mpr hparts))
    | some g =>
      have hsame : g.path.same path = true :=
        List.find?_some (p := fun g : ProgramMember => g.path.same path) hfind
      have he := (Path.same_iff.mp hsame).trans hparts.symm
      rw [h.eq_of_parts (List.mem_of_find?_eq_some hfind) hf he]

/-- What the files of a program have found for their specifiers, and a search of its own for all
others. -/
def recorded (r : Resolver) (disk : Disk) (files : List ProgramMember) (path : Path)
    (specifier : String) : Option Path :=
  ((files.find? fun f => f.path = path).bind fun f => f.links.get? specifier).getD
    (r.answer disk path specifier)

theorem recorded_isAnswer {files : List ProgramMember} (h : ∀ f ∈ files, IsMember r disk A f)
    (path : Path) (specifier : String) : IsTarget disk (recorded r disk files path specifier) ∧
      ∃ cache, Kept disk (fun _ => True) cache ∧
        recorded r disk files path specifier = ((r.resolve disk specifier path).run cache).1 := by
  unfold recorded
  cases hfind : (files.find? fun f => f.path = path).bind fun f => f.links.get? specifier with
  | none =>
    have hsearch : Resolver.Steady disk (fun _ => True) (r.resolve disk specifier path)
        (IsTarget disk) := Resolver.steady_resolve fun _ _ => trivial
    exact ⟨hsearch.answer [] Kept.nil, [], Kept.nil, rfl⟩
  | some target =>
    obtain ⟨f, hf, hlink⟩ := Option.bind_eq_some_iff.mp hfind
    have hpath : f.path = path := by simpa using List.find?_some hf
    obtain ⟨links, hlinks, hanswered, _⟩ := (h f (List.mem_of_find?_eq_some hf)).links
    rw [hlinks] at hlink
    have hmem := (Dictionary.get?_ofList_iff hanswered.once).mp hlink
    obtain ⟨htarget, cache, hcache, hanswer⟩ := hanswered.answers _ hmem
    rw [hpath] at hanswer
    exact ⟨htarget, cache, hcache.mono fun _ _ => trivial, hanswer⟩

theorem agrees_recorded {files : List ProgramMember} (hdistinct : DistinctPaths files)
    (h : ∀ f ∈ files, IsMember r disk A f) : Agrees (recorded r disk files) files := by
  intro f hf sp hsp
  obtain ⟨links, hlinks, hanswered, hlinked⟩ := (h f hf).links
  have hkey : sp.text ∈ links.map Prod.fst := (hlinked sp.text).mpr (Or.inr ⟨sp, hsp, rfl⟩)
  obtain ⟨⟨key, target⟩, hmem, rfl⟩ := List.mem_map.mp hkey
  have hget := (Dictionary.get?_ofList_iff hanswered.once).mpr hmem
  have hfind : files.find? (fun g => g.path = f.path) = some f := by
    cases hfind : files.find? fun g => g.path = f.path with
    | none =>
      have hnone := List.find?_eq_none.mp hfind f hf
      simp at hnone
    | some g =>
      have hpath : g.path = f.path := by simpa using List.find?_some hfind
      rw [hdistinct.eq_of_parts (List.mem_of_find?_eq_some hfind) hf (congrArg Path.parts hpath)]
  rw [recorded, hfind, Option.bind_some, hlinks, hget, Option.getD_some]

theorem IsMember.link_eq_answer (h : IsMember r disk A f) (huniform : Uniform disk A)
    {text : String} (hasked : ∀ folder ∈ r.asked disk text f.path, A folder) {target : Option Path}
    (hlink : f.links.get? text = some target) : target = r.answer disk f.path text := by
  obtain ⟨links, hlinks, hanswered, _⟩ := h.links
  rw [hlinks] at hlink
  have hmem := (Dictionary.get?_ofList_iff hanswered.once).mp hlink
  obtain ⟨_, cache, hcache, hanswer⟩ := hanswered.answers _ hmem
  exact hanswer.trans ((Resolver.steady_resolve hasked).same huniform cache [] hcache Kept.nil)

theorem Covered.loaded {p : Program} {cache : PackageCache} {q : Path}
    (h : Covered ⟨[], p, cache⟩ q) : ∃ f ∈ p.files, f.path = q := by
  rcases h with hloaded | ⟨x, hx, _⟩
  · exact hloaded
  · cases hx

theorem Closing.reach_iff {p : Program} {cache : PackageCache}
    (hvalid : Valid r disk A ⟨[], p, cache⟩)
    (h : Closing disk roots answer ⟨[], p, cache⟩) (q : Path) :
    (∃ f ∈ p.files, f.path = q) ↔ Reach disk roots answer q := by
  constructor
  · rintro ⟨f, hf, rfl⟩
    exact h.visited f hf
  · intro hreach
    induction hreach with
    | root hroot hkind hthere => exact (h.roots _ hroot hkind hthere).loaded
    | @request l sp t _ hkind hread hsp hanswer htarget ih =>
      obtain ⟨f, hf, hpath⟩ := ih
      have hmember := hvalid.members f hf
      have htext : f.source.text = l.text := by
        have hboth := hmember.read
        rw [hpath, hread] at hboth
        exact (Except.ok.inj hboth).symm
      have hkinds : f.kind = l.kind := by
        have hboth := hmember.kind
        rw [hpath, hkind] at hboth
        exact (Option.some.inj hboth).symm
      rw [← htext, ← hkinds, ← hmember.parsed] at hsp
      rw [← hpath] at hanswer
      exact (h.links f hf sp hsp t hanswer htarget).loaded

/-- What holds when loading is over. -/
structure Finished (r : Resolver) (disk : Disk) (roots : List Path)
    (answer : Path → String → Option Path) (s : Loading) : Prop where
  valid : Valid r disk (AskedBy r disk s.program.files) s
  answers : ∀ path text, ∃ cache, Kept disk (fun _ => True) cache ∧
    answer path text = ((r.resolve disk text path).run cache).1
  agrees : Agrees answer s.program.files
  closing : Closing disk roots answer s
  ordered : ∃ taken, Ordered disk roots taken s

theorem load_finished (disk : Disk) (roots : List Path) (options : Options) :
    ∃ answer last, ReflTransGen (Round (.ofOptions options) disk) (.start roots) last ∧
      Ends disk last (load disk roots options) ∧
      Finished (.ofOptions options) disk roots answer last := by
  obtain ⟨last, hrun, hends⟩ := load_ends disk roots options
  have hmembers := Valid.rounds hrun (valid_start roots)
  have hanswer := recorded_isAnswer hmembers.members
  have hagrees := agrees_recorded hmembers.distinct hmembers.members
  generalize recorded (.ofOptions options) disk last.program.files = answer at hanswer hagrees
  have htargets (path : Path) (text : String) (t : Path) (ht : answer path text = some t) :
      isMissing disk t = false := by
    rw [← Bool.not_eq_true, isMissing_iff]
    rintro ⟨x, hread⟩
    exact ((hanswer path text).1 t ht).2 x hread
  obtain ⟨_, hclosing, hordered⟩ : Valid (.ofOptions options) disk (fun _ => True) last ∧
      Closing disk roots answer last ∧ ∃ taken, Ordered disk roots taken last := by
    refine rounds_invariant (I := fun s => Valid (.ofOptions options) disk (fun _ => True) s ∧
      Closing disk roots answer s ∧ ∃ taken, Ordered disk roots taken s) ?_ hrun
      ⟨valid_start roots, closing_start disk roots answer, [], ordered_start disk roots⟩
    rintro s s' hround hsub ⟨hvalid, hclosing, taken, hordered⟩
    obtain ⟨q, hordered'⟩ := hordered.round hvalid hround
    exact ⟨hvalid.round hround fun _ _ => trivial,
      hclosing.round hvalid hround (fun f hf => hagrees f (hsub hf)) htargets, _, hordered'⟩
  exact ⟨answer, last, hrun, hends, hmembers, fun path text => (hanswer path text).2, hagrees,
    hclosing, hordered⟩

/-- Loading always comes to an end. It fails if and only if a file that can be reached cannot be
read. If it does not fail, the program holds the files that can be reached, each of them once, the
root files first, and each link is what the search for it has found. -/
theorem load_closure (disk : Disk) (roots : List Path) (options : Options) :
    ∃ answer : Path → String → Option Path,
      (∀ path text, ∃ cache, Kept disk (fun _ => True) cache ∧
        answer path text = (((Resolver.ofOptions options).resolve disk text path).run cache).1) ∧
      (∃ last, ReflTransGen (Round (.ofOptions options) disk) (.start roots) last ∧
        Ends disk last (load disk roots options)) ∧
      (∀ e, load disk roots options = .error e → ∃ q, Reach disk roots answer q ∧
        disk.read q = .error e ∧ ∀ x, e ≠ .notFound x) ∧
      (∀ q e, Reach disk roots answer q → disk.read q = .error e → (∀ x, e ≠ .notFound x) →
        ∃ e', load disk roots options = .error e') ∧
      ∀ p, load disk roots options = .ok p → IsClosure disk roots answer p ∧
        (Uniform disk (AskedBy (.ofOptions options) disk p.files) → ∀ f ∈ p.files,
          ∀ sp ∈ requestsOf f.parsed,
            answer f.path sp.text = (Resolver.ofOptions options).answer disk f.path sp.text) := by
  obtain ⟨answer, last, hrun, hends, hfinished⟩ := load_finished disk roots options
  obtain ⟨hvalid, hanswers, hagrees, hclosing, taken, hordered⟩ := hfinished
  refine ⟨answer, hanswers, ⟨last, hrun, hends⟩, ?_⟩
  generalize load disk roots options = result at hends ⊢
  cases hends with
  | @failed q rest p cache e hkind hread herror =>
    refine ⟨?_, fun _ _ _ _ _ => ⟨e, rfl⟩, by simp⟩
    rintro _ ⟨⟩
    have hthere := isMissing_of_error hread herror
    exact ⟨q.path, hclosing.pending q List.mem_cons_self hkind hthere, hread, herror⟩
  | @done p cache =>
    have hreach := hclosing.reach_iff hvalid
    refine ⟨by simp, ?_, ?_⟩
    · intro q e hq hread _
      obtain ⟨f, hf, rfl⟩ := (hreach q).mpr hq
      cases hread.symm.trans (hvalid.members f hf).read
    · rintro _ ⟨⟩
      obtain ⟨hfirst, habsent⟩ := hordered.rootsFirst
      refine ⟨⟨hvalid.distinct, ?_, hreach, hfirst, habsent, hagrees⟩, ?_⟩
      · intro path i f hf
        exact hvalid.distinct.file?_eq_some (List.mem_of_getElem? hf)
      · intro huniform f hf sp hsp
        exact (hvalid.members f hf).link_eq_answer huniform
          (fun folder hfolder => ⟨f, hf, sp, hsp, hfolder⟩) (hagrees f hf sp hsp)

/-- Two files that ask for each other, one of them also for a file that is not there. -/
def ringDisk : Disk :=
  .ofTexts [("a.ts", "export * from './b'; export * from './gone'"),
    ("b.ts", "export * from './a'")]

def ringRoots : List Path := [⟨"/a.ts"⟩, ⟨"/none.ts"⟩, ⟨"/./a.ts"⟩, ⟨"/notes.md"⟩]

theorem load_closure_ring : ∃ p answer, load ringDisk ringRoots ∅ = .ok p ∧
    p.files.map (·.path) = [⟨"/a.ts"⟩, ⟨"/b.ts"⟩] ∧ IsClosure ringDisk ringRoots answer p ∧
    Reach ringDisk ringRoots answer ⟨"/b.ts"⟩ ∧ ¬ Reach ringDisk ringRoots answer ⟨"/none.ts"⟩ := by
  have hfacts : (load ringDisk ringRoots ∅).toOption.map (fun p => p.files.map (·.path)) =
      some [⟨"/a.ts"⟩, ⟨"/b.ts"⟩] := by decide +kernel
  obtain ⟨p, hload, hpaths⟩ := exists_of_toOption_map hfacts
  obtain ⟨answer, _, _, _, _, hclosure⟩ := load_closure ringDisk ringRoots ∅
  have hp := (hclosure p hload).1
  have hreach (q : Path) : q ∈ p.files.map (·.path) ↔ Reach ringDisk ringRoots answer q := by
    rw [List.mem_map]
    exact hp.reach q
  refine ⟨p, answer, hload, hpaths, hp, (hreach _).mp ?_, fun hnone => ?_⟩
  · rw [hpaths]
    decide
  · have hmem := (hreach _).mpr hnone
    rw [hpaths] at hmem
    exact absurd hmem (by decide)

end TypeOnly.Program
