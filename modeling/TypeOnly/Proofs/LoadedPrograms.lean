import Mathlib.Data.List.Nodup
import TypeOnly.Program.Load
import TypeOnly.Proofs.DiskEntries
import TypeOnly.Proofs.PathSegments

/-!
What holds of every program that was loaded, whatever its root files.
-/

namespace TypeOnly

set_option autoImplicit false

namespace Program

variable {disk : Disk}

/-- A file that can be loaded next: it is not there yet, and was read and parsed. -/
structure Next (disk : Disk) (files : List ProgramMember) (f : ProgramMember) : Prop where
  fresh : f.path.parts ∉ files.map fun g => g.path.parts
  kind : Source.kindOf? f.path = some f.kind
  read : disk.read f.path = .ok f.source.text
  parsed : f.parsed = Source.readSource f.source.text f.kind

theorem nextFile_spec {loaded : List ProgramMember} {queue rest : List Request}
    {missing missing' : List Path} {l : Loaded}
    (h : nextFile disk loaded queue missing = .ok (some (l, rest), missing')) :
    (l.path.parts ∉ loaded.map fun f => f.path.parts) ∧ Source.kindOf? l.path = some l.kind ∧
      disk.read l.path = .ok l.text := by
  induction queue generalizing missing with
  | nil => simp [nextFile] at h
  | cons r queue ih =>
    unfold nextFile at h
    split at h
    · exact ih h
    · rename_i hfresh
      split at h
      · exact ih h
      · rename_i kind hkind
        split at h
        · rename_i text hread
          simp only [Except.ok.injEq, Prod.mk.injEq, Option.some.injEq] at h
          obtain ⟨⟨rfl, _⟩, _⟩ := h
          refine ⟨?_, hkind, hread⟩
          intro hmem
          obtain ⟨f, hf, he⟩ := List.mem_map.mp hmem
          exact hfresh (List.any_eq_true.mpr ⟨f, hf, Path.same_iff.mpr he⟩)
        · exact ih h
        · simp at h

def requestsOf (parsed : Source.SourceModule) : List Source.Specifier :=
  match parsed.outline with
  | some s => s.requests
  | none => []

def linksOf (r : Resolver) (disk : Disk) (l : Loaded) (cache : PackageCache) :
    List (String × Option Path) × PackageCache :=
  (resolveAll r disk l.path (requestsOf (Source.readSource l.text l.kind)) []).run cache

def memberOf (l : Loaded) (links : List (String × Option Path)) : ProgramMember :=
  ⟨⟨l.path, l.text⟩, l.kind, Source.readSource l.text l.kind, Dictionary.ofList links⟩

theorem loadFrom_step {r : Resolver} {queue rest : List Request} {p : Program} {l : Loaded}
    {missing : List Path}
    (h : nextFile disk p.files queue p.absentRoots = .ok (some (l, rest), missing))
    (steps : Nat) (cache : PackageCache) :
    loadFrom r disk (steps + 1) queue p cache =
      loadFrom r disk steps
        (rest ++ (linksOf r disk l cache).1.filterMap fun x => x.2.map fun t => ⟨t, false⟩)
        ⟨p.files ++ [memberOf l (linksOf r disk l cache).1], missing⟩
          (linksOf r disk l cache).2 := by
  rw [loadFrom, h]
  rfl

/-- What holds of the files at first, and still holds with one more, holds of all that are
loaded. -/
theorem loadFrom_invariant {I : List ProgramMember → Prop}
    (hnext : ∀ files f, I files → Next disk files f → I (files ++ [f])) {r : Resolver}
    {steps : Nat} {queue : List Request} {p p' : Program} {cache : PackageCache}
    (hp : I p.files) (h : loadFrom r disk steps queue p cache = .ok p') : I p'.files := by
  induction steps generalizing queue p cache with
  | zero => exact Except.ok.inj h ▸ hp
  | succ steps ih =>
    unfold loadFrom at h
    split at h
    · simp at h
    · exact Except.ok.inj h ▸ hp
    · rename_i l rest missing hl
      obtain ⟨hfresh, hkind, hread⟩ := nextFile_spec hl
      refine ih ?_ h
      exact hnext _ _ hp ⟨hfresh, hkind, hread, rfl⟩

/-- No two files have the same path. -/
def DistinctPaths (files : List ProgramMember) : Prop :=
  (files.map fun f => f.path.parts).Nodup

theorem DistinctPaths.next {files : List ProgramMember} {f : ProgramMember}
    (h : DistinctPaths files) (hf : Next disk files f) : DistinctPaths (files ++ [f]) := by
  simp only [DistinctPaths, List.map_append, List.map_cons, List.map_nil]
  apply List.nodup_append.mpr
  refine ⟨h, List.nodup_singleton _, ?_⟩
  intro a ha b hb
  obtain rfl := List.mem_singleton.mp hb
  rintro rfl
  exact hf.fresh ha

theorem load_distinct {roots : List Path} {options : Options} {p : Program}
    (h : load disk roots options = .ok p) : DistinctPaths p.files :=
  loadFrom_invariant (p := ⟨[], []⟩) (fun _ _ => DistinctPaths.next) List.nodup_nil h

theorem DistinctPaths.eq_of_parts {files : List ProgramMember} (h : DistinctPaths files)
    {f g : ProgramMember} (hf : f ∈ files) (hg : g ∈ files)
    (he : f.path.parts = g.path.parts) : f = g :=
  List.inj_on_of_nodup_map h hf hg he

/-- Every file is what the name says and the disk holds. -/
theorem load_next {roots : List Path} {options : Options} {p : Program}
    (h : load disk roots options = .ok p) : ∀ f ∈ p.files, ∃ files, Next disk files f := by
  have hstep (files : List ProgramMember) (f : ProgramMember)
      (hfiles : ∀ g ∈ files, ∃ others, Next disk others g) (hf : Next disk files f) :
      ∀ g ∈ files ++ [f], ∃ others, Next disk others g := by
    intro g hg
    rcases List.mem_append.mp hg with hg | hg
    · exact hfiles g hg
    · exact ⟨files, List.mem_singleton.mp hg ▸ hf⟩
  exact loadFrom_invariant (p := ⟨[], []⟩) hstep (by simp) h

end Program

end TypeOnly
