import TypeOnly.Edit
import TypeOnly.Proofs.LoadedPrograms

/-!
Indexes from paths to places in a list. Edit sets are gathered with one, from the paths of their
files to the sets, and a program is loaded with one, from paths to the files that it has so far.
What is looked up in such an index is what a search through the list finds first.
-/

namespace TypeOnly

set_option autoImplicit false

/-- Places in a list by paths, the newest first. Paths that say the same have the same place. -/
structure PathIndex where
  places : List (List Part × Nat)

namespace PathIndex

def empty : PathIndex := ⟨[]⟩

def get? (index : PathIndex) (p : Path) : Option Nat := index.places.lookup p.parts

def insert (index : PathIndex) (p : Path) (place : Nat) : PathIndex :=
  ⟨(p.parts, place) :: index.places⟩

theorem get?_insert (index : PathIndex) (p q : Path) (place : Nat) :
    (index.insert p place).get? q = if p.same q then some place else index.get? q := by
  by_cases h : p.same q = true
  · simp [get?, insert, h, Path.same_iff.mp h]
  · have hne : q.parts ≠ p.parts := fun he => h (Path.same_iff.mpr he.symm)
    simp [get?, insert, List.lookup_cons, beq_false_of_ne hne, h]

/-- For every path, the index holds the first place in the list that has this path. -/
def Indexes {α : Type} (index : PathIndex) (path : α → Path) (xs : List α) : Prop :=
  ∀ p, index.get? p = xs.findIdx? fun x => (path x).same p

namespace Indexes

variable {α : Type} {index : PathIndex} {path : α → Path} {xs : List α}

theorem empty (path : α → Path) : PathIndex.empty.Indexes path [] := fun _ => rfl

/-- A path that is not there yet comes with a place at the end. -/
theorem push (h : index.Indexes path xs) {x : α} (hnew : index.get? (path x) = none) :
    (index.insert (path x) xs.length).Indexes path (xs ++ [x]) := by
  intro p
  rw [get?_insert, h p, List.findIdx?_append]
  by_cases hp : (path x).same p = true
  · have hnone : xs.findIdx? (fun y => (path y).same p) = none := by
      rw [← h p, get?, ← Path.same_iff.mp hp]
      exact hnew
    simp [hp, hnone]
  · simp [hp]

theorem of_map {ys : List α} (h : index.Indexes path xs) (hpaths : ys.map path = xs.map path) :
    index.Indexes path ys := by
  have hmap (p : Path) (zs : List α) :
      (zs.findIdx? fun z => (path z).same p) = (zs.map path).findIdx? (·.same p) := by
    rw [List.findIdx?_map]
    rfl
  intro p
  rw [h p, hmap p xs, hmap p ys, hpaths]

theorem isSome_get? (h : index.Indexes path xs) (p : Path) :
    (index.get? p).isSome = xs.any fun x => (path x).same p := by
  rw [h p, List.findIdx?_isSome]

/-- What is at the place of a path is what a search finds. -/
theorem getElem?_get? (h : index.Indexes path xs) (p : Path) :
    ((index.get? p).bind fun place => xs[place]?) = xs.find? fun x => (path x).same p := by
  rw [h p, List.find?_eq_bind_findIdx?_getElem?]

end Indexes

end PathIndex

/-! ### Gathering edit sets -/

/-- Edit sets, and where the set of each file is among them. -/
structure IndexedSets where
  sets : List EditSet
  index : PathIndex

namespace IndexedSets

/-- The place of the set of a file, which is made if there is none. -/
def slotFor (t : IndexedSets) (file : SourceFile) : Nat × IndexedSets :=
  match t.index.get? file.path with
  | some slot => (slot, t)
  | none => (t.sets.length, ⟨t.sets ++ [⟨file, [], []⟩], t.index.insert file.path t.sets.length⟩)

def gather (t : IndexedSets) (d : Diagnostic) : IndexedSets :=
  match Repair.ofCode? d.code, d.file with
  | some repair, some file =>
    let (slot, t) := t.slotFor file
    let i : Insertion := ⟨d.span.start, EditSet.marker, repair⟩
    { t with sets := t.sets.modify slot (·.add i d.quotedText) }
  | _, _ => t

def ofDiagnostics (ds : List Diagnostic) : IndexedSets := ds.foldl gather ⟨[], .empty⟩

end IndexedSets

namespace EditSet

theorem modify_concat (sets : List EditSet) (s : EditSet) (f : EditSet → EditSet) :
    (sets ++ [s]).modify sets.length f = sets ++ [f s] := by
  induction sets with
  | nil => rfl
  | cons t sets ih => simp [ih]

theorem map_path_modify (sets : List EditSet) (slot : Nat) (i : Insertion) (name : String) :
    (sets.modify slot (·.add i name)).map path = sets.map path := by
  induction sets generalizing slot with
  | nil => simp
  | cons s sets ih =>
    cases slot with
    | zero => simp [add, path]
    | succ slot => simp [ih]

theorem addTo_eq_modify (file : SourceFile) (i : Insertion) (name : String) (sets : List EditSet) :
    addTo file i name sets =
      match sets.findIdx? fun s => s.path.same file.path with
      | some slot => sets.modify slot (·.add i name)
      | none => sets ++ [⟨file, [i], [name]⟩] := by
  induction sets with
  | nil => rfl
  | cons s sets ih =>
    rw [addTo, ih, List.findIdx?_cons]
    by_cases hs : s.path.same file.path = true
    · simp [hs]
    · cases hrest : sets.findIdx? fun s => s.path.same file.path <;> simp [hs]

end EditSet

namespace IndexedSets

variable {t : IndexedSets}

theorem gather_ready (h : t.index.Indexes EditSet.path t.sets) (d : Diagnostic) :
    (t.gather d).sets = EditSet.gather t.sets d ∧
      (t.gather d).index.Indexes EditSet.path (t.gather d).sets := by
  unfold gather EditSet.gather
  cases hrepair : Repair.ofCode? d.code with
  | none => exact ⟨rfl, h⟩
  | some repair =>
    cases hfile : d.file with
    | none => exact ⟨rfl, h⟩
    | some file =>
      dsimp only
      rw [EditSet.addTo_eq_modify, ← h file.path, slotFor]
      cases hslot : t.index.get? file.path with
      | some slot => exact ⟨rfl, h.of_map (EditSet.map_path_modify _ _ _ _)⟩
      | none =>
        refine ⟨EditSet.modify_concat _ _ _, ?_⟩
        exact (h.push (x := ⟨file, [], []⟩) hslot).of_map (EditSet.map_path_modify _ _ _ _)

/-- Sets that are gathered with an index are the same. -/
theorem sets_ofDiagnostics (ds : List Diagnostic) :
    (ofDiagnostics ds).sets = EditSet.ofDiagnostics ds := by
  have hrun (t : IndexedSets) (h : t.index.Indexes EditSet.path t.sets) :
      (ds.foldl gather t).sets = ds.foldl EditSet.gather t.sets := by
    induction ds generalizing t with
    | nil => rfl
    | cons d ds ih =>
      obtain ⟨hsets, hindex⟩ := gather_ready h d
      rw [List.foldl_cons, List.foldl_cons, ih _ hindex, hsets]
  exact hrun _ (.empty _)

end IndexedSets

/-! ### Loading a program -/

namespace Program

/-- Passes over what need not or cannot be loaded, where the files that are there are looked up by
their paths. -/
def nextIndexed (disk : Disk) (byPath : PathIndex) :
    List Request → List Path → Except DiskError (Option (Loaded × List Request) × List Path)
  | [], missing => .ok (none, missing)
  | r :: rest, missing =>
    if (byPath.get? r.path).isSome then nextIndexed disk byPath rest missing
    else
      match Source.kindOf? r.path with
      | none => nextIndexed disk byPath rest missing
      | some kind =>
        match disk.read r.path with
        | .ok text => .ok (some (⟨r.path, kind, text⟩, rest), missing)
        | .error (.notFound p) =>
          nextIndexed disk byPath rest (if r.isRoot then missing ++ [p] else missing)
        | .error e => .error e

/-- Loads file after file, and keeps the places of their paths. -/
def loadIndexed (r : Resolver) (disk : Disk) :
    Nat → List Request → Program → PathIndex → PackageCache → Except DiskError (Program × PathIndex)
  | 0, _, p, byPath, _ => .ok (p, byPath)
  | steps + 1, queue, p, byPath, cache =>
    match nextIndexed disk byPath queue p.absentRoots with
    | .error e => .error e
    | .ok (none, missing) => .ok ({ p with absentRoots := missing }, byPath)
    | .ok (some (l, rest), missing) =>
      let (links, cache) := linksOf r disk l cache
      let asked := links.filterMap fun x => x.2.map fun t => ⟨t, false⟩
      loadIndexed r disk steps (rest ++ asked) ⟨p.files ++ [memberOf l links], missing⟩
        (byPath.insert l.path p.files.length) cache

variable {disk : Disk} {byPath : PathIndex} {p : Program}

theorem nextIndexed_eq {files : List ProgramMember}
    (h : byPath.Indexes ProgramMember.path files) (queue : List Request) (missing : List Path) :
    nextIndexed disk byPath queue missing = nextFile disk files queue missing := by
  induction queue generalizing missing with
  | nil => rfl
  | cons r rest ih =>
    have hrest : nextIndexed disk byPath rest = nextFile disk files rest := funext ih
    rw [nextIndexed, h.isSome_get?, hrest]
    rfl

/-- A program that is loaded with an index is the same, and the index leads to its files. -/
theorem loadIndexed_spec (r : Resolver) (disk : Disk) (steps : Nat) (queue : List Request)
    (cache : PackageCache) (h : byPath.Indexes ProgramMember.path p.files) :
    (loadIndexed r disk steps queue p byPath cache).map Prod.fst =
        loadFrom r disk steps queue p cache ∧
      ∀ p' byPath', loadIndexed r disk steps queue p byPath cache = .ok (p', byPath') →
        byPath'.Indexes ProgramMember.path p'.files := by
  induction steps generalizing queue p byPath cache with
  | zero =>
    refine ⟨rfl, ?_⟩
    intro p' byPath' hload
    cases hload
    exact h
  | succ steps ih =>
    rw [loadIndexed, nextIndexed_eq h]
    cases hnext : nextFile disk p.files queue p.absentRoots with
    | error e => exact ⟨by rw [loadFrom, hnext]; rfl, fun _ _ hload => by cases hload⟩
    | ok next =>
      obtain ⟨_ | ⟨l, rest⟩, missing⟩ := next
      · refine ⟨by rw [loadFrom, hnext]; rfl, ?_⟩
        intro p' byPath' hload
        cases hload
        exact h
      · rw [loadFrom_step hnext]
        have hnew : byPath.get? l.path = none := by
          have hfresh := (nextFile_spec hnext).1
          rw [← Option.isNone_iff_eq_none, ← Option.isSome_eq_false_iff, h.isSome_get?,
            List.any_eq_false]
          intro f hf hsame
          exact hfresh (List.mem_map.mpr ⟨f, hf, Path.same_iff.mp hsame⟩)
        exact ih _ _ (h.push (x := memberOf l (linksOf r disk l cache).1) hnew)

/-- The file at the place that the index has for a path is the file of that path. -/
theorem file?_eq_indexed {roots : List Path} {options : Options}
    (h : load disk roots options = .ok p) :
    ∃ byPath, loadIndexed (Resolver.ofOptions options) disk (2 * disk.entries.length + 1)
        (roots.map fun root => ⟨root.normalize, true⟩) ⟨[], []⟩ .empty [] = .ok (p, byPath) ∧
      ∀ path, ((byPath.get? path).bind fun place => p.files[place]?) = p.file? path := by
  obtain ⟨hprogram, hindex⟩ := loadIndexed_spec (Resolver.ofOptions options) disk
    (2 * disk.entries.length + 1) (roots.map fun root => ⟨root.normalize, true⟩) []
    (p := ⟨[], []⟩) (.empty _)
  rw [← load, h] at hprogram
  cases hload : loadIndexed (Resolver.ofOptions options) disk (2 * disk.entries.length + 1)
      (roots.map fun root => ⟨root.normalize, true⟩) ⟨[], []⟩ .empty [] with
  | error e =>
    rw [hload] at hprogram
    cases hprogram
  | ok loaded =>
    obtain ⟨p', byPath⟩ := loaded
    rw [hload] at hprogram
    obtain rfl := Except.ok.inj hprogram
    exact ⟨byPath, rfl, (hindex p' byPath hload).getElem?_get?⟩

end Program

end TypeOnly
