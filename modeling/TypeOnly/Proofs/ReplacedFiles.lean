import TypeOnly.Proofs.DiskPaths
import TypeOnly.Proofs.FileDrafts
import TypeOnly.Proofs.SameTree
import TypeOnly.Report

/-!
Putting a new text in the place of a source file changes nothing else on the disk: the same files
and folders are there, and the descriptions of packages are what they were.
-/

namespace TypeOnly

set_option autoImplicit false

theorem Source.kindOf?_packageJson {p : Path} (h : p.fileName? = some "package.json") :
    kindOf? p = none := by
  have hd : endsInOneOf p declarationExtensions = false := by
    simp only [endsInOneOf, h]
    decide +kernel
  have hs : p.suffix? = some "json" := by
    simp only [Path.suffix?, h]
    decide +kernel
  simp [kindOf?, hd, hs]

namespace Disk

variable {d d' : Disk}

/-- A file is replaced where it was read. -/
theorem replace_eq_put {p : Path} {text : String} {loc : Location} {bytes : ByteArray}
    (hfind : d.find p = .ok loc) (hget : d.get? loc = some (.file bytes))
    (h : FileSystem.replace d p text = .ok d') : d' = d.put loc (.file text.toUTF8) := by
  obtain ⟨init, name, folder, hsegments, hname, hinit, rfl⟩ :=
    walk_file (walk_of_find hfind) (not_isFolderAt hget)
  have htarget (loc : Location) (h : d.target p = .ok loc) : loc = folder ++ [name] := by
    obtain ⟨_, _, init', name', folder', hwritten, _, _, hwalk, _, _, rfl⟩ :=
      Draft.target_eq_ok_iff.mp h
    rw [Draft.written_of_segments hsegments hname.1] at hwritten
    obtain ⟨rfl, rfl⟩ := List.append_singleton_inj.mp hwritten
    rw [Except.ok.inj (hwalk.symm.trans hinit)]
  rw [replace_eq] at h
  cases hdraft : d.draftFolder p with
  | error o =>
    rw [hdraft] at h
    cases h
  | ok draft =>
    rw [hdraft] at h
    cases hloc : d.target p with
    | error o =>
      rw [hloc] at h
      cases h
    | ok loc =>
      rw [hloc] at h
      obtain rfl := htarget loc hloc
      exact (Except.ok.inj h).symm

theorem samePlaces_put {loc : Location} {old new : ByteArray} (hloc : loc ≠ [])
    (h : d.get? loc = some (.file old)) : SamePlaces d (d.put loc (.file new)) :=
  ⟨locations_put _ hloc h, isFolderAt_put _ hloc (not_isFolderAt h)⟩

theorem readBytes_put_of_ne {q : Path} {loc : Location} {old new : ByteArray} (hloc : loc ≠ [])
    (h : d.get? loc = some (.file old)) (hq : d.find q ≠ .ok loc) :
    (d.put loc (.file new)).readBytes q = d.readBytes q := by
  unfold readBytes
  rw [(samePlaces_put hloc h).find_eq]
  cases hfind : d.find q with
  | error o => cases o <;> rfl
  | ok loc' =>
    have hne : loc' ≠ loc := fun he => hq (he ▸ hfind)
    simp only [get?_put_of_ne _ hne]

theorem read_put_of_ne {q : Path} {loc : Location} {old new : ByteArray} (hloc : loc ≠ [])
    (h : d.get? loc = some (.file old)) (hq : d.find q ≠ .ok loc) :
    (d.put loc (.file new)).read q = d.read q := by
  simp only [read, readBytes_put_of_ne hloc h hq]

/-- The description of a package is no source file. -/
theorem find_packageJson_ne {p folder : Path} {loc : Location} {bytes : ByteArray}
    (hkind : Source.kindOf? p ≠ none) (hfind : d.find p = .ok loc)
    (hget : d.get? loc = some (.file bytes)) : d.find (folder.child "package.json") ≠ .ok loc := by
  intro hpackage
  have hfile := not_isFolderAt hget
  obtain ⟨init, name, _, hsegments, hname, _, hloc⟩ := walk_file (walk_of_find hfind) hfile
  obtain ⟨_, name', _, hsegments', _, _, hloc'⟩ := walk_file (walk_of_find hpackage) hfile
  obtain ⟨init', hchild, _⟩ := folder.segments_child "package.json" (by decide) (by decide)
  have hname' : name' = "package.json" := by
    rw [hsegments'] at hchild
    exact (List.append_singleton_inj.mp hchild).2
  have hlast : name = name' := (List.append_singleton_inj.mp (hloc ▸ hloc')).2
  apply hkind
  apply Source.kindOf?_packageJson
  rw [Path.fileName?_of_segments hsegments hname, hlast, hname']

/-- A new text in a source file leaves everything else on the disk as it is. -/
theorem replace_sameTree {p : Path} {text old : String} (hkind : Source.kindOf? p ≠ none)
    (hread : d.read p = .ok old) (h : FileSystem.replace d p text = .ok d') : SameTree d d' := by
  obtain ⟨loc, bytes, hfind, hget⟩ := find_of_read hread
  obtain ⟨_, _, _, _, _, _, hloc⟩ := walk_file (walk_of_find hfind) (not_isFolderAt hget)
  have hnil : loc ≠ [] := by simp [hloc]
  obtain rfl := replace_eq_put hfind hget h
  refine ⟨samePlaces_put hnil hget, ?_⟩
  intro folder
  unfold Resolver.readPackage
  rw [read_put_of_ne hnil hget (find_packageJson_ne hkind hfind hget)]

end Disk

end TypeOnly
