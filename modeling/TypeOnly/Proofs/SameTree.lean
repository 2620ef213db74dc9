import TypeOnly.Module.Resolver

/-!
Disks that differ only in the contents of files. Finding modules looks at which files and folders
there are and at the descriptions of packages, so that it finds the same on both.
-/

namespace TypeOnly

set_option autoImplicit false

/-- The same files and folders are on two disks. -/
structure SamePlaces (d d' : Disk) : Prop where
  locations : d'.entries.map Prod.fst = d.entries.map Prod.fst
  folders : ∀ loc, d'.isFolderAt loc = d.isFolderAt loc

/-- The same files and folders are on two disks, and the same packages are described on them. -/
structure SameTree (d d' : Disk) : Prop extends SamePlaces d d' where
  packages : ∀ folder, Resolver.readPackage d' folder = Resolver.readPackage d folder

variable {d d' d'' : Disk}

theorem SamePlaces.refl (d : Disk) : SamePlaces d d := ⟨rfl, fun _ => rfl⟩

theorem SamePlaces.trans (h : SamePlaces d d') (h' : SamePlaces d' d'') : SamePlaces d d'' where
  locations := h'.locations.trans h.locations
  folders := fun loc => (h'.folders loc).trans (h.folders loc)

theorem SameTree.refl (d : Disk) : SameTree d d := ⟨SamePlaces.refl d, fun _ => rfl⟩

theorem SameTree.trans (h : SameTree d d') (h' : SameTree d' d'') : SameTree d d'' where
  toSamePlaces := h.toSamePlaces.trans h'.toSamePlaces
  packages := fun folder => (h'.packages folder).trans (h.packages folder)

/-! ### Files and folders -/

namespace SamePlaces

theorem isSome_get? (h : SamePlaces d d') (loc : Location) :
    (d'.get? loc).isSome = (d.get? loc).isSome := by
  cases loc with
  | nil => rfl
  | cons s loc =>
    have hmem (e : Disk) : (e.get? (s :: loc)).isSome = true ↔
        s :: loc ∈ e.entries.map Prod.fst := by
      simp only [Disk.get?, List.lookup_isSome_iff, List.mem_map, beq_iff_eq]
      constructor
      · rintro ⟨x, hx, he⟩
        exact ⟨x, hx, he.symm⟩
      · rintro ⟨x, hx, he⟩
        exact ⟨x, hx, he.symm⟩
    rw [Bool.eq_iff_iff, hmem, hmem, h.locations]

theorem walk_eq (h : SamePlaces d d') (loc : Location) (segments : List String) :
    d'.walk loc segments = d.walk loc segments := by
  induction segments generalizing loc with
  | nil => rfl
  | cons s rest ih => simp only [Disk.walk, h.folders, h.isSome_get?, ih]

theorem find_eq (h : SamePlaces d d') (p : Path) : d'.find p = d.find p := by
  simp only [Disk.find, h.walk_eq]

theorem isFolder_eq (h : SamePlaces d d') : d'.isFolder = d.isFolder := by
  funext p
  unfold Disk.isFolder Disk.entry?
  rw [h.find_eq]
  cases d.find p with
  | error o => rfl
  | ok loc => exact h.folders loc

theorem isFile_eq (h : SamePlaces d d') : d'.isFile = d.isFile := by
  have hfile (e : Disk) (p : Path) : e.isFile p = ((e.entry? p).isSome && !e.isFolder p) := by
    unfold Disk.isFile Disk.isFolder
    rcases e.entry? p with _ | _ | _ <;> simp
  have hsome (p : Path) : (d'.entry? p).isSome = (d.entry? p).isSome := by
    unfold Disk.entry?
    rw [h.find_eq]
    cases d.find p with
    | error o => rfl
    | ok loc => exact h.isSome_get? loc
  funext p
  rw [hfile, hfile, hsome, h.isFolder_eq]

theorem list_eq (h : SamePlaces d d') : d'.list = d.list := by
  have hnames (e : Disk) (loc : Location) : e.namesIn loc =
      (e.entries.map Prod.fst).filterMap fun l =>
        if l.dropLast = loc then l.getLast? else none := by
    simp only [Disk.namesIn, List.filterMap_map]
    rfl
  funext p
  unfold Disk.list
  rw [h.find_eq]
  cases d.find p with
  | error o => rfl
  | ok loc => simp only [h.folders, hnames, h.locations]

end SamePlaces

/-! ### Modules -/

namespace SameTree

variable (r : Resolver)

theorem loadFile_eq (h : SameTree d d') : r.loadFile d' = r.loadFile d := by
  funext p
  simp only [Resolver.loadFile, h.isFile_eq]

theorem packageIn_eq (h : SameTree d d') : Resolver.packageIn d' = Resolver.packageIn d := by
  funext folder cache
  simp only [Resolver.packageIn, h.packages]

theorem loadFolder_eq (h : SameTree d d') : r.loadFolder d' = r.loadFolder d := by
  have hentry : r.loadEntry d' = r.loadEntry d := by
    funext folder entry
    simp only [Resolver.loadEntry, Resolver.indexFile, h.loadFile_eq, h.isFolder_eq]
  funext folder
  simp only [Resolver.loadFolder, Resolver.loadMain, Resolver.indexFile, hentry, h.loadFile_eq,
    h.isFolder_eq, h.packageIn_eq]

theorem load_eq (h : SameTree d d') : r.load d' = r.load d := by
  funext p
  simp only [Resolver.load, h.loadFile_eq, h.loadFolder_eq]

theorem packageFile_eq (h : SameTree d d') : r.packageFile d' = r.packageFile d := by
  funext folder subpath
  simp only [Resolver.packageFile, h.packageIn_eq, h.loadFile_eq, h.load_eq]

theorem resolve_eq (h : SameTree d d') : r.resolve d' = r.resolve d := by
  have hnamed : r.loadNamed d' = r.loadNamed d := by
    funext specifier folder
    simp only [Resolver.loadNamed, Resolver.packageFolders, h.load_eq, h.packageFile_eq,
      h.isFolder_eq]
  funext specifier containing
  simp only [Resolver.resolve, h.load_eq, hnamed]

theorem typesFrom_eq (h : SameTree d d') (root : Path) (names : List String) :
    r.typesFrom d' root names = r.typesFrom d root names := by
  induction names with
  | nil => rfl
  | cons name rest ih =>
    funext taken
    simp only [Resolver.typesFrom, h.loadFolder_eq, ih]

theorem automaticTypes_eq (h : SameTree d d') : r.automaticTypes d' = r.automaticTypes d := by
  have hall (roots : List Path) : r.typesFromAll d' roots = r.typesFromAll d roots := by
    induction roots with
    | nil => rfl
    | cons root rest ih =>
      funext taken
      simp only [Resolver.typesFromAll, Resolver.typeNames, h.isFolder_eq, h.list_eq,
        h.typesFrom_eq, ih]
  funext folder
  simp only [Resolver.automaticTypes, hall]

end SameTree

end TypeOnly
