import TypeOnly.Proofs.FileVariants
import TypeOnly.Proofs.FileVariants
import TypeOnly.Proofs.MergedConfigs
import TypeOnly.Proofs.RememberedPackages

/-!
Packages of types that belong to every compilation. Folder after folder and name after name, a
package is taken where it is first found, and no name is taken twice.
-/

namespace TypeOnly

set_option autoImplicit false

namespace Resolver

/-- A package of types, the folder that it was taken from and its file. -/
structure TypePackage where
  root : Path
  name : String
  file : Path

def TypePackage.entry (x : TypePackage) : String × Path := (x.name, x.file)

/-- The file of a package of types in a folder, as a new resolver finds it. -/
def typeFile? (r : Resolver) (disk : Disk) (root : Path) (name : String) : Option Path :=
  ((r.loadFolder disk (root.child name)).run []).1

/-- Where packages of types are looked for, and under which names, in the order of the search. -/
def typeAttempts (r : Resolver) (disk : Disk) (folder : Path) : List (Path × String) :=
  ((r.typeFolders folder).filter disk.isFolder).flatMap fun root =>
    (r.typeNames disk root).map fun name => (root, name)

/-! ### First finds -/

section First

variable {file? : Path → String → Option Path} {tried : List (Path × String)}
  {taken : List TypePackage} {a : Path × String}

/-- Whether a package is looked for under a name and has a file. -/
def isFind (file? : Path → String → Option Path) (name : String) (a : Path × String) : Bool :=
  a.2 = name && (file? a.1 a.2).isSome

/-- Each name is taken once, where it is first found, and in the order of these places. -/
structure Taken (file? : Path → String → Option Path) (tried : List (Path × String))
    (taken : List TypePackage) : Prop where
  once : (taken.map TypePackage.name).Nodup
  first : ∀ x, x ∈ taken ↔ tried.find? (isFind file? x.name) = some (x.root, x.name) ∧
    file? x.root x.name = some x.file
  ordered : taken.Pairwise fun x y =>
    tried.idxOf (x.root, x.name) < tried.idxOf (y.root, y.name)

theorem isFind_iff {name : String} :
    isFind file? name a = true ↔ a.2 = name ∧ ∃ file, file? a.1 a.2 = some file := by
  rw [isFind, Bool.and_eq_true, decide_eq_true_eq, Option.isSome_iff_exists]

namespace Taken

theorem nil : Taken file? [] [] := by
  refine ⟨List.nodup_nil, fun x => ?_, List.Pairwise.nil⟩
  simp

/-- The names that are taken are those that are found at all. -/
theorem mem_names_iff (h : Taken file? tried taken) {name : String} :
    name ∈ taken.map TypePackage.name ↔ ∃ root file, (root, name) ∈ tried ∧
      file? root name = some file := by
  constructor
  · intro hname
    obtain ⟨x, hx, rfl⟩ := List.mem_map.mp hname
    obtain ⟨hfind, hfile⟩ := (h.first x).mp hx
    exact ⟨x.root, x.file, List.mem_of_find?_eq_some hfind, hfile⟩
  · rintro ⟨root, file, hmem, hfile⟩
    have hsome : (tried.find? (isFind file? name)).isSome = true :=
      List.find?_isSome.mpr ⟨_, hmem, isFind_iff.mpr ⟨rfl, file, hfile⟩⟩
    obtain ⟨⟨first, other⟩, hfind⟩ := Option.isSome_iff_exists.mp hsome
    obtain ⟨rfl, file', hfile'⟩ := isFind_iff.mp (List.find?_some hfind)
    exact List.mem_map.mpr ⟨⟨first, other, file'⟩, (h.first _).mpr ⟨hfind, hfile'⟩, rfl⟩

theorem mem_tried (h : Taken file? tried taken) {x : TypePackage} (hx : x ∈ taken) :
    (x.root, x.name) ∈ tried := List.mem_of_find?_eq_some ((h.first x).mp hx).1

theorem ordered_concat (h : Taken file? tried taken) : taken.Pairwise fun x y =>
    (tried ++ [a]).idxOf (x.root, x.name) < (tried ++ [a]).idxOf (y.root, y.name) := by
  apply h.ordered.imp_of_mem
  intro x y hx hy hlt
  rwa [List.idxOf_append_of_mem (h.mem_tried hx), List.idxOf_append_of_mem (h.mem_tried hy)]

/-- A look that finds nothing, or under a name that is taken, changes nothing. -/
theorem skip {root : Path} {name : String} (h : Taken file? tried taken)
    (hskip : name ∈ taken.map TypePackage.name ∨ file? root name = none) :
    Taken file? (tried ++ [(root, name)]) taken := by
  refine ⟨h.once, fun x => ?_, h.ordered_concat⟩
  have hfind : (tried ++ [(root, name)]).find? (isFind file? x.name) =
      tried.find? (isFind file? x.name) := by
    rw [List.find?_append]
    cases hlast : isFind file? x.name (root, name) with
    | false => simp [hlast]
    | true =>
      obtain ⟨rfl, file, hfile⟩ := isFind_iff.mp hlast
      -- then the name is one that was found before
      have hmem := hskip.resolve_right (by simp [hfile])
      obtain ⟨root', file', hmem, hfile'⟩ := h.mem_names_iff.mp hmem
      apply Option.or_of_isSome
      exact List.find?_isSome.mpr ⟨_, hmem, isFind_iff.mpr ⟨rfl, file', hfile'⟩⟩
  rw [hfind]
  exact h.first x

/-- A package that is found under a new name is taken. -/
theorem take {root file : Path} {name : String} (h : Taken file? tried taken)
    (hnew : name ∉ taken.map TypePackage.name) (hfile : file? root name = some file) :
    Taken file? (tried ++ [(root, name)]) (taken ++ [⟨root, name, file⟩]) := by
  have hlast : isFind file? name (root, name) = true := isFind_iff.mpr ⟨rfl, file, hfile⟩
  have hnone : tried.find? (isFind file? name) = none := by
    rw [List.find?_eq_none]
    intro b hb hfind
    obtain ⟨rfl, file', hfile'⟩ := isFind_iff.mp hfind
    exact hnew (h.mem_names_iff.mpr ⟨b.1, file', hb, hfile'⟩)
  refine ⟨?_, fun x => ?_, ?_⟩
  · rw [List.map_append]
    exact List.nodup_append.mpr ⟨h.once, List.nodup_singleton _, by simpa using hnew⟩
  · obtain ⟨root', name', file'⟩ := x
    rw [List.mem_append, List.mem_singleton, List.find?_append]
    dsimp only
    by_cases hname : name' = name
    · subst hname
      have hx : ⟨root', name', file'⟩ ∉ taken := fun hx => hnew (List.mem_map_of_mem hx)
      rw [hnone, Option.none_or, List.find?_singleton, if_pos hlast, or_iff_right hx]
      constructor
      · intro hsame
        cases hsame
        exact ⟨rfl, hfile⟩
      · rintro ⟨hplace, hfile'⟩
        cases hplace
        cases hfile.symm.trans hfile'
        rfl
    · have hother : isFind file? name' (root, name) = false := by
        rw [← Bool.not_eq_true, isFind_iff]
        exact fun hfind => hname hfind.1.symm
      have hx : (⟨root', name', file'⟩ : TypePackage) ≠ ⟨root, name, file⟩ :=
        fun hx => hname (congrArg TypePackage.name hx)
      rw [List.find?_singleton, hother, if_neg Bool.false_ne_true, Option.or_none,
        or_iff_left hx]
      exact h.first ⟨root', name', file'⟩
  · rw [List.pairwise_append]
    refine ⟨h.ordered_concat, List.pairwise_singleton _ _, ?_⟩
    intro x hx y hy
    have hplace : (root, name) ∉ tried := fun hmem => List.find?_eq_none.mp hnone _ hmem hlast
    rw [List.mem_singleton.mp hy, List.idxOf_append_of_mem (h.mem_tried hx),
      List.idxOf_append_of_notMem hplace, List.idxOf_cons_self, Nat.add_zero]
    exact List.idxOf_lt_length_of_mem (h.mem_tried hx)

end Taken

end First

/-! ### The search -/

section Search

variable {r : Resolver} {disk : Disk} {A : Path → Prop} (huniform : Uniform disk A)

include huniform

theorem loadFolder_eq_typeFile? {root : Path} {name : String} (h : A (root.child name))
    {cache : PackageCache} (hcache : Kept disk A cache) :
    ((r.loadFolder disk (root.child name)).run cache).1 = r.typeFile? disk root name :=
  (steady_loadFolder h).same huniform cache [] hcache Kept.nil

theorem typesFrom_taken {root : Path} {names : List String}
    (h : ∀ name ∈ names, A (root.child name)) {tried : List (Path × String)}
    {taken : List TypePackage} (htaken : Taken (r.typeFile? disk) tried taken)
    {cache : PackageCache} (hcache : Kept disk A cache) :
    ∃ taken', ((r.typesFrom disk root names (taken.map TypePackage.entry)).run cache).1 =
        taken'.map TypePackage.entry ∧
      Taken (r.typeFile? disk) (tried ++ names.map fun name => (root, name)) taken' := by
  induction names generalizing tried taken cache with
  | nil => exact ⟨taken, rfl, by simpa using htaken⟩
  | cons name rest ih =>
    replace ih := @ih fun x hx => h x (List.mem_cons_of_mem name hx)
    have hasked := h name List.mem_cons_self
    have hlookup : ((taken.map TypePackage.entry).lookup name).isSome = true ↔
        name ∈ taken.map TypePackage.name := by
      simp [List.lookup_isSome_iff, TypePackage.entry, @eq_comm _ name]
    rw [List.map_cons, List.append_cons]
    unfold typesFrom
    by_cases hname : name ∈ taken.map TypePackage.name
    · rw [if_pos (hlookup.mpr hname)]
      exact ih (htaken.skip (Or.inl hname)) hcache
    · have hfile :
          ((r.loadFolder disk (root.child name)).run cache).1 = r.typeFile? disk root name :=
        loadFolder_eq_typeFile? huniform hasked hcache
      have hkept : Kept disk A ((r.loadFolder disk (root.child name)).run cache).2 :=
        (steady_loadFolder hasked).keeps cache hcache
      rw [if_neg (mt hlookup.mp hname), StateT.run_bind]
      generalize (r.loadFolder disk (root.child name)).run cache = found at hfile hkept
      obtain ⟨answer, cache'⟩ := found
      dsimp only at hfile hkept
      cases answer with
      | none => exact ih (htaken.skip (Or.inr hfile.symm)) hkept
      | some file =>
        have hmore := ih (htaken.take hname hfile.symm) hkept
        rw [List.map_append] at hmore
        exact hmore

theorem typesFromAll_taken {roots : List Path}
    (h : ∀ root ∈ roots, disk.isFolder root = true → ∀ name ∈ r.typeNames disk root,
      A (root.child name)) {tried : List (Path × String)} {taken : List TypePackage}
    (htaken : Taken (r.typeFile? disk) tried taken) {cache : PackageCache}
    (hcache : Kept disk A cache) :
    ∃ taken', ((r.typesFromAll disk roots (taken.map TypePackage.entry)).run cache).1 =
        taken'.map TypePackage.entry ∧
      Taken (r.typeFile? disk) (tried ++ (roots.filter disk.isFolder).flatMap fun root =>
        (r.typeNames disk root).map fun name => (root, name)) taken' := by
  induction roots generalizing tried taken cache with
  | nil => exact ⟨taken, rfl, by simpa using htaken⟩
  | cons root rest ih =>
    replace ih := @ih fun x hx => h x (List.mem_cons_of_mem root hx)
    unfold typesFromAll
    by_cases hfolder : disk.isFolder root = true
    · have hnames := h root List.mem_cons_self hfolder
      have hkept :=
        (steady_typesFrom (r := r) hnames (taken.map TypePackage.entry)).keeps cache hcache
      obtain ⟨more, hmore, htaken'⟩ := typesFrom_taken huniform hnames htaken hcache
      rw [if_pos hfolder, List.filter_cons_of_pos hfolder, List.flatMap_cons, ← List.append_assoc]
      obtain ⟨all, hall, hlast⟩ := ih htaken' hkept
      refine ⟨all, ?_, hlast⟩
      rw [← hmore] at hall
      exact hall
    · rw [if_neg hfolder, List.filter_cons_of_neg hfolder]
      exact ih htaken hcache

end Search

/-! ### Names -/

theorem typesName_plain {package : String} (h : Text.beginsWith "@" package = false) :
    typesName package = package := by
  rw [typesName, Text.dropStart?, h]
  rfl

theorem typesName_scoped {scope rest : String} (h : '/' ∉ scope.toList) :
    typesName ("@" ++ (scope ++ "/" ++ rest)) = scope ++ "__" ++ rest := by
  have hbreak : Text.breakAt '/' (scope ++ "/" ++ rest).toList =
      some (scope.toList, rest.toList) := by
    rw [Text.breakAt_eq_some_iff]
    exact ⟨by simp [String.toList_append], h⟩
  rw [typesName, Text.dropStart?_append]
  dsimp only
  rw [Text.replaceFirst, hbreak]
  apply String.toList_injective
  simp [String.toList_append]

theorem typeNames_all {r : Resolver} (h : r.types = none) (disk : Disk) (root : Path) :
    (r.typeNames disk root).Pairwise (· ≤ ·) ∧ ∀ name, name ∈ r.typeNames disk root ↔
      name ∈ disk.list root ∧ disk.isFolder (root.child name) = true ∧
        Text.beginsWith "." name = false := by
  rw [typeNames, h]
  constructor
  · apply (List.pairwise_mergeSort ?_ ?_ _).imp
    · intro a b hle
      exact of_decide_eq_true hle
    · simpa using fun a b c => String.le_trans
    · simpa using fun a b => String.le_total a b
  · intro name
    rw [List.mem_mergeSort, List.mem_filter]
    simp

/-- Where packages read the same under all spellings of their folders, each package of types that is
found anywhere is taken once, from the first of the folders in which it has a file, whatever was
looked for before; the packages are ordered by folder and then by name. Their names are those that
the options give, as they are published, or those of the folders that are not hidden. -/
theorem automaticTypes_nearest {r : Resolver} {disk : Disk} {folder : Path} {A : Path → Prop}
    (hasked : ∀ dir ∈ r.askedTypes disk folder, A dir) (huniform : Uniform disk A)
    {cache : PackageCache} (hcache : Kept disk A cache) :
    (∃ taken : List TypePackage,
      ((r.automaticTypes disk folder).run cache).1 = taken.map (fun x => x.file.normalize) ∧
      Taken (r.typeFile? disk) (r.typeAttempts disk folder) taken ∧
      ∀ name, name ∈ taken.map TypePackage.name ↔ ∃ root file,
        (root, name) ∈ r.typeAttempts disk folder ∧ r.typeFile? disk root name = some file) ∧
    (∀ root name, (root, name) ∈ r.typeAttempts disk folder ↔
      root ∈ r.typeFolders folder ∧ disk.isFolder root = true ∧ name ∈ r.typeNames disk root) ∧
    (∀ packages, r.types = some packages → ∀ root,
      r.typeNames disk root = packages.map typesName) ∧
    (r.types = none → ∀ root, (r.typeNames disk root).Pairwise (· ≤ ·) ∧
      ∀ name, name ∈ r.typeNames disk root ↔ name ∈ disk.list root ∧
        disk.isFolder (root.child name) = true ∧ Text.beginsWith "." name = false) ∧
    (∀ package, Text.beginsWith "@" package = false → typesName package = package) ∧
    ∀ scope rest, '/' ∉ scope.toList →
      typesName ("@" ++ (scope ++ "/" ++ rest)) = scope ++ "__" ++ rest := by
  refine ⟨?_, ?_, ?_, fun h => typeNames_all h disk, fun _ => typesName_plain,
    fun _ _ => typesName_scoped⟩
  · have hroots : ∀ root ∈ r.typeFolders folder, disk.isFolder root = true →
        ∀ name ∈ r.typeNames disk root, A (root.child name) := by
      intro root hroot hfolder name hname
      exact hasked _ (child_mem_askedTypes hroot hfolder hname)
    obtain ⟨taken, hrun, htaken⟩ := typesFromAll_taken huniform hroots Taken.nil hcache
    refine ⟨taken, ?_, htaken, fun name => htaken.mem_names_iff⟩
    have hfiles := congrArg (List.map fun x => x.2.normalize) hrun
    rw [List.map_map] at hfiles
    exact hfiles
  · intro root name
    simp [typeAttempts, and_assoc]
  · intro packages hpackages root
    rw [typeNames, hpackages]

/-! ### Two folders -/

/-- In the first folder one of the packages has no file. -/
def typesDisk : Disk :=
  ⟨[(["x"], .folder), (["x", "pkg"], .folder), (["x", "a__b"], .folder),
    (["x", "a__b", "index.d.ts"], .file "".toUTF8), (["y"], .folder), (["y", "pkg"], .folder),
    (["y", "pkg", "index.d.ts"], .file "".toUTF8), (["y", "a__b"], .folder),
    (["y", "a__b", "index.d.ts"], .file "".toUTF8)]⟩

def typesResolver : Resolver :=
  ⟨none, [], none, false, some [⟨"/x"⟩, ⟨"/none"⟩, ⟨"/y"⟩], some ["pkg", "@a/b", "pkg"]⟩

theorem automaticTypes_nearest_two : ∃ taken : List TypePackage,
    Taken (typesResolver.typeFile? typesDisk) (typesResolver.typeAttempts typesDisk ⟨"/"⟩) taken ∧
    taken.map (fun x => x.file.normalize) = [⟨"/x/a__b/index.d.ts"⟩, ⟨"/y/pkg/index.d.ts"⟩] := by
  have hfacts :
      ((typesResolver.askedTypes typesDisk ⟨"/"⟩).all fun dir => decide (Short dir)) = true ∧
      ((typesResolver.automaticTypes typesDisk ⟨"/"⟩).run []).1 =
        [⟨"/x/a__b/index.d.ts"⟩, ⟨"/y/pkg/index.d.ts"⟩] := by decide +kernel
  have huniform : Uniform typesDisk (· ∈ typesResolver.askedTypes typesDisk ⟨"/"⟩) := by
    apply uniform_of_short
    intro dir hdir
    exact of_decide_eq_true (List.all_eq_true.mp hfacts.1 dir hdir)
  obtain ⟨⟨taken, hrun, htaken, _⟩, _⟩ :=
    automaticTypes_nearest (fun _ hdir => hdir) huniform Kept.nil
  exact ⟨taken, htaken, hrun.symm.trans hfacts.2⟩

/-! ### One folder under two paths -/

open Program (packageDisk LongTop longTop_slashes)

/-- A resolver that looks for a package of types in a folder, and then in the top folder. -/
def longTypes (base : Path) : Resolver := ⟨none, [], none, false, some [base, ⟨"/"⟩], some ["pkg"]⟩

theorem typesFrom_nothing {r : Resolver} {disk : Disk} {root : Path} {name : String}
    {cache cache' : PackageCache}
    (h : (r.loadFolder disk (root.child name)).run cache = (none, cache')) :
    (r.typesFrom disk root [name] []).run cache = ([], cache') := by
  unfold typesFrom
  rw [if_neg (by simp), StateT.run_bind, h]
  rfl

theorem typesFromAll_cons {r : Resolver} {disk : Disk} {root : Path} {roots : List Path}
    {taken taken' : List (String × Path)} {cache cache' : PackageCache}
    (hfolder : disk.isFolder root = true)
    (h : (r.typesFrom disk root (r.typeNames disk root) taken).run cache = (taken', cache')) :
    (r.typesFromAll disk (root :: roots) taken).run cache =
      (r.typesFromAll disk roots taken').run cache' := by
  rw [typesFromAll, if_pos hfolder, StateT.run_bind, h]
  rfl

theorem isFolder_long {base : Path} (h : LongTop base) : packageDisk.isFolder base = true := by
  have hchild := h.isFolder_child
  rw [Disk.isFolder, Disk.entry?] at hchild
  cases hfind : packageDisk.find (base.child "pkg") with
  | error o =>
    rw [hfind] at hchild
    cases hchild
  | ok loc => exact Disk.isFolder_of_find_child h.last (by decide) hfind

theorem typeAttempts_long {base : Path} (h : LongTop base) :
    (longTypes base).typeAttempts packageDisk ⟨"/"⟩ = [(base, "pkg"), (⟨"/"⟩, "pkg")] := by
  have hfolders : [base, ⟨"/"⟩].filter packageDisk.isFolder = [base, ⟨"/"⟩] := by
    rw [List.filter_cons_of_pos (isFolder_long h), List.filter_cons_of_pos (by decide)]
    rfl
  change ([base, ⟨"/"⟩].filter packageDisk.isFolder).flatMap _ = _
  rw [hfolders]
  rfl

theorem automaticTypes_long {base : Path} (h : LongTop base) :
    (((longTypes base).automaticTypes packageDisk ⟨"/"⟩).run []).1 = [] := by
  have hlong : ((longTypes base).typesFrom packageDisk base ["pkg"] []).run [] =
      ([], [(base.child "pkg", none)]) :=
    typesFrom_nothing (Program.loadFolder_name h _ (Or.inl rfl) (Program.packageIn_name h))
  have hshort : ((longTypes base).typesFrom packageDisk ⟨"/"⟩ ["pkg"] []).run
      [(base.child "pkg", none)] = ([], [(base.child "pkg", none)]) :=
    typesFrom_nothing (Program.loadFolder_place rfl (Or.inl rfl) (Program.packageIn_place_later h))
  have hall : ((longTypes base).typesFromAll packageDisk [base, ⟨"/"⟩] []).run [] =
      ([], [(base.child "pkg", none)]) := by
    rw [typesFromAll_cons (isFolder_long h) hlong, typesFromAll_cons (by decide) hshort]
    rfl
  exact congrArg (fun found => found.1.map fun x : String × Path => x.2.normalize) hall

/-- A package that has no file under a path of its folder that is too long is not found under the
other path either, where a new resolver finds it. -/
theorem long_path_hides_package :
    (((longTypes (.slashes 4091)).automaticTypes packageDisk ⟨"/"⟩).run []).1 = [] ∧
    (longTypes (.slashes 4091)).typeAttempts packageDisk ⟨"/"⟩ =
      [(.slashes 4091, "pkg"), (⟨"/"⟩, "pkg")] ∧
    (longTypes (.slashes 4091)).typeFile? packageDisk ⟨"/"⟩ "pkg" = some ⟨"/pkg/main.ts"⟩ := by
  refine ⟨automaticTypes_long longTop_slashes, typeAttempts_long longTop_slashes, ?_⟩
  have hchild : Path.child ⟨"/"⟩ "pkg" = ⟨"/pkg"⟩ := by decide
  rw [typeFile?, hchild, Program.loadFolder_place rfl (Or.inr rfl) Program.packageIn_place]
  rfl

end Resolver

end TypeOnly
