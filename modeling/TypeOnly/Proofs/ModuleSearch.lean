import TypeOnly.Proofs.DictionaryLookup
import TypeOnly.Proofs.DiskPaths
import TypeOnly.Proofs.LoadedPrograms

/-!
What a search for a module can rely on. It remembers each package as it was read, it finds only
files that are there, and what it finds depends on what is remembered only where a package reads
differently under two spellings of its folder.
-/

namespace TypeOnly

set_option autoImplicit false

namespace Resolver

open Source (typeScriptExtensions moduleExtensions javaScriptExtensions)

/-! ### Descriptions of packages -/

/-- Whether the description of the package in a folder can be asked for under this path. -/
def Short (folder : Path) : Prop :=
  (folder.child "package.json").text.utf8ByteSize ≤ Disk.maxPath

instance (folder : Path) : Decidable (Short folder) := inferInstanceAs (Decidable (_ ≤ _))

theorem readPackage_eq_bind (disk : Disk) (folder : Path) : readPackage disk folder =
    (disk.read (folder.child "package.json")).toOption.bind Package.ofText? := by
  unfold readPackage
  cases disk.read (folder.child "package.json") <;> rfl

/-- The description of a package does not depend on the spelling of its folder, unless that is too
long. -/
theorem readPackage_eq {disk : Disk} {a b : Path} (h : a.parts = b.parts) (ha : Short a)
    (hb : Short b) : readPackage disk a = readPackage disk b := by
  have hname : "package.json".toList.head? ≠ some '/' := by decide
  have hslash : Text.splitOn '/' "package.json".toList = ["package.json".toList] := by decide
  have hsame := Path.isAbsolute_of_parts h
  have hfind : disk.find (a.child "package.json") = disk.find (b.child "package.json") := by
    cases hb' : b.isAbsolute with
    | true =>
      rw [Disk.find_child (hsame.trans hb') hname hslash ha, Disk.find_child hb' hname hslash hb, h]
    | false =>
      have hmissing (p : Path) (hp : p.isAbsolute = false) (hshort : Short p) :
          disk.find (p.child "package.json") = .error .missing := by
        rw [Disk.find, if_neg (Nat.not_lt.mpr hshort), Path.isAbsolute_child p hname, hp,
          if_neg (by simp)]
      rw [hmissing a (hsame.trans hb') ha, hmissing b hb' hb]
  rw [readPackage_eq_bind, readPackage_eq_bind, Disk.read_of_find_eq hfind]

/-! ### Searches -/

/-- A cache with packages from some folders, as they are read there. -/
def Kept (disk : Disk) (A : Path → Prop) (cache : PackageCache) : Prop :=
  ∀ x ∈ cache, A x.1 ∧ x.2 = readPackage disk x.1

/-- Folders whose packages read the same however they are spelled. -/
def Uniform (disk : Disk) (A : Path → Prop) : Prop :=
  ∀ a b, A a → A b → a.parts = b.parts → readPackage disk a = readPackage disk b

/-- A search in some folders: it keeps the cache in order, its answers have a property, and they
depend on the cache only where the folders are not uniform. -/
structure Steady (disk : Disk) (A : Path → Prop) {α : Type} (search : Search α) (Q : α → Prop) :
    Prop where
  answer : ∀ cache, Kept disk A cache → Q (search.run cache).1
  keeps : ∀ cache, Kept disk A cache → Kept disk A (search.run cache).2
  same : Uniform disk A → ∀ cache cache', Kept disk A cache → Kept disk A cache' →
    (search.run cache).1 = (search.run cache').1

variable {disk : Disk} {A B : Path → Prop} {α β : Type} {P Q : α → Prop} {R : β → Prop}

theorem Kept.nil : Kept disk A [] := by simp [Kept]

theorem Kept.mono {cache : PackageCache} (h : Kept disk A cache) (hsub : ∀ a, A a → B a) :
    Kept disk B cache := fun x hx => ⟨hsub _ (h x hx).1, (h x hx).2⟩

theorem Uniform.mono (h : Uniform disk B) (hsub : ∀ a, A a → B a) : Uniform disk A :=
  fun a b ha hb => h a b (hsub a ha) (hsub b hb)

theorem uniform_of_short (h : ∀ a, A a → Short a) : Uniform disk A :=
  fun a b ha hb hparts => readPackage_eq hparts (h a ha) (h b hb)

namespace Steady

theorem pure {a : α} (h : Q a) : Steady disk A (Pure.pure a) Q :=
  ⟨fun _ _ => h, fun _ hcache => hcache, fun _ _ _ _ _ => rfl⟩

theorem bind {search : Search α} {next : α → Search β} (h : Steady disk A search Q)
    (hnext : ∀ a, Q a → Steady disk A (next a) R) : Steady disk A (search >>= next) R := by
  refine ⟨?_, ?_, ?_⟩
  · intro cache hcache
    exact (hnext _ (h.answer cache hcache)).answer _ (h.keeps cache hcache)
  · intro cache hcache
    exact (hnext _ (h.answer cache hcache)).keeps _ (h.keeps cache hcache)
  · intro huniform cache cache' hcache hcache'
    have hfirst := h.same huniform cache cache' hcache hcache'
    have hsecond := (hnext _ (h.answer cache hcache)).same huniform _ _ (h.keeps cache hcache)
      (h.keeps cache' hcache')
    rw [hfirst] at hsecond
    change ((next (search.run cache).1).run (search.run cache).2).1 =
      ((next (search.run cache').1).run (search.run cache').2).1
    rw [hfirst]
    exact hsecond

theorem mono {search : Search α} (h : Steady disk A search P) (hPQ : ∀ a, P a → Q a) :
    Steady disk A search Q := ⟨fun cache hcache => hPQ _ (h.answer cache hcache), h.keeps, h.same⟩

end Steady

theorem steady_packageIn {folder : Path} (h : A folder) :
    Steady disk A (packageIn disk folder) fun _ => True := by
  -- what is remembered was read under another spelling
  have hcases (cache : PackageCache) (hcache : Kept disk A cache) :
      (∃ other, A other ∧ other.parts = folder.parts ∧
        (packageIn disk folder).run cache = (readPackage disk other, cache)) ∨
      (packageIn disk folder).run cache =
        (readPackage disk folder, (folder, readPackage disk folder) :: cache) := by
    cases hfind : cache.find? fun x => x.1.same folder with
    | some x =>
      obtain ⟨hother, hread⟩ := hcache x (List.mem_of_find?_eq_some hfind)
      have hsame : x.1.same folder = true :=
        List.find?_some (p := fun y : Path × Option Package => y.1.same folder) hfind
      refine Or.inl ⟨x.1, hother, Path.same_iff.mp hsame, ?_⟩
      rw [← hread]
      simp only [StateT.run, packageIn, hfind]
    | none =>
      refine Or.inr ?_
      simp only [StateT.run, packageIn, hfind]
  refine ⟨fun _ _ => trivial, ?_, ?_⟩
  · intro cache hcache
    rcases hcases cache hcache with ⟨_, _, _, hrun⟩ | hrun
    · rw [hrun]
      exact hcache
    · rw [hrun]
      intro x hx
      rcases List.mem_cons.mp hx with rfl | hx
      · exact ⟨h, rfl⟩
      · exact hcache x hx
  · intro huniform cache cache' hcache hcache'
    have hread (c : PackageCache) (hc : Kept disk A c) :
        ((packageIn disk folder).run c).1 = readPackage disk folder := by
      rcases hcases c hc with ⟨other, hother, hparts, hrun⟩ | hrun
      · rw [hrun]
        exact huniform other folder hother h hparts
      · rw [hrun]
    rw [hread cache hcache, hread cache' hcache']

/-! ### Files that are found -/

/-- An answer is a file that is there. -/
def IsFound (disk : Disk) (answer : Option Path) : Prop := ∀ t ∈ answer, disk.isFile t = true

variable {r : Resolver}

theorem isFound_none : IsFound disk none := by simp [IsFound]

theorem isFound_loadFile (r : Resolver) (disk : Disk) (p : Path) :
    IsFound disk (r.loadFile disk p) := fun _ ht => List.find?_some ht

theorem isFound_findSome? {l : List α} {f : α → Option Path} (h : ∀ a, IsFound disk (f a)) :
    IsFound disk (l.findSome? f) := by
  intro t ht
  obtain ⟨a, _, ha⟩ := List.exists_of_findSome?_eq_some ht
  exact h a t ha

theorem IsFound.or {a b : Option Path} (ha : IsFound disk a) (hb : IsFound disk b) :
    IsFound disk (a.or b) := by
  intro t ht
  cases a with
  | none => exact hb t ht
  | some x => exact ha t ht

theorem isFound_loadMain (r : Resolver) (disk : Disk) (folder : Path) (package : Option Package) :
    IsFound disk (r.loadMain disk folder package) := by
  apply IsFound.or
  · apply isFound_findSome?
    intro entry
    apply (isFound_loadFile r disk _).or
    split
    · exact isFound_loadFile r disk _
    · exact isFound_none
  · exact isFound_loadFile r disk _

theorem steady_loadFolder {folder : Path} (h : A folder) :
    Steady disk A (r.loadFolder disk folder) (IsFound disk) := by
  unfold loadFolder
  split
  · exact Steady.pure isFound_none
  · apply (steady_packageIn h).bind
    intro package _
    exact Steady.pure (isFound_loadMain r disk folder package)

theorem steady_load {p : Path} (h : A p) : Steady disk A (r.load disk p) (IsFound disk) := by
  unfold load
  cases hfile : r.loadFile disk p with
  | some file =>
    apply Steady.pure
    rw [← hfile]
    exact isFound_loadFile r disk p
  | none => exact steady_loadFolder h

theorem steady_firstOf {f : α → Search (Option Path)} {l : List α}
    (h : ∀ a ∈ l, Steady disk A (f a) (IsFound disk)) :
    Steady disk A (firstOf f l) (IsFound disk) := by
  induction l with
  | nil => exact Steady.pure isFound_none
  | cons a l ih =>
    apply (h a List.mem_cons_self).bind
    intro answer hanswer
    cases answer with
    | some file => exact Steady.pure hanswer
    | none => exact ih fun b hb => h b (List.mem_cons_of_mem a hb)

/-- The folders in which a path inside a package is looked for. -/
def askedIn (subpath : String) (folder : Path) : List Path :=
  folder :: (Text.dropStart? "./" subpath).toList.map folder.child

theorem steady_packageFile {folder : Path} {subpath : String}
    (h : ∀ dir ∈ askedIn subpath folder, A dir) :
    Steady disk A (r.packageFile disk folder subpath) (IsFound disk) := by
  have hfolder := h folder List.mem_cons_self
  apply (steady_packageIn hfolder).bind
  intro package _
  cases package.bind Package.exports with
  | some exports =>
    exact Steady.pure (isFound_findSome? fun file => isFound_loadFile r disk _)
  | none =>
    cases hinside : Text.dropStart? "./" subpath with
    | none => exact steady_load hfolder
    | some inside => exact steady_load (h _ (by simp [askedIn, hinside]))

/-- The folders in which a package can be looked for on the way to a module. -/
def asked (r : Resolver) (disk : Disk) (specifier : String) (containing : Path) : List Path :=
  let folder := containing.parent?.getD ⟨"/"⟩
  if startsWithDots specifier || Path.isAbsolute ⟨specifier⟩ then [folder.locate ⟨specifier⟩]
  else
    r.mapped specifier ++ r.baseUrl.toList.map (fun base => base.child specifier) ++
      (packageFolders disk (splitSpecifier specifier).1 folder).flatMap
        (askedIn (splitSpecifier specifier).2)

theorem steady_loadNamed {specifier : String} {folder : Path}
    (hmapped : ∀ p ∈ r.mapped specifier, A p)
    (hbase : ∀ base ∈ r.baseUrl.toList, A (base.child specifier))
    (hpackages : ∀ dir ∈ packageFolders disk (splitSpecifier specifier).1 folder,
      ∀ p ∈ askedIn (splitSpecifier specifier).2 dir, A p) :
    Steady disk A (r.loadNamed disk specifier folder) (IsFound disk) := by
  apply (steady_firstOf fun p hp => steady_load (hmapped p hp)).bind
  intro answer hanswer
  cases answer with
  | some file => exact Steady.pure hanswer
  | none =>
    apply (steady_firstOf fun base hb => steady_load (hbase base hb)).bind
    intro answer hanswer
    cases answer with
    | some file => exact Steady.pure hanswer
    | none => exact steady_firstOf fun dir hdir => steady_packageFile (hpackages dir hdir)

theorem read_of_isFile {p : Path} (h : disk.isFile p = true) (q : Path) :
    disk.read p.normalize ≠ .error (.notFound q) := by
  obtain ⟨loc, bytes, hfind, hget⟩ : ∃ loc bytes, disk.find p = .ok loc ∧
      disk.get? loc = some (.file bytes) := by
    unfold Disk.isFile Disk.entry? at h
    cases hfind : disk.find p with
    | error o => simp [hfind] at h
    | ok loc =>
      rw [hfind] at h
      cases hget : disk.get? loc with
      | none => simp [hget] at h
      | some e =>
        cases e with
        | folder => simp [hget] at h
        | file bytes => exact ⟨loc, bytes, rfl, hget⟩
  have hbytes : disk.readBytes p.normalize = .ok bytes := by
    simp only [Disk.readBytes, Disk.find_normalize hfind, hget]
  intro hread
  unfold Disk.read at hread
  rw [hbytes] at hread
  simp only [bind, Except.bind] at hread
  cases htext : String.fromUTF8? bytes with
  | none =>
    rw [htext] at hread
    cases hread
  | some s =>
    rw [htext] at hread
    cases hread

/-- An answer is a path in normal form at which there is something to read. -/
def IsTarget (disk : Disk) (answer : Option Path) : Prop :=
  ∀ t ∈ answer, t.IsNormal ∧ ∀ q, disk.read t ≠ .error (.notFound q)

theorem steady_resolve {specifier : String} {containing : Path}
    (h : ∀ folder ∈ r.asked disk specifier containing, A folder) :
    Steady disk A (r.resolve disk specifier containing) (IsTarget disk) := by
  have hnormal {search : Search (Option Path)} (hsearch : Steady disk A search (IsFound disk)) :
      Steady disk A (search >>= fun file => pure (file.map Path.normalize)) (IsTarget disk) := by
    apply hsearch.bind
    intro file hfile
    apply Steady.pure
    intro t ht
    obtain ⟨q, hq, rfl⟩ := Option.map_eq_some_iff.mp ht
    exact ⟨⟨q, rfl⟩, read_of_isFile (hfile q hq)⟩
  unfold asked at h
  unfold resolve
  dsimp only at h ⊢
  split
  · rename_i hpath
    rw [if_pos hpath] at h
    exact hnormal (steady_load (h _ List.mem_cons_self))
  · rename_i hpath
    rw [if_neg hpath] at h
    apply hnormal
    apply steady_loadNamed
    · intro p hp
      exact h p (List.mem_append_left _ (List.mem_append_left _ hp))
    · intro base hbase
      exact h _ (List.mem_append_left _ (List.mem_append_right _ (List.mem_map_of_mem hbase)))
    · intro dir hdir p hp
      exact h p (List.mem_append_right _ (List.mem_flatMap.mpr ⟨dir, hdir, hp⟩))

/-- What a search of its own finds for a specifier. -/
def answer (r : Resolver) (disk : Disk) (path : Path) (specifier : String) : Option Path :=
  ((r.resolve disk specifier path).run []).1

/-! ### Long paths -/

/-- What a path can stand for is not shorter than the path. -/
theorem size_le_of_mem_candidates {p c : Path} (h : c ∈ r.candidates p) :
    p.text.utf8ByteSize ≤ c.text.utf8ByteSize := by
  have htable : ∀ x ∈ substitutes, ∀ e ∈ x.2, x.1.utf8ByteSize ≤ e.utf8ByteSize := by decide
  unfold candidates at h
  rcases List.mem_append.mp h with h | h
  · rcases List.mem_append.mp h with h | h
    · obtain ⟨x, hx, h⟩ := List.mem_flatMap.mp h
      dsimp only at h
      split at h
      · rename_i stem hstem
        obtain ⟨e, he, rfl⟩ := List.mem_map.mp h
        have hsize := htable x hx e he
        rw [Text.eq_append_of_dropEnd? hstem, String.utf8ByteSize_append,
          String.utf8ByteSize_append]
        omega
      · simp at h
    · split at h
      · exact Nat.le_of_eq (by rw [List.mem_singleton.mp h])
      · simp at h
  · obtain ⟨e, _, rfl⟩ := List.mem_map.mp h
    rw [String.utf8ByteSize_append]
    omega

theorem loadFile_of_long {p : Path} (h : Disk.maxPath < p.text.utf8ByteSize) :
    r.loadFile disk p = none := by
  apply List.find?_eq_none.mpr
  intro c hc
  have hlong := Nat.lt_of_lt_of_le h (size_le_of_mem_candidates hc)
  simp [Disk.isFile, Disk.entry?_of_long hlong]

/-- The endings that make a path stand for other files, or for itself. -/
def endings : List String :=
  substitutes.map Prod.fst ++
    (typeScriptExtensions ++ moduleExtensions ++ javaScriptExtensions)

theorem mem_candidates_of_plain {p c : Path}
    (hends : ∀ e ∈ endings, Text.endsWith e p.text = false) (hc : c ∈ r.candidates p) :
    ∃ e ∈ typeScriptExtensions ++ (if r.allowJs then [".js", ".jsx"] else []),
      c = ⟨p.text ++ e⟩ := by
  unfold candidates at hc
  rcases List.mem_append.mp hc with hc | hc
  · rcases List.mem_append.mp hc with hc | hc
    · obtain ⟨x, hx, hc⟩ := List.mem_flatMap.mp hc
      have hnone : Text.dropEnd? x.1 p.text = none := by
        rw [Text.dropEnd?, hends _ (List.mem_append_left _ (List.mem_map_of_mem hx))]
        rfl
      simp [hnone] at hc
    · rw [if_neg] at hc
      · simp at hc
      · rw [List.any_eq_true]
        rintro ⟨e, he, hsuffix⟩
        rw [hends e (List.mem_append_right _ he)] at hsuffix
        cases hsuffix
  · obtain ⟨e, he, rfl⟩ := List.mem_map.mp hc
    exact ⟨e, he, rfl⟩

/-- A path without such an ending stands for no file where it leaves no room for an ending. -/
theorem loadFile_of_full {p : Path} (hends : ∀ e ∈ endings, Text.endsWith e p.text = false)
    (h : Disk.maxPath < p.text.utf8ByteSize + 3) : r.loadFile disk p = none := by
  have hadded : ∀ e ∈ typeScriptExtensions ++ (if r.allowJs then [".js", ".jsx"] else []),
      3 ≤ e.utf8ByteSize := by
    cases r.allowJs <;> decide
  apply List.find?_eq_none.mpr
  intro c hc
  obtain ⟨e, he, rfl⟩ := mem_candidates_of_plain hends hc
  have hlong : Disk.maxPath < (p.text ++ e).utf8ByteSize := by
    have hsize := hadded e he
    rw [String.utf8ByteSize_append]
    omega
  simp [Disk.isFile, Disk.entry?_of_long hlong]

end Resolver

namespace Program

open Resolver (Kept Uniform Steady IsTarget)
open Source (Specifier)

variable {r : Resolver} {disk : Disk} {A : Path → Prop} {path : Path}

/-- Links with one answer for each of their specifiers. -/
structure Answered (r : Resolver) (disk : Disk) (A : Path → Prop) (path : Path)
    (links : List (String × Option Path)) : Prop where
  once : (links.map Prod.fst).Nodup
  answers : ∀ x ∈ links, IsTarget disk x.2 ∧
    ∃ cache, Kept disk A cache ∧ x.2 = ((r.resolve disk x.1 path).run cache).1

/-- The specifiers of a list have links, next to those that were there. -/
def Linked (specifiers : List Specifier) (found links : List (String × Option Path)) : Prop :=
  ∀ key, key ∈ links.map Prod.fst ↔ key ∈ found.map Prod.fst ∨ ∃ s ∈ specifiers, s.text = key

theorem steady_resolveAll {specifiers : List Specifier} {found : List (String × Option Path)}
    (hasked : ∀ s ∈ specifiers, ∀ folder ∈ r.asked disk s.text path, A folder)
    (hfound : Answered r disk A path found) :
    Steady disk A (resolveAll r disk path specifiers found) fun links =>
      Answered r disk A path links ∧ Linked specifiers found links := by
  induction specifiers generalizing found with
  | nil => exact Steady.pure ⟨hfound, fun key => by simp⟩
  | cons s rest ih =>
    have hrest := fun x hx => hasked x (List.mem_cons_of_mem s hx)
    have hlookup : (found.lookup s.text).isSome = true ↔ s.text ∈ found.map Prod.fst := by
      rw [← not_iff_not, Bool.not_eq_true, Option.isSome_eq_false_iff, Option.isNone_iff_eq_none,
        List.lookup_eq_none_iff]
      simp only [bne_iff_ne, List.mem_map, not_exists, not_and]
      exact forall₂_congr fun x _ => ne_comm
    unfold resolveAll
    split
    · -- the specifier has its link already
      rename_i hold
      have hmem := hlookup.mp hold
      refine (ih hrest hfound).mono ?_
      rintro links ⟨hanswered, hlinked⟩
      refine ⟨hanswered, fun key => (hlinked key).trans ?_⟩
      constructor
      · rintro (hkey | ⟨x, hx, rfl⟩)
        · exact Or.inl hkey
        · exact Or.inr ⟨x, List.mem_cons_of_mem s hx, rfl⟩
      · rintro (hkey | ⟨x, hx, rfl⟩)
        · exact Or.inl hkey
        · rcases List.mem_cons.mp hx with rfl | hx
          · exact Or.inl hmem
          · exact Or.inr ⟨x, hx, rfl⟩
    · rename_i hnew
      have hsearch := Resolver.steady_resolve (hasked s List.mem_cons_self)
      have hnext : Steady disk A (r.resolve disk s.text path) fun target =>
          Answered r disk A path (found ++ [(s.text, target)]) := by
        refine ⟨?_, hsearch.keeps, hsearch.same⟩
        intro cache hcache
        refine ⟨?_, ?_⟩
        · rw [List.map_append, List.map_singleton, List.nodup_append]
          refine ⟨hfound.once, List.nodup_singleton _, ?_⟩
          rintro a ha b hb rfl
          obtain rfl := List.mem_singleton.mp hb
          exact hnew (hlookup.mpr ha)
        · intro x hx
          rcases List.mem_append.mp hx with hx | hx
          · exact hfound.answers x hx
          · obtain rfl := List.mem_singleton.mp hx
            exact ⟨hsearch.answer cache hcache, cache, hcache, rfl⟩
      apply hnext.bind
      intro target htarget
      refine (ih hrest htarget).mono ?_
      rintro links ⟨hanswered, hlinked⟩
      refine ⟨hanswered, fun key => (hlinked key).trans ?_⟩
      simp [or_assoc, eq_comm]

theorem steady_linksOf {l : Loaded}
    (hasked : ∀ s ∈ requestsOf (Source.readSource l.text l.kind),
      ∀ folder ∈ r.asked disk s.text l.path, A folder) :
    Steady disk A (linksOf r disk l) fun links => Answered r disk A l.path links ∧
      Linked (requestsOf (Source.readSource l.text l.kind)) [] links :=
  steady_resolveAll hasked ⟨List.nodup_nil, by simp⟩

end Program

end TypeOnly
