import TypeOnly.Proofs.FileOrder

/-!
What is told of a program does not depend on the order of its root files, nor on how often each of
them is named, as long as every package reads the same under all paths by which the files ask for
it.
-/

namespace TypeOnly

set_option autoImplicit false

open Relation (ReflTransGen)
open TypeOnly.Path (Slashed)
open Resolver (Kept Uniform Short)

namespace Program

/-! ### The same files from other root files -/

variable {r : Resolver} {disk : Disk} {roots : List Path} {p : Program} {cache : PackageCache}
  {answer : Path → String → Option Path}

/-- Loading stays within the files of another program. -/
structure Within (r : Resolver) (disk : Disk) (p : Program) (s : Loading) : Prop where
  valid : Valid r disk (AskedBy r disk p.files) s
  files : s.program.files ⊆ p.files
  queue : ∀ q ∈ s.queue, Source.kindOf? q.path ≠ none → isMissing disk q.path = false →
    ∃ f ∈ p.files, f.path = q.path

/-- A file that is loaded again, after others, is what it was. -/
theorem memberOf_eq (huniform : Uniform disk (AskedBy r disk p.files)) {f : ProgramMember}
    (hf : f ∈ p.files) (hmember : IsMember r disk (AskedBy r disk p.files) f) {l : Loaded}
    (hpath : f.path = l.path) (hkind : Source.kindOf? l.path = some l.kind)
    (hread : disk.read l.path = .ok l.text) {cache : PackageCache}
    (hcache : Kept disk (AskedBy r disk p.files) cache) :
    memberOf l (linksOf r disk l cache).1 = f := by
  obtain ⟨path, kind, text⟩ := l
  obtain rfl : f.path = path := hpath
  obtain rfl : f.kind = kind := Option.some.inj (hmember.kind.symm.trans hkind)
  obtain rfl : f.source.text = text := Except.ok.inj (hmember.read.symm.trans hread)
  have hrequests : ∀ sp ∈ requestsOf (Source.readSource f.source.text f.kind),
      ∀ folder ∈ r.asked disk sp.text f.path, AskedBy r disk p.files folder := by
    intro sp hsp folder hfolder
    rw [← hmember.parsed] at hsp
    exact ⟨f, hf, sp, hsp, hfolder⟩
  have hlinks := (steady_linksOf (l := asRead f) hrequests).same huniform cache [] hcache Kept.nil
  exact (congrArg (memberOf (asRead f)) hlinks).trans (hmember.same huniform).symm

theorem Within.round (hfinished : Finished r disk roots answer ⟨[], p, cache⟩)
    (huniform : Uniform disk (AskedBy r disk p.files)) {s s' : Loading} (h : Within r disk p s)
    (hround : Round r disk s s') : Within r disk p s' := by
  have hasked {files : List ProgramMember} (hfiles : files ⊆ p.files) (folder : Path) :
      AskedBy r disk files folder → AskedBy r disk p.files folder := AskedBy.mono hfiles
  have hround' := hround
  cases hround with
  | known =>
    exact ⟨h.valid.round hround' (hasked h.files), h.files,
      fun q hq => h.queue q (List.mem_cons_of_mem _ hq)⟩
  | foreign =>
    exact ⟨h.valid.round hround' (hasked h.files), h.files,
      fun q hq => h.queue q (List.mem_cons_of_mem _ hq)⟩
  | absent =>
    exact ⟨h.valid.round hround' (hasked h.files), h.files,
      fun q hq => h.queue q (List.mem_cons_of_mem _ hq)⟩
  | @loaded l isRoot rest p₀ cache₀ hnew hkind hread =>
    obtain ⟨f, hf, hpath⟩ :=
      h.queue _ List.mem_cons_self (by simp [hkind]) (by simp [isMissing, hread])
    dsimp only at hpath
    have hmember := memberOf_eq huniform hf (hfinished.valid.members f hf) hpath hkind hread
      h.valid.cache
    have hfiles : p₀.files ++ [memberOf l (linksOf r disk l cache₀).1] ⊆ p.files := by
      intro g hg
      rcases List.mem_append.mp hg with hg | hg
      · exact h.files hg
      · rw [List.mem_singleton.mp hg, hmember]
        exact hf
    refine ⟨h.valid.round hround' (hasked hfiles), hfiles, ?_⟩
    intro q hq hqkind hqthere
    rcases List.mem_append.mp hq with hq | hq
    · exact h.queue q (List.mem_cons_of_mem _ hq) hqkind hqthere
    · -- what the file asks for is in the program with it
      have hagrees : Agrees answer [memberOf l (linksOf r disk l cache₀).1] := by
        intro g hg
        rw [List.mem_singleton.mp hg, hmember]
        exact hfinished.agrees f hf
      obtain ⟨_, sp, hsp, hanswer⟩ :=
        (mem_follow (h.valid.cache.mono fun _ _ => trivial) hagrees).mp hq
      have hparsed : requestsOf (Source.readSource l.text l.kind) = requestsOf f.parsed := by
        rw [← hmember]
        rfl
      rw [hparsed] at hsp
      rw [← hpath] at hanswer
      exact (hfinished.closing.links f hf sp hsp _ hanswer hqkind).loaded

/-- Root files that are in a program lead to no file outside of it, and loading them does not
fail. -/
theorem load_within {roots' : List Path} {options : Options}
    (hfinished : Finished (.ofOptions options) disk roots answer ⟨[], p, cache⟩)
    (huniform : Uniform disk (AskedBy (.ofOptions options) disk p.files))
    (hroots : roots'.map Path.normalize ⊆ roots.map Path.normalize) :
    ∃ p' answer' cache', load disk roots' options = .ok p' ∧
      Finished (.ofOptions options) disk roots' answer' ⟨[], p', cache'⟩ ∧ p'.files ⊆ p.files := by
  obtain ⟨answer', last, hrun, hends, hfinished'⟩ := load_finished disk roots' options
  have hwithin : Within (.ofOptions options) disk p last := by
    refine rounds_invariant (fun s s' hround _ h => h.round hfinished huniform hround) hrun ?_
    refine ⟨valid_start roots', by simp [Loading.start], ?_⟩
    intro q hq hkind hthere
    obtain ⟨root', hroot', rfl⟩ := List.mem_map.mp hq
    obtain ⟨root, hroot, hsame⟩ := List.mem_map.mp (hroots (List.mem_map_of_mem hroot'))
    dsimp only at hkind hthere ⊢
    rw [← hsame] at hkind hthere ⊢
    exact (hfinished.closing.roots root hroot hkind hthere).loaded
  generalize load disk roots' options = result at hends ⊢
  cases hends with
  | @done p' cache' => exact ⟨p', answer', cache', rfl, hfinished', hwithin.files⟩
  | @failed q rest p₀ cache₀ e hkind hread herror =>
    obtain ⟨f, hf, hpath⟩ :=
      hwithin.queue q List.mem_cons_self hkind (isMissing_of_error hread herror)
    have hok := (hfinished.valid.members f hf).read
    rw [hpath] at hok
    cases hok.symm.trans hread

theorem Finished.of_load {options : Options} (hload : load disk roots options = .ok p) :
    ∃ answer cache, Finished (.ofOptions options) disk roots answer ⟨[], p, cache⟩ := by
  obtain ⟨answer, last, _, hends, hfinished⟩ := load_finished disk roots options
  rw [hload] at hends
  cases hends
  exact ⟨answer, _, hfinished⟩

/-- Root lists with the same files lead to the same program, up to the order of its files, and the
same is told of it. -/
theorem check_root_order {roots' : List Path} {options : Options}
    (hroots : ∀ q, q ∈ roots'.map Path.normalize ↔ q ∈ roots.map Path.normalize)
    (hload : load disk roots options = .ok p)
    (huniform : Uniform disk (AskedBy (.ofOptions options) disk p.files)) :
    ∃ p', load disk roots' options = .ok p' ∧ p'.files.Perm p.files ∧
      (p.DeclaredOnce → (∀ f ∈ p.files, Slashed f.path) →
        ∀ options', p'.check options' = p.check options') := by
  obtain ⟨answer, cache, hfinished⟩ := Finished.of_load hload
  obtain ⟨p', answer', cache', hload', hfinished', hsub⟩ :=
    load_within hfinished huniform fun q => (hroots q).mp
  -- the files of the second program ask in no other folders, and so lead to all of the first
  obtain ⟨_, _, _, hagain, _, hsub'⟩ :=
    load_within hfinished' (huniform.mono fun _ => AskedBy.mono hsub) fun q => (hroots q).mpr
  obtain rfl := Except.ok.inj (hload.symm.trans hagain)
  have hdistinct := hfinished.valid.distinct
  have hdistinct' := hfinished'.valid.distinct
  have hfiles (f : ProgramMember) : f ∈ p'.files ↔ f ∈ p.files := ⟨@hsub f, @hsub' f⟩
  have habsent (q : Path) : q ∈ p'.absentRoots ↔ q ∈ p.absentRoots := by
    obtain ⟨_, hordered⟩ := hfinished.ordered
    obtain ⟨_, hordered'⟩ := hfinished'.ordered
    rw [hordered.rootsFirst.2, hordered'.rootsFirst.2, List.mem_filter, List.mem_filter, hroots]
  refine ⟨p', hload', ?_, ?_⟩
  · exact (List.perm_ext_iff_of_nodup hdistinct'.of_map hdistinct.of_map).mpr hfiles
  · exact check_eq_of_files hdistinct hdistinct' hfiles habsent

/-- A project with a package of its own, which one file asks for by its place and another one by its
name. -/
def packageDisk : Disk :=
  ⟨[(["pkg"], .folder), (["pkg", "package.json"], .file "\x7b\"types\": \"main.ts\"\x7d".toUTF8),
    (["pkg", "main.ts"], .file "export type T = 1".toUTF8),
    (["a.ts"], .file "import \x7b T \x7d from './pkg'".toUTF8),
    (["b.ts"], .file "import \x7b T \x7d from 'pkg'".toUTF8)]⟩

set_option maxRecDepth 4096 in
theorem check_root_order_package : ∃ p p',
    load packageDisk [⟨"/a.ts"⟩, ⟨"/b.ts"⟩] (Options.forced ∅) = .ok p ∧ p.files.length = 3 ∧
    load packageDisk [⟨"/b.ts"⟩, ⟨"/./a.ts"⟩, ⟨"/b.ts"⟩] (Options.forced ∅) = .ok p' ∧
    p'.check (Options.forced ∅) = p.check (Options.forced ∅) := by
  have hfacts : (load packageDisk [⟨"/a.ts"⟩, ⟨"/b.ts"⟩] (Options.forced ∅)).toOption.map
      (fun p => (p.files.length, p.namedModules.length, p.files.all fun f =>
        decide (Slashed f.path) && (requestsOf f.parsed).all fun s =>
          ((Resolver.ofOptions (Options.forced ∅)).asked packageDisk s.text f.path).all
            fun folder => decide (Short folder))) = some (3, 0, true) := by decide +kernel
  obtain ⟨p, hload, hfound⟩ := exists_of_toOption_map hfacts
  obtain ⟨hlength, hfound⟩ := Prod.mk.inj hfound
  obtain ⟨hnone, hall⟩ := Prod.mk.inj hfound
  have hfile (f : ProgramMember) (hf : f ∈ p.files) := List.all_eq_true.mp hall f hf
  simp only [Bool.and_eq_true, decide_eq_true_eq, List.all_eq_true] at hfile
  have hroots : ∀ q, q ∈ [⟨"/b.ts"⟩, ⟨"/./a.ts"⟩, ⟨"/b.ts"⟩].map Path.normalize ↔
      q ∈ [⟨"/a.ts"⟩, ⟨"/b.ts"⟩].map Path.normalize := by
    have hnormal : [⟨"/b.ts"⟩, ⟨"/./a.ts"⟩, ⟨"/b.ts"⟩].map Path.normalize =
        [⟨"/b.ts"⟩, ⟨"/a.ts"⟩, ⟨"/b.ts"⟩] := by decide
    have hnormal' : [⟨"/a.ts"⟩, ⟨"/b.ts"⟩].map Path.normalize =
        [⟨"/a.ts"⟩, ⟨"/b.ts"⟩] := by decide
    intro q
    rw [hnormal, hnormal']
    simp only [List.mem_cons, List.not_mem_nil, or_false]
    constructor
    · rintro (hb | ha | hb)
      · exact Or.inr hb
      · exact Or.inl ha
      · exact Or.inr hb
    · rintro (ha | hb)
      · exact Or.inr (Or.inl ha)
      · exact Or.inl hb
  have huniform : Uniform packageDisk
      (AskedBy (.ofOptions (Options.forced ∅)) packageDisk p.files) := by
    apply Resolver.uniform_of_short
    rintro folder ⟨f, hf, s, hs, hfolder⟩
    exact (hfile f hf).2 s hs folder hfolder
  obtain ⟨p', hload', _, hcheck⟩ := check_root_order hroots hload huniform
  exact ⟨p, p', hload, hlength, hload', hcheck (.of_none hnone) (fun f hf => (hfile f hf).1) _⟩

/-! ### A package that is asked for under a long path -/

/-- The package as it is described. -/
def described : Package := ⟨some "main.ts", none, none, none⟩

/-- A spelling of the top folder that is as long as can be with the name of the package behind
it. -/
structure LongTop (base : Path) : Prop where
  absolute : base.isAbsolute = true
  last : base.text.toList.getLast? = some '/'
  parts : base.parts = [.root]
  size : base.text.utf8ByteSize + 3 = Disk.maxPath

theorem longTop_slashes : LongTop (.slashes 4091) := by
  refine ⟨Path.isAbsolute_slashes _, ?_, Path.parts_slashes _, ?_⟩
  · rw [Path.slashes, String.toList_ofList, List.getLast?_replicate, if_neg (by omega)]
  · rw [Path.size_slashes]
    rfl

def longOptions (base : Path) : Options :=
  .ofList [("baseUrl", .string base.text), ("verbatimModuleSyntax", .bool true)]

def longResolver (base : Path) : Resolver := ⟨some base, [], some base, false, none, none⟩

theorem ofOptions_longOptions (base : Path) :
    Resolver.ofOptions (longOptions base) = longResolver base := by
  simp [Resolver.ofOptions, longOptions, longResolver, Options.string?, Options.strings?,
    Options.allowJs, Options.bool?, Dictionary.get?_ofList, lookup_cons_eq, Json.asString?,
    Resolver.sortedPaths]

namespace LongTop

variable {base : Path} (h : LongTop base)

include h

theorem text_child : (base.child "pkg").text = base.text ++ "pkg" := by
  unfold Path.child Path.join
  rw [if_neg (by decide), if_pos (by simp [h.last])]

theorem size_child : (base.child "pkg").text.utf8ByteSize = Disk.maxPath := by
  rw [h.text_child, String.utf8ByteSize_append]
  exact h.size

theorem long_child {name : String} (hname : name.toList.head? ≠ some '/')
    (hsize : 0 < name.utf8ByteSize) :
    Disk.maxPath < ((base.child "pkg").child name).text.utf8ByteSize := by
  have hless := (base.child "pkg").size_child_le hname
  rw [h.size_child] at hless
  omega

theorem parts_child : (base.child "pkg").parts = [.root, .name "pkg"] := by
  obtain ⟨init, hsegments, hinit⟩ := base.segments_child "pkg" (by decide) (by decide)
  have hnone : init.filterMap Part.ofSegment? = [] := by
    have hparts := h.parts
    rw [Path.parts, if_pos h.absolute, ← hinit] at hparts
    exact (List.cons.inj hparts).2
  rw [Path.parts, Path.isAbsolute_child base (by decide), if_pos h.absolute, hsegments,
    List.filterMap_append, hnone]
  rfl

theorem isFolder_child : packageDisk.isFolder (base.child "pkg") = true := by
  have hfind : packageDisk.find (base.child "pkg") = packageDisk.walk [] ["pkg"] := by
    rw [Disk.find_child h.absolute (by decide) (by decide) (Nat.le_of_eq h.size_child), h.parts]
    rfl
  rw [Disk.isFolder, Disk.entry?, hfind]
  decide

theorem readPackage_child : Resolver.readPackage packageDisk (base.child "pkg") = none := by
  have hlong : Disk.maxPath < ((base.child "pkg").child "package.json").text.utf8ByteSize :=
    h.long_child (by decide) (by decide)
  rw [Resolver.readPackage, Disk.read, Disk.readBytes, Disk.find_of_long hlong]
  rfl

theorem loadFile_child (r : Resolver) : r.loadFile packageDisk (base.child "pkg") = none := by
  have hlast : (base.child "pkg").text.toList.getLast? = some 'g' := by
    rw [h.text_child, String.toList_append, List.getLast?_append_of_ne_nil _ (by decide)]
    rfl
  apply Resolver.loadFile_of_full
  · intro e he
    have htable : ∀ e ∈ Resolver.endings, e ≠ "" ∧ some 'g' ≠ e.toList.getLast? := by decide
    exact Text.endsWith_eq_false (htable e he).1 (hlast ▸ (htable e he).2)
  · rw [h.size_child]
    omega

theorem loadMain_child (r : Resolver) {package : Option Package}
    (hpackage : package = none ∨ package = some described) :
    r.loadMain packageDisk (base.child "pkg") package = none := by
  have hindex : r.indexFile packageDisk (base.child "pkg") = none :=
    Resolver.loadFile_of_long (h.long_child (by decide) (by decide))
  have hmain : r.loadEntry packageDisk (base.child "pkg") "main.ts" = none := by
    have hlong : Disk.maxPath < ((base.child "pkg").child "main.ts").text.utf8ByteSize :=
      h.long_child (by decide) (by decide)
    unfold Resolver.loadEntry
    simp [Resolver.loadFile_of_long hlong, Disk.isFolder, Disk.entry?_of_long hlong]
  unfold Resolver.loadMain
  rw [hindex]
  rcases hpackage with rfl | rfl
  · rfl
  · simp [described, hmain]

end LongTop

/-! ### What is found first is remembered -/

section Remembered

variable {r : Resolver} {disk : Disk} {folder other : Path} {package : Option Package}

theorem loadFolder_of_folder (hfolder : disk.isFolder folder = true) (cache : PackageCache) :
    (r.loadFolder disk folder).run cache =
      (r.loadMain disk folder ((Resolver.packageIn disk folder).run cache).1,
        ((Resolver.packageIn disk folder).run cache).2) := by
  unfold Resolver.loadFolder
  simp only [hfolder, Bool.not_true, Bool.false_eq_true, if_false]
  rfl

theorem packageIn_known (h : other.parts = folder.parts) :
    (Resolver.packageIn disk folder).run [(other, package)] = (package, [(other, package)]) := by
  have hsame : other.same folder = true := Path.same_iff.mpr h
  simp [Resolver.packageIn, StateT.run, hsame]

end Remembered

variable {base : Path}

theorem resolve_place (base : Path) (cache : PackageCache) :
    ((longResolver base).resolve packageDisk "./pkg" ⟨"/a.ts"⟩).run cache =
      ((((longResolver base).load packageDisk ⟨"/pkg"⟩).run cache).1.map Path.normalize,
        (((longResolver base).load packageDisk ⟨"/pkg"⟩).run cache).2) := by
  have hplace : ((⟨"/a.ts"⟩ : Path).parent?.getD ⟨"/"⟩).locate ⟨"./pkg"⟩ = ⟨"/pkg"⟩ := by decide
  unfold Resolver.resolve
  dsimp only
  rw [if_pos (by decide), hplace]
  rfl

/-- A name that is found neither among the mapped paths nor from the base folder is not found. -/
theorem resolve_nowhere {r : Resolver} {file : Path} {cache mapped based : PackageCache}
    (hfile : file.parent?.getD ⟨"/"⟩ = ⟨"/"⟩)
    (hmapped : (Resolver.firstOf (r.load packageDisk) (r.mapped "pkg")).run cache = (none, mapped))
    (hbased : (Resolver.firstOf (fun base => r.load packageDisk (base.child "pkg"))
      r.baseUrl.toList).run mapped = (none, based)) :
    (r.resolve packageDisk "pkg" file).run cache = (none, based) := by
  have hfolders : Resolver.packageFolders packageDisk "pkg" ⟨"/"⟩ = [] := by decide +kernel
  have hsplit : Resolver.splitSpecifier "pkg" = ("pkg", ".") := by decide
  unfold Resolver.resolve
  dsimp only
  rw [if_neg (by decide), hfile]
  unfold Resolver.loadNamed
  rw [bind_assoc, StateT.run_bind, hmapped]
  change ((Resolver.firstOf (fun base => r.load packageDisk (base.child "pkg")) r.baseUrl.toList >>=
    _) >>= _).run mapped = _
  rw [bind_assoc, StateT.run_bind, hbased, hsplit]
  dsimp only
  rw [hfolders]
  rfl

theorem resolve_name (base : Path) {cache cache' : PackageCache}
    (hload : ((longResolver base).load packageDisk (base.child "pkg")).run cache = (none, cache')) :
    ((longResolver base).resolve packageDisk "pkg" ⟨"/b.ts"⟩).run cache = (none, cache') := by
  have hbase : (longResolver base).baseUrl.toList = [base] := rfl
  apply resolve_nowhere (by decide) rfl
  rw [hbase, Resolver.firstOf, StateT.run_bind, hload]
  rfl

/-- Which file a path stands for depends on nothing but whether JavaScript is allowed. -/
theorem files_of_allowJs {r : Resolver} (hr : r.allowJs = false) :
    r.loadFile = (longResolver ⟨"/"⟩).loadFile ∧ r.loadMain = (longResolver ⟨"/"⟩).loadMain := by
  obtain ⟨_, _, _, _, _, _⟩ := r
  obtain rfl := hr
  exact ⟨rfl, rfl⟩

theorem readPackage_place : Resolver.readPackage packageDisk ⟨"/pkg"⟩ = some described := by
  have hfields : (Resolver.readPackage packageDisk ⟨"/pkg"⟩).map (fun p =>
      (p.types, p.typings, p.main, p.exports.isNone)) =
        some (some "main.ts", none, none, true) := by decide +kernel
  obtain ⟨⟨types, typings, main, exports⟩, hread, hfields⟩ := Option.map_eq_some_iff.mp hfields
  simp only [Prod.mk.injEq, Option.isNone_iff_eq_none] at hfields
  obtain ⟨rfl, rfl, rfl, rfl⟩ := hfields
  exact hread

/-- Under its short path the package is its main file if it has a description, and else no file. -/
theorem loadFolder_place {r : Resolver} (hr : r.allowJs = false) {package : Option Package}
    (hpackage : package = none ∨ package = some described) {cache cache' : PackageCache}
    (hrun : (Resolver.packageIn packageDisk ⟨"/pkg"⟩).run cache = (package, cache')) :
    (r.loadFolder packageDisk ⟨"/pkg"⟩).run cache =
      (package.map fun _ => ⟨"/pkg/main.ts"⟩, cache') := by
  obtain ⟨hfolder, hnone, hmain⟩ : packageDisk.isFolder ⟨"/pkg"⟩ = true ∧
      (longResolver ⟨"/"⟩).loadMain packageDisk ⟨"/pkg"⟩ none = none ∧
      (longResolver ⟨"/"⟩).loadMain packageDisk ⟨"/pkg"⟩ (some described) =
        some ⟨"/pkg/main.ts"⟩ := by decide +kernel
  rw [loadFolder_of_folder hfolder, hrun, (files_of_allowJs hr).2]
  rcases hpackage with rfl | rfl
  · rw [hnone]
    rfl
  · rw [hmain]
    rfl

theorem load_place {r : Resolver} (hr : r.allowJs = false) {package : Option Package}
    (hpackage : package = none ∨ package = some described) {cache cache' : PackageCache}
    (hrun : (Resolver.packageIn packageDisk ⟨"/pkg"⟩).run cache = (package, cache')) :
    (r.load packageDisk ⟨"/pkg"⟩).run cache = (package.map fun _ => ⟨"/pkg/main.ts"⟩, cache') := by
  have hfile : (longResolver ⟨"/"⟩).loadFile packageDisk ⟨"/pkg"⟩ = none := by decide +kernel
  rw [← (files_of_allowJs hr).1] at hfile
  unfold Resolver.load
  rw [hfile]
  exact loadFolder_place hr hpackage hrun

/-- Under its long path the package is no file. -/
theorem loadFolder_name (h : LongTop base) (r : Resolver) {package : Option Package}
    (hpackage : package = none ∨ package = some described) {cache cache' : PackageCache}
    (hrun : (Resolver.packageIn packageDisk (base.child "pkg")).run cache = (package, cache')) :
    (r.loadFolder packageDisk (base.child "pkg")).run cache = (none, cache') := by
  rw [loadFolder_of_folder h.isFolder_child, hrun, h.loadMain_child r hpackage]

theorem load_name (h : LongTop base) (r : Resolver) {package : Option Package}
    (hpackage : package = none ∨ package = some described) {cache cache' : PackageCache}
    (hrun : (Resolver.packageIn packageDisk (base.child "pkg")).run cache = (package, cache')) :
    (r.load packageDisk (base.child "pkg")).run cache = (none, cache') := by
  unfold Resolver.load
  rw [h.loadFile_child]
  exact loadFolder_name h r hpackage hrun

/-- The description is read under the short path, unless something is remembered. -/
theorem packageIn_place : (Resolver.packageIn packageDisk ⟨"/pkg"⟩).run [] =
    (some described, [(⟨"/pkg"⟩, some described)]) := by
  rw [← readPackage_place]
  rfl

/-- Under the long path there is no description to be read. -/
theorem packageIn_name (h : LongTop base) :
    (Resolver.packageIn packageDisk (base.child "pkg")).run [] =
      (none, [(base.child "pkg", none)]) := by
  rw [← h.readPackage_child]
  rfl

/-- What is missing under the long path is remembered for the short one. -/
theorem packageIn_place_later (h : LongTop base) :
    (Resolver.packageIn packageDisk ⟨"/pkg"⟩).run [(base.child "pkg", none)] =
      (none, [(base.child "pkg", none)]) := by
  apply packageIn_known
  rw [h.parts_child]
  decide

theorem resolve_place_first (base : Path) :
    ((longResolver base).resolve packageDisk "./pkg" ⟨"/a.ts"⟩).run [] =
      (some ⟨"/pkg/main.ts"⟩, [(⟨"/pkg"⟩, some described)]) := by
  rw [resolve_place, load_place rfl (Or.inr rfl) packageIn_place]
  rfl

theorem resolve_name_first (h : LongTop base) :
    ((longResolver base).resolve packageDisk "pkg" ⟨"/b.ts"⟩).run [] =
      (none, [(base.child "pkg", none)]) :=
  resolve_name base (load_name h _ (Or.inl rfl) (packageIn_name h))

theorem resolve_place_later (h : LongTop base) :
    ((longResolver base).resolve packageDisk "./pkg" ⟨"/a.ts"⟩).run [(base.child "pkg", none)] =
      (none, [(base.child "pkg", none)]) := by
  rw [resolve_place, load_place rfl (Or.inl rfl) (packageIn_place_later h)]
  rfl

/-! ### Two orders of two root files -/

def placeLoaded : Loaded := ⟨⟨"/a.ts"⟩, .typeScript, "import \x7b T \x7d from './pkg'"⟩

def nameLoaded : Loaded := ⟨⟨"/b.ts"⟩, .typeScript, "import \x7b T \x7d from 'pkg'"⟩

def mainLoaded : Loaded := ⟨⟨"/pkg/main.ts"⟩, .typeScript, "export type T = 1"⟩

/-- A file as it stands on a disk, with the texts of its specifiers. -/
def IsSource (disk : Disk) (l : Loaded) (texts : List String) : Prop :=
  Source.kindOf? l.path = some l.kind ∧ disk.read l.path = .ok l.text ∧
    (requestsOf (Source.readSource l.text l.kind)).map (·.text) = texts

instance (disk : Disk) (l : Loaded) (texts : List String) : Decidable (IsSource disk l texts) :=
  inferInstanceAs (Decidable (_ ∧ _ ∧ _))

/-- A file with one specifier, whose link is what is found for it. -/
theorem linksOf_single {r : Resolver} {disk : Disk} {l : Loaded} {text : String}
    {cache cache' : PackageCache} {target : Option Path} (hsource : IsSource disk l [text])
    (hresolve : (r.resolve disk text l.path).run cache = (target, cache')) :
    linksOf r disk l cache = ([(text, target)], cache') := by
  obtain ⟨sp, rest, hcons, rfl, hrest⟩ := List.map_eq_cons_iff.mp hsource.2.2
  obtain rfl := List.map_eq_nil_iff.mp hrest
  unfold linksOf
  rw [hcons]
  change ([(sp.text, ((r.resolve disk sp.text l.path).run cache).1)],
    ((r.resolve disk sp.text l.path).run cache).2) = _
  rw [hresolve]

theorem loadFrom_new {r : Resolver} {disk : Disk} {steps : Nat} {l : Loaded} {texts : List String}
    {isRoot : Bool} {rest : List Request} {p : Program} {cache cache' : PackageCache}
    {links : List (String × Option Path)} (hsource : IsSource disk l texts)
    (hnew : (p.files.any fun f => f.path.same l.path) = false)
    (hlinks : linksOf r disk l cache = (links, cache')) :
    loadFrom r disk (steps + 1) (⟨l.path, isRoot⟩ :: rest) p cache =
      loadFrom r disk steps (rest ++ follow links)
        ⟨p.files ++ [memberOf l links], p.absentRoots⟩ cache' := by
  have hnext : nextFile disk p.files (⟨l.path, isRoot⟩ :: rest) p.absentRoots =
      .ok (some (l, rest), p.absentRoots) := by
    rw [nextFile, if_neg (by simp [hnew]), hsource.1]
    dsimp only
    rw [hsource.2.1]
  rw [loadFrom_step hnext, hlinks]
  rfl

theorem packageDisk_sources : IsSource packageDisk placeLoaded ["./pkg"] ∧
    IsSource packageDisk nameLoaded ["pkg"] ∧ IsSource packageDisk mainLoaded [] := by
  decide +kernel

theorem start_order (first second : Path) (base : Path) (hfirst : first.normalize = first)
    (hsecond : second.normalize = second) :
    load packageDisk [first, second] (longOptions base) =
      loadFrom (longResolver base) packageDisk 11 [⟨first, true⟩, ⟨second, true⟩] ⟨[], []⟩ [] := by
  unfold load
  rw [ofOptions_longOptions, List.map_cons, List.map_cons, hfirst, hsecond]
  rfl

/-- The program with the file first that asks by place. -/
def placeFirst : Program :=
  ⟨[memberOf placeLoaded [("./pkg", some ⟨"/pkg/main.ts"⟩)], memberOf nameLoaded [("pkg", none)],
    memberOf mainLoaded []], []⟩

/-- The program with the file first that asks by name. -/
def nameFirst : Program :=
  ⟨[memberOf nameLoaded [("pkg", none)], memberOf placeLoaded [("./pkg", none)]], []⟩

theorem load_place_name (h : LongTop base) :
    load packageDisk [⟨"/a.ts"⟩, ⟨"/b.ts"⟩] (longOptions base) = .ok placeFirst := by
  obtain ⟨hplace, hname, hmain⟩ := packageDisk_sources
  have hparts : Path.parts ⟨"/pkg"⟩ = (base.child "pkg").parts := by
    rw [h.parts_child]
    decide
  have hplaceLinks := linksOf_single hplace (resolve_place_first base)
  -- what is read under the short path is remembered for the long one
  have hnameLinks := linksOf_single hname
    (resolve_name base (load_name h _ (Or.inr rfl) (packageIn_known hparts)))
  have hmainLinks : linksOf (longResolver base) packageDisk mainLoaded
      [(⟨"/pkg"⟩, some described)] = ([], [(⟨"/pkg"⟩, some described)]) := by
    rw [linksOf, List.map_eq_nil_iff.mp hmain.2.2]
    rfl
  rw [start_order _ _ base (by decide) (by decide)]
  refine (loadFrom_new hplace rfl hplaceLinks).trans ?_
  refine (loadFrom_new hname (by decide) hnameLinks).trans ?_
  refine (loadFrom_new hmain (by decide) hmainLinks).trans ?_
  rfl

theorem load_name_place (h : LongTop base) :
    load packageDisk [⟨"/b.ts"⟩, ⟨"/a.ts"⟩] (longOptions base) = .ok nameFirst := by
  obtain ⟨hplace, hname, _⟩ := packageDisk_sources
  have hnameLinks := linksOf_single hname (resolve_name_first h)
  have hplaceLinks := linksOf_single hplace (resolve_place_later h)
  rw [start_order _ _ base (by decide) (by decide)]
  refine (loadFrom_new hname rfl hnameLinks).trans ?_
  refine (loadFrom_new hplace (by decide) hplaceLinks).trans ?_
  rfl

theorem told_of_place : ∃ d ∈ nameFirst.problems true,
    ∀ e ∈ placeFirst.problems true, Diagnostic.same e d = false := by
  have hany : (nameFirst.problems true).any (fun d => (placeFirst.problems true).all fun e =>
      !Diagnostic.same e d) = true := by decide +kernel
  obtain ⟨d, hd, hall⟩ := List.any_eq_true.mp hany
  refine ⟨d, hd, ?_⟩
  intro e he
  simpa using List.all_eq_true.mp hall e he

theorem check_ne (base : Path) :
    nameFirst.check (longOptions base) ≠ placeFirst.check (longOptions base) := by
  have hverbatim : (longOptions base).verbatim = true := by
    simp [longOptions, Options.verbatim, Options.bool?, Dictionary.get?_ofList, Json.asBool?]
  rw [check_eq_arrange, check_eq_arrange, hverbatim]
  intro hsame
  obtain ⟨d, hd, hother⟩ := told_of_place
  obtain ⟨e, he, hde⟩ := Diagnostic.exists_same_arrange hd
  rw [hsame] at he
  rw [hother e (Diagnostic.mem_of_mem_arrange he)] at hde
  cases hde

/-- A package that is asked for under a path too long for its description is not found under another
path either, if that one comes later. -/
theorem root_order_matters : ∃ p p',
    load packageDisk [⟨"/a.ts"⟩, ⟨"/b.ts"⟩] (longOptions (.slashes 4091)) = .ok p ∧
    load packageDisk [⟨"/b.ts"⟩, ⟨"/a.ts"⟩] (longOptions (.slashes 4091)) = .ok p' ∧
    p.DeclaredOnce ∧ p'.DeclaredOnce ∧ (∀ f ∈ p.files ++ p'.files, Slashed f.path) ∧
    p'.check (longOptions (.slashes 4091)) ≠ p.check (longOptions (.slashes 4091)) := by
  have hnone : placeFirst.namedModules.length = 0 ∧ nameFirst.namedModules.length = 0 := by
    decide +kernel
  have hslashed : ∀ f ∈ placeFirst.files ++ nameFirst.files, Slashed f.path := by decide +kernel
  exact ⟨placeFirst, nameFirst, load_place_name longTop_slashes, load_name_place longTop_slashes,
    .of_none hnone.1, .of_none hnone.2, hslashed, check_ne _⟩

end Program

end TypeOnly
