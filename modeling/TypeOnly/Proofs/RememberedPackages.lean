import TypeOnly.Proofs.RootOrder

/-!
One resolver that is asked many times. What it remembers of packages is what stands on the disk, and
each answer is the one that a new resolver would give, as long as no package is asked for under two
spellings of its folder that read differently.
-/

namespace TypeOnly

set_option autoImplicit false

namespace Resolver

inductive Call where
  /-- The file that a specifier in another file names. -/
  | file (specifier : String) (containing : Path)
  /-- The packages of types that belong to the compilation of a folder. -/
  | types (folder : Path)

inductive Answer where
  | file (path : Option Path)
  | types (files : List Path)
deriving DecidableEq

def respond (r : Resolver) (disk : Disk) : Call → Search Answer
  | .file specifier containing => return .file (← r.resolve disk specifier containing)
  | .types folder => return .types (← r.automaticTypes disk folder)

/-- The answers to calls that follow one another. -/
def respondAll (r : Resolver) (disk : Disk) : List Call → Search (List Answer)
  | [] => return []
  | call :: rest => do
    let answer ← r.respond disk call
    let answers ← respondAll r disk rest
    return answer :: answers

/-- The answer of a new resolver. -/
def fresh (r : Resolver) (disk : Disk) (call : Call) : Answer := ((r.respond disk call).run []).1

/-- The folders in which packages of types are looked for. -/
def askedTypes (r : Resolver) (disk : Disk) (folder : Path) : List Path :=
  ((r.typeFolders folder).filter disk.isFolder).flatMap fun root =>
    (r.typeNames disk root).map root.child

/-- The folders in which a call can look for a package. -/
def Call.asked (r : Resolver) (disk : Disk) : Call → List Path
  | .file specifier containing => r.asked disk specifier containing
  | .types folder => r.askedTypes disk folder

variable {r : Resolver} {disk : Disk} {A : Path → Prop}

/-! ### Packages of types -/

theorem steady_typesFrom {root : Path} {names : List String}
    (h : ∀ name ∈ names, A (root.child name)) (taken : List (String × Path)) :
    Steady disk A (r.typesFrom disk root names taken) fun _ => True := by
  induction names generalizing taken with
  | nil => exact Steady.pure trivial
  | cons name rest ih =>
    have hrest := ih fun x hx => h x (List.mem_cons_of_mem name hx)
    unfold typesFrom
    split
    · exact hrest taken
    · apply (steady_loadFolder (h name List.mem_cons_self)).bind
      intro answer _
      cases answer with
      | some file => exact hrest _
      | none => exact hrest taken

theorem steady_typesFromAll {roots : List Path}
    (h : ∀ root ∈ roots, disk.isFolder root = true → ∀ name ∈ r.typeNames disk root,
      A (root.child name)) (taken : List (String × Path)) :
    Steady disk A (r.typesFromAll disk roots taken) fun _ => True := by
  induction roots generalizing taken with
  | nil => exact Steady.pure trivial
  | cons root rest ih =>
    have hrest := ih fun x hx => h x (List.mem_cons_of_mem root hx)
    unfold typesFromAll
    split
    · rename_i hfolder
      apply (steady_typesFrom (h root List.mem_cons_self hfolder) taken).bind
      intro taken' _
      exact hrest taken'
    · exact hrest taken

theorem child_mem_askedTypes {folder root : Path} (hroot : root ∈ r.typeFolders folder)
    (hfolder : disk.isFolder root = true) {name : String} (hname : name ∈ r.typeNames disk root) :
    root.child name ∈ r.askedTypes disk folder :=
  List.mem_flatMap.mpr ⟨root, List.mem_filter.mpr ⟨hroot, hfolder⟩, List.mem_map_of_mem hname⟩

theorem steady_automaticTypes {folder : Path} (h : ∀ dir ∈ r.askedTypes disk folder, A dir) :
    Steady disk A (r.automaticTypes disk folder) fun _ => True := by
  unfold automaticTypes
  apply (steady_typesFromAll ?_ []).bind
  · intro taken _
    exact Steady.pure trivial
  · intro root hroot hfolder name hname
    exact h _ (child_mem_askedTypes hroot hfolder hname)

/-! ### Calls -/

theorem steady_respond {call : Call} (h : ∀ folder ∈ call.asked r disk, A folder) :
    Steady disk A (r.respond disk call) fun _ => True := by
  cases call with
  | file specifier containing =>
    apply (steady_resolve h).bind
    intro answer _
    exact Steady.pure trivial
  | types folder =>
    apply (steady_automaticTypes h).bind
    intro files _
    exact Steady.pure trivial

theorem steady_respondAll {calls : List Call}
    (h : ∀ call ∈ calls, ∀ folder ∈ call.asked r disk, A folder) :
    Steady disk A (r.respondAll disk calls) fun _ => True := by
  induction calls with
  | nil => exact Steady.pure trivial
  | cons call rest ih =>
    apply (steady_respond (h call List.mem_cons_self)).bind
    intro answer _
    apply (ih fun c hc => h c (List.mem_cons_of_mem call hc)).bind
    intro answers _
    exact Steady.pure trivial

theorem respondAll_cons (r : Resolver) (disk : Disk) (call : Call) (rest : List Call)
    (cache : PackageCache) : ((r.respondAll disk (call :: rest)).run cache).1 =
      ((r.respond disk call).run cache).1 ::
        ((r.respondAll disk rest).run ((r.respond disk call).run cache).2).1 := rfl

/-- In any state that can be reached, each call is answered as by a new resolver. -/
theorem respondAll_eq_map {calls : List Call}
    (h : ∀ call ∈ calls, ∀ folder ∈ call.asked r disk, A folder) (huniform : Uniform disk A)
    {cache : PackageCache} (hcache : Kept disk A cache) :
    ((r.respondAll disk calls).run cache).1 = calls.map (r.fresh disk) := by
  induction calls generalizing cache with
  | nil => rfl
  | cons call rest ih =>
    have hcall : Steady disk A (r.respond disk call) fun _ => True :=
      steady_respond (h call List.mem_cons_self)
    -- what the first call leaves behind was read from the same disk
    have hrest := ih (fun c hc => h c (List.mem_cons_of_mem call hc)) (hcall.keeps cache hcache)
    rw [respondAll_cons, hrest, hcall.same huniform cache [] hcache Kept.nil]
    rfl

/-- What a resolver remembers after any calls was read under the path that it is remembered for. If
no package reads differently under the paths by which the calls can ask for it, this is what it
reads under all of them, and each call is answered as by a new resolver. -/
theorem respondAll_as_fresh (r : Resolver) (disk : Disk) (calls : List Call) :
    (∀ entry ∈ ((r.respondAll disk calls).run []).2, entry.2 = readPackage disk entry.1) ∧
    (Uniform disk (fun folder => ∃ call ∈ calls, folder ∈ call.asked r disk) →
      ((r.respondAll disk calls).run []).1 = calls.map (r.fresh disk) ∧
      ∀ entry ∈ ((r.respondAll disk calls).run []).2, ∀ call ∈ calls,
        ∀ folder ∈ call.asked r disk, entry.1.parts = folder.parts →
          entry.2 = readPackage disk folder) := by
  have hasked : ∀ call ∈ calls, ∀ folder ∈ call.asked r disk,
      ∃ call ∈ calls, folder ∈ call.asked r disk :=
    fun call hcall folder hfolder => ⟨call, hcall, hfolder⟩
  have hkept := (steady_respondAll hasked).keeps [] Kept.nil
  refine ⟨fun entry hentry => (hkept entry hentry).2, fun huniform => ⟨?_, ?_⟩⟩
  · exact respondAll_eq_map hasked huniform Kept.nil
  · intro entry hentry call hcall folder hfolder hparts
    obtain ⟨hentryAsked, hread⟩ := hkept entry hentry
    rw [hread]
    exact huniform entry.1 folder hentryAsked ⟨call, hcall, hfolder⟩ hparts

/-! ### One package under several paths -/

open Program (packageDisk longOptions longTop_slashes)

/-- A resolver that looks for names, and for types, in the top folder under other spellings of
it. -/
def respelling : Resolver := ⟨some ⟨"/./"⟩, [], none, false, some [⟨"//"⟩], some ["pkg"]⟩

theorem respondAll_as_fresh_respelled :
    ((respelling.respondAll packageDisk
        [.file "pkg" ⟨"/b.ts"⟩, .types ⟨"/"⟩, .file "./pkg" ⟨"/a.ts"⟩]).run []).1 =
      [.file (some ⟨"/pkg/main.ts"⟩), .types [⟨"/pkg/main.ts"⟩],
        .file (some ⟨"/pkg/main.ts"⟩)] := by
  have hshort : [Call.file "pkg" ⟨"/b.ts"⟩, .types ⟨"/"⟩, .file "./pkg" ⟨"/a.ts"⟩].all (fun call =>
      (call.asked respelling packageDisk).all fun folder => decide (Short folder)) = true := by
    decide +kernel
  have hfresh : [Call.file "pkg" ⟨"/b.ts"⟩, .types ⟨"/"⟩, .file "./pkg" ⟨"/a.ts"⟩].map
      (respelling.fresh packageDisk) = [.file (some ⟨"/pkg/main.ts"⟩),
        .types [⟨"/pkg/main.ts"⟩], .file (some ⟨"/pkg/main.ts"⟩)] := by
    decide +kernel
  rw [← hfresh]
  refine ((respondAll_as_fresh respelling packageDisk _).2 ?_).1
  apply uniform_of_short
  rintro folder ⟨call, hcall, hfolder⟩
  exact of_decide_eq_true
    (List.all_eq_true.mp (List.all_eq_true.mp hshort call hcall) folder hfolder)

/-- That a package has no description under a path that is too long is remembered for its other
paths, under which a new resolver finds it. -/
theorem absence_remembered :
    (((ofOptions (longOptions (.slashes 4091))).respondAll packageDisk
        [.file "pkg" ⟨"/b.ts"⟩, .file "./pkg" ⟨"/a.ts"⟩]).run []).1 = [.file none, .file none] ∧
    (ofOptions (longOptions (.slashes 4091))).fresh packageDisk (.file "./pkg" ⟨"/a.ts"⟩) =
      .file (some ⟨"/pkg/main.ts"⟩) := by
  have hcall (r : Resolver) (disk : Disk) (specifier : String) (containing : Path)
      (cache : PackageCache) : (r.respond disk (.file specifier containing)).run cache =
        (.file ((r.resolve disk specifier containing).run cache).1,
          ((r.resolve disk specifier containing).run cache).2) := rfl
  rw [Program.ofOptions_longOptions]
  constructor
  · rw [respondAll_cons, respondAll_cons, hcall, Program.resolve_name_first longTop_slashes, hcall,
      Program.resolve_place_later longTop_slashes]
    rfl
  · rw [fresh, hcall, Program.resolve_place_first]

end Resolver

end TypeOnly
