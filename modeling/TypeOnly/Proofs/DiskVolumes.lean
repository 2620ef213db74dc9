import TypeOnly.Proofs.VolumeDrafts
import TypeOnly.Proofs.EditRuns

/-!
A disk is a volume without links. What is done to the files of a disk is done in the same way to the
volume that stands for it.
-/

namespace TypeOnly

set_option autoImplicit false

/-! ### One file system in place of another -/

section Mirror

variable {σ τ ε : Type}

def Setback.map (f : σ → τ) (e : Setback σ ε) : Setback τ ε := ⟨e.error, f e.disk⟩

/-- The outcome of a step, on a file system that stands for another one. -/
def mirror (f : σ → τ) : Except (Setback σ ε) σ → Except (Setback τ ε) τ
  | .ok d => .ok (f d)
  | .error e => .error (e.map f)

def Advance.map (f : σ → τ) (a : Advance σ) : Advance τ := ⟨a.result, a.output, f a.disk⟩

variable [FileSystem σ] [FileSystem τ]

/-- A file system that stands for another one: it has the same files, and they are replaced in the
same way. -/
structure Mirrors (f : σ → τ) : Prop where
  read : ∀ d p, FileSystem.read (f d) p = FileSystem.read d p
  replace : ∀ d p text, FileSystem.replace (f d) p text = mirror f (FileSystem.replace d p text)

namespace EditSet

variable {f : σ → τ} (h : Mirrors f)
include h

theorem write_mirror (s : EditSet) (d : σ) (text : String) :
    s.write (f d) text = mirror f (s.write d text) := by
  cases hread : FileSystem.read d s.path with
  | error e =>
    unfold write
    rw [h.read, hread]
    rfl
  | ok current =>
    rw [write_of_read ((h.read d s.path).trans hread), write_of_read hread, h.replace]
    split
    · cases FileSystem.replace d s.path text <;> rfl
    · rfl

theorem carryOut_mirror (s : EditSet) (writing : Bool) (d : σ) :
    s.carryOut writing (f d) = mirror f (s.carryOut writing d) := by
  unfold carryOut
  cases s.patched with
  | error e => rfl
  | ok text =>
    cases writing with
    | false => rfl
    | true => exact write_mirror h s d text

theorem carryOutAll_mirror (style : ReportStyle) (writing : Bool) (sets : List EditSet)
    (done : List FileReport) (output : String) (d : σ) :
    carryOutAll style writing sets done output (f d) =
      (carryOutAll style writing sets done output d).map f := by
  induction sets generalizing done output d with
  | nil => rfl
  | cons s rest ih =>
    simp only [carryOutAll, carryOut_mirror h]
    cases s.carryOut writing d with
    | error e => rfl
    | ok d' => exact ih _ _ d'

theorem applyAll_mirror (style : ReportStyle) (writing : Bool) (sets : List EditSet) (d : σ) :
    applyAll style writing sets (f d) = (applyAll style writing sets d).map f := by
  unfold applyAll
  rw [carryOutAll_mirror h]
  generalize carryOutAll style writing sets [] "" d = a
  obtain ⟨result, output, disk⟩ := a
  cases style.json with
  | false => rfl
  | true => cases result <;> rfl

end EditSet

end Mirror

/-! ### Disks as volumes -/

namespace Location

variable {α β : Type} (f : α → β) (entries : List (Location × α)) (loc : Location)

theorem lookup_map :
    (entries.map fun x => (x.1, f x.2)).lookup loc = (entries.lookup loc).map f := by
  induction entries with
  | nil => rfl
  | cons x rest ih =>
    rw [List.map_cons, List.lookup_cons, List.lookup_cons, ih]
    cases loc == x.1 <;> rfl

theorem put_map (e : α) : put (entries.map fun x => (x.1, f x.2)) loc (f e) =
    (put entries loc e).map fun x => (x.1, f x.2) := by
  unfold put
  rw [lookup_map, Option.isSome_map]
  split
  · rw [List.map_map, List.map_map]
    apply List.map_congr_left
    intro x _
    by_cases hx : x.1 = loc <;> simp [hx]
  · rw [List.map_append]
    rfl

theorem unlink_map : unlink (entries.map fun x => (x.1, f x.2)) loc =
    (unlink entries loc).map fun x => (x.1, f x.2) := by
  unfold unlink
  rw [List.filter_map]
  rfl

end Location

namespace Volume

variable (d : Disk)

theorem get?_ofDisk (loc : Location) : (ofDisk d).get? loc = (d.get? loc).map .ofEntry := by
  by_cases hnil : loc = []
  · rw [hnil]
    rfl
  · rw [get?_of_ne_nil hnil, Disk.get?_of_ne_nil hnil]
    exact Location.lookup_map Node.ofEntry d.entries loc

theorem isFolderAt_ofDisk : (ofDisk d).isFolderAt = d.isFolderAt := by
  funext loc
  unfold isFolderAt Disk.isFolderAt
  rw [get?_ofDisk]
  cases d.get? loc with
  | none => rfl
  | some e => cases e <;> rfl

theorem put_ofDisk (loc : Location) (e : Entry) :
    (ofDisk d).put loc (.ofEntry e) = ofDisk (d.put loc e) := by
  simp only [put, ofDisk, Disk.put, Location.put_map]

theorem unlink_ofDisk (loc : Location) : (ofDisk d).unlink loc = ofDisk (d.unlink loc) := by
  simp only [unlink, ofDisk, Disk.unlink, Location.unlink_map]

theorem move_ofDisk (source target : Location) :
    (ofDisk d).move source target = ofDisk (d.move source target) := by
  unfold move Disk.move
  rw [get?_ofDisk]
  cases d.get? source with
  | none => rfl
  | some e =>
    rw [Option.map_some]
    dsimp only
    rw [unlink_ofDisk, put_ofDisk]

theorem store_ofDisk (loc : Location) (bytes : ByteArray) :
    (ofDisk d).store loc bytes = ofDisk (d.put loc (.file bytes)) := by
  have hmode : ((ofDisk d).modeAt? loc).getD (ofDisk d).newMode = 0 := by
    unfold modeAt?
    rw [get?_ofDisk]
    cases d.get? loc with
    | none => rfl
    | some e => cases e <;> rfl
  rw [store, hmode]
  exact put_ofDisk d loc (.file bytes)

theorem walk_ofDisk (bound : Nat) (loc : Location) (segments : List String) :
    (ofDisk d).walk bound loc segments = d.walk loc segments := by
  induction segments generalizing loc with
  | nil => cases bound <;> rfl
  | cons s rest ih =>
    rw [walk_cons, Disk.walk, isFolderAt_ofDisk, ih, ih, get?_ofDisk]
    cases d.get? (loc ++ [s]) with
    | none => rfl
    | some e => cases e <;> simp [Node.ofEntry, ih]

theorem find_ofDisk : (ofDisk d).find = d.find := by
  funext p
  unfold find Disk.find
  rw [walk_ofDisk]

theorem read_ofDisk (p : Path) : (ofDisk d).read p = d.read p := by
  unfold read Disk.read Disk.readBytes
  rw [find_ofDisk]
  cases d.find p with
  | error o => cases o <;> rfl
  | ok loc =>
    simp only [bind, Except.bind, contentAt, get?_ofDisk]
    cases d.get? loc with
    | none => rfl
    | some e =>
      cases e with
      | folder => rfl
      | file bytes =>
        cases hutf : String.fromUTF8? bytes <;> simp [Node.ofEntry, ofDisk, hutf] <;> rfl

theorem mode?_ofDisk (p : Path) : (ofDisk d).mode? p = none := by
  unfold mode?
  cases (ofDisk d).find p <;> rfl

theorem draftFolder_ofDisk (p : Path) : (ofDisk d).draftFolder p = d.draftFolder p := by
  rw [draftFolder, Disk.draftFolder, find_ofDisk, isFolderAt_ofDisk]

theorem target_ofDisk (p : Path) : (ofDisk d).target p = d.target p := by
  rw [target, Disk.target, isFolderAt_ofDisk, funext (walk_ofDisk d maxLinks [])]

theorem linkSegments_ofDisk : (ofDisk d).linkSegments = [] := by
  rw [linkSegments, List.flatMap_eq_nil_iff]
  intro x hx
  obtain ⟨⟨loc, e⟩, _, rfl⟩ := List.mem_map.mp hx
  cases e <;> rfl

theorem newDraft_ofDisk (folder : Location) (p : Path) :
    (ofDisk d).newDraft folder p = d.newDraft folder p := by
  have hlength : (ofDisk d).nodes.length = d.entries.length := List.length_map _
  simp only [newDraft, Disk.newDraft, linkSegments_ofDisk, get?_ofDisk, Option.isSome_map, hlength,
    List.length_nil, Nat.add_zero, List.contains_nil, Bool.or_false]

/-! ### Replacing a file -/

/-- The outcome of a request, on the volume. -/
def onVolume {α : Type} : EStateM.Result Obstacle Disk α → EStateM.Result Obstacle Volume α
  | .ok a d => .ok a (ofDisk d)
  | .error o d => .error o (ofDisk d)

theorem create_ofDisk (p : Path) :
    FileSystem.create p (ofDisk d) = onVolume (FileSystem.create p d) := by
  simp only [FileSystem.create, draftFolder_ofDisk]
  cases d.draftFolder p with
  | error o => rfl
  | ok folder =>
    simp only [request, newDraft_ofDisk]
    exact congrArg (EStateM.Result.ok _) (put_ofDisk d _ (.file .empty))

theorem rename_ofDisk (draft : Location) (p : Path) :
    FileSystem.rename draft p (ofDisk d) = onVolume (FileSystem.rename draft p d) := by
  simp only [FileSystem.rename, target_ofDisk]
  cases d.target p with
  | error o => rfl
  | ok loc => exact congrArg (EStateM.Result.ok ()) (move_ofDisk d draft loc)

theorem finish_ofDisk (draft : Location) (p : Path) (text : String) :
    FileSystem.finish draft p text (ofDisk d) = onVolume (FileSystem.finish draft p text d) := by
  have hwrite : FileSystem.write draft text.toUTF8 (ofDisk d) =
      .ok () (ofDisk (d.put draft (.file text.toUTF8))) :=
    congrArg (EStateM.Result.ok ()) (store_ofDisk d draft text.toUTF8)
  have hsync (d : Disk) : FileSystem.sync draft (ofDisk d) = .ok () (ofDisk d) := rfl
  have hmode (d : Disk) : FileSystem.mode? (ofDisk d) p = none := mode?_ofDisk d p
  rw [Disk.finish_eq, ← rename_ofDisk]
  simp only [FileSystem.finish, bind, EStateM.bind, hwrite, hsync, get, getThe, MonadStateOf.get]
  delta EStateM.get
  simp only [hmode]

theorem replace_ofDisk (p : Path) (text : String) :
    FileSystem.replace (ofDisk d) p text = mirror ofDisk (FileSystem.replace d p text) := by
  unfold FileSystem.replace
  rw [create_ofDisk]
  cases FileSystem.create p d with
  | error o d' => rfl
  | ok draft d' =>
    simp only [onVolume, finish_ofDisk]
    cases FileSystem.finish draft p text d' with
    | ok _ d'' => rfl
    | error o d'' =>
      have hremove : FileSystem.remove draft (ofDisk d'') =
          onVolume (FileSystem.remove draft d'') :=
        congrArg (EStateM.Result.ok ()) (unlink_ofDisk d'' draft)
      dsimp only
      rw [hremove]
      rfl

theorem mirrors_ofDisk : Mirrors ofDisk := ⟨read_ofDisk, replace_ofDisk⟩

end Volume

end TypeOnly
