import Mathlib.Logic.Relation
import TypeOnly.Proofs.ConfigStatements

/-!
Configuration files that extend others: which files are read one inside the other, and how many they
can be.
-/

namespace TypeOnly

set_option autoImplicit false

namespace Config

open Relation (ReflTransGen TransGen)

/-! ### Opened files -/

/-- The texts after `extends`. -/
def extendTexts (value : Json) : List String :=
  match value.field? "extends" with
  | some (.string s) => [s]
  | some (.array items) => items.filterMap Json.asString?
  | _ => []

theorem basesOf_notes (root : List (String × Json)) :
    ∃ noted, Notes (basesOf root) (extendTexts (.object root)) noted := by
  have hfield : (Json.object root).field? "extends" = root.lookup "extends" := rfl
  unfold basesOf extendTexts
  rw [hfield]
  cases root.lookup "extends" with
  | none => exact ⟨_, .pure []⟩
  | some value =>
    cases value with
    | string s => exact ⟨_, .pure [s]⟩
    | array items => exact ⟨_, textsOf_notes "extends" items⟩
    | null | bool _ | number _ | object _ => exact ⟨_, .fault _ []⟩

/-- The file at a path, if it can be read. -/
def opened? (disk : Disk) (path : Path) : Option Opened := do
  let text ← (disk.read path).toOption
  let value ← (Json.readCommented text).toOption
  return ⟨path, value⟩

/-- The file that a text after `extends` names, if it can be read. -/
def open? (disk : Disk) (folder : Path) (spec : String) : Option Opened :=
  (findBase disk spec folder).bind (opened? disk)

/-- The files that a file extends. -/
def extended (disk : Disk) (a : Opened) : List Opened :=
  (extendTexts a.value).filterMap (open? disk a.folder)

def Extends (disk : Disk) (a b : Opened) : Prop := b ∈ extended disk a

abbrev Reaches (disk : Disk) : Opened → Opened → Prop := ReflTransGen (Extends disk)

section Open

variable {disk : Disk} {folder : Path} {spec : String} {b : Opened} {stack : List Path}

theorem opened?_eq_some {path : Path} : opened? disk path = some b ↔ path = b.path ∧
    ∃ text, disk.read path = .ok text ∧ Json.readCommented text = .ok b.value := by
  constructor
  · intro h
    obtain ⟨text, htext, h⟩ := Option.bind_eq_some_iff.mp h
    obtain ⟨value, hvalue, h⟩ := Option.bind_eq_some_iff.mp h
    obtain rfl := Option.some.inj h
    exact ⟨rfl, text, ok_of_toOption htext, ok_of_toOption hvalue⟩
  · rintro ⟨rfl, text, htext, hvalue⟩
    simp [opened?, htext, hvalue, Except.toOption]

theorem open?_eq_some : open? disk folder spec = some b ↔ findBase disk spec folder = some b.path ∧
    ∃ text, disk.read b.path = .ok text ∧ Json.readCommented text = .ok b.value := by
  unfold open?
  rw [Option.bind_eq_some_iff]
  constructor
  · rintro ⟨path, hfind, h⟩
    obtain ⟨rfl, h⟩ := opened?_eq_some.mp h
    exact ⟨hfind, h⟩
  · rintro ⟨hfind, h⟩
    exact ⟨b.path, hfind, opened?_eq_some.mpr ⟨rfl, h⟩⟩

theorem isFile_of_open (h : open? disk folder spec = some b) : disk.isFile b.path = true :=
  List.find?_some (open?_eq_some.mp h).1

theorem openBase_opens (h : open? disk folder spec = some b)
    (hstack : stack.any b.path.same = false) :
    Notes (openBase disk stack spec folder) (some (b.path, b.value)) [] := by
  obtain ⟨hfind, text, hread, hvalue⟩ := open?_eq_some.mp h
  unfold openBase
  simp only [hfind, hstack, hread, hvalue]
  exact .pure _

theorem openBase_circular (h : open? disk folder spec = some b)
    (hstack : stack.any b.path.same = true) : Notes (openBase disk stack spec folder) none
      [.circularExtends ((stack ++ [b.path]).map Path.text)] := by
  obtain ⟨hfind, _⟩ := open?_eq_some.mp h
  unfold openBase
  simp only [hfind, hstack]
  exact .fault _ none

/-- A file that is opened is none of those that are being read. -/
theorem openBase_notes (disk : Disk) (stack : List Path) (spec : String) (folder : Path) :
    ∃ answer noted, Notes (openBase disk stack spec folder) answer noted ∧
      ∀ p v, answer = some (p, v) → open? disk folder spec = some ⟨p, v⟩ ∧
        stack.any p.same = false := by
  have hnone : ∀ p v, none = some (p, v) → open? disk folder spec = some ⟨p, v⟩ ∧
      stack.any p.same = false := by
    intro p v h
    cases h
  cases hfind : findBase disk spec folder with
  | none =>
    rw [openBase, hfind]
    exact ⟨none, _, .fault _ none, hnone⟩
  | some path =>
    cases hstack : stack.any path.same with
    | true =>
      rw [openBase, hfind]
      simp only [hstack]
      exact ⟨none, _, .fault _ none, hnone⟩
    | false =>
      cases hread : disk.read path with
      | error e =>
        rw [openBase, hfind]
        simp only [hstack, hread]
        cases e with
        | notFound q => exact ⟨none, _, .fault _ none, hnone⟩
        | blocked _ _ | notText _ => exact ⟨none, _, .fault _ none, hnone⟩
      | ok text =>
        cases hvalue : Json.readCommented text with
        | error e =>
          rw [openBase, hfind]
          simp only [hstack, hread, hvalue]
          exact ⟨none, _, .fault _ none, hnone⟩
        | ok value =>
          have hopen := (open?_eq_some (b := ⟨path, value⟩)).mpr ⟨hfind, text, hread, hvalue⟩
          refine ⟨_, [], openBase_opens hopen hstack, ?_⟩
          intro p v h
          obtain ⟨rfl, rfl⟩ := Prod.mk.inj (Option.some.inj h)
          exact ⟨hopen, hstack⟩

end Open

/-! ### Files read one inside the other -/

/-- What is read while a configuration file is: the files that are being read, and the last of
them. -/
inductive Trail (disk : Disk) (c : Opened) : List Path → Opened → Prop where
  | start : Trail disk c [c.path] c
  | step {stack : List Path} {a b : Opened} {spec : String} : Trail disk c stack a →
      spec ∈ extendTexts a.value →
      ((openBase disk stack spec a.folder).run []).1 = some (b.path, b.value) →
      Trail disk c (stack ++ [b.path]) b

section Trail

variable {disk : Disk} {c a b : Opened} {stack : List Path}

theorem opens_of_run {spec : String}
    (h : ((openBase disk stack spec a.folder).run []).1 = some (b.path, b.value)) :
    open? disk a.folder spec = some b ∧ stack.any b.path.same = false := by
  obtain ⟨answer, noted, hnotes, hopens⟩ := openBase_notes disk stack spec a.folder
  rw [hnotes.run] at h
  exact hopens b.path b.value h

theorem extends_of_open {spec : String} (hspec : spec ∈ extendTexts a.value)
    (h : open? disk a.folder spec = some b) : Extends disk a b :=
  List.mem_filterMap.mpr ⟨spec, hspec, h⟩

namespace Trail

theorem opens {spec : String} (h : Trail disk c stack a) (hspec : spec ∈ extendTexts a.value)
    (hopen : open? disk a.folder spec = some b) (hstack : stack.any b.path.same = false) :
    Trail disk c (stack ++ [b.path]) b := by
  apply h.step hspec
  rw [(openBase_opens hopen hstack).run]

/-- Whatever is being read leads to the last of it. -/
theorem reaches (h : Trail disk c stack a) :
    Reaches disk c a ∧ ∀ p ∈ stack, ∃ s : Opened, s.path = p ∧ Reaches disk c s ∧
      Reaches disk s a := by
  induction h with
  | start =>
    refine ⟨.refl, ?_⟩
    intro p hp
    obtain rfl := List.mem_singleton.mp hp
    exact ⟨c, rfl, .refl, .refl⟩
  | @step stack a b spec _ hspec hrun ih =>
    obtain ⟨ha, hstack⟩ := ih
    have hab := extends_of_open hspec (opens_of_run hrun).1
    refine ⟨ha.tail hab, ?_⟩
    intro p hp
    rcases List.mem_append.mp hp with hp | hp
    · obtain ⟨s, hs, hcs, hsa⟩ := hstack p hp
      exact ⟨s, hs, hcs, hsa.tail hab⟩
    · obtain rfl := List.mem_singleton.mp hp
      exact ⟨b, rfl, ha.tail hab, .refl⟩

theorem mem (h : Trail disk c stack a) : a.path ∈ stack := by
  cases h with
  | start => exact List.mem_singleton_self _
  | step _ _ _ => exact List.mem_append_right _ (List.mem_singleton_self _)

theorem isFile (hc : disk.isFile c.path = true) (h : Trail disk c stack a) :
    ∀ p ∈ stack, disk.isFile p = true := by
  induction h with
  | start =>
    intro p hp
    obtain rfl := List.mem_singleton.mp hp
    exact hc
  | step _ _ hrun ih =>
    intro p hp
    rcases List.mem_append.mp hp with hp | hp
    · exact ih p hp
    · obtain rfl := List.mem_singleton.mp hp
      exact isFile_of_open (opens_of_run hrun).1

end Trail

/-- A file that is opened is at none of the places of the files that are being read. -/
def Separate (disk : Disk) (c : Opened) : Prop :=
  ∀ stack a b, Trail disk c stack a → Extends disk a b → stack.any b.path.same = false →
    disk.find b.path ∉ stack.map disk.find

theorem Trail.nodup (hseparate : Separate disk c) (h : Trail disk c stack a) :
    (stack.map disk.find).Nodup := by
  induction h with
  | start => exact List.nodup_singleton _
  | @step stack a b spec htrail hspec hrun ih =>
    obtain ⟨hopen, hstack⟩ := opens_of_run hrun
    have hnew := hseparate stack a b htrail (extends_of_open hspec hopen) hstack
    rw [List.map_append, List.map_singleton, ← List.concat_eq_append]
    exact List.Nodup.concat hnew ih

theorem Trail.length_le (hc : disk.isFile c.path = true) (hseparate : Separate disk c)
    (h : Trail disk c stack a) : stack.length ≤ disk.fileCount :=
  Disk.length_le_fileCount (h.isFile hc) (h.nodup hseparate)

end Trail

/-! ### Reading with all that is extended -/

theorem fileCount_lt_extendsBound (disk : Disk) (p : Path) :
    disk.fileCount < extendsBound disk + [p].length := by
  have hfilter := List.length_filter_le (fun e : Location × Entry => decide (e.2 ≠ .folder))
    disk.entries
  unfold Disk.fileCount extendsBound
  rw [List.length_singleton]
  omega

section Layers

variable {disk : Disk} {stack : List Path} {folder path : Path} {spec : String}
  {specs : List String}
variable {layer base result : Layer} {xs ys zs : List Problem}
variable {f : List Path → Path → Json → Noting Layer}

theorem extendAll_skips (hopen : Notes (openBase disk stack spec folder) none xs)
    (hrest : Notes (extendAll f disk stack folder specs layer) result ys) :
    Notes (extendAll f disk stack folder (spec :: specs) layer) result (xs ++ ys) := by
  unfold extendAll
  exact hopen.bind hrest

theorem extendAll_opens {p : Path} {v : Json}
    (hopen : Notes (openBase disk stack spec folder) (some (p, v)) xs)
    (hbase : Notes (f (stack ++ [p]) p v) base ys)
    (hrest : Notes (extendAll f disk stack folder specs (base.above layer)) result zs) :
    Notes (extendAll f disk stack folder (spec :: specs) layer) result (xs ++ (ys ++ zs)) := by
  unfold extendAll
  exact hopen.bind (hbase.bind hrest)

theorem layerOf_object {depth : Nat} {root : List (String × Json)} {lower own : Layer}
    (hbases : Notes (basesOf root) specs xs)
    (hlower : Notes (extendAll (layerOf disk depth) disk stack path.parent specs .empty) lower ys)
    (hown : Notes (ownLayer path.parent root) own zs) :
    Notes (layerOf disk (depth + 1) stack path (.object root)) (own.above lower)
      (xs ++ (ys ++ (zs ++ []))) := by
  unfold layerOf
  exact hbases.bind (hlower.bind (hown.bind (.pure _)))

/-- A reader of files that gives a layer of every one. -/
def GivesLayer (f : List Path → Path → Json → Noting Layer) : Prop :=
  ∀ stack path value, ∃ layer noted, Notes (f stack path value) layer noted

theorem extendAll_gives (hf : GivesLayer f) (disk : Disk) (stack : List Path) (folder : Path)
    (specs : List String) (layer : Layer) :
    ∃ result noted, Notes (extendAll f disk stack folder specs layer) result noted := by
  induction specs generalizing layer with
  | nil => exact ⟨layer, [], .pure layer⟩
  | cons spec specs ih =>
    obtain ⟨answer, xs, hopen, _⟩ := openBase_notes disk stack spec folder
    rcases answer with - | ⟨p, v⟩
    · obtain ⟨result, ys, hrest⟩ := ih layer
      exact ⟨result, _, extendAll_skips hopen hrest⟩
    · obtain ⟨base, ys, hbase⟩ := hf (stack ++ [p]) p v
      obtain ⟨result, zs, hrest⟩ := ih (base.above layer)
      exact ⟨result, _, extendAll_opens hopen hbase hrest⟩

theorem layerOf_gives (disk : Disk) (depth : Nat) : GivesLayer (layerOf disk depth) := by
  induction depth with
  | zero => exact fun _ _ _ => ⟨Layer.empty, [], .pure Layer.empty⟩
  | succ depth ih =>
    intro stack path value
    cases value with
    | object root =>
      obtain ⟨xs, hbases⟩ := basesOf_notes root
      obtain ⟨lower, ys, hlower⟩ :=
        extendAll_gives ih disk stack path.parent (extendTexts (.object root)) .empty
      obtain ⟨own, zs, hown, _⟩ := ownLayer_notes ⟨path, .object root⟩ rfl
      exact ⟨_, _, layerOf_object hbases hlower hown⟩
    | null | bool _ | number _ | string _ | array _ =>
      refine ⟨Layer.empty, [.rootNotObject (path.fileName?.getD "")], ?_⟩
      unfold layerOf
      exact .fault _ Layer.empty

end Layers

/-! ### Projects -/

/-- What a configuration file says together with all that it extends, and what is wrong with it. -/
def layerFrom (disk : Disk) (c : Opened) : Layer × List Problem :=
  (layerOf disk (extendsBound disk) [c.path] c.path c.value).run []

theorem options_fromValue (disk : Disk) (c : Opened) :
    (fromValue disk c.path c.value).1.options = (layerFrom disk c).1.options := rfl

theorem problems_fromValue (disk : Disk) (c : Opened) : (fromValue disk c.path c.value).2 =
    (layerFrom disk c).2 ++ if (selectedFiles disk (layerFrom disk c).1 c.folder).isEmpty
      then [emptyProblem (layerFrom disk c).1 c.path] else [] := by
  change (if (selectedFiles disk (layerFrom disk c).1 c.folder).isEmpty then
    (layerFrom disk c).2 ++ [emptyProblem (layerFrom disk c).1 c.path]
    else (layerFrom disk c).2) = _
  split
  · rfl
  · rw [List.append_nil]

/-- The configuration file that a project is read from. -/
structure Starts (disk : Disk) (cwd path : Path) (c : Opened) : Prop where
  located : cwd.locate path = c.path
  isFile : disk.isFile c.path = true
  opened : opened? disk c.path = some c

/-- A project is read without problems, or they are told. -/
theorem Starts.resolve_eq {disk : Disk} {cwd path : Path} {c : Opened}
    (h : Starts disk cwd path c) :
    resolve disk cwd path =
      if (fromValue disk c.path c.value).2 = [] then .ok (fromValue disk c.path c.value).1
      else .error (.configInvalid
        (Diagnostic.renderAll cwd ((fromValue disk c.path c.value).2.map Diagnostic.global))) := by
  obtain ⟨_, text, hread, hvalue⟩ := opened?_eq_some.mp h.opened
  unfold resolve
  simp only [h.located, h.isFile, hread, Bool.not_true, Bool.false_eq_true, if_false]
  change Except.bind (Except.mapError _ (Json.readCommented text)) _ = _
  rw [hvalue]
  dsimp only [Except.mapError, Except.bind]
  generalize fromValue disk c.path c.value = outcome
  obtain ⟨config, problems⟩ := outcome
  cases problems with
  | nil => rfl
  | cons p problems => rfl

theorem Starts.resolve_error {disk : Disk} {cwd path : Path} {c : Opened} {p : Problem}
    (h : Starts disk cwd path c) (hp : p ∈ (fromValue disk c.path c.value).2) :
    ∃ problems : List Problem, p ∈ problems ∧ resolve disk cwd path = .error (.configInvalid
      (Diagnostic.renderAll cwd (problems.map Diagnostic.global))) := by
  refine ⟨_, hp, ?_⟩
  rw [h.resolve_eq, if_neg (List.ne_nil_of_mem hp)]

/-- A file of a disk, as far as it can be read. -/
def fileAt (disk : Disk) (path : String) : Opened := (opened? disk ⟨path⟩).getD ⟨⟨path⟩, .null⟩

section FileAt

variable {disk : Disk} {path : String} (hopened : (opened? disk ⟨path⟩).isSome = true)
include hopened

theorem opened?_fileAt : opened? disk ⟨path⟩ = some (fileAt disk path) := by
  obtain ⟨b, hb⟩ := Option.isSome_iff_exists.mp hopened
  rw [fileAt, hb, Option.getD_some]

theorem path_fileAt : (fileAt disk path).path = ⟨path⟩ :=
  (opened?_eq_some.mp (opened?_fileAt hopened)).1.symm

theorem open?_fileAt {path' spec : String} (hopened' : (opened? disk ⟨path'⟩).isSome = true)
    (hfind : findBase disk spec (Path.parent ⟨path⟩) = some ⟨path'⟩) :
    open? disk (fileAt disk path).folder spec = some (fileAt disk path') := by
  rw [open?, Opened.folder, path_fileAt hopened, hfind, Option.bind_some, opened?_fileAt hopened']

theorem starts_fileAt {cwd start : Path} (hlocate : cwd.locate start = ⟨path⟩)
    (hfile : disk.isFile ⟨path⟩ = true) : Starts disk cwd start (fileAt disk path) := by
  have hpath := path_fileAt hopened
  refine ⟨hlocate.trans hpath.symm, ?_, ?_⟩
  · rw [hpath]
    exact hfile
  · rw [hpath]
    exact opened?_fileAt hopened

end FileAt

end Config

end TypeOnly
