import TypeOnly.Proofs.ExtendedConfigs

/-!
Configuration files that extend themselves. As long as no file is found under a path with a step up
in it, the files that are read one inside the other are different ones, and a circle of them is
told.
-/

namespace TypeOnly.Config

set_option autoImplicit false

open Relation (ReflTransGen TransGen)

variable {disk : Disk} {c a b : Opened} {stack : List Path} {depth : Nat}

/-- No file is found under a path with a step up in it. -/
def NoStepUp (disk : Disk) (c : Opened) : Prop :=
  ∀ b, Reaches disk c b → Part.up ∉ b.path.parts

theorem NoStepUp.separate (h : NoStepUp disk c) (hc : disk.isFile c.path = true) :
    Separate disk c := by
  intro stack a b htrail hab hstack hmem
  obtain ⟨p, hp, hfind⟩ := List.mem_map.mp hmem
  obtain ⟨hreaches, htrailed⟩ := htrail.reaches
  obtain ⟨s, rfl, hs, _⟩ := htrailed p hp
  obtain ⟨loc, _, hloc, _, _⟩ := Disk.find_of_isFile (htrail.isFile hc s.path hp)
  have hparts := Disk.parts_of_find hloc (h s hs)
  rw [hfind] at hloc
  have hsame : b.path.same s.path = true := by
    rw [Path.same_iff, hparts, Disk.parts_of_find hloc (h b (hreaches.tail hab))]
  rw [List.any_eq_false] at hstack
  exact hstack s.path hp hsame

/-! ### How deep files are read -/

theorem Notes.bind_congr {α β : Type} {m : Noting α} {f g : α → Noting β} {x : α}
    {noted : List Problem} (hm : Notes m x noted) (h : f x = g x) : m >>= f = m >>= g := by
  funext before
  have hrun (k : α → Noting β) : (m >>= k) before = (k (m.run before).1).run (m.run before).2 := rfl
  rw [hrun, hrun, hm before]
  exact congrArg (fun k : Noting β => k.run _) h

theorem extendAll_congr {f g : List Path → Path → Json → Noting Layer} {folder : Path}
    {specs : List String} (h : ∀ spec ∈ specs, ∀ b : Opened,
      ((openBase disk stack spec folder).run []).1 = some (b.path, b.value) →
        f (stack ++ [b.path]) b.path b.value = g (stack ++ [b.path]) b.path b.value)
    (layer : Layer) :
    extendAll f disk stack folder specs layer = extendAll g disk stack folder specs layer := by
  induction specs generalizing layer with
  | nil => rfl
  | cons spec specs ih =>
    have hrest := ih fun spec' hspec' => h spec' (List.mem_cons_of_mem spec hspec')
    obtain ⟨answer, noted, hopen, _⟩ := openBase_notes disk stack spec folder
    unfold extendAll
    apply hopen.bind_congr
    rcases answer with - | ⟨p, v⟩
    · exact hrest layer
    · have hbase := h spec List.mem_cons_self ⟨p, v⟩ (by rw [hopen.run])
      dsimp only at hbase ⊢
      rw [hbase]
      exact congrArg _ (funext fun base => hrest (base.above layer))

/-- Once files cannot be read any deeper, it does not matter how deep they may be. -/
theorem Trail.layerOf_eq (hc : disk.isFile c.path = true) (hseparate : Separate disk c)
    {depth' : Nat} (h : Trail disk c stack a) (hdepth : disk.fileCount < depth + stack.length)
    (hdepth' : disk.fileCount < depth' + stack.length) :
    layerOf disk depth stack a.path a.value = layerOf disk depth' stack a.path a.value := by
  induction depth generalizing depth' stack a with
  | zero =>
    -- there are no more files that could be read inside
    have hlength := h.length_le hc hseparate
    omega
  | succ depth ih =>
    cases depth' with
    | zero =>
      have hlength := h.length_le hc hseparate
      omega
    | succ depth' =>
      unfold layerOf
      cases hvalue : a.value with
      | object root =>
        obtain ⟨noted, hbases⟩ := basesOf_notes root
        apply hbases.bind_congr
        refine congrArg (fun lower => lower >>= _) ?_
        apply extendAll_congr
        intro spec hspec b hrun
        rw [← hvalue] at hspec
        apply ih (h.step hspec hrun)
        · rw [List.length_append]
          simp only [List.length_singleton]
          omega
        · rw [List.length_append]
          simp only [List.length_singleton]
          omega
      | null | bool _ | number _ | string _ | array _ => rfl

/-! ### Circles -/

def TellsCircle (m : Noting Layer) : Prop :=
  ∃ layer noted chain, Notes m layer noted ∧ Problem.circularExtends chain ∈ noted

theorem extendAll_tells {f : List Path → Path → Json → Noting Layer} (hf : GivesLayer f)
    {folder : Path} {spec : String} {specs : List String} (hspec : spec ∈ specs)
    (h : (∃ chain, Notes (openBase disk stack spec folder) none [.circularExtends chain]) ∨
      ∃ p v, Notes (openBase disk stack spec folder) (some (p, v)) [] ∧
        TellsCircle (f (stack ++ [p]) p v)) (layer : Layer) :
    TellsCircle (extendAll f disk stack folder specs layer) := by
  induction specs generalizing layer with
  | nil => cases hspec
  | cons first specs ih =>
    rcases List.mem_cons.mp hspec with rfl | hspec
    · rcases h with ⟨chain, hopen⟩ | ⟨p, v, hopen, base, ys, chain, hbase, hchain⟩
      · obtain ⟨result, ys, hrest⟩ := extendAll_gives hf disk stack folder specs layer
        exact ⟨result, _, chain, extendAll_skips hopen hrest, by simp⟩
      · obtain ⟨result, zs, hrest⟩ := extendAll_gives hf disk stack folder specs (base.above layer)
        exact ⟨result, _, chain, extendAll_opens hopen hbase hrest, by simp [hchain]⟩
    · obtain ⟨answer, xs, hopen, _⟩ := openBase_notes disk stack first folder
      rcases answer with - | ⟨p, v⟩
      · obtain ⟨result, ys, chain, hrest, hchain⟩ := ih hspec layer
        exact ⟨result, _, chain, extendAll_skips hopen hrest, by simp [hchain]⟩
      · obtain ⟨base, ys, hbase⟩ := hf (stack ++ [p]) p v
        obtain ⟨result, zs, chain, hrest, hchain⟩ := ih hspec (base.above layer)
        exact ⟨result, _, chain, extendAll_opens hopen hbase hrest, by simp [hchain]⟩

/-- A circle is told of a file if one of the files that it extends is being read, or if a circle is
told of that one. -/
theorem layerOf_tells (hab : Extends disk a b)
    (h : stack.any b.path.same = false →
      TellsCircle (layerOf disk depth (stack ++ [b.path]) b.path b.value)) :
    TellsCircle (layerOf disk (depth + 1) stack a.path a.value) := by
  obtain ⟨spec, hspec, hopen⟩ := List.mem_filterMap.mp hab
  obtain ⟨root, hroot⟩ : ∃ root, a.value = .object root := by
    cases hvalue : a.value with
    | object root => exact ⟨root, rfl⟩
    | null | bool _ | number _ | string _ | array _ =>
      rw [hvalue] at hspec
      cases hspec
  have hlower : TellsCircle (extendAll (layerOf disk depth) disk stack a.folder
      (extendTexts a.value) .empty) := by
    apply extendAll_tells (layerOf_gives disk depth) hspec
    cases hstack : stack.any b.path.same with
    | true => exact Or.inl ⟨_, openBase_circular hopen hstack⟩
    | false => exact Or.inr ⟨_, _, openBase_opens hopen hstack, h hstack⟩
  obtain ⟨lower, ys, chain, hlower, hchain⟩ := hlower
  obtain ⟨xs, hbases⟩ := basesOf_notes root
  obtain ⟨own, zs, hown, _⟩ := ownLayer_notes a hroot
  rw [hroot] at hlower ⊢
  exact ⟨_, _, chain, layerOf_object hbases hlower hown, by simp [hchain]⟩

section Walks

variable (hc : disk.isFile c.path = true) (hseparate : Separate disk c)
include hc hseparate

/-- One step of a walk: where it does not come back yet, it goes on inside. -/
theorem Trail.tells_step (h : Trail disk c stack a) (hab : Extends disk a b)
    (hdepth : disk.fileCount < depth + stack.length)
    (hgoes : ∀ depth', disk.fileCount < depth' + (stack ++ [b.path]).length →
      Trail disk c (stack ++ [b.path]) b →
      TellsCircle (layerOf disk depth' (stack ++ [b.path]) b.path b.value)) :
    TellsCircle (layerOf disk depth stack a.path a.value) := by
  have hlength := h.length_le hc hseparate
  obtain ⟨depth, rfl⟩ : ∃ n, depth = n + 1 := ⟨depth - 1, by omega⟩
  obtain ⟨spec, hspec, hopen⟩ := List.mem_filterMap.mp hab
  apply layerOf_tells hab
  intro hstack
  apply hgoes depth
  · rw [List.length_append, List.length_singleton]
    omega
  · exact h.opens hspec hopen hstack

/-- A walk to the place of a file that is being read. -/
theorem Trail.tells_of_walk (hab : TransGen (Extends disk) a b) (h : Trail disk c stack a)
    (hdepth : disk.fileCount < depth + stack.length)
    (hback : disk.find b.path ∈ stack.map disk.find) :
    TellsCircle (layerOf disk depth stack a.path a.value) := by
  induction hab using TransGen.head_induction_on generalizing stack depth with
  | @single a hab =>
    have hlength := h.length_le hc hseparate
    obtain ⟨depth, rfl⟩ : ∃ n, depth = n + 1 := ⟨depth - 1, by omega⟩
    apply layerOf_tells hab
    intro hstack
    -- a file at one of these places has one of these paths
    exact False.elim (hseparate stack a b h hab hstack hback)
  | head had _ ih =>
    apply h.tells_step hc hseparate had hdepth
    intro depth' hdepth' htrail
    exact ih htrail hdepth' (by simp [hback])

theorem Trail.tells_of_reaches {d : Opened} (had : Reaches disk a d)
    (hdb : TransGen (Extends disk) d b) (hplace : disk.find d.path = disk.find b.path)
    (h : Trail disk c stack a) (hdepth : disk.fileCount < depth + stack.length) :
    TellsCircle (layerOf disk depth stack a.path a.value) := by
  induction had using ReflTransGen.head_induction_on generalizing stack depth with
  | refl =>
    apply h.tells_of_walk hc hseparate hdb hdepth
    rw [← hplace]
    exact List.mem_map_of_mem h.mem
  | head hae _ ih =>
    apply h.tells_step hc hseparate hae hdepth
    intro depth' hdepth' htrail
    exact ih htrail hdepth'

end Walks

/-- Where no file is found under a path with a step up in it, the files that are read one inside the
other are different ones, so they end by themselves, and every circle is told. -/
theorem circular_extends_told {cwd path : Path} (hstarts : Starts disk cwd path c)
    (hup : NoStepUp disk c) :
    (∀ stack a, Trail disk c stack a → (∀ p ∈ stack, disk.isFile p = true) ∧
      (stack.map disk.find).Nodup ∧ stack.length ≤ disk.fileCount) ∧
    (∀ depth, disk.fileCount ≤ depth → layerOf disk depth [c.path] c.path c.value =
      layerOf disk (extendsBound disk) [c.path] c.path c.value) ∧
    ((∃ a b, Reaches disk c a ∧ TransGen (Extends disk) a b ∧ disk.find a.path = disk.find b.path) →
      ∃ (problems : List Problem) (chain : List String), Problem.circularExtends chain ∈ problems ∧
        resolve disk cwd path = .error (.configInvalid
          (Diagnostic.renderAll cwd (problems.map Diagnostic.global)))) := by
  have hc := hstarts.isFile
  have hseparate := hup.separate hc
  have hbound := fileCount_lt_extendsBound disk c.path
  refine ⟨?_, ?_, ?_⟩
  · intro stack a h
    exact ⟨h.isFile hc, h.nodup hseparate, h.length_le hc hseparate⟩
  · intro depth hdepth
    apply Trail.start.layerOf_eq hc hseparate ?_ hbound
    rw [List.length_singleton]
    omega
  · rintro ⟨a, b, hca, hab, hplace⟩
    obtain ⟨layer, noted, chain, hnotes, hchain⟩ :=
      Trail.start.tells_of_reaches hc hseparate hca hab hplace hbound
    have hmem : Problem.circularExtends chain ∈ (fromValue disk c.path c.value).2 := by
      rw [problems_fromValue, layerFrom, hnotes.run]
      exact List.mem_append_left _ hchain
    obtain ⟨problems, hmem, herror⟩ := hstarts.resolve_error hmem
    exact ⟨problems, chain, hmem, herror⟩

/-! ### A circle, and one file under two paths -/

/-- Two files that extend each other. -/
def ringDisk : Disk := .ofTexts [("tsconfig.json", "\x7b\"extends\": \"./a.json\"\x7d"),
  ("a.json", "\x7b\"extends\": \"./tsconfig.json\"\x7d")]

theorem ringDisk_extended :
    (opened? ringDisk ⟨"/tsconfig.json"⟩).isSome = true ∧
      (opened? ringDisk ⟨"/a.json"⟩).isSome = true ∧
      extended ringDisk (fileAt ringDisk "/tsconfig.json") = [fileAt ringDisk "/a.json"] ∧
      extended ringDisk (fileAt ringDisk "/a.json") = [fileAt ringDisk "/tsconfig.json"] := by
  have hfacts : (opened? ringDisk ⟨"/tsconfig.json"⟩).isSome = true ∧
      (opened? ringDisk ⟨"/a.json"⟩).isSome = true ∧
      extendTexts (fileAt ringDisk "/tsconfig.json").value = ["./a.json"] ∧
      findBase ringDisk "./a.json" (Path.parent ⟨"/tsconfig.json"⟩) = some ⟨"/a.json"⟩ ∧
      extendTexts (fileAt ringDisk "/a.json").value = ["./tsconfig.json"] ∧
      findBase ringDisk "./tsconfig.json" (Path.parent ⟨"/a.json"⟩) = some ⟨"/tsconfig.json"⟩ := by
    decide +kernel
  obtain ⟨hstart, hnext, htexts, hfind, htexts', hfind'⟩ := hfacts
  refine ⟨hstart, hnext, ?_, ?_⟩
  · rw [extended, htexts, List.filterMap_cons, open?_fileAt hstart hnext hfind]
    rfl
  · rw [extended, htexts', List.filterMap_cons, open?_fileAt hnext hstart hfind']
    rfl

theorem circular_extends_told_ring : ∃ (problems : List Problem) (chain : List String),
    Problem.circularExtends chain ∈ problems ∧
      resolve ringDisk ⟨"/"⟩ ⟨"tsconfig.json"⟩ = .error (.configInvalid
        (Diagnostic.renderAll ⟨"/"⟩ (problems.map Diagnostic.global))) := by
  obtain ⟨hstart, hnext, hextended, hextended'⟩ := ringDisk_extended
  have hstarts : Starts ringDisk ⟨"/"⟩ ⟨"tsconfig.json"⟩ (fileAt ringDisk "/tsconfig.json") :=
    starts_fileAt hstart (by decide +kernel) (by decide +kernel)
  have hforth :
      Extends ringDisk (fileAt ringDisk "/tsconfig.json") (fileAt ringDisk "/a.json") := by
    simp [Extends, hextended]
  have hback : Extends ringDisk (fileAt ringDisk "/a.json") (fileAt ringDisk "/tsconfig.json") := by
    simp [Extends, hextended']
  have hup : NoStepUp ringDisk (fileAt ringDisk "/tsconfig.json") := by
    intro b hb
    have hone : b = fileAt ringDisk "/tsconfig.json" ∨ b = fileAt ringDisk "/a.json" := by
      induction hb with
      | refl => exact Or.inl rfl
      | tail _ hab ih =>
        unfold Extends at hab
        rcases ih with hb | hb
        · rw [hb, hextended] at hab
          exact Or.inr (List.mem_singleton.mp hab)
        · rw [hb, hextended'] at hab
          exact Or.inl (List.mem_singleton.mp hab)
    rcases hone with hb | hb
    · rw [hb, path_fileAt hstart]
      decide +kernel
    · rw [hb, path_fileAt hnext]
      decide +kernel
  exact (circular_extends_told hstarts hup).2.2
    ⟨_, _, .refl, .tail (.single hforth) hback, rfl⟩

/-- A file that extends itself by way of a package. -/
def stepUpDisk : Disk :=
  ⟨(["node_modules"], .folder) :: (["node_modules", "x"], .folder) ::
    (Disk.ofTexts [("tsconfig.json", "\x7b\"extends\": \"x/../../tsconfig.json\"\x7d")]).entries⟩

/-- The steps up stay in the path, so the file that is being read is not known again. -/
theorem one_file_read_twice :
    Starts stepUpDisk ⟨"/"⟩ ⟨"tsconfig.json"⟩ (fileAt stepUpDisk "/tsconfig.json") ∧
      ∃ stack a, Trail stepUpDisk (fileAt stepUpDisk "/tsconfig.json") stack a ∧
        ¬ (stack.map stepUpDisk.find).Nodup := by
  have hfacts : (opened? stepUpDisk ⟨"/tsconfig.json"⟩).isSome = true ∧
      (opened? stepUpDisk ⟨"/node_modules/x/../../tsconfig.json"⟩).isSome = true ∧
      "x/../../tsconfig.json" ∈ extendTexts (fileAt stepUpDisk "/tsconfig.json").value ∧
      findBase stepUpDisk "x/../../tsconfig.json" (Path.parent ⟨"/tsconfig.json"⟩) =
        some ⟨"/node_modules/x/../../tsconfig.json"⟩ ∧
      [Path.mk "/tsconfig.json"].any (Path.same ⟨"/node_modules/x/../../tsconfig.json"⟩) = false ∧
      (stepUpDisk.find ⟨"/node_modules/x/../../tsconfig.json"⟩).toOption = some ["tsconfig.json"] ∧
      (stepUpDisk.find ⟨"/tsconfig.json"⟩).toOption = some ["tsconfig.json"] := by
    decide +kernel
  obtain ⟨hstart, hagain, hspec, hfind, hnew, hplace, hplace'⟩ := hfacts
  have htrail : Trail stepUpDisk (fileAt stepUpDisk "/tsconfig.json")
      ([(fileAt stepUpDisk "/tsconfig.json").path] ++
        [(fileAt stepUpDisk "/node_modules/x/../../tsconfig.json").path])
      (fileAt stepUpDisk "/node_modules/x/../../tsconfig.json") := by
    apply Trail.start.opens hspec (open?_fileAt hstart hagain hfind)
    rw [path_fileAt hstart, path_fileAt hagain]
    exact hnew
  refine ⟨starts_fileAt hstart (by decide +kernel) (by decide +kernel), _, _, htrail, ?_⟩
  rw [path_fileAt hstart, path_fileAt hagain]
  simp [ok_of_toOption hplace, ok_of_toOption hplace']

end TypeOnly.Config
