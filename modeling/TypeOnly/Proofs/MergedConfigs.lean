import Mathlib.Data.List.DropRight
import TypeOnly.Proofs.ExtendedConfigs

/-!
Configuration files that extend others without a circle. What they say together is, thing by thing,
what the last of them says, in the order in which they count; paths are seen from the file that they
are written in.
-/

namespace TypeOnly

set_option autoImplicit false

namespace Config

open Relation (ReflTransGen TransGen)

/-! ### What is kept of paths -/

section Kept

variable {folder : Path} {name : String} {value v : Json}

theorem kept?_place (hname : name ∈ placeOptions) (h : kept? folder name value = some v) :
    ∃ s, value = .string s ∧ v = located folder s := by
  obtain ⟨hswitch, _, _⟩ := place_only hname
  cases value with
  | string s =>
    simp only [kept?, Json.isNull, hswitch, hname, Json.asString?] at h
    exact ⟨s, rfl, (Option.some.inj h).symm⟩
  | null => cases h
  | bool _ | number _ | array _ | object _ =>
    simp [kept?, Json.isNull, hswitch, hname, Json.asString?] at h

theorem eq_texts_of_isTextList (h : isTextList value = true) :
    value = .array ((texts value).map .string) := by
  cases value with
  | array items =>
    have hitems : ∀ item ∈ items, ∃ s, item = .string s := by
      intro item hitem
      have hsome := List.all_eq_true.mp h item hitem
      cases item with
      | string s => exact ⟨s, rfl⟩
      | null | bool _ | number _ | array _ | object _ => cases hsome
    have hmap (items : List Json) (hitems : ∀ item ∈ items, ∃ s, item = .string s) :
        (items.filterMap Json.asString?).map .string = items := by
      induction items with
      | nil => rfl
      | cons item rest ih =>
        obtain ⟨s, rfl⟩ := hitems item List.mem_cons_self
        simp [Json.asString?, ih fun x hx => hitems x (List.mem_cons_of_mem _ hx)]
    exact congrArg Json.array (hmap items hitems).symm
  | null | bool _ | number _ | string _ | object _ => cases h

theorem kept?_placeList (hname : name ∈ placeListOptions) (h : kept? folder name value = some v) :
    ∃ strings : List String, value = .array (strings.map .string) ∧
      v = .array (strings.map (located folder)) := by
  obtain ⟨hswitch, hplace, _, _⟩ := placeList_only hname
  cases hvalue : isTextList value with
  | false => simp [kept?, hswitch, hplace, hname, hvalue] at h
  | true =>
    refine ⟨texts value, eq_texts_of_isTextList hvalue, ?_⟩
    cases hnull : value.isNull with
    | true => simp [kept?, hnull] at h
    | false =>
      simp only [kept?, hnull, hswitch, hplace, hname, hvalue] at h
      exact (Option.some.inj h).symm

/-- A path is kept as it is unless there is a backslash in it. -/
theorem located_eq_iff (folder : Path) (s : String) :
    located folder s = .string (folder.locate ⟨s⟩).text ↔ (folder.locate ⟨s⟩).Slashed := by
  rw [located, Json.string.injEq, Path.slashed_eq_iff]

end Kept

theorem Opened.option?_mem {b : Opened} {name : String} {v : Json} (hname : name ≠ "pathsBasePath")
    (h : b.option? name = some v) :
    ∃ value, (name, value) ∈ b.written ∧ kept? b.folder name value = some v := by
  obtain ⟨before, after, hentries, _⟩ := List.lookup_eq_some_iff.mp h
  have hmem : (name, v) ∈ (b.written.flatMap (contribution b.folder)).reverse := by
    rw [hentries]
    simp
  obtain ⟨option, hoption, hmem⟩ := List.mem_flatMap.mp (List.mem_reverse.mp hmem)
  unfold contribution at hmem
  split at hmem
  · cases hmem
  · rename_i value hkept
    obtain ⟨rfl, rfl⟩ : name = option.1 ∧ v = value := by
      split at hmem
      · simpa [hname] using hmem
      · simpa using hmem
    exact ⟨option.2, hoption, hkept⟩

/-- The last of some files that says something about an option. -/
def SpeaksLast (files : List Opened) (name : String) (b : Opened) : Prop :=
  ∃ before after, files = before ++ b :: after ∧ (b.option? name).isSome = true ∧
    ∀ x ∈ after, x.option? name = none

theorem lastWord_eq_some {files : List Opened} {name : String} {v : Json}
    (h : (lastWord files fun b => b.option? name) = some v) :
    ∃ b ∈ files, SpeaksLast files name b ∧ b.option? name = some v := by
  obtain ⟨l, b, l', hl, hb, hnone⟩ := List.findSome?_eq_some_iff.mp h
  have hfiles : files = l'.reverse ++ b :: l.reverse := by
    rw [← List.reverse_reverse files, hl]
    simp
  refine ⟨b, by simp [hfiles], ⟨l'.reverse, l.reverse, hfiles, by rw [hb]; rfl, ?_⟩, hb⟩
  intro x hx
  exact hnone x (List.mem_reverse.mp hx)

/-! ### Files in the order in which they count -/

/-- The files that texts after `extends` name, each after those that it extends itself. -/
inductive Listing (disk : Disk) : Path → List String → List Opened → Prop where
  | nil {folder : Path} : Listing disk folder [] []
  | cons {folder : Path} {spec : String} {specs : List String} {b : Opened} {l l' : List Opened} :
      open? disk folder spec = some b → Listing disk b.folder (extendTexts b.value) l →
      Listing disk folder specs l' → Listing disk folder (spec :: specs) (l ++ [b] ++ l')

section Merged

variable {disk : Disk} {c a b : Opened} {stack : List Path} {depth : Nat}

theorem Listing.isFile {folder : Path} {specs : List String} {l : List Opened}
    (h : Listing disk folder specs l) : ∀ b ∈ l, disk.isFile b.path = true := by
  induction h with
  | nil => simp
  | cons hopen _ _ ih ih' =>
    intro x hx
    rcases List.mem_append.mp hx with hx | hx
    · rcases List.mem_append.mp hx with hx | hx
      · exact ih x hx
      · obtain rfl := List.mem_singleton.mp hx
        exact isFile_of_open hopen
    · exact ih' x hx

/-- Every file that is reached is an object, and each file that it extends can be read. -/
def AllRead (disk : Disk) (c : Opened) : Prop :=
  ∀ b, Reaches disk c b → (∃ root, b.value = .object root) ∧
    ∀ spec ∈ extendTexts b.value, (open? disk b.folder spec).isSome = true

/-- No file extends itself, by whatever path it is found. -/
def Acyclic (disk : Disk) (c : Opened) : Prop :=
  ∀ a b, Reaches disk c a → TransGen (Extends disk) a b → disk.find a.path ≠ disk.find b.path

theorem Acyclic.separate (h : Acyclic disk c) : Separate disk c := by
  intro stack a b htrail hab _ hmem
  obtain ⟨p, hp, hfind⟩ := List.mem_map.mp hmem
  obtain ⟨s, rfl, hs, hsa⟩ := htrail.reaches.2 p hp
  exact h s b hs (.tail' hsa hab) hfind

theorem Acyclic.opens (h : Acyclic disk c) (hc : disk.isFile c.path = true)
    (htrail : Trail disk c stack a) {spec : String} (hspec : spec ∈ extendTexts a.value)
    (hopen : open? disk a.folder spec = some b) : stack.any b.path.same = false := by
  rw [List.any_eq_false]
  intro p hp hsame
  obtain ⟨s, rfl, hs, hsa⟩ := htrail.reaches.2 p hp
  apply h s b hs (.tail' hsa (extends_of_open hspec hopen))
  exact Disk.find_eq_of_parts (htrail.isFile hc s.path hp) (isFile_of_open hopen)
    (Path.same_iff.mp hsame).symm

/-- The files that are extended say together what they say one by one. -/
theorem extendAll_spoken {f : List Path → Path → Json → Noting Layer} {folder : Path}
    {specs : List String} (h : ∀ spec ∈ specs, ∃ b l base noted,
      open? disk folder spec = some b ∧ stack.any b.path.same = false ∧
      Listing disk b.folder (extendTexts b.value) l ∧
      Notes (f (stack ++ [b.path]) b.path b.value) base noted ∧ Says (l ++ [b]) base noted)
    {fs : List Opened} {layer : Layer} {xs : List Problem} (hlayer : Says fs layer xs) :
    ∃ l result noted, Listing disk folder specs l ∧
      Notes (extendAll f disk stack folder specs layer) result noted ∧
      Says (fs ++ l) result (xs ++ noted) := by
  induction specs generalizing fs layer xs with
  | nil =>
    refine ⟨[], layer, [], .nil, .pure layer, ?_⟩
    rw [List.append_nil, List.append_nil]
    exact hlayer
  | cons spec specs ih =>
    obtain ⟨b, l, base, ys, hopen, hstack, hlisting, hbase, hspoken⟩ := h spec List.mem_cons_self
    have habove :=
      hspoken.above hlayer (List.subset_append_right xs ys) (List.subset_append_left xs ys)
    obtain ⟨l', result, zs, hlisting', hrest, hresult⟩ :=
      ih (fun spec' hspec' => h spec' (List.mem_cons_of_mem spec hspec')) habove
    refine ⟨l ++ [b] ++ l', result, [] ++ (ys ++ zs), .cons hopen hlisting hlisting',
      extendAll_opens (openBase_opens hopen hstack) hbase hrest, ?_⟩
    rw [List.append_assoc fs, List.append_assoc xs] at hresult
    exact hresult

/-- What is read along the way from a file says what the files say that it extends, and itself. -/
theorem Trail.spoken (hc : disk.isFile c.path = true) (hread : AllRead disk c)
    (hacyclic : Acyclic disk c) (h : Trail disk c stack a)
    (hdepth : disk.fileCount < depth + stack.length) :
    ∃ l layer noted, Listing disk a.folder (extendTexts a.value) l ∧
      Notes (layerOf disk depth stack a.path a.value) layer noted ∧
        Says (l ++ [a]) layer noted := by
  induction depth generalizing stack a with
  | zero =>
    have hlength := h.length_le hc hacyclic.separate
    omega
  | succ depth ih =>
    obtain ⟨⟨root, hroot⟩, hsome⟩ := hread a h.reaches.1
    have hbases : ∀ spec ∈ extendTexts a.value, ∃ b l base noted,
        open? disk a.folder spec = some b ∧ stack.any b.path.same = false ∧
        Listing disk b.folder (extendTexts b.value) l ∧
        Notes (layerOf disk depth (stack ++ [b.path]) b.path b.value) base noted ∧
        Says (l ++ [b]) base noted := by
      intro spec hspec
      obtain ⟨b, hopen⟩ := Option.isSome_iff_exists.mp (hsome spec hspec)
      have hstack := hacyclic.opens hc h hspec hopen
      obtain ⟨l, base, noted, hlisting, hnotes, hspoken⟩ := ih (h.opens hspec hopen hstack)
        (by rw [List.length_append, List.length_singleton]; omega)
      exact ⟨b, l, base, noted, hopen, hstack, hlisting, hnotes, hspoken⟩
    obtain ⟨l, lower, ys, hlisting, hlower, hspoken⟩ := extendAll_spoken hbases Says.empty
    obtain ⟨xs, htexts⟩ := basesOf_notes root
    obtain ⟨own, zs, hown, hself⟩ := ownLayer_notes a hroot
    rw [hroot] at hlower ⊢
    refine ⟨l, own.above lower, _, hroot ▸ hlisting, layerOf_object htexts hlower hown, ?_⟩
    apply hself.above hspoken
    · simp
    · simp

theorem noted_of_resolve {cwd path : Path} {config : Config} (hstarts : Starts disk cwd path c)
    (h : resolve disk cwd path = .ok config) :
    config.options = (layerFrom disk c).1.options ∧ (layerFrom disk c).2 = [] := by
  rw [hstarts.resolve_eq] at h
  split at h
  · rename_i hnone
    obtain rfl := Except.ok.inj h
    rw [problems_fromValue] at hnone
    exact ⟨options_fromValue disk c, (List.append_eq_nil_iff.mp hnone).1⟩
  · cases h

/-- Without a circle, and if all that is extended can be read, what a configuration file says
together with it is what the last file says that says something about it, in the order in which they
count. Paths are absolute, as seen from the file that they are written in, and are kept as they are
as long as there is no backslash in them. -/
theorem merged_last_word (hc : disk.isFile c.path = true) (hread : AllRead disk c)
    (hacyclic : Acyclic disk c) :
    ∃ l, Listing disk c.folder (extendTexts c.value) l ∧
      Says (l ++ [c]) (layerFrom disk c).1 (layerFrom disk c).2 ∧
      (∀ cwd path config, Starts disk cwd path c → resolve disk cwd path = .ok config →
        ∀ name, config.options.get? name = lastWord (l ++ [c]) fun b => b.option? name) ∧
      (∀ name ∈ placeOptions, ∀ v, (layerFrom disk c).1.options.get? name = some v →
        ∃ (b : Opened) (s : String), SpeaksLast (l ++ [c]) name b ∧ (name, .string s) ∈ b.written ∧
          (b.folder.locate ⟨s⟩).isAbsolute = true ∧
          v = .string (b.folder.locate ⟨s⟩).slashed ∧
          Path.isAbsolute ⟨(b.folder.locate ⟨s⟩).slashed⟩ = true ∧
          (v = .string (b.folder.locate ⟨s⟩).text ↔ (b.folder.locate ⟨s⟩).Slashed)) ∧
      (∀ name ∈ placeListOptions, Sound (layerFrom disk c).2 name →
        ∀ v, (layerFrom disk c).1.options.get? name = some v →
        ∃ (b : Opened) (list : List String), SpeaksLast (l ++ [c]) name b ∧
          (name, .array (list.map .string)) ∈ b.written ∧
          v = .array (list.map fun s => .string (b.folder.locate ⟨s⟩).slashed) ∧
          (∀ s ∈ list, (b.folder.locate ⟨s⟩).isAbsolute = true ∧
            Path.isAbsolute ⟨(b.folder.locate ⟨s⟩).slashed⟩ = true) ∧
          (v = .array (list.map fun s => .string (b.folder.locate ⟨s⟩).text) ↔
            ∀ s ∈ list, (b.folder.locate ⟨s⟩).Slashed)) := by
  obtain ⟨l, layer, noted, hlisting, hnotes, hspoken⟩ :=
    Trail.start.spoken hc hread hacyclic (fileCount_lt_extendsBound disk c.path)
  have hlayer : layerFrom disk c = (layer, noted) := hnotes.run
  have habsolute (b : Opened) (hb : b ∈ l ++ [c]) (s : String) :
      (b.folder.locate ⟨s⟩).isAbsolute = true := by
    have hfile : disk.isFile b.path = true := by
      rcases List.mem_append.mp hb with hb | hb
      · exact hlisting.isFile b hb
      · exact List.mem_singleton.mp hb ▸ hc
    exact Path.isAbsolute_locate (Disk.isAbsolute_parent hfile) ⟨s⟩
  have hlast (name : String) (hsound : Sound noted name) (hname : name ≠ "pathsBasePath") (v : Json)
      (hv : layer.options.get? name = some v) :
      ∃ b ∈ l ++ [c], SpeaksLast (l ++ [c]) name b ∧
        ∃ value, (name, value) ∈ b.written ∧ kept? b.folder name value = some v := by
    rw [hspoken.options name hsound] at hv
    obtain ⟨b, hb, hspeaks, hoption⟩ := lastWord_eq_some hv
    exact ⟨b, hb, hspeaks, Opened.option?_mem hname hoption⟩
  rw [hlayer]
  refine ⟨l, hlisting, hspoken, ?_, ?_, ?_⟩
  · intro cwd path config hstarts hok name
    obtain ⟨hoptions, hnone⟩ := noted_of_resolve hstarts hok
    rw [hlayer] at hoptions hnone
    rw [hoptions]
    exact hspoken.options name (by simp [Sound, show noted = [] from hnone])
  · intro name hname v hv
    have hsound : Sound noted name := fun hlist => False.elim ((placeList_only hlist).2.1 hname)
    obtain ⟨b, hb, hspeaks, value, hwritten, hkept⟩ :=
      hlast name hsound (place_only hname).2.2 v hv
    obtain ⟨s, rfl, rfl⟩ := kept?_place hname hkept
    have hlocated := habsolute b hb s
    exact ⟨b, s, hspeaks, hwritten, hlocated, rfl, Path.isAbsolute_slashed hlocated,
      located_eq_iff b.folder s⟩
  · intro name hname hsound v hv
    obtain ⟨b, hb, hspeaks, value, hwritten, hkept⟩ :=
      hlast name hsound (placeList_only hname).2.2.2 v hv
    obtain ⟨list, rfl, rfl⟩ := kept?_placeList hname hkept
    refine ⟨b, list, hspeaks, hwritten, rfl, fun s _ => ?_, ?_⟩
    · exact ⟨habsolute b hb s, Path.isAbsolute_slashed (habsolute b hb s)⟩
    · rw [Json.array.injEq, List.map_inj_left]
      exact forall₂_congr fun s _ => located_eq_iff b.folder s

end Merged

/-! ### One file over another, and a folder with a backslash -/

theorem object_of_asObject? {value : Json} (h : value.asObject?.isSome = true) :
    ∃ root, value = .object root := by
  cases value with
  | object root => exact ⟨root, rfl⟩
  | null | bool _ | number _ | string _ | array _ => cases h

/-- A file that extends another. -/
def layeredDisk : Disk := .ofTexts [("tsconfig.json",
    "\x7b\"extends\": \"./base.json\", \"compilerOptions\": \x7b\"outDir\": \"out\"\x7d\x7d"),
  ("base.json",
    "\x7b\"compilerOptions\": \x7b\"outDir\": \"dist\"\x7d, \"include\": [\"src\"]\x7d")]

theorem merged_last_word_layered :
    ∃ l, Listing layeredDisk (fileAt layeredDisk "/tsconfig.json").folder
        (extendTexts (fileAt layeredDisk "/tsconfig.json").value) l ∧
      Says (l ++ [fileAt layeredDisk "/tsconfig.json"])
        (layerFrom layeredDisk (fileAt layeredDisk "/tsconfig.json")).1
        (layerFrom layeredDisk (fileAt layeredDisk "/tsconfig.json")).2 := by
  have hfacts : (opened? layeredDisk ⟨"/tsconfig.json"⟩).isSome = true ∧
      (opened? layeredDisk ⟨"/base.json"⟩).isSome = true ∧
      extendTexts (fileAt layeredDisk "/tsconfig.json").value = ["./base.json"] ∧
      findBase layeredDisk "./base.json" (Path.parent ⟨"/tsconfig.json"⟩) = some ⟨"/base.json"⟩ ∧
      extendTexts (fileAt layeredDisk "/base.json").value = [] ∧
      (fileAt layeredDisk "/tsconfig.json").value.asObject?.isSome = true ∧
      (fileAt layeredDisk "/base.json").value.asObject?.isSome = true ∧
      layeredDisk.isFile ⟨"/tsconfig.json"⟩ = true ∧
      (layeredDisk.find ⟨"/tsconfig.json"⟩).toOption ≠
        (layeredDisk.find ⟨"/base.json"⟩).toOption := by
    decide +kernel
  obtain ⟨hstart, hbase, htexts, hfind, hend, hobject, hobject', hfile, hplaces⟩ := hfacts
  have hopen := open?_fileAt hstart hbase hfind
  have hstep (b : Opened) (h : Extends layeredDisk (fileAt layeredDisk "/tsconfig.json") b) :
      b = fileAt layeredDisk "/base.json" := by
    rw [Extends, extended, htexts, List.filterMap_cons, hopen] at h
    exact List.mem_singleton.mp h
  have hlast (b : Opened) : ¬ Extends layeredDisk (fileAt layeredDisk "/base.json") b := by
    rw [Extends, extended, hend]
    exact List.not_mem_nil
  have hreaches (b : Opened) (h : Reaches layeredDisk (fileAt layeredDisk "/tsconfig.json") b) :
      b = fileAt layeredDisk "/tsconfig.json" ∨ b = fileAt layeredDisk "/base.json" := by
    induction h with
    | refl => exact Or.inl rfl
    | tail _ hab ih =>
      rcases ih with hb | hb
      · rw [hb] at hab
        exact Or.inr (hstep _ hab)
      · rw [hb] at hab
        exact False.elim (hlast _ hab)
  have hread : AllRead layeredDisk (fileAt layeredDisk "/tsconfig.json") := by
    intro b hb
    rcases hreaches b hb with hb | hb
    · rw [hb, htexts]
      refine ⟨object_of_asObject? hobject, ?_⟩
      intro spec hspec
      rw [List.mem_singleton.mp hspec, hopen]
      rfl
    · rw [hb, hend]
      exact ⟨object_of_asObject? hobject', fun spec hspec => absurd hspec List.not_mem_nil⟩
  have hacyclic : Acyclic layeredDisk (fileAt layeredDisk "/tsconfig.json") := by
    intro a b ha hab
    obtain ⟨d, had, hdb⟩ := TransGen.head'_iff.mp hab
    rcases hreaches a ha with ha | ha
    · rw [ha] at had ⊢
      rw [hstep d had] at hdb
      rcases ReflTransGen.cases_head hdb with hb | ⟨e, hde, _⟩
      · rw [← hb, path_fileAt hstart, path_fileAt hbase]
        exact fun heq => hplaces (congrArg Except.toOption heq)
      · exact False.elim (hlast e hde)
    · rw [ha] at had
      exact False.elim (hlast d had)
  have hisFile : layeredDisk.isFile (fileAt layeredDisk "/tsconfig.json").path = true := by
    rw [path_fileAt hstart]
    exact hfile
  obtain ⟨l, hlisting, hspoken, _⟩ := merged_last_word hisFile hread hacyclic
  exact ⟨l, hlisting, hspoken⟩

/-- A project in a folder with a backslash in its name. -/
def backslashDisk : Disk :=
  ⟨[(["a\\b"], .folder), (["a\\b", "tsconfig.json"],
    .file "\x7b\"compilerOptions\": \x7b\"baseUrl\": \".\"\x7d\x7d".toUTF8)]⟩

/-- The option leads to another folder than the one that the file is in. -/
theorem backslash_becomes_slash :
    extendTexts (fileAt backslashDisk "/a\\b/tsconfig.json").value = [] ∧
      (fileAt backslashDisk "/a\\b/tsconfig.json").folder.locate ⟨"."⟩ = ⟨"/a\\b"⟩ ∧
      Options.string? (fromValue backslashDisk ⟨"/a\\b/tsconfig.json"⟩
        (fileAt backslashDisk "/a\\b/tsconfig.json").value).1.options "baseUrl" = some "/a/b" := by
  decide +kernel

end Config

end TypeOnly
