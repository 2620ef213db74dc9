import TypeOnly.Config.Resolve
import TypeOnly.Proofs.ModuleSearch

/-!
What one configuration file says itself, and what several of them say together, the later over the
earlier ones.
-/

namespace TypeOnly

set_option autoImplicit false

namespace Config


/-! ### Readings that note problems -/

/-- A reading gives a value and notes problems, whatever was noted before. -/
def Notes {α : Type} (m : Noting α) (a : α) (noted : List Problem) : Prop :=
  ∀ before, m.run before = (a, before ++ noted)

namespace Notes

variable {α β : Type} {m : Noting α} {f : α → Noting β} {a : α} {b : β} {xs ys : List Problem}

theorem pure (a : α) : Notes (Pure.pure a) a [] := by
  intro before
  rw [List.append_nil]
  rfl

theorem note (p : Problem) : Notes (Config.note p) () [p] := fun _ => rfl

theorem bind (hm : Notes m a xs) (hf : Notes (f a) b ys) : Notes (m >>= f) b (xs ++ ys) := by
  intro before
  have hrun : (m >>= f).run before = (f (m.run before).1).run (m.run before).2 := rfl
  rw [hrun, hm before]
  exact (hf _).trans (by rw [List.append_assoc])

theorem run (h : Notes m a xs) : m.run [] = (a, xs) := h []

theorem fault (p : Problem) (a : α) : Notes (Config.note p >>= fun _ => Pure.pure a) a [p] :=
  (note p).bind (pure a)

end Notes

theorem textsOf_notes (name : String) (items : List Json) :
    Notes (textsOf name items) (items.filterMap Json.asString?)
      ((items.filter fun j => j.asString?.isNone).map fun _ => .optionMismatch name "string") := by
  induction items with
  | nil => exact .pure []
  | cons item rest ih =>
    cases item with
    | string s =>
      have hcons := ih.bind (f := fun texts => Pure.pure (s :: texts)) (.pure _)
      rw [List.append_nil] at hcons
      exact hcons
    | null | bool _ | number _ | array _ | object _ => exact Notes.bind (.note _) ih

/-- The texts of a list, and none of anything else. -/
def texts (value : Json) : List String := (Options.textsIn value).getD []

def isTextList : Json → Bool
  | .array items => items.all fun j => j.asString?.isSome
  | _ => false

theorem textList_notes (name : String) (value : Json) : ∃ noted,
    Notes (textList name value) (texts value) noted ∧
      (isTextList value = true ∨ ∃ type, Problem.optionMismatch name type ∈ noted) := by
  cases value with
  | array items =>
    refine ⟨_, textsOf_notes name items, ?_⟩
    cases hall : isTextList (.array items) with
    | true => exact Or.inl rfl
    | false =>
      obtain ⟨j, hj, hnone⟩ := List.all_eq_false.mp hall
      refine Or.inr ⟨"string", List.mem_map.mpr ⟨j, List.mem_filter.mpr ⟨hj, ?_⟩, rfl⟩⟩
      simpa using hnone
  | null | bool _ | number _ | string _ | object _ =>
    exact ⟨_, .fault _ [], Or.inr ⟨"Array", by simp⟩⟩

/-! ### Options -/

/-- An option as it is kept: nothing of null and of a value of the wrong type. -/
def kept? (folder : Path) (name : String) (value : Json) : Option Json :=
  if value.isNull then none
  else if name ∈ switchOptions then value.asBool?.map .bool
  else if name ∈ placeOptions then value.asString?.map (located folder)
  else if name ∈ placeListOptions then
    if isTextList value then some (.array ((texts value).map (located folder))) else none
  else if name = "paths" then if isPathMap value then some value else none
  else some value

/-- What an option adds to the options. Paths by name come with the folder that they are seen
from. -/
def contribution (folder : Path) (option : String × Json) : List (String × Json) :=
  match kept? folder option.1 option.2 with
  | none => []
  | some value =>
    if option.1 = "paths" then [("pathsBasePath", .string folder.slashed), (option.1, value)]
    else [(option.1, value)]

theorem switch_only {name : String} (h : name ∈ switchOptions) :
    name ∉ placeOptions ∧ name ∉ placeListOptions ∧ name ≠ "paths" := by
  revert name
  decide

theorem place_only {name : String} (h : name ∈ placeOptions) :
    name ∉ switchOptions ∧ name ≠ "paths" ∧ name ≠ "pathsBasePath" := by
  revert name
  decide

theorem placeList_only {name : String} (h : name ∈ placeListOptions) :
    name ∉ switchOptions ∧ name ∉ placeOptions ∧ name ≠ "paths" ∧ name ≠ "pathsBasePath" := by
  revert name
  decide

/-- What an option adds is what is kept of it. A list of paths that has other things in it, or is
none, adds something else, but that is noted. -/
theorem optionEntries_notes (folder : Path) (name : String) (value : Json) :
    ∃ entries noted, Notes (optionEntries folder name value) entries noted ∧
      (entries = contribution folder (name, value) ∨
        (∃ v, entries = [(name, v)]) ∧ contribution folder (name, value) = [] ∧
          name ∈ placeListOptions ∧ ∃ type, Problem.optionMismatch name type ∈ noted) := by
  unfold optionEntries contribution kept?
  -- one case for each table of names, in the order in which they are asked
  by_cases hnull : value.isNull = true
  · exact ⟨[], [], by simpa [hnull] using .pure [], by simp [hnull]⟩
  by_cases hswitch : name ∈ switchOptions
  · obtain ⟨hplace, hlist, hpaths⟩ := switch_only hswitch
    cases value with
    | bool b =>
      refine ⟨[(name, .bool b)], [], ?_, ?_⟩
      · simpa [hplace, hlist, hpaths, Json.isNull, Json.asBool?] using .pure _
      · simp [hswitch, hpaths, Json.isNull, Json.asBool?]
    | null | number _ | string _ | array _ | object _ =>
      refine ⟨[], [.optionMismatch name "boolean"], ?_, ?_⟩
      · simpa [hnull, hswitch, Json.asBool?] using .fault _ []
      · simp [hswitch, Json.asBool?]
  by_cases hplace : name ∈ placeOptions
  · obtain ⟨_, hpaths, _⟩ := place_only hplace
    cases value with
    | string t =>
      refine ⟨[(name, located folder t)], [], ?_, ?_⟩
      · simpa [hswitch, hplace, Json.isNull] using .pure _
      · simp [hswitch, hplace, hpaths, Json.isNull, Json.asString?]
    | null | bool _ | number _ | array _ | object _ =>
      refine ⟨[], [.optionMismatch name "string"], ?_, ?_⟩
      · simpa [hnull, hswitch, hplace] using .fault _ []
      · simp [hswitch, hplace, Json.asString?]
  by_cases hlist : name ∈ placeListOptions
  · obtain ⟨_, _, hpaths, _⟩ := placeList_only hlist
    obtain ⟨noted, hnotes, htyped⟩ := textList_notes name value
    refine ⟨[(name, .array ((texts value).map (located folder)))], noted ++ [], ?_, ?_⟩
    · rw [if_neg hnull, if_neg (by simp [hswitch]), if_neg (by simpa using hplace),
        if_pos (by simpa using hlist)]
      exact hnotes.bind (.pure _)
    · cases hvalue : isTextList value with
      | true => simp [hnull, hswitch, hplace, hlist, hpaths]
      | false =>
        obtain ⟨type, htype⟩ := htyped.resolve_left (by simp [hvalue])
        exact Or.inr ⟨⟨_, rfl⟩, by simp [hswitch, hplace, hlist], hlist, type, by simpa using htype⟩
  rcases eq_or_ne name "paths" with rfl | hpaths
  · cases hvalue : isPathMap value with
    | true =>
      refine ⟨[("pathsBasePath", .string folder.slashed), ("paths", value)], [], ?_, ?_⟩
      · simpa [hnull, hswitch, hplace, hlist, hvalue] using .pure _
      · simp [hnull, hswitch, hplace, hlist]
    | false =>
      refine ⟨[], [.optionMismatch "paths" "object"], ?_, ?_⟩
      · simpa [hnull, hswitch, hplace, hlist, hvalue] using .fault _ []
      · simp [hswitch, hplace, hlist]
  · refine ⟨[(name, value)], [], ?_, ?_⟩
    · simpa [hnull, hswitch, hplace, hlist, hpaths] using .pure _
    · simp [hnull, hswitch, hplace, hlist, hpaths]

/-- An option about which nothing is wrong with a list of paths. -/
def Sound (noted : List Problem) (name : String) : Prop :=
  name ∈ placeListOptions → ∀ type, Problem.optionMismatch name type ∉ noted

theorem Sound.mono {noted all : List Problem} {name : String} (h : Sound all name)
    (hsub : noted ⊆ all) : Sound noted name :=
  fun hname type hnoted => h hname type (hsub hnoted)

theorem optionsFrom_notes (folder : Path) (fields : List (String × Json)) (options : Options) :
    ∃ options' noted, Notes (optionsFrom folder fields options) options' noted ∧
      ∀ name, Sound noted name → options'.get? name =
        ((fields.flatMap (contribution folder)).reverse.lookup name).or (options.get? name) := by
  induction fields generalizing options with
  | nil => exact ⟨options, [], .pure options, fun name _ => rfl⟩
  | cons option rest ih =>
    obtain ⟨entries, noted, hnotes, hentries⟩ := optionEntries_notes folder option.1 option.2
    obtain ⟨options', noted', hnotes', hget⟩ := ih (options.insertAll entries)
    refine ⟨options', noted ++ noted', hnotes.bind hnotes', ?_⟩
    intro name hsound
    rw [hget name (hsound.mono (List.subset_append_right noted noted')), Dictionary.get?_insertAll,
      List.flatMap_cons, List.reverse_append, List.lookup_append, Option.or_assoc]
    congr 2
    rcases hentries with rfl | ⟨⟨v, rfl⟩, hnone, hlist, type, htype⟩
    · rfl
    · have hname : name ≠ option.1 := by
        rintro rfl
        exact hsound hlist type (List.mem_append_left noted' htype)
      rw [show contribution folder option = [] from hnone, List.reverse_singleton,
        lookup_cons_eq, if_neg hname]
      rfl

/-! ### Files -/

/-- A configuration file that was found and read. -/
structure Opened where
  path : Path
  value : Json

namespace Opened

def folder (b : Opened) : Path := b.path.parent

/-- The options as they are written. -/
def written (b : Opened) : List (String × Json) :=
  match b.value.field? "compilerOptions" with
  | some (.object fields) => fields
  | _ => []

/-- What a file makes an option. -/
def option? (b : Opened) (name : String) : Option Json :=
  (b.written.flatMap (contribution b.folder)).reverse.lookup name

/-- The texts under a key and where they are seen from. -/
def specs? (b : Opened) (key : String) : Option SpecList :=
  (b.value.field? key).map fun value => ⟨texts value, b.folder⟩

end Opened

/-- What the last of some files says of a thing, of those that say something. -/
def lastWord {α : Type} (files : List Opened) (f : Opened → Option α) : Option α :=
  files.reverse.findSome? f

theorem lastWord_append {α : Type} (gs fs : List Opened) (f : Opened → Option α) :
    lastWord (gs ++ fs) f = (lastWord fs f).or (lastWord gs f) := by
  rw [lastWord, List.reverse_append, List.findSome?_append]
  rfl

theorem lastWord_singleton {α : Type} (b : Opened) (f : Opened → Option α) :
    lastWord [b] f = f b := by
  simp [lastWord]

/-- A layer is what these files say together. -/
structure Says (all : List Opened) (layer : Layer) (noted : List Problem) : Prop where
  options : ∀ name, Sound noted name →
    layer.options.get? name = lastWord all fun b => b.option? name
  files : layer.files = lastWord all fun b => b.specs? "files"
  included : layer.included = lastWord all fun b => b.specs? "include"
  excluded : layer.excluded = lastWord all fun b => b.specs? "exclude"

theorem Says.empty : Says [] .empty [] := by
  refine ⟨?_, rfl, rfl, rfl⟩
  intro name _
  rfl

theorem Says.above {fs gs : List Opened} {upper lower : Layer} {xs ys noted : List Problem}
    (hupper : Says fs upper xs) (hlower : Says gs lower ys) (hxs : xs ⊆ noted) (hys : ys ⊆ noted) :
    Says (gs ++ fs) (upper.above lower) noted := by
  refine ⟨?_, ?_, ?_, ?_⟩
  · intro name hsound
    rw [lastWord_append, ← hupper.options name (hsound.mono hxs),
      ← hlower.options name (hsound.mono hys), Layer.above, Dictionary.get?_insertAll,
      upper.options.ascending.lookup_reverse]
    rfl
  · rw [lastWord_append, ← hupper.files, ← hlower.files]
    rfl
  · rw [lastWord_append, ← hupper.included, ← hlower.included]
    rfl
  · rw [lastWord_append, ← hupper.excluded, ← hlower.excluded]
    rfl

section Own

variable (b : Opened) {root : List (String × Json)} (h : b.value = .object root)
include h

theorem specsFrom_notes (key : String) :
    ∃ noted, Notes (specsFrom b.folder root key) (b.specs? key) noted := by
  have hfield : b.value.field? key = root.lookup key := by
    rw [h]
    rfl
  unfold specsFrom Opened.specs?
  rw [hfield]
  cases root.lookup key with
  | none => exact ⟨[], .pure none⟩
  | some value =>
    obtain ⟨noted, hnotes, _⟩ := textList_notes key value
    exact ⟨noted ++ [], hnotes.bind (.pure _)⟩

/-- A file by itself, once its options are read. -/
theorem ownLayer_rest {m : Noting Options} {options : Options} {noted : List Problem}
    (hm : Notes m options noted)
    (hget : ∀ name, Sound noted name → options.get? name = b.option? name) :
    ∃ own noted',
      Notes (m >>= fun options => do
        let files ← specsFrom b.folder root "files"
        let included ← specsFrom b.folder root "include"
        let excluded ← specsFrom b.folder root "exclude"
        return ⟨options, files, included, excluded⟩) own noted' ∧ Says [b] own noted' := by
  obtain ⟨xs, hfiles⟩ := specsFrom_notes b h "files"
  obtain ⟨ys, hincluded⟩ := specsFrom_notes b h "include"
  obtain ⟨zs, hexcluded⟩ := specsFrom_notes b h "exclude"
  refine ⟨_, _, hm.bind (hfiles.bind (hincluded.bind (hexcluded.bind (.pure _)))), ?_⟩
  refine ⟨?_, ?_, ?_, ?_⟩
  · intro name hsound
    rw [lastWord_singleton, hget name (hsound.mono (List.subset_append_left _ _))]
  all_goals rw [lastWord_singleton]

theorem ownLayer_notes :
    ∃ own noted, Notes (ownLayer b.folder root) own noted ∧ Says [b] own noted := by
  have hfield : b.value.field? "compilerOptions" = root.lookup "compilerOptions" := by
    rw [h]
    rfl
  -- without options there is nothing to say about any of them
  have hnone (hwritten : b.written = []) (noted : List Problem) (name : String)
      (_ : Sound noted name) : (∅ : Options).get? name = b.option? name := by
    rw [Opened.option?, hwritten]
    rfl
  unfold ownLayer
  cases hoptions : root.lookup "compilerOptions" with
  | none =>
    have hwritten : b.written = [] := by rw [Opened.written, hfield, hoptions]
    exact ownLayer_rest b h (.pure ∅) (hnone hwritten [])
  | some value =>
    rw [hoptions] at hfield
    cases value with
    | null =>
      have hwritten : b.written = [] := by rw [Opened.written, hfield]
      exact ownLayer_rest b h (.pure ∅) (hnone hwritten [])
    | object fields =>
      have hwritten : b.written = fields := by rw [Opened.written, hfield]
      obtain ⟨options, noted, hnotes, hget⟩ := optionsFrom_notes b.folder fields ∅
      refine ownLayer_rest b h hnotes ?_
      intro name hsound
      rw [hget name hsound, Opened.option?, hwritten, Dictionary.get?_empty, Option.or_none]
    | bool _ | number _ | string _ | array _ =>
      have hwritten : b.written = [] := by rw [Opened.written, hfield]
      exact ownLayer_rest b h (.fault _ ∅) (hnone hwritten _)

end Own

end Config

end TypeOnly
