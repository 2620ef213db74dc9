import TypeOnly.Proofs.FileOrder
import TypeOnly.Proofs.ListFacts
import TypeOnly.Proofs.MergedConfigs
import TypeOnly.Proofs.PatternExpansion
import TypeOnly.Proofs.SelectedFiles

/-!
Specs of files to include and to exclude. What a spec includes is removed when it is excluded too,
though a folder is included by all that is in it and excluded by its name.
-/

namespace TypeOnly.Config

set_option autoImplicit false

open Glob (Pattern Segment Spans)
open TypeOnly.Path (rooted isIdle Filled Slashed)

/-! ### The names of a spec -/

/-- The names that a spec consists of, seen from a folder. -/
def specNames (base : Path) (spec : String) : List String :=
  ((base.locate ⟨spec⟩).parts.drop 1).map Part.text

def plainNames (base : Path) (spec : String) : List String :=
  (specNames base spec).takeWhile fun s => !isWild s

def wildNames (base : Path) (spec : String) : List String :=
  (specNames base spec).dropWhile fun s => !isWild s

section Names

variable {base : Path} {spec : String}

theorem specNames_eq (h : base.isAbsolute = true) : ∃ above names, (∀ s ∈ names, Path.Named s) ∧
    base.locate ⟨spec⟩ = .ofParts (Path.way above names) ∧
      specNames base spec = Path.wayTexts above names := by
  obtain ⟨above, names, hnames, hway⟩ := Path.normalize_eq_way (Path.isAbsolute_locate h ⟨spec⟩)
  refine ⟨above, names, hnames, hway, ?_⟩
  have hparts : (base.locate ⟨spec⟩).parts = Path.way above names := by
    rw [Path.locate, hway, Path.parts_way above hnames]
  rw [specNames, hparts, Path.way, Path.wayTexts]
  cases above <;> simp [Part.text, Function.comp_def]

theorem specNames_spec (h : base.isAbsolute = true) :
    ∀ s ∈ specNames base spec, '/' ∉ s.toList ∧ isIdle s = false := by
  obtain ⟨above, names, hnames, _, htexts⟩ := @specNames_eq base spec h
  intro s hs
  rw [htexts, Path.wayTexts, List.mem_append] at hs
  rcases hs with hs | hs
  · cases above with
    | false => cases hs
    | true =>
      obtain rfl := List.mem_singleton.mp hs
      decide
  · obtain ⟨⟨hempty, hdot, _⟩, hslash⟩ := hnames s hs
    exact ⟨hslash, by simp [isIdle, hempty, hdot]⟩

theorem specNames_filled (habsolute : base.isAbsolute = true) :
    ∀ s ∈ specNames base spec, Filled s := by
  intro s hs
  obtain ⟨hslash, hidle⟩ := specNames_spec habsolute s hs
  refine ⟨?_, hslash⟩
  rintro rfl
  cases hidle

theorem plain_append_wild (base : Path) (spec : String) :
    plainNames base spec ++ wildNames base spec = specNames base spec :=
  List.takeWhile_append_dropWhile

theorem plainNames_filled (habsolute : base.isAbsolute = true) :
    ∀ s ∈ plainNames base spec, Filled s := by
  have hall := @specNames_filled base spec habsolute
  rw [← plain_append_wild, List.forall_mem_append] at hall
  exact hall.1

theorem wildNames_filled (habsolute : base.isAbsolute = true) :
    ∀ s ∈ wildNames base spec, Filled s := by
  have hall := @specNames_filled base spec habsolute
  rw [← plain_append_wild, List.forall_mem_append] at hall
  exact hall.2

theorem splitSpec_eq (h : base.isAbsolute = true) :
    splitSpec base spec = (rooted (plainNames base spec), wildNames base spec) := by
  have habsolute := Path.isAbsolute_locate h ⟨spec⟩
  obtain ⟨rest, hrest⟩ : ∃ rest, (base.locate ⟨spec⟩).parts = .root :: rest := by
    rw [Path.parts, if_pos habsolute]
    exact ⟨_, rfl⟩
  unfold splitSpec splitWild plainNames wildNames specNames
  rw [hrest]
  have hroot : isWild Part.root.text = false := by decide
  simp [hroot, Path.ofParts, rooted, List.takeWhile_map, List.dropWhile_map, Function.comp_def]

end Names

/-! ### The text of a pattern -/

/-- The stretches of an absolute path with these names; the top folder has an empty one. -/
def stretches (names : List String) : List String := if names = [] then [""] else names

theorem rooted_stretches (names : List String) : rooted (stretches names) = rooted names := by
  unfold stretches
  split
  · rename_i h
    rw [h]
    rfl
  · rfl

theorem stretches_ne_nil (names : List String) : stretches names ≠ [] := by
  unfold stretches
  split
  · simp
  · assumption

theorem rooted_append_text {first second : List String} (hfirst : first ≠ []) :
    second.foldl (fun p segment => p ++ "/" ++ segment) (rooted first).text =
      (rooted (first ++ second)).text := by
  induction second generalizing first with
  | nil => rw [List.append_nil]; rfl
  | cons s second ih =>
    rw [List.foldl_cons, Path.text_rooted_concat hfirst, ih (by simp), List.append_assoc,
      List.singleton_append]

/-- The parts of the pattern for a plain path and wildcards below it. -/
def patternTexts (plain wild : List String) : List String :=
  (stretches plain).map Pattern.escape ++ wild

theorem patternText_rooted {plain : List String} (h : Slashed (rooted plain)) (wild : List String) :
    patternText (rooted plain) wild = (rooted (patternTexts plain wild)).text := by
  rw [patternText, Path.slashed_eq h, ← rooted_stretches plain, Pattern.escape_rooted,
    rooted_append_text (by simpa using stretches_ne_nil plain)]
  rfl

theorem patternTexts_eq {plain : List String} (h : plain ≠ []) (wild : List String) :
    patternTexts plain wild = plain.map Pattern.escape ++ wild := by
  rw [patternTexts, stretches, if_neg h]

theorem patternTexts_append (plain wild more : List String) :
    patternTexts plain (wild ++ more) = patternTexts plain wild ++ more := by
  rw [patternTexts, patternTexts, List.append_assoc]

theorem patternTexts_slashFree {plain wild : List String} (hplain : ∀ s ∈ plain, '/' ∉ s.toList)
    (hwild : ∀ s ∈ wild, '/' ∉ s.toList) : ∀ s ∈ patternTexts plain wild, '/' ∉ s.toList := by
  intro s hs
  rcases List.mem_append.mp hs with hs | hs
  · obtain ⟨name, hname, rfl⟩ := List.mem_map.mp hs
    apply Pattern.not_mem_escape
    unfold stretches at hname
    split at hname
    · obtain rfl := List.mem_singleton.mp hname
      decide
    · exact hplain name hname
  · exact hwild s hs

theorem filled_escape {plain wild : List String} (hplain : ∀ s ∈ plain, Filled s)
    (hwild : ∀ s ∈ wild, Filled s) : ∀ s ∈ plain.map Pattern.escape ++ wild, Filled s := by
  rw [List.forall_mem_append, List.forall_mem_map]
  refine ⟨fun s hs => ⟨?_, ?_⟩, hwild⟩
  · exact Pattern.escape_ne_empty (hplain s hs).1
  · exact Pattern.not_mem_escape (hplain s hs).2

/-! ### What is left out -/

theorem isLeftOut_of_mem {patterns : List Pattern} {pattern : Pattern} (hmem : pattern ∈ patterns)
    {p a : Path} (ha : a ∈ p.ancestors) (h : pattern.holds a.text = true) :
    isLeftOut patterns p = true :=
  List.any_eq_true.mpr ⟨a, ha, List.any_eq_true.mpr ⟨pattern, hmem, h⟩⟩

/-- The path of a file ends in a name. -/
theorem not_idle_of_isFile {disk : Disk} {front back : List String}
    (hslash : ∀ s ∈ front ++ back, '/' ∉ s.toList) (hne : back ≠ [])
    (h : disk.isFile (rooted (front ++ back)) = true) : back.all isIdle = false := by
  obtain ⟨loc, bytes, hfind, hloc, hentry⟩ := Disk.find_of_isFile h
  have hwalk := Disk.walk_of_find hfind
  have hfolder : disk.isFolderAt loc = false := by
    unfold Disk.isFile Disk.entry? at h
    rw [hfind] at h
    unfold Disk.isFolderAt
    cases hget : disk.get? loc with
    | none => rfl
    | some e =>
      cases e with
      | file => rfl
      | folder => simp [hget] at h
  obtain ⟨init, name, _, hsegments, ⟨hempty, hdot, _⟩, _⟩ := Disk.walk_file hwalk hfolder
  rw [Path.segments_rooted (by simp [hne]) hslash] at hsegments
  have hlast : back.getLast? = some name := by
    have hall := congrArg List.getLast? hsegments
    rw [List.getLast?_append, List.getLast?_cons, List.getLast?_append,
      List.getLast?_eq_some_getLast hne] at hall
    rw [List.getLast?_eq_some_getLast hne]
    simpa using hall
  rw [List.all_eq_false]
  exact ⟨name, List.mem_of_getLast? hlast, by simp [isIdle, hempty, hdot]⟩

theorem rooted_of_isFile {disk : Disk} {p : Path} (h : disk.isFile p = true) :
    ∃ names, names ≠ [] ∧ (∀ s ∈ names, '/' ∉ s.toList) ∧ p = rooted names := by
  obtain ⟨_, _, hfind, _⟩ := Disk.find_of_isFile h
  have habsolute := (Disk.isAbsolute_of_find hfind).1
  obtain ⟨names, hnames, hne⟩ := Path.segments_of_isAbsolute habsolute
  refine ⟨names, hne, fun s hs => ?_, ?_⟩
  · exact Path.not_mem_of_mem_segments (hnames ▸ List.mem_cons_of_mem "" hs)
  · rw [Path.eq_rooted habsolute, hnames]
    rfl

section Excluding

variable {disk : Disk} {base : Path} {spec : String} {extensions : List String}
variable {patterns : List Pattern} {pattern : Pattern}

/-- A pattern is expanded to paths that it stands for. -/
def ExpandsToMatches (disk : Disk) (text : String) : Prop :=
  ∀ p ∈ Glob.expand disk text,
    ((Pattern.parse? text).any fun pattern => pattern.holds p.text) = true

theorem expandsToMatches_rooted (hdisk : Glob.NamesOnly disk) {texts : List String}
    (hne : texts ≠ [])
    (hfilled : ∀ s ∈ texts, Filled s) : ExpandsToMatches disk (rooted texts).text := by
  intro p hp
  obtain ⟨parts, hread, hfound⟩ :=
    (Glob.mem_expand_rooted hne fun s hs => (hfilled s hs).2).mp hp
  have hparts : parts ≠ [] := by
    rintro rfl
    exact hne (List.forall₂_nil_right_iff.mp hread)
  have hfinished := Glob.finished_of_read hread fun hempty => (hfilled "" hempty).1 rfl
  obtain ⟨names, rfl, hnames, hspans⟩ := @Glob.expandFrom_sound disk hdisk _
    (fun name hname => hfilled name (Glob.literal_mem hread (Glob.mem_of_mem_collapse hname)))
    [] (by simp) p hfound
  have hholds : Spans Segment.IsStars Segment.Holds parts names := by
    refine (Glob.spans_collapse.mp hspans).of_forall₂ (List.forall₂_same.mpr fun part _ => ?_)
    exact ⟨Iff.rfl, fun _ _ _ hfinds => hfinds.1⟩
  rw [Glob.parse?_rooted hread, Option.any_some]
  exact (Glob.holds_rooted_iff hread hparts hfinished (hholds.ne_nil hparts)
    fun s hs => (hnames s hs).2).mpr hholds

theorem isRead_plain {name : String} {s : Segment} (hname : isIdle name = false)
    (hslash : '/' ∉ name.toList) (h : Segment.IsRead (Pattern.escape name) s) :
    s ≠ .folders ∧ ∀ t, isIdle t = true → s.holds t = false := by
  obtain rfl := h.unique (Segment.isRead_escape hslash)
  refine ⟨Segment.escaped_ne_folders name, fun t ht => ?_⟩
  rw [Segment.holds_escaped, decide_eq_false_iff_not]
  rintro rfl
  rw [ht] at hname
  cases hname

theorem isRead_unwild {name : String} {s : Segment} (hname : isIdle name = false)
    (hwild : isWild name = false) (h : Segment.IsRead name s) :
    s ≠ .folders ∧ ∀ t, isIdle t = true → s.holds t = false := by
  rcases h.cases with ⟨rfl, _⟩ | ⟨hne, hreads, _⟩
  · exact absurd hwild (by decide)
  have hstar : '*' ∉ name.toList := by
    intro hmem
    rw [isWild, List.any_eq_false] at hwild
    simpa using hwild '*' hmem
  simp only [isIdle, Bool.or_eq_false_iff, decide_eq_false_iff_not] at hname
  have hempty : name.toList ≠ [] := by simpa using hname.1
  refine ⟨hne, fun t ht => ?_⟩
  simp only [isIdle, Bool.or_eq_true, decide_eq_true_eq] at ht
  rw [Segment.holds_iff hne]
  rcases ht with rfl | rfl
  · exact hreads.matchesFrom_empty hstar hempty true
  · apply hreads.matchesFrom_dot hstar hempty
    exact fun hdot => hname.2 (String.toList_injective hdot)

/-- A last part without a wildcard stands for names only. -/
theorem last_part (habsolute : base.isAbsolute = true) (hne : specNames base spec ≠ [])
    (hlast : isWild (lastText (base.locate ⟨spec⟩)) = false) {segments : List Segment}
    (h : List.Forall₂ Segment.IsRead (patternTexts (plainNames base spec) (wildNames base spec))
      segments) : ∃ init s, segments = init ++ [s] ∧ s ≠ .folders ∧
        ∀ name, isIdle name = true → s.holds name = false := by
  have hspec := @specNames_spec base spec habsolute
  have happend := plain_append_wild base spec
  by_cases hwild : wildNames base spec = []
  · rw [hwild, List.append_nil] at happend
    rw [patternTexts, hwild, happend, List.append_nil, stretches, if_neg hne] at h
    rw [← List.dropLast_append_getLast hne, List.map_append] at h
    obtain ⟨init, back, rfl, _, hback⟩ := forall₂_append h
    obtain ⟨s, rest, hs, hrest, rfl⟩ := List.forall₂_cons_left_iff.mp hback
    obtain rfl := List.forall₂_nil_left_iff.mp hrest
    obtain ⟨hslash, hidle⟩ := hspec _ (List.getLast_mem hne)
    exact ⟨init, s, rfl, isRead_plain hidle hslash hs⟩
  · have hwild' : (splitSpec base spec).2 = wildNames base spec := by rw [splitSpec_eq habsolute]
    have hend := splitSpec_last (hwild' ▸ hwild)
    rw [hwild'] at hend
    obtain ⟨front, hfront⟩ := List.getLast?_eq_some_iff.mp hend
    rw [patternTexts, hfront, ← List.append_assoc] at h
    obtain ⟨init, back, rfl, _, hback⟩ := forall₂_append h
    obtain ⟨s, rest, hs, hrest, rfl⟩ := List.forall₂_cons_left_iff.mp hback
    obtain rfl := List.forall₂_nil_left_iff.mp hrest
    have hmem : lastText (base.locate ⟨spec⟩) ∈ specNames base spec := by
      rw [← happend, hfront]
      simp
    exact ⟨init, s, rfl, isRead_unwild (hspec _ hmem).2 hlast hs⟩

theorem forall₂_folder {texts : List String} {segments : List Segment}
    (h : List.Forall₂ Segment.IsRead (texts ++ ["**", "*"]) segments) :
    ∃ front, List.Forall₂ Segment.IsRead texts front ∧
      segments = front ++ [.folders, .wild [.anySequence]] := by
  obtain ⟨front, back, rfl, hfront, hback⟩ := forall₂_append h
  refine ⟨front, hfront, congrArg (front ++ ·) ?_⟩
  have hstars : Segment.IsRead "**" .folders := ⟨by decide, by decide⟩
  have hstar : Segment.IsRead "*" (.wild [.anySequence]) := ⟨by decide, by decide⟩
  obtain ⟨s, rest, hs, hrest, rfl⟩ := List.forall₂_cons_left_iff.mp hback
  obtain ⟨s', rest', hs', hnil, rfl⟩ := List.forall₂_cons_left_iff.mp hrest
  obtain rfl := List.forall₂_nil_left_iff.mp hnil
  rw [hs.unique hstars, hs'.unique hstar]

/-- What is matched below a folder is in a folder that is matched. -/
theorem exists_folder_above {texts : List String} {segments : List Segment}
    (hread : List.Forall₂ Segment.IsRead (texts ++ ["**", "*"]) segments) {p : Path}
    (hmatches : Pattern.holds (.char '/' :: Glob.compileAfter false segments) p.text = true)
    (hfile : disk.isFile p = true)
    (hlast : ∀ front, List.Forall₂ Segment.IsRead texts front → ∃ init s, front = init ++ [s] ∧
      s ≠ .folders ∧ ∀ name, isIdle name = true → s.holds name = false)
    (hpattern : Pattern.parse? (rooted texts).text = some pattern) :
    ∃ a ∈ p.ancestors, pattern.holds a.text = true := by
  obtain ⟨segments, hsegments, rfl⟩ := forall₂_folder hread
  obtain ⟨init, s, rfl, hs, hidle⟩ := hlast segments hsegments
  obtain ⟨names, hne, hslashes, hp⟩ := rooted_of_isFile hfile
  have hspans := (Glob.holds_rooted_iff hread (by simp) (by simp [Glob.Finished]) hne hslashes).mp
    (hp ▸ hmatches)
  have hfolder : ∀ x, (init ++ [s]).getLast? = some x → ¬ x.IsStars := by
    intro x hx
    rw [List.getLast?_concat, Option.some.injEq] at hx
    exact hx ▸ hs
  obtain ⟨front, back, rfl, hfront, hback⟩ := hspans.of_append hfolder
  have hend : ∀ name, front.getLast? = some name → isIdle name = false := by
    intro name hname
    obtain ⟨name', hname', hholds⟩ := hfront.getLast hs
    obtain rfl := Option.some.inj (hname.symm.trans hname')
    rw [← Bool.not_eq_true]
    intro hidle'
    rw [Segment.Holds, hidle name hidle'] at hholds
    cases hholds
  have hfinished : Glob.Finished (init ++ [s]) := by
    simp only [Glob.Finished, List.getLast?_concat, ne_eq, Option.some.injEq]
    rintro rfl
    cases hidle "" rfl
  refine ⟨rooted front, ?_, ?_⟩
  · rw [hp]
    apply Path.mem_ancestors_rooted hend hslashes
    exact not_idle_of_isFile hslashes (hback.ne_nil (by simp)) (hp ▸ hfile)
  · obtain rfl := Option.some.inj (hpattern.symm.trans (Glob.parse?_rooted hsegments))
    apply (Glob.holds_rooted_iff hsegments (by simp) hfinished (hfront.ne_nil (by simp)) ?_).mpr
      hfront
    exact fun x hx => hslashes x (List.mem_append_left back hx)

theorem exists_top_above {p : Path} (hfile : disk.isFile p = true)
    (hpattern : Pattern.parse? (rooted [""]).text = some pattern) :
    ∃ a ∈ p.ancestors, pattern.holds a.text = true := by
  obtain ⟨names, hne, hslash, rfl⟩ := rooted_of_isFile hfile
  have htop :
      ((Pattern.parse? (rooted [""]).text).any fun top => top.holds (rooted []).text) = true := by
    decide +kernel
  rw [hpattern] at htop
  refine ⟨rooted [], ?_, htop⟩
  rw [← List.nil_append names] at hslash hfile ⊢
  exact Path.mem_ancestors_rooted (by simp) hslash (not_idle_of_isFile hslash hne hfile)

/-- All that is in a folder is left out with the folder. -/
theorem isLeftOut_of_folder (habsolute : base.isAbsolute = true)
    (hslashed : Slashed (rooted (plainNames base spec)))
    (hlast : isWild (lastText (base.locate ⟨spec⟩)) = false)
    (hglob : ExpandsToMatches disk
      (patternText (rooted (plainNames base spec)) (wildNames base spec ++ ["**", "*"])))
    (hpattern : Pattern.parse? (patternText (rooted (plainNames base spec)) (wildNames base spec)) =
      some pattern) (hmem : pattern ∈ patterns) {p : Path}
    (hp : p ∈ Glob.expand disk
      (patternText (rooted (plainNames base spec)) (wildNames base spec ++ ["**", "*"])))
    (hfile : disk.isFile p = true) : isLeftOut patterns p = true := by
  have hmatches := hglob p hp
  rw [patternText_rooted hslashed] at hp hmatches hpattern
  rw [patternTexts_append] at hp hmatches
  have hslash : ∀ s ∈ patternTexts (plainNames base spec) (wildNames base spec) ++ ["**", "*"],
      '/' ∉ s.toList := by
    rw [List.forall_mem_append]
    exact ⟨patternTexts_slashFree (fun s hs => (plainNames_filled habsolute s hs).2)
      fun s hs => (wildNames_filled habsolute s hs).2,
      by decide⟩
  have habove : ∃ a ∈ p.ancestors, pattern.holds a.text = true := by
    by_cases hne : specNames base spec = []
    · have hnames := plain_append_wild base spec
      rw [hne] at hnames
      obtain ⟨hplain, hwild⟩ := List.append_eq_nil_iff.mp hnames
      rw [hplain, hwild] at hpattern
      exact exists_top_above hfile hpattern
    · obtain ⟨segments, hread, _⟩ := (Glob.mem_expand_rooted (by simp) hslash).mp hp
      rw [Glob.parse?_rooted hread, Option.any_some] at hmatches
      exact exists_folder_above hread hmatches hfile
        (fun _ => last_part habsolute hne hlast) hpattern
  obtain ⟨a, ha, hholds⟩ := habove
  exact isLeftOut_of_mem hmem ha hholds

/-- A spec is included as it is excluded, or with all that is in a folder. -/
theorem splitInclude_cases (base : Path) (spec : String) (extensions : List String) :
    splitInclude base spec extensions = splitSpec base spec ∨
      splitInclude base spec extensions =
          ((splitSpec base spec).1, (splitSpec base spec).2 ++ ["**", "*"]) ∧
        isWild (lastText (base.locate ⟨spec⟩)) = false := by
  have hplain := @splitSpec_plain base spec
  have hlast := @splitSpec_last base spec
  unfold splitInclude
  generalize splitSpec base spec = found at *
  obtain ⟨plain, wild⟩ := found
  dsimp only at hplain hlast ⊢
  by_cases hwild : wild = []
  · subst hwild
    rw [List.getLast?_nil]
    dsimp only
    split
    · exact Or.inl rfl
    · exact Or.inr ⟨rfl, (hplain rfl).2⟩
  · rw [hlast hwild]
    dsimp only
    split
    · exact Or.inl rfl
    · rename_i hwild'
      exact Or.inr ⟨rfl, by simpa using hwild'⟩

/-- What holds of the wildcards of a spec and of those for a folder holds of all that are
included. -/
theorem splitInclude_forall {P : String → Prop} (habsolute : base.isAbsolute = true)
    (hwild : ∀ s ∈ wildNames base spec, P s) (hstars : P "**") (hstar : P "*")
    (extensions : List String) :
    ∃ wild, splitInclude base spec extensions = (rooted (plainNames base spec), wild) ∧
      ∀ s ∈ wild, P s := by
  have hsplit := @splitSpec_eq base spec habsolute
  rcases splitInclude_cases base spec extensions with hinclude | ⟨hinclude, _⟩
  · exact ⟨wildNames base spec, hinclude.trans hsplit, hwild⟩
  · refine ⟨wildNames base spec ++ ["**", "*"], ?_, ?_⟩
    · rw [hinclude, hsplit]
    · rw [List.forall_mem_append, List.forall_mem_cons, List.forall_mem_singleton]
      exact ⟨hwild, hstars, hstar⟩

theorem filesOfSpec_eq_nil {plain : Path} {wild : List String}
    (hsplit : splitInclude base spec extensions = (plain, wild)) (hwild : wild ≠ [])
    (h : ∀ p ∈ Glob.expand disk (patternText plain wild), disk.isFile p = true →
      isLeftOut patterns p = true) : filesOfSpec disk base extensions patterns spec = [] := by
  unfold filesOfSpec
  rw [hsplit]
  dsimp only
  rw [if_neg (by simpa using hwild), List.filter_eq_nil_iff.mpr, List.mergeSort_nil]
  intro p hp
  cases hfile : disk.isFile p with
  | false => simp
  | true => simp [h p hp hfile]

/-- A file that is named stands for itself. -/
theorem isLeftOut_of_named {p : Path} (hslashed : Slashed p)
    (hpattern : Pattern.parse? (patternText p []) = some pattern) (hmem : pattern ∈ patterns) :
    isLeftOut patterns p = true := by
  have htext : patternText p [] = Pattern.escape p.text := by
    rw [patternText, Path.slashed_eq hslashed]
    rfl
  obtain ⟨escaped, hescaped, hholds⟩ := Pattern.holds_escape p.text
  rw [htext, hescaped, Option.some.injEq] at hpattern
  apply isLeftOut_of_mem hmem (Path.mem_ancestors_self p)
  rw [← hpattern, hholds, decide_eq_true rfl]

/-- As long as a pattern is expanded only to paths that it stands for, and no backslash stands
before the first wildcard of a spec, excluding the spec leaves nothing of what it includes. -/
theorem excluded_removes_included (habsolute : base.isAbsolute = true)
    (hslashed : Slashed (splitSpec base spec).1)
    (hglob : ExpandsToMatches disk (patternText (splitInclude base spec extensions).1
      (splitInclude base spec extensions).2))
    (hpattern : excludePattern? base spec = some pattern) (hmem : pattern ∈ patterns) :
    filesOfSpec disk base extensions patterns spec = [] := by
  have hsplit := @splitSpec_eq base spec habsolute
  unfold excludePattern? at hpattern
  rw [hsplit] at hslashed hpattern
  dsimp only at hslashed hpattern
  rcases splitInclude_cases base spec extensions with hinclude | ⟨hinclude, hlast⟩
  · rw [hinclude, hsplit] at hglob
    rw [hsplit] at hinclude
    dsimp only at hglob
    by_cases hwild : wildNames base spec = []
    · rw [hwild] at hinclude hpattern
      have hout := isLeftOut_of_named hslashed hpattern hmem
      unfold filesOfSpec
      rw [hinclude]
      simp [hout]
    · apply filesOfSpec_eq_nil hinclude hwild
      intro p hp _
      have hmatches := hglob p hp
      rw [hpattern, Option.any_some] at hmatches
      exact isLeftOut_of_mem hmem (Path.mem_ancestors_self p) hmatches
  · rw [hinclude, hsplit] at hglob
    rw [hsplit] at hinclude
    dsimp only at hglob hinclude
    apply filesOfSpec_eq_nil hinclude (by simp)
    intro p hp hfile
    exact isLeftOut_of_folder habsolute hslashed hlast hglob hpattern hmem hp hfile

/-- Only a wildcard right below the top folder is expanded to paths that it does not stand for. -/
theorem expandsToMatches_include (habsolute : base.isAbsolute = true)
    (hslashed : Slashed (rooted (plainNames base spec))) (hplain : plainNames base spec ≠ [])
    (hdisk : Glob.NamesOnly disk) (extensions : List String) :
    ExpandsToMatches disk (patternText (splitInclude base spec extensions).1
      (splitInclude base spec extensions).2) := by
  obtain ⟨wild, hsplit, hwild⟩ := splitInclude_forall habsolute (wildNames_filled habsolute)
    ⟨by decide, by decide⟩ ⟨by decide, by decide⟩ extensions
  rw [hsplit]
  dsimp only
  rw [patternText_rooted hslashed, patternTexts_eq hplain]
  apply expandsToMatches_rooted hdisk (by simp [hplain])
  exact filled_escape (plainNames_filled habsolute) hwild

/-- A source file two folders below the base. -/
def libraryDisk : Disk := ⟨[(["p"], .folder), (["p", "a"], .folder), (["p", "a", "lib"], .folder),
  (["p", "a", "lib", "x.ts"], .file "".toUTF8)]⟩

theorem excluded_removes_included_library :
    ⟨"/p/a/lib/x.ts"⟩ ∈ filesOfSpec libraryDisk ⟨"/p"⟩ [".ts"] [] "*/lib" ∧
      ∃ pattern, excludePattern? ⟨"/p"⟩ "*/lib" = some pattern ∧
        filesOfSpec libraryDisk ⟨"/p"⟩ [".ts"] [pattern] "*/lib" = [] := by
  have hinclude : splitInclude ⟨"/p"⟩ "*/lib" [".ts"] = (⟨"/p"⟩, ["*", "lib", "**", "*"]) := by
    decide +kernel
  have hsplit : (splitSpec ⟨"/p"⟩ "*/lib").1 = ⟨"/p"⟩ := by decide +kernel
  have hsome : (excludePattern? ⟨"/p"⟩ "*/lib").isSome = true := by decide +kernel
  obtain ⟨pattern, hpattern⟩ := Option.isSome_iff_exists.mp hsome
  constructor
  · unfold filesOfSpec
    rw [hinclude]
    dsimp only
    rw [if_neg (by decide), List.mem_mergeSort]
    decide +kernel
  · refine ⟨pattern, hpattern, ?_⟩
    apply excluded_removes_included rfl (hsplit ▸ by decide) _ hpattern List.mem_cons_self
    apply expandsToMatches_include rfl
    · decide +kernel
    · decide +kernel
    · decide +kernel

/-- A source file in a folder whose name has a backslash in it. -/
def backslashFolder : Disk := ⟨[(["a\\b"], .folder), (["a\\b", "x.ts"], .file "".toUTF8)]⟩

/-- A file is named by its path as it is, and excluded by its path with slashes only. -/
theorem backslash_keeps_excluded :
    (excludePattern? ⟨"/a\\b"⟩ "x.ts").map (fun pattern =>
      filesOfSpec backslashFolder ⟨"/a\\b"⟩ [".ts"] [pattern] "x.ts") = some [⟨"/a\\b/x.ts"⟩] := by
  decide +kernel

end Excluding

end TypeOnly.Config
