import TypeOnly.Proofs.IncludeSpecs
import TypeOnly.Proofs.PatternExpansion

/-!
What the names in a spec stand for. Only stars and question marks are special: any other name stands
for itself, in the files that are included and in those that are excluded, as long as no brackets
stand after the first wildcard.
-/

namespace TypeOnly.Config

set_option autoImplicit false

open Glob (Pattern Segment Spans Listed isVisible)
open Glob.Segment (IsStars Holds Finds IsRead)
open TypeOnly.Path (rooted Named Filled isIdle Slashed)

/-! ### Stars and question marks -/

/-- How stars and question marks stand for the characters of a name. At its beginning, neither of
them stands for a point. -/
inductive Fits : Bool → List Char → List Char → Prop where
  | nil {fresh : Bool} : Fits fresh [] []
  | none {fresh : Bool} {cs name : List Char} : Fits fresh cs name → Fits fresh ('*' :: cs) name
  | more {fresh : Bool} {c : Char} {cs name : List Char} : (fresh = true → c ≠ '.') →
      Fits false ('*' :: cs) name → Fits fresh ('*' :: cs) (c :: name)
  | any {fresh : Bool} {c : Char} {cs name : List Char} : (fresh = true → c ≠ '.') →
      Fits false cs name → Fits fresh ('?' :: cs) (c :: name)
  | char {fresh : Bool} {c : Char} {cs name : List Char} : c ≠ '*' → c ≠ '?' → Fits false cs name →
      Fits fresh (c :: cs) (c :: name)

/-- A name of a spec stands for a name in a folder. A wildcard stands for those that are seen. -/
def Stands (seen : String → Prop) (s name : String) : Prop :=
  if isWild s then Fits true s.toList name.toList ∧ seen name else name = s

/-- Two stars as a name of a spec. -/
def IsTwoStars (s : String) : Prop := s = "**"

/-- A name without brackets, with stars one by one or two of them alone. -/
def Tame (s : String) : Prop :=
  '[' ∉ s.toList ∧ (s = "**" ∨ s.toList.IsChain fun c c' => ¬ (c = '*' ∧ c' = '*'))

theorem stands_plain_iff {seen : String → Prop} {s name : String} (h : isWild s = false) :
    Stands seen s name ↔ name = s := by
  rw [Stands, if_neg (by simp [h])]

theorem not_point_iff {fresh : Bool} {c : Char} :
    (!(fresh && decide (c = '.'))) = true ↔ (fresh = true → c ≠ '.') := by
  cases fresh <;> simp

theorem fits_star_iff {fresh : Bool} {cs name : List Char} {after : Bool → List Char → Bool}
    (hafter : ∀ fresh name, '/' ∉ name → (after fresh name = true ↔ Fits fresh cs name))
    (hslash : '/' ∉ name) :
    Pattern.skipSequence after fresh name = true ↔ Fits fresh ('*' :: cs) name := by
  induction name generalizing fresh with
  | nil =>
    rw [Pattern.skipSequence, hafter fresh [] hslash]
    constructor
    · exact .none
    · intro h
      cases h with
      | none h => exact h
  | cons c name ih =>
    have hrest := hslash
    rw [List.mem_cons, not_or] at hrest
    have hc : c ≠ '/' := Ne.symm hrest.1
    rw [Pattern.skipSequence, Bool.or_eq_true, hafter fresh (c :: name) hslash]
    simp only [Bool.and_eq_true, ih hrest.2, decide_eq_true_eq, not_point_iff]
    constructor
    · rintro (h | ⟨⟨hpoint, _⟩, h⟩)
      · exact .none h
      · exact .more hpoint h
    · intro h
      cases h with
      | none h => exact Or.inl h
      | more hpoint h => exact Or.inr ⟨⟨hpoint, hc⟩, h⟩
      | char hstar => exact False.elim (hstar rfl)

theorem fits_nil_iff {fresh : Bool} {name : List Char} : Fits fresh [] name ↔ name = [] := by
  constructor
  · intro h
    cases h
    rfl
  · rintro rfl
    exact .nil

theorem not_fits_nil {fresh : Bool} {c : Char} {cs : List Char} (hstar : c ≠ '*') :
    ¬ Fits fresh (c :: cs) [] := by
  intro h
  cases h
  exact hstar rfl

theorem fits_question_iff {fresh : Bool} {c : Char} {cs name : List Char} :
    Fits fresh ('?' :: cs) (c :: name) ↔ (fresh = true → c ≠ '.') ∧ Fits false cs name := by
  constructor
  · intro h
    cases h with
    | any hpoint h => exact ⟨hpoint, h⟩
    | char _ hquestion => exact False.elim (hquestion rfl)
  · rintro ⟨hpoint, h⟩
    exact .any hpoint h

theorem fits_char_iff {fresh : Bool} {x c : Char} {cs name : List Char} (hstar : x ≠ '*')
    (hquestion : x ≠ '?') : Fits fresh (x :: cs) (c :: name) ↔ c = x ∧ Fits false cs name := by
  constructor
  · intro h
    cases h with
    | none | more => exact False.elim (hstar rfl)
    | any => exact False.elim (hquestion rfl)
    | char _ _ h => exact ⟨rfl, h⟩
  · rintro ⟨rfl, h⟩
    exact .char hstar hquestion h

/-- What the tokens of a part match is what its stars and question marks stand for. -/
theorem matchesFrom_iff_fits {cs : List Char} {p : Pattern} (h : Pattern.Reads cs p)
    (hbracket : '[' ∉ cs) {name : List Char} (hname : '/' ∉ name) (fresh : Bool) :
    p.matchesFrom fresh name = true ↔ Fits fresh cs name := by
  induction h generalizing fresh name with
  | nil => rw [Pattern.matchesFrom_nil, List.isEmpty_iff, fits_nil_iff]
  | star _ _ ih =>
    rw [List.mem_cons, not_or] at hbracket
    rw [Pattern.matchesFrom_sequence]
    exact fits_star_iff (fun fresh name hname => ih hbracket.2 hname fresh) hname
  | question _ ih =>
    rw [List.mem_cons, not_or] at hbracket
    have hany : Pattern.IsSingle .anyChar := trivial
    cases name with
    | nil =>
      rw [Pattern.matchesFrom_single_nil hany]
      exact iff_of_false (by simp) (not_fits_nil (by decide))
    | cons c name =>
      rw [List.mem_cons, not_or] at hname
      have hc : c ≠ '/' := Ne.symm hname.1
      rw [Pattern.matchesFrom_single hany, fits_question_iff, ← ih hbracket.2 hname.2]
      simp only [Bool.and_eq_true, not_point_iff]
      simp [hc, Pattern.takes]
  | brackets => simp at hbracket
  | char hstar hquestion _ _ ih =>
    rw [List.mem_cons, not_or] at hbracket
    cases name with
    | nil => exact iff_of_false (by simp) (not_fits_nil hstar)
    | cons c name =>
      rw [List.mem_cons, not_or] at hname
      rw [Pattern.matchesFrom_char, decide_eq_false (Ne.symm hname.1), Bool.and_eq_true,
        decide_eq_true_iff, ih hbracket.2 hname.2, fits_char_iff hstar hquestion]

/-! ### Names and parts of a pattern -/

theorem reads_of_isChain {cs : List Char} (hbracket : '[' ∉ cs)
    (h : cs.IsChain fun c c' => ¬ (c = '*' ∧ c' = '*')) : ∃ p, Pattern.Reads cs p := by
  induction cs with
  | nil => exact ⟨[], .nil⟩
  | cons c cs ih =>
    rw [List.mem_cons, not_or] at hbracket
    rw [List.isChain_cons] at h
    obtain ⟨p, hp⟩ := ih hbracket.2 h.2
    by_cases hstar : c = '*'
    · subst hstar
      exact ⟨_, .star (fun hhead => h.1 '*' hhead ⟨rfl, rfl⟩) hp⟩
    · by_cases hquestion : c = '?'
      · subst hquestion
        exact ⟨_, .question hp⟩
      · exact ⟨_, .char hstar hquestion (Ne.symm hbracket.1) hp⟩

/-- A part of a pattern stands for what a name of a spec stands for. -/
structure PartOf (s : String) (part : Segment) : Prop where
  stars : IsTwoStars s ↔ part.IsStars
  holds : ¬ part.IsStars → ∀ name, '/' ∉ name.toList →
    (part.holds name = true ↔ Stands (fun _ => True) s name)
  wild : ¬ part.IsStars → isWild s = true → ∃ p, part = .wild p
  special : ∀ p, part = .wild p → isWild s = true ∨ '[' ∈ s.toList ∨ ']' ∈ s.toList

theorem isWild_eq_false_iff {s : String} :
    isWild s = false ↔ ∀ c ∈ s.toList, c ≠ '*' ∧ c ≠ '?' := by
  simp [isWild, List.any_eq_false]

theorem not_isTwoStars {s : String} (h : isWild s = false) : ¬ IsTwoStars s := by
  rintro rfl
  revert h
  decide

/-- An escaped name. -/
theorem partOf_escaped {s : String} (hs : isWild s = false) : PartOf s (Segment.escaped s) where
  stars := iff_of_false (not_isTwoStars hs) (Segment.escaped_ne_folders s)
  holds _ name _ := by
    rw [Segment.holds_escaped, decide_eq_true_iff, stands_plain_iff hs]
  wild _ h := by
    rw [hs] at h
    cases h
  special p hp := by
    right
    by_contra hnone
    rw [not_or] at hnone
    have hplain : (s.toList.map Pattern.escaped).all Segment.isPlain = true := by
      rw [List.all_map, List.all_eq_true]
      intro c hc
      have hspecial : Pattern.isSpecial c = false := by
        have hwild := isWild_eq_false_iff.mp hs c hc
        have hopen : c ≠ '[' := fun he => hnone.1 (he ▸ hc)
        have hclose : c ≠ ']' := fun he => hnone.2 (he ▸ hc)
        simp [Pattern.isSpecial, hwild, hopen, hclose]
      simp [Pattern.escaped, hspecial, Segment.isPlain]
    rw [Segment.escaped, Segment.ofTokens, if_pos hplain] at hp
    cases hp

theorem fits_iff_of_plain {fresh : Bool} {cs name : List Char} (h : ∀ c ∈ cs, c ≠ '*' ∧ c ≠ '?') :
    Fits fresh cs name ↔ name = cs := by
  induction cs generalizing fresh name with
  | nil => exact fits_nil_iff
  | cons x cs ih =>
    rw [List.forall_mem_cons] at h
    cases name with
    | nil => exact iff_of_false (not_fits_nil h.1.1) (by simp)
    | cons c name => rw [fits_char_iff h.1.1 h.1.2, ih h.2, List.cons.injEq]

/-- A name as it is written. -/
theorem exists_partOf {s : String} (hs : Tame s) (hslash : '/' ∉ s.toList) :
    ∃ part, IsRead s part ∧ PartOf s part := by
  by_cases hstars : IsTwoStars s
  · subst hstars
    refine ⟨.folders, ⟨hslash, by decide⟩, ⟨iff_of_true rfl rfl, ?_, ?_, by simp⟩⟩
    · exact fun hne => False.elim (hne rfl)
    · exact fun hne => False.elim (hne rfl)
  obtain ⟨p, hreads⟩ := reads_of_isChain hs.1 (hs.2.resolve_left hstars)
  have hne := Segment.ofTokens_ne_folders s p
  have hplain : p.all Segment.isPlain = true ↔ isWild s = false := by
    rw [Segment.all_isPlain_iff hreads, isWild_eq_false_iff]
    constructor
    · exact fun h c hc => ⟨(h c hc).1, (h c hc).2.1⟩
    · exact fun h c hc => ⟨(h c hc).1, (h c hc).2, fun he => hs.1 (he ▸ hc)⟩
  refine ⟨Segment.ofTokens s p, Segment.isRead_ofTokens hreads hslash,
    ⟨iff_of_false hstars hne, ?_, ?_, ?_⟩⟩
  · intro _ name hname
    rw [Segment.holds_iff hne, Segment.tokens_ofTokens hreads,
      matchesFrom_iff_fits hreads hs.1 hname, Stands]
    cases hwild : isWild s with
    | true => simp
    | false =>
      rw [fits_iff_of_plain (isWild_eq_false_iff.mp hwild)]
      simp [String.toList_inj]
  · intro _ hwild
    rw [Segment.ofTokens, if_neg (by simp [hplain, hwild])]
    exact ⟨p, rfl⟩
  · intro p' hp'
    left
    cases hwild : isWild s with
    | true => rfl
    | false =>
      rw [Segment.ofTokens, if_pos (hplain.mpr hwild)] at hp'
      cases hp'

/-- The parts of the pattern for some names. -/
theorem exists_parts {plain wild : List String}
    (hplain : ∀ s ∈ plain, isWild s = false ∧ '/' ∉ s.toList)
    (hwild : ∀ s ∈ wild, Tame s ∧ '/' ∉ s.toList) :
    ∃ parts, List.Forall₂ IsRead (plain.map Pattern.escape ++ wild) parts ∧
      List.Forall₂ PartOf (plain ++ wild) parts := by
  induction plain with
  | nil =>
    induction wild with
    | nil => exact ⟨[], .nil, .nil⟩
    | cons s wild ih =>
      rw [List.forall_mem_cons] at hwild
      obtain ⟨part, hread, hpart⟩ := exists_partOf hwild.1.1 hwild.1.2
      obtain ⟨parts, hreads, hparts⟩ := ih hwild.2
      exact ⟨part :: parts, .cons hread hreads, .cons hpart hparts⟩
  | cons s plain ih =>
    rw [List.forall_mem_cons] at hplain
    obtain ⟨parts, hreads, hparts⟩ := ih hplain.2
    exact ⟨Segment.escaped s :: parts, .cons (Segment.isRead_escape hplain.1.2) hreads,
      .cons (partOf_escaped hplain.1.1) hparts⟩

theorem Stands.mono {seen seen' : String → Prop} {s name : String} (h : Stands seen s name)
    (hseen : seen name → seen' name) : Stands seen' s name := by
  unfold Stands at h ⊢
  split
  · rename_i hwild
    rw [if_pos hwild] at h
    exact ⟨h.1, hseen h.2⟩
  · rename_i hwild
    rwa [if_neg hwild] at h

section Transfer

variable {l names : List String} {parts : List Segment}

theorem spans_holds_iff (hparts : List.Forall₂ PartOf l parts)
    (hnames : ∀ s ∈ names, '/' ∉ s.toList) :
    Spans IsStars Holds parts names ↔ Spans IsTwoStars (Stands fun _ => True) l names := by
  constructor
  · intro h
    refine h.of_forall₂ (hparts.flip.imp fun part s hpart => ⟨hpart.stars.symm, ?_⟩)
    exact fun name hname hne hholds => (hpart.holds hne name (hnames name hname)).mp hholds
  · intro h
    refine h.of_forall₂ (hparts.imp fun s part hpart => ⟨hpart.stars, ?_⟩)
    exact fun name hname hne hstands =>
      (hpart.holds (mt hpart.stars.mpr hne) name (hnames name hname)).mpr hstands

theorem spans_of_finds (hparts : List.Forall₂ PartOf l parts)
    (hnames : ∀ s ∈ names, '/' ∉ s.toList) (h : Spans IsStars Finds parts names) :
    Spans IsTwoStars (Stands Listed) l names := by
  refine h.of_forall₂ (hparts.flip.imp fun part s hpart => ⟨hpart.stars.symm, ?_⟩)
  intro name hname hne hfinds
  have hstands := (hpart.holds hne name (hnames name hname)).mp hfinds.1
  unfold Stands at hstands ⊢
  split
  · rename_i hwild
    rw [if_pos hwild] at hstands
    obtain ⟨p, hp⟩ := hpart.wild hne hwild
    exact ⟨hstands.1, hfinds.2 p hp⟩
  · rename_i hwild
    rwa [if_neg hwild] at hstands

/-- Hidden names with brackets in them are not found. -/
theorem finds_of_spans (hparts : List.Forall₂ PartOf l parts)
    (hbrackets : ∀ s ∈ l, '[' ∈ s.toList ∨ ']' ∈ s.toList → isVisible s = true)
    (hnames : ∀ s ∈ names, '/' ∉ s.toList) (h : Spans IsTwoStars (Stands Listed) l names) :
    Spans IsStars Finds parts names := by
  have hboth := (List.forall₂_and_left l parts).mpr ⟨hbrackets, hparts⟩
  refine h.of_forall₂ (hboth.imp fun s part hpart => ⟨hpart.2.stars, ?_⟩)
  intro name hname hne hstands
  have hne' := mt hpart.2.stars.mpr hne
  refine ⟨(hpart.2.holds hne' name (hnames name hname)).mpr (hstands.mono fun _ => trivial), ?_⟩
  intro p hp
  unfold Stands at hstands
  split at hstands
  · exact hstands.2
  · rename_i hwild
    rcases hpart.2.special p hp with hwild' | hbracket
    · exact False.elim (hwild hwild')
    · exact Or.inl (hstands ▸ hpart.1 hbracket)

end Transfer

/-! ### Specs -/

theorem mem_expand_parts {plain wild : List String} {parts : List Segment}
    (hslash : ∀ s ∈ plain.map Pattern.escape ++ wild, '/' ∉ s.toList)
    (hread : List.Forall₂ IsRead (plain.map Pattern.escape ++ wild) parts) {disk : Disk}
    {p : Path} :
    p ∈ Glob.expand disk (rooted (patternTexts plain wild)).text ↔
      p ∈ Glob.expandFrom disk (Glob.collapse parts) (rooted []) := by
  have htop : (⟨"/"⟩ : Path) = rooted [] := rfl
  by_cases hplain : plain = []
  · subst hplain
    have htexts : patternTexts [] wild = "" :: wild := rfl
    have hempty : IsRead "" (.literal "") := ⟨by decide, by decide⟩
    have hread' : List.Forall₂ IsRead ("" :: wild) (.literal "" :: parts) := .cons hempty hread
    have hcollapse : Glob.collapse (.literal "" :: parts) = .literal "" :: Glob.collapse parts :=
      rfl
    have hslash' : ∀ s ∈ "" :: wild, '/' ∉ s.toList :=
      List.forall_mem_cons.mpr ⟨by decide, hslash⟩
    rw [htexts, Glob.mem_expand_rooted (by simp) hslash', htop]
    constructor
    · rintro ⟨parts', hparts', hp⟩
      rwa [Glob.parts_unique hparts' hread', hcollapse, Glob.expandFrom_top] at hp
    · intro hp
      refine ⟨_, hread', ?_⟩
      rwa [hcollapse, Glob.expandFrom_top]
  · rw [patternTexts_eq hplain, Glob.mem_expand_rooted (by simp [hplain]) hslash, htop]
    constructor
    · rintro ⟨parts', hparts', hp⟩
      rwa [Glob.parts_unique hparts' hread] at hp
    · exact fun hp => ⟨parts, hread, hp⟩

/-- The names that an included spec consists of; a folder stands for all that is in it. -/
def includeNames (base : Path) (spec : String) (extensions : List String) : List String :=
  plainNames base spec ++ (splitInclude base spec extensions).2

/-- Names that can be found: nothing hidden is asked for by a name with brackets or right after two
stars, and two stars do not stand at the end. -/
structure Findable (l : List String) : Prop where
  brackets : ∀ s ∈ l, '[' ∈ s.toList ∨ ']' ∈ s.toList → isVisible s = true
  afterStars : l.IsChain fun s s' => IsTwoStars s → isWild s' = true ∨ isVisible s' = true
  last : l.getLast? ≠ some "**"

theorem PartOf.isVisible_of_literal {s name : String} (h : PartOf s (.literal name))
    (hslash : '/' ∉ s.toList) (hs : isWild s = true ∨ isVisible s = true) :
    isVisible name = true := by
  have hne : ¬ (Segment.literal name).IsStars := by simp [IsStars]
  have hwild : isWild s = false := by
    rw [← Bool.not_eq_true]
    intro hwild
    obtain ⟨p, hp⟩ := h.wild hne hwild
    cases hp
  have hsame : s = name := by
    have hholds := (h.holds hne s hslash).mpr ((stands_plain_iff hwild).mpr rfl)
    simpa [Segment.holds] using hholds
  rw [← hsame]
  simpa [hwild] using hs

section Findable

variable {l : List String} {parts : List Segment} (hparts : List.Forall₂ PartOf l parts)
include hparts

theorem getLast?_parts (h : l.getLast? ≠ some "**") : parts.getLast? ≠ some .folders := by
  induction hparts with
  | nil => simp
  | cons hpart hrest ih =>
    cases hrest with
    | nil =>
      rw [List.getLast?_singleton, ne_eq, Option.some.injEq] at h ⊢
      exact mt hpart.stars.mpr h
    | cons =>
      rw [List.getLast?_cons_cons] at h ⊢
      exact ih h

theorem isChain_parts (hslash : ∀ s ∈ l, '/' ∉ s.toList)
    (h : l.IsChain fun s s' => IsTwoStars s → isWild s' = true ∨ isVisible s' = true) :
    parts.IsChain fun s s' => s.IsStars → ∀ name, s' = .literal name → isVisible name = true := by
  induction hparts with
  | nil => exact List.isChain_nil
  | cons hpart hrest ih =>
    rw [List.isChain_cons] at h ⊢
    rw [List.forall_mem_cons] at hslash
    refine ⟨?_, ih hslash.2 h.2⟩
    rintro part' hpart' hstars name rfl
    cases hrest with
    | nil => cases hpart'
    | @cons s' part' l parts hnext =>
      obtain rfl : part' = .literal name := Option.some.inj hpart'
      exact hnext.isVisible_of_literal (hslash.2 s' List.mem_cons_self)
        (h.1 s' rfl (hpart.stars.mpr hstars))

end Findable

theorem spans_plain_iff {seen : String → Prop} {l names : List String}
    (h : ∀ s ∈ l, isWild s = false) : Spans IsTwoStars (Stands seen) l names ↔ names = l := by
  induction l generalizing names with
  | nil =>
    constructor
    · intro h
      cases h
      rfl
    · rintro rfl
      exact .nil
  | cons s l ih =>
    rw [List.forall_mem_cons] at h
    have hne := not_isTwoStars h.1
    constructor
    · intro hspans
      obtain ⟨name, names, rfl, hname, hspans⟩ := hspans.of_one hne
      rw [(stands_plain_iff h.1).mp hname, (ih h.2).mp hspans]
    · rintro rfl
      exact .one hne ((stands_plain_iff h.1).mpr rfl) ((ih h.2).mpr rfl)

section Spec

variable {disk : Disk} {base : Path} {spec : String} {extensions : List String}
variable {patterns : List Pattern} {wild : List String}

theorem plainNames_plain : ∀ s ∈ plainNames base spec, isWild s = false := by
  intro s hs
  simpa using List.mem_takeWhile_imp hs

/-- The parts of a spec with these wildcards. -/
theorem spec_parts (habsolute : base.isAbsolute = true) (hwild : ∀ s ∈ wild, Tame s ∧ Filled s) :
    (∀ s ∈ (plainNames base spec).map Pattern.escape ++ wild, Filled s) ∧
    (∀ s ∈ plainNames base spec ++ wild, '/' ∉ s.toList) ∧
    ∃ parts, List.Forall₂ IsRead ((plainNames base spec).map Pattern.escape ++ wild) parts ∧
      List.Forall₂ PartOf (plainNames base spec ++ wild) parts := by
  have hplain := @plainNames_filled base spec habsolute
  refine ⟨filled_escape hplain fun s hs => (hwild s hs).2, ?_, ?_⟩
  · rw [List.forall_mem_append]
    exact ⟨fun s hs => (hplain s hs).2, fun s hs => (hwild s hs).2.2⟩
  · exact exists_parts (fun s hs => ⟨plainNames_plain s hs, (hplain s hs).2⟩)
      fun s hs => ⟨(hwild s hs).1, (hwild s hs).2.2⟩

theorem tame_and_filled (habsolute : base.isAbsolute = true)
    (htame : ∀ s ∈ wildNames base spec, Tame s) : ∀ s ∈ wildNames base spec, Tame s ∧ Filled s :=
  fun s hs => ⟨htame s hs, wildNames_filled habsolute s hs⟩

/-- What an included spec adds is tame. -/
theorem splitInclude_tame (habsolute : base.isAbsolute = true)
    (htame : ∀ s ∈ wildNames base spec, Tame s) (extensions : List String) :
    ∃ wild, splitInclude base spec extensions = (rooted (plainNames base spec), wild) ∧
      ∀ s ∈ wild, Tame s ∧ Filled s := by
  apply splitInclude_forall habsolute (tame_and_filled habsolute htame)
  · exact ⟨⟨by decide, Or.inl rfl⟩, by decide, by decide⟩
  · exact ⟨⟨by decide, Or.inr (List.isChain_singleton _)⟩, by decide, by decide⟩

theorem excludePattern?_holds_iff (habsolute : base.isAbsolute = true)
    (hslashed : Slashed (rooted (plainNames base spec))) (htame : ∀ s ∈ wildNames base spec, Tame s)
    (hne : plainNames base spec ≠ []) :
    ∃ pattern, excludePattern? base spec = some pattern ∧
      ∀ names, names ≠ [] → (∀ s ∈ names, '/' ∉ s.toList) →
        (pattern.holds (rooted names).text = true ↔
          Spans IsTwoStars (Stands fun _ => True) (specNames base spec) names) := by
  obtain ⟨hfilled, _, parts, hread, hparts⟩ :=
    @spec_parts base spec _ habsolute (tame_and_filled habsolute htame)
  have hpattern : excludePattern? base spec =
      some (.char '/' :: Glob.compileAfter false parts) := by
    unfold excludePattern?
    rw [splitSpec_eq habsolute]
    dsimp only
    rw [patternText_rooted hslashed, patternTexts_eq hne, Glob.parse?_rooted hread]
  have hsome : parts ≠ [] := by
    rintro rfl
    exact hne (List.append_eq_nil_iff.mp (List.forall₂_nil_right_iff.mp hparts)).1
  have hfinished := Glob.finished_of_read hread fun hempty => (hfilled "" hempty).1 rfl
  refine ⟨_, hpattern, fun names hnames hslash => ?_⟩
  rw [Glob.holds_rooted_iff hread hsome hfinished hnames hslash, spans_holds_iff hparts hslash,
    plain_append_wild]

theorem filesOfSpec_sound (habsolute : base.isAbsolute = true)
    (hslashed : Slashed (rooted (plainNames base spec))) (htame : ∀ s ∈ wildNames base spec, Tame s)
    (hdisk : Glob.NamesOnly disk) {p : Path}
    (hp : p ∈ filesOfSpec disk base extensions patterns spec) :
    ∃ names, p = rooted names ∧
      Spans IsTwoStars (Stands Listed) (includeNames base spec extensions) names := by
  obtain ⟨wild, hsplit, hwild⟩ := splitInclude_tame habsolute htame extensions
  obtain ⟨hfilled, _, parts, hread, hparts⟩ := @spec_parts base spec wild habsolute hwild
  unfold filesOfSpec at hp
  unfold includeNames
  rw [hsplit] at hp ⊢
  dsimp only at hp ⊢
  by_cases hnil : wild = []
  · subst hnil
    refine ⟨plainNames base spec, ?_, ?_⟩
    · rw [List.isEmpty_nil, if_pos rfl] at hp
      split at hp
      · exact List.mem_singleton.mp hp
      · cases hp
    · rw [List.append_nil, spans_plain_iff plainNames_plain]
  · rw [if_neg (by simpa using hnil), List.mem_mergeSort, patternText_rooted hslashed] at hp
    have hexpand :=
      (mem_expand_parts (fun s hs => (hfilled s hs).2) hread).mp (List.mem_filter.mp hp).1
    obtain ⟨names, rfl, hnames, hspans⟩ := Glob.expandFrom_sound hdisk
      (fun name hname => hfilled name (Glob.literal_mem hread (Glob.mem_of_mem_collapse hname)))
      (by simp) hexpand
    refine ⟨names, rfl, spans_of_finds hparts (fun s hs => (hnames s hs).2) ?_⟩
    exact Glob.spans_collapse.mp hspans

theorem filesOfSpec_complete (habsolute : base.isAbsolute = true)
    (hslashed : Slashed (rooted (plainNames base spec))) (htame : ∀ s ∈ wildNames base spec, Tame s)
    (hfindable : Findable (includeNames base spec extensions)) {names : List String}
    (hnames : ∀ s ∈ names, Named s) (hfile : disk.isFile (rooted names) = true)
    (hsource : Source.endsInOneOf (rooted names) extensions = true)
    (hpackages : inPackages (rooted (plainNames base spec)) (rooted names) = false)
    (hleftIn : isLeftOut patterns (rooted names) = false)
    (h : Spans IsTwoStars (Stands Listed) (includeNames base spec extensions) names) :
    rooted names ∈ filesOfSpec disk base extensions patterns spec := by
  obtain ⟨wild, hsplit, hwild⟩ := splitInclude_tame habsolute htame extensions
  obtain ⟨hfilled, hslash, parts, hread, hparts⟩ := @spec_parts base spec wild habsolute hwild
  unfold filesOfSpec
  unfold includeNames at h hfindable
  rw [hsplit] at h hfindable ⊢
  dsimp only at h hfindable ⊢
  by_cases hnil : wild = []
  · subst hnil
    rw [List.append_nil, spans_plain_iff plainNames_plain] at h
    rw [List.isEmpty_nil, if_pos rfl, ← h, if_pos (by simp [hfile, hleftIn])]
    exact List.mem_singleton_self _
  · rw [if_neg (by simpa using hnil), List.mem_mergeSort, patternText_rooted hslashed]
    refine List.mem_filter.mpr ⟨?_, by simp [hfile, hsource, hpackages, hleftIn]⟩
    apply (mem_expand_parts (fun s hs => (hfilled s hs).2) hread).mpr
    have hfinds := finds_of_spans hparts hfindable.brackets (fun s hs => (hnames s hs).2) h
    apply @Glob.expandFrom_complete disk (Glob.collapse parts) _ _ [] names hnames
      (exists_of_isFile hfile) (Glob.spans_collapse.mpr hfinds)
    · exact Glob.isChain_collapse (isChain_parts hparts hslash hfindable.afterStars)
    · rw [Glob.getLast?_collapse]
      exact getLast?_parts hparts hfindable.last

/-- As long as no backslash stands before the first wildcard of a spec and no bracket after it, only
stars and question marks are special. An excluded spec stands for exactly the paths whose names its
own names stand for, where there is one before the wildcards. What an included spec finds has such
names, and files with such names are found, as long as nothing hidden is asked for in a way that
does not find it. -/
theorem names_stand_for_themselves (habsolute : base.isAbsolute = true)
    (hslashed : Slashed (rooted (plainNames base spec)))
    (htame : ∀ s ∈ wildNames base spec, Tame s) :
    (plainNames base spec ≠ [] → ∃ pattern, excludePattern? base spec = some pattern ∧
      ∀ names, names ≠ [] → (∀ s ∈ names, '/' ∉ s.toList) →
        (pattern.holds (rooted names).text = true ↔
          Spans IsTwoStars (Stands fun _ => True) (specNames base spec) names)) ∧
    (Glob.NamesOnly disk → ∀ p ∈ filesOfSpec disk base extensions patterns spec, ∃ names,
      p = rooted names ∧
        Spans IsTwoStars (Stands Listed) (includeNames base spec extensions) names) ∧
    (Findable (includeNames base spec extensions) → ∀ names, (∀ s ∈ names, Named s) →
      disk.isFile (rooted names) = true → Source.endsInOneOf (rooted names) extensions = true →
      inPackages (rooted (plainNames base spec)) (rooted names) = false →
      isLeftOut patterns (rooted names) = false →
      Spans IsTwoStars (Stands Listed) (includeNames base spec extensions) names →
      rooted names ∈ filesOfSpec disk base extensions patterns spec) := by
  refine ⟨?_, ?_, ?_⟩
  · exact excludePattern?_holds_iff habsolute hslashed htame
  · exact fun hdisk p hp => filesOfSpec_sound habsolute hslashed htame hdisk hp
  · exact fun hfindable names => filesOfSpec_complete habsolute hslashed htame hfindable

/-- A source file below a folder with brackets in its name. -/
def bracketDisk : Disk :=
  ⟨[(["p"], .folder), (["p", "[id]"], .folder), (["p", "[id]", "a"], .folder),
    (["p", "[id]", "a", "b.ts"], .file "".toUTF8)]⟩

theorem names_stand_for_themselves_brackets :
    ⟨"/p/[id]/a/b.ts"⟩ ∈ filesOfSpec bracketDisk ⟨"/p"⟩ [".ts"] [] "[id]/**/*.ts" ∧
      ∃ pattern, excludePattern? ⟨"/p"⟩ "[id]/**/*.ts" = some pattern ∧
        pattern.holds "/p/[id]/a/b.ts" = true ∧ ¬ pattern.holds "/p/i/a/b.ts" = true := by
  have hplain : plainNames ⟨"/p"⟩ "[id]/**/*.ts" = ["p", "[id]"] := by decide +kernel
  have hwild : wildNames ⟨"/p"⟩ "[id]/**/*.ts" = ["**", "*.ts"] := by decide +kernel
  have hspec : specNames ⟨"/p"⟩ "[id]/**/*.ts" = ["p", "[id]", "**", "*.ts"] := by decide +kernel
  have hinclude : includeNames ⟨"/p"⟩ "[id]/**/*.ts" [".ts"] = ["p", "[id]", "**", "*.ts"] := by
    decide +kernel
  have htame : ∀ s ∈ wildNames ⟨"/p"⟩ "[id]/**/*.ts", Tame s := by
    rw [hwild, List.forall_mem_cons, List.forall_mem_singleton]
    exact ⟨⟨by decide, Or.inl rfl⟩, ⟨by decide, Or.inr (by decide)⟩⟩
  have hp : isWild "p" = false := by decide
  have hid : isWild "[id]" = false := by decide
  have hfits : Fits true "*.ts".toList "b.ts".toList := by
    have htexts : "*.ts".toList = ['*', '.', 't', 's'] ∧ "b.ts".toList = ['b', '.', 't', 's'] := by
      decide
    rw [htexts.1, htexts.2]
    apply Fits.more (by decide)
    apply Fits.none
    exact (fits_iff_of_plain (by simp)).mpr rfl
  have hspans (seen : String → Prop) (hseen : seen "b.ts") :
      Spans IsTwoStars (Stands seen) ["p", "[id]", "**", "*.ts"] ["p", "[id]", "a", "b.ts"] := by
    refine .one (not_isTwoStars hp) ((stands_plain_iff hp).mpr rfl) ?_
    refine .one (not_isTwoStars hid) ((stands_plain_iff hid).mpr rfl) ?_
    refine .more rfl (by decide) (.none rfl (by simp) (.one ?_ ?_ .nil))
    · unfold IsTwoStars
      decide
    · rw [Stands, if_pos (by decide)]
      exact ⟨hfits, hseen⟩
  obtain ⟨hexclude, _, hfound⟩ :=
    @names_stand_for_themselves bracketDisk ⟨"/p"⟩ "[id]/**/*.ts" [".ts"] []
    rfl (by rw [hplain]; decide) htame
  constructor
  · have hfindable : Findable (includeNames ⟨"/p"⟩ "[id]/**/*.ts" [".ts"]) := by
      rw [hinclude]
      refine ⟨by decide, ?_, by decide⟩
      unfold IsTwoStars
      decide
    refine hfound hfindable ["p", "[id]", "a", "b.ts"] (by decide) ?_ ?_ ?_ ?_ ?_
    · decide +kernel
    · decide +kernel
    · decide +kernel
    · rfl
    · rw [hinclude]
      exact hspans Listed (Or.inl (by decide))
  · obtain ⟨pattern, hpattern, hholds⟩ := hexclude (by simp [hplain])
    rw [hspec] at hholds
    refine ⟨pattern, hpattern, ?_, ?_⟩
    · exact (hholds ["p", "[id]", "a", "b.ts"] (by simp) (by decide)).mpr (hspans _ trivial)
    · intro hother
      have hspans := (hholds ["p", "i", "a", "b.ts"] (by simp) (by decide)).mp hother
      have hrest := ((Spans.one_iff (not_isTwoStars hp)).mp hspans).2
      have hstands := ((Spans.one_iff (not_isTwoStars hid)).mp hrest).1
      exact absurd ((stands_plain_iff hid).mp hstands) (by decide)

/-- Two source files below folders, one of them with brackets in its name. -/
def bracketsDisk : Disk := ⟨[(["src"], .folder), (["src", "a"], .folder),
  (["src", "a", "[id]"], .folder), (["src", "a", "[id]", "x.ts"], .file "".toUTF8),
  (["src", "a", "i"], .folder), (["src", "a", "i", "y.ts"], .file "".toUTF8)]⟩

/-- After a wildcard, brackets stand for one of the characters in them. -/
theorem brackets_after_wildcard :
    (⟨"/src/a/[id]/x.ts"⟩ ∉ filesOfSpec bracketsDisk ⟨"/"⟩ [".ts"] [] "src/*/[id]/*.ts" ∧
      ⟨"/src/a/i/y.ts"⟩ ∈ filesOfSpec bracketsDisk ⟨"/"⟩ [".ts"] [] "src/*/[id]/*.ts") ∧
    (excludePattern? ⟨"/"⟩ "src/*/[id]").map (fun pattern =>
      (pattern.holds "/src/a/[id]", pattern.holds "/src/a/i")) = some (false, true) := by
  have hinclude :
      splitInclude ⟨"/"⟩ "src/*/[id]/*.ts" [".ts"] = (⟨"/src"⟩, ["*", "[id]", "*.ts"]) := by
    decide +kernel
  constructor
  · unfold filesOfSpec
    rw [hinclude]
    dsimp only
    rw [if_neg (by decide), List.mem_mergeSort, List.mem_mergeSort]
    decide +kernel
  · decide +kernel

end Spec

end TypeOnly.Config
