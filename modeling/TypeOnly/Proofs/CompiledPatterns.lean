import Mathlib.Data.List.Forall2
import TypeOnly.Proofs.Ancestors
import TypeOnly.Proofs.ListFacts
import TypeOnly.Proofs.PatternMatching

/-!
How the text of a pattern is read. Where each part between slashes can be read by itself, the whole
text is read part by part, and an escaped text is read as a pattern for nothing else.
-/

namespace TypeOnly.Glob

set_option autoImplicit false

open TypeOnly.Path (joined joined_singleton joined_cons toList_rooted)

namespace Pattern

/-- How one part of a pattern is read, apart from two stars. -/
inductive Reads : List Char → Pattern → Prop where
  | nil : Reads [] []
  | star {rest : List Char} {p : Pattern} : rest.head? ≠ some '*' → Reads rest p →
      Reads ('*' :: rest) (.anySequence :: p)
  | question {rest : List Char} {p : Pattern} : Reads rest p → Reads ('?' :: rest) (.anyChar :: p)
  | brackets {rest after : List Char} {token : Token} {p : Pattern} :
      parseClass rest = some (token, after) → Reads after p → Reads ('[' :: rest) (token :: p)
  | char {c : Char} {rest : List Char} {p : Pattern} : c ≠ '*' → c ≠ '?' → c ≠ '[' → Reads rest p →
      Reads (c :: rest) (.char c :: p)

/-! ### One step -/

section Steps

variable {steps : Nat} {previous : Option Char} {read : List Token} {rest : List Char}

theorem parseFrom_end : parseFrom steps previous read [] = some read.reverse := by
  cases steps <;> rfl

theorem parseFrom_star (h : rest.head? ≠ some '*') :
    parseFrom (steps + 1) previous read ('*' :: rest) =
      parseFrom steps (some '*') (.anySequence :: read) rest := by
  cases rest with
  | nil => rfl
  | cons c rest =>
    have hc : c ≠ '*' := by simpa using h
    simp [parseFrom, hc]

theorem parseFrom_stars : parseFrom (steps + 1) previous read ('*' :: '*' :: rest) =
    if previous = none ∨ previous = some '/' then
      if rest = [] then some (addFolders read).reverse
      else if rest.head? = some '/' then
        parseFrom steps (some '/') (addFolders read) rest.tail
      else none
    else none := by
  cases rest with
  | nil => simp [parseFrom]
  | cons c rest =>
    by_cases hstar : c = '*'
    · subst hstar
      simp [parseFrom]
    · by_cases hslash : c = '/'
      · subst hslash
        simp [parseFrom]
      · simp [parseFrom, hstar, hslash]

theorem parseFrom_question : parseFrom (steps + 1) previous read ('?' :: rest) =
    parseFrom steps (some '?') (.anyChar :: read) rest := rfl

theorem parseFrom_brackets : parseFrom (steps + 1) previous read ('[' :: rest) =
    (parseClass rest).bind fun found => parseFrom steps (some ']') (found.1 :: read) found.2 := by
  rw [parseFrom]
  cases parseClass rest <;> rfl

theorem parseFrom_char {c : Char} (hstar : c ≠ '*') (hquestion : c ≠ '?') (hbracket : c ≠ '[') :
    parseFrom (steps + 1) previous read (c :: rest) =
      parseFrom steps (some c) (.char c :: read) rest := by
  rw [parseFrom]
  all_goals simp_all

end Steps

theorem breakAt_append {sep : Char} {cs before after : List Char}
    (h : Text.breakAt sep cs = some (before, after)) (more : List Char) :
    Text.breakAt sep (cs ++ more) = some (before, after ++ more) := by
  rw [Text.breakAt_eq_some_iff] at h ⊢
  obtain ⟨rfl, hnot⟩ := h
  exact ⟨by simp, hnot⟩

theorem breakAt_eq {sep : Char} {cs before after : List Char}
    (h : Text.breakAt sep cs = some (before, after)) : cs = before ++ sep :: after :=
  (Text.breakAt_eq_some_iff.mp h).1

/-- Brackets hold at least one character and are closed. -/
theorem parseClass_cases {cs after : List Char} {token : Token}
    (h : parseClass cs = some (token, after)) : IsSingle token ∧
      (∃ inside, cs = inside ++ after ∧ inside ≠ []) ∧
      ∀ more, parseClass (cs ++ more) = some (token, after ++ more) := by
  unfold parseClass at h
  split at h
  · rename_i x rest
    obtain ⟨⟨inside, after'⟩, hbreak, he⟩ := Option.map_eq_some_iff.mp h
    cases he
    refine ⟨trivial, ⟨'!' :: x :: inside ++ [']'], by simp [breakAt_eq hbreak], by simp⟩,
      fun more => ?_⟩
    simp [parseClass, breakAt_append hbreak]
  · cases h
  · rename_i x rest hx hx'
    obtain ⟨⟨inside, after'⟩, hbreak, he⟩ := Option.map_eq_some_iff.mp h
    cases he
    refine ⟨trivial, ⟨x :: inside ++ [']'], by simp [breakAt_eq hbreak], by simp⟩, fun more => ?_⟩
    have hmark : x ≠ '!' := by
      rintro rfl
      cases rest with
      | nil => exact hx' rfl rfl
      | cons y rest => exact hx y rest rfl rfl
    simp [parseClass, hmark, breakAt_append hbreak]
  · cases h

theorem exists_steps {x : Char} {xs : List Char} {steps : Nat} (h : (x :: xs).length ≤ steps) :
    ∃ n, steps = n + 1 ∧ xs.length ≤ n := by
  rw [List.length_cons] at h
  exact ⟨steps - 1, by omega, by omega⟩

namespace Reads

theorem isFlat {cs : List Char} {p : Pattern} (h : Reads cs p) (hslash : '/' ∉ cs) :
    ∀ t ∈ p, t.IsFlat := by
  induction h with
  | nil => simp
  | star _ _ ih | question _ ih =>
    rw [List.mem_cons, not_or] at hslash
    exact List.forall_mem_cons.mpr ⟨trivial, ih hslash.2⟩
  | brackets hclass _ ih =>
    obtain ⟨hsingle, ⟨inside, rfl, _⟩, _⟩ := parseClass_cases hclass
    simp only [List.mem_cons, List.mem_append, not_or] at hslash
    exact List.forall_mem_cons.mpr ⟨hsingle.isFlat, ih hslash.2.2⟩
  | char _ _ _ _ ih =>
    rw [List.mem_cons, not_or] at hslash
    exact List.forall_mem_cons.mpr ⟨Ne.symm hslash.1, ih hslash.2⟩

/-- A part is read alike wherever it stands. -/
theorem parseFrom_append {cs rest : List Char} {p : Pattern} (h : Reads cs p)
    (hrest : rest.head? ≠ some '*') (steps : Nat) (hsteps : (cs ++ rest).length ≤ steps)
    (previous : Option Char) (read : List Token) : ∃ steps' previous', rest.length ≤ steps' ∧
      parseFrom steps previous read (cs ++ rest) =
        parseFrom steps' previous' (p.reverse ++ read) rest := by
  induction h generalizing steps previous read with
  | nil => exact ⟨steps, previous, hsteps, rfl⟩
  | @star cs _ hhead _ ih =>
    rw [List.cons_append] at hsteps ⊢
    obtain ⟨steps, rfl, hless⟩ := exists_steps hsteps
    have hstar : (cs ++ rest).head? ≠ some '*' := by
      cases cs with
      | nil => exact hrest
      | cons c cs => exact hhead
    obtain ⟨steps', previous', hle, hread⟩ := ih steps hless (some '*')
      (.anySequence :: read)
    refine ⟨steps', previous', hle, ?_⟩
    rw [parseFrom_star hstar, hread]
    simp
  | question _ ih =>
    rw [List.cons_append] at hsteps ⊢
    obtain ⟨steps, rfl, hless⟩ := exists_steps hsteps
    obtain ⟨steps', previous', hle, hread⟩ := ih steps hless (some '?')
      (.anyChar :: read)
    refine ⟨steps', previous', hle, ?_⟩
    rw [parseFrom_question, hread]
    simp
  | @brackets _ _ token _ hclass _ ih =>
    rw [List.cons_append] at hsteps ⊢
    obtain ⟨steps, rfl, hless⟩ := exists_steps hsteps
    obtain ⟨_, ⟨inside, rfl, _⟩, hmore⟩ := parseClass_cases hclass
    obtain ⟨steps', previous', hle, hread⟩ := ih steps (by simp at hless ⊢; omega) (some ']')
      (token :: read)
    refine ⟨steps', previous', hle, ?_⟩
    rw [parseFrom_brackets, hmore, Option.bind_some, hread]
    simp
  | @char c _ _ hstar hquestion hbracket _ ih =>
    rw [List.cons_append] at hsteps ⊢
    obtain ⟨steps, rfl, hless⟩ := exists_steps hsteps
    obtain ⟨steps', previous', hle, hread⟩ := ih steps hless (some c)
      (.char c :: read)
    refine ⟨steps', previous', hle, ?_⟩
    rw [parseFrom_char hstar hquestion hbracket, hread]
    simp

end Reads

/-- What is read without slashes is two stars or a part of another kind. -/
theorem reads_of_parseFrom {steps : Nat} {previous : Option Char} {read : List Token}
    {cs : List Char}
    {p : Pattern} (hslash : '/' ∉ cs) (hsteps : cs.length ≤ steps)
    (h : parseFrom steps previous read cs = some p) :
    (cs = ['*', '*'] ∧ (previous = none ∨ previous = some '/') ∧ p = (addFolders read).reverse) ∨
      ∃ tokens, Reads cs tokens ∧ p = read.reverse ++ tokens := by
  induction steps generalizing previous read cs with
  | zero =>
    obtain rfl := List.length_eq_zero_iff.mp (Nat.le_zero.mp hsteps)
    exact Or.inr ⟨[], .nil, by simpa [parseFrom] using h.symm⟩
  | succ steps ih =>
    cases cs with
    | nil => exact Or.inr ⟨[], .nil, by simpa [parseFrom] using h.symm⟩
    | cons c cs =>
      rw [List.mem_cons, not_or] at hslash
      have hlength : cs.length ≤ steps := by simpa using hsteps
      -- two stars are read only at the beginning, and no character before the rest is a slash
      have hrest {c' : Char} {token : Token} {cs' : List Char} (hc' : c' ≠ '/') (hcs' : '/' ∉ cs')
          (hlength : cs'.length ≤ steps)
          (h : parseFrom steps (some c') (token :: read) cs' = some p) :
          ∃ tokens, Reads cs' tokens ∧ p = read.reverse ++ token :: tokens := by
        rcases ih hcs' hlength h with ⟨_, hprevious, _⟩ | ⟨tokens, hreads, hp⟩
        · simp [hc'] at hprevious
        · exact ⟨tokens, hreads, by simpa using hp⟩
      by_cases hstar : c = '*'
      · subst hstar
        by_cases hhead : cs.head? = some '*'
        · obtain ⟨cs, rfl⟩ := List.head?_eq_some_iff.mp hhead
          rw [parseFrom_stars] at h
          split_ifs at h with hprevious hnil hslash'
          · subst hnil
            exact Or.inl ⟨rfl, hprevious, (Option.some.inj h).symm⟩
          · exact False.elim (hslash.2 (List.mem_cons_of_mem _ (List.mem_of_mem_head? hslash')))
        · rw [parseFrom_star hhead] at h
          obtain ⟨tokens, hreads, hp⟩ := hrest (by decide) hslash.2 hlength h
          exact Or.inr ⟨_, .star hhead hreads, hp⟩
      by_cases hquestion : c = '?'
      · subst hquestion
        obtain ⟨tokens, hreads, hp⟩ := hrest (by decide) hslash.2 hlength h
        exact Or.inr ⟨_, .question hreads, hp⟩
      by_cases hbracket : c = '['
      · subst hbracket
        rw [parseFrom_brackets] at h
        obtain ⟨⟨token, after⟩, hclass, h⟩ := Option.bind_eq_some_iff.mp h
        obtain ⟨_, ⟨inside, hcs, _⟩, _⟩ := parseClass_cases hclass
        have hafter : '/' ∉ after := fun hmem => hslash.2 (hcs ▸ List.mem_append_right inside hmem)
        have hle : after.length ≤ steps := by
          rw [hcs, List.length_append] at hlength
          omega
        obtain ⟨tokens, hreads, hp⟩ := hrest (by decide) hafter hle h
        exact Or.inr ⟨_, .brackets hclass hreads, hp⟩
      · rw [parseFrom_char hstar hquestion hbracket] at h
        obtain ⟨tokens, hreads, hp⟩ := hrest (Ne.symm hslash.1) hslash.2 hlength h
        exact Or.inr ⟨_, .char hstar hquestion hbracket hreads, hp⟩

/-- A part without wildcards stands for no stretch that adds nothing. -/
theorem Reads.matchesFrom_empty {cs : List Char} {p : Pattern} (h : Reads cs p) (hstar : '*' ∉ cs)
    (hne : cs ≠ []) (fresh : Bool) : matchesFrom p fresh [] = false := by
  cases h with
  | nil => exact False.elim (hne rfl)
  | star => simp at hstar
  | question => rfl
  | brackets hclass => exact matchesFrom_single_nil (parseClass_cases hclass).1 _ fresh
  | char => rfl

theorem Reads.matchesFrom_dot {cs : List Char} {p : Pattern} (h : Reads cs p) (hstar : '*' ∉ cs)
    (hne : cs ≠ []) (hdot : cs ≠ ['.']) : matchesFrom p true ['.'] = false := by
  cases h with
  | nil => exact False.elim (hne rfl)
  | star => simp at hstar
  | question => rfl
  | brackets hclass => simp [matchesFrom_single (parseClass_cases hclass).1]
  | @char c rest p _ _ _ hrest =>
    rw [matchesFrom_char]
    by_cases hc : '.' = c
    · subst hc
      rw [List.mem_cons, not_or] at hstar
      simp [hrest.matchesFrom_empty hstar.2 (by simpa using hdot)]
    · simp [hc]

theorem Reads.parse? {s : String} {p : Pattern} (h : Reads s.toList p) : parse? s = some p := by
  obtain ⟨steps, previous, _, hread⟩ :=
    @Reads.parseFrom_append s.toList [] p h (by simp) s.length
      (by simp [String.length_toList]) none []
  rw [List.append_nil] at hread
  rw [Pattern.parse?, hread, parseFrom_end]
  simp

theorem reads_of_parse? {s : String} {p : Pattern} (hslash : '/' ∉ s.toList)
    (h : parse? s = some p) :
    (s = "**" ∧ p = [.anyFolders]) ∨ Reads s.toList p := by
  rcases reads_of_parseFrom hslash (Nat.le_of_eq String.length_toList) h with
    ⟨hs, _, rfl⟩ | ⟨tokens, hreads, rfl⟩
  · exact Or.inl ⟨String.toList_injective hs, rfl⟩
  · exact Or.inr hreads

end Pattern

namespace Segment

open Pattern (Reads)

theorem isPlain_of_isSingle {t : Token} (h : Pattern.IsSingle t) : isPlain t = false := by
  cases t with
  | char => cases h
  | _ => rfl

theorem map_char_of_reads {cs : List Char} {p : Pattern} (h : Reads cs p)
    (hplain : p.all isPlain = true) : cs.map .char = p := by
  induction h with
  | nil => rfl
  | star | question => cases hplain
  | brackets hclass =>
    rw [List.all_cons, isPlain_of_isSingle (Pattern.parseClass_cases hclass).1] at hplain
    cases hplain
  | char _ _ _ _ ih => rw [List.map_cons, ih hplain]

/-- A part of a pattern is read by itself. -/
structure IsRead (text : String) (segment : Segment) : Prop where
  slashFree : '/' ∉ text.toList
  parsed : parse? text = some segment

/-- The part that a text with these tokens is read as. -/
def ofTokens (text : String) (p : Pattern) : Segment :=
  if p.all isPlain then literal text else wild p

theorem ofTokens_ne_folders (text : String) (p : Pattern) : ofTokens text p ≠ folders := by
  unfold ofTokens
  split <;> simp

section Tokens

variable {s : String} {p : Pattern} (h : Reads s.toList p)
include h

theorem tokens_ofTokens : (ofTokens s p).tokens = p := by
  unfold ofTokens
  split
  · rename_i hplain
    exact map_char_of_reads h hplain
  · rfl

theorem isFlat_ofTokens (hslash : '/' ∉ s.toList) : (ofTokens s p).IsFlat := by
  unfold ofTokens
  split
  · exact hslash
  · rename_i hplain
    refine ⟨?_, h.isFlat hslash⟩
    rintro rfl
    exact hplain rfl

theorem all_isPlain_iff : p.all isPlain = true ↔ ∀ c ∈ s.toList, c ≠ '*' ∧ c ≠ '?' ∧ c ≠ '[' := by
  generalize s.toList = cs at h
  induction h with
  | nil => simp
  | star | question => simp [isPlain]
  | brackets hclass => simp [isPlain_of_isSingle (Pattern.parseClass_cases hclass).1]
  | char hstar hquestion hbracket _ ih => simp [isPlain, ih, hstar, hquestion, hbracket]

theorem isRead_ofTokens (hslash : '/' ∉ s.toList) : IsRead s (ofTokens s p) := by
  have hfolders : p.contains .anyFolders = false := by
    rw [← Bool.not_eq_true, List.contains_iff_mem]
    exact fun hmem => h.isFlat hslash _ hmem
  refine ⟨hslash, ?_⟩
  rw [parse?, h.parse?, Option.map_some, hfolders]
  rfl

end Tokens

theorem IsRead.unique {s : String} {segment segment' : Segment} (h : IsRead s segment)
    (h' : IsRead s segment') : segment = segment' :=
  Option.some.inj (h.parsed.symm.trans h'.parsed)

theorem IsRead.eq_of_literal {s name : String} (h : IsRead s (literal name)) : name = s := by
  obtain ⟨p, _, hp⟩ := Option.map_eq_some_iff.mp h.parsed
  split at hp
  · cases hp
    rfl
  · split at hp <;> cases hp

/-- What one part is read as. -/
theorem IsRead.cases {s : String} {segment : Segment} (h : IsRead s segment) :
    (s = "**" ∧ segment = folders) ∨
      segment ≠ folders ∧ Reads s.toList segment.tokens ∧ segment.IsFlat := by
  obtain ⟨p, hp, _⟩ := Option.map_eq_some_iff.mp h.parsed
  rcases Pattern.reads_of_parse? h.slashFree hp with ⟨rfl, _⟩ | hreads
  · exact Or.inl ⟨rfl, h.unique ⟨h.slashFree, by decide⟩⟩
  · obtain rfl := h.unique (isRead_ofTokens hreads h.slashFree)
    refine Or.inr ⟨ofTokens_ne_folders s p, ?_, isFlat_ofTokens hreads h.slashFree⟩
    rwa [tokens_ofTokens hreads]

theorem IsRead.isFlat {s : String} {segment : Segment} (h : IsRead s segment) : segment.IsFlat := by
  rcases h.cases with ⟨_, rfl⟩ | ⟨_, _, hflat⟩
  · trivial
  · exact hflat

end Segment

/-! ### Whole texts -/

theorem compileAfter_folders (after : Bool) (rest : List Segment) :
    compileAfter after (.folders :: rest) =
      (if after then [] else [.anyFolders]) ++ compileAfter true rest := by
  cases after <;> rfl

theorem addFolders_twice {read : List Token} (h : read ≠ []) :
    Pattern.addFolders (Pattern.addFolders read) = Pattern.addFolders read := by
  obtain ⟨t, read, rfl⟩ := List.exists_cons_of_ne_nil h
  cases read with
  | nil => cases t <;> rfl
  | cons t' read => cases t <;> rfl

/-- The parts of a text are read from left to right. What is read before them ends in two stars or
not. -/
theorem parseFrom_joined {texts : List String} {segments : List Segment}
    (h : List.Forall₂ Segment.IsRead texts segments) {steps : Nat}
    (hsteps : (joined texts).length ≤ steps) {read : List Token} (hread : read ≠ [])
    {after : Bool}
    (hafter : Pattern.addFolders read = (if after then [] else [.anyFolders]) ++ read) :
    Pattern.parseFrom steps (some '/') read (joined texts) =
      some (read.reverse ++ compileAfter after segments) := by
  induction h generalizing steps read after with
  | nil =>
    have hend : joined [] = [] := rfl
    rw [hend, Pattern.parseFrom_end]
    simp [compileAfter]
  | @cons text s texts segments hs hrest ih =>
    by_cases hnil : texts = []
    · subst hnil
      obtain rfl := List.forall₂_nil_left_iff.mp hrest
      rw [joined_singleton] at hsteps ⊢
      rcases hs.cases with ⟨rfl, rfl⟩ | ⟨hne, hreads, _⟩
      · have hstars : "**".toList = ['*', '*'] := rfl
        obtain ⟨steps, rfl, _⟩ := Pattern.exists_steps hsteps
        rw [hstars, Pattern.parseFrom_stars, if_pos (by simp), if_pos rfl, compileAfter_folders,
          hafter]
        cases after <;> simp [compileAfter]
      · rw [compileAfter_last hne]
        obtain ⟨steps', previous', _, hparse⟩ :=
          @Pattern.Reads.parseFrom_append text.toList [] _ hreads (by simp) steps
            (by simpa using hsteps)
            (some '/') read
        rw [List.append_nil] at hparse
        rw [hparse, Pattern.parseFrom_end]
        simp
    · have hnil' : segments ≠ [] := by
        rintro rfl
        exact hnil (List.forall₂_nil_right_iff.mp hrest)
      rw [joined_cons text hnil] at hsteps ⊢
      rcases hs.cases with ⟨rfl, rfl⟩ | ⟨hne, hreads, _⟩
      · have hstars : "**".toList ++ '/' :: joined texts = '*' :: '*' :: '/' :: joined texts := rfl
        rw [hstars] at hsteps ⊢
        obtain ⟨steps, rfl, hless⟩ := Pattern.exists_steps hsteps
        have hadded : Pattern.addFolders read ≠ [] := by
          rw [hafter]
          simp [hread]
        have hrest := @ih steps (by simp at hless; omega) _ hadded true (addFolders_twice hread)
        rw [Pattern.parseFrom_stars, if_pos (by simp), if_neg (by simp), if_pos (by simp),
          List.tail_cons, hrest, compileAfter_folders, hafter]
        cases after <;> simp
      · rw [compileAfter_cons hne hnil']
        obtain ⟨steps', previous', hle, hparse⟩ :=
          hreads.parseFrom_append (by simp) steps hsteps (some '/') read
        obtain ⟨steps', rfl, hless⟩ := Pattern.exists_steps hle
        have hrest := @ih steps' hless (.char '/' :: (s.tokens.reverse ++ read)) (by simp) false rfl
        rw [hparse, Pattern.parseFrom_char (by decide) (by decide) (by decide), hrest]
        simp

section Texts

open Segment (IsStars Holds)

variable {texts : List String} {segments : List Segment}

theorem parse?_rooted (h : List.Forall₂ Segment.IsRead texts segments) :
    Pattern.parse? (Path.rooted texts).text = some (.char '/' :: compileAfter false segments) := by
  have hlength := congrArg List.length (toList_rooted texts)
  rw [String.length_toList, List.length_cons] at hlength
  rw [Pattern.parse?, toList_rooted, hlength,
    Pattern.parseFrom_char (by decide) (by decide) (by decide),
    @parseFrom_joined texts segments h _ (Nat.le_refl _) [.char '/'] (by simp) false rfl]
  rfl

theorem forall_isFlat (h : List.Forall₂ Segment.IsRead texts segments) :
    ∀ s ∈ segments, s.IsFlat := by
  induction h with
  | nil => simp
  | cons hs _ ih => exact List.forall_mem_cons.mpr ⟨hs.isFlat, ih⟩

theorem parts_unique {segments' : List Segment} (h : List.Forall₂ Segment.IsRead texts segments)
    (h' : List.Forall₂ Segment.IsRead texts segments') : segments = segments' := by
  have hunique : Relator.RightUnique Segment.IsRead := fun _ _ _ h h' => h.unique h'
  exact hunique.forall₂ h h'

theorem literal_mem (h : List.Forall₂ Segment.IsRead texts segments) {name : String}
    (hname : .literal name ∈ segments) : name ∈ texts := by
  induction h with
  | nil => cases hname
  | cons hpart _ ih =>
    rcases List.mem_cons.mp hname with rfl | hname
    · rw [hpart.eq_of_literal]
      exact List.mem_cons_self
    · exact List.mem_cons_of_mem _ (ih hname)

theorem finished_of_read (h : List.Forall₂ Segment.IsRead texts segments)
    (hempty : "" ∉ texts) : Finished segments :=
  fun hlast => hempty (literal_mem h (List.mem_of_getLast? hlast))

/-- A pattern stands for a path when its parts stand for the stretches of the path. -/
theorem holds_rooted_iff (h : List.Forall₂ Segment.IsRead texts segments) (hne : segments ≠ [])
    (hlast : Finished segments) {names : List String} (hnames : names ≠ [])
    (hslash : ∀ s ∈ names, '/' ∉ s.toList) :
    Pattern.holds (.char '/' :: compileAfter false segments) (Path.rooted names).text = true ↔
      Spans IsStars Holds segments names := by
  rw [Pattern.holds, toList_rooted, Pattern.matchesFrom_char, decide_eq_true rfl, Bool.true_and]
  exact (matchesFrom_compileAfter (forall_isFlat h) hlast hne).1 names hnames hslash

theorem forall₂_isRead_iff (hslash : ∀ s ∈ texts, '/' ∉ s.toList) :
    texts.mapM Segment.parse? = some segments ↔ List.Forall₂ Segment.IsRead texts segments := by
  rw [mapM_eq_some_iff]
  constructor
  · intro h
    induction h with
    | nil => exact .nil
    | cons hs _ ih =>
      exact .cons ⟨hslash _ List.mem_cons_self, hs⟩
        (ih fun x hx => hslash x (List.mem_cons_of_mem _ hx))
  · exact fun h => h.imp fun _ _ hs => hs.parsed

/-- The parts of a text are those between its slashes. -/
theorem segments?_rooted (hne : texts ≠ []) (hslash : ∀ s ∈ texts, '/' ∉ s.toList)
    {parts : List Segment} : segments? (Path.rooted texts).text = some parts ↔
      ∃ segments, List.Forall₂ Segment.IsRead texts segments ∧ parts = collapse segments := by
  have hfields : (Text.fields '/' (Path.rooted texts).text).drop 1 = texts := by
    have hsegments := Path.segments_rooted hne hslash
    rw [Path.segments] at hsegments
    rw [hsegments, List.drop_one, List.tail_cons]
  simp only [segments?, hfields, Option.bind_eq_bind, Option.bind_eq_some_iff, Option.pure_def,
    Option.some.injEq]
  constructor
  · rintro ⟨_, _, segments, hsegments, rfl⟩
    exact ⟨segments, (forall₂_isRead_iff hslash).mp hsegments, rfl⟩
  · rintro ⟨segments, hsegments, rfl⟩
    exact ⟨_, parse?_rooted hsegments, segments, (forall₂_isRead_iff hslash).mpr hsegments, rfl⟩

theorem mem_expand_rooted (hne : texts ≠ []) (hslash : ∀ s ∈ texts, '/' ∉ s.toList) {disk : Disk}
    {p : Path} : p ∈ expand disk (Path.rooted texts).text ↔
      ∃ segments, List.Forall₂ Segment.IsRead texts segments ∧
        p ∈ expandFrom disk (collapse segments) ⟨"/"⟩ := by
  unfold expand
  cases hparts : segments? (Path.rooted texts).text with
  | none =>
    refine iff_of_false (by simp) ?_
    rintro ⟨segments, hsegments, _⟩
    have hsome := (segments?_rooted hne hslash).mpr ⟨segments, hsegments, rfl⟩
    rw [hparts] at hsome
    cases hsome
  | some parts =>
    obtain ⟨segments, hsegments, rfl⟩ := (segments?_rooted hne hslash).mp hparts
    constructor
    · exact fun hp => ⟨segments, hsegments, hp⟩
    · rintro ⟨segments', hsegments', hp⟩
      have hsome := (segments?_rooted hne hslash).mpr ⟨segments', hsegments', rfl⟩
      rw [hparts, Option.some.injEq] at hsome
      rwa [hsome]

end Texts

namespace Pattern

/-- Whether a character is written between brackets to stand for itself. -/
def isSpecial (c : Char) : Bool := c = '?' || c = '*' || c = '[' || c = ']'

/-- The token for one character of an escaped text. -/
def escaped (c : Char) : Token := if isSpecial c then .oneOf [.single c] else .char c

theorem toList_escape (s : String) : (escape s).toList =
    s.toList.flatMap fun c => if isSpecial c then ['[', c, ']'] else [c] := by
  rw [escape, String.toList_ofList]
  rfl

theorem reads_escape (s : String) : Reads (escape s).toList (s.toList.map escaped) := by
  rw [toList_escape]
  induction s.toList with
  | nil => exact .nil
  | cons c cs ih =>
    rw [List.flatMap_cons, List.map_cons, escaped]
    split
    · rename_i hc
      refine .brackets ?_ ih
      have hmark : c ≠ '!' := by
        rintro rfl
        cases hc
      simp [parseClass, hmark, Text.breakAt, CharClass.parse]
    · rename_i hc
      simp only [isSpecial, Bool.or_eq_true, decide_eq_true_eq, not_or] at hc
      exact .char hc.1.1.2 hc.1.1.1 hc.1.2 ih

theorem matchesFrom_escaped (cs : List Char) (fresh : Bool) (name : List Char) :
    matchesFrom (cs.map escaped) fresh name = decide (name = cs) := by
  induction cs generalizing fresh name with
  | nil => cases name <;> simp
  | cons c cs ih =>
    rw [List.map_cons, escaped]
    split
    · rename_i hc
      have hsingle : IsSingle (.oneOf [.single c]) := trivial
      cases name with
      | nil => rw [matchesFrom_single_nil hsingle]; simp
      | cons d name =>
        rw [matchesFrom_single hsingle, ih, takes, List.any_cons, List.any_nil, Bool.or_false,
          CharClass.holds]
        by_cases hd : d = c
        · subst hd
          have hslash : d ≠ '/' := by
            rintro rfl
            cases hc
          have hpoint : d ≠ '.' := by
            rintro rfl
            cases hc
          simp [hslash, hpoint]
        · simp [hd]
    · cases name with
      | nil => simp
      | cons d name => rw [matchesFrom_char, ih]; simp

/-- An escaped text stands for itself alone. -/
theorem holds_escape (s : String) :
    ∃ p, parse? (escape s) = some p ∧ ∀ t, p.holds t = decide (t = s) := by
  refine ⟨_, (reads_escape s).parse?, fun t => ?_⟩
  rw [holds, matchesFrom_escaped]
  simp [String.toList_inj]

theorem not_mem_escape {s : String} (h : '/' ∉ s.toList) : '/' ∉ (escape s).toList := by
  rw [toList_escape, List.mem_flatMap]
  rintro ⟨c, hc, hmem⟩
  have hne : '/' ≠ c := fun he => h (he ▸ hc)
  split at hmem <;> simp [hne] at hmem

theorem escape_ne_empty {s : String} (h : s ≠ "") : escape s ≠ "" := by
  intro hempty
  have hchars := congrArg String.toList hempty
  obtain ⟨c, cs, hcs⟩ := List.exists_cons_of_ne_nil (by simpa using h : s.toList ≠ [])
  rw [toList_escape, hcs, List.flatMap_cons] at hchars
  split at hchars <;> simp at hchars

theorem flatMap_joined (names : List String) :
    ((joined names).flatMap fun c => if isSpecial c then ['[', c, ']'] else [c]) =
      joined (names.map escape) := by
  induction names with
  | nil => rfl
  | cons name names ih =>
    by_cases hnil : names = []
    · subst hnil
      rw [joined_singleton, List.map_singleton, joined_singleton, toList_escape]
    · rw [joined_cons name hnil, List.map_cons, joined_cons _ (by simpa using hnil), ← ih,
        toList_escape, List.flatMap_append, List.flatMap_cons]
      rfl

/-- Slashes are not escaped. -/
theorem escape_rooted (names : List String) :
    escape (Path.rooted names).text = (Path.rooted (names.map escape)).text := by
  apply String.toList_injective
  rw [toList_escape, toList_rooted, toList_rooted, List.flatMap_cons, flatMap_joined]
  rfl

end Pattern

namespace Segment

/-- The part that an escaped name is read as. -/
def escaped (name : String) : Segment :=
  ofTokens (Pattern.escape name) (name.toList.map Pattern.escaped)

theorem escaped_ne_folders (name : String) : escaped name ≠ folders := ofTokens_ne_folders _ _

theorem isRead_escape {name : String} (h : '/' ∉ name.toList) :
    IsRead (Pattern.escape name) (escaped name) :=
  isRead_ofTokens (Pattern.reads_escape name) (Pattern.not_mem_escape h)

theorem holds_escaped (name t : String) : (escaped name).holds t = decide (t = name) := by
  rw [holds_iff (escaped_ne_folders name), escaped, tokens_ofTokens (Pattern.reads_escape name),
    Pattern.matchesFrom_escaped]
  simp [String.toList_inj]

end Segment

end TypeOnly.Glob
