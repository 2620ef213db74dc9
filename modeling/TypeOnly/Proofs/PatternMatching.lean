import Mathlib.Data.List.Forall2
import TypeOnly.Glob.Expand
import TypeOnly.Proofs.PathSegments

/-!
Patterns for paths, part by part. A pattern that is read as a whole stands for a path exactly when
its parts stand for the stretches between the slashes of the path, each for one, and two stars for
any number of those that do not begin with a point.
-/

namespace TypeOnly.Glob

set_option autoImplicit false

open TypeOnly.Path (joined joined_singleton joined_cons)

/-! ### Matching within one stretch -/

/-- A token that never takes a slash. -/
def Token.IsFlat : Token → Prop
  | .char c => c ≠ '/'
  | .anyFolders => False
  | _ => True

namespace Pattern

@[simp] theorem matchesFrom_nil (fresh : Bool) (cs : List Char) :
    matchesFrom [] fresh cs = cs.isEmpty := by
  cases cs <;> rfl

@[simp] theorem matchesFrom_char_nil (x : Char) (p : Pattern) (fresh : Bool) :
    matchesFrom (.char x :: p) fresh [] = false := rfl

@[simp] theorem matchesFrom_char (x : Char) (p : Pattern) (fresh : Bool) (c : Char)
    (cs : List Char) :
    matchesFrom (.char x :: p) fresh (c :: cs) = (c = x && matchesFrom p (c = '/') cs) := rfl

@[simp] theorem matchesFrom_sequence (p : Pattern) (fresh : Bool) (cs : List Char) :
    matchesFrom (.anySequence :: p) fresh cs = skipSequence (matchesFrom p) fresh cs := by
  cases cs <;> rfl

theorem matchesFrom_folders (p : Pattern) (fresh : Bool) (cs : List Char) :
    matchesFrom (.anyFolders :: p) fresh cs =
      (matchesFrom p fresh cs || skipFolders (matchesFrom p) fresh cs) := by
  cases cs <;> rfl

/-- A token that takes exactly one character, which is no slash. -/
def IsSingle : Token → Prop
  | .anyChar | .oneOf _ | .noneOf _ => True
  | _ => False

/-- Whether such a token stands for a character. -/
def takes (c : Char) : Token → Bool
  | .oneOf classes => classes.any (CharClass.holds c)
  | .noneOf classes => !classes.any (CharClass.holds c)
  | _ => true

theorem matchesFrom_single_nil {t : Token} (ht : IsSingle t) (p : Pattern) (fresh : Bool) :
    matchesFrom (t :: p) fresh [] = false := by
  cases t with
  | anyChar | oneOf _ | noneOf _ => rfl
  | _ => cases ht

theorem matchesFrom_single {t : Token} (ht : IsSingle t) (p : Pattern) (fresh : Bool) (c : Char)
    (cs : List Char) : matchesFrom (t :: p) fresh (c :: cs) =
      (c ≠ '/' && !(fresh && c = '.') && takes c t && matchesFrom p false cs) := by
  cases t with
  | anyChar | oneOf _ | noneOf _ => rfl
  | _ => cases ht

theorem IsSingle.isFlat {t : Token} (ht : IsSingle t) : t.IsFlat := by
  cases t with
  | anyChar | oneOf _ | noneOf _ => trivial
  | _ => cases ht

theorem flat_cases {t : Token} (h : t.IsFlat) :
    (∃ c, t = .char c ∧ c ≠ '/') ∨ t = .anySequence ∨ IsSingle t := by
  cases t with
  | char c => exact Or.inl ⟨c, rfl, h⟩
  | anySequence => exact Or.inr (Or.inl rfl)
  | anyFolders => exact False.elim h
  | anyChar | oneOf _ | noneOf _ => exact Or.inr (Or.inr trivial)

section Flat

variable {p : Pattern} {name cs : List Char}

/-- A slash in the pattern and the first one in the text stand for each other. -/
theorem matchesFrom_slash (hp : ∀ t ∈ p, t.IsFlat) (hname : '/' ∉ name) (rest : Pattern)
    (fresh : Bool) (cs : List Char) :
    matchesFrom (p ++ .char '/' :: rest) fresh (name ++ '/' :: cs) =
      (matchesFrom p fresh name && matchesFrom rest true cs) := by
  induction p generalizing fresh name with
  | nil =>
    cases name with
    | nil => simp
    | cons c name =>
      have hc : c ≠ '/' := fun hc => hname (hc ▸ List.mem_cons_self)
      simp [hc]
  | cons t p ih =>
    have ih' {n : List Char} (hn : '/' ∉ n) (fresh : Bool) :=
      ih (fun x hx => hp x (List.mem_cons_of_mem t hx)) hn fresh
    rw [List.cons_append]
    rcases flat_cases (hp t List.mem_cons_self) with ⟨x, rfl, hx⟩ | rfl | ht
    · cases name with
      | nil => simp [Ne.symm hx]
      | cons c name =>
        rw [List.mem_cons, not_or] at hname
        simp [ih' hname.2, Bool.and_assoc]
    · simp only [matchesFrom_sequence]
      induction name generalizing fresh with
      | nil => simpa [skipSequence] using ih' (n := []) (by simp) fresh
      | cons c name ihname =>
        have hrest := ih' hname fresh
        rw [List.mem_cons, not_or] at hname
        rw [List.cons_append] at hrest ⊢
        rw [skipSequence, skipSequence, hrest, ihname hname.2]
        cases matchesFrom rest true cs <;> simp
    · cases name with
      | nil => simp [matchesFrom_single ht, matchesFrom_single_nil ht]
      | cons c name =>
        rw [List.mem_cons, not_or] at hname
        rw [List.cons_append, matchesFrom_single ht, matchesFrom_single ht, ih' hname.2]
        simp [Bool.and_assoc]

theorem not_mem_of_matchesFrom (hp : ∀ t ∈ p, t.IsFlat) {fresh : Bool}
    (h : matchesFrom p fresh cs = true) : '/' ∉ cs := by
  induction p generalizing fresh cs with
  | nil =>
    rw [matchesFrom_nil, List.isEmpty_iff] at h
    simp [h]
  | cons t p ih =>
    have ih' {cs : List Char} {fresh : Bool} :=
      @ih cs (fun x hx => hp x (List.mem_cons_of_mem t hx)) fresh
    rcases flat_cases (hp t List.mem_cons_self) with ⟨x, rfl, hx⟩ | rfl | ht
    · cases cs with
      | nil => simp
      | cons c cs =>
        simp only [matchesFrom_char, Bool.and_eq_true, decide_eq_true_eq] at h
        simp [h.1, Ne.symm hx, ih' h.2]
    · rw [matchesFrom_sequence] at h
      induction cs generalizing fresh with
      | nil => simp
      | cons c cs ihcs =>
        rw [skipSequence, Bool.or_eq_true] at h
        rcases h with h | h
        · exact ih' h
        · simp only [Bool.and_eq_true, decide_eq_true_eq] at h
          simp [Ne.symm h.1.2, ihcs h.2]
    · cases cs with
      | nil => simp
      | cons c cs =>
        rw [matchesFrom_single ht] at h
        simp only [Bool.and_eq_true, decide_eq_true_eq] at h
        simp [Ne.symm h.1.1.1, ih' h.2]

theorem skipSequence_true {after : Bool → List Char → Bool} {fresh : Bool}
    (h : skipSequence after fresh cs = true) : ∃ front back fresh', cs = front ++ back ∧
      after fresh' back = true := by
  induction cs generalizing fresh with
  | nil => exact ⟨[], [], fresh, rfl, h⟩
  | cons c cs ih =>
    rw [skipSequence, Bool.or_eq_true] at h
    rcases h with h | h
    · exact ⟨[], c :: cs, fresh, rfl, h⟩
    · simp only [Bool.and_eq_true] at h
      obtain ⟨front, back, fresh', rfl, hafter⟩ := ih h.2
      exact ⟨c :: front, back, fresh', rfl, hafter⟩

/-- A character of a flat pattern is in every text that it stands for. -/
theorem mem_of_matchesFrom (hp : ∀ t ∈ p, t.IsFlat) (rest : Pattern) {x : Char} {fresh : Bool}
    (h : matchesFrom (p ++ .char x :: rest) fresh cs = true) : x ∈ cs := by
  induction p generalizing fresh cs with
  | nil =>
    cases cs with
    | nil => cases h
    | cons c cs =>
      simp only [List.nil_append, matchesFrom_char, Bool.and_eq_true, decide_eq_true_eq] at h
      exact h.1 ▸ List.mem_cons_self
  | cons t p ih =>
    have ih' {cs : List Char} {fresh : Bool} :=
      @ih cs (fun x hx => hp x (List.mem_cons_of_mem t hx)) fresh
    rw [List.cons_append] at h
    rcases flat_cases (hp t List.mem_cons_self) with ⟨y, rfl, _⟩ | rfl | ht
    · cases cs with
      | nil => cases h
      | cons c cs =>
        simp only [matchesFrom_char, Bool.and_eq_true] at h
        exact List.mem_cons_of_mem c (ih' h.2)
    · rw [matchesFrom_sequence] at h
      obtain ⟨front, back, fresh', rfl, hafter⟩ := skipSequence_true h
      exact List.mem_append_right front (ih' hafter)
    · cases cs with
      | nil => rw [matchesFrom_single_nil ht] at h; cases h
      | cons c cs =>
        rw [matchesFrom_single ht] at h
        simp only [Bool.and_eq_true] at h
        exact List.mem_cons_of_mem c (ih' h.2)

end Flat

/-! ### Any number of folders -/

/-- Whether a stretch does not begin with a point. -/
def shows (name : List Char) : Bool := name.head? ≠ some '.'

theorem skipFolders_slash (after : Bool → List Char → Bool) {name : List Char} (hname : '/' ∉ name)
    (fresh : Bool) (cs : List Char) : skipFolders after fresh (name ++ '/' :: cs) =
      ((!fresh || shows name) && (after true cs || skipFolders after true cs)) := by
  induction name generalizing fresh with
  | nil => simp [skipFolders, shows]
  | cons c name ih =>
    rw [List.mem_cons, not_or] at hname
    have hc : c ≠ '/' := Ne.symm hname.1
    rw [List.cons_append, skipFolders, decide_eq_false hc, ih hname.2]
    cases fresh <;> simp [shows]

theorem skipFolders_end (after : Bool → List Char → Bool) {name : List Char} (hname : '/' ∉ name)
    (fresh : Bool) : skipFolders after fresh name =
      ((!fresh || shows name) && after (fresh && name.isEmpty) []) := by
  induction name generalizing fresh with
  | nil => simp [skipFolders, shows]
  | cons c name ih =>
    rw [List.mem_cons, not_or] at hname
    have hc : c ≠ '/' := Ne.symm hname.1
    rw [skipFolders, decide_eq_false hc, ih hname.2]
    cases fresh <;> simp [shows]

/-- Any number of folders is none, or one and any number of them. -/
theorem matchesFrom_folders_slash (p : Pattern) {name : List Char} (hname : '/' ∉ name)
    (cs : List Char) : matchesFrom (.anyFolders :: p) true (name ++ '/' :: cs) =
      (matchesFrom p true (name ++ '/' :: cs)
        || (shows name && matchesFrom (.anyFolders :: p) true cs)) := by
  rw [matchesFrom_folders, matchesFrom_folders, skipFolders_slash _ hname]
  rfl

theorem matchesFrom_folders_end (p : Pattern) {name : List Char} (hname : '/' ∉ name) :
    matchesFrom (.anyFolders :: p) true name =
      (matchesFrom p true name || (shows name && matchesFrom p name.isEmpty [])) := by
  rw [matchesFrom_folders, skipFolders_end _ hname]
  rfl

/-- A pattern that stands for nothing at all consists of stars, and stands for every name. -/
theorem matchesFrom_of_empty {p : Pattern} (hp : ∀ t ∈ p, t.IsFlat) (hne : p ≠ []) {fresh : Bool}
    (h : matchesFrom p fresh [] = true) {name : List Char} (hname : '/' ∉ name) (fresh' : Bool)
    (hshows : fresh' = true → shows name = true) : matchesFrom p fresh' name = true := by
  cases p with
  | nil => exact False.elim (hne rfl)
  | cons t p =>
    have hstar : t = .anySequence := by
      rcases flat_cases (hp t List.mem_cons_self) with ⟨x, rfl, _⟩ | rfl | ht
      · cases h
      · rfl
      · rw [matchesFrom_single_nil ht] at h
        cases h
    subst hstar
    rw [matchesFrom_sequence, skipSequence] at h
    have hend (fresh' : Bool) : matchesFrom p fresh' [] = true := by
      by_cases hnil : p = []
      · rw [hnil]
        rfl
      · exact matchesFrom_of_empty (fun x hx => hp x (List.mem_cons_of_mem _ hx)) hnil h
          (by simp) fresh'
          (fun _ => rfl)
    rw [matchesFrom_sequence]
    induction name generalizing fresh' with
    | nil => exact hend fresh'
    | cons c name ih =>
      rw [List.mem_cons, not_or] at hname
      have hpoint : (fresh' && c = '.') = false := by
        cases fresh' with
        | false => rfl
        | true => simpa [shows] using hshows rfl
      have hskip := ih hname.2 false (by simp)
      simp [skipSequence, hpoint, Ne.symm hname.1, hskip]

end Pattern

/-! ### Parts of a pattern -/

namespace Segment

/-- The tokens of a part. -/
def tokens : Segment → Pattern
  | literal s => s.toList.map .char
  | wild p => p
  | folders => [.anyFolders]

/-- A part that stands for stretches without slashes. -/
def IsFlat : Segment → Prop
  | literal s => '/' ∉ s.toList
  | wild p => p ≠ [] ∧ ∀ t ∈ p, t.IsFlat
  | folders => True

theorem IsFlat.tokens {s : Segment} (h : s.IsFlat) (hs : s ≠ folders) :
    ∀ t ∈ s.tokens, t.IsFlat := by
  cases s with
  | literal s =>
    intro t ht
    obtain ⟨c, hc, rfl⟩ := List.mem_map.mp ht
    exact fun he => h (he ▸ hc)
  | wild p => exact h.2
  | folders => exact False.elim (hs rfl)

theorem matchesFrom_literal (s : List Char) (fresh : Bool) (name : List Char) :
    Pattern.matchesFrom (s.map .char) fresh name = decide (name = s) := by
  induction s generalizing fresh name with
  | nil => cases name <;> simp
  | cons c s ih =>
    cases name with
    | nil => simp
    | cons d name =>
      rw [List.map_cons, Pattern.matchesFrom_char, ih]
      simp

theorem holds_iff {s : Segment} (hs : s ≠ folders) (name : String) :
    s.holds name = s.tokens.matchesFrom true name.toList := by
  cases s with
  | literal s =>
    rw [tokens, matchesFrom_literal, holds]
    simp [String.toList_inj]
  | wild p => rfl
  | folders => exact False.elim (hs rfl)

end Segment

/-! ### Parts and stretches -/

/-- Parts stand for the stretches of a path, each that fits for one, and the parts that are two
stars for any number of those that do not begin with a point. -/
inductive Spans {α : Type} (stars : α → Prop) (fits : α → String → Prop) :
    List α → List String → Prop where
  | nil : Spans stars fits [] []
  | one {s : α} {rest : List α} {name : String} {names : List String} : ¬ stars s → fits s name →
      Spans stars fits rest names → Spans stars fits (s :: rest) (name :: names)
  | none {s : α} {rest : List α} {names : List String} : stars s → rest ≠ [] →
      Spans stars fits rest names → Spans stars fits (s :: rest) names
  | more {s : α} {rest : List α} {name : String} {names : List String} : stars s →
      isVisible name = true → Spans stars fits (s :: rest) names →
      Spans stars fits (s :: rest) (name :: names)
  | last {s : α} {name : String} : stars s → isVisible name = true → Spans stars fits [s] [name]

namespace Spans

section

variable {α : Type} {stars : α → Prop} {fits : α → String → Prop}
variable {s : α} {rest : List α} {name : String} {names : List String}

theorem ne_nil (h : Spans stars fits rest names) (hne : rest ≠ []) : names ≠ [] := by
  induction h with
  | nil => exact False.elim (hne rfl)
  | one | more | last => simp
  | none _ hrest _ ih => exact ih hrest

theorem one_iff (hs : ¬ stars s) : Spans stars fits (s :: rest) (name :: names) ↔
    fits s name ∧ Spans stars fits rest names := by
  constructor
  · intro h
    cases h with
    | one _ hname h => exact ⟨hname, h⟩
    | none hs' | more hs' | last hs' => exact False.elim (hs hs')
  · rintro ⟨hname, h⟩
    exact .one hs hname h

theorem of_one (h : Spans stars fits (s :: rest) names) (hs : ¬ stars s) : ∃ name names',
    names = name :: names' ∧ fits s name ∧ Spans stars fits rest names' := by
  cases names with
  | nil => exact False.elim (h.ne_nil (by simp) rfl)
  | cons name names => exact ⟨name, names, rfl, (one_iff hs).mp h⟩

theorem stars_iff (hs : stars s) (hne : rest ≠ []) : Spans stars fits (s :: rest) (name :: names) ↔
    Spans stars fits rest (name :: names) ∨
      isVisible name = true ∧ Spans stars fits (s :: rest) names := by
  constructor
  · intro h
    cases h with
    | one hs' => exact False.elim (hs' hs)
    | none _ _ h => exact Or.inl h
    | more _ hname h => exact Or.inr ⟨hname, h⟩
    | last => exact False.elim (hne rfl)
  · rintro (h | ⟨hname, h⟩)
    · exact .none hs hne h
    · exact .more hs hname h

theorem last_stars_iff (hs : stars s) : Spans stars fits [s] names ↔
    names ≠ [] ∧ ∀ name ∈ names, isVisible name = true := by
  constructor
  · intro h
    refine ⟨h.ne_nil (by simp), ?_⟩
    generalize hrest : [s] = rest at h
    induction h with
    | nil => cases hrest
    | one hs' => exact False.elim (hs' ((List.cons.inj hrest).1 ▸ hs))
    | none _ hne => exact False.elim (hne (List.cons.inj hrest).2.symm)
    | more _ hname _ ih => simpa [hname] using ih hrest
    | last _ hname => simpa using hname
  · rintro ⟨hne, hall⟩
    induction names with
    | nil => exact False.elim (hne rfl)
    | cons name names ih =>
      have hname := hall name List.mem_cons_self
      by_cases hnil : names = []
      · rw [hnil]
        exact .last hs hname
      · exact .more hs hname (ih hnil fun x hx => hall x (List.mem_cons_of_mem name hx))

theorem stars_twice {s' : α} (hs : stars s) (hs' : stars s') :
    Spans stars fits (s :: s' :: rest) names ↔ Spans stars fits (s' :: rest) names := by
  constructor
  · intro h
    generalize hdouble : s :: s' :: rest = double at h
    induction h with
    | nil => cases hdouble
    | one hs'' => exact False.elim (hs'' ((List.cons.inj hdouble).1 ▸ hs))
    | none _ _ h => exact (List.cons.inj hdouble).2 ▸ h
    | more _ hname _ ih => exact .more hs' hname (ih hdouble)
    | last => cases hdouble
  · exact .none hs (by simp)

theorem more_append {first : List String} (hs : stars s) (hfirst : ∀ x ∈ first, isVisible x = true)
    (h : Spans stars fits (s :: rest) names) : Spans stars fits (s :: rest) (first ++ names) := by
  induction first with
  | nil => exact h
  | cons x first ih =>
    rw [List.forall_mem_cons] at hfirst
    exact .more hs hfirst.1 (ih hfirst.2)

/-- Two stars and one more part. -/
theorem stars_then {s' : α} {first : List String} (hs : stars s)
    (hfirst : ∀ x ∈ first, isVisible x = true) (hname : isVisible name = true)
    (hfits : ¬ stars s' → fits s' name) (h : Spans stars fits rest names) :
    Spans stars fits (s :: s' :: rest) (first ++ name :: names) := by
  by_cases hs' : stars s'
  · rw [stars_twice hs hs']
    apply more_append hs' hfirst
    by_cases hrest : rest = []
    · subst hrest
      cases h
      exact .last hs' hname
    · exact .more hs' hname (.none hs' hrest h)
  · exact more_append hs hfirst (.none hs (by simp) (.one hs' (hfits hs') h))

theorem of_stars_one {s' : α} (h : Spans stars fits (s :: s' :: rest) names) (hs : stars s)
    (hs' : ¬ stars s') : ∃ first name names', names = first ++ name :: names' ∧
      (∀ x ∈ first, isVisible x = true) ∧ fits s' name ∧ Spans stars fits rest names' := by
  induction names with
  | nil => exact False.elim (h.ne_nil (by simp) rfl)
  | cons name names ih =>
    rcases (stars_iff hs (by simp)).mp h with h | ⟨hname, h⟩
    · obtain ⟨hfits, h⟩ := (one_iff hs').mp h
      exact ⟨[], name, names, rfl, by simp, hfits, h⟩
    · obtain ⟨first, last, names', rfl, hfirst, hfits, h⟩ := ih h
      exact ⟨name :: first, last, names', rfl, List.forall_mem_cons.mpr ⟨hname, hfirst⟩, hfits, h⟩

/-- The last part stands for the last stretch. -/
theorem getLast {init : List α} (h : Spans stars fits (init ++ [s]) names) (hs : ¬ stars s) :
    ∃ name, names.getLast? = some name ∧ fits s name := by
  generalize hrest : init ++ [s] = rest at h
  induction h generalizing init with
  | nil => simp at hrest
  | @one s' rest name names _ hname hnames ih =>
    cases init with
    | nil =>
      obtain ⟨rfl, rfl⟩ := List.cons.inj hrest
      cases hnames
      exact ⟨name, rfl, hname⟩
    | cons s'' init =>
      obtain ⟨last, hlast, hfits⟩ := ih (List.cons.inj hrest).2
      refine ⟨last, ?_, hfits⟩
      rw [List.getLast?_cons, hlast, Option.getD_some]
  | none hs' _ _ ih =>
    cases init with
    | nil => exact False.elim (hs ((List.cons.inj hrest).1 ▸ hs'))
    | cons s'' init => exact ih (List.cons.inj hrest).2
  | more _ _ _ ih =>
    obtain ⟨last, hlast, hfits⟩ := ih hrest
    refine ⟨last, ?_, hfits⟩
    rw [List.getLast?_cons, hlast, Option.getD_some]
  | last hs' =>
    cases init with
    | nil => exact False.elim (hs ((List.cons.inj hrest).1 ▸ hs'))
    | cons s'' init => simp at hrest

/-- Parts that do not end in two stars stand for stretches of their own. -/
theorem of_append {first second : List α} (h : Spans stars fits (first ++ second) names)
    (hlast : ∀ s, first.getLast? = some s → ¬ stars s) :
    ∃ front back, names = front ++ back ∧ Spans stars fits first front ∧
      Spans stars fits second back := by
  induction first generalizing names with
  | nil => exact ⟨[], names, rfl, .nil, h⟩
  | cons s first ih =>
    have hlast' : ∀ x, first.getLast? = some x → ¬ stars x := by
      intro x hx
      apply hlast
      rw [List.getLast?_cons, hx, Option.getD_some]
    rw [List.cons_append] at h
    induction names with
    | nil => exact False.elim (h.ne_nil (by simp) rfl)
    | cons name names ihnames =>
      by_cases hs : stars s
      · have hfirst : first ≠ [] := by
          rintro rfl
          exact hlast s rfl hs
        rcases (stars_iff hs (by simp [hfirst])).mp h with h | ⟨hname, h⟩
        · obtain ⟨front, back, hnames, hfront, hback⟩ := ih h hlast'
          exact ⟨front, back, hnames, .none hs hfirst hfront, hback⟩
        · obtain ⟨front, back, rfl, hfront, hback⟩ := ihnames h
          exact ⟨name :: front, back, rfl, .more hs hname hfront, hback⟩
      · obtain ⟨hname, h⟩ := (one_iff hs).mp h
        obtain ⟨front, back, rfl, hfront, hback⟩ := ih h hlast'
        exact ⟨name :: front, back, rfl, .one hs hname hfront, hback⟩

end

/-- Parts that stand for the same names stand for the same stretches. -/
theorem of_forall₂ {α β : Type} {stars : α → Prop} {fits : α → String → Prop} {stars' : β → Prop}
    {fits' : β → String → Prop} {l : List α} {l' : List β} {names : List String}
    (h : Spans stars fits l names) (hl : List.Forall₂ (fun s s' => (stars s ↔ stars' s') ∧
      ∀ name ∈ names, ¬ stars s → fits s name → fits' s' name) l l') :
    Spans stars' fits' l' names := by
  induction h generalizing l' with
  | nil =>
    obtain rfl := List.forall₂_nil_left_iff.mp hl
    exact .nil
  | one hs hname _ ih =>
    obtain ⟨s', rest', ⟨hstars, hfits⟩, hrest, rfl⟩ := List.forall₂_cons_left_iff.mp hl
    refine .one (mt hstars.mpr hs) (hfits _ List.mem_cons_self hs hname) (ih (hrest.imp ?_))
    exact fun _ _ hpart => ⟨hpart.1, fun x hx => hpart.2 x (List.mem_cons_of_mem _ hx)⟩
  | none hs hne _ ih =>
    obtain ⟨s', rest', ⟨hstars, _⟩, hrest, rfl⟩ := List.forall₂_cons_left_iff.mp hl
    refine .none (hstars.mp hs) ?_ (ih hrest)
    rintro rfl
    exact hne (List.forall₂_nil_right_iff.mp hrest)
  | more hs hname _ ih =>
    obtain ⟨s', rest', ⟨hstars, _⟩, _, rfl⟩ := List.forall₂_cons_left_iff.mp hl
    refine .more (hstars.mp hs) hname (ih (hl.imp ?_))
    exact fun _ _ hpart => ⟨hpart.1, fun x hx => hpart.2 x (List.mem_cons_of_mem _ hx)⟩
  | last hs hname =>
    obtain ⟨s', rest', ⟨hstars, _⟩, hrest, rfl⟩ := List.forall₂_cons_left_iff.mp hl
    obtain rfl := List.forall₂_nil_left_iff.mp hrest
    exact .last (hstars.mp hs) hname

end Spans

/-- Two stars as a part. -/
def Segment.IsStars (s : Segment) : Prop := s = .folders

theorem Segment.isStars_folders : IsStars folders := rfl

/-- A part stands for a stretch. -/
def Segment.Holds (s : Segment) (name : String) : Prop := s.holds name = true

open Segment (IsStars Holds)

/-- Two stars after two stars add nothing. -/
theorem spans_collapse {fits : Segment → String → Prop} {segments : List Segment}
    {names : List String} : Spans IsStars fits (collapse segments) names ↔
      Spans IsStars fits segments names := by
  induction segments generalizing names with
  | nil => rfl
  | cons s rest ih =>
    rw [collapse]
    split
    · rename_i htwice
      simp only [Bool.and_eq_true, decide_eq_true_eq] at htwice
      obtain ⟨rest', rfl⟩ := List.head?_eq_some_iff.mp htwice.2
      have hs : s.IsStars := htwice.1
      rw [ih, Spans.stars_twice hs Segment.isStars_folders]
    · have hnil : collapse rest = [] ↔ rest = [] := by
        constructor
        · intro hnil
          by_contra hne
          exact (ih.mp (hnil ▸ Spans.nil)).ne_nil hne rfl
        · rintro rfl
          rfl
      by_cases hrest : rest = []
      · rw [hrest]
        rfl
      have hcollapse := mt hnil.mp hrest
      induction names with
      | nil =>
        exact iff_of_false (fun h => h.ne_nil (by simp) rfl) (fun h => h.ne_nil (by simp) rfl)
      | cons name names ihnames =>
        by_cases hs : s.IsStars
        · rw [Spans.stars_iff hs hcollapse, Spans.stars_iff hs hrest, ih]
          exact or_congr_right (and_congr_right fun _ => ihnames)
        · rw [Spans.one_iff hs, Spans.one_iff hs, ih]

/-! ### Whole patterns -/

/-- The tokens of some parts, with slashes between them; two stars have theirs in them. After two
stars, two more add nothing. -/
def compileAfter : Bool → List Segment → Pattern
  | _, [] => []
  | false, .folders :: rest => .anyFolders :: compileAfter true rest
  | true, .folders :: rest => compileAfter true rest
  | _, [s] => s.tokens
  | _, s :: rest => s.tokens ++ .char '/' :: compileAfter false rest

theorem compileAfter_last {s : Segment} (hs : ¬ s.IsStars) (after : Bool) :
    compileAfter after [s] = s.tokens := by
  cases s with
  | folders => exact False.elim (hs rfl)
  | literal _ | wild _ => cases after <;> rfl

theorem compileAfter_cons {s : Segment} (hs : ¬ s.IsStars) {rest : List Segment} (hrest : rest ≠ [])
    (after : Bool) :
    compileAfter after (s :: rest) = s.tokens ++ .char '/' :: compileAfter false rest := by
  obtain ⟨next, rest, rfl⟩ := List.exists_cons_of_ne_nil hrest
  cases s with
  | folders => exact False.elim (hs rfl)
  | literal _ | wild _ => cases after <;> rfl

section Whole

variable {names : List String}

theorem shows_toList (name : String) : Pattern.shows name.toList = isVisible name := by
  unfold Pattern.shows isVisible Text.beginsWith
  cases name.toList with
  | nil => rfl
  | cons c cs =>
    have hpoint : ('.' == c) = decide (c = '.') := by
      rw [Bool.eq_iff_iff, beq_iff_eq, decide_eq_true_iff]
      exact eq_comm
    simp [List.isPrefixOf, hpoint]

/-- Two stars in front of a pattern. -/
theorem matchesFrom_folders_spans {p : Pattern} {segments : List Segment} (hne : segments ≠ [])
    (hspans : ∀ names, names ≠ [] → (∀ s ∈ names, '/' ∉ s.toList) →
      (p.matchesFrom true (joined names) = true ↔ Spans IsStars Holds segments names))
    (hend : ∀ name : List Char, '/' ∉ name → Pattern.shows name = true →
      p.matchesFrom name.isEmpty [] = true → p.matchesFrom true name = true)
    (hnames : names ≠ []) (hslash : ∀ s ∈ names, '/' ∉ s.toList) :
    Pattern.matchesFrom (.anyFolders :: p) true (joined names) = true ↔
      Spans IsStars Holds (.folders :: segments) names := by
  induction names with
  | nil => exact False.elim (hnames rfl)
  | cons name names ih =>
    have hname := hslash name List.mem_cons_self
    have hnone : ¬ Spans IsStars Holds (.folders :: segments) [] := fun h => h.ne_nil (by simp) rfl
    have hhere := hspans (name :: names) hnames hslash
    rw [Spans.stars_iff Segment.isStars_folders hne, ← hhere]
    by_cases hrest : names = []
    · subst hrest
      rw [joined_singleton, Pattern.matchesFrom_folders_end p hname, Bool.or_eq_true,
        Bool.and_eq_true]
      constructor
      · rintro (h | ⟨hshows, h⟩)
        · exact Or.inl h
        · exact Or.inl (hend name.toList hname hshows h)
      · rintro (h | ⟨_, h⟩)
        · exact Or.inl h
        · exact False.elim (hnone h)
    · have ih' := ih hrest fun s hs => hslash s (List.mem_cons_of_mem name hs)
      rw [joined_cons name hrest, Pattern.matchesFrom_folders_slash p hname, Bool.or_eq_true,
        Bool.and_eq_true, shows_toList, ih']

/-- The last part is not empty. -/
def Finished (segments : List Segment) : Prop := segments.getLast? ≠ some (.literal "")

theorem matchesFrom_last {s : Segment} (hs : ¬ s.IsStars) (hflat : s.IsFlat) (hnames : names ≠ [])
    (hslash : ∀ s ∈ names, '/' ∉ s.toList) :
    s.tokens.matchesFrom true (joined names) = true ↔ Spans IsStars Holds [s] names := by
  obtain ⟨name, names, rfl⟩ := List.exists_cons_of_ne_nil hnames
  rw [Spans.one_iff hs]
  by_cases hrest : names = []
  · subst hrest
    rw [joined_singleton, ← Segment.holds_iff hs]
    exact (and_iff_left Spans.nil).symm
  · rw [joined_cons name hrest]
    refine iff_of_false (fun h => ?_) (fun h => ?_)
    · exact Pattern.not_mem_of_matchesFrom (hflat.tokens hs) h (by simp)
    · cases h.2
      exact hrest rfl

theorem matchesFrom_step {s : Segment} (hs : ¬ s.IsStars) (hflat : s.IsFlat) {p : Pattern}
    {segments : List Segment} (hne : segments ≠ [])
    (hspans : ∀ names, names ≠ [] → (∀ s ∈ names, '/' ∉ s.toList) →
      (p.matchesFrom true (joined names) = true ↔ Spans IsStars Holds segments names))
    (hnames : names ≠ []) (hslash : ∀ s ∈ names, '/' ∉ s.toList) :
    Pattern.matchesFrom (s.tokens ++ .char '/' :: p) true (joined names) = true ↔
      Spans IsStars Holds (s :: segments) names := by
  obtain ⟨name, names, rfl⟩ := List.exists_cons_of_ne_nil hnames
  have hname := hslash name List.mem_cons_self
  rw [Spans.one_iff hs]
  by_cases hrest : names = []
  · subst hrest
    refine iff_of_false (fun h => ?_) (fun h => h.2.ne_nil hne rfl)
    rw [joined_singleton] at h
    exact hname (Pattern.mem_of_matchesFrom (hflat.tokens hs) p h)
  · rw [joined_cons name hrest, Pattern.matchesFrom_slash (hflat.tokens hs) hname, Bool.and_eq_true,
      ← Segment.holds_iff hs,
      hspans names hrest fun s hs => hslash s (List.mem_cons_of_mem name hs)]
    rfl

theorem matchesFrom_folders_last (hnames : names ≠ []) (hslash : ∀ s ∈ names, '/' ∉ s.toList) :
    Pattern.matchesFrom [.anyFolders] true (joined names) = true ↔
      Spans IsStars Holds [.folders] names := by
  rw [Spans.last_stars_iff Segment.isStars_folders]
  induction names with
  | nil => exact False.elim (hnames rfl)
  | cons name names ih =>
    have hname := hslash name List.mem_cons_self
    by_cases hrest : names = []
    · subst hrest
      rw [joined_singleton, Pattern.matchesFrom_folders_end [] hname, List.forall_mem_singleton,
        ← shows_toList]
      cases name.toList <;> simp [Pattern.shows]
    · rw [joined_cons name hrest, Pattern.matchesFrom_folders_slash [] hname, shows_toList]
      simp [ih hrest fun s hs => hslash s (List.mem_cons_of_mem name hs), hrest]

/-- Only stars stand for nothing, and they stand for every visible name as well. -/
theorem matchesFrom_last_end {s : Segment} (hs : ¬ s.IsStars) (hflat : s.IsFlat)
    (hempty : s ≠ .literal "") {name : List Char} (hname : '/' ∉ name)
    (hshows : Pattern.shows name = true) {fresh : Bool} (h : s.tokens.matchesFrom fresh [] = true) :
    s.tokens.matchesFrom true name = true := by
  have hne : s.tokens ≠ [] := by
    cases s with
    | folders => exact False.elim (hs rfl)
    | literal s => simpa [Segment.tokens] using fun he => hempty (congrArg _ he)
    | wild p => exact hflat.1
  exact Pattern.matchesFrom_of_empty (hflat.tokens hs) hne h hname true fun _ => hshows

/-- The pattern of some parts stands for a path exactly when the parts cover its stretches. -/
theorem matchesFrom_compileAfter {segments : List Segment} (hflat : ∀ s ∈ segments, s.IsFlat)
    (hlast : Finished segments) (hne : segments ≠ []) :
    (∀ names, names ≠ [] → (∀ s ∈ names, '/' ∉ s.toList) →
      ((compileAfter false segments).matchesFrom true (joined names) = true ↔
        Spans IsStars Holds segments names)) ∧
    ∀ names, names ≠ [] → (∀ s ∈ names, '/' ∉ s.toList) →
      (Pattern.matchesFrom (.anyFolders :: compileAfter true segments) true (joined names) = true ↔
        Spans IsStars Holds (.folders :: segments) names) := by
  -- two stars after two stars are compiled only once, so both statements are carried along
  induction segments with
  | nil => exact False.elim (hne rfl)
  | cons s rest ih =>
    have hs := hflat s List.mem_cons_self
    have hrest := fun x hx => hflat x (List.mem_cons_of_mem s hx)
    by_cases hnil : rest = []
    · subst hnil
      by_cases hfolders : s.IsStars
      · obtain rfl : s = .folders := hfolders
        refine ⟨fun names hnames hslash => matchesFrom_folders_last hnames hslash, ?_⟩
        intro names hnames hslash
        rw [Spans.stars_twice Segment.isStars_folders Segment.isStars_folders]
        exact matchesFrom_folders_last hnames hslash
      · have hempty : s ≠ .literal "" := by simpa [Finished] using hlast
        rw [compileAfter_last hfolders, compileAfter_last hfolders]
        have hspans := fun names => @matchesFrom_last names s hfolders hs
        exact ⟨hspans, fun names hnames hslash =>
          matchesFrom_folders_spans hne hspans
            (fun name hname hshows => matchesFrom_last_end hfolders hs hempty hname hshows)
            hnames hslash⟩
    · have hlast' : Finished rest := by
        rwa [Finished, List.getLast?_cons_of_ne_nil hnil] at hlast
      obtain ⟨ihfalse, ihtrue⟩ := ih hrest hlast' hnil
      by_cases hfolders : s.IsStars
      · obtain rfl : s = .folders := hfolders
        refine ⟨ihtrue, fun names hnames hslash => ?_⟩
        rw [Spans.stars_twice Segment.isStars_folders Segment.isStars_folders]
        exact ihtrue names hnames hslash
      · rw [compileAfter_cons hfolders hnil, compileAfter_cons hfolders hnil]
        have hspans := fun names => @matchesFrom_step names s hfolders hs _ rest hnil ihfalse
        refine ⟨hspans, fun names hnames hslash =>
          matchesFrom_folders_spans hne hspans (fun name hname hshows h => ?_) hnames hslash⟩
        cases Pattern.mem_of_matchesFrom (hs.tokens hfolders) _ h

end Whole

end TypeOnly.Glob
