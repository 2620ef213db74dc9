import TypeOnly.Json.Comments
import TypeOnly.Proofs.Outcomes

/-!
The tokens of a JSON text, and how single ones are read: what the reader makes of a word or of a
string does not depend on the text after it.
-/

namespace TypeOnly.Json

set_option autoImplicit false

open Scan (isJsonBlank isJsonDigit)

/-! ### Tokens -/

/-- The brackets, braces, commas and colons between values. -/
def isMark (c : Char) : Bool :=
  c = '[' || c = ']' || c = '{' || c = '}' || c = ',' || c = ':'

/-- Characters of numbers and of `true`, `false` and `null`. -/
def isWordChar (c : Char) : Bool := c.isAlphanum || c = '+' || c = '-' || c = '.'

/-- What follows the opening quote of a string, its closing quote included. -/
inductive Quoted : List Char → Prop where
  | close : Quoted ['"']
  | plain {c : Char} {s : List Char} : c ≠ '"' → c ≠ '\\' → Quoted s → Quoted (c :: s)
  | escaped {c : Char} {s : List Char} : Quoted s → Quoted ('\\' :: c :: s)

/-- No word goes on here. -/
def Apart (rest : List Char) : Prop := ∀ c ∈ rest.head?, isWordChar c = false

/-- A mark, a string, or a word: a number, `true`, `false` or `null`. -/
inductive Token where
  | mark (c : Char) (h : isMark c = true)
  | string (body : List Char) (h : Quoted body)
  | word (w : List Char) (nonempty : w ≠ []) (h : ∀ c ∈ w, isWordChar c = true)

namespace Token

def chars : Token → List Char
  | mark c _ => [c]
  | string body _ => '"' :: body
  | word w _ _ => w

/-- Whether a token can end before some text. A word ends where no character of a word follows. -/
def EndsBefore : Token → List Char → Prop
  | word _ _ _, rest => Apart rest
  | _, _ => True

/-- Whether a value can end with a token. -/
def endsValue : Token → Bool
  | mark c _ => c = ']' || c = '}'
  | _ => true

def isComma (t : Token) : Bool := t.chars = [',']

end Token

/-- Two texts with the same tokens and any blanks between them. -/
inductive SameTokens : List Char → List Char → Prop where
  | nil : SameTokens [] []
  | left {c : Char} {s t : List Char} :
    isJsonBlank c = true → SameTokens s t → SameTokens (c :: s) t
  | right {c : Char} {s t : List Char} :
    isJsonBlank c = true → SameTokens s t → SameTokens s (c :: t)
  | token {x : Token} {s t : List Char} : x.EndsBefore s → x.EndsBefore t → SameTokens s t →
      SameTokens (x.chars ++ s) (x.chars ++ t)

/-- What stands first in a text, blanks apart. -/
def firstSolid (s : List Char) : Option Char := (s.dropWhile isJsonBlank).head?

/-- Whether a list or an object ends here, blanks apart. -/
def isClosing (s : List Char) : Bool := (firstSolid s).any fun c => c = ']' || c = '}'

/-- A text of tokens and blanks in which no comma stands before a closing mark. -/
inductive Tidy : List Char → Prop where
  | nil : Tidy []
  | blank {c : Char} {s : List Char} : isJsonBlank c = true → Tidy s → Tidy (c :: s)
  | token {x : Token} {s : List Char} : x.EndsBefore s → (x.isComma = true → isClosing s = false) →
      Tidy s → Tidy (x.chars ++ s)

/-! ### Characters -/

theorem isWordChar_of_isJsonDigit {c : Char} (h : isJsonDigit c = true) : isWordChar c = true := by
  have hdigit : c.isDigit = true := by
    simp only [isJsonDigit, Bool.and_eq_true, decide_eq_true_eq] at h
    simpa [Char.isDigit, Char.le_def] using h
  simp [isWordChar, Char.isAlphanum, hdigit]

theorem isJsonBlank_iff {c : Char} :
    isJsonBlank c = true ↔ c = ' ' ∨ c = '\n' ∨ c = '\t' ∨ c = '\r' := by
  simp [isJsonBlank, or_assoc]

theorem isMark_iff {c : Char} : isMark c = true ↔
    c = '[' ∨ c = ']' ∨ c = '{' ∨ c = '}' ∨ c = ',' ∨ c = ':' := by
  simp [isMark, or_assoc]

theorem not_isWordChar_of_isJsonBlank {c : Char} (h : isJsonBlank c = true) :
    isWordChar c = false := by
  rcases isJsonBlank_iff.mp h with rfl | rfl | rfl | rfl <;> decide

theorem not_isWordChar_of_isMark {c : Char} (h : isMark c = true) : isWordChar c = false := by
  rcases isMark_iff.mp h with rfl | rfl | rfl | rfl | rfl | rfl <;> decide

theorem not_isJsonBlank_of_isWordChar {c : Char} (h : isWordChar c = true) :
    isJsonBlank c = false := by
  cases hblank : isJsonBlank c with
  | false => rfl
  | true =>
    rw [not_isWordChar_of_isJsonBlank hblank] at h
    cases h

theorem not_isJsonBlank_of_isMark {c : Char} (h : isMark c = true) : isJsonBlank c = false := by
  rcases isMark_iff.mp h with rfl | rfl | rfl | rfl | rfl | rfl <;> decide

theorem apart_nil : Apart [] := by simp [Apart]

theorem apart_cons {c : Char} {s : List Char} : Apart (c :: s) ↔ isWordChar c = false := by
  simp [Apart]

/-- A token begins with a character that is no blank. -/
theorem Token.chars_eq_cons (x : Token) : ∃ c s, x.chars = c :: s ∧ isJsonBlank c = false := by
  cases x with
  | mark c h => exact ⟨c, [], rfl, not_isJsonBlank_of_isMark h⟩
  | string body h => exact ⟨'"', body, rfl, by decide⟩
  | word w hne h =>
    cases w with
    | nil => exact False.elim (hne rfl)
    | cons c w => exact ⟨c, w, rfl, not_isJsonBlank_of_isWordChar (h c List.mem_cons_self)⟩

theorem Token.dropWhile_chars (x : Token) (s : List Char) :
    (x.chars ++ s).dropWhile isJsonBlank = x.chars ++ s := by
  obtain ⟨c, t, he, hc⟩ := x.chars_eq_cons
  simp [he, hc]

/-- The first character tells which kind of token it is. -/
theorem Token.of_cons {x : Token} {c : Char} {s s' : List Char} (h : c :: s' = x.chars ++ s) :
    (∃ hc, x = .mark c hc ∧ s' = s) ∨
    (c = '"' ∧ ∃ body hbody, x = .string body hbody ∧ s' = body ++ s) ∨
    (isWordChar c = true ∧ ∃ w hne hw, x = .word (c :: w) hne hw ∧ s' = w ++ s) := by
  cases x with
  | mark d hd =>
    obtain ⟨rfl, rfl⟩ := List.cons.inj h
    exact Or.inl ⟨hd, rfl, rfl⟩
  | string body hbody =>
    obtain ⟨rfl, rfl⟩ := List.cons.inj h
    exact Or.inr (Or.inl ⟨rfl, body, hbody, rfl, rfl⟩)
  | word w hne hw =>
    cases w with
    | nil => exact False.elim (hne rfl)
    | cons d w =>
      obtain ⟨rfl, rfl⟩ := List.cons.inj h
      exact Or.inr (Or.inr ⟨hw c List.mem_cons_self, w, hne, hw, rfl, rfl⟩)

namespace SameTokens

variable {s t s' : List Char}

/-- What two texts with the same tokens begin with. -/
theorem first (h : SameTokens s t) :
    (s.dropWhile isJsonBlank = [] ∧ t.dropWhile isJsonBlank = []) ∨
    ∃ (x : Token) (s' t' : List Char), x.EndsBefore s' ∧ x.EndsBefore t' ∧ SameTokens s' t' ∧
      s.dropWhile isJsonBlank = x.chars ++ s' ∧ t.dropWhile isJsonBlank = x.chars ++ t' := by
  induction h with
  | nil => exact Or.inl ⟨rfl, rfl⟩
  | left hc _ ih => simpa [hc] using ih
  | right hc _ ih => simpa [hc] using ih
  | @token x s t hs ht h _ =>
    exact Or.inr ⟨x, s, t, hs, ht, h, x.dropWhile_chars s, x.dropWhile_chars t⟩

theorem solid (h : SameTokens s t) :
    SameTokens (s.dropWhile isJsonBlank) (t.dropWhile isJsonBlank) ∧
      firstSolid s = firstSolid t := by
  unfold firstSolid
  rcases h.first with ⟨hs, ht⟩ | ⟨x, s', t', hs', ht', hrest, hs, ht⟩
  · rw [hs, ht]
    exact ⟨.nil, rfl⟩
  · obtain ⟨c, u, hx, _⟩ := x.chars_eq_cons
    rw [hs, ht]
    exact ⟨.token hs' ht' hrest, by simp [hx]⟩

theorem mark (h : SameTokens s t) {c : Char} (hc : isMark c = true)
    (hs : s.dropWhile isJsonBlank = c :: s') :
    ∃ t', t.dropWhile isJsonBlank = c :: t' ∧ SameTokens s' t' := by
  rcases h.first with ⟨hnil, _⟩ | ⟨x, s₁, t₁, _, _, hrest, hx, ht⟩
  · cases hs.symm.trans hnil
  rcases Token.of_cons (hs.symm.trans hx) with ⟨_, rfl, rfl⟩ | ⟨rfl, _⟩ | ⟨hword, _⟩
  · exact ⟨t₁, ht, hrest⟩
  · cases hc
  · rw [not_isWordChar_of_isMark hc] at hword
    cases hword

theorem quote (h : SameTokens s t) (hs : s.dropWhile isJsonBlank = '"' :: s') :
    ∃ body s₁ t₁, Quoted body ∧ s' = body ++ s₁ ∧ t.dropWhile isJsonBlank = '"' :: (body ++ t₁) ∧
      SameTokens s₁ t₁ := by
  rcases h.first with ⟨hnil, _⟩ | ⟨x, s₁, t₁, _, _, hrest, hx, ht⟩
  · cases hs.symm.trans hnil
  rcases Token.of_cons (hs.symm.trans hx) with ⟨hc, _⟩ | ⟨_, body, hbody, rfl, rfl⟩ | ⟨hword, _⟩
  · cases hc
  · exact ⟨body, s₁, t₁, hbody, rfl, ht, hrest⟩
  · cases hword

theorem word (h : SameTokens s t) {c : Char} (hc : isWordChar c = true)
    (hs : s.dropWhile isJsonBlank = c :: s') :
    ∃ w s₁ t₁, (∀ x ∈ w, isWordChar x = true) ∧ Apart s₁ ∧ Apart t₁ ∧ s' = w ++ s₁ ∧
      t.dropWhile isJsonBlank = c :: (w ++ t₁) ∧ SameTokens s₁ t₁ := by
  rcases h.first with ⟨hnil, _⟩ | ⟨x, s₁, t₁, hs₁, ht₁, hrest, hx, ht⟩
  · cases hs.symm.trans hnil
  rcases Token.of_cons (hs.symm.trans hx) with ⟨hmark, _⟩ | ⟨rfl, _⟩ | ⟨_, w, _, hw, rfl, rfl⟩
  · rw [not_isWordChar_of_isMark hmark] at hc
    cases hc
  · cases hc
  · exact ⟨w, s₁, t₁, fun x hx => hw x (List.mem_cons_of_mem _ hx), hs₁, ht₁, rfl, ht, hrest⟩

theorem word_append {w : List Char} (hw : ∀ c ∈ w, isWordChar c = true) (hs : Apart s)
    (ht : Apart t) (h : SameTokens s t) : SameTokens (w ++ s) (w ++ t) := by
  cases w with
  | nil => exact h
  | cons c w => exact .token (x := .word (c :: w) (by simp) hw) hs ht h

end SameTokens

theorem Quoted.unique {a b s t : List Char} (ha : Quoted a) (hb : Quoted b)
    (h : a ++ s = b ++ t) : a = b ∧ s = t := by
  induction ha generalizing b with
  | close =>
    cases hb with
    | close => simpa using h
    | plain hquote _ _ => exact False.elim (hquote (by simpa using (List.cons.inj h).1.symm))
    | escaped _ => exact False.elim (absurd (List.cons.inj h).1 (by decide))
  | plain hquote hback _ ih =>
    cases hb with
    | close => exact False.elim (hquote (List.cons.inj h).1)
    | plain _ _ hb =>
      obtain ⟨hc, hrest⟩ := List.cons.inj h
      obtain ⟨rfl, rfl⟩ := ih hb hrest
      exact ⟨by rw [hc], rfl⟩
    | escaped _ => exact False.elim (hback (List.cons.inj h).1)
  | escaped _ ih =>
    cases hb with
    | close => exact False.elim (absurd (List.cons.inj h).1 (by decide))
    | plain _ hback _ => exact False.elim (hback (List.cons.inj h).1.symm)
    | escaped hb =>
      obtain ⟨_, h⟩ := List.cons.inj h
      obtain ⟨hc, hrest⟩ := List.cons.inj h
      obtain ⟨rfl, rfl⟩ := ih hb hrest
      exact ⟨by rw [hc], rfl⟩

namespace Scan

/-! ### Words -/

/-- A reader that looks at nothing beyond the word `w`: what it makes of the word does not depend on
the text after it, and neither does what it leaves, which is an ending of `v`. -/
def WithinWord {α : Type} (scan : Scan α) (w v : List Char) : Prop :=
  (∃ a rest, rest <:+ v ∧ ∀ s, Apart s → ∀ i, ∃ j, scan ⟨w ++ s, i⟩ = .ok (a, ⟨rest ++ s, j⟩)) ∨
  ∀ s, Apart s → ∀ i r, scan ⟨w ++ s, i⟩ ≠ .ok r

section Words

variable {w : List Char}

theorem not_isJsonDigit_of_apart {c : Char} {s : List Char} (h : Apart (c :: s)) :
    isJsonDigit c = false := by
  cases hdigit : isJsonDigit c with
  | false => rfl
  | true =>
    have hword := isWordChar_of_isJsonDigit hdigit
    rw [apart_cons.mp h] at hword
    cases hword

theorem digitsFrom_apart {s : List Char} (h : Apart s) (value count i : Nat) :
    digitsFrom value count s i = (value, count, ⟨s, i⟩) := by
  cases s with
  | nil => rfl
  | cons c s => simp [digitsFrom, not_isJsonDigit_of_apart h]

theorem countDigits_apart {s : List Char} (h : Apart s) (count i : Nat) :
    countDigits count s i = (count, ⟨s, i⟩) := by
  cases s with
  | nil => rfl
  | cons c s => simp [countDigits, not_isJsonDigit_of_apart h]

theorem exponentFrom_apart {s : List Char} (h : Apart s) (value i : Nat) :
    exponentFrom value s i = (some value, ⟨s, i⟩) := by
  cases s with
  | nil => rfl
  | cons c s => simp [exponentFrom, not_isJsonDigit_of_apart h]

theorem digitsFrom_word (w : List Char) (value count : Nat) :
    ∃ value' count' rest, rest <:+ w ∧ ∀ s, Apart s → ∀ i, ∃ j,
      digitsFrom value count (w ++ s) i = (value', count', ⟨rest ++ s, j⟩) := by
  induction w generalizing value count with
  | nil => exact ⟨value, count, [], List.suffix_refl _, fun s hs i => ⟨i, digitsFrom_apart hs ..⟩⟩
  | cons c w ih =>
    by_cases hc : (isJsonDigit c && value * 10 + digitOf c < Nat.pow 2 64) = true
    · obtain ⟨value', count', rest, hrest, hread⟩ := ih (value * 10 + digitOf c) (count + 1)
      refine ⟨value', count', rest, hrest.trans (List.suffix_cons c w), fun s hs i => ?_⟩
      obtain ⟨j, hj⟩ := hread s hs (i + 1)
      exact ⟨j, by rw [List.cons_append, digitsFrom, if_pos hc, hj]⟩
    · exact ⟨value, count, c :: w, List.suffix_refl _,
        fun s _ i => ⟨i, by rw [List.cons_append, digitsFrom, if_neg hc]⟩⟩

theorem countDigits_word (w : List Char) (count : Nat) :
    ∃ count' rest, rest <:+ w ∧ ∀ s, Apart s → ∀ i, ∃ j,
      countDigits count (w ++ s) i = (count', ⟨rest ++ s, j⟩) := by
  induction w generalizing count with
  | nil => exact ⟨count, [], List.suffix_refl _, fun s hs i => ⟨i, countDigits_apart hs ..⟩⟩
  | cons c w ih =>
    by_cases hc : isJsonDigit c = true
    · obtain ⟨count', rest, hrest, hread⟩ := ih (count + 1)
      refine ⟨count', rest, hrest.trans (List.suffix_cons c w), fun s hs i => ?_⟩
      obtain ⟨j, hj⟩ := hread s hs (i + 1)
      exact ⟨j, by rw [List.cons_append, countDigits, if_pos hc, hj]⟩
    · exact ⟨count, c :: w, List.suffix_refl _,
        fun s _ i => ⟨i, by rw [List.cons_append, countDigits, if_neg hc]⟩⟩

theorem exponentFrom_word (w : List Char) (value : Nat) :
    ∃ value' rest, rest <:+ w ∧ ∀ s, Apart s → ∀ i, ∃ j,
      exponentFrom value (w ++ s) i = (value', ⟨rest ++ s, j⟩) := by
  induction w generalizing value with
  | nil => exact ⟨some value, [], List.suffix_refl _, fun s hs i => ⟨i, exponentFrom_apart hs ..⟩⟩
  | cons c w ih =>
    by_cases hc : isJsonDigit c = true
    · by_cases hfits : value * 10 + digitOf c < Nat.pow 2 31
      · obtain ⟨value', rest, hrest, hread⟩ := ih (value * 10 + digitOf c)
        refine ⟨value', rest, hrest.trans (List.suffix_cons c w), fun s hs i => ?_⟩
        obtain ⟨j, hj⟩ := hread s hs (i + 1)
        exact ⟨j, by rw [List.cons_append, exponentFrom, if_pos hc, if_pos hfits, hj]⟩
      · exact ⟨none, w, List.suffix_cons c w,
          fun s _ i => ⟨i + 1, by rw [List.cons_append, exponentFrom, if_pos hc, if_neg hfits]⟩⟩
    · exact ⟨some value, c :: w, List.suffix_refl _,
        fun s _ i => ⟨i, by rw [List.cons_append, exponentFrom, if_neg hc]⟩⟩

theorem WithinWord.mono {α : Type} {scan : Scan α} {w v u : List Char} (h : WithinWord scan w v)
    (hv : v <:+ u) : WithinWord scan w u := by
  rcases h with ⟨a, rest, hrest, hread⟩ | hfails
  · exact Or.inl ⟨a, rest, hrest.trans hv, hread⟩
  · exact Or.inr hfails

theorem WithinWord.of_eq {α : Type} {scan scan' : Scan α} {w v u : List Char}
    (h : WithinWord scan' v u)
    (heq : ∀ s, Apart s → ∀ i, ∃ j, scan ⟨w ++ s, i⟩ = scan' ⟨v ++ s, j⟩) :
    WithinWord scan w u := by
  rcases h with ⟨a, rest, hrest, hread⟩ | hfails
  · refine Or.inl ⟨a, rest, hrest, fun s hs i => ?_⟩
    obtain ⟨j, hj⟩ := heq s hs i
    obtain ⟨k, hk⟩ := hread s hs j
    exact ⟨k, hj.trans hk⟩
  · refine Or.inr fun s hs i r h => ?_
    obtain ⟨j, hj⟩ := heq s hs i
    exact hfails s hs j r (hj.symm.trans h)

theorem withinWord_floatOf (care : Care) (positive : Bool) (digits : Nat) (e : Int)
    (w : List Char) : WithinWord (floatOf care positive digits e) w w := by
  unfold WithinWord floatOf
  cases scaleFloat 8 (UInt64.ofNat digits).toFloat e with
  | some f => exact Or.inl ⟨_, w, List.suffix_refl _, fun s _ i => ⟨i, rfl⟩⟩
  | none =>
    cases care with
    | exact => exact Or.inr fun s _ i r => by simp [stopAt]
    | passing => exact Or.inl ⟨_, w, List.suffix_refl _, fun s _ i => ⟨i, rfl⟩⟩

/-- The digits of an exponent after its sign. -/
def exponentDigits (care : Care) (positive : Bool) (digits : Nat) (e : Int) (up : Bool) :
    Scan Json :=
  fun p =>
    match p.rest with
    | [] => stopAt p .endInValue
    | c :: _ =>
      if isJsonDigit c then
        match exponentFrom 0 p.rest p.index with
        | (some x, p) => floatOf care positive digits (if up then e + x else e - x) p
        | (none, p) =>
          if care = .exact && digits ≠ 0 && up then stopAt p .numberTooLarge
          else
            let (_, p) := countDigits 0 p.rest p.index
            .ok (.number (.float (.ofFloat (if positive then 0.0 else -0.0))), p)
      else .error ⟨.invalidNumber, p.index + 1⟩

variable {care : Care} {positive : Bool} {digits : Nat} {e : Int}

theorem exponentPart_unsigned {c : Char} {rest : List Char} (i : Nat)
    (h : ∀ x ∈ rest.head?, x ≠ '+' ∧ x ≠ '-') :
    exponentPart care positive digits e ⟨c :: rest, i⟩ =
      exponentDigits care positive digits e true ⟨rest, i + 1⟩ := by
  cases rest with
  | nil => rfl
  | cons x rest =>
    obtain ⟨hplus, hminus⟩ := h x rfl
    have hplain : exponentPart care positive digits e ⟨c :: x :: rest, i⟩ =
        exponentDigits care positive digits e true ⟨x :: rest, i + 1⟩ := by
      simp only [exponentPart, List.drop_succ_cons, List.drop_zero, List.cons.injEq, hplus, hminus,
        false_and, imp_self, implies_true]
      rfl
    exact hplain

theorem withinWord_exponentDigits (up : Bool) (w : List Char) :
    WithinWord (exponentDigits care positive digits e up) w w := by
  cases w with
  | nil =>
    refine Or.inr fun s hs i r => ?_
    cases s with
    | nil => simp [exponentDigits, stopAt]
    | cons c s => simp [exponentDigits, not_isJsonDigit_of_apart hs]
  | cons c w =>
    by_cases hc : isJsonDigit c = true
    · obtain ⟨value, rest, hrest, hread⟩ := exponentFrom_word (c :: w) 0
      cases value with
      | some x =>
        have hfloat := withinWord_floatOf care positive digits (if up then e + x else e - x) rest
        refine (hfloat.mono hrest).of_eq fun s hs i => ?_
        obtain ⟨j, hj⟩ := hread s hs i
        refine ⟨j, ?_⟩
        rw [List.cons_append] at hj ⊢
        simp only [exponentDigits, hc, if_true, hj]
      | none =>
        by_cases hlarge : (care = .exact && digits ≠ 0 && up) = true
        · refine Or.inr fun s hs i r => ?_
          obtain ⟨j, hj⟩ := hread s hs i
          rw [List.cons_append] at hj ⊢
          simp only [exponentDigits, hc, if_true, hj, hlarge]
          simp [stopAt]
        · obtain ⟨count, rest', hrest', hcount⟩ := countDigits_word rest 0
          refine Or.inl ⟨.number (.float (.ofFloat (if positive then 0.0 else -0.0))), rest',
            hrest'.trans hrest, fun s hs i => ?_⟩
          obtain ⟨j, hj⟩ := hread s hs i
          obtain ⟨k, hk⟩ := hcount s hs j
          refine ⟨k, ?_⟩
          rw [List.cons_append] at hj ⊢
          simp only [exponentDigits, hc, if_true, hj, hlarge, hk]
          rfl
    · exact Or.inr fun s _ i r => by simp [exponentDigits, hc]

theorem withinWord_exponentPart (c : Char) (w : List Char) :
    WithinWord (exponentPart care positive digits e) (c :: w) w := by
  have hdigits (up : Bool) (v : List Char) :
      WithinWord (exponentDigits care positive digits e up) v v := withinWord_exponentDigits up v
  by_cases hsign : ∀ x ∈ w.head?, x ≠ '+' ∧ x ≠ '-'
  · refine (hdigits true w).of_eq fun s hs i => ⟨i + 1, ?_⟩
    apply exponentPart_unsigned
    cases w with
    | cons x w => exact hsign
    | nil =>
      intro x hx
      have hword := hs x hx
      constructor <;> rintro rfl <;> cases hword
  · cases w with
    | nil => exact False.elim (hsign (by simp))
    | cons x w =>
      by_cases hplus : x = '+'
      · subst hplus
        exact ((hdigits true w).mono (List.suffix_cons _ w)).of_eq fun s _ i => ⟨i + 1 + 1, rfl⟩
      · have hminus : x = '-' := by simpa [hplus] using hsign
        subst hminus
        exact ((hdigits false w).mono (List.suffix_cons _ w)).of_eq fun s _ i => ⟨i + 1 + 1, rfl⟩

/-- Where a reader goes on by what stands first: a point, the letter of an exponent, or neither. -/
theorem withinWord_byHead (scan point letter other : Scan Json)
    (hpoint : ∀ rest i, scan ⟨'.' :: rest, i⟩ = point ⟨'.' :: rest, i⟩)
    (hletter : ∀ c rest i, c = 'e' ∨ c = 'E' → scan ⟨c :: rest, i⟩ = letter ⟨c :: rest, i⟩)
    (hother : ∀ s i, (∀ c ∈ s.head?, c ≠ '.' ∧ c ≠ 'e' ∧ c ≠ 'E') → scan ⟨s, i⟩ = other ⟨s, i⟩)
    (hp : ∀ v, WithinWord point ('.' :: v) ('.' :: v))
    (hl : ∀ c v, WithinWord letter (c :: v) (c :: v)) (ho : ∀ v, WithinWord other v v)
    (w : List Char) : WithinWord scan w w := by
  by_cases hhead : ∀ c ∈ w.head?, c ≠ '.' ∧ c ≠ 'e' ∧ c ≠ 'E'
  · refine (ho w).of_eq fun s hs i => ⟨i, hother _ i ?_⟩
    cases w with
    | cons x w => exact hhead
    | nil =>
      intro c hc
      have hword := hs c hc
      refine ⟨?_, ?_, ?_⟩ <;> rintro rfl <;> cases hword
  · cases w with
    | nil => exact False.elim (hhead (by simp))
    | cons x w =>
      by_cases hx : x = '.'
      · subst hx
        exact (hp w).of_eq fun s _ i => ⟨i, hpoint _ i⟩
      · have hx' : x = 'e' ∨ x = 'E' := by
          by_cases he : x = 'e'
          · exact Or.inl he
          · exact Or.inr (by simpa [hx, he] using hhead)
        exact (hl x w).of_eq fun s _ i => ⟨i, hletter x _ i hx'⟩

/-- The end of a number whose digits are read: a power of ten, or nothing more. -/
def numberTail (care : Care) (positive : Bool) (digits : Nat) (e : Int) : Scan Json := fun p =>
  match p.rest with
  | 'e' :: _ | 'E' :: _ => exponentPart care positive digits e p
  | _ => floatOf care positive digits e p

theorem withinWord_numberTail (w : List Char) :
    WithinWord (numberTail care positive digits e) w w := by
  refine withinWord_byHead (numberTail care positive digits e) (floatOf care positive digits e)
    (exponentPart care positive digits e) (floatOf care positive digits e) (fun rest i => rfl) ?_ ?_
    (fun v => withinWord_floatOf ..)
    (fun c v => (withinWord_exponentPart c v).mono (List.suffix_cons c v))
    (fun v => withinWord_floatOf ..) w
  · rintro c rest i (rfl | rfl) <;> rfl
  · intro s i hs
    cases s with
    | nil => rfl
    | cons c s =>
      obtain ⟨_, hlower, hupper⟩ := hs c rfl
      simp [numberTail, hlower, hupper]

theorem withinWord_fractionPart (c : Char) (w : List Char) :
    WithinWord (fractionPart care positive digits e) (c :: w) w := by
  obtain ⟨value, count, rest, hrest, hdigits⟩ := digitsFrom_word w digits 0
  obtain ⟨skipped, rest', hrest', hcount⟩ := countDigits_word rest 0
  by_cases hnone : count + skipped = 0
  · refine Or.inr fun s hs i r => ?_
    obtain ⟨j, hj⟩ := hdigits s hs (i + 1)
    obtain ⟨k, hk⟩ := hcount s hs j
    simp only [fractionPart, List.cons_append, List.drop_succ_cons, List.drop_zero, hj, hk, hnone,
      if_true]
    split <;> simp [stopNext]
  · have htail : WithinWord (numberTail care positive value (e - count)) rest' rest' :=
      withinWord_numberTail rest'
    refine (htail.mono (hrest'.trans hrest)).of_eq fun s hs i => ?_
    obtain ⟨j, hj⟩ := hdigits s hs (i + 1)
    obtain ⟨k, hk⟩ := hcount s hs j
    refine ⟨k, ?_⟩
    simp only [fractionPart, List.cons_append, List.drop_succ_cons, List.drop_zero, hj, hk, hnone,
      if_false]
    rfl

theorem withinWord_numberEnd (w : List Char) : WithinWord (numberEnd care positive digits) w w := by
  have hplain (j : Json) (v : List Char) : WithinWord (fun p => .ok (j, p)) v v :=
    Or.inl ⟨j, v, List.suffix_refl v, fun s _ i => ⟨i, rfl⟩⟩
  refine withinWord_byHead (numberEnd care positive digits) (fractionPart care positive digits 0)
    (exponentPart care positive digits 0)
    (fun p =>
      if positive then .ok (.number (.int digits), p)
      else if 0 < digits && digits ≤ Nat.pow 2 63 then .ok (.number (.int (-digits)), p)
      else .ok (.number (.float (.ofFloat (-(UInt64.ofNat digits).toFloat))), p))
    (fun rest i => rfl) ?_ ?_
    (fun v => (withinWord_fractionPart '.' v).mono (List.suffix_cons _ v))
    (fun c v => (withinWord_exponentPart c v).mono (List.suffix_cons c v)) (fun v => ?_) w
  · rintro c rest i (rfl | rfl) <;> rfl
  · intro s i hs
    cases s with
    | nil => rfl
    | cons c s =>
      obtain ⟨hpoint, hlower, hupper⟩ := hs c rfl
      simp [numberEnd, hpoint, hlower, hupper]
  · cases positive with
    | true => exact hplain _ v
    | false =>
      by_cases hfits : (0 < digits && digits ≤ Nat.pow 2 63) = true
      · simpa only [Bool.false_eq_true, if_false, hfits, if_true] using hplain _ v
      · simpa only [Bool.false_eq_true, if_false, hfits] using hplain _ v

/-- The rest of a number with more digits than fit in 64 bits. -/
def longNumberEnd (care : Care) (positive : Bool) (value : Nat) (more : Nat) : Scan Json := fun p =>
  match p.rest with
  | '.' :: _ => fractionPart care positive value more p
  | 'e' :: _ | 'E' :: _ => exponentPart care positive value more p
  | _ => floatOf care positive value more p

theorem withinWord_longNumberEnd {more : Nat} (w : List Char) :
    WithinWord (longNumberEnd care positive digits more) w w := by
  refine withinWord_byHead (longNumberEnd care positive digits more)
    (fractionPart care positive digits more) (exponentPart care positive digits more)
    (floatOf care positive digits more)
    (fun rest i => rfl) ?_ ?_ (fun v => (withinWord_fractionPart '.' v).mono (List.suffix_cons _ v))
    (fun c v => (withinWord_exponentPart c v).mono (List.suffix_cons c v))
    (fun v => withinWord_floatOf ..) w
  · rintro c rest i (rfl | rfl) <;> rfl
  · intro s i hs
    cases s with
    | nil => rfl
    | cons c s =>
      obtain ⟨hpoint, hlower, hupper⟩ := hs c rfl
      simp [longNumberEnd, hpoint, hlower, hupper]

theorem any_isJsonDigit_append (w : List Char) {s : List Char} (hs : Apart s) :
    (w ++ s).head?.any isJsonDigit = w.head?.any isJsonDigit := by
  cases w with
  | cons c w => rfl
  | nil =>
    cases s with
    | nil => rfl
    | cons c s => simp [not_isJsonDigit_of_apart hs]

theorem number_of_nonzero {c : Char} {s : List Char} (i : Nat) (hzero : c ≠ '0')
    (hdigit : isJsonDigit c = true) {value count : Nat} {next : Place}
    (h : digitsFrom 0 0 (c :: s) i = (value, count, next)) :
    number care positive ⟨c :: s, i⟩ =
      if next.rest.head?.any isJsonDigit then
        longNumberEnd care positive value (countDigits 0 next.rest next.index).1
          (countDigits 0 next.rest next.index).2
      else numberEnd care positive value next := by
  unfold number
  split
  · contradiction
  · rename_i heq
    exact False.elim (hzero (List.cons.inj heq).1)
  · rename_i heq
    obtain ⟨rfl, rfl⟩ := List.cons.inj heq
    rw [if_pos hdigit]
    dsimp only
    rw [h]
    rfl

theorem number_of_not_digit {c : Char} {s : List Char} (i : Nat) (hdigit : isJsonDigit c = false)
    (r : Json × Place) : number care positive ⟨c :: s, i⟩ ≠ .ok r := by
  have hzero : c ≠ '0' := by
    rintro rfl
    cases hdigit
  unfold number
  split
  · contradiction
  · rename_i heq
    exact False.elim (hzero (List.cons.inj heq).1)
  · rename_i heq
    obtain ⟨rfl, rfl⟩ := List.cons.inj heq
    simp [hdigit]

/-- A number has a first character, and this one is read. -/
theorem withinWord_number (c : Char) (w : List Char) :
    WithinWord (number care positive) (c :: w) w := by
  by_cases hzero : c = '0'
  · subst hzero
    by_cases hdigit : w.head?.any isJsonDigit = true
    · refine Or.inr fun s hs i r => ?_
      simp only [number, List.cons_append, any_isJsonDigit_append w hs, hdigit, if_true]
      simp [stopNext]
    · have hend : WithinWord (numberEnd care positive 0) w w := withinWord_numberEnd w
      refine hend.of_eq fun s hs i => ⟨i + 1, ?_⟩
      simp only [number, List.cons_append, any_isJsonDigit_append w hs, hdigit]
      rfl
  · by_cases hdigit : isJsonDigit c = true
    · have hfirst : (isJsonDigit c && 0 * 10 + digitOf c < Nat.pow 2 64) = true := by
        have hbound : digitOf c < Nat.pow 2 64 := by
          simp only [isJsonDigit, Bool.and_eq_true, decide_eq_true_eq] at hdigit
          have hc : c.toNat ≤ 57 := hdigit.2
          have hpow : (57 : Nat) < Nat.pow 2 64 := by decide
          unfold digitOf
          omega
        simp [hdigit, hbound]
      obtain ⟨value, count, rest, hrest, hread⟩ := digitsFrom_word w (0 * 10 + digitOf c) (0 + 1)
      have hdigits (s : List Char) (hs : Apart s) (i : Nat) : ∃ j,
          digitsFrom 0 0 (c :: w ++ s) i = (value, count, ⟨rest ++ s, j⟩) := by
        obtain ⟨j, hj⟩ := hread s hs (i + 1)
        exact ⟨j, by rw [List.cons_append, digitsFrom, if_pos hfirst, hj]⟩
      by_cases hmore : rest.head?.any isJsonDigit = true
      · obtain ⟨more, rest', hrest', hcount⟩ := countDigits_word rest 0
        have hlong : WithinWord (longNumberEnd care positive value more) rest' rest' :=
          withinWord_longNumberEnd rest'
        refine (hlong.mono (hrest'.trans hrest)).of_eq fun s hs i => ?_
        obtain ⟨j, hj⟩ := hdigits s hs i
        obtain ⟨k, hk⟩ := hcount s hs j
        refine ⟨k, ?_⟩
        rw [List.cons_append] at hj ⊢
        rw [number_of_nonzero i hzero hdigit hj]
        simp only [any_isJsonDigit_append rest hs, hmore, if_true, hk]
      · have hend : WithinWord (numberEnd care positive value) rest rest :=
          withinWord_numberEnd rest
        refine (hend.mono hrest).of_eq fun s hs i => ?_
        obtain ⟨j, hj⟩ := hdigits s hs i
        refine ⟨j, ?_⟩
        rw [List.cons_append] at hj ⊢
        rw [number_of_nonzero i hzero hdigit hj]
        exact if_neg (by rwa [any_isJsonDigit_append rest hs])
    · exact Or.inr fun s _ i r => number_of_not_digit i (by simpa using hdigit) r

theorem withinWord_word {wanted : List Char} (hwanted : ∀ c ∈ wanted, isWordChar c = true)
    (value : Json) (w : List Char) : WithinWord (word wanted value) w w := by
  induction wanted generalizing w with
  | nil =>
    refine Or.inl ⟨value, w, List.suffix_refl w, fun s _ i => ⟨i, ?_⟩⟩
    unfold word
    rfl
  | cons x wanted ih =>
    have hx := hwanted x List.mem_cons_self
    cases w with
    | nil =>
      refine Or.inr fun s hs i r => ?_
      unfold word
      cases s with
      | nil => simp [stopAt]
      | cons c s =>
        have hne : c ≠ x := by
          rintro rfl
          rw [apart_cons.mp hs] at hx
          cases hx
        simp [hne]
    | cons c w =>
      by_cases hc : c = x
      · subst hc
        have hrest := ih (fun y hy => hwanted y (List.mem_cons_of_mem _ hy)) w
        refine (hrest.mono (List.suffix_cons c w)).of_eq fun s _ i => ⟨i + c.utf8Size, ?_⟩
        rw [List.cons_append, word]
        simp
      · refine Or.inr fun s _ i r => ?_
        unfold word
        simp [hc]

end Words

/-! ### Strings -/

/-- A reader that takes some characters, whatever follows them. Each time they are such as `Q`
says. -/
def Takes {α : Type} (scan : Scan α) (Q : List Char → Prop) : Prop :=
  ∀ s i a rest j, scan ⟨s, i⟩ = .ok (a, ⟨rest, j⟩) → ∃ e, s = e ++ rest ∧ Q e ∧
    ∀ t k, ∃ l, scan ⟨e ++ t, k⟩ = .ok (a, ⟨t, l⟩)

/-- Characters that can stand in a string as they are, or as whole escapes. -/
def Quotable (e : List Char) : Prop := ∀ body, Quoted body → Quoted (e ++ body)

section Strings

variable {α β : Type} {P Q : List Char → Prop}

theorem takes_pure (a : α) : Takes (fun p => .ok (a, p)) (· = []) := by
  intro s i b rest j h
  simp only [Except.ok.injEq, Prod.mk.injEq, Place.mk.injEq] at h
  obtain ⟨rfl, rfl, _⟩ := h
  exact ⟨[], rfl, rfl, fun t k => ⟨k, rfl⟩⟩

theorem takes_fail (fault : Fault) (Q : List Char → Prop) :
    Takes (α := α) (fun p => stopAt p fault) Q := by
  intro s i b rest j h
  cases h

theorem Takes.mono {scan : Scan α} (h : Takes scan P) (hPQ : ∀ e, P e → Q e) : Takes scan Q := by
  intro s i a rest j hscan
  obtain ⟨e, hs, he, htakes⟩ := h _ _ _ _ _ hscan
  exact ⟨e, hs, hPQ e he, htakes⟩

theorem Takes.bind {scan : Scan α} {next : α → Scan β} (h : Takes scan P)
    (hnext : ∀ a, Takes (next a) Q) :
    Takes (fun p => scan p >>= fun r => next r.1 r.2) fun e => ∃ d f, e = d ++ f ∧ P d ∧ Q f := by
  intro s i b rest j hscan
  obtain ⟨⟨a, s₁, i₁⟩, hfirst, hsecond⟩ := ok_of_bind hscan
  obtain ⟨d, rfl, hd, hread⟩ := h _ _ _ _ _ hfirst
  obtain ⟨f, rfl, hf, hread'⟩ := hnext a _ _ _ _ _ hsecond
  refine ⟨d ++ f, (List.append_assoc ..).symm, ⟨d, f, rfl, hd, hf⟩, fun t k => ?_⟩
  obtain ⟨l, hl⟩ := hread (f ++ t) k
  obtain ⟨m, hm⟩ := hread' t l
  refine ⟨m, ?_⟩
  dsimp only
  rw [List.append_assoc, hl]
  exact hm

theorem quotable_of_digits {a b c d : Char} {n : Nat} (h : fourDigits a b c d = some n) :
    Quotable [a, b, c, d] := by
  have hplain (x : Char) (v : Nat) (hx : TypeOnly.Text.digitValue? x = some v) :
      x ≠ '"' ∧ x ≠ '\\' := by
    constructor <;> rintro rfl <;> cases hx
  obtain ⟨va, ha, h⟩ := Option.bind_eq_some_iff.mp h
  obtain ⟨vb, hb, h⟩ := Option.bind_eq_some_iff.mp h
  obtain ⟨vc, hc, h⟩ := Option.bind_eq_some_iff.mp h
  obtain ⟨vd, hd, _⟩ := Option.bind_eq_some_iff.mp h
  intro body hbody
  exact .plain (hplain a va ha).1 (hplain a va ha).2 (.plain (hplain b vb hb).1 (hplain b vb hb).2
    (.plain (hplain c vc hc).1 (hplain c vc hc).2
      (.plain (hplain d vd hd).1 (hplain d vd hd).2 hbody)))

theorem takes_hexEscape : Takes hexEscape Quotable := by
  intro s i n rest j h
  unfold hexEscape at h
  split at h
  · cases h
  · split at h
    · rename_i a b c d t heq
      split at h
      · rename_i m hm
        simp only [Except.ok.injEq, Prod.mk.injEq, Place.mk.injEq] at h
        obtain ⟨rfl, rfl, _⟩ := h
        refine ⟨[a, b, c, d], heq, quotable_of_digits hm, fun t k => ⟨k + 4, ?_⟩⟩
        have hbytes : ¬ bytesIn ([a, b, c, d] ++ t |>.take 4) < 4 := by
          have ha := a.utf8Size_pos
          have hb := b.utf8Size_pos
          have hc := c.utf8Size_pos
          have hd := d.utf8Size_pos
          simp only [List.cons_append, List.nil_append, List.take_succ_cons, List.take_zero,
            bytesIn]
          omega
        unfold hexEscape
        rw [if_neg hbytes]
        simp [hm]
      · cases h
    · cases h

theorem takes_pairMark (wanted : Char) : Takes (pairMark wanted) (· = [wanted]) := by
  intro s i u rest j h
  unfold pairMark at h
  split at h
  · cases h
  · rename_i c t heq
    split at h
    · rename_i hc
      simp only [Except.ok.injEq, Prod.mk.injEq, Place.mk.injEq] at h
      obtain ⟨_, rfl, _⟩ := h
      subst hc
      exact ⟨[c], heq, rfl, fun t k => ⟨k + 1, by simp [pairMark]⟩⟩
    · cases h

/-- What follows the four digits of an escape: for the first half of a pair, the second one. -/
def afterDigits (care : Care) (n : Nat) : Scan Char := fun p =>
  if care = .passing then .ok (Char.ofNat n, p)
  else if 0xdc00 ≤ n && n ≤ 0xdfff then stopAt p .loneSurrogate
  else if 0xd800 ≤ n && n ≤ 0xdbff then
    pairMark '\\' p >>= fun r => pairMark 'u' r.2 >>= fun r => hexEscape r.2 >>= fun r =>
      if r.1 < 0xdc00 || 0xdfff < r.1 then stopAt r.2 .loneSurrogate
      else .ok (Char.ofNat (0x10000 + (n - 0xd800) * 0x400 + (r.1 - 0xdc00)), r.2)
  else .ok (Char.ofNat n, p)

theorem unicodeEscape_eq (care : Care) :
    unicodeEscape care = fun p => hexEscape p >>= fun r => afterDigits care r.1 r.2 := rfl

theorem quotable_nil : Quotable [] := fun _ h => h

theorem takes_afterDigits (care : Care) (n : Nat) : Takes (afterDigits care n) Quotable := by
  have hone (c : Char) : Takes (fun p => .ok (c, p)) Quotable :=
    (takes_pure c).mono fun e he => he ▸ quotable_nil
  have hlast (m : Nat) : Takes (fun p => if m < 0xdc00 || 0xdfff < m then stopAt p .loneSurrogate
      else .ok (Char.ofNat (0x10000 + (n - 0xd800) * 0x400 + (m - 0xdc00)), p)) (· = []) := by
    split
    · exact takes_fail _ _
    · exact takes_pure _
  unfold afterDigits
  split
  · exact hone _
  split
  · exact takes_fail _ _
  split
  · refine ((takes_pairMark '\\').bind fun _ => (takes_pairMark 'u').bind fun _ =>
      takes_hexEscape.bind hlast).mono ?_
    rintro _ ⟨_, _, rfl, rfl, _, _, rfl, rfl, d, _, rfl, hd, rfl⟩ body hbody
    rw [List.append_nil]
    exact .escaped (hd body hbody)
  · exact hone _

theorem takes_unicodeEscape (care : Care) : Takes (unicodeEscape care) Quotable := by
  rw [unicodeEscape_eq]
  apply (takes_hexEscape.bind (takes_afterDigits care)).mono
  rintro _ ⟨d, f, rfl, hd, hf⟩ body hbody
  rw [List.append_assoc]
  exact hd _ (hf body hbody)

theorem takes_escape (care : Care) : Takes (escape care) fun e => Quotable ('\\' :: e) := by
  intro s i a rest j h
  unfold escape at h
  cases s with
  | nil => cases h
  | cons x s =>
    have hsingle (hx : ∀ t k, escape care ⟨x :: t, k⟩ = .ok (a, ⟨t, k + 1⟩)) (hs : s = rest) :
        ∃ e, x :: s = e ++ rest ∧ Quotable ('\\' :: e) ∧
          ∀ t k, ∃ l, escape care ⟨e ++ t, k⟩ = .ok (a, ⟨t, l⟩) :=
      ⟨[x], by rw [hs]; rfl, fun _ hbody => .escaped hbody, fun t k => ⟨k + 1, hx t k⟩⟩
    dsimp only at h
    split at h
    case h_9 =>
      obtain ⟨e, rfl, hquotable, htakes⟩ := takes_unicodeEscape care _ _ _ _ _ h
      exact ⟨'u' :: e, rfl, fun body hbody => .escaped (hquotable body hbody),
        fun t k => htakes t (k + 1)⟩
    case h_10 => cases h
    all_goals
      simp only [Except.ok.injEq, Prod.mk.injEq, Place.mk.injEq] at h
      obtain ⟨rfl, rfl, _⟩ := h
      exact hsingle (fun t k => rfl) rfl

theorem stringFrom_takes {care : Care} {steps : Nat} {read s chars rest : List Char} {i j : Nat}
    (h : stringFrom care steps read ⟨s, i⟩ = .ok (chars, ⟨rest, j⟩)) :
    ∃ body, s = body ++ rest ∧ Quoted body ∧ ∀ t k steps', body.length ≤ steps' →
      ∃ l, stringFrom care steps' read ⟨body ++ t, k⟩ = .ok (chars, ⟨t, l⟩) := by
  induction steps generalizing read s i with
  | zero => cases h
  | succ steps ih =>
    unfold stringFrom at h
    split at h
    · cases h
    · rename_i s' heq
      simp only [Except.ok.injEq, Prod.mk.injEq, Place.mk.injEq] at h
      obtain ⟨rfl, rfl, _⟩ := h
      refine ⟨['"'], heq, .close, fun t k steps' hsteps => ?_⟩
      cases steps' with
      | zero => simp at hsteps
      | succ steps' => exact ⟨k + 1, rfl⟩
    · rename_i s' heq
      split at h
      · rename_i c p hescape
        obtain ⟨e, rfl, hquotable, htakes⟩ := takes_escape care _ _ _ _ _ hescape
        obtain ⟨body, hp, hbody, hread⟩ := ih h
        refine ⟨'\\' :: e ++ body, heq.trans (by simp [hp]), hquotable body hbody,
          fun t k steps' hsteps => ?_⟩
        cases steps' with
        | zero => simp at hsteps
        | succ steps' =>
          obtain ⟨l, hl⟩ := htakes (body ++ t) (k + 1)
          obtain ⟨m, hm⟩ := hread t l steps' (by simp at hsteps; omega)
          refine ⟨m, ?_⟩
          simp only [List.cons_append, List.append_assoc, stringFrom, hl, hm]
      · cases h
    · rename_i c s' hquote hback heq
      split at h
      · cases h
      · rename_i hcontrol
        obtain ⟨body, hs', hbody, hread⟩ := ih h
        refine ⟨c :: body, heq.trans (by rw [hs']; rfl), .plain hquote hback hbody,
          fun t k steps' hsteps => ?_⟩
        cases steps' with
        | zero => simp at hsteps
        | succ steps' =>
          obtain ⟨m, hm⟩ := hread t (k + c.utf8Size) steps' (by simpa using hsteps)
          refine ⟨m, ?_⟩
          simp only [List.cons_append, stringFrom, hcontrol, if_false, hm]

theorem takes_text (care : Care) : Takes (text care) Quoted := by
  intro s i a rest j h
  obtain ⟨⟨chars, p⟩, hread, h⟩ := ok_of_bind h
  obtain ⟨body, hs, hbody, htakes⟩ := stringFrom_takes hread
  simp only [pure, Except.pure, Except.ok.injEq, Prod.mk.injEq] at h
  obtain ⟨rfl, rfl⟩ := h
  refine ⟨body, hs, hbody, fun t k => ?_⟩
  obtain ⟨l, hl⟩ := htakes t k ((body ++ t).length + 1) (by simp; omega)
  refine ⟨l, ?_⟩
  unfold text
  rw [hl]
  rfl

end Strings

end Scan

end TypeOnly.Json
