import Mathlib.Data.List.DropRight
import TypeOnly.Proofs.JsonTokens

/-!
The reader looks at nothing but tokens: two texts with the same tokens, and any blanks between them,
are read as the same value. A text that can be read consists of tokens, and none of its commas
stands before a closing mark.
-/

namespace TypeOnly.Json.Scan

set_option autoImplicit false

/-! ### Lists and objects -/

theorem skipBlanks_eq (s : List Char) (i : Nat) :
    ∃ j, skipBlanks ⟨s, i⟩ = ⟨s.dropWhile isJsonBlank, j⟩ := by
  unfold skipBlanks
  induction s generalizing i with
  | nil => exact ⟨i, rfl⟩
  | cons c s ih =>
    by_cases hc : isJsonBlank c = true
    · obtain ⟨j, hj⟩ := ih (i + 1)
      exact ⟨j, by simpa [skipFrom, hc] using hj⟩
    · exact ⟨i, by simp [skipFrom, hc]⟩

/-- Where the next item of a list or of an object begins: the first one where the list does, another
one after a comma. -/
inductive ItemAt : Bool → List Char → List Char → Prop where
  | first (s : List Char) : ItemAt true s (s.dropWhile isJsonBlank)
  | next {s s' : List Char} : s.dropWhile isJsonBlank = ',' :: s' →
      ItemAt false s (s'.dropWhile isJsonBlank)

section Items

variable {care : Care} {item : Scan Json} {steps : Nat}

theorem itemsFrom_cases {read items : List Json} {s : List Char} {i : Nat} {p : Place}
    (h : itemsFrom item (steps + 1) read ⟨s, i⟩ = .ok (items, p)) :
    (s.dropWhile isJsonBlank = ']' :: p.rest ∧ items = read.reverse) ∨
    ∃ s' j v q, ItemAt read.isEmpty s s' ∧ (∃ c ∈ s'.head?, c ≠ ']') ∧
      item ⟨s', j⟩ = .ok (v, q) ∧ itemsFrom item steps (v :: read) q = .ok (items, p) := by
  obtain ⟨j, hj⟩ := skipBlanks_eq s i
  unfold itemsFrom at h
  rw [hj] at h
  dsimp only at h
  split at h
  · cases h
  · rename_i heq
    simp only [Except.ok.injEq, Prod.mk.injEq] at h
    obtain ⟨rfl, rfl⟩ := h
    exact Or.inl ⟨heq, rfl⟩
  · rename_i c s' hclose heq
    split at h
    · rename_i hfirst
      split at h
      · rename_i v q hitem
        refine Or.inr ⟨c :: s', j, v, q, ?_, ⟨c, rfl, hclose⟩, heq ▸ hitem, h⟩
        rw [hfirst, ← heq]
        exact .first s
      · cases h
    · rename_i hfirst
      split at h
      · rename_i hcomma
        obtain ⟨l, hl⟩ := skipBlanks_eq s' (j + 1)
        rw [hl] at h
        dsimp only at h
        split at h
        · cases h
        · cases h
        · rename_i hempty hclose'
          split at h
          · rename_i v q hitem
            refine Or.inr ⟨s'.dropWhile isJsonBlank, l, v, q, ?_, ?_, hitem, h⟩
            · rw [Bool.not_eq_true] at hfirst
              rw [hfirst]
              exact .next (hcomma ▸ heq)
            · cases hs : s'.dropWhile isJsonBlank with
              | nil => exact False.elim (hempty hs)
              | cons x t => exact ⟨x, rfl, fun hx => hclose' t (hx ▸ hs)⟩
          · cases h
      · cases h

theorem itemsFrom_close (read : List Json) {s s' : List Char}
    (h : s.dropWhile isJsonBlank = ']' :: s') (i : Nat) :
    ∃ j, itemsFrom item (steps + 1) read ⟨s, i⟩ = .ok (read.reverse, ⟨s', j⟩) := by
  obtain ⟨j, hj⟩ := skipBlanks_eq s i
  refine ⟨j + 1, ?_⟩
  simp only [itemsFrom, hj, h]

theorem itemsFrom_item {read : List Json} {s s' : List Char} (h : ItemAt read.isEmpty s s')
    (hs' : ∃ c ∈ s'.head?, c ≠ ']') (i : Nat) :
    ∃ j, ∀ v q, item ⟨s', j⟩ = .ok (v, q) →
      itemsFrom item (steps + 1) read ⟨s, i⟩ = itemsFrom item steps (v :: read) q := by
  obtain ⟨j, hj⟩ := skipBlanks_eq s i
  obtain ⟨c, hhead, hclose⟩ := hs'
  generalize hfirst : read.isEmpty = isFirst at h
  cases h with
  | first =>
    refine ⟨j, fun v q hitem => ?_⟩
    cases hs : s.dropWhile isJsonBlank with
    | nil => simp [hs] at hhead
    | cons x t =>
      obtain rfl : x = c := by simpa [hs] using hhead
      rw [hs] at hj hitem
      simp only [itemsFrom, hj, hfirst, if_true, hitem]
  | @next _ s₁ hs =>
    obtain ⟨l, hl⟩ := skipBlanks_eq s₁ (j + 1)
    refine ⟨l, fun v q hitem => ?_⟩
    rw [hs] at hj
    cases hs₁ : s₁.dropWhile isJsonBlank with
    | nil => simp [hs₁] at hhead
    | cons x t =>
      obtain rfl : x = c := by simpa [hs₁] using hhead
      rw [hs₁] at hl hitem
      simp [itemsFrom, hj, hfirst, hl, hclose, hitem]

variable {fields read : List (String × Json)} {inner : String → Scan Json}

theorem fieldsFrom_cases {s : List Char} {i : Nat} {p : Place}
    (h : fieldsFrom care inner (steps + 1) read ⟨s, i⟩ = .ok (fields, p)) :
    (s.dropWhile isJsonBlank = '}' :: p.rest ∧ fields = read.reverse) ∨
    ∃ s' j f q, ItemAt read.isEmpty s ('"' :: s') ∧
      fieldFrom care inner ⟨'"' :: s', j⟩ = .ok (f, q) ∧
      fieldsFrom care inner steps (f :: read) q = .ok (fields, p) := by
  obtain ⟨j, hj⟩ := skipBlanks_eq s i
  unfold fieldsFrom at h
  rw [hj] at h
  dsimp only at h
  split at h
  · cases h
  · rename_i heq
    simp only [Except.ok.injEq, Prod.mk.injEq] at h
    obtain ⟨rfl, rfl⟩ := h
    exact Or.inl ⟨heq, rfl⟩
  · rename_i c s' _ heq
    split at h
    · rename_i hfirst
      split at h
      · rename_i hquote
        subst hquote
        split at h
        · rename_i f q hfield
          refine Or.inr ⟨s', j, f, q, ?_, heq ▸ hfield, h⟩
          rw [hfirst, ← heq]
          exact .first s
        · cases h
      · cases h
    · rename_i hfirst
      split at h
      · rename_i hcomma
        obtain ⟨l, hl⟩ := skipBlanks_eq s' (j + 1)
        rw [hl] at h
        dsimp only at h
        split at h
        · cases h
        · rename_i t hquote
          split at h
          · rename_i f q hfield
            refine Or.inr ⟨t, l, f, q, ?_, hquote ▸ hfield, h⟩
            rw [Bool.not_eq_true] at hfirst
            rw [hfirst, ← hquote]
            exact .next (hcomma ▸ heq)
          · cases h
        · cases h
        · cases h
      · cases h

theorem fieldsFrom_close (read : List (String × Json)) {s s' : List Char}
    (h : s.dropWhile isJsonBlank = '}' :: s') (i : Nat) :
    ∃ j, fieldsFrom care inner (steps + 1) read ⟨s, i⟩ = .ok (read.reverse, ⟨s', j⟩) := by
  obtain ⟨j, hj⟩ := skipBlanks_eq s i
  refine ⟨j + 1, ?_⟩
  simp only [fieldsFrom, hj, h]

theorem fieldsFrom_field {s s' : List Char} (h : ItemAt read.isEmpty s ('"' :: s')) (i : Nat) :
    ∃ j, ∀ f q, fieldFrom care inner ⟨'"' :: s', j⟩ = .ok (f, q) →
      fieldsFrom care inner (steps + 1) read ⟨s, i⟩ =
        fieldsFrom care inner steps (f :: read) q := by
  obtain ⟨j, hj⟩ := skipBlanks_eq s i
  generalize hfirst : read.isEmpty = isFirst at h
  generalize hs : '"' :: s' = start at h
  cases h with
  | first =>
    refine ⟨j, fun f q hfield => ?_⟩
    rw [← hs] at hj hfield
    simp [fieldsFrom, hj, hfirst, hfield]
  | @next _ s₁ hcomma =>
    obtain ⟨l, hl⟩ := skipBlanks_eq s₁ (j + 1)
    refine ⟨l, fun f q hfield => ?_⟩
    rw [hcomma] at hj
    rw [← hs] at hl hfield
    simp [fieldsFrom, hj, hfirst, hl, hfield]

theorem fieldFrom_cases {s : List Char} {i : Nat} {f : String × Json} {p : Place}
    (h : fieldFrom care inner ⟨'"' :: s, i⟩ = .ok (f, p)) :
    ∃ s₁ s₂ i₁ i₂, text care ⟨s, i + 1⟩ = .ok (f.1, ⟨s₁, i₁⟩) ∧
      s₁.dropWhile isJsonBlank = ':' :: s₂ ∧ inner f.1 ⟨s₂, i₂⟩ = .ok (f.2, p) := by
  obtain ⟨⟨key, s₁, i₁⟩, htext, h⟩ := ok_of_bind h
  obtain ⟨j, hj⟩ := skipBlanks_eq s₁ i₁
  dsimp only at h
  rw [hj] at h
  dsimp only at h
  split at h
  · cases h
  · rename_i s₂ hcolon
    obtain ⟨⟨v, q⟩, hvalue, h⟩ := ok_of_bind h
    simp only [pure, Except.pure, Except.ok.injEq, Prod.mk.injEq] at h
    obtain ⟨rfl, rfl⟩ := h
    exact ⟨s₁, s₂, i₁, j + 1, htext, hcolon, hvalue⟩
  · cases h

theorem fieldFrom_eq {s s₁ s₂ : List Char} {i i₁ : Nat} {key : String}
    (htext : text care ⟨s, i + 1⟩ = .ok (key, ⟨s₁, i₁⟩))
    (hcolon : s₁.dropWhile isJsonBlank = ':' :: s₂) :
    ∃ j, ∀ v q, inner key ⟨s₂, j⟩ = .ok (v, q) →
      fieldFrom care inner ⟨'"' :: s, i⟩ = .ok ((key, v), q) := by
  obtain ⟨j, hj⟩ := skipBlanks_eq s₁ i₁
  refine ⟨j + 1, fun v q hvalue => ?_⟩
  unfold fieldFrom
  simp only [List.drop_succ_cons, List.drop_zero, htext, bind, Except.bind, hj, hcolon, hvalue]
  rfl

end Items

/-! ### Values -/

/-- A value that is a word, after its first character. -/
def wordValue (care : Care) (c : Char) : Scan Json := fun p =>
  if c = 'n' then word ['u', 'l', 'l'] .null p
  else if c = 't' then word ['r', 'u', 'e'] (.bool true) p
  else if c = 'f' then word ['a', 'l', 's', 'e'] (.bool false) p
  else if c = '-' then number care false p
  else if isJsonDigit c then number care true ⟨c :: p.rest, p.index - 1⟩
  else stopAt p .valueNeeded

section Values

variable {care : Care} {inner : Option (Scan Json)} {s s' : List Char}

theorem withinWord_wordValue (care : Care) (c : Char) (w : List Char) :
    WithinWord (wordValue care c) w w := by
  have hnegative : WithinWord (number care false) w w := by
    cases w with
    | cons d w => exact (withinWord_number d w).mono (List.suffix_cons d w)
    | nil =>
      refine Or.inr fun s hs i r => ?_
      cases s with
      | nil => simp [number, stopAt]
      | cons d s => exact number_of_not_digit i (not_isJsonDigit_of_apart hs) r
  have hpositive : WithinWord (fun p => number care true ⟨c :: p.rest, p.index - 1⟩) w w := by
    have hnumber : WithinWord (number care true) (c :: w) w := withinWord_number c w
    rcases hnumber with ⟨a, rest, hrest, hread⟩ | hfails
    · exact Or.inl ⟨a, rest, hrest, fun s hs i => hread s hs (i - 1)⟩
    · exact Or.inr fun s hs i => hfails s hs (i - 1)
  unfold wordValue
  split
  · exact withinWord_word (List.all_eq_true.mp rfl) _ w
  split
  · exact withinWord_word (List.all_eq_true.mp rfl) _ w
  split
  · exact withinWord_word (List.all_eq_true.mp rfl) _ w
  split
  · exact hnegative
  split
  · exact hpositive
  · exact Or.inr fun s _ i r => by simp [stopAt]

theorem valueWith_skip (care : Care) (inner : Option (Scan Json))
    (hs : s.dropWhile isJsonBlank = s')
    (i : Nat) : ∃ j, valueWith care inner ⟨s, i⟩ = valueWith care inner ⟨s', j⟩ ∧
      skipBlanks ⟨s', j⟩ = ⟨s', j⟩ := by
  obtain ⟨j, hj⟩ := skipBlanks_eq s i
  rw [hs] at hj
  have hidle : skipBlanks ⟨s', j⟩ = ⟨s', j⟩ := by
    cases s' with
    | nil => rfl
    | cons c s' =>
      have hc : isJsonBlank c = false := by
        have := List.head?_dropWhile_not isJsonBlank s
        rw [hs] at this
        simpa using this
      simp [skipBlanks, skipFrom, hc]
  refine ⟨j, ?_, hidle⟩
  unfold valueWith
  rw [hj, hidle]

theorem valueWith_word (care : Care) (inner : Option (Scan Json)) {c : Char}
    (hc : isWordChar c = true)
    (hs : s.dropWhile isJsonBlank = c :: s') (i : Nat) :
    ∃ j, valueWith care inner ⟨s, i⟩ = wordValue care c ⟨s', j⟩ := by
  obtain ⟨j, hj, hidle⟩ := valueWith_skip care inner hs i
  refine ⟨j + 1, hj.trans ?_⟩
  unfold valueWith
  rw [hidle]
  dsimp only
  split
  · contradiction
  case h_9 =>
    rename_i hn ht hf hminus hquote hlist hobject heq
    obtain ⟨rfl, rfl⟩ := List.cons.inj heq
    unfold wordValue
    rw [if_neg hn, if_neg ht, if_neg hf, if_neg hminus]
    rfl
  all_goals
    rename_i heq
    obtain ⟨rfl, rfl⟩ := List.cons.inj heq
  · rfl
  · rfl
  · rfl
  · rfl
  · cases hc
  · cases hc
  · cases hc

theorem valueWith_string (care : Care) (inner : Option (Scan Json)) (s : List Char) (i : Nat) :
    valueWith care inner ⟨'"' :: s, i⟩ =
      text care ⟨s, i + 1⟩ >>= fun r => .ok (Json.string r.1, r.2) := rfl

theorem valueWith_list (care : Care) (item : Scan Json) (s : List Char) (i : Nat) :
    valueWith care (some item) ⟨'[' :: s, i⟩ =
      itemsFrom item (s.length + 1) [] ⟨s, i + 1⟩ >>= fun r => .ok (Json.array r.1, r.2) := rfl

theorem valueWith_object (care : Care) (item : Scan Json) (s : List Char) (i : Nat) :
    valueWith care (some item) ⟨'{' :: s, i⟩ =
      fieldsFrom care (fun _ => item) (s.length + 1) [] ⟨s, i + 1⟩ >>= fun r =>
        .ok (Json.object (Dictionary.ofList r.1).entries, r.2) := rfl

theorem valueWith_cases {i j : Nat} {a : Json} {rest : List Char}
    (h : valueWith care inner ⟨s, i⟩ = .ok (a, ⟨rest, j⟩)) :
    ∃ c s', s.dropWhile isJsonBlank = c :: s' ∧
      ((isWordChar c = true ∧ ∃ l, wordValue care c ⟨s', l⟩ = .ok (a, ⟨rest, j⟩)) ∨
       (c = '"' ∧ ∃ l str, a = .string str ∧ text care ⟨s', l⟩ = .ok (str, ⟨rest, j⟩)) ∨
       (c = '[' ∧ ∃ l item items, inner = some item ∧ a = .array items ∧
          itemsFrom item (s'.length + 1) [] ⟨s', l⟩ = .ok (items, ⟨rest, j⟩)) ∨
       (c = '{' ∧ ∃ l item fields, inner = some item ∧
          a = .object (Dictionary.ofList fields).entries ∧
          fieldsFrom care (fun _ => item) (s'.length + 1) [] ⟨s', l⟩ =
            .ok (fields, ⟨rest, j⟩))) := by
  cases hs : s.dropWhile isJsonBlank with
  | nil =>
    obtain ⟨k, hk, _⟩ := valueWith_skip care inner hs i
    rw [hk] at h
    cases h
  | cons c s' =>
    refine ⟨c, s', rfl, ?_⟩
    by_cases hc : isWordChar c = true
    · obtain ⟨l, hl⟩ := valueWith_word care inner hc hs i
      exact Or.inl ⟨hc, l, hl ▸ h⟩
    · obtain ⟨k, hk, hidle⟩ := valueWith_skip care inner hs i
      rw [hk] at h
      unfold valueWith at h
      rw [hidle] at h
      dsimp only at h
      split at h
      · contradiction
      all_goals
        rename_i heq
        obtain ⟨rfl, rfl⟩ := List.cons.inj heq
      · exact False.elim (hc rfl)
      · exact False.elim (hc rfl)
      · exact False.elim (hc rfl)
      · exact False.elim (hc rfl)
      · obtain ⟨⟨str, p⟩, htext, h⟩ := ok_of_bind h
        simp only [pure, Except.pure, Except.ok.injEq, Prod.mk.injEq] at h
        obtain ⟨rfl, rfl⟩ := h
        exact Or.inr (Or.inl ⟨rfl, _, str, rfl, htext⟩)
      · cases hinner : inner with
        | none =>
          rw [hinner] at h
          cases h
        | some item =>
          rw [hinner] at h
          obtain ⟨⟨items, p⟩, hitems, h⟩ := ok_of_bind h
          simp only [pure, Except.pure, Except.ok.injEq, Prod.mk.injEq] at h
          obtain ⟨rfl, rfl⟩ := h
          exact Or.inr (Or.inr (Or.inl ⟨rfl, _, item, items, rfl, rfl, hitems⟩))
      · cases hinner : inner with
        | none =>
          rw [hinner] at h
          cases h
        | some item =>
          rw [hinner] at h
          obtain ⟨⟨fields, p⟩, hfields, h⟩ := ok_of_bind h
          simp only [pure, Except.pure, Except.ok.injEq, Prod.mk.injEq] at h
          obtain ⟨rfl, rfl⟩ := h
          exact Or.inr (Or.inr (Or.inr ⟨rfl, _, item, fields, rfl, rfl, hfields⟩))
      · split at h
        · rename_i hdigit
          exact False.elim (hc (isWordChar_of_isJsonDigit hdigit))
        · cases h

end Values

/-! ### Blanks make no difference -/

/-- A reader for which blanks between tokens make no difference. It takes something each time. -/
def ByTokens {α : Type} (scan : Scan α) : Prop :=
  ∀ s i a rest j, scan ⟨s, i⟩ = .ok (a, ⟨rest, j⟩) → ∀ t k, SameTokens s t →
    ∃ rest' l, scan ⟨t, k⟩ = .ok (a, ⟨rest', l⟩) ∧ SameTokens rest rest' ∧ rest'.length < t.length

section Blanks

variable {care : Care} {item : Scan Json} {s t : List Char}

theorem length_dropWhile_le (t : List Char) : (t.dropWhile isJsonBlank).length ≤ t.length :=
  (List.dropWhile_sublist _).length_le

theorem length_lt_of_dropWhile {c : Char} {t' : List Char} (h : t.dropWhile isJsonBlank = c :: t') :
    t'.length < t.length := by
  have hlength := length_dropWhile_le t
  rw [h, List.length_cons] at hlength
  omega

/-- What a reader leaves of a word is again the beginning of texts with the same tokens. -/
theorem WithinWord.byTokens {α : Type} {scan : Scan α} {w v : List Char} (h : WithinWord scan w v)
    (hv : ∀ c ∈ v, isWordChar c = true) (hs : Apart s) (ht : Apart t) (hst : SameTokens s t)
    {i j : Nat} {a : α} {rest : List Char} (hscan : scan ⟨w ++ s, i⟩ = .ok (a, ⟨rest, j⟩))
    (k : Nat) :
    ∃ rest' l, scan ⟨w ++ t, k⟩ = .ok (a, ⟨rest', l⟩) ∧ SameTokens rest rest' ∧
      rest'.length ≤ v.length + t.length := by
  rcases h with ⟨b, left, hleft, hread⟩ | hfails
  · obtain ⟨j', hj'⟩ := hread s hs i
    obtain ⟨l, hl⟩ := hread t ht k
    have heq := hscan.symm.trans hj'
    simp only [Except.ok.injEq, Prod.mk.injEq, Place.mk.injEq] at heq
    obtain ⟨rfl, rfl, _⟩ := heq
    refine ⟨left ++ t, l, hl, hst.word_append (fun c hc => hv c (hleft.subset hc)) hs ht, ?_⟩
    have hlength := hleft.length_le
    rw [List.length_append]
    omega
  · exact False.elim (hfails s hs i _ hscan)

theorem ItemAt.byTokens {isFirst : Bool} {s' : List Char} (h : ItemAt isFirst s s')
    (hst : SameTokens s t) : ∃ t', ItemAt isFirst t t' ∧ SameTokens s' t' ∧
      s'.head? = t'.head? ∧ t'.length ≤ t.length := by
  cases h with
  | first =>
    obtain ⟨hsame, hhead⟩ := hst.solid
    exact ⟨t.dropWhile isJsonBlank, .first t, hsame, hhead, length_dropWhile_le t⟩
  | next hcomma =>
    obtain ⟨t₁, ht₁, hrest⟩ := hst.mark (by decide) hcomma
    obtain ⟨hsame, hhead⟩ := hrest.solid
    refine ⟨t₁.dropWhile isJsonBlank, .next ht₁, hsame, hhead, ?_⟩
    have hless := length_lt_of_dropWhile ht₁
    have hlength := length_dropWhile_le t₁
    omega

theorem itemsFrom_byTokens (hitem : ByTokens item) {steps : Nat} {read items : List Json}
    {i j : Nat} {rest : List Char} (h : itemsFrom item steps read ⟨s, i⟩ = .ok (items, ⟨rest, j⟩))
    (hst : SameTokens s t) (k : Nat) {steps' : Nat} (hsteps : t.length < steps') :
    ∃ rest' l, itemsFrom item steps' read ⟨t, k⟩ = .ok (items, ⟨rest', l⟩) ∧
      SameTokens rest rest' ∧ rest'.length < t.length := by
  -- the other text may need another number of steps: one for each item, and an item takes something
  induction steps generalizing read s i t k steps' with
  | zero => cases h
  | succ steps ih =>
    obtain ⟨steps', rfl⟩ : ∃ n, steps' = n + 1 := ⟨steps' - 1, by omega⟩
    rcases itemsFrom_cases h with ⟨hclose, rfl⟩ | ⟨s', i', v, ⟨s₁, i₁⟩, hat, hopen, hread, hrest⟩
    · obtain ⟨t', ht', hsame⟩ := hst.mark (by decide) hclose
      obtain ⟨l, hl⟩ := itemsFrom_close read ht' k
      exact ⟨t', l, hl, hsame, length_lt_of_dropWhile ht'⟩
    · obtain ⟨t', hat', hsame, hhead, hlength⟩ := hat.byTokens hst
      rw [hhead] at hopen
      obtain ⟨k', hk'⟩ := itemsFrom_item hat' hopen k
      obtain ⟨t₁, k₁, hread', hsame₁, hless⟩ := hitem _ _ _ _ _ hread t' k' hsame
      obtain ⟨rest', l, hl, hsame', hless'⟩ := ih hrest hsame₁ k₁ (show t₁.length < steps' by omega)
      exact ⟨rest', l, (hk' _ _ hread').trans hl, hsame', by omega⟩

theorem text_byTokens {s' : List Char} {a : String} {i j : Nat} {rest : List Char}
    (h : text care ⟨s', i⟩ = .ok (a, ⟨rest, j⟩)) (hst : SameTokens s t)
    (hs : s.dropWhile isJsonBlank = '"' :: s') :
    ∃ t' rest', t.dropWhile isJsonBlank = '"' :: t' ∧ SameTokens rest rest' ∧
      rest'.length < t.length ∧ ∀ k, ∃ l, text care ⟨t', k⟩ = .ok (a, ⟨rest', l⟩) := by
  obtain ⟨body, s₁, t₁, hbody, rfl, ht, hrest⟩ := hst.quote hs
  obtain ⟨e, he, hquoted, htakes⟩ := takes_text care _ _ _ _ _ h
  obtain ⟨rfl, rfl⟩ := hbody.unique hquoted he
  refine ⟨body ++ t₁, t₁, ht, hrest, ?_, htakes t₁⟩
  have hless := length_lt_of_dropWhile ht
  rw [List.length_append] at hless
  omega

theorem fieldFrom_byTokens {inner : String → Scan Json} (hinner : ∀ key, ByTokens (inner key))
    {s' : List Char} {i j : Nat} {f : String × Json} {rest : List Char}
    (h : fieldFrom care inner ⟨'"' :: s', i⟩ = .ok (f, ⟨rest, j⟩)) {t' : List Char}
    (hst : SameTokens ('"' :: s') ('"' :: t')) (k : Nat) :
    ∃ rest' l, fieldFrom care inner ⟨'"' :: t', k⟩ = .ok (f, ⟨rest', l⟩) ∧
      SameTokens rest rest' ∧ rest'.length < ('"' :: t').length := by
  obtain ⟨s₁, s₂, i₁, i₂, htext, hcolon, hvalue⟩ := fieldFrom_cases h
  obtain ⟨t'', t₁, ht'', hsame₁, hless₁, htext'⟩ := text_byTokens htext hst rfl
  obtain rfl : t' = t'' := (List.cons.inj ht'').2
  obtain ⟨t₂, ht₂, hsame₂⟩ := hsame₁.mark (by decide) hcolon
  obtain ⟨k₁, hk₁⟩ := htext' (k + 1)
  obtain ⟨k₂, hk₂⟩ := fieldFrom_eq hk₁ ht₂
  obtain ⟨rest', l, hl, hsame, hless⟩ := hinner _ _ _ _ _ _ hvalue t₂ k₂ hsame₂
  refine ⟨rest', l, hk₂ _ _ hl, hsame, ?_⟩
  have hless₂ := length_lt_of_dropWhile ht₂
  omega

theorem fieldsFrom_byTokens {inner : String → Scan Json} (hinner : ∀ key, ByTokens (inner key))
    {steps : Nat} {read fields : List (String × Json)} {i j : Nat} {rest : List Char}
    (h : fieldsFrom care inner steps read ⟨s, i⟩ = .ok (fields, ⟨rest, j⟩)) (hst : SameTokens s t)
    (k : Nat) {steps' : Nat} (hsteps : t.length < steps') :
    ∃ rest' l, fieldsFrom care inner steps' read ⟨t, k⟩ = .ok (fields, ⟨rest', l⟩) ∧
      SameTokens rest rest' ∧ rest'.length < t.length := by
  induction steps generalizing read s i t k steps' with
  | zero => cases h
  | succ steps ih =>
    obtain ⟨steps', rfl⟩ : ∃ n, steps' = n + 1 := ⟨steps' - 1, by omega⟩
    rcases fieldsFrom_cases h with ⟨hclose, rfl⟩ | ⟨s', i', f, ⟨s₁, i₁⟩, hat, hread, hrest⟩
    · obtain ⟨t', ht', hsame⟩ := hst.mark (by decide) hclose
      obtain ⟨l, hl⟩ := fieldsFrom_close read ht' k
      exact ⟨t', l, hl, hsame, length_lt_of_dropWhile ht'⟩
    · obtain ⟨t', hat', hsame, hhead, hlength⟩ := hat.byTokens hst
      obtain ⟨t', rfl⟩ : ∃ u, t' = '"' :: u := by
        cases t' with
        | nil => cases hhead
        | cons c u => exact ⟨u, by simpa using hhead.symm⟩
      obtain ⟨k', hk'⟩ := fieldsFrom_field hat' k
      obtain ⟨t₁, k₁, hread', hsame₁, hless⟩ := fieldFrom_byTokens hinner hread hsame k'
      obtain ⟨rest', l, hl, hsame', hless'⟩ := ih hrest hsame₁ k₁ (show t₁.length < steps' by omega)
      exact ⟨rest', l, (hk' _ _ hread').trans hl, hsame', by omega⟩

theorem valueWith_byTokens {inner : Option (Scan Json)} (hinner : ∀ item ∈ inner, ByTokens item) :
    ByTokens (valueWith care inner) := by
  intro s i a rest j h t k hst
  obtain ⟨c, s', hs, hcase⟩ := valueWith_cases h
  rcases hcase with ⟨hc, l, hword⟩ | ⟨rfl, l, str, rfl, htext⟩ |
    ⟨rfl, l, item, items, rfl, rfl, hitems⟩ | ⟨rfl, l, item, fields, rfl, rfl, hfields⟩
  · obtain ⟨w, s₁, t₁, hw, hs₁, ht₁, rfl, ht, hrest⟩ := hst.word hc hs
    obtain ⟨m, hm⟩ := valueWith_word care inner hc ht k
    obtain ⟨rest', l', hl', hsame, hbound⟩ :=
      (withinWord_wordValue care c w).byTokens hw hs₁ ht₁ hrest hword m
    refine ⟨rest', l', hm.trans hl', hsame, ?_⟩
    have hless := length_lt_of_dropWhile ht
    rw [List.length_append] at hless
    omega
  · obtain ⟨t', rest', ht, hsame, hless, htext'⟩ := text_byTokens htext hst hs
    obtain ⟨m, hm, _⟩ := valueWith_skip care inner ht k
    obtain ⟨l', hl'⟩ := htext' (m + 1)
    refine ⟨rest', l', hm.trans ?_, hsame, hless⟩
    rw [valueWith_string, hl']
    rfl
  · obtain ⟨t', ht, hrest⟩ := hst.mark (by decide) hs
    obtain ⟨m, hm, _⟩ := valueWith_skip care (some item) ht k
    obtain ⟨rest', l', hl', hsame, hless⟩ := itemsFrom_byTokens (hinner item rfl) hitems hrest
      (m + 1) (Nat.lt_succ_self t'.length)
    refine ⟨rest', l', hm.trans ?_, hsame, hless.trans (length_lt_of_dropWhile ht)⟩
    rw [valueWith_list, hl']
    rfl
  · obtain ⟨t', ht, hrest⟩ := hst.mark (by decide) hs
    obtain ⟨m, hm, _⟩ := valueWith_skip care (some item) ht k
    obtain ⟨rest', l', hl', hsame, hless⟩ := fieldsFrom_byTokens (fun _ => hinner item rfl) hfields
      hrest (m + 1) (Nat.lt_succ_self t'.length)
    refine ⟨rest', l', hm.trans ?_, hsame, hless.trans (length_lt_of_dropWhile ht)⟩
    rw [valueWith_object, hl']
    rfl

theorem value_byTokens (care : Care) (depth : Nat) : ByTokens (value care depth) := by
  induction depth with
  | zero => exact valueWith_byTokens (by simp)
  | succ depth ih =>
    apply valueWith_byTokens
    intro item hitem
    obtain rfl : value care depth = item := Option.some.inj hitem
    exact ih

theorem whole_cases {α : Type} {scan : Scan α} {a : α} (h : whole scan s = .ok a) :
    ∃ rest j, scan ⟨s, 0⟩ = .ok (a, ⟨rest, j⟩) ∧ rest.dropWhile isJsonBlank = [] := by
  obtain ⟨⟨b, rest, j⟩, hscan, h⟩ := ok_of_bind h
  obtain ⟨k, hk⟩ := skipBlanks_eq rest j
  dsimp only at h
  rw [hk] at h
  split at h
  · rename_i hempty
    obtain rfl : b = a := Except.ok.inj h
    exact ⟨rest, j, hscan, List.isEmpty_iff.mp hempty⟩
  · cases h

theorem whole_eq {α : Type} {scan : Scan α} {a : α} {rest : List Char} {j : Nat}
    (h : scan ⟨s, 0⟩ = .ok (a, ⟨rest, j⟩)) (hrest : rest.dropWhile isJsonBlank = []) :
    whole scan s = .ok a := by
  obtain ⟨k, hk⟩ := skipBlanks_eq rest j
  unfold whole
  rw [h]
  change (if (skipBlanks ⟨rest, j⟩).rest.isEmpty then _ else _) = _
  rw [hk, hrest]
  rfl

/-- Texts with the same tokens are read as the same value. -/
theorem document_byTokens {v : Json} (h : document s = .ok v) (hst : SameTokens s t) :
    document t = .ok v := by
  obtain ⟨rest, j, hvalue, hrest⟩ := whole_cases h
  obtain ⟨rest', l, hvalue', hsame, _⟩ := value_byTokens .exact maxDepth _ _ _ _ _ hvalue t 0 hst
  apply whole_eq hvalue'
  rcases hsame.first with ⟨_, hrest'⟩ | ⟨x, s', t', _, _, _, hs', _⟩
  · exact hrest'
  · obtain ⟨c, u, hx, _⟩ := x.chars_eq_cons
    rw [hrest, hx] at hs'
    cases hs'

end Blanks

/-! ### Texts that can be read -/

/-- A reader that reads tokens only, none of its commas being too many. -/
def ReadsTidy {α : Type} (scan : Scan α) : Prop :=
  ∀ s i a rest j, scan ⟨s, i⟩ = .ok (a, ⟨rest, j⟩) → Apart rest → Tidy rest →
    Tidy s ∧ isClosing s = false

section Tidy

variable {care : Care} {item : Scan Json} {s s' rest : List Char} {i j : Nat}

theorem tidy_of_dropWhile (h : Tidy (s.dropWhile isJsonBlank)) : Tidy s := by
  induction s with
  | nil => exact .nil
  | cons c s ih =>
    by_cases hc : isJsonBlank c = true
    · rw [List.dropWhile_cons_of_pos hc] at h
      exact .blank hc (ih h)
    · rwa [List.dropWhile_cons_of_neg hc] at h

theorem tidy_of_token (x : Token) (hs : s.dropWhile isJsonBlank = x.chars ++ s')
    (hend : x.EndsBefore s') (hx : x.isComma = false) (h : Tidy s') : Tidy s := by
  apply tidy_of_dropWhile
  rw [hs]
  apply Tidy.token hend ?_ h
  rw [hx]
  intro hcomma
  cases hcomma

theorem apart_of_dropWhile {c : Char} (hs : s.dropWhile isJsonBlank = c :: s')
    (hc : isWordChar c = false) : Apart s := by
  cases s with
  | nil => exact apart_nil
  | cons d s =>
    by_cases hd : isJsonBlank d = true
    · exact apart_cons.mpr (not_isWordChar_of_isJsonBlank hd)
    · rw [List.dropWhile_cons_of_neg hd] at hs
      obtain ⟨rfl, _⟩ := List.cons.inj hs
      exact apart_cons.mpr hc

theorem ItemAt.tidy {isFirst : Bool} (h : ItemAt isFirst s s') (htidy : Tidy s')
    (hopen : isClosing s' = false) : Tidy s ∧ (isFirst = false → Apart s) := by
  cases h with
  | first => exact ⟨tidy_of_dropWhile htidy, by simp⟩
  | @next _ s₁ hcomma =>
    have hclosing : isClosing s₁ = false := by
      rwa [isClosing, firstSolid, List.dropWhile_idempotent] at hopen
    refine ⟨?_, fun _ => apart_of_dropWhile hcomma (by decide)⟩
    apply tidy_of_dropWhile
    rw [hcomma]
    exact .token (x := .mark ',' rfl) trivial (fun _ => hclosing) (tidy_of_dropWhile htidy)

theorem itemsFrom_tidy (hitem : ReadsTidy item) {steps : Nat} {read items : List Json}
    (h : itemsFrom item steps read ⟨s, i⟩ = .ok (items, ⟨rest, j⟩)) (htidy : Tidy rest) :
    Tidy s ∧ (read.isEmpty = false → Apart s) := by
  -- after an item comes a mark, so that no word of the item goes on
  induction steps generalizing read s i with
  | zero => cases h
  | succ steps ih =>
    rcases itemsFrom_cases h with ⟨hclose, _⟩ | ⟨s', _, v, ⟨s₁, _⟩, hat, _, hread, hrest⟩
    · refine ⟨?_, fun _ => apart_of_dropWhile hclose (by decide)⟩
      exact tidy_of_token (.mark ']' rfl) hclose trivial rfl htidy
    · obtain ⟨htidy₁, hapart₁⟩ := ih hrest
      obtain ⟨htidy', hopen⟩ := hitem _ _ _ _ _ hread (hapart₁ rfl) htidy₁
      exact hat.tidy htidy' hopen

theorem fieldFrom_tidy {inner : String → Scan Json} (hinner : ∀ key, ReadsTidy (inner key))
    {f : String × Json} (h : fieldFrom care inner ⟨'"' :: s, i⟩ = .ok (f, ⟨rest, j⟩))
    (hapart : Apart rest) (htidy : Tidy rest) : Tidy ('"' :: s) := by
  obtain ⟨s₁, s₂, _, _, htext, hcolon, hvalue⟩ := fieldFrom_cases h
  obtain ⟨body, rfl, hbody, _⟩ := takes_text care _ _ _ _ _ htext
  have htidy₂ := (hinner _ _ _ _ _ _ hvalue hapart htidy).1
  have htidy₁ := tidy_of_token (.mark ':' rfl) hcolon trivial rfl htidy₂
  exact tidy_of_token (.string body hbody) rfl trivial rfl htidy₁

theorem fieldsFrom_tidy {inner : String → Scan Json} (hinner : ∀ key, ReadsTidy (inner key))
    {steps : Nat} {read fields : List (String × Json)}
    (h : fieldsFrom care inner steps read ⟨s, i⟩ = .ok (fields, ⟨rest, j⟩)) (htidy : Tidy rest) :
    Tidy s ∧ (read.isEmpty = false → Apart s) := by
  induction steps generalizing read s i with
  | zero => cases h
  | succ steps ih =>
    rcases fieldsFrom_cases h with ⟨hclose, _⟩ | ⟨s', _, f, ⟨s₁, _⟩, hat, hread, hrest⟩
    · refine ⟨?_, fun _ => apart_of_dropWhile hclose (by decide)⟩
      exact tidy_of_token (.mark '}' rfl) hclose trivial rfl htidy
    · obtain ⟨htidy₁, hapart₁⟩ := ih hrest
      exact hat.tidy (fieldFrom_tidy hinner hread (hapart₁ rfl) htidy₁) rfl

/-- Where no word goes on after what was read, a whole word was read. -/
theorem WithinWord.reads_whole {α : Type} {scan : Scan α} (h : ∀ w, WithinWord scan w w) {a : α}
    (hscan : scan ⟨s, i⟩ = .ok (a, ⟨rest, j⟩)) (hapart : Apart rest) :
    ∃ w, s = w ++ rest ∧ ∀ c ∈ w, isWordChar c = true := by
  have hsplit : s.takeWhile isWordChar ++ s.dropWhile isWordChar = s :=
    List.takeWhile_append_dropWhile
  have hw : ∀ c ∈ s.takeWhile isWordChar, isWordChar c = true := fun c hc =>
    List.mem_takeWhile_imp hc
  have hrest : Apart (s.dropWhile isWordChar) := by
    intro c hc
    have hnot := List.head?_dropWhile_not isWordChar s
    rw [Option.mem_def.mp hc] at hnot
    simpa using hnot
  rcases h (s.takeWhile isWordChar) with ⟨b, left, hleft, hread⟩ | hfails
  · obtain ⟨k, hk⟩ := hread _ hrest i
    rw [hsplit, hscan] at hk
    simp only [Except.ok.injEq, Prod.mk.injEq, Place.mk.injEq] at hk
    obtain ⟨_, rfl, _⟩ := hk
    cases left with
    | nil => exact ⟨_, hsplit.symm, hw⟩
    | cons c left =>
      have hc := hw c (hleft.subset List.mem_cons_self)
      rw [apart_cons.mp hapart] at hc
      cases hc
  · exact False.elim (hfails _ hrest i _ (hsplit ▸ hscan))

theorem valueWith_tidy {inner : Option (Scan Json)} (hinner : ∀ item ∈ inner, ReadsTidy item) :
    ReadsTidy (valueWith care inner) := by
  intro s i a rest j h hapart htidy
  obtain ⟨c, s', hs, hcase⟩ := valueWith_cases h
  have hopen (hc : c ≠ ']' ∧ c ≠ '}') : isClosing s = false := by
    simp [isClosing, firstSolid, hs, hc]
  rcases hcase with ⟨hc, l, hword⟩ | ⟨rfl, l, str, _, htext⟩ |
    ⟨rfl, l, item, items, rfl, _, hitems⟩ | ⟨rfl, l, item, fields, rfl, _, hfields⟩
  · obtain ⟨w, rfl, hw⟩ := WithinWord.reads_whole (withinWord_wordValue care c) hword hapart
    have hcomma : c ≠ ',' := by
      rintro rfl
      cases hc
    refine ⟨?_, hopen (by constructor <;> rintro rfl <;> cases hc)⟩
    refine tidy_of_token (.word (c :: w) (by simp) ?_) hs hapart ?_ htidy
    · intro x hx
      rcases List.mem_cons.mp hx with rfl | hx
      · exact hc
      · exact hw x hx
    · simp [Token.isComma, Token.chars, hcomma]
  · obtain ⟨body, rfl, hbody, _⟩ := takes_text care _ _ _ _ _ htext
    refine ⟨?_, hopen (by decide)⟩
    exact tidy_of_token (.string body hbody) hs trivial rfl htidy
  · refine ⟨?_, hopen (by decide)⟩
    have htidy' := (itemsFrom_tidy (hinner item rfl) hitems htidy).1
    exact tidy_of_token (.mark '[' rfl) hs trivial rfl htidy'
  · refine ⟨?_, hopen (by decide)⟩
    have htidy' := (fieldsFrom_tidy (fun _ => hinner item rfl) hfields htidy).1
    exact tidy_of_token (.mark '{' rfl) hs trivial rfl htidy'

theorem value_tidy (care : Care) (depth : Nat) : ReadsTidy (value care depth) := by
  induction depth with
  | zero => exact valueWith_tidy (by simp)
  | succ depth ih =>
    apply valueWith_tidy
    intro item hitem
    obtain rfl : value care depth = item := Option.some.inj hitem
    exact ih

/-- A text that can be read consists of tokens, and no comma is too many. -/
theorem document_tidy {v : Json} (h : document s = .ok v) : Tidy s := by
  obtain ⟨rest, j, hvalue, hrest⟩ := whole_cases h
  have hapart : Apart rest := by
    cases rest with
    | nil => exact apart_nil
    | cons c rest =>
      have hc := List.dropWhile_eq_nil_iff.mp hrest c List.mem_cons_self
      exact apart_cons.mpr (not_isWordChar_of_isJsonBlank hc)
  exact (value_tidy .exact maxDepth _ _ _ _ _ hvalue hapart (tidy_of_dropWhile (hrest ▸ .nil))).1

end Tidy

end TypeOnly.Json.Scan
