import TypeOnly.Proofs.JsonReading

/-!
JSON with comments. Into a JSON text, blanks and comments can be put wherever a token ends, and a
comma after the last item of a list or an object: what is read stays the same. The text itself is
left as it is when comments are taken out, whatever its strings hold.
-/

namespace TypeOnly.Json

set_option autoImplicit false

open Scan (isJsonBlank)

/-! ### Loosened texts -/

/-- What can be put between two tokens: a blank, or a comment that ends with its line or at its
mark. -/
inductive Filler where
  | blank (c : Char) (h : isJsonBlank c = true)
  | line (content : List Char) (h : '\n' ∉ content)
  | block (content : List Char) (h : ¬ ['*', '/'] <:+: content)

def Filler.chars : Filler → List Char
  | blank c _ => [c]
  | line content _ => '/' :: '/' :: (content ++ ['\n'])
  | block content _ => '/' :: '*' :: (content ++ ['*', '/'])

/-- The second text has the tokens of the first one, anything that can be put between them, and
perhaps one more comma where the last item of a list or an object has ended. `ended` says that an
item has ended and such a comma can still be put. The text can end with a comment that has no line
end. -/
inductive Loosened : Bool → List Char → List Char → Prop where
  | nil {ended : Bool} : Loosened ended [] []
  | lastLine {ended : Bool} {content : List Char} : '\n' ∉ content →
      Loosened ended [] ('/' :: '/' :: content)
  | skip {ended : Bool} {c : Char} {s t : List Char} : isJsonBlank c = true → Loosened ended s t →
      Loosened ended (c :: s) t
  | filler {ended : Bool} {s t : List Char} (f : Filler) : Loosened ended s t →
      Loosened ended s (f.chars ++ t)
  | comma {s t : List Char} : isClosing s = true → Loosened false s t → Loosened true s (',' :: t)
  | token {ended : Bool} {x : Token} {s t : List Char} : x.EndsBefore s → x.EndsBefore t →
      Loosened x.endsValue s t → Loosened ended (x.chars ++ s) (x.chars ++ t)

theorem Tidy.loosened {s : List Char} (h : Tidy s) (ended : Bool) : Loosened ended s s := by
  induction h generalizing ended with
  | nil => exact .nil
  | blank hc _ ih => exact .filler (.blank _ hc) (.skip hc (ih ended))
  | @token x s hs _ _ ih => exact .token hs hs (ih _)

/-! ### Tokens of a text -/

theorem takeWhile_word {w s : List Char} (hw : ∀ c ∈ w, isWordChar c = true) (hs : Apart s) :
    (w ++ s).takeWhile isWordChar = w := by
  induction w with
  | nil =>
    cases s with
    | nil => rfl
    | cons c s => simp [apart_cons.mp hs]
  | cons c w ih =>
    rw [List.cons_append, List.takeWhile_cons_of_pos (hw c List.mem_cons_self),
      ih fun x hx => hw x (List.mem_cons_of_mem c hx)]

/-- A text begins with one token at most. -/
theorem Token.unique {x y : Token} {s t : List Char} (hx : x.EndsBefore s) (hy : y.EndsBefore t)
    (h : x.chars ++ s = y.chars ++ t) : x.chars = y.chars ∧ s = t := by
  cases x with
  | mark c hc =>
    rcases Token.of_cons (show c :: s = y.chars ++ t from h) with
      ⟨_, rfl, rfl⟩ | ⟨rfl, _⟩ | ⟨hword, _⟩
    · exact ⟨rfl, rfl⟩
    · cases hc
    · rw [not_isWordChar_of_isMark hc] at hword
      cases hword
  | string body hbody =>
    rcases Token.of_cons (show '"' :: (body ++ s) = y.chars ++ t from h) with
      ⟨hc, _⟩ | ⟨_, body', hbody', rfl, hrest⟩ | ⟨hword, _⟩
    · cases hc
    · obtain ⟨rfl, rfl⟩ := hbody.unique hbody' hrest
      exact ⟨rfl, rfl⟩
    · cases hword
  | word w hne hw =>
    cases w with
    | nil => exact False.elim (hne rfl)
    | cons c w =>
      have hc := hw c List.mem_cons_self
      rcases Token.of_cons (show c :: (w ++ s) = y.chars ++ t from h) with
        ⟨hmark, _⟩ | ⟨rfl, _⟩ | ⟨_, w', _, hw', rfl, hrest⟩
      · rw [not_isWordChar_of_isMark hmark] at hc
        cases hc
      · cases hc
      · have hwords := congrArg (List.takeWhile isWordChar) hrest
        rw [takeWhile_word (fun x hx => hw x (List.mem_cons_of_mem c hx)) hx,
          takeWhile_word (fun x hx => hw' x (List.mem_cons_of_mem c hx)) hy] at hwords
        subst hwords
        exact ⟨rfl, List.append_cancel_left hrest⟩

theorem Tidy.of_blank {c : Char} {s : List Char} (hc : isJsonBlank c = true) (h : Tidy (c :: s)) :
    Tidy s := by
  generalize hs : c :: s = u at h
  cases h with
  | nil => cases hs
  | blank _ h => exact (List.cons.inj hs).2 ▸ h
  | @token x _ _ _ _ =>
    obtain ⟨d, v, hd, hsolid⟩ := x.chars_eq_cons
    rw [hd] at hs
    rw [(List.cons.inj hs).1, hsolid] at hc
    cases hc

theorem Tidy.of_token {x : Token} {s : List Char} (hx : x.EndsBefore s) (h : Tidy (x.chars ++ s)) :
    Tidy s ∧ (x.isComma = true → isClosing s = false) := by
  generalize hs : x.chars ++ s = u at h
  cases h with
  | nil =>
    obtain ⟨d, v, hd, _⟩ := x.chars_eq_cons
    rw [hd] at hs
    cases hs
  | blank hc _ =>
    obtain ⟨d, v, hd, hsolid⟩ := x.chars_eq_cons
    rw [hd] at hs
    rw [← (List.cons.inj hs).1, hsolid] at hc
    cases hc
  | @token y t hy hcomma h =>
    obtain ⟨hchars, rfl⟩ := Token.unique hx hy hs
    refine ⟨h, fun hx' => hcomma ?_⟩
    rwa [Token.isComma, ← hchars]

/-! ### Comments are taken out -/

/-- What may be left of comments and commas that are taken out. -/
def Blank (s : List Char) : Prop := ∀ c ∈ s, isJsonBlank c = true

theorem SameTokens.blank_append {b s t : List Char} (hb : Blank b) (h : SameTokens s t) :
    SameTokens s (b ++ t) := by
  induction b with
  | nil => exact h
  | cons c b ih =>
    exact .right (hb c List.mem_cons_self) (ih fun x hx => hb x (List.mem_cons_of_mem c hx))

theorem blank_blankOut (c : Char) : Blank (blankOut c) := by
  intro x hx
  unfold blankOut at hx
  split at hx
  · rename_i hc
    obtain rfl := List.mem_singleton.mp hx
    simp only [Bool.or_eq_true, decide_eq_true_eq] at hc
    exact isJsonBlank_iff.mpr (by tauto)
  · obtain ⟨_, rfl⟩ := List.mem_replicate.mp hx
    decide

theorem Blank.append {b c : List Char} (hb : Blank b) (hc : Blank c) : Blank (b ++ c) := by
  intro x hx
  rcases List.mem_append.mp hx with hx | hx
  · exact hb x hx
  · exact hc x hx

section Comments

attribute [local simp] stripFrom nextSolid

variable {content : List Char}

theorem stripFrom_line (h : '\n' ∉ content) (t : List Char) :
    ∃ b, Blank b ∧ stripFrom .lineComment (content ++ '\n' :: t) = b ++ stripFrom .plain t := by
  induction content with
  | nil => exact ⟨['\n'], by simp [Blank, isJsonBlank], by simp⟩
  | cons c content ih =>
    simp only [List.mem_cons, not_or] at h
    obtain ⟨b, hb, hstrip⟩ := ih h.2
    refine ⟨blankOut c ++ b, (blank_blankOut c).append hb, ?_⟩
    rw [List.cons_append, stripFrom, hstrip, List.append_assoc]
    exact fun heq => h.1 heq.symm

theorem stripFrom_lastLine (h : '\n' ∉ content) : Blank (stripFrom .lineComment content) := by
  induction content with
  | nil => simp [Blank]
  | cons c content ih =>
    simp only [List.mem_cons, not_or] at h
    rw [stripFrom]
    · exact (blank_blankOut c).append (ih h.2)
    · exact fun heq => h.1 heq.symm

theorem not_infix_of_cons {c : Char} (h : ¬ ['*', '/'] <:+: c :: content) :
    ¬ ['*', '/'] <:+: content ∧ (c = '*' → content.head? ≠ some '/') := by
  refine ⟨fun hin => h (hin.trans (List.suffix_cons c content).isInfix), ?_⟩
  rintro rfl hhead
  cases content with
  | nil => cases hhead
  | cons d content =>
    obtain rfl := Option.some.inj hhead
    exact h ⟨[], content, rfl⟩

/-- Inside a comment no other mark ends it: not even a star before the one of its end. -/
theorem block_goes_on {c : Char} (h : ¬ ['*', '/'] <:+: c :: content) (t rest : List Char) :
    c = '*' → content ++ '*' :: '/' :: t = '/' :: rest → False := by
  intro hc heq
  cases content with
  | nil => cases heq
  | cons d content =>
    exact (not_infix_of_cons h).2 hc (by rw [(List.cons.inj heq).1]; rfl)

theorem stripFrom_block (h : ¬ ['*', '/'] <:+: content) (t : List Char) :
    ∃ b, Blank b ∧
      stripFrom .blockComment (content ++ '*' :: '/' :: t) = b ++ stripFrom .plain t := by
  induction content with
  | nil => exact ⟨[' ', ' '], by simp [Blank, isJsonBlank], by simp⟩
  | cons c content ih =>
    obtain ⟨b, hb, hstrip⟩ := ih (not_infix_of_cons h).1
    refine ⟨blankOut c ++ b, (blank_blankOut c).append hb, ?_⟩
    rw [List.cons_append, stripFrom, hstrip, List.append_assoc]
    exact block_goes_on h t

theorem nextSolid_line (h : '\n' ∉ content) (t : List Char) :
    nextSolid .lineComment (content ++ '\n' :: t) = nextSolid .plain t := by
  induction content with
  | nil => simp
  | cons c content ih =>
    simp only [List.mem_cons, not_or] at h
    rw [List.cons_append, nextSolid, ih h.2]
    exact fun heq => h.1 heq.symm

theorem nextSolid_lastLine (h : '\n' ∉ content) : nextSolid .lineComment content = none := by
  induction content with
  | nil => simp
  | cons c content ih =>
    simp only [List.mem_cons, not_or] at h
    rw [nextSolid, ih h.2]
    exact fun heq => h.1 heq.symm

theorem nextSolid_block (h : ¬ ['*', '/'] <:+: content) (t : List Char) :
    nextSolid .blockComment (content ++ '*' :: '/' :: t) = nextSolid .plain t := by
  induction content with
  | nil => simp
  | cons c content ih =>
    rw [List.cons_append, nextSolid, ih (not_infix_of_cons h).1]
    exact block_goes_on h t

end Comments

theorem Filler.stripFrom_chars (f : Filler) (t : List Char) :
    ∃ b, Blank b ∧ stripFrom .plain (f.chars ++ t) = b ++ stripFrom .plain t := by
  have htwo : Blank [' ', ' '] := by simp [Blank, isJsonBlank]
  cases f with
  | blank c h =>
    refine ⟨[c], by simpa [Blank] using h, ?_⟩
    rcases isJsonBlank_iff.mp h with rfl | rfl | rfl | rfl <;> simp [Filler.chars, stripFrom]
  | line content h =>
    obtain ⟨b, hb, hstrip⟩ := stripFrom_line h t
    exact ⟨[' ', ' '] ++ b, htwo.append hb, by simp [Filler.chars, stripFrom, hstrip]⟩
  | block content h =>
    obtain ⟨b, hb, hstrip⟩ := stripFrom_block h t
    exact ⟨[' ', ' '] ++ b, htwo.append hb, by simp [Filler.chars, stripFrom, hstrip]⟩

theorem Filler.nextSolid_chars (f : Filler) (t : List Char) :
    nextSolid .plain (f.chars ++ t) = nextSolid .plain t := by
  cases f with
  | blank c h =>
    rcases isJsonBlank_iff.mp h with rfl | rfl | rfl | rfl <;>
      simp [Filler.chars, nextSolid, isJsonBlank]
  | line content h => simpa [Filler.chars, nextSolid] using nextSolid_line h t
  | block content h => simpa [Filler.chars, nextSolid] using nextSolid_block h t

/-! ### Tokens stay -/

theorem stripFrom_string {body : List Char} (h : Quoted body) (t : List Char) :
    stripFrom .text (body ++ t) = body ++ stripFrom .plain t := by
  induction h with
  | close => simp [stripFrom]
  | plain hquote hback _ ih =>
    rw [List.cons_append, stripFrom, if_neg hquote, ih, List.cons_append]
    exact fun _ _ heq => False.elim (hback heq)
  | escaped _ ih => simp [stripFrom, ih]

theorem stripFrom_cons {c : Char} (t : List Char) (hquote : c ≠ '"') (hslash : c ≠ '/')
    (hcomma : c = ',' → closesNext t = false) :
    stripFrom .plain (c :: t) = c :: stripFrom .plain t := by
  have hkeep : (c = ',' && closesNext t) = false := by
    by_cases hc : c = ','
    · simp [hc, hcomma hc]
    · simp [hc]
  rw [stripFrom]
  · simp [hkeep]
  · exact fun hc => False.elim (hquote hc)
  · exact fun _ hc => False.elim (hslash hc)
  · exact fun _ hc => False.elim (hslash hc)

theorem word_ne {c d : Char} (hc : isWordChar c = true) (hd : isWordChar d = false) : c ≠ d := by
  rintro rfl
  rw [hd] at hc
  cases hc

theorem stripFrom_word {w : List Char} (hw : ∀ c ∈ w, isWordChar c = true) (t : List Char) :
    stripFrom .plain (w ++ t) = w ++ stripFrom .plain t := by
  induction w with
  | nil => rfl
  | cons c w ih =>
    have hc := hw c List.mem_cons_self
    rw [List.cons_append, stripFrom_cons _ (word_ne hc rfl) (word_ne hc rfl),
      ih fun x hx => hw x (List.mem_cons_of_mem c hx), List.cons_append]
    exact fun heq => False.elim (word_ne hc rfl heq)

theorem stripFrom_token (x : Token) (t : List Char)
    (hcomma : x.isComma = true → closesNext t = false) :
    stripFrom .plain (x.chars ++ t) = x.chars ++ stripFrom .plain t := by
  cases x with
  | mark c hc =>
    apply stripFrom_cons
    · rintro rfl
      cases hc
    · rintro rfl
      cases hc
    · rintro rfl
      exact hcomma rfl
  | string body hbody => simp [Token.chars, stripFrom, stripFrom_string hbody]
  | word w _ hw => exact stripFrom_word hw t

theorem nextSolid_cons {c : Char} (t : List Char) (hslash : c ≠ '/')
    (hblank : isJsonBlank c = false) :
    nextSolid .plain (c :: t) = some c := by
  rw [nextSolid]
  · simp [hblank]
  all_goals simp [hslash]

theorem Token.head_ne_slash (x : Token) : x.chars.head? ≠ some '/' := by
  cases x with
  | mark c hc =>
    intro h
    rw [Option.some.inj h] at hc
    cases hc
  | string body _ => simp [Token.chars]
  | word w _ hw =>
    intro h
    cases hw '/' (List.mem_of_mem_head? h)

theorem nextSolid_token (x : Token) (t : List Char) :
    nextSolid .plain (x.chars ++ t) = x.chars.head? := by
  have hslash := x.head_ne_slash
  obtain ⟨c, u, hx, hblank⟩ := x.chars_eq_cons
  rw [hx] at hslash ⊢
  exact nextSolid_cons (u ++ t) (by simpa using hslash) hblank

theorem firstSolid_token (x : Token) (s : List Char) :
    firstSolid (x.chars ++ s) = x.chars.head? := by
  obtain ⟨c, u, hx, _⟩ := x.chars_eq_cons
  rw [firstSolid, x.dropWhile_chars, hx]
  rfl

namespace Loosened

variable {ended : Bool} {s t : List Char}

/-- Past what is put before it, a loosened text goes on as the text does. Only a comma that was put
there can come first. -/
theorem nextSolid_eq (h : Loosened ended s t) (hended : ended = false) :
    nextSolid .plain t = firstSolid s := by
  induction h with
  | nil => rfl
  | lastLine hcontent => simpa [nextSolid, firstSolid] using nextSolid_lastLine hcontent
  | skip hc _ ih => simpa [firstSolid, hc] using ih hended
  | filler f _ ih => rw [f.nextSolid_chars, ih hended]
  | comma _ _ _ => cases hended
  | @token _ x s t _ _ _ _ => rw [nextSolid_token, firstSolid_token]

theorem closesNext_eq (h : Loosened false s t) : closesNext t = isClosing s := by
  rw [closesNext, isClosing, h.nextSolid_eq rfl]
  cases firstSolid s with
  | none => rfl
  | some c => simp [Bool.or_comm]

end Loosened

/-- No word is made where comments are taken out. -/
theorem apart_stripFrom {t : List Char} (h : Apart t) : Apart (stripFrom .plain t) := by
  generalize hr : Region.plain = r
  fun_cases stripFrom r t with
  | case1 => exact apart_nil
  | case2 | case3 | case4 | case5 | case6 | case7 => cases hr
  | case8 => exact h
  | case9 | case10 => exact apart_cons.mpr rfl
  | case11 c _ _ _ _ =>
    rw [apart_cons] at h ⊢
    split
    · rfl
    · exact h

theorem Token.endsBefore_stripFrom {x : Token} {t : List Char} (h : x.EndsBefore t) :
    x.EndsBefore (stripFrom .plain t) := by
  cases x with
  | mark _ _ => trivial
  | string _ _ => trivial
  | word _ _ _ => exact apart_stripFrom h

/-- What was put into a text is taken out again. -/
theorem Loosened.sameTokens {ended : Bool} {s t : List Char} (h : Loosened ended s t)
    (hs : Tidy s) :
    SameTokens s (stripFrom .plain t) := by
  induction h with
  | nil => simpa [stripFrom] using SameTokens.nil
  | lastLine hcontent =>
    have hblank := SameTokens.blank_append (stripFrom_lastLine hcontent) .nil
    rw [List.append_nil] at hblank
    simpa [stripFrom] using SameTokens.right (c := ' ') rfl (.right (c := ' ') rfl hblank)
  | skip hc _ ih => exact .left hc (ih (hs.of_blank hc))
  | filler f _ ih =>
    obtain ⟨b, hb, hstrip⟩ := f.stripFrom_chars _
    rw [hstrip]
    exact (ih hs).blank_append hb
  | @comma s t hclosing h ih =>
    -- the comma stands where the text closes, so it is a trailing one
    have hcloses : closesNext t = true := h.closesNext_eq.trans hclosing
    have hstrip : stripFrom .plain (',' :: t) = ' ' :: stripFrom .plain t := by
      simp [stripFrom, hcloses]
    rw [hstrip]
    exact .right rfl (ih hs)
  | @token _ x s t hxs hxt h ih =>
    obtain ⟨htidy, hcomma⟩ := hs.of_token hxs
    rw [stripFrom_token x t]
    · exact .token hxs (Token.endsBefore_stripFrom hxt) (ih htidy)
    · intro hx
      have hended : x.endsValue = false := by
        cases x with
        | mark c hc =>
          have hc : c = ',' := by simpa [Token.isComma, Token.chars] using hx
          simp [Token.endsValue, hc]
        | string _ _ => simp [Token.isComma, Token.chars] at hx
        | word w _ hw =>
          have hw' : w = [','] := of_decide_eq_true hx
          cases hw ',' (by simp [hw'])
      rw [hended] at h
      rw [h.closesNext_eq, hcomma hx]

theorem Tidy.stripFrom_eq {s : List Char} (h : Tidy s) : stripFrom .plain s = s := by
  induction h with
  | nil => simp [stripFrom]
  | @blank c s hc _ ih =>
    rw [stripFrom_cons, ih]
    all_goals rintro rfl
    all_goals cases hc
  | @token x s _ hcomma htidy ih =>
    rw [stripFrom_token x s, ih]
    intro hx
    rw [(htidy.loosened false).closesNext_eq, hcomma hx]

/-! ### Reading -/

theorem toNat_of_isWordChar {c : Char} (h : isWordChar c = true) :
    33 ≤ c.toNat ∧ c.toNat < 127 := by
  delta isWordChar Char.isAlphanum Char.isAlpha Char.isUpper Char.isLower Char.isDigit at h
  simp only [Bool.or_eq_true, Bool.and_eq_true, decide_eq_true_eq, ge_iff_le,
    UInt32.le_iff_toNat_le] at h
  rcases h with ((((h | h) | h) | rfl) | rfl) | rfl
  · exact ⟨Nat.le_trans (by decide) h.1, Nat.lt_of_le_of_lt h.2 (by decide)⟩
  · exact ⟨Nat.le_trans (by decide) h.1, Nat.lt_of_le_of_lt h.2 (by decide)⟩
  · exact ⟨Nat.le_trans (by decide) h.1, Nat.lt_of_le_of_lt h.2 (by decide)⟩
  all_goals decide

theorem not_isBlank_of_isWordChar {c : Char} (h : isWordChar c = true) :
    Text.isBlank c = false := by
  have hbounds := toNat_of_isWordChar h
  have hspace : c ≠ ' ' := word_ne h rfl
  simp only [Text.isBlank, hspace, decide_false, Bool.or_false, Bool.or_eq_false_iff,
    Bool.and_eq_false_iff, decide_eq_false_iff_not]
  omega

theorem dropMark_cons {c : Char} (t : List Char) (h : c.toNat < 128) :
    dropMark (c :: t) = c :: t := by
  have hmark : c.toNat ≠ 0xfeff := by omega
  simp [dropMark, hmark]

theorem Loosened.dropMark_eq {ended : Bool} {s t : List Char} (h : Loosened ended s t) :
    dropMark t = t := by
  induction h with
  | nil => rfl
  | lastLine _ => rfl
  | skip _ _ ih => exact ih
  | filler f _ _ =>
    cases f with
    | blank c hc =>
      apply dropMark_cons
      rcases isJsonBlank_iff.mp hc with rfl | rfl | rfl | rfl <;> decide
    | line _ _ => rfl
    | block _ _ => rfl
  | comma _ _ _ => rfl
  | @token _ x s t _ _ _ _ =>
    cases x with
    | mark c hc =>
      apply dropMark_cons
      rcases isMark_iff.mp hc with rfl | rfl | rfl | rfl | rfl | rfl <;> decide
    | string _ _ => rfl
    | word w hne hw =>
      cases w with
      | nil => exact False.elim (hne rfl)
      | cons c w =>
        have hbound := toNat_of_isWordChar (hw c List.mem_cons_self)
        exact dropMark_cons _ (by omega)

/-- A document has more than blanks in it. -/
theorem Scan.document_solid {s : List Char} {v : Json} (h : Scan.document s = .ok v) :
    s.all Text.isBlank = false := by
  obtain ⟨rest, j, hvalue, _⟩ := Scan.whole_cases h
  obtain ⟨c, s', hs, hcase⟩ : ∃ c s', s.dropWhile isJsonBlank = c :: s' ∧
      Text.isBlank c = false := by
    unfold Scan.maxDepth Scan.value at hvalue
    obtain ⟨c, s', hs, hcase⟩ := Scan.valueWith_cases hvalue
    refine ⟨c, s', hs, ?_⟩
    rcases hcase with ⟨hc, _⟩ | ⟨rfl, _⟩ | ⟨rfl, _⟩ | ⟨rfl, _⟩
    · exact not_isBlank_of_isWordChar hc
    all_goals decide
  have hmem : c ∈ s := (List.dropWhile_sublist isJsonBlank).mem (hs ▸ List.mem_cons_self)
  rw [List.all_eq_false]
  exact ⟨c, hmem, by simp [hcase]⟩

/-- Comments, blanks and trailing commas change nothing of what is read, and a text that has none of
them is left as it is, whatever stands in its strings. -/
theorem commented_reads_same {s : String} {v : Json} (h : read s = .ok v) :
    strip s = s ∧ Loosened false s.toList s.toList ∧
      ∀ t : String, Loosened false s.toList t.toList → readCommented t = .ok v := by
  have hread := ok_of_mapError h
  have htidy := Scan.document_tidy hread
  refine ⟨?_, htidy.loosened false, fun t ht => ?_⟩
  · rw [strip, htidy.stripFrom_eq, String.ofList_toList]
  · have hstrip := Scan.document_byTokens hread (ht.sameTokens htidy)
    rw [readCommented, ht.dropMark_eq]
    simp only [Scan.document_solid hstrip, Bool.false_eq_true, if_false, hstrip]
    rfl

theorem commented_reads_same_marks :
    read "[\"/*\"]" = .ok (.array [.string "/*"]) ∧
      readCommented "[/* ] */\"/*\",// \"\n]" = .ok (.array [.string "/*"]) := by
  have hread : read "[\"/*\"]" = .ok (.array [.string "/*"]) := rfl
  have hquoted : Quoted ['/', '*', '"'] :=
    .plain (by decide) (by decide) (.plain (by decide) (by decide) .close)
  refine ⟨hread, (commented_reads_same hread).2.2 _ ?_⟩
  apply Loosened.token (x := .mark '[' rfl) trivial trivial
  apply Loosened.filler (.block [' ', ']', ' '] (by decide))
  apply Loosened.token (x := .string ['/', '*', '"'] hquoted) trivial trivial
  apply Loosened.comma rfl
  apply Loosened.filler (.line [' ', '"'] (by decide))
  exact Loosened.token (x := .mark ']' rfl) trivial trivial .nil

end TypeOnly.Json
