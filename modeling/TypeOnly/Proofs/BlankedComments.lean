import TypeOnly.Proofs.CommentedJson
import TypeOnly.Proofs.TextBytes

/-!
Comments and trailing commas are blanked out byte for byte. What comes out is what two passes over
the bytes give, the first one for the comments and the second one for the commas, and every byte
stays where it was: it is left as it is or becomes a blank. Line ends and strings are not touched.
-/

namespace TypeOnly.Json

set_option autoImplicit false

open Scan (isJsonBlank)
open TypeOnly.Text (utf8 encode letter encode_nil encode_cons encode_append encode_cases utf8_ofList
  utf8_eq_encode fromUTF8?_utf8 ne_of_high head?_encode)

/-! ### Two passes -/

/-- A blank, as a byte. -/
def blank : UInt8 := 32

/-- Where in a commented text a byte stands, as the bytes before it tell. -/
inductive Mode where
  | plain
  /-- After a slash that can begin a comment. -/
  | slash
  | text
  /-- After a backslash in a string. -/
  | escape
  | line
  | block
  /-- After a star that can end a comment. -/
  | star
deriving DecidableEq

namespace Mode

def next : Mode → Char → Mode
  | plain, c => if c = '/' then slash else if c = '"' then text else plain
  | slash, c => if c = '/' then line else if c = '*' then block else if c = '"' then text else plain
  | text, c => if c = '\\' then escape else if c = '"' then plain else text
  | escape, _ => text
  | line, c => if c = '\n' then plain else line
  | block, c => if c = '*' then star else block
  | star, c => if c = '/' then plain else if c = '*' then star else block

/-- Whether a comment goes on here. -/
def inComment : Mode → Bool
  | line | block | star => true
  | _ => false

/-- Whether a string literal goes on here. -/
def inText : Mode → Bool
  | text | escape => true
  | _ => false

/-- Whether a byte is part of a comment: it stands in it, begins it together with the byte after it,
or ends it. -/
def comments (m : Mode) (c : Char) (after : Option Char) : Bool :=
  (m.next c).inComment || (m.next c = slash && (after = some '/' || after = some '*'))
    || (m = star && c = '/')

/-- Whether a byte is part of a string literal, the quotes included. -/
def quotes (m : Mode) (c : Char) : Bool := m.inText || (!m.inComment && c = '"')

/-- A byte after the pass for the comments. -/
def blanked (m : Mode) (b : UInt8) (after : Option Char) : UInt8 :=
  if m.comments (letter b) after && letter b ≠ '\n' && letter b ≠ '\r' then blank else b

end Mode

/-- The first pass: comments become blanks, up to the line ends in them. -/
def blankComments : Mode → List UInt8 → List UInt8
  | _, [] => []
  | m, b :: rest =>
    m.blanked b (rest.head?.map letter) :: blankComments (m.next (letter b)) rest

/-- Whether a byte stands in a string, in a text without comments. -/
inductive Quoting where
  | outside
  | inside
  /-- After a backslash. -/
  | escaped
deriving DecidableEq

def Quoting.next : Quoting → Char → Quoting
  | outside, c => if c = '"' then inside else outside
  | inside, c => if c = '\\' then escaped else if c = '"' then outside else inside
  | escaped, _ => inside

/-- Whether a bracket or brace closes next, after blanks. -/
def closes (bs : List UInt8) : Bool :=
  ((bs.map letter).dropWhile isJsonBlank).head?.any fun c => c = '}' || c = ']'

/-- The second pass: commas outside strings become blanks where something closes next. -/
def dropCommas : Quoting → List UInt8 → List UInt8
  | _, [] => []
  | q, b :: rest =>
    (if letter b = ',' && q = .outside && closes rest then blank else b)
      :: dropCommas (q.next (letter b)) rest

/-- What is left of strings once the comments are blanked out. -/
def Mode.quoting : Mode → Quoting
  | text => .inside
  | escape => .escaped
  | _ => .outside

/-- Both passes, from a place within the text on. -/
def twoPasses (m : Mode) (bs : List UInt8) : List UInt8 := dropCommas m.quoting (blankComments m bs)

theorem letter_blank : letter blank = ' ' := by decide

theorem Mode.outside_of_comments {m : Mode} {c : Char} {after : Option Char}
    (h : m.comments c after = true) : m.quoting = .outside ∧ (m.next c).quoting = .outside := by
  cases m with
  | escape => cases h
  | _ =>
    simp only [Mode.comments, Mode.next] at h ⊢
    split_ifs at h ⊢ <;> simp_all [Mode.quoting, Mode.inComment]

theorem Mode.next_quoting_of_not_comments {m : Mode} {c : Char} {after : Option Char}
    (h : m.comments c after = false) : m.quoting.next c = (m.next c).quoting := by
  cases m with
  | escape => rfl
  | _ =>
    simp only [Mode.comments, Mode.next] at h ⊢
    split_ifs at h ⊢ <;> simp_all [Mode.quoting, Mode.inComment, Quoting.next]

theorem Mode.next_quoting_of_line_end (m : Mode) {c : Char} (h : c = '\n' ∨ c = '\r') :
    m.quoting.next c = (m.next c).quoting := by
  rcases h with rfl | rfl <;> cases m <;> rfl

theorem Mode.next_quoting (m : Mode) (b : UInt8) (after : Option Char) :
    m.quoting.next (letter (m.blanked b after)) = (m.next (letter b)).quoting := by
  unfold Mode.blanked
  split
  · rename_i h
    simp only [Bool.and_eq_true] at h
    obtain ⟨hm, hnext⟩ := Mode.outside_of_comments h.1.1
    rw [hm, hnext, letter_blank]
    rfl
  · rename_i h
    by_cases hcomments : m.comments (letter b) after = true
    · apply Mode.next_quoting_of_line_end
      simpa [hcomments, or_iff_not_imp_left] using h
    · exact Mode.next_quoting_of_not_comments (Bool.eq_false_iff.mpr hcomments)

theorem twoPasses_cons (m : Mode) (b : UInt8) (rest : List UInt8) :
    twoPasses m (b :: rest) =
      (if letter (m.blanked b (rest.head?.map letter)) = ',' && m.quoting = .outside
          && closes (blankComments (m.next (letter b)) rest) then blank
        else m.blanked b (rest.head?.map letter)) :: twoPasses (m.next (letter b)) rest := by
  rw [twoPasses, blankComments, dropCommas, Mode.next_quoting]
  rfl

/-! ### Every byte keeps its place -/

/-- Bytes before and after, each in its place: one that changes becomes a blank, and it is neither
the end of a line nor part of a string. -/
inductive Kept : Mode → List UInt8 → List UInt8 → Prop where
  | nil {m : Mode} : Kept m [] []
  | cons {m : Mode} {a b : UInt8} {as bs : List UInt8} :
      (b = a ∨ b = blank ∧ letter a ≠ '\n' ∧ letter a ≠ '\r' ∧ m.quotes (letter a) = false) →
      Kept (m.next (letter a)) as bs → Kept m (a :: as) (b :: bs)

theorem Mode.not_quotes_of_comments {m : Mode} {c : Char} {after : Option Char}
    (h : m.comments c after = true) : m.quotes c = false := by
  cases m with
  | escape => cases h
  | _ =>
    simp only [Mode.comments, Mode.next, Mode.quotes] at h ⊢
    split_ifs at h ⊢ <;> simp_all [Mode.inComment, Mode.inText]

theorem Mode.not_quotes_of_outside {m : Mode} {c : Char} (hm : m.quoting = .outside)
    (hc : c ≠ '"') :
    m.quotes c = false := by
  cases m <;> simp_all [Mode.quoting, Mode.quotes, Mode.inText]

theorem kept_twoPasses (m : Mode) (bs : List UInt8) : Kept m bs (twoPasses m bs) := by
  induction bs generalizing m with
  | nil => exact .nil
  | cons b rest ih =>
    rw [twoPasses_cons]
    refine .cons ?_ (ih _)
    by_cases hblank : (m.comments (letter b) (rest.head?.map letter) && letter b ≠ '\n'
        && letter b ≠ '\r') = true
    · rw [Mode.blanked, if_pos hblank, letter_blank, if_neg (by simp)]
      simp only [Bool.and_eq_true, decide_eq_true_eq] at hblank
      exact Or.inr ⟨rfl, hblank.1.2, hblank.2, Mode.not_quotes_of_comments hblank.1.1⟩
    · rw [Mode.blanked, if_neg hblank]
      split
      · rename_i hcomma
        simp only [Bool.and_eq_true, decide_eq_true_eq] at hcomma
        obtain ⟨⟨hletter, houtside⟩, _⟩ := hcomma
        refine Or.inr ⟨rfl, ?_, ?_, Mode.not_quotes_of_outside houtside ?_⟩
        all_goals simp [hletter]
      · exact Or.inl rfl

theorem Kept.length {m : Mode} {as bs : List UInt8} (h : Kept m as bs) : bs.length = as.length := by
  induction h with
  | nil => rfl
  | cons _ _ ih => rw [List.length_cons, List.length_cons, ih]

theorem Kept.getElem? {m : Mode} {as bs : List UInt8} (h : Kept m as bs) {i : Nat} {a b : UInt8}
    (ha : as[i]? = some a) (hb : bs[i]? = some b) :
    b = a ∨ b = blank ∧ letter a ≠ '\n' ∧ letter a ≠ '\r' ∧
      Mode.quotes (((as.take i).map letter).foldl Mode.next m) (letter a) = false := by
  induction h generalizing i with
  | nil => cases ha
  | cons hstep _ ih =>
    cases i with
    | zero =>
      obtain rfl := Option.some.inj ha
      obtain rfl := Option.some.inj hb
      exact hstep
    | succ i => exact ih ha hb

/-! ### Characters of several bytes -/

/-- Where a text goes on after a character that means nothing to it. -/
def Mode.onward : Mode → Mode
  | plain | slash => plain
  | text | escape => text
  | line => line
  | block | star => block

theorem Mode.next_of_high (m : Mode) {c : Char} (h : 128 ≤ c.toNat) : m.next c = m.onward := by
  have hslash : c ≠ '/' := ne_of_high h (by decide)
  have hstar : c ≠ '*' := ne_of_high h (by decide)
  have hquote : c ≠ '"' := ne_of_high h (by decide)
  have hback : c ≠ '\\' := ne_of_high h (by decide)
  have hline : c ≠ '\n' := ne_of_high h (by decide)
  cases m <;> simp [Mode.next, Mode.onward, *]

theorem Mode.onward_onward (m : Mode) : m.onward.onward = m.onward := by cases m <;> rfl

theorem Mode.inComment_onward (m : Mode) : m.onward.inComment = m.inComment := by cases m <;> rfl

theorem Mode.comments_of_high (m : Mode) {c : Char} (h : 128 ≤ c.toNat) (after : Option Char) :
    m.comments c after = m.inComment := by
  have hslash : c ≠ '/' := ne_of_high h (by decide)
  have honward : m.onward ≠ .slash := by cases m <;> decide
  simp [Mode.comments, Mode.next_of_high m h, Mode.inComment_onward, honward, hslash]

theorem blankComments_high {hs : List UInt8} (hne : hs ≠ [])
    (h : ∀ b ∈ hs, 128 ≤ (letter b).toNat) (m : Mode) (bs : List UInt8) :
    blankComments m (hs ++ bs) = (if m.inComment then List.replicate hs.length blank else hs)
      ++ blankComments m.onward bs := by
  induction hs generalizing m with
  | nil => exact False.elim (hne rfl)
  | cons b hs ih =>
    have hb := h b List.mem_cons_self
    have hline : letter b ≠ '\n' := ne_of_high hb (by decide)
    have hreturn : letter b ≠ '\r' := ne_of_high hb (by decide)
    have hblanked (after : Option Char) : m.blanked b after = if m.inComment then blank else b := by
      simp [Mode.blanked, Mode.comments_of_high m hb, hline, hreturn]
    rw [List.cons_append, blankComments, Mode.next_of_high m hb, hblanked]
    cases hs with
    | nil => cases m.inComment <;> rfl
    | cons b' hs =>
      rw [ih (by simp) fun x hx => h x (List.mem_cons_of_mem b hx), Mode.inComment_onward,
        Mode.onward_onward]
      cases m.inComment <;> rfl

theorem dropCommas_high {c : Char} (hc : 128 ≤ c.toNat) {hs : List UInt8} (hne : hs ≠ [])
    (h : ∀ b ∈ hs, 128 ≤ (letter b).toNat) (q : Quoting) (bs : List UInt8) :
    dropCommas q (hs ++ bs) = hs ++ dropCommas (q.next c) bs := by
  have hnext {d : Char} (hd : 128 ≤ d.toNat) (q : Quoting) :
      q.next d = if q = .escaped then .inside else q := by
    have hquote : d ≠ '"' := ne_of_high hd (by decide)
    have hback : d ≠ '\\' := ne_of_high hd (by decide)
    cases q <;> simp [Quoting.next, hquote, hback]
  induction hs generalizing q with
  | nil => exact False.elim (hne rfl)
  | cons b hs ih =>
    have hb := h b List.mem_cons_self
    have hcomma : letter b ≠ ',' := ne_of_high hb (by decide)
    rw [List.cons_append, dropCommas, if_neg (by simp [hcomma])]
    cases hs with
    | nil => rw [hnext hb, hnext hc, List.nil_append, List.singleton_append]
    | cons b' hs =>
      rw [ih (by simp) fun x hx => h x (List.mem_cons_of_mem b hx), hnext hb, hnext hc, hnext hc]
      cases q <;> rfl

/-! ### One character -/

theorem encode_replicate (n : Nat) : encode (List.replicate n ' ') = List.replicate n blank := by
  induction n with
  | zero => rfl
  | succ n ih =>
    rw [List.replicate_succ, encode_cons, ih]
    rfl

theorem blankOut_line {c : Char} (h : c = '\n' ∨ c = '\r') : blankOut c = [c] := by
  rcases h with rfl | rfl <;> rfl

theorem encode_blankOut {c : Char} (hline : c ≠ '\n') (hreturn : c ≠ '\r') :
    encode (blankOut c) = List.replicate c.utf8Size blank := by
  rw [blankOut, if_neg (by simp [hline, hreturn]), blanks, encode_replicate]

/-- The first pass takes whole characters. -/
theorem blankComments_char (m : Mode) (c : Char) (bs : List UInt8) :
    blankComments m (String.utf8EncodeChar c ++ bs) =
      encode (if m.comments c (bs.head?.map letter) then blankOut c else [c])
        ++ blankComments (m.next c) bs := by
  have hsize := String.length_utf8EncodeChar c
  rcases encode_cases c with ⟨b, hb, rfl⟩ | ⟨hc, hhigh⟩
  · rw [hb] at hsize
    rw [hb, List.singleton_append, blankComments, Mode.blanked]
    cases m.comments (letter b) (bs.head?.map letter) with
    | false => simp [hb]
    | true =>
      by_cases hline : letter b = '\n' ∨ letter b = '\r'
      · have hkeep : (true && letter b ≠ '\n' && letter b ≠ '\r') = false := by
          rcases hline with h | h <;> simp [h]
        rw [hkeep, if_neg (by simp), if_pos rfl, blankOut_line hline, encode_cons, hb]
        rfl
      · rw [not_or] at hline
        rw [if_pos (by simp [hline]), if_pos rfl, encode_blankOut hline.1 hline.2, ← hsize]
        rfl
  · have hline : c ≠ '\n' := ne_of_high hc (by decide)
    have hreturn : c ≠ '\r' := ne_of_high hc (by decide)
    rw [blankComments_high String.utf8EncodeChar_ne_nil hhigh, Mode.next_of_high m hc,
      Mode.comments_of_high m hc, hsize]
    cases m.inComment with
    | false => simp
    | true => simp [encode_blankOut hline hreturn]

/-- So does the second one. -/
theorem dropCommas_char (q : Quoting) (c : Char) (bs : List UInt8) :
    dropCommas q (String.utf8EncodeChar c ++ bs) =
      String.utf8EncodeChar (if c = ',' && q = .outside && closes bs then ' ' else c)
        ++ dropCommas (q.next c) bs := by
  rcases encode_cases c with ⟨b, hb, rfl⟩ | ⟨hc, hhigh⟩
  · rw [hb, List.singleton_append, dropCommas]
    split
    · rfl
    · rw [hb]
      rfl
  · have hcomma : c ≠ ',' := ne_of_high hc (by decide)
    rw [dropCommas_high hc String.utf8EncodeChar_ne_nil hhigh, if_neg (by simp [hcomma])]

theorem dropCommas_blanks {cs : List Char} (h : Blank cs) (bs : List UInt8) :
    dropCommas .outside (encode cs ++ bs) = encode cs ++ dropCommas .outside bs := by
  induction cs with
  | nil => rfl
  | cons c cs ih =>
    have hc := isJsonBlank_iff.mp (h c List.mem_cons_self)
    have hcomma : c ≠ ',' := by rcases hc with rfl | rfl | rfl | rfl <;> decide
    have hquote : c ≠ '"' := by rcases hc with rfl | rfl | rfl | rfl <;> decide
    have hnext : Quoting.outside.next c = .outside := by simp [Quoting.next, hquote]
    rw [encode_cons, List.append_assoc, dropCommas_char, if_neg (by simp [hcomma]), hnext,
      ih fun x hx => h x (List.mem_cons_of_mem c hx), List.append_assoc]

section Step

variable {m : Mode} {c : Char} (bs : List UInt8)

theorem twoPasses_comment (h : m.comments c (bs.head?.map letter) = true) :
    twoPasses m (String.utf8EncodeChar c ++ bs) =
      encode (blankOut c) ++ twoPasses (m.next c) bs := by
  obtain ⟨hm, hnext⟩ := Mode.outside_of_comments h
  rw [twoPasses, blankComments_char, if_pos h, hm, dropCommas_blanks (blank_blankOut c), ← hnext]
  rfl

theorem twoPasses_kept (h : m.comments c (bs.head?.map letter) = false) :
    twoPasses m (String.utf8EncodeChar c ++ bs) =
      String.utf8EncodeChar (if c = ',' && m.quoting = .outside
        && closes (blankComments (m.next c) bs) then ' ' else c) ++ twoPasses (m.next c) bs := by
  rw [twoPasses, blankComments_char, h, if_neg (by simp), encode_cons, encode_nil, List.append_nil,
    dropCommas_char, Mode.next_quoting_of_not_comments h]
  rfl

end Step

/-! ### What closes next -/

theorem closes_char (c : Char) (bs : List UInt8) : closes (String.utf8EncodeChar c ++ bs) =
    if isJsonBlank c then closes bs else c = '}' || c = ']' := by
  rcases encode_cases c with ⟨b, hb, rfl⟩ | ⟨hc, hhigh⟩
  · rw [hb, List.singleton_append, closes, List.map_cons, List.dropWhile_cons]
    split
    · rfl
    · rfl
  · obtain ⟨b, hs, hbs⟩ := List.exists_cons_of_ne_nil (String.utf8EncodeChar_ne_nil (c := c))
    have hb := hhigh b (by simp [hbs])
    have hsolid {d : Char} (hd : 128 ≤ d.toNat) :
        isJsonBlank d = false ∧ (d = '}' || d = ']') = false := by
      constructor
      · rw [← Bool.not_eq_true, isJsonBlank_iff]
        rintro (rfl | rfl | rfl | rfl) <;> exact absurd hd (by decide)
      · simp [ne_of_high hd (d := '}') (by decide), ne_of_high hd (d := ']') (by decide)]
    rw [hbs, List.cons_append, closes, List.map_cons, List.dropWhile_cons, (hsolid hb).1,
      (hsolid hc).1, (hsolid hc).2]
    exact (hsolid hb).2

theorem closes_blanks {cs : List Char} (h : Blank cs) (bs : List UInt8) :
    closes (encode cs ++ bs) = closes bs := by
  induction cs with
  | nil => rfl
  | cons c cs ih =>
    rw [encode_cons, List.append_assoc, closes_char, if_pos (h c List.mem_cons_self),
      ih fun x hx => h x (List.mem_cons_of_mem c hx)]

section Step

variable {m : Mode} {c : Char} (bs : List UInt8)

theorem closes_comment (h : m.comments c (bs.head?.map letter) = true) :
    closes (blankComments m (String.utf8EncodeChar c ++ bs)) =
      closes (blankComments (m.next c) bs) := by
  rw [blankComments_char, if_pos h, closes_blanks (blank_blankOut c)]

theorem closes_kept (h : m.comments c (bs.head?.map letter) = false) :
    closes (blankComments m (String.utf8EncodeChar c ++ bs)) =
      if isJsonBlank c then closes (blankComments (m.next c) bs) else c = '}' || c = ']' := by
  rw [blankComments_char, h, if_neg (by simp), encode_cons, encode_nil, List.append_nil,
    closes_char]

end Step

/-! ### The scan and the two passes -/

/-- A scan that looks ahead stands in a region, and the bytes before tell the mode. A slash that
begins no comment and a star that ends none are known by what follows. -/
def Region.Agrees : Region → Mode → List Char → Prop
  | .plain, m, cs => m = .plain ∨ m = .slash ∧ cs.head? ≠ some '/' ∧ cs.head? ≠ some '*'
  | .text, m, cs => m = .text ∨ m = .escape ∧ cs = []
  | .lineComment, m, _ => m = .line
  | .blockComment, m, cs => m = .block ∨ m = .star ∧ cs.head? ≠ some '/'

section Agreement

variable {m : Mode} {c : Char} {rest : List Char}

/-- What begins no comment is left as it is. -/
theorem agrees_plain (h : Region.plain.Agrees m (c :: rest))
    (hopen : c = '/' → rest.head? ≠ some '/' ∧ rest.head? ≠ some '*') :
    m.comments c ((encode rest).head?.map letter) = false ∧
      (if c = '"' then Region.text else Region.plain).Agrees (m.next c) rest := by
  have hslash := @head?_encode rest '/' (by decide)
  have hstar := @head?_encode rest '*' (by decide)
  rcases h with rfl | ⟨rfl, hne⟩
  · by_cases hc : c = '/'
    · subst hc
      simp [Mode.comments, Mode.next, Mode.inComment, hslash, hstar, hopen rfl, Region.Agrees]
    · by_cases hquote : c = '"'
      · simp [Mode.comments, Mode.next, Mode.inComment, Region.Agrees, hquote]
      · simp [Mode.comments, Mode.next, Mode.inComment, Region.Agrees, hc, hquote]
  · simp only [List.head?_cons, ne_eq, Option.some.injEq] at hne
    by_cases hquote : c = '"'
    · simp [Mode.comments, Mode.next, Mode.inComment, Region.Agrees, hquote]
    · simp [Mode.comments, Mode.next, Mode.inComment, Region.Agrees, hne, hquote]

/-- A comment is taken out from its first mark on. -/
theorem opening_comments (h : Region.plain.Agrees m ('/' :: c :: rest)) (hc : c = '/' ∨ c = '*')
    (after : Option Char) :
    m.comments '/' ((encode (c :: rest)).head?.map letter) = true ∧
      (m.next '/').comments c after = true ∧
      (m.next '/').next c = if c = '/' then .line else .block := by
  have hplain : m = .plain := by
    rcases h with rfl | ⟨_, hne, _⟩
    · rfl
    · exact False.elim (hne rfl)
  have hafter : (encode (c :: rest)).head?.map letter = some c := by
    apply (head?_encode ?_).mpr rfl
    rcases hc with rfl | rfl <;> decide
  rw [hafter, hplain]
  rcases hc with rfl | rfl <;> simp [Mode.comments, Mode.next, Mode.inComment]

theorem agrees_block (h : Region.blockComment.Agrees m (c :: rest))
    (hopen : c = '*' → rest.head? ≠ some '/') (after : Option Char) :
    m.comments c after = true ∧ Region.blockComment.Agrees (m.next c) rest := by
  rcases h with rfl | ⟨rfl, hne⟩
  · by_cases hc : c = '*'
    · simp [Mode.comments, Mode.next, Mode.inComment, Region.Agrees, hc, hopen hc]
    · simp [Mode.comments, Mode.next, Mode.inComment, Region.Agrees, hc]
  · simp only [List.head?_cons, ne_eq, Option.some.injEq] at hne
    by_cases hc : c = '*'
    · simp [Mode.comments, Mode.next, Mode.inComment, Region.Agrees, hc, hopen hc]
    · simp [Mode.comments, Mode.next, Mode.inComment, Region.Agrees, hc, hne]

theorem closing_comments (h : Region.blockComment.Agrees m ('*' :: rest))
    (after after' : Option Char) :
    m.comments '*' after = true ∧ (m.next '*').comments '/' after' = true ∧
      (m.next '*').next '/' = .plain := by
  rcases h with rfl | ⟨rfl, _⟩ <;> simp [Mode.comments, Mode.next, Mode.inComment]

theorem line_comments (hc : c ≠ '\n') (after : Option Char) :
    Mode.line.comments c after = true ∧ Mode.line.next c = .line := by
  simp [Mode.comments, Mode.next, Mode.inComment, hc]

theorem text_not_comments (h : m.inText = true) (c : Char) (after : Option Char) :
    m.comments c after = false := by
  cases m with
  | text =>
    simp only [Mode.comments, Mode.next]
    split_ifs <;> rfl
  | escape => rfl
  | _ => cases h

/-- In a string nothing changes. -/
theorem twoPasses_text (h : m.inText = true) (bs : List UInt8) :
    twoPasses m (String.utf8EncodeChar c ++ bs) =
      String.utf8EncodeChar c ++ twoPasses (m.next c) bs := by
  have houtside : m.quoting ≠ .outside := by cases m <;> simp_all [Mode.inText, Mode.quoting]
  rw [twoPasses_kept _ (text_not_comments h c _), if_neg (by simp [houtside])]

end Agreement

theorem head?_ne {l : List Char} {x : Char} (h : ∀ rest, l = x :: rest → False) :
    l.head? ≠ some x := by
  intro hhead
  obtain ⟨rest, hrest⟩ := List.head?_eq_some_iff.mp hhead
  exact h rest hrest

/-- Looking for what closes next, past blanks and comments, is looking past blanks once the comments
are blanked out. -/
theorem closes_blankComments {r : Region} {m : Mode} {cs : List Char} (hr : r ≠ .text)
    (h : r.Agrees m cs) : closes (blankComments m (encode cs)) =
      (nextSolid r cs).any fun c => c = '}' || c = ']' := by
  fun_induction nextSolid r cs generalizing m with
  | case1 => rfl
  | case2 rest ih =>
    obtain rfl : m = .line := h
    rw [encode_cons, closes_kept _ rfl, if_pos (by decide)]
    exact ih (by simp) (Or.inl rfl)
  | case3 c rest hc ih =>
    obtain rfl : m = .line := h
    obtain ⟨hcomments, hnext⟩ := line_comments hc ((encode rest).head?.map letter)
    rw [encode_cons, closes_comment _ hcomments, hnext]
    exact ih hr rfl
  | case4 rest ih =>
    obtain ⟨hstar, hslash, hnext⟩ := closing_comments h ((encode ('/' :: rest)).head?.map letter)
      ((encode rest).head?.map letter)
    rw [encode_cons, closes_comment _ hstar, encode_cons, closes_comment _ hslash, hnext]
    exact ih (by simp) (Or.inl rfl)
  | case5 c rest hopen ih =>
    obtain ⟨hcomments, hnext⟩ := agrees_block h (fun hc => head?_ne fun s => hopen s hc)
      ((encode rest).head?.map letter)
    rw [encode_cons, closes_comment _ hcomments]
    exact ih hr hnext
  | case6 r rest hline hblock ih =>
    have hplain : r = .plain := by cases r <;> simp_all
    obtain ⟨hfirst, hsecond, hnext⟩ := opening_comments (hplain ▸ h) (Or.inl rfl)
      ((encode rest).head?.map letter)
    rw [encode_cons, closes_comment _ hfirst, encode_cons, closes_comment _ hsecond, hnext]
    exact ih (by simp) rfl
  | case7 r rest hline hblock ih =>
    have hplain : r = .plain := by cases r <;> simp_all
    obtain ⟨hfirst, hsecond, hnext⟩ := opening_comments (hplain ▸ h) (Or.inr rfl)
      ((encode rest).head?.map letter)
    rw [encode_cons, closes_comment _ hfirst, encode_cons, closes_comment _ hsecond, hnext]
    exact ih (by simp) (Or.inl rfl)
  | case8 r c rest _ hline _ hblock hslash hstar hblank ih =>
    have hplain : r = .plain := by cases r <;> simp_all
    obtain ⟨hkept, hnext⟩ := agrees_plain (hplain ▸ h)
      fun hc => ⟨head?_ne fun s => hslash s hc, head?_ne fun s => hstar s hc⟩
    have hquote : c ≠ '"' := by
      rintro rfl
      cases hblank
    rw [if_neg hquote] at hnext
    rw [encode_cons, closes_kept _ hkept, if_pos hblank]
    exact ih (by simp) hnext
  | case9 r c rest _ hline _ hblock hslash hstar hblank =>
    have hplain : r = .plain := by cases r <;> simp_all
    obtain ⟨hkept, _⟩ := agrees_plain (hplain ▸ h)
      fun hc => ⟨head?_ne fun s => hslash s hc, head?_ne fun s => hstar s hc⟩
    rw [encode_cons, closes_kept _ hkept, if_neg hblank]
    rfl

theorem closesNext_eq {m : Mode} {cs : List Char} (h : Region.plain.Agrees m cs) :
    closesNext cs = closes (blankComments m (encode cs)) := by
  rw [closes_blankComments (by simp) h, closesNext]
  cases nextSolid .plain cs <;> rfl

/-- Scanning with a look ahead is the same as both passes. -/
theorem encode_stripFrom {r : Region} {m : Mode} {cs : List Char} (h : r.Agrees m cs) :
    encode (stripFrom r cs) = twoPasses m (encode cs) := by
  fun_induction stripFrom r cs generalizing m with
  | case1 => rfl
  | case2 c rest ih =>
    obtain rfl : m = .text := by simpa [Region.Agrees] using h
    rw [encode_cons, encode_cons, encode_cons, encode_cons, twoPasses_text rfl, twoPasses_text rfl,
      ih (Or.inl rfl)]
    rfl
  | case3 c rest hback ih =>
    obtain rfl : m = .text := by simpa [Region.Agrees] using h
    rw [encode_cons, encode_cons, twoPasses_text rfl, ih]
    -- a backslash is escaped by nothing only at the end of the text
    by_cases hc : c = '\\'
    · have hrest : rest = [] := by
        cases rest with
        | nil => rfl
        | cons x rest => exact False.elim (hback x rest hc rfl)
      simp [hc, hrest, Region.Agrees, Mode.next]
    · by_cases hquote : c = '"'
      · simp [hquote, Region.Agrees, Mode.next]
      · simp [hc, hquote, Region.Agrees, Mode.next]
  | case4 rest ih =>
    obtain rfl : m = .line := h
    rw [encode_cons, encode_cons, twoPasses_kept _ rfl, ih (Or.inl rfl)]
    rfl
  | case5 c rest hc ih =>
    obtain rfl : m = .line := h
    obtain ⟨hcomments, hnext⟩ := line_comments hc ((encode rest).head?.map letter)
    rw [encode_append, encode_cons, twoPasses_comment _ hcomments, hnext, ih rfl]
  | case6 rest ih =>
    obtain ⟨hstar, hslash, hnext⟩ := closing_comments h ((encode ('/' :: rest)).head?.map letter)
      ((encode rest).head?.map letter)
    rw [encode_cons '*', twoPasses_comment _ hstar, encode_cons '/', twoPasses_comment _ hslash,
      hnext, encode_cons, encode_cons, ih (Or.inl rfl)]
    rfl
  | case7 c rest hopen ih =>
    obtain ⟨hcomments, hnext⟩ := agrees_block h (fun hc => head?_ne fun s => hopen s hc)
      ((encode rest).head?.map letter)
    rw [encode_append, encode_cons, twoPasses_comment _ hcomments, ih hnext]
  | case8 rest ih =>
    obtain ⟨hkept, hnext⟩ := agrees_plain h (by simp)
    rw [encode_cons, encode_cons, twoPasses_kept _ hkept, if_neg (by simp), ih hnext]
  | case9 rest ih =>
    obtain ⟨hfirst, hsecond, hnext⟩ := opening_comments h (Or.inl rfl)
      ((encode rest).head?.map letter)
    rw [encode_cons '/', twoPasses_comment _ hfirst, encode_cons '/', twoPasses_comment _ hsecond,
      hnext, encode_cons, encode_cons, ih rfl]
    rfl
  | case10 rest ih =>
    obtain ⟨hfirst, hsecond, hnext⟩ := opening_comments h (Or.inr rfl)
      ((encode rest).head?.map letter)
    rw [encode_cons '/', twoPasses_comment _ hfirst, encode_cons '*', twoPasses_comment _ hsecond,
      hnext, encode_cons, encode_cons, ih (Or.inl rfl)]
    rfl
  | case11 c rest hquote hslash hstar ih =>
    obtain ⟨hkept, hnext⟩ := agrees_plain h
      fun hc => ⟨head?_ne fun s => hslash s hc, head?_ne fun s => hstar s hc⟩
    rw [if_neg hquote] at hnext
    have houtside : m.quoting = .outside := by rcases h with rfl | ⟨rfl, _⟩ <;> rfl
    rw [encode_cons, encode_cons, twoPasses_kept _ hkept, houtside, closesNext_eq hnext, ih hnext]
    simp

theorem utf8_strip (s : String) : utf8 (strip s) = twoPasses .plain (utf8 s) := by
  rw [strip, utf8_ofList, utf8_eq_encode]
  exact encode_stripFrom (Or.inl rfl)

/-- Where in a commented text the byte with this number stands. -/
def modeAt (bs : List UInt8) (i : Nat) : Mode := ((bs.take i).map letter).foldl Mode.next .plain

/-- Taking comments and trailing commas out is blanking the comments first and then, outside
strings, the commas that have nothing to separate. Every byte keeps its place and is left as it is
or becomes a blank; line ends are left, and string literals with all that is in them. What comes out
of the bytes is always a text. -/
theorem strip_two_passes (s : String) :
    utf8 (strip s) = dropCommas .outside (blankComments .plain (utf8 s)) ∧
    (utf8 (strip s)).length = (utf8 s).length ∧
    (∀ i a b, (utf8 s)[i]? = some a → (utf8 (strip s))[i]? = some b →
      (b = a ∨ b = blank) ∧ (letter a = '\n' ∨ letter a = '\r' → b = a) ∧
      ((modeAt (utf8 s) i).quotes (letter a) = true → b = a)) ∧
    String.fromUTF8? ⟨(dropCommas .outside (blankComments .plain (utf8 s))).toArray⟩ =
      some (strip s) := by
  have hstrip := utf8_strip s
  have hkept : Kept .plain (utf8 s) (utf8 (strip s)) := hstrip ▸ kept_twoPasses _ _
  refine ⟨hstrip, hkept.length, ?_, ?_⟩
  · intro i a b ha hb
    rcases hkept.getElem? ha hb with rfl | ⟨rfl, hline, hreturn, hquotes⟩
    · simp
    · refine ⟨Or.inr rfl, fun h => ?_, fun h => ?_⟩
      · rcases h with h | h
        · exact False.elim (hline h)
        · exact False.elim (hreturn h)
      · have hfalse : (modeAt (utf8 s) i).quotes (letter a) = false := hquotes
        rw [hfalse] at h
        cases h
  · have h := fromUTF8?_utf8 (strip s)
    rwa [hstrip] at h

/-- The first byte of a long character in a string, before a comment that is not ended. -/
theorem strip_two_passes_accent : ∀ b, (utf8 (strip "\"é,]\" /*é"))[1]? = some b → b = 0xc3 := by
  intro b hb
  obtain ⟨_, _, hplaces, _⟩ := strip_two_passes "\"é,]\" /*é"
  exact (hplaces 1 0xc3 b (by decide +kernel) hb).2.2 (by decide +kernel)

end TypeOnly.Json
