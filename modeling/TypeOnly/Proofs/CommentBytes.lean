import TypeOnly.Proofs.BlankedComments
import TypeOnly.Text.Lossy

/-!
Comments and trailing commas are taken out byte by byte. A byte of a longer character means nothing
to the scan, so that it gives the bytes of the text that a scan of the characters gives.
-/

namespace TypeOnly.Json

set_option autoImplicit false

open Scan (isJsonBlank)
open TypeOnly.Text (utf8 encode letter encode_nil encode_cons encode_append encode_cases
  letter_eq_iff ne_of_high head?_encode utf8_ofList utf8_eq_encode fromUTF8?_utf8)

/-! ### Scanning bytes -/

/-- The first byte that is neither blank nor part of a comment. -/
def nextSolidByte : Region → List UInt8 → Option UInt8
  | _, [] => none
  | .lineComment, 10 :: rest => nextSolidByte .plain rest
  | .lineComment, _ :: rest => nextSolidByte .lineComment rest
  | .blockComment, 42 :: 47 :: rest => nextSolidByte .plain rest
  | .blockComment, _ :: rest => nextSolidByte .blockComment rest
  | _, 47 :: 47 :: rest => nextSolidByte .lineComment rest
  | _, 47 :: 42 :: rest => nextSolidByte .blockComment rest
  | _, b :: rest =>
    if b = 32 || b = 9 || b = 10 || b = 13 then nextSolidByte .plain rest else some b

/-- Whether a comma before these bytes has nothing to separate. -/
def closesNextByte (rest : List UInt8) : Bool :=
  (nextSolidByte .plain rest).any fun b => b = 125 || b = 93

/-- Replaces comments and trailing commas by blanks. -/
def stripBytes : Region → List UInt8 → List UInt8
  | _, [] => []
  | .text, 92 :: b :: rest => 92 :: b :: stripBytes .text rest
  | .text, b :: rest => b :: stripBytes (if b = 34 then .plain else .text) rest
  | .lineComment, 10 :: rest => 10 :: stripBytes .plain rest
  | .lineComment, b :: rest => (if b = 13 then b else 32) :: stripBytes .lineComment rest
  | .blockComment, 42 :: 47 :: rest => 32 :: 32 :: stripBytes .plain rest
  | .blockComment, b :: rest =>
    (if b = 10 || b = 13 then b else 32) :: stripBytes .blockComment rest
  | .plain, 34 :: rest => 34 :: stripBytes .text rest
  | .plain, 47 :: 47 :: rest => 32 :: 32 :: stripBytes .lineComment rest
  | .plain, 47 :: 42 :: rest => 32 :: 32 :: stripBytes .blockComment rest
  | .plain, b :: rest =>
    (if b = 44 && closesNextByte rest then 32 else b) :: stripBytes .plain rest

/-- The text of the bytes that are left, read with replacements if they are no text. -/
def stripEncoded (s : String) : String :=
  let bytes : ByteArray := ⟨(stripBytes .plain (utf8 s)).toArray⟩
  (String.fromUTF8? bytes).getD (Text.lossy bytes)

/-! ### Bytes of longer characters -/

section High

attribute [local simp] stripBytes nextSolidByte

variable {b : UInt8} (h : 128 ≤ (letter b).toNat)
include h

theorem ne_of_high_byte {n : UInt8} (hn : (letter n).toNat < 128) : b ≠ n := by
  rintro rfl
  omega

theorem stripBytes_high (r : Region) (rest : List UInt8) : stripBytes r (b :: rest) =
    (if r = .plain ∨ r = .text then b else blank) :: stripBytes r rest := by
  have hquote : b ≠ 34 := ne_of_high_byte h (by decide)
  have hback : b ≠ 92 := ne_of_high_byte h (by decide)
  have hslash : b ≠ 47 := ne_of_high_byte h (by decide)
  have hstar : b ≠ 42 := ne_of_high_byte h (by decide)
  have hcomma : b ≠ 44 := ne_of_high_byte h (by decide)
  have hline : b ≠ 10 := ne_of_high_byte h (by decide)
  have hreturn : b ≠ 13 := ne_of_high_byte h (by decide)
  cases r with
  | plain => simp [*]
  | text => simp [*]
  | lineComment => simp [blank, *]
  | blockComment => simp [blank, *]

theorem nextSolidByte_high (r : Region) (rest : List UInt8) : nextSolidByte r (b :: rest) =
    if r = .plain ∨ r = .text then some b else nextSolidByte r rest := by
  have hslash : b ≠ 47 := ne_of_high_byte h (by decide)
  have hstar : b ≠ 42 := ne_of_high_byte h (by decide)
  have hline : b ≠ 10 := ne_of_high_byte h (by decide)
  have hreturn : b ≠ 13 := ne_of_high_byte h (by decide)
  have hblank : b ≠ 32 := ne_of_high_byte h (by decide)
  have htab : b ≠ 9 := ne_of_high_byte h (by decide)
  cases r with
  | plain => simp [*]
  | text => simp [*]
  | lineComment => simp [*]
  | blockComment => simp [*]

end High

section Highs

variable {hs : List UInt8} (h : ∀ b ∈ hs, 128 ≤ (letter b).toNat) (bs : List UInt8)
include h

theorem stripBytes_highs (r : Region) : stripBytes r (hs ++ bs) =
    (if r = .plain ∨ r = .text then hs else List.replicate hs.length blank)
      ++ stripBytes r bs := by
  induction hs with
  | nil => simp
  | cons b hs ih =>
    rw [List.cons_append, stripBytes_high (h b List.mem_cons_self),
      ih fun x hx => h x (List.mem_cons_of_mem b hx)]
    split <;> simp [List.replicate_succ]

theorem nextSolidByte_highs {r : Region} (hr : r = .lineComment ∨ r = .blockComment) :
    nextSolidByte r (hs ++ bs) = nextSolidByte r bs := by
  induction hs with
  | nil => rfl
  | cons b hs ih =>
    rw [List.cons_append, nextSolidByte_high (h b List.mem_cons_self),
      if_neg (by rcases hr with rfl | rfl <;> simp), ih fun x hx => h x (List.mem_cons_of_mem b hx)]

end Highs

/-! ### One character -/

section Step

variable {c : Char} (bs : List UInt8)

/-- What is escaped in a string is a whole character. -/
theorem stripBytes_escape (c : Char) : stripBytes .text (92 :: (String.utf8EncodeChar c ++ bs)) =
    92 :: (String.utf8EncodeChar c ++ stripBytes .text bs) := by
  rcases encode_cases c with ⟨b, hb, _⟩ | ⟨_, hhigh⟩
  · rw [hb]
    rfl
  · obtain ⟨b, hs, hbs⟩ := List.exists_cons_of_ne_nil (String.utf8EncodeChar_ne_nil (c := c))
    rw [hbs] at hhigh ⊢
    rw [List.cons_append, stripBytes,
      stripBytes_highs fun x hx => hhigh x (List.mem_cons_of_mem b hx), if_pos (Or.inr rfl)]
    rfl

theorem stripBytes_text (hc : c = '\\' → bs = []) :
    stripBytes .text (String.utf8EncodeChar c ++ bs) =
      String.utf8EncodeChar c ++ stripBytes (if c = '"' then .plain else .text) bs := by
  rcases encode_cases c with ⟨b, hb, rfl⟩ | ⟨hc, hhigh⟩
  · have hback : b = 92 → bs = [] := fun he => hc ((letter_eq_iff (by decide)).mpr he)
    have hquote : letter b = '"' ↔ b = 34 := letter_eq_iff (by decide)
    rw [hb, List.singleton_append, List.singleton_append, stripBytes]
    · simp only [hquote]
    · intro x rest he hrest
      simp [hback he] at hrest
  · rw [stripBytes_highs hhigh, if_pos (Or.inr rfl), if_neg (ne_of_high hc (by decide))]

theorem stripBytes_line (hc : c ≠ '\n') :
    stripBytes .lineComment (String.utf8EncodeChar c ++ bs) =
      encode (blankOut c) ++ stripBytes .lineComment bs := by
  have hsize := String.length_utf8EncodeChar c
  rcases encode_cases c with ⟨b, hb, rfl⟩ | ⟨hhigh, hbytes⟩
  · have hline : b ≠ 10 := fun he => hc ((letter_eq_iff (by decide)).mpr he)
    rw [hb] at hsize
    rw [hb, List.singleton_append, stripBytes]
    swap
    · exact hline
    by_cases hreturn : letter b = '\r'
    · have hb' : b = 13 := (letter_eq_iff (by decide)).mp hreturn
      rw [blankOut_line (Or.inr hreturn), if_pos hb', encode_cons, hb]
      rfl
    · have hb' : b ≠ 13 := fun he => hreturn ((letter_eq_iff (by decide)).mpr he)
      rw [encode_blankOut hc hreturn, if_neg hb', ← hsize]
      rfl
  · rw [stripBytes_highs hbytes, if_neg (by simp), hsize,
      encode_blankOut hc (ne_of_high hhigh (by decide))]

theorem stripBytes_block (hc : c = '*' → bs.head?.map letter ≠ some '/') :
    stripBytes .blockComment (String.utf8EncodeChar c ++ bs) =
      encode (blankOut c) ++ stripBytes .blockComment bs := by
  have hsize := String.length_utf8EncodeChar c
  rcases encode_cases c with ⟨b, hb, rfl⟩ | ⟨hhigh, hbytes⟩
  · have hend (rest : List UInt8) (hstar : b = 42) : bs ≠ 47 :: rest := by
      rintro rfl
      exact hc ((letter_eq_iff (by decide)).mpr hstar) rfl
    have hline : letter b = '\n' ↔ b = 10 := letter_eq_iff (by decide)
    have hreturn : letter b = '\r' ↔ b = 13 := letter_eq_iff (by decide)
    rw [hb] at hsize
    rw [hb, List.singleton_append, stripBytes]
    swap
    · exact hend
    by_cases hkept : letter b = '\n' ∨ letter b = '\r'
    · have hb' : b = 10 ∨ b = 13 := by rwa [hline, hreturn] at hkept
      rw [blankOut_line hkept, if_pos (by simpa using hb'), encode_cons, hb]
      rfl
    · have hb' : ¬ (b = 10 ∨ b = 13) := by rwa [hline, hreturn] at hkept
      rw [not_or] at hkept
      rw [encode_blankOut hkept.1 hkept.2, if_neg (by simpa using hb'), ← hsize]
      rfl
  · rw [stripBytes_highs hbytes, if_neg (by simp), hsize,
      encode_blankOut (ne_of_high hhigh (by decide)) (ne_of_high hhigh (by decide))]

theorem stripBytes_plain (hquote : c ≠ '"')
    (hslash : c = '/' → bs.head?.map letter ≠ some '/' ∧ bs.head?.map letter ≠ some '*') :
    stripBytes .plain (String.utf8EncodeChar c ++ bs) =
      String.utf8EncodeChar (if c = ',' && closesNextByte bs then ' ' else c)
        ++ stripBytes .plain bs := by
  rcases encode_cases c with ⟨b, hb, rfl⟩ | ⟨hhigh, hbytes⟩
  · have hcomma : letter b = ',' ↔ b = 44 := letter_eq_iff (by decide)
    rw [hb, List.singleton_append, stripBytes]
    · simp only [hcomma]
      split
      · rfl
      · rw [hb]
        rfl
    · exact fun he => hquote ((letter_eq_iff (by decide)).mpr he)
    · rintro rest he rfl
      exact (hslash ((letter_eq_iff (by decide)).mpr he)).1 rfl
    · rintro rest he rfl
      exact (hslash ((letter_eq_iff (by decide)).mpr he)).2 rfl
  · have hcomma : c ≠ ',' := ne_of_high hhigh (by decide)
    rw [stripBytes_highs hbytes, if_pos (Or.inl rfl), if_neg (by simp [hcomma])]

theorem nextSolidByte_line (hc : c ≠ '\n') :
    nextSolidByte .lineComment (String.utf8EncodeChar c ++ bs) = nextSolidByte .lineComment bs := by
  rcases encode_cases c with ⟨b, hb, rfl⟩ | ⟨_, hbytes⟩
  · rw [hb, List.singleton_append, nextSolidByte]
    exact fun he => hc ((letter_eq_iff (by decide)).mpr he)
  · exact nextSolidByte_highs hbytes bs (Or.inl rfl)

theorem nextSolidByte_block (hc : c = '*' → bs.head?.map letter ≠ some '/') :
    nextSolidByte .blockComment (String.utf8EncodeChar c ++ bs) =
      nextSolidByte .blockComment bs := by
  rcases encode_cases c with ⟨b, hb, rfl⟩ | ⟨_, hbytes⟩
  · rw [hb, List.singleton_append, nextSolidByte]
    rintro rest he rfl
    exact hc ((letter_eq_iff (by decide)).mpr he) rfl
  · exact nextSolidByte_highs hbytes bs (Or.inr rfl)

theorem closes_nextSolidByte {r : Region} (hr : r = .plain ∨ r = .text)
    (hslash : c = '/' → bs.head?.map letter ≠ some '/' ∧ bs.head?.map letter ≠ some '*') :
    (nextSolidByte r (String.utf8EncodeChar c ++ bs)).any (fun b => b = 125 || b = 93) =
      if isJsonBlank c then closesNextByte bs else c = '}' || c = ']' := by
  rcases encode_cases c with ⟨b, hb, rfl⟩ | ⟨hhigh, hbytes⟩
  · have hblank : isJsonBlank (letter b) = (b = 32 || b = 9 || b = 10 || b = 13) := by
      rw [Bool.eq_iff_iff, isJsonBlank_iff, letter_eq_iff (n := 32) (by decide),
        letter_eq_iff (n := 10) (by decide), letter_eq_iff (n := 9) (by decide),
        letter_eq_iff (n := 13) (by decide)]
      simp only [Bool.or_eq_true, decide_eq_true_eq]
      tauto
    have hbrace : letter b = '}' ↔ b = 125 := letter_eq_iff (by decide)
    have hbracket : letter b = ']' ↔ b = 93 := letter_eq_iff (by decide)
    rw [hb, List.singleton_append, nextSolidByte]
    · simp only [hblank, hbrace, hbracket]
      split
      · rfl
      · rfl
    · rintro rest he rfl
      exact (hslash ((letter_eq_iff (by decide)).mpr he)).1 rfl
    · rintro rest he rfl
      exact (hslash ((letter_eq_iff (by decide)).mpr he)).2 rfl
    all_goals rcases hr with rfl | rfl <;> simp
  · obtain ⟨b, hs, hbs⟩ := List.exists_cons_of_ne_nil (String.utf8EncodeChar_ne_nil (c := c))
    have hb := hbytes b (by simp [hbs])
    have hblank : isJsonBlank c = false := by
      rw [← Bool.not_eq_true, isJsonBlank_iff]
      rintro (rfl | rfl | rfl | rfl) <;> exact absurd hhigh (by decide)
    rw [hbs, List.cons_append, nextSolidByte_high hb, if_pos hr, hblank, if_neg (by simp)]
    simp [ne_of_high_byte hb (n := 125) (by decide), ne_of_high_byte hb (n := 93) (by decide),
      ne_of_high hhigh (d := '}') (by decide), ne_of_high hhigh (d := ']') (by decide)]

end Step

/-! ### Whole texts -/

theorem head?_encode_ne {cs : List Char} {x : Char} (hx : x.toNat < 128)
    (h : ∀ rest, cs = x :: rest → False) : (encode cs).head?.map letter ≠ some x := by
  rw [Ne, head?_encode hx]
  exact head?_ne h

/-- A slash that begins no comment of the text begins none of its bytes. -/
theorem slash_encode {c : Char} {cs : List Char}
    (hslash : ∀ rest, c = '/' → cs = '/' :: rest → False)
    (hstar : ∀ rest, c = '/' → cs = '*' :: rest → False) (hc : c = '/') :
    (encode cs).head?.map letter ≠ some '/' ∧ (encode cs).head?.map letter ≠ some '*' :=
  ⟨head?_encode_ne (by decide) fun rest => hslash rest hc,
    head?_encode_ne (by decide) fun rest => hstar rest hc⟩

theorem closes_encode (r : Region) (cs : List Char) :
    (nextSolidByte r (encode cs)).any (fun b => b = 125 || b = 93) =
      (nextSolid r cs).any (fun c => c = '}' || c = ']') := by
  fun_induction nextSolid r cs with
  | case1 => simp [nextSolidByte]
  | case2 rest ih => exact ih
  | case3 c rest hc ih =>
    rw [encode_cons, nextSolidByte_line _ hc]
    exact ih
  | case4 rest ih => exact ih
  | case5 c rest hend ih =>
    rw [encode_cons, nextSolidByte_block]
    · exact ih
    · exact fun hc => head?_encode_ne (by decide) fun s => hend s hc
  | case6 r rest hline hblock ih =>
    cases r with
    | plain => exact ih
    | text => exact ih
    | lineComment => exact False.elim (hline rfl)
    | blockComment => exact False.elim (hblock rfl)
  | case7 r rest hline hblock ih =>
    cases r with
    | plain => exact ih
    | text => exact ih
    | lineComment => exact False.elim (hline rfl)
    | blockComment => exact False.elim (hblock rfl)
  | case8 r c rest _ hline _ hblock hslash hstar hblank ih =>
    rw [encode_cons, closes_nextSolidByte]
    · rw [if_pos hblank]
      exact ih
    · cases r <;> simp_all
    · exact slash_encode hslash hstar
  | case9 r c rest _ hline _ hblock hslash hstar hblank =>
    rw [encode_cons, closes_nextSolidByte]
    · rw [if_neg hblank]
      rfl
    · cases r <;> simp_all
    · exact slash_encode hslash hstar

theorem closesNextByte_encode (cs : List Char) : closesNextByte (encode cs) = closesNext cs := by
  rw [closesNextByte, closes_encode, closesNext]
  cases nextSolid .plain cs <;> rfl

theorem stripBytes_encode (r : Region) (cs : List Char) :
    stripBytes r (encode cs) = encode (stripFrom r cs) := by
  fun_induction stripFrom r cs with
  | case1 => simp [stripBytes]
  | case2 c rest ih =>
    have hback : String.utf8EncodeChar '\\' = [92] := by decide
    simp only [encode_cons, hback, List.singleton_append]
    rw [stripBytes_escape, ih]
  | case3 c rest hend ih =>
    rw [encode_cons, stripBytes_text, ih, encode_cons]
    intro hc
    cases rest with
    | nil => rfl
    | cons d rest => exact False.elim (hend d rest hc rfl)
  | case4 rest ih => exact congrArg (10 :: ·) ih
  | case5 c rest hc ih => rw [encode_cons, stripBytes_line _ hc, ih, encode_append]
  | case6 rest ih => exact congrArg (32 :: 32 :: ·) ih
  | case7 c rest hend ih =>
    rw [encode_cons, stripBytes_block, ih, encode_append]
    exact fun hc => head?_encode_ne (by decide) fun s => hend s hc
  | case8 rest ih => exact congrArg (34 :: ·) ih
  | case9 rest ih => exact congrArg (32 :: 32 :: ·) ih
  | case10 rest ih => exact congrArg (32 :: 32 :: ·) ih
  | case11 c rest hquote hslash hstar ih =>
    rw [encode_cons, stripBytes_plain, closesNextByte_encode, ih, encode_cons]
    · exact hquote
    · exact slash_encode hslash hstar

/-- The scan of the bytes gives the bytes of the scanned text. -/
theorem stripBytes_utf8 (s : String) : stripBytes .plain (utf8 s) = utf8 (strip s) := by
  rw [utf8_eq_encode, stripBytes_encode, strip, utf8_ofList]

/-- What the scan of the bytes leaves is a text, and none of it is replaced. -/
theorem stripEncoded_eq (s : String) : stripEncoded s = strip s := by
  rw [stripEncoded, stripBytes_utf8, fromUTF8?_utf8]
  rfl

end TypeOnly.Json
