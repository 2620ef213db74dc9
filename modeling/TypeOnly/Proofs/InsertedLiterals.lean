import Mathlib.Data.List.Forall2
import TypeOnly.Proofs.TextInsertion
import TypeOnly.Source.Token

/-!
What insertions make of a text. At every offset of the text stand the literals that are meant for
it, in the order in which they are given, and nothing else changes. So a literal stands at its
offset, moved by the literals that are placed before it, and without the literals the text is what
it was. Where an offset is inside a character or past the end, the smallest one of that kind is told
of.
-/

namespace TypeOnly

set_option autoImplicit false

open Source (bytesOf)
open Text (Span Boundary)

namespace Text

/-! ### Taking stretches out of a text -/

/-- The characters that begin in none of some spans, the first of them at an offset. -/
def outside (spans : List Span) : Nat → List Char → List Char
  | _, [] => []
  | offset, c :: cs =>
    if spans.any (·.holds offset) then outside spans (offset + c.utf8Size) cs
    else c :: outside spans (offset + c.utf8Size) cs

/-- A text without what some spans cover. -/
def without (spans : List Span) (text : String) : String :=
  String.ofList (outside spans 0 text.toList)

theorem outside_append {spans : List Span} {offset : Nat} {xs : List Char}
    (h : ∀ n, offset ≤ n → n < offset + bytesOf xs → spans.any (·.holds n) = true)
    (ys : List Char) :
    outside spans offset (xs ++ ys) = outside spans (offset + bytesOf xs) ys := by
  induction xs generalizing offset with
  | nil => rfl
  | cons c xs ih =>
    have hpos := c.utf8Size_pos
    rw [bytesOf] at h ⊢
    rw [List.cons_append, outside, if_pos (h offset (Nat.le_refl _) (by omega)), ← Nat.add_assoc]
    apply ih
    intro n hn hlt
    exact h n (by omega) (by omega)

end Text

namespace Insertion

/-! ### The text with the literals in it -/

/-- What is put at an offset: the literals that are meant for it, in the order of the list. -/
def literalsAt (is : List Insertion) (offset : Nat) : List Char :=
  (is.filter (·.offset = offset)).flatMap (·.literal.toList)

/-- A text that begins at an offset, with the literals before each of its characters and at its
end. -/
def weave (is : List Insertion) : Nat → List Char → List Char
  | offset, [] => literalsAt is offset
  | offset, c :: cs => literalsAt is offset ++ c :: weave is (offset + c.utf8Size) cs

/-- The same without what is put at the end. -/
def weaveOpen (is : List Insertion) : Nat → List Char → List Char
  | _, [] => []
  | offset, c :: cs => literalsAt is offset ++ c :: weaveOpen is (offset + c.utf8Size) cs

/-- How many bytes the literals take. -/
def room : List Insertion → Nat
  | [] => 0
  | i :: is => i.literal.utf8ByteSize + room is

/-- Where the literal of an insertion stands in the end, when other insertions come before and after
it in the list. Those at smaller offsets are placed before it, and of those at the same offset the
ones that come before it in the list. -/
def place (before : List Insertion) (i : Insertion) (after : List Insertion) : Span :=
  ⟨i.offset + room (before.filter (·.offset ≤ i.offset)) +
    room (after.filter (·.offset < i.offset)), i.literal.utf8ByteSize⟩

/-- Where the literals of insertions stand that come after others in the list. -/
def placesAfter (before : List Insertion) : List Insertion → List Span
  | [] => []
  | i :: after => place before i after :: placesAfter (before ++ [i]) after

/-- Where the literals stand in the end, in the order of the list. -/
def places (is : List Insertion) : List Span := placesAfter [] is

/-- A text in which all insertions have been made. -/
structure Spliced (text : String) (is : List Insertion) (result : String) : Prop where
  woven : result = String.ofList (weave is 0 text.toList)
  stands : List.Forall₂ (fun i span => Span.Covers span result i.literal) is (places is)
  restored : Text.without (places is) result = text
  size : result.utf8ByteSize = text.utf8ByteSize + room is

/-- What is told of an offset that is not between characters. -/
def misplaced (text : String) (offset : Nat) : SpliceError :=
  if offset ≤ text.utf8ByteSize then .insideCharacter offset
  else .outOfBounds offset text.utf8ByteSize

variable {is js : List Insertion} {offset : Nat}

theorem weave_congr {cs : List Char}
    (h : ∀ n, offset ≤ n → is.filter (·.offset = n) = js.filter (·.offset = n)) :
    weave is offset cs = weave js offset cs := by
  have hhere : literalsAt is offset = literalsAt js offset := by
    rw [literalsAt, literalsAt, h offset (Nat.le_refl _)]
  induction cs generalizing offset with
  | nil => exact hhere
  | cons c cs ih =>
    have hlater : ∀ n, offset + c.utf8Size ≤ n →
        is.filter (·.offset = n) = js.filter (·.offset = n) :=
      fun n hn => h n (Nat.le_of_add_right_le hn)
    rw [weave, weave, hhere, ih hlater]
    rw [literalsAt, literalsAt, hlater _ (Nat.le_refl _)]

theorem weave_append (xs ys : List Char) : weave is offset (xs ++ ys) =
    weaveOpen is offset xs ++ weave is (offset + bytesOf xs) ys := by
  induction xs generalizing offset with
  | nil => rfl
  | cons c xs ih =>
    rw [List.cons_append, weave, weaveOpen, ih, bytesOf, Nat.add_assoc]
    simp

theorem exists_weave (is : List Insertion) (offset : Nat) (cs : List Char) :
    ∃ rest, weave is offset cs = literalsAt is offset ++ rest := by
  cases cs with
  | nil => exact ⟨[], (List.append_nil _).symm⟩
  | cons c cs => exact ⟨_, rfl⟩

/-! ### Sorted insertions -/

/-- Insertions in the order of their offsets. -/
def Sorted (is : List Insertion) : Prop := is.Pairwise fun i j => i.offset ≤ j.offset

theorem offsets_trans (i j k : Insertion) (hij : decide (i.offset ≤ j.offset) = true)
    (hjk : decide (j.offset ≤ k.offset) = true) : decide (i.offset ≤ k.offset) = true := by
  simp only [decide_eq_true_eq] at *
  omega

theorem offsets_total (i j : Insertion) :
    (decide (i.offset ≤ j.offset) || decide (j.offset ≤ i.offset)) = true := by
  simp only [Bool.or_eq_true, decide_eq_true_eq]
  omega

theorem sort_sorted (is : List Insertion) : Sorted (sort is) := by
  have h := List.pairwise_mergeSort offsets_trans offsets_total is
  exact h.imp fun hij => of_decide_eq_true hij

theorem mem_sort {i : Insertion} : i ∈ sort is ↔ i ∈ is := List.mem_mergeSort

/-- Sorting keeps the order of the insertions at one offset. -/
theorem filter_sort (is : List Insertion) (n : Nat) :
    (sort is).filter (·.offset = n) = is.filter (·.offset = n) := by
  have hpairwise : (is.filter (·.offset = n)).Pairwise
      fun a b => decide (a.offset ≤ b.offset) = true := by
    apply List.pairwise_of_forall_mem_list
    intro a ha b hb
    have ha := (List.mem_filter.mp ha).2
    have hb := (List.mem_filter.mp hb).2
    simp only [decide_eq_true_eq] at ha hb ⊢
    omega
  have hsub : (is.filter (·.offset = n)).Sublist (sort is) :=
    List.sublist_mergeSort offsets_trans offsets_total hpairwise List.filter_sublist
  have hfilter := hsub.filter (·.offset = n)
  rw [List.filter_filter] at hfilter
  simp only [Bool.and_self] at hfilter
  have hperm : (sort is).Perm is := List.mergeSort_perm is _
  exact (hfilter.eq_of_length (hperm.filter _).length_eq.symm).symm

/-- Sorted insertions that agree at every offset are the same. -/
theorem Sorted.eq_of_filter (his : Sorted is) (hjs : Sorted js)
    (h : ∀ n, is.filter (·.offset = n) = js.filter (·.offset = n)) : is = js := by
  have hmem (k : Insertion) : k ∈ is ↔ k ∈ js := by
    have hk := congrArg (k ∈ ·) (h k.offset)
    simpa using hk
  induction is generalizing js with
  | nil =>
    cases js with
    | nil => rfl
    | cons j js => exact False.elim (List.not_mem_nil ((hmem j).mpr List.mem_cons_self))
  | cons i is ih =>
    cases js with
    | nil => exact False.elim (List.not_mem_nil ((hmem i).mp List.mem_cons_self))
    | cons j js =>
      obtain ⟨hi, hrest⟩ := List.pairwise_cons.mp his
      obtain ⟨hj, hrest'⟩ := List.pairwise_cons.mp hjs
      have hle : i.offset ≤ j.offset := by
        rcases List.mem_cons.mp ((hmem j).mpr List.mem_cons_self) with rfl | hmem
        · exact Nat.le_refl _
        · exact hi j hmem
      have hge : j.offset ≤ i.offset := by
        rcases List.mem_cons.mp ((hmem i).mp List.mem_cons_self) with rfl | hmem
        · exact Nat.le_refl _
        · exact hj i hmem
      have hhead := h i.offset
      rw [List.filter_cons_of_pos (by simp), List.filter_cons_of_pos (by simpa using by omega)]
        at hhead
      obtain ⟨rfl, hsame⟩ := List.cons.inj hhead
      have htail (n : Nat) : is.filter (·.offset = n) = js.filter (·.offset = n) := by
        by_cases hn : i.offset = n
        · rw [← hn]
          exact hsame
        · have hall := h n
          rwa [List.filter_cons_of_neg (by simpa using hn),
            List.filter_cons_of_neg (by simpa using hn)] at hall
      refine congrArg (i :: ·) (ih hrest hrest' htail ?_)
      intro k
      have hk := congrArg (k ∈ ·) (htail k.offset)
      simpa using hk

theorem Sorted.split (h : Sorted is) (hle : ∀ i ∈ is, offset ≤ i.offset) :
    is = is.filter (·.offset = offset) ++ is.filter (offset < ·.offset) := by
  induction is with
  | nil => rfl
  | cons i is ih =>
    obtain ⟨hi, his⟩ := List.pairwise_cons.mp h
    have hrest := ih his fun j hj => hle j (List.mem_cons_of_mem i hj)
    rcases Nat.lt_or_eq_of_le (hle i List.mem_cons_self) with hlt | heq
    · have hnone : (i :: is).filter (·.offset = offset) = [] := by
        apply List.filter_eq_nil_iff.mpr
        intro j hj
        rcases List.mem_cons.mp hj with rfl | hj
        · simpa using by omega
        · have hij := hi j hj
          simpa using by omega
      have hall : (i :: is).filter (offset < ·.offset) = i :: is := by
        apply List.filter_eq_self.mpr
        intro j hj
        rcases List.mem_cons.mp hj with rfl | hj
        · simpa using hlt
        · have hij := hi j hj
          simpa using by omega
      rw [hnone, hall, List.nil_append]
    · rw [List.filter_cons_of_pos (by simp [heq]), List.filter_cons_of_neg (by simp [heq]),
        List.cons_append, ← hrest]

/-! ### Splicing -/

theorem splice_append {here : List Insertion} (hhere : ∀ i ∈ here, i.offset = offset)
    (later : List Insertion) (cs : List Char) : splice (here ++ later) offset cs =
      (splice later offset cs).map (here.flatMap (·.literal.toList) ++ ·) := by
  induction here with
  | nil => cases hs : splice later offset cs <;> simp [hs, Except.map]
  | cons i here ih =>
    have hi := hhere i List.mem_cons_self
    rw [List.cons_append, ← hi, splice_here, hi, ih fun j hj => hhere j (List.mem_cons_of_mem i hj)]
    cases splice later offset cs <;> simp [Except.map]

/-- The literals at an offset come first, then the text goes on with the later insertions. -/
theorem Sorted.splice_split (h : Sorted is) (hle : ∀ i ∈ is, offset ≤ i.offset) (cs : List Char) :
    splice is offset cs = (splice (is.filter (offset < ·.offset)) offset cs).map
      (literalsAt is offset ++ ·) := by
  conv_lhs => rw [h.split hle]
  exact splice_append (fun i hi => by simpa using (List.mem_filter.mp hi).2) _ cs

theorem splice_past {i : Insertion} (h : offset < i.offset) (later : List Insertion) :
    splice (i :: later) offset [] = .error (.outOfBounds i.offset offset) := by
  unfold splice
  simp [List.dropWhile_cons_of_neg, Nat.ne_of_gt h]

theorem splice_inside {i : Insertion} {c : Char} (h : offset < i.offset)
    (hc : i.offset < offset + c.utf8Size) (later : List Insertion) (cs : List Char) :
    splice (i :: later) offset (c :: cs) = .error (.insideCharacter i.offset) := by
  unfold splice
  simp [List.dropWhile_cons_of_neg, Nat.ne_of_gt h, hc]

/-- Insertions between characters are all made, each at its offset. -/
theorem Sorted.splice_eq_weave {cs : List Char} (h : Sorted is)
    (hbounds : ∀ i ∈ is, i.offset ∈ Text.boundaries offset cs) :
    splice is offset cs = .ok (weave is offset cs) := by
  induction cs generalizing is offset with
  | nil =>
    have hhere (i : Insertion) (hi : i ∈ is) : i.offset = offset :=
      List.mem_singleton.mp (hbounds i hi)
    have hnone : is.filter (offset < ·.offset) = [] := by
      apply List.filter_eq_nil_iff.mpr
      intro i hi
      simp [hhere i hi]
    rw [h.splice_split (fun i hi => Nat.le_of_eq (hhere i hi).symm), hnone, splice_nil, weave]
    simp [Except.map]
  | cons c cs ih =>
    have hlater (i : Insertion) (hi : i ∈ is.filter (offset < ·.offset)) :
        i.offset ∈ Text.boundaries (offset + c.utf8Size) cs := by
      obtain ⟨hi, hlt⟩ := List.mem_filter.mp hi
      have hlt : offset < i.offset := by simpa using hlt
      rcases List.mem_cons.mp (hbounds i hi) with heq | hmem
      · omega
      · exact hmem
    have hsame : weave (is.filter (offset < ·.offset)) (offset + c.utf8Size) cs =
        weave is (offset + c.utf8Size) cs := by
      have hpos := c.utf8Size_pos
      apply weave_congr
      intro n hn
      rw [List.filter_filter]
      apply List.filter_congr
      intro i _
      simp only [← Bool.decide_and, decide_eq_decide]
      omega
    rw [h.splice_split fun i hi => (Text.boundaries_bounds (hbounds i hi)).1,
      splice_cons (fun i hi => by simpa using (List.mem_filter.mp hi).2)
        (fun i hi => (Text.boundaries_bounds (hlater i hi)).1),
      ih (h.sublist List.filter_sublist) hlater, hsame]
    rfl

theorem Sorted.exists_next {i : Insertion} (h : Sorted is) (hi : i ∈ is) (hlt : offset < i.offset) :
    ∃ next later, is.filter (offset < ·.offset) = next :: later ∧ next ∈ is ∧
      offset < next.offset ∧ ∀ j ∈ next :: later, next.offset ≤ j.offset := by
  have hmem : i ∈ is.filter (offset < ·.offset) := List.mem_filter.mpr ⟨hi, by simpa using hlt⟩
  have hsorted : Sorted (is.filter (offset < ·.offset)) := h.sublist List.filter_sublist
  cases hfilter : is.filter (offset < ·.offset) with
  | nil =>
    rw [hfilter] at hmem
    cases hmem
  | cons next later =>
    have hnext : next ∈ is.filter (offset < ·.offset) := hfilter ▸ List.mem_cons_self
    obtain ⟨hnext, hafter⟩ := List.mem_filter.mp hnext
    rw [hfilter] at hsorted
    refine ⟨next, later, rfl, hnext, by simpa using hafter, ?_⟩
    intro j hj
    rcases List.mem_cons.mp hj with rfl | hj
    · exact Nat.le_refl _
    · exact (List.pairwise_cons.mp hsorted).1 j hj

/-- The first insertion that is not between characters stops the splicing. -/
theorem Sorted.splice_eq_error {cs : List Char} {i : Insertion} (h : Sorted is)
    (hle : ∀ j ∈ is, offset ≤ j.offset) (hi : i ∈ is)
    (hout : i.offset ∉ Text.boundaries offset cs)
    (hmin : ∀ j ∈ is, j.offset ∉ Text.boundaries offset cs → i.offset ≤ j.offset) :
    splice is offset cs = .error (if i.offset ≤ offset + bytesOf cs then .insideCharacter i.offset
      else .outOfBounds i.offset (offset + bytesOf cs)) := by
  induction cs generalizing is offset with
  | nil =>
    have hge := hle i hi
    have hlt : offset < i.offset := by
      rw [Text.boundaries, List.mem_singleton] at hout
      omega
    obtain ⟨next, later, hfilter, hnext, hafter, hfirst⟩ := h.exists_next hi hlt
    have hsame : i.offset = next.offset := by
      apply Nat.le_antisymm
      · apply hmin next hnext
        rw [Text.boundaries, List.mem_singleton]
        omega
      · apply hfirst
        rw [← hfilter]
        exact List.mem_filter.mpr ⟨hi, by simpa using hlt⟩
    rw [h.splice_split hle, hfilter, splice_past hafter, hsame, bytesOf, if_neg (by omega)]
    rfl
  | cons c cs ih =>
    have hpos := c.utf8Size_pos
    have hge := hle i hi
    rw [Text.boundaries, List.mem_cons, not_or] at hout
    have hlt : offset < i.offset := by omega
    obtain ⟨next, later, hfilter, hnext, hafter, hfirst⟩ := h.exists_next hi hlt
    have hmem : i ∈ next :: later := by
      rw [← hfilter]
      exact List.mem_filter.mpr ⟨hi, by simpa using hlt⟩
    rw [h.splice_split hle, hfilter]
    by_cases hinside : next.offset < offset + c.utf8Size
    · have hsame : i.offset = next.offset := by
        apply Nat.le_antisymm
        · apply hmin next hnext
          rw [Text.boundaries, List.mem_cons, not_or]
          refine ⟨by omega, ?_⟩
          intro hmem
          have hbound := (Text.boundaries_bounds hmem).1
          omega
        · exact hfirst i hmem
      rw [splice_inside hafter hinside, hsame, bytesOf, if_pos (by omega)]
      rfl
    · have hlater (j : Insertion) (hj : j ∈ next :: later) : offset + c.utf8Size ≤ j.offset :=
        Nat.le_trans (Nat.not_lt.mp hinside) (hfirst j hj)
      have hsorted : Sorted (next :: later) := hfilter ▸ h.sublist List.filter_sublist
      have hmin' : ∀ j ∈ next :: later, j.offset ∉ Text.boundaries (offset + c.utf8Size) cs →
          i.offset ≤ j.offset := by
        intro j hj hnot
        apply hmin j
        · rw [← hfilter] at hj
          exact (List.mem_filter.mp hj).1
        · rw [Text.boundaries, List.mem_cons, not_or]
          have hbound := hlater j hj
          exact ⟨by omega, hnot⟩
      rw [splice_cons (fun j hj => Nat.lt_of_lt_of_le (by omega) (hlater j hj)) hlater,
        ih hsorted hlater hmem hout.2 hmin', bytesOf, Nat.add_assoc]
      rfl

/-! ### Places -/

theorem room_append (xs ys : List Insertion) : room (xs ++ ys) = room xs + room ys := by
  induction xs with
  | nil => simp [room]
  | cons i xs ih => rw [List.cons_append, room, room, ih, Nat.add_assoc]

theorem room_filter_add {p q r : Insertion → Bool}
    (h : ∀ i ∈ is, (r i = true ↔ p i = true ∨ q i = true) ∧ ¬ (p i = true ∧ q i = true)) :
    room (is.filter r) = room (is.filter p) + room (is.filter q) := by
  induction is with
  | nil => rfl
  | cons i is ih =>
    have hi := h i List.mem_cons_self
    have hrest := ih fun j hj => h j (List.mem_cons_of_mem i hj)
    cases hp : p i <;> cases hq : q i <;> cases hr : r i <;>
      simp [hp, hq, hr, room] at hi ⊢ <;> omega

theorem room_filter_le {p q : Insertion → Bool} (h : ∀ i ∈ is, p i = true → q i = true) :
    room (is.filter p) ≤ room (is.filter q) := by
  induction is with
  | nil => exact Nat.le_refl _
  | cons i is ih =>
    have hi := h i List.mem_cons_self
    have hrest := ih fun j hj => h j (List.mem_cons_of_mem i hj)
    cases hp : p i <;> cases hq : q i <;> simp [hp, hq, room] at hi ⊢ <;> omega

theorem bytesOf_literals (is : List Insertion) :
    bytesOf (is.flatMap (·.literal.toList)) = room is := by
  induction is with
  | nil => rfl
  | cons i is ih => rw [List.flatMap_cons, bytesOf_append, bytesOf_toList, ih, room]

/-- How many bytes are inserted before an offset. -/
def roomBelow (is : List Insertion) (offset : Nat) : Nat := room (is.filter (·.offset < offset))

/-- How many bytes are inserted at an offset. -/
def roomAt (is : List Insertion) (offset : Nat) : Nat := room (is.filter (·.offset = offset))

theorem bytesOf_literalsAt (is : List Insertion) (offset : Nat) :
    bytesOf (literalsAt is offset) = roomAt is offset := bytesOf_literals _

theorem roomBelow_zero (is : List Insertion) : roomBelow is 0 = 0 := by
  rw [roomBelow, List.filter_eq_nil_iff.mpr (by simp)]
  rfl

/-- Nothing is inserted inside a character. -/
theorem roomBelow_next {size : Nat} (hsize : 0 < size)
    (h : ∀ i ∈ is, i.offset ≤ offset ∨ offset + size ≤ i.offset) :
    roomBelow is (offset + size) = roomBelow is offset + roomAt is offset := by
  apply room_filter_add
  intro i hi
  have hoffset := h i hi
  simp only [decide_eq_true_eq]
  omega

theorem room_upTo (is : List Insertion) (n : Nat) :
    room (is.filter (·.offset ≤ n)) = roomBelow is n + roomAt is n := by
  apply room_filter_add
  intro i _
  simp only [decide_eq_true_eq]
  omega

theorem roomBelow_mono (is : List Insertion) {m n : Nat} (h : m < n) :
    roomBelow is m + roomAt is m ≤ roomBelow is n := by
  rw [← room_upTo]
  apply room_filter_le
  intro i _ hi
  simp only [decide_eq_true_eq] at hi ⊢
  omega

variable {before after : List Insertion} {i : Insertion}

theorem place_start (his : is = before ++ i :: after) : (place before i after).start =
    i.offset + roomBelow is i.offset + roomAt before i.offset := by
  have hbelow : roomBelow is i.offset = roomBelow before i.offset + roomBelow after i.offset := by
    rw [roomBelow, his, List.filter_append, List.filter_cons_of_neg (by simp), room_append]
    rfl
  have hstart : (place before i after).start = i.offset +
      room (before.filter (·.offset ≤ i.offset)) + roomBelow after i.offset := rfl
  rw [hstart, room_upTo, hbelow]
  omega

theorem room_before (his : is = before ++ i :: after) :
    roomAt before i.offset + i.literal.utf8ByteSize ≤ roomAt is i.offset := by
  unfold roomAt
  rw [his, List.filter_append, List.filter_cons_of_pos (by simp), room_append, room]
  omega

theorem mem_placesAfter {before after : List Insertion} {span : Span} :
    span ∈ placesAfter before after ↔ ∃ first i rest, after = first ++ i :: rest ∧
      span = place (before ++ first) i rest := by
  induction after generalizing before with
  | nil => simp [placesAfter]
  | cons j after ih =>
    rw [placesAfter, List.mem_cons, ih]
    constructor
    · rintro (rfl | ⟨first, i, rest, rfl, rfl⟩)
      · exact ⟨[], j, after, rfl, by rw [List.append_nil]⟩
      · exact ⟨j :: first, i, rest, rfl, by rw [List.append_assoc]; rfl⟩
    · rintro ⟨first, i, rest, hcons, rfl⟩
      cases first with
      | nil =>
        obtain ⟨rfl, rfl⟩ := List.cons.inj hcons
        exact Or.inl (by rw [List.append_nil])
      | cons x first =>
        obtain ⟨rfl, rfl⟩ := List.cons.inj hcons
        exact Or.inr ⟨first, i, rest, rfl, by rw [List.append_assoc]; rfl⟩

theorem mem_places {span : Span} : span ∈ places is ↔
    ∃ before i after, is = before ++ i :: after ∧ span = place before i after := mem_placesAfter

/-- No insertion from an offset on is inside a character or past the end. -/
def Between (is : List Insertion) (offset : Nat) (cs : List Char) : Prop :=
  ∀ i ∈ is, i.offset < offset ∨ i.offset ∈ Text.boundaries offset cs

theorem between_of_boundary {text : String} (h : ∀ i ∈ is, Boundary text i.offset) :
    Between is 0 text.toList := fun i hi => Or.inr (Text.boundary_iff.mp (h i hi))

theorem Between.next {c : Char} {cs : List Char} (h : Between is offset (c :: cs)) :
    Between is (offset + c.utf8Size) cs ∧
      roomBelow is (offset + c.utf8Size) = roomBelow is offset + roomAt is offset := by
  have hpos := c.utf8Size_pos
  constructor
  · intro i hi
    rcases Text.boundaries_cons (h i hi) with hle | hmem
    · exact Or.inl (by omega)
    · exact Or.inr hmem
  · apply roomBelow_next hpos
    intro i hi
    rcases Text.boundaries_cons (h i hi) with hle | hmem
    · exact Or.inl hle
    · exact Or.inr (Text.boundaries_bounds hmem).1

theorem bytesOf_weaveOpen {xs ys : List Char} (h : Between is offset (xs ++ ys)) :
    bytesOf (weaveOpen is offset xs) + roomBelow is offset =
      bytesOf xs + roomBelow is (offset + bytesOf xs) := by
  induction xs generalizing offset with
  | nil => rfl
  | cons c xs ih =>
    obtain ⟨hrest, hbelow⟩ := Between.next h
    have hlater := ih hrest
    rw [weaveOpen, bytesOf_append, bytesOf_literalsAt, bytesOf, bytesOf, ← Nat.add_assoc offset]
    omega

/-! ### What becomes of the text -/

variable {text : String}

theorem size_weave (h : ∀ i ∈ is, Boundary text i.offset) :
    bytesOf (weave is 0 text.toList) = text.utf8ByteSize + room is := by
  have hbetween := between_of_boundary h
  rw [← List.append_nil text.toList] at hbetween ⊢
  have hopen := bytesOf_weaveOpen hbetween
  have hnone := roomBelow_zero is
  have hall : room is = roomBelow is (0 + bytesOf text.toList) +
      roomAt is (0 + bytesOf text.toList) := by
    conv => lhs; rw [← List.filter_true is]
    apply room_filter_add
    intro i hi
    obtain ⟨_, hle⟩ := Text.boundaries_bounds (Text.boundary_iff.mp (h i hi))
    simp only [decide_eq_true_eq, true_iff]
    omega
  rw [weave_append, bytesOf_append, weave, bytesOf_literalsAt, hall, ← bytesOf_toList]
  omega

theorem place_covers (h : ∀ i ∈ is, Boundary text i.offset) (his : is = before ++ i :: after) :
    (place before i after).Covers (String.ofList (weave is 0 text.toList)) i.literal := by
  obtain ⟨first, last, htext, hoffset⟩ := Text.mem_boundaries.mp
    (Text.boundary_iff.mp (h i (by simp [his])))
  have hbetween := between_of_boundary h
  rw [htext] at hbetween
  have hopen := bytesOf_weaveOpen hbetween
  rw [← hoffset] at hopen
  have hnone := roomBelow_zero is
  obtain ⟨rest, hrest⟩ := exists_weave is i.offset last
  -- what is put at the offset is cut where the literal stands
  have hliterals : literalsAt is i.offset = literalsAt before i.offset ++
      (i.literal.toList ++ literalsAt after i.offset) := by
    rw [literalsAt, his, List.filter_append, List.filter_cons_of_pos (by simp),
      List.flatMap_append, List.flatMap_cons]
    rfl
  refine ⟨String.ofList (weaveOpen is 0 first ++ literalsAt before i.offset),
    String.ofList (literalsAt after i.offset ++ rest), ?_, ?_, rfl⟩
  · apply String.toList_injective
    rw [String.toList_append, String.toList_append, String.toList_ofList, String.toList_ofList,
      String.toList_ofList, htext, weave_append, ← hoffset, hrest, hliterals]
    simp
  · rw [size_ofList, bytesOf_append, bytesOf_literalsAt, place_start his]
    omega

theorem stands_placesAfter (h : ∀ i ∈ is, Boundary text i.offset) (his : is = before ++ after) :
    List.Forall₂ (fun i span => Span.Covers span (String.ofList (weave is 0 text.toList)) i.literal)
      after (placesAfter before after) := by
  induction after generalizing before with
  | nil => exact .nil
  | cons i after ih =>
    refine .cons (place_covers h his) (ih ?_)
    rw [his, List.append_assoc]
    rfl

/-- The places of the literals at an offset lie side by side. -/
theorem exists_placesAfter {n : Nat} (his : is = before ++ after)
    (hle : offset + roomBelow is offset + roomAt before offset ≤ n)
    (hlt : n < offset + roomBelow is offset + roomAt is offset) :
    ∃ span ∈ placesAfter before after, span.holds n = true := by
  induction after generalizing before with
  | nil =>
    rw [List.append_nil] at his
    rw [his] at hle hlt
    omega
  | cons i after ih =>
    have hnext : is = before ++ [i] ++ after := by
      rw [his, List.append_assoc]
      rfl
    have hroom : roomAt (before ++ [i]) offset = roomAt before offset + roomAt [i] offset := by
      unfold roomAt
      rw [List.filter_append, room_append]
    by_cases hi : i.offset = offset
    · have hstart := place_start his
      rw [hi] at hstart
      by_cases hhere : n < (place before i after).start + i.literal.utf8ByteSize
      · exact ⟨place before i after, List.mem_cons_self, Span.holds_iff.mpr ⟨by omega, hhere⟩⟩
      · have hone : roomAt [i] offset = i.literal.utf8ByteSize := by simp [roomAt, room, hi]
        obtain ⟨span, hspan, hholds⟩ := ih hnext (by omega)
        exact ⟨span, List.mem_cons_of_mem _ hspan, hholds⟩
    · have hnone : roomAt [i] offset = 0 := by simp [roomAt, room, hi]
      obtain ⟨span, hspan, hholds⟩ := ih hnext (by omega)
      exact ⟨span, List.mem_cons_of_mem _ hspan, hholds⟩

theorem outside_literals (is : List Insertion) (offset : Nat) (cs : List Char) :
    Text.outside (places is) (offset + roomBelow is offset) (literalsAt is offset ++ cs) =
      Text.outside (places is) (offset + roomBelow is offset + roomAt is offset) cs := by
  rw [← bytesOf_literalsAt]
  apply Text.outside_append
  intro n hle hlt
  rw [bytesOf_literalsAt] at hlt
  obtain ⟨span, hspan, hholds⟩ := exists_placesAfter (show is = [] ++ is from rfl) hle hlt
  exact List.any_eq_true.mpr ⟨span, hspan, hholds⟩

/-- The byte after the literals at an offset is in none of the places. -/
theorem not_holds_places (is : List Insertion) (offset : Nat) :
    (places is).any (·.holds (offset + roomBelow is offset + roomAt is offset)) = false := by
  apply List.any_eq_false.mpr
  intro span hspan hholds
  obtain ⟨before, i, after, his, rfl⟩ := mem_places.mp hspan
  obtain ⟨hle, hlt⟩ := Span.holds_iff.mp hholds
  have hstart := place_start his
  have hroom := room_before his
  have hlength : (place before i after).length = i.literal.utf8ByteSize := rfl
  rcases Nat.lt_trichotomy i.offset offset with hless | heq | hmore
  · have hmono := roomBelow_mono is hless
    omega
  · rw [heq] at hstart hroom
    omega
  · have hmono := roomBelow_mono is hmore
    omega

/-- Without the literals the text is what it was. -/
theorem outside_weave {cs : List Char} (h : Between is offset cs) :
    Text.outside (places is) (offset + roomBelow is offset) (weave is offset cs) = cs := by
  induction cs generalizing offset with
  | nil =>
    rw [weave, ← List.append_nil (literalsAt is offset), outside_literals]
    rfl
  | cons c cs ih =>
    obtain ⟨hrest, hbelow⟩ := h.next
    have hlater := ih hrest
    have hplace : offset + c.utf8Size + roomBelow is (offset + c.utf8Size) =
        offset + roomBelow is offset + roomAt is offset + c.utf8Size := by omega
    rw [hplace] at hlater
    rw [weave, outside_literals, Text.outside, not_holds_places, if_neg (by simp), hlater]

theorem spliced_weave (h : ∀ i ∈ is, Boundary text i.offset) :
    Spliced text is (String.ofList (weave is 0 text.toList)) := by
  refine ⟨rfl, stands_placesAfter h rfl, ?_, ?_⟩
  · have houtside := outside_weave (between_of_boundary h)
    rw [roomBelow_zero] at houtside
    rw [Text.without, String.toList_ofList, houtside, String.ofList_toList]
  · rw [size_ofList, size_weave h]

theorem exists_least_misplaced (h : ∃ i ∈ is, ¬ Boundary text i.offset) :
    ∃ i ∈ is, ¬ Boundary text i.offset ∧
      ∀ j ∈ is, ¬ Boundary text j.offset → i.offset ≤ j.offset := by
  have hmem (i : Insertion) : i ∈ (sort is).filter (fun i => ¬ Boundary text i.offset) ↔
      i ∈ is ∧ ¬ Boundary text i.offset := by
    rw [List.mem_filter, mem_sort, decide_eq_true_eq]
  have hsorted : Sorted ((sort is).filter fun i => ¬ Boundary text i.offset) :=
    (sort_sorted is).sublist List.filter_sublist
  cases hbad : (sort is).filter fun i => ¬ Boundary text i.offset with
  | nil =>
    obtain ⟨k, hk, hout⟩ := h
    exact False.elim (List.not_mem_nil (hbad ▸ (hmem k).mpr ⟨hk, hout⟩))
  | cons i rest =>
    rw [hbad] at hsorted
    obtain ⟨hi, hout⟩ := (hmem i).mp (hbad ▸ List.mem_cons_self)
    refine ⟨i, hi, hout, ?_⟩
    intro j hj hother
    have hj : j ∈ i :: rest := hbad ▸ (hmem j).mpr ⟨hj, hother⟩
    rcases List.mem_cons.mp hj with rfl | hj
    · exact Nat.le_refl _
    · exact (List.pairwise_cons.mp hsorted).1 j hj

/-- If all offsets are between characters, every literal is put at its offset, in the order of the
list, and nothing else changes. The order of the list matters only among insertions at the same
offset. If there are offsets that are not between characters, the smallest of them is told of. -/
theorem apply_splices_exactly (text : String) (is : List Insertion) :
    ((∀ i ∈ is, Boundary text i.offset) →
      ∃ result, apply text is = .ok result ∧ Spliced text is result) ∧
    (∀ js : List Insertion, (∀ n, js.filter (·.offset = n) = is.filter (·.offset = n)) →
      apply text js = apply text is) ∧
    ((∃ i ∈ is, ¬ Boundary text i.offset) →
      ∃ i ∈ is, ¬ Boundary text i.offset ∧
        (∀ j ∈ is, ¬ Boundary text j.offset → i.offset ≤ j.offset) ∧
        apply text is = .error (misplaced text i.offset)) := by
  refine ⟨?_, ?_, ?_⟩
  · intro h
    refine ⟨_, ?_, spliced_weave h⟩
    have hsplice : splice (sort is) 0 text.toList = .ok (weave (sort is) 0 text.toList) := by
      apply (sort_sorted is).splice_eq_weave
      intro i hi
      exact Text.boundary_iff.mp (h i (mem_sort.mp hi))
    rw [apply, hsplice, weave_congr fun n _ => filter_sort is n]
    rfl
  · intro js h
    have hsort : sort js = sort is := by
      apply (sort_sorted js).eq_of_filter (sort_sorted is)
      intro n
      rw [filter_sort, filter_sort, h]
    rw [apply, apply, hsort]
  · intro h
    obtain ⟨i, hi, hout, hmin⟩ := exists_least_misplaced h
    refine ⟨i, hi, hout, hmin, ?_⟩
    have hsplice := (sort_sorted is).splice_eq_error (fun j _ => Nat.zero_le j.offset)
      (mem_sort.mpr hi) (fun hmem => hout (Text.boundary_iff.mpr hmem))
      fun j hj hother => hmin j (mem_sort.mp hj) fun hb => hother (Text.boundary_iff.mp hb)
    rw [apply, hsplice, Nat.zero_add, bytesOf_toList]
    rfl

/-- Insertions around a letter of two bytes, not in the order of their offsets. -/
def accented : List Insertion :=
  [⟨3, "Y", .import_⟩, ⟨0, "ö", .import_⟩, ⟨3, "Z", .reExport⟩, ⟨1, "X", .import_⟩]

theorem apply_splices_exactly_accent :
    apply "aéb" accented = .ok "öaXéYZb" ∧ Spliced "aéb" accented "öaXéYZb" ∧
    apply "aéb" (⟨9, "!", .import_⟩ :: ⟨2, "?", .import_⟩ :: accented) =
      .error (.insideCharacter 2) := by
  obtain ⟨result, happly, hspliced⟩ := (apply_splices_exactly "aéb" accented).1 (by decide +kernel)
  obtain rfl : result = "öaXéYZb" := hspliced.woven.trans (by decide +kernel)
  refine ⟨happly, hspliced, ?_⟩
  have hbad : ∀ i ∈ (⟨9, "!", .import_⟩ :: ⟨2, "?", .import_⟩ :: accented : List Insertion),
      ¬ Boundary "aéb" i.offset → 2 ≤ i.offset := by decide +kernel
  have htwo : ¬ Boundary "aéb" 2 := by decide +kernel
  obtain ⟨i, hi, hnot, hmin, herror⟩ := (apply_splices_exactly "aéb"
    (⟨9, "!", .import_⟩ :: ⟨2, "?", .import_⟩ :: accented)).2.2 ⟨⟨2, "?", .import_⟩, by simp, htwo⟩
  have hoffset : i.offset = 2 :=
    Nat.le_antisymm (hmin ⟨2, "?", .import_⟩ (by simp) htwo) (hbad i hi hnot)
  rw [herror, hoffset]
  decide +kernel

end Insertion

end TypeOnly
