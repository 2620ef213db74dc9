import Mathlib.Data.List.Induction
import TypeOnly.Proofs.InsertedLiterals

/-!
Lines and columns. The position of an offset counts the line breaks that start before it, and the
characters from the last of them on. So later places between characters have later positions, an
offset inside a character has the position after it, and all offsets past the end have the position
of the end.
-/

namespace TypeOnly.Text

set_option autoImplicit false

open Source (bytesOf)
open Text.Span (takeBytes takeBytes_append)

/-! ### Characters and their offsets -/

/-- Characters with their offsets, the first of them at an offset. -/
def placed : Nat → List Char → List (Nat × Char)
  | _, [] => []
  | offset, c :: cs => (offset, c) :: placed (offset + c.utf8Size) cs

theorem le_of_mem_placed {offset : Nat} {cs : List Char} {x : Nat × Char}
    (h : x ∈ placed offset cs) : offset ≤ x.1 := by
  induction cs generalizing offset with
  | nil => cases h
  | cons c cs ih =>
    rcases List.mem_cons.mp h with rfl | h
    · exact Nat.le_refl _
    · exact Nat.le_trans (Nat.le_add_right _ _) (ih h)

theorem placed_pairwise (offset : Nat) (cs : List Char) :
    (placed offset cs).Pairwise fun x y => x.1 < y.1 := by
  induction cs generalizing offset with
  | nil => exact List.Pairwise.nil
  | cons c cs ih =>
    refine List.pairwise_cons.mpr ⟨fun x hx => ?_, ih _⟩
    have hpos := c.utf8Size_pos
    have hle := le_of_mem_placed hx
    omega

/-- The characters of a text that start before an offset. -/
def startingBefore (text : String) (offset : Nat) : List (Nat × Char) :=
  (placed 0 text.toList).filter fun x => x.1 < offset

/-- The line breaks among some characters. -/
def breaks (xs : List (Nat × Char)) : List (Nat × Char) := xs.filter fun x => x.2 = '\n'

/-- The characters after the last line break among some characters. -/
def lastLine (xs : List (Nat × Char)) : List (Nat × Char) :=
  xs.filter fun x => (breaks xs).all fun b => b.1 < x.1

theorem breaks_concat_break {xs : List (Nat × Char)} {x : Nat × Char} (hx : x.2 = '\n') :
    breaks (xs ++ [x]) = breaks xs ++ [x] := by
  simp [breaks, hx]

theorem breaks_concat_other {xs : List (Nat × Char)} {x : Nat × Char} (hx : x.2 ≠ '\n') :
    breaks (xs ++ [x]) = breaks xs := by
  simp [breaks, hx]

theorem lastLine_concat_break {xs : List (Nat × Char)} {x : Nat × Char} (hx : x.2 = '\n')
    (h : ∀ y ∈ xs, y.1 < x.1) : lastLine (xs ++ [x]) = [] := by
  rw [lastLine, breaks_concat_break hx, List.filter_eq_nil_iff]
  intro y hy
  have hle : y.1 ≤ x.1 := by
    rcases List.mem_append.mp hy with hy | hy
    · exact Nat.le_of_lt (h y hy)
    · exact Nat.le_of_eq (congrArg Prod.fst (List.mem_singleton.mp hy))
  simp [hle]

theorem lastLine_concat_other {xs : List (Nat × Char)} {x : Nat × Char} (hx : x.2 ≠ '\n')
    (h : ∀ y ∈ xs, y.1 < x.1) : lastLine (xs ++ [x]) = lastLine xs ++ [x] := by
  have hall : ((breaks xs).all fun b => b.1 < x.1) = true := by
    rw [List.all_eq_true]
    intro b hb
    exact decide_eq_true (h b (List.mem_filter.mp hb).1)
  rw [lastLine, breaks_concat_other hx, List.filter_append]
  exact congrArg (lastLine xs ++ ·) (List.filter_cons_of_pos hall)

/-! ### The characters that start within some bytes -/

theorem takeBytes_eq_placed (offset n : Nat) (cs : List Char) :
    takeBytes n cs = ((placed offset cs).filter fun x => x.1 < offset + n).map Prod.snd := by
  induction cs generalizing offset n with
  | nil => cases n <;> rfl
  | cons c cs ih =>
    have hpos := c.utf8Size_pos
    cases n with
    | zero =>
      have hnone : (placed offset (c :: cs)).filter (fun x => x.1 < offset + 0) = [] := by
        rw [List.filter_eq_nil_iff]
        intro x hx
        have hle := le_of_mem_placed hx
        simpa using hle
      rw [hnone]
      rfl
    | succ n =>
      have hrest : (placed (offset + c.utf8Size) cs).filter
            (fun x => x.1 < offset + c.utf8Size + (n + 1 - c.utf8Size)) =
          (placed (offset + c.utf8Size) cs).filter fun x => x.1 < offset + (n + 1) := by
        apply List.filter_congr
        intro x hx
        have hle := le_of_mem_placed hx
        rw [decide_eq_decide]
        omega
      rw [takeBytes, placed, List.filter_cons_of_pos (by simp), List.map_cons,
        ih (offset + c.utf8Size), hrest]

theorem exists_takeBytes (n : Nat) (cs : List Char) : ∃ rest, cs = takeBytes n cs ++ rest := by
  induction cs generalizing n with
  | nil => exact ⟨[], by cases n <;> rfl⟩
  | cons c cs ih =>
    cases n with
    | zero => exact ⟨c :: cs, rfl⟩
    | succ n =>
      obtain ⟨rest, hrest⟩ := ih (n + 1 - c.utf8Size)
      refine ⟨rest, ?_⟩
      rw [takeBytes, List.cons_append, ← hrest]

/-- They reach at least as far as the bytes do. -/
theorem le_bytesOf_takeBytes {n : Nat} {cs : List Char} (h : n ≤ bytesOf cs) :
    n ≤ bytesOf (takeBytes n cs) := by
  induction cs generalizing n with
  | nil => cases n <;> exact h
  | cons c cs ih =>
    cases n with
    | zero => exact Nat.zero_le _
    | succ n =>
      rw [bytesOf] at h
      have hrest := ih (n := n + 1 - c.utf8Size) (by omega)
      rw [takeBytes, bytesOf]
      omega

/-- They reach no further than any characters that reach as far as the bytes do. -/
theorem bytesOf_takeBytes_le {n : Nat} {before : List Char} (h : n ≤ bytesOf before)
    (after : List Char) : bytesOf (takeBytes n (before ++ after)) ≤ bytesOf before := by
  induction before generalizing n with
  | nil =>
    obtain rfl : n = 0 := Nat.le_zero.mp h
    cases after <;> exact Nat.le_refl _
  | cons c before ih =>
    cases n with
    | zero => exact Nat.zero_le _
    | succ n =>
      rw [bytesOf] at h ⊢
      rw [List.cons_append, takeBytes, bytesOf]
      exact Nat.add_le_add_left (ih (by omega)) _

theorem takeBytes_of_le {n : Nat} {cs : List Char} (h : bytesOf cs ≤ n) : takeBytes n cs = cs := by
  induction cs generalizing n with
  | nil => cases n <;> rfl
  | cons c cs ih =>
    have hpos := c.utf8Size_pos
    rw [bytesOf] at h
    obtain ⟨n, rfl⟩ : ∃ m, n = m + 1 := ⟨n - 1, by omega⟩
    rw [takeBytes, ih (by omega)]

/-! ### Positions after some characters -/

namespace Position

/-- A position comes before another one: its line does, or it is in the same line and its column
does. -/
def Before (p q : Position) : Prop := p.line < q.line ∨ p.line = q.line ∧ p.column < q.column

theorem Before.trans {p q r : Position} (hpq : p.Before q) (hqr : q.Before r) : p.Before r := by
  unfold Before at *
  omega

theorem Before.ne {p q : Position} (h : p.Before q) : p ≠ q := by
  rintro rfl
  unfold Before at h
  omega

theorem before_step (p : Position) (c : Char) : p.Before (p.step c) := by
  unfold step Before
  split
  · exact Or.inl (Nat.lt_succ_self _)
  · exact Or.inr ⟨rfl, Nat.lt_succ_self _⟩

theorem before_steps (p : Position) {cs : List Char} (h : cs ≠ []) :
    p.Before (cs.foldl step p) := by
  induction cs generalizing p with
  | nil => exact (h rfl).elim
  | cons c cs ih =>
    rw [List.foldl_cons]
    by_cases hcs : cs = []
    · rw [hcs]
      exact before_step p c
    · exact (before_step p c).trans (ih (p.step c) hcs)

theorem walk_eq_foldl (p : Position) (cs : List Char) (n : Nat) :
    walk p cs n = (takeBytes n cs).foldl step p := by
  induction cs generalizing p n with
  | nil => cases n <;> rfl
  | cons c cs ih =>
    cases n with
    | zero => rfl
    | succ n => exact ih (p.step c) (n + 1 - c.utf8Size)

/-- From the start of a text, characters in the order of their offsets lead past their line breaks,
and past those after the last of them. -/
theorem foldl_step_eq {xs : List (Nat × Char)} (h : xs.Pairwise fun x y => x.1 < y.1) :
    (xs.map Prod.snd).foldl step ⟨1, 1⟩ = ⟨1 + (breaks xs).length, 1 + (lastLine xs).length⟩ := by
  induction xs using List.reverseRecOn with
  | nil => rfl
  | append_singleton xs x ih =>
    obtain ⟨hxs, _, hlast⟩ := List.pairwise_append.mp h
    have hbefore : ∀ y ∈ xs, y.1 < x.1 := fun y hy => hlast y hy x (List.mem_singleton_self x)
    rw [List.map_append, List.foldl_append, ih hxs]
    by_cases hx : x.2 = '\n'
    · rw [breaks_concat_break hx, lastLine_concat_break hx hbefore]
      simp [step, hx, Nat.add_assoc]
    · rw [breaks_concat_other hx, lastLine_concat_other hx hbefore]
      simp [step, hx, Nat.add_assoc]

/-! ### Positions of offsets -/

theorem ofOffset_eq_counts (text : String) (offset : Nat) : ofOffset text offset =
    ⟨1 + (breaks (startingBefore text offset)).length,
      1 + (lastLine (startingBefore text offset)).length⟩ := by
  rw [ofOffset, walk_eq_foldl, takeBytes_eq_placed 0, Nat.zero_add]
  exact foldl_step_eq ((placed_pairwise 0 text.toList).filter _)

theorem ofOffset_boundary (before after : String) :
    ofOffset (before ++ after) before.utf8ByteSize = before.toList.foldl step ⟨1, 1⟩ := by
  have htake := takeBytes_append before.toList after.toList
  rw [String.ofList_toList] at htake
  rw [ofOffset, walk_eq_foldl, String.toList_append, htake]

theorem before_of_boundary {text : String} {m n : Nat} (hm : Boundary text m)
    (hn : Boundary text n) (h : m < n) : (ofOffset text m).Before (ofOffset text n) := by
  obtain ⟨before, after, rfl, rfl⟩ := hm
  obtain ⟨before', after', htext, rfl⟩ := hn
  obtain ⟨between, rfl, rfl⟩ := boundary_after htext (Nat.le_of_lt h)
  have hne : between.toList ≠ [] := by
    intro hnil
    rw [String.toList_eq_nil_iff.mp hnil, String.append_empty] at h
    exact Nat.lt_irrefl _ h
  rw [ofOffset_boundary, htext, ofOffset_boundary, String.toList_append, List.foldl_append]
  exact before_steps _ hne

/-- An offset has the position of the next place between characters. -/
theorem ofOffset_next {text : String} {offset : Nat} (h : offset ≤ text.utf8ByteSize) :
    ∃ next, Boundary text next ∧ offset ≤ next ∧
      (∀ n, Boundary text n → offset ≤ n → next ≤ n) ∧
      ofOffset text offset = ofOffset text next := by
  obtain ⟨rest, hrest⟩ := exists_takeBytes offset text.toList
  have htext : text = String.ofList (takeBytes offset text.toList) ++ String.ofList rest := by
    rw [← String.ofList_append, ← hrest, String.ofList_toList]
  refine ⟨bytesOf (takeBytes offset text.toList), ⟨_, _, htext, (size_ofList _).symm⟩, ?_, ?_, ?_⟩
  · apply le_bytesOf_takeBytes
    rw [bytesOf_toList]
    exact h
  · rintro n ⟨before, after, rfl, rfl⟩ hn
    rw [String.toList_append, ← bytesOf_toList]
    apply bytesOf_takeBytes_le
    rw [bytesOf_toList]
    exact hn
  · have hnext :=
      ofOffset_boundary (String.ofList (takeBytes offset text.toList)) (String.ofList rest)
    rw [← htext, size_ofList, String.toList_ofList] at hnext
    rw [hnext, ofOffset, walk_eq_foldl]

theorem ofOffset_past {text : String} {offset : Nat} (h : text.utf8ByteSize ≤ offset) :
    ofOffset text offset = ofOffset text text.utf8ByteSize := by
  rw [← bytesOf_toList] at h ⊢
  rw [ofOffset, ofOffset, walk_eq_foldl, walk_eq_foldl, takeBytes_of_le h,
    takeBytes_of_le (Nat.le_refl _)]

/-- The position of an offset counts the line breaks that start before it and the characters after
the last of them. Positions increase from one place between characters to the next, an offset inside
a character has the position of the next place, and all offsets past the end that of the end. -/
theorem ofOffset_counts (text : String) :
    (∀ offset, ofOffset text offset =
      ⟨1 + (breaks (startingBefore text offset)).length,
        1 + (lastLine (startingBefore text offset)).length⟩) ∧
    (∀ m n, Boundary text m → Boundary text n → m < n →
      (ofOffset text m).Before (ofOffset text n)) ∧
    (∀ m n, Boundary text m → Boundary text n → ofOffset text m = ofOffset text n → m = n) ∧
    (∀ offset, offset ≤ text.utf8ByteSize → ∃ next, Boundary text next ∧ offset ≤ next ∧
      (∀ n, Boundary text n → offset ≤ n → next ≤ n) ∧
      ofOffset text offset = ofOffset text next) ∧
    ∀ offset, text.utf8ByteSize ≤ offset →
      ofOffset text offset = ofOffset text text.utf8ByteSize := by
  refine ⟨ofOffset_eq_counts text, fun m n => before_of_boundary, ?_, fun _ => ofOffset_next,
    fun _ => ofOffset_past⟩
  intro m n hm hn heq
  rcases Nat.lt_trichotomy m n with hlt | hsame | hlt
  · exact ((before_of_boundary hm hn hlt).ne heq).elim
  · exact hsame
  · exact ((before_of_boundary hn hm hlt).ne heq.symm).elim

theorem ofOffset_counts_accent : ofOffset "é\nb" 1 = ofOffset "é\nb" 2 ∧
    (ofOffset "é\nb" 2).Before (ofOffset "é\nb" 3) ∧
    ofOffset "é\nb" 3 ≠ ofOffset "é\nb" 4 ∧ ofOffset "é\nb" 9 = ⟨2, 2⟩ := by
  obtain ⟨hcounts, hbefore, hdistinct, hnext, hpast⟩ := ofOffset_counts "é\nb"
  refine ⟨?_, hbefore 2 3 (by decide) (by decide) (by decide), fun heq => ?_, ?_⟩
  · obtain ⟨next, hboundary, hle, hleast, heq⟩ := hnext 1 (by decide)
    have htwo : next ≤ 2 := hleast 2 (by decide) (by decide)
    obtain rfl : next = 2 := by
      have hinside : ¬ Boundary "é\nb" 1 := by decide
      have hne : next ≠ 1 := fun hone => hinside (hone ▸ hboundary)
      omega
    exact heq
  · exact absurd (hdistinct 3 4 (by decide) (by decide) heq) (by decide)
  · rw [hpast 9 (by decide), hcounts]
    decide

end Position

end TypeOnly.Text
