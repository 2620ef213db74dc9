import TypeOnly.Proofs.TextPieces
import TypeOnly.Source.Token

/-!
Spans of a text. A text is cut between characters only, and a span of whole characters covers what
stands between its ends.
-/

namespace TypeOnly

set_option autoImplicit false

open Source (bytesOf)

theorem bytesOf_append (xs ys : List Char) : bytesOf (xs ++ ys) = bytesOf xs + bytesOf ys := by
  induction xs with
  | nil => simp [bytesOf]
  | cons c xs ih => rw [List.cons_append, bytesOf, bytesOf, ih, Nat.add_assoc]

theorem size_ofList (cs : List Char) : (String.ofList cs).utf8ByteSize = bytesOf cs := by
  induction cs with
  | nil => rfl
  | cons c cs ih => rw [Text.size_cons, ih, bytesOf]

theorem bytesOf_toList (s : String) : bytesOf s.toList = s.utf8ByteSize := by
  rw [← size_ofList, String.ofList_toList]

namespace Text.Span

/-! ### What a span covers -/

/-- A span of a text that begins and ends between characters, and what stands there. -/
def Covers (s : Span) (text covered : String) : Prop :=
  ∃ before after, text = before ++ covered ++ after ∧ s.start = before.utf8ByteSize ∧
    s.length = covered.utf8ByteSize

/-- A span that covers whole characters, and at least one. -/
def Aligned (s : Span) (text : String) : Prop := ∃ covered, covered ≠ "" ∧ s.Covers text covered

/-- Two spans without a place in common. -/
def Apart (a b : Span) : Prop := a.stop ≤ b.start ∨ b.stop ≤ a.start

theorem dropBytes_append (xs ys : List Char) :
    dropBytes (String.ofList xs).utf8ByteSize (xs ++ ys) = ys := by
  induction xs with
  | nil => cases ys <;> simp [dropBytes]
  | cons c xs ih =>
    have hpos := c.utf8Size_pos
    obtain ⟨n, hn⟩ : ∃ n, (String.ofList (c :: xs)).utf8ByteSize = n + 1 :=
      ⟨_, (Nat.succ_pred (by rw [Text.size_cons]; omega)).symm⟩
    have hrest : n + 1 - c.utf8Size = (String.ofList xs).utf8ByteSize := by
      rw [← hn, Text.size_cons]
      omega
    rw [hn, List.cons_append, dropBytes, hrest]
    exact ih

theorem takeBytes_append (xs ys : List Char) :
    takeBytes (String.ofList xs).utf8ByteSize (xs ++ ys) = xs := by
  induction xs with
  | nil => cases ys <;> simp [takeBytes]
  | cons c xs ih =>
    have hpos := c.utf8Size_pos
    obtain ⟨n, hn⟩ : ∃ n, (String.ofList (c :: xs)).utf8ByteSize = n + 1 :=
      ⟨_, (Nat.succ_pred (by rw [Text.size_cons]; omega)).symm⟩
    have hrest : n + 1 - c.utf8Size = (String.ofList xs).utf8ByteSize := by
      rw [← hn, Text.size_cons]
      omega
    rw [hn, List.cons_append, takeBytes, hrest, ih]

variable {s : Span} {text covered : String}

theorem Covers.textIn_eq (h : s.Covers text covered) : s.textIn text = covered := by
  obtain ⟨before, after, rfl, hstart, hlength⟩ := h
  have hdrop := dropBytes_append before.toList (covered.toList ++ after.toList)
  have htake := takeBytes_append covered.toList after.toList
  rw [String.ofList_toList] at hdrop htake
  unfold textIn
  rw [String.toList_append, String.toList_append, List.append_assoc, hstart, hlength, hdrop, htake,
    String.ofList_toList]

theorem Aligned.covers_textIn (h : s.Aligned text) : s.Covers text (s.textIn text) := by
  obtain ⟨covered, _, hcovers⟩ := h
  rw [hcovers.textIn_eq]
  exact hcovers

theorem Aligned.length_pos (h : s.Aligned text) : 0 < s.length := by
  obtain ⟨covered, hne, _, _, _, _, hlength⟩ := h
  rw [hlength]
  apply Nat.pos_of_ne_zero
  rw [ne_eq, String.utf8ByteSize_eq_zero_iff]
  exact hne

theorem Apart.start_ne {a b : Span} (h : a.Apart b) (ha : 0 < a.length) (hb : 0 < b.length) :
    a.start ≠ b.start := by
  unfold Apart stop at h
  omega

/-- Whether the byte at an offset is in a span. -/
def holds (s : Span) (offset : Nat) : Bool := s.start ≤ offset && offset < s.stop

theorem holds_iff {s : Span} {offset : Nat} :
    s.holds offset = true ↔ s.start ≤ offset ∧ offset < s.start + s.length := by
  rw [holds, Bool.and_eq_true, decide_eq_true_eq, decide_eq_true_eq, stop]

end Text.Span

namespace Text.Extent

/-- An extent that begins and ends between characters of a text, and what stands there. -/
def Covers (e : Extent) (text covered : String) : Prop :=
  ∃ before after, text = before ++ covered ++ after ∧
    e.start = firstPlace + before.utf8ByteSize ∧ e.stop = e.start + covered.utf8ByteSize

def Aligned (e : Extent) (text : String) : Prop := ∃ covered, covered ≠ "" ∧ e.Covers text covered

def Apart (a b : Extent) : Prop := a.stop ≤ b.start ∨ b.stop ≤ a.start

variable {e : Extent} {text covered : String}

/-- Whatever an extent is, its span does not leave the text. -/
theorem stop_span_le (length : Nat) (e : Extent) : (e.span length).stop ≤ length := by
  rw [span, Span.stop_upTo (Nat.le_max_left _ _)]
  omega

/-- An extent within the text loses nothing. -/
theorem Covers.span (h : e.Covers text covered) :
    (e.span text.utf8ByteSize).Covers text covered := by
  obtain ⟨before, after, rfl, hstart, hstop⟩ := h
  refine ⟨before, after, rfl, ?_, ?_⟩
  · simp only [Extent.span, Span.upTo, String.utf8ByteSize_append]
    omega
  · simp only [Extent.span, Span.upTo, String.utf8ByteSize_append]
    omega

theorem Aligned.span (h : e.Aligned text) : (e.span text.utf8ByteSize).Aligned text := by
  obtain ⟨covered, hne, hcovers⟩ := h
  exact ⟨covered, hne, hcovers.span⟩

theorem Aligned.start_le (h : e.Aligned text) : e.start ≤ e.stop := by
  obtain ⟨_, _, _, _, _, _, hstop⟩ := h
  omega

theorem Apart.span {a b : Extent} (h : a.Apart b) (ha : a.start ≤ a.stop) (hb : b.start ≤ b.stop)
    (length : Nat) : (a.span length).Apart (b.span length) := by
  simp only [Span.Apart, Span.stop, Extent.span, Span.upTo]
  unfold Apart at h
  omega

end Text.Extent

namespace Text

/-! ### Cutting a text -/

/-- An offset of a text that is not inside a character. -/
def Boundary (text : String) (offset : Nat) : Prop :=
  ∃ before after, text = before ++ after ∧ offset = before.utf8ByteSize

theorem Span.Aligned.boundary {s : Span} {text : String} (h : s.Aligned text) :
    Boundary text s.start := by
  obtain ⟨covered, _, before, after, htext, hstart, _⟩ := h
  exact ⟨before, covered ++ after, by rw [htext, String.append_assoc], hstart⟩

/-- The pieces of a text that begins at an offset, when it is cut at other offsets. -/
inductive Cut : Nat → List Nat → String → List String → Prop where
  | whole (offset : Nat) (text : String) : Cut offset [] text [text]
  | cut {offset : Nat} {offsets : List Nat} {after : String} {pieces : List String}
      (before : String) (h : Cut (offset + before.utf8ByteSize) offsets after pieces) :
      Cut offset ((offset + before.utf8ByteSize) :: offsets) (before ++ after) (before :: pieces)

theorem Cut.ne_nil {offset : Nat} {offsets : List Nat} {text : String} {pieces : List String}
    (h : Cut offset offsets text pieces) : pieces ≠ [] := by
  cases h <;> simp

/-- Of two places where a text is cut, the first one is before the second one. -/
theorem boundary_after {before after before' after' : String}
    (h : before ++ after = before' ++ after') (hle : before.utf8ByteSize ≤ before'.utf8ByteSize) :
    ∃ between, before' = before ++ between ∧ after = between ++ after' := by
  have hlists : before.toList ++ after.toList = before'.toList ++ after'.toList := by
    rw [← String.toList_append, h, String.toList_append]
  rcases List.append_eq_append_iff.mp hlists with ⟨cs, hbefore, hafter⟩ | ⟨cs, hbefore, hafter⟩
  · refine ⟨String.ofList cs, String.toList_injective ?_, String.toList_injective ?_⟩
    · rw [hbefore, String.toList_append, String.toList_ofList]
    · rw [hafter, String.toList_append, String.toList_ofList]
  · have hsize := congrArg (fun xs => (String.ofList xs).utf8ByteSize) hbefore
    simp only [String.ofList_append, String.ofList_toList, String.utf8ByteSize_append] at hsize
    have hempty : String.ofList cs = "" := by
      rw [← String.utf8ByteSize_eq_zero_iff]
      omega
    obtain rfl : cs = [] := by simpa using congrArg String.toList hempty
    rw [List.append_nil] at hbefore
    rw [List.nil_append] at hafter
    refine ⟨"", ?_, ?_⟩
    · rw [String.toList_injective hbefore, String.append_empty]
    · rw [← String.toList_injective hafter, String.empty_append]

/-- A text can be cut at increasing offsets between its characters. -/
theorem exists_cut {offsets : List Nat} (hsorted : offsets.Pairwise (· < ·)) {text : String}
    {offset : Nat} (h : ∀ o ∈ offsets, ∃ n, Boundary text n ∧ o = offset + n) :
    ∃ pieces, Cut offset offsets text pieces := by
  induction offsets generalizing text offset with
  | nil => exact ⟨[text], .whole offset text⟩
  | cons o offsets ih =>
    obtain ⟨hfirst, hrest⟩ := List.pairwise_cons.mp hsorted
    obtain ⟨_, ⟨before, after, rfl, rfl⟩, rfl⟩ := h o List.mem_cons_self
    -- the other cuts are after the first one
    have hlater : ∀ o ∈ offsets, ∃ n, Boundary after n ∧ o = offset + before.utf8ByteSize + n := by
      intro o ho
      obtain ⟨_, ⟨before', after', htext, rfl⟩, rfl⟩ := h o (List.mem_cons_of_mem _ ho)
      have hlt := hfirst _ ho
      obtain ⟨between, rfl, rfl⟩ := boundary_after htext (by omega)
      refine ⟨between.utf8ByteSize, ⟨between, after', rfl, rfl⟩, ?_⟩
      rw [String.utf8ByteSize_append]
      omega
    obtain ⟨pieces, hcut⟩ := ih hrest hlater
    exact ⟨before :: pieces, .cut before hcut⟩

/-- A span that begins and ends between characters covers what stands between. -/
theorem Span.covers_textIn {s : Span} {text : String} (hstart : Boundary text s.start)
    (hstop : Boundary text s.stop) : s.Covers text (s.textIn text) := by
  obtain ⟨before, after, htext, hbefore⟩ := hstart
  obtain ⟨before', after', htext', hbefore'⟩ := hstop
  have hle : before.utf8ByteSize ≤ before'.utf8ByteSize := by
    rw [stop] at hbefore'
    omega
  obtain ⟨between, rfl, rfl⟩ := boundary_after (htext.symm.trans htext') hle
  have hcovers : s.Covers text between := by
    refine ⟨before, after', htext', hbefore, ?_⟩
    rw [String.utf8ByteSize_append, stop] at hbefore'
    omega
  rw [hcovers.textIn_eq]
  exact hcovers

/-! ### Offsets between characters -/

/-- The offsets before, between and after some characters, the first of which is at an offset. -/
def boundaries : Nat → List Char → List Nat
  | offset, [] => [offset]
  | offset, c :: cs => offset :: boundaries (offset + c.utf8Size) cs

theorem mem_boundaries {offset n : Nat} {cs : List Char} : n ∈ boundaries offset cs ↔
    ∃ before after, cs = before ++ after ∧ n = offset + bytesOf before := by
  induction cs generalizing offset with
  | nil =>
    rw [boundaries, List.mem_singleton]
    constructor
    · rintro rfl
      exact ⟨[], [], rfl, rfl⟩
    · rintro ⟨before, after, hnil, rfl⟩
      rw [(List.append_eq_nil_iff.mp hnil.symm).1]
      rfl
  | cons c cs ih =>
    rw [boundaries, List.mem_cons, ih]
    constructor
    · rintro (rfl | ⟨before, after, rfl, rfl⟩)
      · exact ⟨[], c :: cs, rfl, rfl⟩
      · exact ⟨c :: before, after, rfl, Nat.add_assoc _ _ _⟩
    · rintro ⟨before, after, hcons, rfl⟩
      cases before with
      | nil => exact Or.inl rfl
      | cons x before =>
        obtain ⟨rfl, rfl⟩ := List.cons.inj hcons
        exact Or.inr ⟨before, after, rfl, (Nat.add_assoc _ _ _).symm⟩

theorem boundary_iff {text : String} {n : Nat} :
    Boundary text n ↔ n ∈ boundaries 0 text.toList := by
  rw [mem_boundaries]
  constructor
  · rintro ⟨before, after, rfl, rfl⟩
    exact ⟨before.toList, after.toList, String.toList_append, by rw [bytesOf_toList, Nat.zero_add]⟩
  · rintro ⟨before, after, htext, rfl⟩
    refine ⟨String.ofList before, String.ofList after, ?_, by rw [size_ofList, Nat.zero_add]⟩
    rw [← String.ofList_append, ← htext, String.ofList_toList]

instance (text : String) (n : Nat) : Decidable (Boundary text n) :=
  decidable_of_iff _ boundary_iff.symm

theorem boundaries_bounds {offset n : Nat} {cs : List Char} (h : n ∈ boundaries offset cs) :
    offset ≤ n ∧ n ≤ offset + bytesOf cs := by
  obtain ⟨before, after, rfl, rfl⟩ := mem_boundaries.mp h
  rw [bytesOf_append]
  omega

/-- An offset that a text can be cut at is at the beginning of it, or not inside the first
character. -/
theorem boundaries_cons {offset n : Nat} {c : Char} {cs : List Char}
    (h : n < offset ∨ n ∈ boundaries offset (c :: cs)) :
    n ≤ offset ∨ n ∈ boundaries (offset + c.utf8Size) cs := by
  rcases h with h | h
  · exact Or.inl (Nat.le_of_lt h)
  · rcases List.mem_cons.mp h with rfl | h
    · exact Or.inl (Nat.le_refl _)
    · exact Or.inr h

end Text

end TypeOnly
