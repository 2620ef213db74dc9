import Mathlib.Data.List.Basic
import TypeOnly.Text.Split

/-!
Texts cut into pieces: at every separator, at the first or the last one, and at a given start or
end. Each way to cut a text is told by what the pieces are when they are put together again.
-/

namespace TypeOnly.Text

set_option autoImplicit false

variable {sep : Char}

/-! ### Separators -/

theorem splitOn_append (sep : Char) (xs ys : List Char) :
    splitOn sep (xs ++ sep :: ys) = splitOn sep xs ++ splitOn sep ys := by
  induction xs with
  | nil => simp [splitOn]
  | cons c xs ih =>
    by_cases hc : c = sep
    · simp [splitOn, hc, ih]
    · simp only [List.cons_append, splitOn, if_neg hc, ih]
      cases hs : splitOn sep xs with
      | nil => exact False.elim (Text.splitOn_ne_nil sep xs hs)
      | cons field rest => rfl

theorem size_cons (c : Char) (cs : List Char) :
    (String.ofList (c :: cs)).utf8ByteSize = c.utf8Size + (String.ofList cs).utf8ByteSize := by
  rw [String.ofList_cons, String.utf8ByteSize_append, String.utf8ByteSize_singleton]

theorem not_mem_of_mem_splitOn {cs : List Char} : ∀ field ∈ splitOn sep cs, sep ∉ field := by
  induction cs with
  | nil => simp [splitOn]
  | cons c rest ih =>
    unfold splitOn
    split
    · intro field hfield
      rcases List.mem_cons.mp hfield with rfl | hfield
      · simp
      · exact ih field hfield
    · rename_i hc
      cases hs : splitOn sep rest with
      | nil => exact False.elim (splitOn_ne_nil sep rest hs)
      | cons first fields =>
        rw [hs] at ih
        intro field hfield
        rcases List.mem_cons.mp hfield with rfl | hfield
        · intro hmem
          rcases List.mem_cons.mp hmem with he | hmem
          · exact hc he.symm
          · exact ih first List.mem_cons_self hmem
        · exact ih field (List.mem_cons_of_mem _ hfield)

theorem splitOn_of_not_mem {cs : List Char} (h : sep ∉ cs) : splitOn sep cs = [cs] := by
  induction cs with
  | nil => rfl
  | cons c rest ih =>
    simp only [List.mem_cons, not_or] at h
    unfold splitOn
    rw [if_neg (Ne.symm h.1), ih h.2]

theorem splitOn_intercalate {fields : List (List Char)} (hne : fields ≠ [])
    (h : ∀ field ∈ fields, sep ∉ field) : splitOn sep ([sep].intercalate fields) = fields := by
  induction fields with
  | nil => exact False.elim (hne rfl)
  | cons field rest ih =>
    have hfield := h field List.mem_cons_self
    cases rest with
    | nil =>
      have hone : [sep].intercalate [field] = field := by simp [List.intercalate]
      rw [hone, splitOn_of_not_mem hfield]
    | cons next rest =>
      have hcons : [sep].intercalate (field :: next :: rest) =
          field ++ sep :: [sep].intercalate (next :: rest) := by
        simp [List.intercalate, List.intersperse]
      rw [hcons, splitOn_append, splitOn_of_not_mem hfield,
        ih (by simp) fun f hf => h f (List.mem_cons_of_mem _ hf)]
      rfl

theorem breakAt_eq_some_iff {cs before after : List Char} :
    breakAt sep cs = some (before, after) ↔ cs = before ++ sep :: after ∧ sep ∉ before := by
  induction cs generalizing before with
  | nil => simp [breakAt]
  | cons c rest ih =>
    unfold breakAt
    split
    · rename_i hc
      subst hc
      constructor
      · intro h
        cases h
        simp
      · rintro ⟨h, hnot⟩
        cases before with
        | nil => exact congrArg (fun x => some ([], x)) (List.cons.inj h).2
        | cons b before =>
          rw [List.cons_append] at h
          exact False.elim (hnot ((List.cons.inj h).1 ▸ List.mem_cons_self))
    · rename_i hc
      constructor
      · intro h
        obtain ⟨⟨before', after'⟩, hbreak, he⟩ := Option.map_eq_some_iff.mp h
        cases he
        obtain ⟨hrest, hnot⟩ := ih.mp hbreak
        refine ⟨by rw [hrest, List.cons_append], ?_⟩
        simpa [hnot] using Ne.symm hc
      · rintro ⟨h, hnot⟩
        cases before with
        | nil => exact False.elim (hc (List.cons.inj h).1)
        | cons b before =>
          rw [List.cons_append] at h
          obtain ⟨rfl, hrest⟩ := List.cons.inj h
          rw [ih.mpr ⟨hrest, fun hmem => hnot (List.mem_cons_of_mem c hmem)⟩]
          rfl

theorem breakAtLast_eq_some_iff {sep : Char} {cs before after : List Char} :
    breakAtLast sep cs = some (before, after) ↔ cs = before ++ sep :: after ∧ sep ∉ after := by
  unfold breakAtLast
  rw [Option.map_eq_some_iff]
  constructor
  · rintro ⟨⟨back, front⟩, hbreak, heq⟩
    obtain ⟨rfl, rfl⟩ := Prod.mk.inj heq
    obtain ⟨hcs, hback⟩ := breakAt_eq_some_iff.mp hbreak
    refine ⟨?_, by simpa using hback⟩
    rw [← List.reverse_reverse cs, hcs]
    simp
  · rintro ⟨rfl, hafter⟩
    refine ⟨(after.reverse, before.reverse), breakAt_eq_some_iff.mpr ⟨by simp, ?_⟩, by simp⟩
    simpa using hafter

/-! ### Starts and ends -/

theorem eq_append_of_dropStart? {start s rest : String} (h : dropStart? start s = some rest) :
    s = start ++ rest := by
  unfold dropStart? beginsWith at h
  split at h
  · rename_i hbegins
    obtain ⟨tail, htail⟩ := List.isPrefixOf_iff_prefix.mp hbegins
    obtain rfl := Option.some.inj h
    apply String.toList_injective
    rw [String.toList_append, String.toList_ofList, ← htail, ← String.length_toList,
      List.drop_left']
    rfl
  · cases h

theorem dropStart?_append (start rest : String) : dropStart? start (start ++ rest) = some rest := by
  have hbegins : beginsWith start (start ++ rest) = true := by
    simp [beginsWith, String.toList_append]
  rw [dropStart?, hbegins, if_pos rfl, String.toList_append, ← String.length_toList,
    List.drop_left', String.ofList_toList]
  rfl

theorem eq_append_of_dropEnd? {ending s stem : String} (h : dropEnd? ending s = some stem) :
    s = stem ++ ending := by
  unfold dropEnd? at h
  split at h
  · rename_i hends
    obtain ⟨front, hfront⟩ := List.isSuffixOf_iff_suffix.mp hends
    obtain rfl := Option.some.inj h
    apply String.toList_injective
    rw [String.toList_append, String.toList_ofList, ← hfront]
    have hlength : s.length - ending.length = front.length := by
      rw [← String.length_toList, ← String.length_toList, ← hfront, List.length_append]
      omega
    rw [hlength, List.take_left']
    rfl
  · cases h

/-- A text does not end in another one whose last character is different. -/
theorem endsWith_eq_false {ending s : String} (hending : ending ≠ "")
    (h : s.toList.getLast? ≠ ending.toList.getLast?) : endsWith ending s = false := by
  rw [← Bool.not_eq_true]
  intro hends
  obtain ⟨front, hfront⟩ := List.isSuffixOf_iff_suffix.mp hends
  rw [← hfront, List.getLast?_append_of_ne_nil _ (by simpa using hending)] at h
  exact h rfl

theorem endsWith_append (front ending : String) : endsWith ending (front ++ ending) = true := by
  simp [endsWith, String.toList_append]

/-- Of two endings of a text the shorter one ends the longer one. -/
theorem suffix_of_endsWith {a b s : String} (ha : endsWith a s = true) (hb : endsWith b s = true)
    (h : a.length ≤ b.length) : a.toList <:+ b.toList := by
  apply List.suffix_of_suffix_length_le (List.isSuffixOf_iff_suffix.mp ha)
    (List.isSuffixOf_iff_suffix.mp hb)
  rwa [String.length_toList, String.length_toList]

theorem dropEnd?_isSome (ending s : String) : (dropEnd? ending s).isSome = endsWith ending s := by
  unfold dropEnd?
  split <;> simp_all

theorem head?_ne_slash {name : String} (h : '/' ∉ name.toList) :
    name.toList.head? ≠ some '/' := fun hhead => h (List.mem_of_mem_head? hhead)

theorem dropEnd?_append (stem ending : String) : dropEnd? ending (stem ++ ending) = some stem := by
  have hlength : (stem ++ ending).length - ending.length = stem.toList.length := by
    rw [String.length_append, String.length_toList]
    omega
  rw [dropEnd?, endsWith_append, if_pos rfl, hlength, String.toList_append, List.take_left',
    String.ofList_toList]
  rfl

/-- An ending without a slash is an ending of what follows the last slash. -/
theorem endsWith_after_slash {front name ending : String}
    (hfront : front.toList.getLast? = some '/')
    (hending : '/' ∉ ending.toList) : endsWith ending (front ++ name) = endsWith ending name := by
  have hname : name.toList <:+ (front ++ name).toList := by
    rw [String.toList_append]
    exact List.suffix_append _ _
  apply Bool.eq_iff_iff.mpr
  constructor
  · intro hends
    have hsuffix := List.isSuffixOf_iff_suffix.mp hends
    apply List.isSuffixOf_iff_suffix.mpr
    by_cases hlength : ending.toList.length ≤ name.toList.length
    · exact List.suffix_of_suffix_length_le hsuffix hname hlength
    · -- otherwise the slash would be part of the ending
      obtain ⟨more, hmore⟩ := List.suffix_of_suffix_length_le hname hsuffix (by omega)
      have hne : more ≠ [] := by
        rintro rfl
        rw [← hmore] at hlength
        simp at hlength
      obtain ⟨rest, hrest⟩ := hsuffix
      rw [← hmore, String.toList_append, ← List.append_assoc] at hrest
      rw [← List.append_cancel_right hrest, List.getLast?_append_of_ne_nil rest hne] at hfront
      rw [← hmore] at hending
      exact absurd (List.mem_append_left _ (List.mem_of_getLast? hfront)) hending
  · intro hends
    exact List.isSuffixOf_iff_suffix.mpr ((List.isSuffixOf_iff_suffix.mp hends).trans hname)

theorem dropEnd?_after_slash {front name ending : String}
    (hfront : front.toList.getLast? = some '/') (hending : '/' ∉ ending.toList) :
    dropEnd? ending (front ++ name) = (dropEnd? ending name).map (front ++ ·) := by
  cases hdrop : dropEnd? ending name with
  | some stem =>
    rw [eq_append_of_dropEnd? hdrop, ← String.append_assoc, dropEnd?_append]
    rfl
  | none =>
    have hnot : endsWith ending name = false := by
      rw [← dropEnd?_isSome, hdrop]
      rfl
    rw [dropEnd?, endsWith_after_slash hfront hending, hnot, if_neg (by simp)]
    rfl

end TypeOnly.Text
