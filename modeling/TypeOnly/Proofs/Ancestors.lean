import Mathlib.Data.List.DropRight
import TypeOnly.Proofs.PathSegments

/-!
The folders that a path is in. Each one is written as the path itself is, up to its name, and
stretches that add nothing are left out at its end only.
-/

namespace TypeOnly.Path

set_option autoImplicit false

/-! ### The folder above -/

/-- Stretches without the last one that says something, and without those that add nothing before
and after it. -/
def shortened (body : List String) : Option (List String) :=
  if body.all isIdle then none
  else some ((body.rdropWhile isIdle).dropLast.rdropWhile isIdle)

theorem shortened_cases (body : List String) :
    (body.reverse.dropWhile isIdle = [] ∧ shortened body = none) ∨
    ∃ s rest, body.reverse.dropWhile isIdle = s :: rest ∧
      shortened body = some (rest.dropWhile isIdle).reverse := by
  cases h : body.reverse.dropWhile isIdle with
  | nil =>
    left
    rw [List.dropWhile_eq_nil_iff] at h
    refine ⟨rfl, if_pos (List.all_eq_true.mpr fun s hs => h s (List.mem_reverse.mpr hs))⟩
  | cons s rest =>
    right
    refine ⟨s, rest, rfl, ?_⟩
    have hsome : body.all isIdle = false := by
      rw [← Bool.not_eq_true]
      intro hall
      rw [List.dropWhile_eq_nil_iff.mpr] at h
      · cases h
      · exact fun x hx => List.all_eq_true.mp hall x (List.mem_reverse.mp hx)
    rw [shortened, hsome, if_neg (by simp)]
    simp [List.rdropWhile, h]

theorem parent?_of_isAbsolute {p : Path} (h : p.isAbsolute = true) :
    p.parent? = (shortened (p.segments.drop 1)).map rooted := by
  unfold parent?
  rcases shortened_cases (p.segments.drop 1) with ⟨hdrop, hs⟩ | ⟨s, rest, hdrop, hs⟩
  · simp only [h, hdrop, hs, if_true, Option.map_none]
  · simp only [h, hdrop, hs, if_true, Option.map_some, rooted]

theorem parent?_of_dot {p : Path} (h : p.isAbsolute = false) (hdot : p.segments.head? = some ".") :
    p.parent? = some ⟨((shortened (p.segments.drop 1)).map fun kept =>
      "/".intercalate ("." :: kept)).getD ""⟩ := by
  unfold parent?
  rcases shortened_cases (p.segments.drop 1) with ⟨hdrop, hs⟩ | ⟨s, rest, hdrop, hs⟩
  · simp only [h, hdot, hdrop, hs, Bool.false_eq_true, if_false, if_true, Option.map_none,
      Option.getD_none]
  · simp only [h, hdot, hdrop, hs, Bool.false_eq_true, if_false, if_true, Option.map_some,
      Option.getD_some]

theorem parent?_of_relative {p : Path} (h : p.isAbsolute = false)
    (hdot : p.segments.head? ≠ some ".") :
    p.parent? = (shortened p.segments).map fun kept => ⟨"/".intercalate kept⟩ := by
  unfold parent?
  rcases shortened_cases p.segments with ⟨hdrop, hs⟩ | ⟨s, rest, hdrop, hs⟩
  · simp [h, hdot, hdrop, hs]
  · simp [h, hdot, hdrop, hs]

theorem filterMap_rdropWhile (l : List String) :
    (l.rdropWhile isIdle).filterMap Part.ofSegment? = l.filterMap Part.ofSegment? := by
  have hidle : ∀ s ∈ l.rtakeWhile isIdle, Part.ofSegment? s = none := by
    intro s hs
    exact ofSegment?_eq_none_iff.mpr (List.mem_rtakeWhile_imp hs)
  conv_rhs => rw [← List.rdropWhile_append_rtakeWhile (p := isIdle) (l := l)]
  rw [List.filterMap_append, List.filterMap_eq_nil_iff.mpr hidle, List.append_nil]

/-- Shortening takes the last part away. -/
theorem filterMap_shortened {body kept : List String} (h : shortened body = some kept) :
    kept.filterMap Part.ofSegment? = (body.filterMap Part.ofSegment?).dropLast := by
  unfold shortened at h
  split at h
  · cases h
  · rename_i hall
    obtain rfl := Option.some.inj h
    have hne : body.rdropWhile isIdle ≠ [] := by
      intro hnil
      exact hall (List.all_eq_true.mpr (List.rdropWhile_eq_nil_iff.mp hnil))
    have hlast := List.rdropWhile_last_not isIdle body hne
    have hpart : ∃ part, Part.ofSegment? ((body.rdropWhile isIdle).getLast hne) = some part := by
      cases hpart : Part.ofSegment? ((body.rdropWhile isIdle).getLast hne) with
      | some part => exact ⟨part, rfl⟩
      | none => exact False.elim (hlast (ofSegment?_eq_none_iff.mp hpart))
    obtain ⟨part, hpart⟩ := hpart
    rw [filterMap_rdropWhile, ← filterMap_rdropWhile body]
    conv_rhs => rw [← List.dropLast_append_getLast hne]
    rw [List.filterMap_append, List.filterMap_cons_some hpart, List.filterMap_nil,
      List.dropLast_concat]

theorem shortened_start {body kept : List String} (h : shortened body = some kept) :
    kept <+: body := by
  unfold shortened at h
  split at h
  · cases h
  · obtain rfl := Option.some.inj h
    have hback : (body.rdropWhile isIdle).dropLast.rdropWhile isIdle <+: _ :=
      List.rdropWhile_prefix _ _
    have hlast : (body.rdropWhile isIdle).dropLast <+: _ := List.dropLast_prefix _
    exact hback.trans (hlast.trans <| List.rdropWhile_prefix _ _)

theorem shortened_of_name {front : List Part} {body : List String} {name : String}
    (hfront : .name name ∉ front)
    (hlast : (front ++ body.filterMap Part.ofSegment?).getLast? = some (.name name)) :
    ∃ kept, shortened body = some kept ∧
      body.filterMap Part.ofSegment? = kept.filterMap Part.ofSegment? ++ [.name name] := by
  have hname : (body.filterMap Part.ofSegment?).getLast? = some (.name name) := by
    rw [List.getLast?_append] at hlast
    cases h : (body.filterMap Part.ofSegment?).getLast? with
    | some part => simpa [h] using hlast
    | none =>
      rw [h, Option.none_or] at hlast
      exact False.elim (hfront (List.mem_of_getLast? hlast))
  cases hkept : shortened body with
  | none =>
    unfold shortened at hkept
    split at hkept
    · rename_i hall
      have hnone : body.filterMap Part.ofSegment? = [] := by
        rw [List.filterMap_eq_nil_iff]
        exact fun s hs => ofSegment?_eq_none_iff.mpr (List.all_eq_true.mp hall s hs)
      rw [hnone] at hname
      cases hname
    · cases hkept
  | some kept =>
    refine ⟨kept, rfl, ?_⟩
    rw [filterMap_shortened hkept, List.dropLast_append_getLast? _ hname]

/-- A path is its folder and its name. -/
theorem parts_of_fileName? {p : Path} {name : String} (h : p.fileName? = some name) :
    p.parts = p.parent.parts ++ [.name name] := by
  have hlast : p.parts.getLast? = some (.name name) := by
    unfold fileName? at h
    split at h
    · rename_i hlast
      rw [hlast, Option.some.inj h]
    · cases h
  have hslash {s : String} (hs : s ∈ p.segments) : '/' ∉ s.toList := not_mem_of_mem_segments hs
  unfold parent
  cases habsolute : p.isAbsolute with
  | true =>
    obtain ⟨body, hbody, _⟩ := segments_of_isAbsolute habsolute
    have hparts : p.parts = [.root] ++ body.filterMap Part.ofSegment? := by
      rw [parts, if_pos habsolute, hbody]
      rfl
    obtain ⟨kept, hkept, hname⟩ := shortened_of_name (by simp) (hparts ▸ hlast)
    have hsub := (shortened_start hkept).subset
    rw [parent?_of_isAbsolute habsolute, hbody, List.drop_one, List.tail_cons, hkept,
      Option.map_some, Option.getD_some, parts_rooted, hparts, hname]
    · rfl
    · exact fun s hs => hslash (hbody ▸ List.mem_cons_of_mem _ (hsub hs))
  | false =>
    by_cases hdot : p.segments.head? = some "."
    · obtain ⟨body, hbody⟩ := List.head?_eq_some_iff.mp hdot
      have hparts : p.parts = [.here] ++ body.filterMap Part.ofSegment? := by
        rw [parts, habsolute, if_neg (by simp), if_pos hdot, hbody]
        rfl
      obtain ⟨kept, hkept, hname⟩ := shortened_of_name (by simp) (hparts ▸ hlast)
      have hsub := (shortened_start hkept).subset
      rw [parent?_of_dot habsolute hdot, hbody, List.drop_one, List.tail_cons, hkept,
        Option.map_some, Option.getD_some, Option.getD_some, parts_dot, hparts, hname]
      · rfl
      · exact fun s hs => hslash (hbody ▸ List.mem_cons_of_mem _ (hsub hs))
    · have hparts : p.parts = [] ++ p.segments.filterMap Part.ofSegment? := by
        rw [parts, habsolute, if_neg (by simp), if_neg hdot, List.nil_append]
      obtain ⟨kept, hkept, hname⟩ := shortened_of_name (by simp) (hparts ▸ hlast)
      have hstart := shortened_start hkept
      rw [parent?_of_relative habsolute hdot, hkept, Option.map_some, Option.getD_some,
        parts_relative, hparts, hname, List.nil_append]
      · exact fun s hs => hslash (hstart.subset hs)
      · intro s hs
        obtain ⟨rest, rfl⟩ := List.head?_eq_some_iff.mp hs
        obtain ⟨tail, htail⟩ := hstart
        have hhead : p.segments.head? = some s := by rw [← htail]; rfl
        rw [isIdle, Bool.or_eq_false_iff, decide_eq_false_iff_not, decide_eq_false_iff_not]
        refine ⟨?_, fun hs' => hdot (hs' ▸ hhead)⟩
        rintro rfl
        rw [segments_of_head_empty habsolute hhead] at hkept
        cases hkept

/-! ### All folders above -/

theorem mem_ancestorsFrom_self (steps : Nat) (p : Path) : p ∈ ancestorsFrom steps p := by
  cases steps with
  | zero => exact List.mem_singleton_self p
  | succ steps =>
    rw [ancestorsFrom]
    cases p.parent? <;> exact List.mem_cons_self

theorem mem_ancestors_self (p : Path) : p ∈ p.ancestors := mem_ancestorsFrom_self _ p

theorem isAbsolute_parent? {p q : Path} (h : p.isAbsolute = true) (hq : p.parent? = some q) :
    q.isAbsolute = true := by
  rw [parent?_of_isAbsolute h] at hq
  obtain ⟨kept, _, rfl⟩ := Option.map_eq_some_iff.mp hq
  exact isAbsolute_rooted kept

theorem isAbsolute_ancestors {p : Path} (h : p.isAbsolute = true) :
    ∀ q ∈ p.ancestors, q.isAbsolute = true := by
  unfold ancestors
  generalize p.segments.length = steps
  induction steps generalizing p with
  | zero => simp [ancestorsFrom, h]
  | succ steps ih =>
    intro q hq
    unfold ancestorsFrom at hq
    cases hparent : p.parent? with
    | none =>
      rw [hparent] at hq
      exact List.mem_singleton.mp hq ▸ h
    | some up =>
      rw [hparent] at hq
      rcases List.mem_cons.mp hq with rfl | hq
      · exact h
      · exact ih (isAbsolute_parent? h hparent) q hq

theorem rdropWhile_append {front back : List String}
    (hfront : ∀ s, front.getLast? = some s → isIdle s = false) :
    (front ++ back).rdropWhile isIdle = front ++ back.rdropWhile isIdle := by
  have hkeep : front.reverse.dropWhile isIdle = front.reverse := by
    cases hlast : front.reverse with
    | nil => rfl
    | cons s rest =>
      have hs : front.getLast? = some s := by
        rw [← List.head?_reverse, hlast]
        rfl
      rw [List.dropWhile_cons_of_neg (by simp [hfront s hs])]
  unfold List.rdropWhile
  rw [List.reverse_append, List.dropWhile_append, hkeep]
  split
  · rename_i hnone
    rw [List.isEmpty_iff] at hnone
    simp [hnone]
  · simp

theorem shortened_append {front back : List String}
    (hfront : ∀ s, front.getLast? = some s → isIdle s = false) (hback : back.all isIdle = false) :
    shortened (front ++ back) = (shortened back).map (front ++ ·) := by
  have hne : back.rdropWhile isIdle ≠ [] := by
    rw [ne_eq, List.rdropWhile_eq_nil_iff, ← List.all_eq_true]
    simp [hback]
  rw [shortened, shortened, List.all_append, hback, Bool.and_false, if_neg (by simp),
    if_neg (by simp), rdropWhile_append hfront, List.dropLast_append_of_ne_nil hne,
    rdropWhile_append hfront]
  rfl

/-- What is left after shortening is shorter, and it ends in a stretch that says something. -/
theorem shortened_of_some {body kept : List String} (h : shortened body = some kept) :
    kept.length < body.length ∧ (kept ≠ [] → kept.all isIdle = false) := by
  unfold shortened at h
  split at h
  · cases h
  · rename_i hall
    obtain rfl := Option.some.inj h
    have hne : body.rdropWhile isIdle ≠ [] := by
      intro hnil
      exact hall (List.all_eq_true.mpr (List.rdropWhile_eq_nil_iff.mp hnil))
    constructor
    · have hshort := List.IsPrefix.length_le <|
        List.rdropWhile_prefix isIdle (body.rdropWhile isIdle).dropLast
      have hbody := List.IsPrefix.length_le <| List.rdropWhile_prefix isIdle body
      have hpos := List.length_pos_iff.mpr hne
      rw [List.length_dropLast] at hshort
      omega
    · intro hkept
      have hlast := List.rdropWhile_last_not isIdle _ hkept
      rw [← Bool.not_eq_true, List.all_eq_true]
      exact fun hidle => hlast (hidle _ (List.getLast_mem hkept))

theorem mem_ancestorsFrom {front back : List String}
    (hfront : ∀ s, front.getLast? = some s → isIdle s = false)
    (hslash : ∀ s ∈ front ++ back, '/' ∉ s.toList) (hback : back.all isIdle = false) {steps : Nat}
    (hsteps : back.length ≤ steps) :
    rooted front ∈ ancestorsFrom steps (rooted (front ++ back)) := by
  induction steps generalizing back with
  | zero =>
    rw [List.length_eq_zero_iff.mp (Nat.le_zero.mp hsteps)] at hback
    cases hback
  | succ steps ih =>
    have hne : back ≠ [] := by
      rintro rfl
      cases hback
    cases hkept : shortened back with
    | none =>
      unfold shortened at hkept
      rw [hback] at hkept
      cases hkept
    | some kept =>
      obtain ⟨hlength, hsome⟩ := shortened_of_some hkept
      have hparent : (rooted (front ++ back)).parent? = some (rooted (front ++ kept)) := by
        rw [parent?_of_isAbsolute (isAbsolute_rooted _), segments_rooted (by simp [hne]) hslash,
          List.drop_one, List.tail_cons, shortened_append hfront hback, hkept]
        rfl
      rw [ancestorsFrom, hparent]
      apply List.mem_cons_of_mem
      by_cases hnil : kept = []
      · rw [hnil, List.append_nil]
        exact mem_ancestorsFrom_self steps _
      · apply ih _ (hsome hnil) (by omega)
        intro s hs
        rcases List.mem_append.mp hs with hs | hs
        · exact hslash s (List.mem_append_left _ hs)
        · exact hslash s (List.mem_append_right _ ((shortened_start hkept).subset hs))

/-- What a path begins with is one of the folders that it is in. -/
theorem mem_ancestors_rooted {front back : List String}
    (hfront : ∀ s, front.getLast? = some s → isIdle s = false)
    (hslash : ∀ s ∈ front ++ back, '/' ∉ s.toList) (hback : back.all isIdle = false) :
    rooted front ∈ (rooted (front ++ back)).ancestors := by
  have hne : front ++ back ≠ [] := by
    intro hnil
    rw [(List.append_eq_nil_iff.mp hnil).2] at hback
    cases hback
  apply mem_ancestorsFrom hfront hslash hback
  rw [segments_rooted hne hslash, List.length_cons, List.length_append]
  omega

end TypeOnly.Path
