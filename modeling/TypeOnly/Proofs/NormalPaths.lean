import TypeOnly.Proofs.Ancestors

/-!
Paths in normal form. An absolute one consists of names after the top folder, with at most one step
above it, so that there is one way to write it; a relative one may begin with steps up. The normal
form of a normal form is that form itself.
-/

namespace TypeOnly.Path

set_option autoImplicit false

/-! ### Absolute paths -/

/-- An absolute way in normal form, perhaps with a step up from the top folder. -/
def way (above : Bool) (names : List String) : List Part :=
  .root :: ((if above then [.up] else []) ++ names.map .name)

theorem fold_way {above : Bool} {names : List String} (hnames : ∀ s ∈ names, Named s) {part : Part}
    (hpart : part.Follows) : ∃ above' names', (∀ s ∈ names', Named s) ∧
      fold (way above names).reverse part = (way above' names').reverse := by
  cases part with
  | root => exact False.elim hpart
  | here => exact False.elim hpart
  | name s =>
    refine ⟨above, names ++ [s], ?_, ?_⟩
    · intro x hx
      rcases List.mem_append.mp hx with hx | hx
      · exact hnames x hx
      · exact List.mem_singleton.mp hx ▸ hpart
    · simp [way, fold]
  | up =>
    rcases List.eq_nil_or_concat names with rfl | ⟨init, x, rfl⟩
    · -- A second step up takes the first one back.
      cases above with
      | false => exact ⟨true, [], by simp, rfl⟩
      | true => exact ⟨false, [], by simp, rfl⟩
    · refine ⟨above, init, fun s hs => hnames s (by simp [hs]), ?_⟩
      simp [way, fold]

theorem foldl_way {above : Bool} {names : List String} (hnames : ∀ s ∈ names, Named s)
    {parts : List Part} (hparts : ∀ part ∈ parts, part.Follows) :
    ∃ above' names', (∀ s ∈ names', Named s) ∧
      parts.foldl fold (way above names).reverse = (way above' names').reverse := by
  induction parts generalizing above names with
  | nil => exact ⟨above, names, hnames, rfl⟩
  | cons part rest ih =>
    obtain ⟨above', names', hnames', he⟩ := fold_way hnames (hparts part List.mem_cons_self)
    rw [List.foldl_cons, he]
    exact ih hnames' fun q hq => hparts q (List.mem_cons_of_mem _ hq)

theorem normalParts_of_isAbsolute {p : Path} (h : p.isAbsolute = true) :
    ∃ above names, (∀ s ∈ names, Named s) ∧ normalParts p.parts = way above names := by
  have hstart : p.parts.foldl fold [] =
      (p.segments.filterMap Part.ofSegment?).foldl fold (way false []).reverse := by
    unfold parts
    rw [if_pos h]
    rfl
  obtain ⟨above, names, hnames, he⟩ : ∃ above names, (∀ s ∈ names, Named s) ∧
      (p.segments.filterMap Part.ofSegment?).foldl fold (way false []).reverse =
        (way above names).reverse := foldl_way (by simp) fun part => follows_of_segments
  refine ⟨above, names, hnames, ?_⟩
  rw [normalParts, hstart, he, List.reverse_reverse]

/-! ### Relative paths -/

theorem fold_follows {acc : List Part} (hacc : ∀ part ∈ acc, part.Follows) {part : Part}
    (hpart : part = .here ∨ part.Follows) : ∀ q ∈ fold acc part, q.Follows := by
  rcases hpart with rfl | hpart
  · exact hacc
  cases part with
  | root => exact False.elim hpart
  | here => exact False.elim hpart
  | name s =>
    intro q hq
    rcases List.mem_cons.mp hq with rfl | hq
    · exact hpart
    · exact hacc q hq
  | up =>
    cases acc with
    | nil =>
      intro q hq
      obtain rfl := List.mem_singleton.mp hq
      trivial
    | cons last rest =>
      cases last with
      | root => exact False.elim (hacc _ List.mem_cons_self)
      | here | up | name s => exact fun q hq => hacc q (List.mem_cons_of_mem _ hq)

theorem normalParts_of_relative {p : Path} (h : p.isAbsolute = false) :
    ∀ part ∈ normalParts p.parts, part.Follows := by
  have hparts : ∀ part ∈ p.parts, part = .here ∨ part.Follows := by
    intro part hpart
    unfold parts at hpart
    rw [h, if_neg (by simp)] at hpart
    split at hpart
    · rcases List.mem_cons.mp hpart with rfl | hpart
      · exact Or.inl rfl
      · exact Or.inr (follows_of_segments hpart)
    · exact Or.inr (follows_of_segments hpart)
  have hfold (parts acc : List Part) (hacc : ∀ part ∈ acc, part.Follows)
      (hparts : ∀ part ∈ parts, part = .here ∨ part.Follows) :
      ∀ part ∈ parts.foldl fold acc, part.Follows := by
    induction parts generalizing acc with
    | nil => exact hacc
    | cons part rest ih =>
      exact ih _ (fold_follows hacc (hparts part List.mem_cons_self))
        fun q hq => hparts q (List.mem_cons_of_mem _ hq)
  intro part hpart
  exact hfold p.parts [] (by simp) hparts part (List.mem_reverse.mp hpart)

/-- What the normal form of a path is, if it is absolute. -/
theorem normalize_eq_way {p : Path} (h : p.normalize.isAbsolute = true) :
    ∃ above names, (∀ s ∈ names, Named s) ∧ p.normalize = ofParts (way above names) := by
  cases hp : p.isAbsolute with
  | false =>
    have hrelative := not_isAbsolute_ofParts (normalParts_of_relative hp)
    rw [normalize, hrelative] at h
    cases h
  | true =>
    obtain ⟨above, names, hnames, he⟩ := normalParts_of_isAbsolute hp
    exact ⟨above, names, hnames, by rw [normalize, he]⟩

/-! ### Ways -/

theorem isAbsolute_way (above : Bool) (names : List String) :
    (ofParts (way above names)).isAbsolute = true := by
  simp [isAbsolute, ofParts, way]

/-- What stands between the slashes of such a way. -/
def wayTexts (above : Bool) (names : List String) : List String :=
  (if above then [".."] else []) ++ names

theorem segments_way (above : Bool) {names : List String} (hnames : ∀ s ∈ names, Named s) :
    (ofParts (way above names)).segments =
      "" :: if wayTexts above names = [] then [""] else wayTexts above names := by
  have htexts : ((if above then [Part.up] else []) ++ names.map Part.name).map Part.text =
      wayTexts above names := by
    rw [List.map_append, List.map_map, wayTexts]
    cases above <;> simp [Function.comp_def, Part.text]
  have hsplit : (ofParts (way above names)).segments =
      "" :: (Text.splitOn '/' (['/'].intercalate
        ((wayTexts above names).map String.toList))).map String.ofList := by
    simp only [segments, Text.fields, ofParts, way, htexts, String.toList_append,
      String.toList_intercalate]
    rfl
  rw [hsplit]
  by_cases hnone : wayTexts above names = []
  · rw [hnone]
    rfl
  rw [if_neg hnone, Text.splitOn_intercalate, List.map_map]
  · simp [Function.comp_def]
  · simpa using hnone
  · intro field hfield
    obtain ⟨s, hs, rfl⟩ := List.mem_map.mp hfield
    rcases List.mem_append.mp hs with hs | hs
    · cases above with
      | false => simp at hs
      | true =>
        obtain rfl := List.mem_singleton.mp hs
        decide
    · exact (hnames s hs).2

theorem parts_way (above : Bool) {names : List String} (hnames : ∀ s ∈ names, Named s) :
    (ofParts (way above names)).parts = way above names := by
  have hnamed : names.filterMap Part.ofSegment? = names.map Part.name := by
    rw [← List.filterMap_eq_map]
    apply List.filterMap_congr
    intro s hs
    obtain ⟨⟨hempty, hdot, hup⟩, _⟩ := hnames s hs
    simp [Part.ofSegment?, hempty, hdot, hup]
  have htexts : (wayTexts above names).filterMap Part.ofSegment? =
      (if above then [Part.up] else []) ++ names.map Part.name := by
    rw [wayTexts, List.filterMap_append, hnamed]
    cases above <;> rfl
  unfold parts
  rw [isAbsolute_way, if_pos rfl, segments_way above hnames, way, ← htexts]
  by_cases hnone : wayTexts above names = []
  · rw [hnone]
    rfl
  · rw [if_neg hnone]
    rfl

theorem size_way (above : Bool) {names : List String} (hnames : ∀ s ∈ names, Named s) :
    (ofParts (way above names)).text.utf8ByteSize =
      if wayTexts above names = [] then 1 else width (wayTexts above names) := by
  have hwidth := width_segments (ofParts (way above names))
  rw [segments_way above hnames, width_cons] at hwidth
  have hempty : "".utf8ByteSize = 0 := rfl
  split
  · rename_i hnone
    rw [if_pos hnone, width_cons, width] at hwidth
    omega
  · rename_i hsome
    rw [if_neg hsome] at hwidth
    omega

theorem last_way (above : Bool) {names : List String} (hnames : ∀ s ∈ names, Named s)
    (hsome : wayTexts above names ≠ []) :
    (ofParts (way above names)).text.toList.getLast? ≠ some '/' := by
  intro hlast
  obtain ⟨front, hfront, _⟩ := exists_segments_of_last hlast
  have hend : (wayTexts above names).getLast? = some "" := by
    have hsegments := segments_way above hnames
    rw [if_neg hsome, hfront] at hsegments
    have hboth := congrArg List.getLast? hsegments
    rw [List.getLast?_concat, ← List.singleton_append,
      List.getLast?_append_of_ne_nil _ hsome] at hboth
    exact hboth.symm
  rcases List.mem_append.mp (List.mem_of_getLast? hend) with hup | hname
  · cases above with
    | false => simp at hup
    | true => simp at hup
  · exact (hnames "" hname).1.1 rfl

theorem child_way (above : Bool) {names : List String} (hnames : ∀ s ∈ names, Named s)
    {name : String} (hname : Named name) :
    (ofParts (way above names)).child name = ofParts (way above (names ++ [name])) := by
  have hmore : ∀ s ∈ names ++ [name], Named s := by
    intro s hs
    rcases List.mem_append.mp hs with hs | hs
    · exact hnames s hs
    · exact List.mem_singleton.mp hs ▸ hname
  have hsegments := segments_way above hnames
  have htexts : wayTexts above (names ++ [name]) = wayTexts above names ++ [name] :=
    (List.append_assoc _ _ _).symm
  apply eq_of_segments
  rw [segments_way above hmore, htexts, if_neg (by simp)]
  rw [child_eq hname.2]
  by_cases hnone : wayTexts above names = []
  · have htop : (ofParts (way above names)).text = "" ++ "/" := by
      obtain ⟨habove, rfl⟩ := List.append_eq_nil_iff.mp hnone
      cases above with
      | false => rfl
      | true => cases habove
    rw [htop, if_pos (by decide), segments_append_slash "" name hname.2, hnone]
    rfl
  · rw [if_neg hnone] at hsegments
    have hne : (ofParts (way above names)).text ≠ "" := by
      intro hempty
      have habsolute := isAbsolute_way above names
      simp [isAbsolute, hempty] at habsolute
    rw [if_neg (by simp [hne, last_way above hnames hnone]), segments_append_slash _ _ hname.2,
      hsegments]
    rfl

theorem rooted_eq_way (names : List String) : rooted names = ofParts (way false names) := by
  rw [rooted, way, ofParts]
  simp [Part.text, Function.comp_def]

/-! ### Normal forms -/

theorem isAbsolute_normalize {p : Path} (h : p.isAbsolute = true) :
    p.normalize.isAbsolute = true := by
  obtain ⟨above, names, _, hway⟩ := normalParts_of_isAbsolute h
  rw [normalize, hway]
  exact isAbsolute_way above names

theorem foldl_names (acc : List Part) (names : List String) :
    (names.map Part.name).foldl fold acc = (names.map Part.name).reverse ++ acc := by
  induction names generalizing acc with
  | nil => rfl
  | cons s names ih => simp [ih, fold]

theorem normalParts_way (above : Bool) (names : List String) :
    normalParts (way above names) = way above names := by
  unfold normalParts way
  rw [List.foldl_cons, List.foldl_append, foldl_names]
  cases above <;> simp [fold]

theorem normalize_normalize {p : Path} (h : p.isAbsolute = true) :
    p.normalize.normalize = p.normalize := by
  obtain ⟨above, names, hnames, hway⟩ := normalParts_of_isAbsolute h
  rw [normalize, normalize, hway, parts_way above hnames, normalParts_way]

theorem parts_normalize (p : Path) : p.normalize.parts = normalParts p.parts := by
  cases h : p.isAbsolute with
  | true =>
    obtain ⟨above, names, hnames, hway⟩ := normalParts_of_isAbsolute h
    rw [normalize, hway, parts_way above hnames]
  | false => exact parts_ofParts (normalParts_of_relative h)

theorem isAbsolute_of_normalize (p : Path) : p.normalize.isAbsolute = p.isAbsolute := by
  cases h : p.isAbsolute with
  | true => exact isAbsolute_normalize h
  | false => exact not_isAbsolute_ofParts (normalParts_of_relative h)

def IsNormal (p : Path) : Prop := ∃ q : Path, p = q.normalize

theorem IsNormal.ofParts_parts {p : Path} (hp : p.IsNormal) : ofParts p.parts = p := by
  obtain ⟨q, rfl⟩ := hp
  cases hq : q.isAbsolute with
  | true =>
    obtain ⟨above, names, hnames, he⟩ := normalParts_of_isAbsolute hq
    rw [normalize, he, parts_way above hnames]
  | false => rw [normalize, parts_ofParts (normalParts_of_relative hq)]

theorem IsNormal.eq_of_parts {p q : Path} (hp : p.IsNormal) (hq : q.IsNormal)
    (h : p.parts = q.parts) : p = q := by
  rw [← hp.ofParts_parts, h, hq.ofParts_parts]

theorem IsNormal.same_iff {p q : Path} (hp : p.IsNormal) (hq : q.IsNormal) :
    p.same q = true ↔ p = q := by
  rw [Path.same_iff]
  constructor
  · exact hp.eq_of_parts hq
  · rintro rfl
    rfl

theorem normalize_child {base : Path} (h : base.isAbsolute = true) {name : String}
    (hname : Named name) : (base.child name).normalize = base.normalize.child name := by
  obtain ⟨above, names, hnames, hway⟩ := normalParts_of_isAbsolute h
  have hparts : normalParts (base.child name).parts = way above (names ++ [name]) := by
    have hlast : normalParts (base.parts ++ [.name name]) =
        normalParts base.parts ++ [.name name] := by
      rw [normalParts, List.foldl_append]
      exact List.reverse_cons
    rw [parts_child h hname, hlast, hway]
    simp [way]
  rw [normalize, normalize, hparts, hway, child_way above hnames hname]

theorem IsTop.normalize {base : Path} (h : base.IsTop) : base.normalize = ⟨"/"⟩ := by
  rw [Path.normalize, h.parts]
  decide

theorem isAbsolute_locate {folder : Path} (h : folder.isAbsolute = true) (p : Path) :
    (folder.locate p).isAbsolute = true := isAbsolute_normalize (isAbsolute_join h p)

theorem fileName?_normalize {p : Path} {name : String} (hname : p.fileName? = some name) :
    p.normalize.fileName? = some name := by
  have hparts : p.normalize.parts = normalParts p.parent.parts ++ [.name name] := by
    rw [parts_normalize, parts_of_fileName? hname, normalParts, List.foldl_append]
    exact List.reverse_cons
  exact fileName?_of_parts hparts

/-- One path is the other with a step up from the top folder, which leads nowhere else. -/
def DiffersAbove (a b : Path) : Prop :=
  ∃ rest, a.parts = .root :: .up :: rest ∧ b.parts = .root :: rest

end TypeOnly.Path
