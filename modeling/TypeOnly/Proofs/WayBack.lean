import TypeOnly.Proofs.Destination

/-!
The way from a folder to a path, both absolute and in normal form. It steps up to the last folder
that they have in common and goes down from there, and seen from the folder it is the path again.
-/

namespace TypeOnly

set_option autoImplicit false

namespace Path

/-! ### What two paths begin with in common -/

/-- Two lists with what they begin with in common cut off. -/
structure Parted (as bs common down up : List Part) : Prop where
  left : as = common ++ down
  right : bs = common ++ up
  longest : ∀ c, c <+: as → c <+: bs → c <+: common

theorem parted_dropCommon (as bs : List Part) :
    ∃ common, Parted as bs common (dropCommon as bs).1 (dropCommon as bs).2 := by
  induction as generalizing bs with
  | nil => exact ⟨[], rfl, rfl, fun c hc _ => hc⟩
  | cons a as ih =>
    cases bs with
    | nil => exact ⟨[], rfl, rfl, fun c _ hc => hc⟩
    | cons b bs =>
      -- what both begin with begins with the same part
      have hcons {c : List Part} (hc : c <+: a :: as) (hc' : c <+: b :: bs) (hne : c ≠ []) :
          a = b ∧ ∃ rest, c = a :: rest ∧ rest <+: as ∧ rest <+: bs := by
        cases c with
        | nil => exact False.elim (hne rfl)
        | cons x rest =>
          obtain ⟨hxa, hrest⟩ := List.cons_prefix_cons.mp hc
          obtain ⟨hxb, hrest'⟩ := List.cons_prefix_cons.mp hc'
          exact ⟨hxa.symm.trans hxb, rest, by rw [hxa], hrest, hrest'⟩
      rw [dropCommon]
      split
      · rename_i hab
        subst hab
        obtain ⟨common, hleft, hright, hlongest⟩ := ih bs
        refine ⟨a :: common, congrArg (a :: ·) hleft, congrArg (a :: ·) hright, ?_⟩
        intro c hc hc'
        by_cases hne : c = []
        · exact hne ▸ List.nil_prefix
        · obtain ⟨_, rest, rfl, hrest, hrest'⟩ := hcons hc hc' hne
          exact List.cons_prefix_cons.mpr ⟨rfl, hlongest rest hrest hrest'⟩
      · rename_i hab
        refine ⟨[], rfl, rfl, ?_⟩
        intro c hc hc'
        by_cases hne : c = []
        · exact hne ▸ List.nil_prefix
        · exact False.elim (hab (hcons hc hc' hne).1)

/-! ### Up and down -/

variable {above : Bool} {names : List String} {parts : List Part}

theorem way_of_prefix (h : parts <+: way above names) (hne : parts ≠ []) :
    ∃ above' names', parts = way above' names' := by
  rw [List.prefix_iff_eq_take] at h
  generalize parts.length = n at h
  subst h
  cases n with
  | zero => exact False.elim (hne rfl)
  | succ n =>
    cases above with
    | false => exact ⟨false, names.take n, by simp [way]⟩
    | true =>
      cases n with
      | zero => exact ⟨false, [], rfl⟩
      | succ n => exact ⟨true, names.take n, by simp [way]⟩

theorem foldl_way_self (above : Bool) (names : List String) :
    (way above names).foldl fold [] = (way above names).reverse := by
  rw [← normalParts_way above names, normalParts, List.reverse_reverse]
  exact congrArg (List.foldl fold []) (normalParts_way above names)

/-- Steps up take back what stands after the top folder. -/
theorem foldl_ups {acc : List Part} (h : .root ∉ parts) :
    (List.replicate parts.length .up).foldl fold (parts ++ acc) = acc := by
  induction parts with
  | nil => rfl
  | cons part rest ih =>
    obtain ⟨hpart, hrest⟩ := not_or.mp (List.mem_cons.not.mp h)
    have hstep : fold (part :: rest ++ acc) .up = rest ++ acc := by
      cases part with
      | root => exact False.elim (hpart rfl)
      | here | up | name s => rfl
    rw [List.length_cons, List.replicate_succ, List.foldl_cons, hstep, ih hrest]

/-- From a folder up to what it has in common with a path, and down to the path. -/
theorem normalParts_up_down {common down up : List Part} {above' : Bool} {names' : List String}
    (hp : way above names = common ++ down) (hb : way above' names' = common ++ up)
    (hne : common ≠ []) :
    normalParts (common ++ up ++ (List.replicate up.length .up ++ down)) = common ++ down := by
  have hroot : .root ∉ up := by
    obtain ⟨part, rest, rfl⟩ := List.exists_cons_of_ne_nil hne
    have htail : (if above' then [Part.up] else []) ++ names'.map Part.name = rest ++ up :=
      (List.cons.inj hb).2
    intro hmem
    have hmem' := List.mem_append_right rest hmem
    rw [← htail] at hmem'
    cases above' <;> simp at hmem'
  have hcommon : common.foldl fold [] = common.reverse := by
    obtain ⟨a, ns, rfl⟩ := way_of_prefix (hp ▸ List.prefix_append common down) hne
    exact foldl_way_self a ns
  have hdown : down.foldl fold common.reverse = (common ++ down).reverse := by
    rw [← hcommon, ← List.foldl_append, ← hp]
    exact foldl_way_self above names
  have hback :
      (List.replicate up.length .up).foldl fold (common ++ up).reverse = common.reverse := by
    rw [List.reverse_append, ← List.length_reverse]
    exact foldl_ups (by simpa using hroot)
  have hfolder : (common ++ up).foldl fold [] = (common ++ up).reverse := by
    rw [← hb]
    exact foldl_way_self above' names'
  rw [normalParts, List.foldl_append, List.foldl_append, hfolder, hback, hdown,
    List.reverse_reverse]

theorem segments_of_here_not_mem {p : Path} (h : p.isAbsolute = false) (hhere : .here ∉ p.parts) :
    p.segments.filterMap Part.ofSegment? = p.parts := by
  rw [parts, h, if_neg (by simp)] at hhere ⊢
  split
  · rename_i hdot
    rw [if_pos hdot] at hhere
    exact False.elim (hhere List.mem_cons_self)
  · rfl

theorem Parted.exists_rest {as bs common down up : List Part}
    (h : Parted (.root :: as) (.root :: bs) common down up) :
    ∃ rest, common = .root :: rest ∧ as = rest ++ down := by
  obtain ⟨rest, rfl⟩ : [.root] <+: common := h.longest [.root] ⟨as, rfl⟩ ⟨bs, rfl⟩
  exact ⟨rest, rfl, (List.cons.inj h.left).2⟩

theorem parts_wayFrom {p b : Path} (hp : p.isAbsolute = true) (hb : b.isAbsolute = true) :
    ∃ common down up, Parted p.parts b.parts common down up ∧ common ≠ [] ∧
      (p.wayFrom b).isAbsolute = false ∧
      (p.wayFrom b).parts = List.replicate up.length .up ++ down ∧ .here ∉ (p.wayFrom b).parts := by
  obtain ⟨common, hparted⟩ := parted_dropCommon p.parts b.parts
  have hfrom : p.wayFrom b = ofParts (List.replicate (dropCommon p.parts b.parts).2.length .up ++
      (dropCommon p.parts b.parts).1) := by
    rw [wayFrom, parts_of_isAbsolute hp, parts_of_isAbsolute hb, if_neg (by simp)]
  generalize (dropCommon p.parts b.parts).1 = down at hparted hfrom
  generalize (dropCommon p.parts b.parts).2 = up at hparted hfrom
  obtain ⟨rest, hcommon, hrest⟩ :=
    (parts_of_isAbsolute hp ▸ parts_of_isAbsolute hb ▸ hparted).exists_rest
  have hfollows : ∀ part ∈ List.replicate up.length .up ++ down, part.Follows := by
    intro part hpart
    rcases List.mem_append.mp hpart with hpart | hpart
    · rw [List.eq_of_mem_replicate hpart]
      trivial
    · apply follows_of_segments
      rw [hrest]
      exact List.mem_append_right rest hpart
  have hparts := parts_ofParts hfollows
  rw [hfrom, hparts]
  exact ⟨common, down, up, hparted, by simp [hcommon], not_isAbsolute_ofParts hfollows, rfl,
    fun hhere => hfollows .here hhere⟩

/-- The way from a folder to a path, both in normal form. It takes as many steps up as there are
parts of the folder after what both begin with, and goes down the parts of the path after that. -/
theorem locate_wayFrom (p b : Path) (hp : p.isAbsolute = true) (hb : b.isAbsolute = true) :
    p.normalize.normalize = p.normalize ∧
    b.normalize.locate (p.normalize.wayFrom b.normalize) = p.normalize ∧
    (p.normalize.wayFrom b.normalize).isAbsolute = false ∧
    ∃ common down up, Parted p.normalize.parts b.normalize.parts common down up ∧
      (p.normalize.wayFrom b.normalize).parts = List.replicate up.length .up ++ down := by
  have habsolute := isAbsolute_normalize hb
  obtain ⟨above, names, _, hway⟩ := normalParts_of_isAbsolute hp
  obtain ⟨above', names', _, hway'⟩ := normalParts_of_isAbsolute hb
  rw [← parts_normalize] at hway hway'
  obtain ⟨common, down, up, hparted, hne, hrelative, hparts, hhere⟩ :=
    parts_wayFrom (isAbsolute_normalize hp) habsolute
  refine ⟨normalize_normalize hp, ?_, hrelative, common, down, up, hparted, hparts⟩
  rw [locate, normalize, parts_join habsolute hrelative, segments_of_here_not_mem hrelative hhere,
    hparts, hparted.right, normalParts_up_down (hway.symm.trans hparted.left)
      (hway'.symm.trans hparted.right) hne, ← hparted.left]
  exact IsNormal.ofParts_parts ⟨p, rfl⟩

theorem locate_wayFrom_above :
    (normalize ⟨"/x/../../b"⟩).wayFrom (normalize ⟨"/a/./c"⟩) = ⟨"../../../b"⟩ ∧
    (normalize ⟨"/a/./c"⟩).locate ⟨"../../../b"⟩ = ⟨"/../b"⟩ := by
  obtain ⟨_, hback, _⟩ := locate_wayFrom ⟨"/x/../../b"⟩ ⟨"/a/./c"⟩ (by decide) (by decide)
  have hway : (normalize ⟨"/x/../../b"⟩).wayFrom (normalize ⟨"/a/./c"⟩) = ⟨"../../../b"⟩ := by
    decide
  rw [hway] at hback
  exact ⟨hway, hback.trans (by decide)⟩

end Path

end TypeOnly
