import TypeOnly.Proofs.DiskEntries
import TypeOnly.Proofs.NormalPaths

/-!
Where paths lead on a disk. A path and its normal form lead to the same place, as long as the path
is not too long, and so do all spellings of one way; a path in normal form that leads to a place is
the way there.
-/

namespace TypeOnly

set_option autoImplicit false

namespace Disk

variable {d : Disk}

/-! ### Following segments -/

theorem walk_append (d : Disk) (loc : Location) (first second : List String) :
    d.walk loc (first ++ second) = (d.walk loc first).bind fun loc => d.walk loc second := by
  induction first generalizing loc with
  | nil => rfl
  | cons s first ih =>
    simp only [List.cons_append, walk]
    split
    · rfl
    · split
      · exact ih loc
      · split
        · exact ih loc.dropLast
        · split
          · rfl
          · split
            · exact ih (loc ++ [s])
            · rfl

/-- One step of a walk. -/
inductive Step (d : Disk) : Location → String → Location → Prop where
  | idle {loc : Location} {s : String} (hfolder : d.isFolderAt loc = true)
      (h : s = "" ∨ s = ".") : Step d loc s loc
  | up {loc : Location} (hfolder : d.isFolderAt loc = true) : Step d loc ".." loc.dropLast
  | name {loc : Location} {s : String} (hfolder : d.isFolderAt loc = true)
      (h : Path.Ordinary s) (hsize : s.utf8ByteSize ≤ maxName)
      (hget : (d.get? (loc ++ [s])).isSome = true) : Step d loc s (loc ++ [s])

/-- A walk that goes on takes one step and then the others. -/
theorem walk_cons_eq_ok_iff {loc loc' : Location} {s : String} {rest : List String} :
    d.walk loc (s :: rest) = .ok loc' ↔
      ∃ next, d.Step loc s next ∧ d.walk next rest = .ok loc' := by
  constructor
  · intro h
    rw [walk] at h
    split at h
    · cases h
    · rename_i hfolder
      have hfolder : d.isFolderAt loc = true := by simpa using hfolder
      split at h
      · rename_i hidle
        exact ⟨loc, .idle hfolder (by simpa using hidle), h⟩
      · rename_i hidle
        simp only [Bool.or_eq_true, decide_eq_true_eq, not_or] at hidle
        split at h
        · rename_i hup
          subst hup
          exact ⟨loc.dropLast, .up hfolder, h⟩
        · rename_i hup
          split at h
          · cases h
          · rename_i hsize
            split at h
            · rename_i hget
              have hs : Path.Ordinary s := ⟨hidle.1, hidle.2, hup⟩
              exact ⟨loc ++ [s], .name hfolder hs (Nat.not_lt.mp hsize) hget, h⟩
            · cases h
  · rintro ⟨next, hstep, h⟩
    cases hstep with
    | idle hfolder hidle => rw [walk, if_neg (by simp [hfolder]), if_pos (by simpa using hidle), h]
    | up hfolder => rw [walk, if_neg (by simp [hfolder]), if_neg (by decide), if_pos rfl, h]
    | name hfolder hs hsize hget =>
      obtain ⟨hempty, hdot, hup⟩ := hs
      rw [walk, if_neg (by simp [hfolder]), if_neg (by simp [hempty, hdot]), if_neg hup,
        if_neg (Nat.not_lt.mpr hsize), if_pos hget, h]

theorem walk_singleton_eq_ok_iff {loc loc' : Location} {s : String} :
    d.walk loc [s] = .ok loc' ↔ d.Step loc s loc' := by
  rw [walk_cons_eq_ok_iff]
  constructor
  · rintro ⟨next, hstep, h⟩
    exact Except.ok.inj h ▸ hstep
  · intro hstep
    exact ⟨loc', hstep, rfl⟩

theorem walk_reached {loc loc' : Location} {segments : List String}
    (hloc : loc.Reached d.isFolderAt) (h : d.walk loc segments = .ok loc') :
    loc'.Reached d.isFolderAt := by
  induction segments generalizing loc with
  | nil => exact Except.ok.inj h ▸ hloc
  | cons s rest ih =>
    obtain ⟨next, hstep, h⟩ := walk_cons_eq_ok_iff.mp h
    cases hstep with
    | idle => exact ih hloc h
    | up => exact ih hloc.dropLast h
    | name hfolder => exact ih (hloc.concat hfolder s) h

/-- The way to a file ends with its name. -/
theorem walk_file {loc : Location} {segments : List String} (h : d.walk [] segments = .ok loc)
    (hfile : d.isFolderAt loc = false) :
    ∃ init name folder, segments = init ++ [name] ∧ Path.Ordinary name ∧
      d.walk [] init = .ok folder ∧ loc = folder ++ [name] := by
  rcases List.eq_nil_or_concat segments with rfl | ⟨init, name, rfl⟩
  · obtain rfl := Except.ok.inj h
    simp [isFolderAt, get?] at hfile
  · rw [List.concat_eq_append, walk_append] at h
    cases hinit : d.walk [] init with
    | error o =>
      rw [hinit] at h
      simp [Except.bind] at h
    | ok folder =>
      have hreached : folder.Reached d.isFolderAt := walk_reached (.nil _) hinit
      rw [hinit] at h
      cases walk_singleton_eq_ok_iff.mp h with
      | idle hfolder =>
        rw [hfolder] at hfile
        cases hfile
      | up hfolder =>
        rw [hreached.isFolderAt_dropLast hfolder] at hfile
        cases hfile
      | name _ hname =>
        exact ⟨init, name, folder, List.concat_eq_append, hname, hinit, rfl⟩

theorem walk_names {loc loc' : Location} {names : List String}
    (hnames : ∀ s ∈ names, Path.Ordinary s) (h : d.walk loc names = .ok loc') :
    loc' = loc ++ names := by
  induction names generalizing loc with
  | nil =>
    rw [List.append_nil]
    exact (Except.ok.inj h).symm
  | cons s rest ih =>
    have hs := hnames s List.mem_cons_self
    obtain ⟨next, hstep, h⟩ := walk_cons_eq_ok_iff.mp h
    cases hstep with
    | idle _ hidle => exact (hidle.elim hs.1 hs.2.1).elim
    | up => exact (hs.2.2 rfl).elim
    | name =>
      rw [ih (fun x hx => hnames x (List.mem_cons_of_mem s hx)) h, List.append_assoc,
        List.singleton_append]

theorem walk_idle {segments : List String} (h : segments.all Path.isIdle = true) :
    d.walk [] segments = .ok [] := by
  induction segments with
  | nil => rfl
  | cons s rest ih =>
    rw [List.all_cons, Bool.and_eq_true] at h
    have hidle : (s = "" || s = ".") = true := h.1
    rw [walk, isFolderAt_nil, if_neg (by simp), if_pos hidle, ih h.2]

theorem walk_of_not_folder {loc : Location} {segments : List String} (hsegments : segments ≠ [])
    (h : d.isFolderAt loc = false) : d.walk loc segments = .error .notFolder := by
  cases segments with
  | nil => exact False.elim (hsegments rfl)
  | cons s rest => simp [walk, h]

/-- Before another stretch, those that add nothing can be left out. -/
theorem walk_texts (loc : Location) (segments : List String) {last : List String}
    (hlast : last ≠ []) : d.walk loc (segments ++ last) =
      d.walk loc ((segments.filterMap Part.ofSegment?).map Part.text ++ last) := by
  induction segments generalizing loc with
  | nil => rfl
  | cons s rest ih =>
    cases hpart : Part.ofSegment? s with
    | none =>
      have hidle : (decide (s = "") || decide (s = ".")) = true := by
        unfold Part.ofSegment? at hpart
        split at hpart
        · assumption
        · split at hpart <;> cases hpart
      rw [List.filterMap_cons_none hpart, List.cons_append, ← ih loc, walk]
      cases hfolder : d.isFolderAt loc with
      | false => rw [walk_of_not_folder (by simp [hlast]) hfolder]; rfl
      | true => rw [if_neg (by simp), if_pos hidle]
    | some part =>
      have htext : part.text = s := by
        unfold Part.ofSegment? at hpart
        split at hpart
        · cases hpart
        · split at hpart
          · rename_i hup
            obtain rfl := Option.some.inj hpart
            exact hup.symm
          · obtain rfl := Option.some.inj hpart
            rfl
      rw [List.filterMap_cons_some hpart, List.map_cons, htext, List.cons_append, List.cons_append,
        walk, walk, ih loc, ih loc.dropLast, ih (loc ++ [s])]

/-! ### Places of paths -/

theorem walk_of_find {p : Path} {loc : Location} (h : d.find p = .ok loc) :
    d.walk [] p.segments = .ok loc := by
  unfold find at h
  split at h
  · cases h
  · split at h
    · exact h
    · cases h

theorem find_of_read {p : Path} {text : String} (h : d.read p = .ok text) :
    ∃ loc bytes, d.find p = .ok loc ∧ d.get? loc = some (.file bytes) := by
  unfold read at h
  cases hb : d.readBytes p with
  | error e =>
    rw [hb] at h
    cases h
  | ok bytes =>
    unfold readBytes at hb
    split at hb
    · cases hb
    · cases hb
    · rename_i loc hfind
      split at hb
      · rename_i hget
        exact ⟨loc, _, hfind, hget⟩
      · cases hb
      · cases hb

theorem find_of_isFile {p : Path} (h : d.isFile p = true) :
    ∃ loc bytes, d.find p = .ok loc ∧ loc ≠ [] ∧ (loc, Entry.file bytes) ∈ d.entries := by
  unfold isFile entry? at h
  cases hfind : d.find p with
  | error o => simp [hfind] at h
  | ok loc =>
    rw [hfind] at h
    dsimp only at h
    split at h
    · rename_i bytes hget
      have hne : loc ≠ [] := by
        rintro rfl
        cases hget
      rw [get?_of_ne_nil hne] at hget
      obtain ⟨before, after, hentries, _⟩ := List.lookup_eq_some_iff.mp hget
      exact ⟨loc, bytes, rfl, hne, by simp [hentries]⟩
    · cases h

def fileCount (d : Disk) : Nat := (d.entries.filter fun e => e.2 ≠ .folder).length

/-- Files at different places are no more than there are. -/
theorem length_le_fileCount {paths : List Path} (hfile : ∀ p ∈ paths, d.isFile p = true)
    (hdistinct : (paths.map d.find).Nodup) : paths.length ≤ d.fileCount := by
  have hsub :
      paths.map d.find ⊆ (d.entries.filter fun e => e.2 ≠ .folder).map fun e => .ok e.1 := by
    intro place hplace
    obtain ⟨p, hp, rfl⟩ := List.mem_map.mp hplace
    obtain ⟨loc, bytes, hfind, _, hmem⟩ := find_of_isFile (hfile p hp)
    rw [hfind]
    exact List.mem_map.mpr ⟨(loc, .file bytes), List.mem_filter.mpr ⟨hmem, by simp⟩, rfl⟩
  have hlength := hdistinct.length_le_of_subset hsub
  rwa [List.length_map, List.length_map] at hlength

theorem isAbsolute_of_find {p : Path} {loc : Location} (h : d.find p = .ok loc) :
    p.isAbsolute = true ∧ p.text.utf8ByteSize ≤ maxPath := by
  unfold find at h
  split at h
  · cases h
  · rename_i hsize
    split at h
    · rename_i habsolute
      exact ⟨habsolute, Nat.not_lt.mp hsize⟩
    · cases h

theorem find_of_long {p : Path} (h : maxPath < p.text.utf8ByteSize) :
    d.find p = .error .tooLong := by
  rw [find, if_pos h]

theorem entry?_of_long {p : Path} (h : maxPath < p.text.utf8ByteSize) : d.entry? p = none := by
  unfold entry?
  rw [find_of_long h]

theorem read_of_find_eq {p q : Path} (h : d.find p = d.find q) :
    (d.read p).toOption = (d.read q).toOption := by
  unfold read readBytes
  rw [h]
  cases hfind : d.find q with
  | error o => cases o <;> rfl
  | ok loc =>
    dsimp only
    cases hget : d.get? loc with
    | none => rfl
    | some e =>
      cases e with
      | folder => rfl
      | file bytes =>
        simp only [bind, Except.bind]
        cases String.fromUTF8? bytes <;> rfl

/-- A path in normal form leads to where its names say. -/
theorem find_way {above : Bool} {names : List String} (hnames : ∀ s ∈ names, Path.Named s)
    {loc : Location} (h : d.find (.ofParts (Path.way above names)) = .ok loc) : loc = names := by
  have hwalk := walk_of_find h
  have hordinary := fun s hs => (hnames s hs).1
  rw [Path.segments_way above hnames] at hwalk
  change d.walk [] _ = _ at hwalk
  by_cases hnone : Path.wayTexts above names = []
  · rw [hnone, if_pos rfl] at hwalk
    obtain ⟨_, rfl⟩ := List.append_eq_nil_iff.mp hnone
    exact (Except.ok.inj hwalk).symm
  · rw [if_neg hnone] at hwalk
    cases above with
    | false => exact walk_names hordinary hwalk
    | true => exact walk_names hordinary hwalk

end Disk

namespace Path

theorem IsNormal.way_of_find {d : Disk} {p : Path} {loc : Location} (hp : p.IsNormal)
    (h : d.find p = .ok loc) : ∃ above, p.parts = way above loc := by
  have habsolute : p.isAbsolute = true := by
    unfold Disk.find at h
    split at h
    · cases h
    · split at h
      · assumption
      · cases h
  obtain ⟨q, rfl⟩ := hp
  obtain ⟨above, names, hnames, he⟩ := normalize_eq_way habsolute
  rw [he] at h ⊢
  obtain rfl := Disk.find_way hnames h
  exact ⟨above, parts_way above hnames⟩

theorem IsNormal.eq_or_differsAbove {d : Disk} {p q : Path} {loc : Location} (hp : p.IsNormal)
    (hq : q.IsNormal) (hfp : d.find p = .ok loc) (hfq : d.find q = .ok loc) :
    p.parts = q.parts ∨ p.DiffersAbove q ∨ q.DiffersAbove p := by
  obtain ⟨above, he⟩ := hp.way_of_find hfp
  obtain ⟨above', he'⟩ := hq.way_of_find hfq
  rw [he, he']
  cases above with
  | false =>
    cases above' with
    | false => exact Or.inl rfl
    | true => exact Or.inr (Or.inr ⟨_, he', he⟩)
  | true =>
    cases above' with
    | false => exact Or.inr (Or.inl ⟨_, he, he'⟩)
    | true => exact Or.inl rfl

end Path

namespace Disk

open TypeOnly.Path (rooted Named way wayTexts width)

variable {d : Disk}

/-! ### Normal forms -/

/-- A way on which each step can be taken. -/
structure Leads (d : Disk) (names : List String) : Prop where
  walk : d.walk [] names = .ok names
  named : ∀ s ∈ names, Named s

theorem Leads.ordinary {names : List String} (h : d.Leads names) :
    ∀ s ∈ names, Path.Ordinary s := fun s hs => (h.named s hs).1

theorem Leads.init {names : List String} {s : String} (h : d.Leads (names ++ [s])) :
    d.Leads names := by
  refine ⟨?_, fun x hx => h.named x (List.mem_append_left _ hx)⟩
  have hwalk := h.walk
  rw [walk_append] at hwalk
  cases hinit : d.walk [] names with
  | error o =>
    rw [hinit] at hwalk
    cases hwalk
  | ok loc =>
    have hloc := walk_names (fun x hx => h.ordinary x (List.mem_append_left _ hx)) hinit
    rw [hloc, List.nil_append]

section Steps

variable {names next : List String} {s : String} (hnames : d.Leads names)
include hnames

theorem Leads.name (hs : '/' ∉ s.toList) (h : d.Step names s (names ++ [s]))
    (hordinary : Path.Ordinary s) : d.Leads (names ++ [s]) := by
  refine ⟨?_, ?_⟩
  · rw [walk_append, hnames.walk]
    exact walk_singleton_eq_ok_iff.mpr h
  · intro x hx
    rcases List.mem_append.mp hx with hx | hx
    · exact hnames.named x hx
    · exact List.mem_singleton.mp hx ▸ ⟨hordinary, hs⟩

/-- A step up takes the last name back, or is one from the top folder. -/
theorem Leads.up (above : Bool) : ∃ above', d.Leads names.dropLast ∧
    Path.fold (way above names).reverse .up = (way above' names.dropLast).reverse ∧
    width (wayTexts above' names.dropLast) ≤ width (wayTexts above names) + 3 := by
  rcases List.eq_nil_or_concat names with rfl | ⟨init, x, rfl⟩
  · refine ⟨!above, hnames, ?_, ?_⟩
    · cases above <;> rfl
    · cases above <;> decide
  · rw [List.concat_eq_append] at hnames ⊢
    rw [List.dropLast_concat]
    refine ⟨above, hnames.init, by simp [way, Path.fold], ?_⟩
    have hless : wayTexts above (init ++ [x]) = wayTexts above init ++ [x] := by simp [wayTexts]
    rw [hless, Path.width_append]
    omega

/-- After a step, the names that are left of the way still say where it leads. -/
theorem Leads.step (above : Bool) (hs : '/' ∉ s.toList) (h : d.Step names s next) :
    ∃ above', d.Leads next ∧
      ([s].filterMap Part.ofSegment?).foldl Path.fold (way above names).reverse =
        (way above' next).reverse ∧
      width (wayTexts above' next) ≤ width (wayTexts above names) + width [s] := by
  have hone : width [s] = s.utf8ByteSize + 1 := by simp [width]
  cases h with
  | idle _ hidle =>
    have hnone : Part.ofSegment? s = none := by simp [Part.ofSegment?, hidle]
    refine ⟨above, hnames, ?_, Nat.le_add_right _ _⟩
    rw [List.filterMap_cons_none hnone]
    rfl
  | up =>
    obtain ⟨above', hleads, hfold, hwidth⟩ := hnames.up above
    exact ⟨above', hleads, hfold, hwidth⟩
  | name hfolder hordinary hsize hget =>
    have hpart : Part.ofSegment? s = some (.name s) := by
      simp [Part.ofSegment?, hordinary.1, hordinary.2.1, hordinary.2.2]
    refine ⟨above, hnames.name hs (.name hfolder hordinary hsize hget) hordinary, ?_, ?_⟩
    · rw [List.filterMap_cons_some hpart]
      simp [way, Path.fold]
    · have hmore : wayTexts above (names ++ [s]) = wayTexts above names ++ [s] := by
        simp [wayTexts]
      rw [hmore, Path.width_append]

end Steps

/-- The names that are left of a way say where it leads, and take no more room than the way. -/
theorem Leads.walk_fold (above : Bool) {names segments : List String} (hnames : d.Leads names)
    (hslash : ∀ s ∈ segments, '/' ∉ s.toList) {loc : Location}
    (h : d.walk names segments = .ok loc) :
    ∃ above', d.Leads loc ∧
      (segments.filterMap Part.ofSegment?).foldl Path.fold (way above names).reverse =
        (way above' loc).reverse ∧
      width (wayTexts above' loc) ≤ width (wayTexts above names) + width segments := by
  induction segments generalizing above names with
  | nil =>
    obtain rfl := Except.ok.inj h
    exact ⟨above, hnames, rfl, Nat.le_add_right _ _⟩
  | cons s rest ih =>
    obtain ⟨next, hstep, h⟩ := walk_cons_eq_ok_iff.mp h
    obtain ⟨above₁, hnext, hfold, hwidth⟩ :=
      hnames.step above (hslash s List.mem_cons_self) hstep
    obtain ⟨above₂, hleads, hfolds, hwidths⟩ :=
      ih above₁ hnext (fun x hx => hslash x (List.mem_cons_of_mem s hx)) h
    refine ⟨above₂, hleads, ?_, ?_⟩
    · rw [← List.singleton_append, List.filterMap_append, List.foldl_append, hfold, hfolds]
    · rw [← List.singleton_append, Path.width_append]
      omega

/-- A path that leads somewhere leads there in normal form too. -/
theorem find_normalize {p : Path} {loc : Location} (h : d.find p = .ok loc) :
    d.find p.normalize = .ok loc := by
  obtain ⟨habsolute, hsize⟩ := isAbsolute_of_find h
  obtain ⟨rest, hsegments, hrest⟩ := Path.segments_of_isAbsolute habsolute
  have hwalk := walk_of_find h
  rw [hsegments] at hwalk
  have hwalk : d.walk [] rest = .ok loc := by simpa [walk, isFolderAt_nil] using hwalk
  have hslash : ∀ s ∈ rest, '/' ∉ s.toList := by
    intro s hs
    exact Path.not_mem_of_mem_segments (hsegments ▸ List.mem_cons_of_mem "" hs)
  have hnil : d.Leads [] := ⟨rfl, by simp⟩
  obtain ⟨above, hleads, hfold, hwidth⟩ := hnil.walk_fold false hslash hwalk
  have hnormal : p.normalize = .ofParts (way above loc) := by
    unfold Path.normalize Path.normalParts Path.parts
    rw [if_pos habsolute, hsegments]
    exact congrArg (fun parts => Path.ofParts parts.reverse) hfold |>.trans
      (by rw [List.reverse_reverse])
  have hshort : (Path.ofParts (way above loc)).text.utf8ByteSize ≤ maxPath := by
    have htotal := Path.width_segments p
    rw [Path.size_way above hleads.named]
    rw [hsegments, Path.width_cons] at htotal
    have hnone : width (wayTexts false []) = 0 := rfl
    split
    · decide
    · omega
  have hway : d.walk [] (Path.ofParts (way above loc)).segments = .ok loc := by
    rw [Path.segments_way above hleads.named]
    by_cases hnone : wayTexts above loc = []
    · obtain ⟨_, rfl⟩ := List.append_eq_nil_iff.mp hnone
      rw [if_pos hnone]
      simp [walk, isFolderAt_nil]
    · rw [if_neg hnone]
      cases above with
      | false => simpa [walk, isFolderAt_nil, wayTexts] using hleads.walk
      | true => simpa [walk, isFolderAt_nil, wayTexts] using hleads.walk
  rw [hnormal, find, if_neg (Nat.not_lt.mpr hshort), Path.isAbsolute_way, if_pos rfl, hway]

theorem find_eq_of_parts {p q : Path} (hp : d.isFile p = true) (hq : d.isFile q = true)
    (h : p.parts = q.parts) : d.find p = d.find q := by
  obtain ⟨loc, _, hloc, _, _⟩ := find_of_isFile hp
  obtain ⟨loc', _, hloc', _, _⟩ := find_of_isFile hq
  have hnormal := find_normalize hloc
  rw [Path.normalize, h] at hnormal
  rw [hloc, hloc', ← hnormal, ← find_normalize hloc']
  rfl

/-- Without steps up, a path says where it leads. -/
theorem parts_of_find {p : Path} {loc : Location} (h : d.find p = .ok loc)
    (hup : Part.up ∉ p.parts) : p.parts = .root :: loc.map .name := by
  obtain ⟨habsolute, _⟩ := isAbsolute_of_find h
  -- only steps up change anything where parts are folded
  have hfold (parts acc : List Part) (hparts : ∀ part ∈ parts, part ≠ .up ∧ part ≠ .here) :
      parts.foldl Path.fold acc = parts.reverse ++ acc := by
    induction parts generalizing acc with
    | nil => rfl
    | cons part rest ih =>
      have hpart : Path.fold acc part = part :: acc := by
        obtain ⟨hnotUp, hnotHere⟩ := hparts part List.mem_cons_self
        cases part with
        | up => exact False.elim (hnotUp rfl)
        | here => exact False.elim (hnotHere rfl)
        | root | name _ => rfl
      rw [List.foldl_cons, hpart, ih _ fun x hx => hparts x (List.mem_cons_of_mem _ hx)]
      simp
  have hparts : ∀ part ∈ p.parts, part ≠ .up ∧ part ≠ .here := by
    intro part hpart
    refine ⟨fun heq => hup (heq ▸ hpart), ?_⟩
    rintro rfl
    rw [Path.parts, if_pos habsolute] at hpart
    rcases List.mem_cons.mp hpart with heq | hpart
    · cases heq
    · exact Path.follows_of_segments hpart
  have hself : Path.normalParts p.parts = p.parts := by
    rw [Path.normalParts, hfold p.parts [] hparts, List.append_nil, List.reverse_reverse]
  obtain ⟨above, names, hnames, hway⟩ := Path.normalParts_of_isAbsolute habsolute
  have hnormal := find_normalize h
  rw [Path.normalize, hway] at hnormal
  obtain rfl := find_way hnames hnormal
  rw [hself] at hway
  cases above with
  | false => simpa [Path.way] using hway
  | true => exact False.elim (hup (by simp [hway, Path.way]))

/-- A file is in a folder. -/
theorem isAbsolute_parent {p : Path} (h : d.isFile p = true) : p.parent.isAbsolute = true := by
  obtain ⟨loc, _, hfind, hne, _⟩ := find_of_isFile h
  obtain ⟨habsolute, _⟩ := isAbsolute_of_find hfind
  obtain ⟨body, hsegments, _⟩ := Path.segments_of_isAbsolute habsolute
  have hbody : body.all Path.isIdle = false := by
    cases hall : body.all Path.isIdle with
    | false => rfl
    | true =>
      have hwalk := walk_of_find hfind
      rw [hsegments, walk_idle (by simp [hall, Path.isIdle])] at hwalk
      exact False.elim (hne (Except.ok.inj hwalk).symm)
  have hsome : ∃ s rest, body.reverse.dropWhile Path.isIdle = s :: rest := by
    cases hdrop : body.reverse.dropWhile Path.isIdle with
    | cons s rest => exact ⟨s, rest, rfl⟩
    | nil =>
      have hidle := List.dropWhile_eq_nil_iff.mp hdrop
      rw [List.all_eq_false] at hbody
      obtain ⟨s, hs, hnot⟩ := hbody
      exact False.elim (hnot (hidle s (List.mem_reverse.mpr hs)))
  obtain ⟨s, rest, hdrop⟩ := hsome
  have hparent :
      p.parent? = some ⟨"/" ++ "/".intercalate (rest.dropWhile Path.isIdle).reverse⟩ := by
    simp [Path.parent?, habsolute, hsegments, hdrop]
  rw [Path.parent, hparent]
  simp [Path.isAbsolute]

/-! ### Files of one folder -/

variable {loc folder : Location} {base : Path} {name : String}

theorem find_child {folder : Path} (h : folder.isAbsolute = true) {name : String}
    (hname : name.toList.head? ≠ some '/') (hslash : Text.splitOn '/' name.toList = [name.toList])
    (hsize : (folder.child name).text.utf8ByteSize ≤ maxPath) :
    d.find (folder.child name) = d.walk [] ((folder.parts.drop 1).map Part.text ++ [name]) := by
  obtain ⟨init, hsegments, hinit⟩ := folder.segments_child name hname hslash
  have hparts : folder.parts.drop 1 = init.filterMap Part.ofSegment? := by
    rw [Path.parts, if_pos h, hinit, List.drop_succ_cons, List.drop_zero]
  rw [find, if_neg (Nat.not_lt.mpr hsize), Path.isAbsolute_child folder hname, if_pos h, hsegments,
    hparts]
  exact walk_texts [] init (by simp)

/-- A folder is found on the way to what is in it. -/
theorem find_folder (hlast : base.text.toList.getLast? = some '/') (hname : '/' ∉ name.toList)
    (h : d.find (base.child name) = .ok loc) :
    ∃ folder, d.find base = .ok folder ∧ d.walk folder [name] = .ok loc := by
  obtain ⟨front, hsegments, hchild⟩ := Path.exists_segments_of_last hlast
  obtain ⟨habsolute, hsize⟩ := isAbsolute_of_find h
  have hhead := Text.head?_ne_slash hname
  have hwalk := walk_of_find h
  rw [hchild name hname, walk_append] at hwalk
  cases hfolder : d.walk [] (Path.segments ⟨front⟩) with
  | error o =>
    rw [hfolder] at hwalk
    cases hwalk
  | ok folder =>
    rw [hfolder] at hwalk
    refine ⟨folder, ?_, hwalk⟩
    have hisFolder : d.isFolderAt folder = true := by
      cases hnot : d.isFolderAt folder with
      | true => rfl
      | false =>
        rw [Except.bind, walk_of_not_folder (by simp) hnot] at hwalk
        cases hwalk
    have hshort := Path.size_child_le base hhead
    rw [Path.isAbsolute_child base hhead] at habsolute
    rw [find, if_neg (by omega), if_pos habsolute, hsegments, walk_append, hfolder]
    simp [Except.bind, walk, hisFolder]

theorem isFolder_of_find_child (hlast : base.text.toList.getLast? = some '/')
    (hname : '/' ∉ name.toList) (h : d.find (base.child name) = .ok loc) :
    d.isFolder base = true := by
  obtain ⟨folder, hfind, hwalk⟩ := find_folder hlast hname h
  rw [isFolder, entry?, hfind]
  cases hfolder : d.isFolderAt folder with
  | true => exact hfolder
  | false =>
    rw [walk_of_not_folder (by simp) hfolder] at hwalk
    cases hwalk

/-- What is in a folder is found there, under all paths to the folder that are not too long. -/
theorem find_in_folder (h : d.find base = .ok folder) (hname : '/' ∉ name.toList)
    (hsize : (base.child name).text.utf8ByteSize ≤ maxPath) :
    d.find (base.child name) = d.walk folder [name] := by
  obtain ⟨habsolute, _⟩ := isAbsolute_of_find h
  have hhead := Text.head?_ne_slash hname
  have hparts : base.parts.drop 1 = base.segments.filterMap Part.ofSegment? := by
    rw [Path.parts, if_pos habsolute, List.drop_succ_cons, List.drop_zero]
  rw [find_child habsolute hhead (Text.splitOn_of_not_mem hname) hsize, hparts,
    ← walk_texts [] base.segments (by simp), walk_append, walk_of_find h]
  rfl

/-- A file next to one that is found is there under the path of that one, if it is there in normal
form and the path is not too long. -/
theorem isFile_of_normalize {other : String} (hlast : base.text.toList.getLast? = some '/')
    (hname : '/' ∉ name.toList) (hother : '/' ∉ other.toList)
    (hfound : d.isFile (base.child name) = true)
    (hsize : (base.child other).text.utf8ByteSize ≤ maxPath)
    (h : d.isFile (base.normalize.child other) = true) : d.isFile (base.child other) = true := by
  obtain ⟨_, _, hfind, _⟩ := find_of_isFile hfound
  obtain ⟨folder, hfolder, _⟩ := find_folder hlast hname hfind
  obtain ⟨_, _, hfindOther, _⟩ := find_of_isFile h
  obtain ⟨_, hshort⟩ := isAbsolute_of_find hfindOther
  have hsame : d.find (base.normalize.child other) = d.find (base.child other) := by
    rw [find_in_folder (find_normalize hfolder) hother hshort, find_in_folder hfolder hother hsize]
  rw [isFile, entry?] at h ⊢
  rw [← hsame]
  exact h

theorem find_in_top (h : base.IsTop) (hname : '/' ∉ name.toList)
    (hsize : base.text.utf8ByteSize + name.utf8ByteSize ≤ maxPath) :
    d.find (base.child name) = d.walk [] [name] := by
  have hshort : (base.child name).text.utf8ByteSize ≤ maxPath := by
    rw [h.text_child hname, String.utf8ByteSize_append]
    exact hsize
  rw [find_child h.absolute (Text.head?_ne_slash hname) (Text.splitOn_of_not_mem hname) hshort,
    h.parts]
  rfl

theorem isFile_normalize {p : Path} (h : d.isFile p = true) : d.isFile p.normalize = true := by
  obtain ⟨_, _, hfind, _⟩ := find_of_isFile h
  rw [isFile, entry?] at h ⊢
  rw [find_normalize hfind, ← hfind]
  exact h

/-! ### Names below a folder -/

theorem walk_rooted {names : List String} (hslash : ∀ s ∈ names, '/' ∉ s.toList) :
    d.walk [] (rooted names).segments = d.walk [] names := by
  have hskip (rest : List String) : d.walk [] ("" :: rest) = d.walk [] rest := by
    rw [walk, isFolderAt_nil, if_neg (by simp), if_pos (by simp)]
  by_cases hne : names = []
  · have htop : (rooted []).segments = ["", ""] := by decide
    rw [hne, htop, hskip, hskip]
  · rw [Path.segments_rooted hne hslash, hskip]

theorem exists_top (d : Disk) : d.exists? (rooted []) = true := by
  have hsize : ¬ (rooted []).text.utf8ByteSize > maxPath := by decide
  have hfind : d.find (rooted []) = .ok [] := by
    rw [find, if_neg hsize, Path.isAbsolute_rooted, if_pos rfl, walk_rooted (by simp)]
    rfl
  unfold exists? entry?
  rw [hfind]
  rfl

theorem size_rooted_le {front back : List String} (hnames : ∀ s ∈ front ++ back, Named s) :
    (rooted front).text.utf8ByteSize ≤ (rooted (front ++ back)).text.utf8ByteSize := by
  have hfront := fun s hs => hnames s (List.mem_append_left back hs)
  rw [Path.rooted_eq_way, Path.rooted_eq_way, Path.size_way false hfront,
    Path.size_way false hnames]
  simp only [Path.wayTexts, Bool.false_eq_true, if_false, List.nil_append, Path.width_append]
  cases front with
  | nil =>
    cases back with
    | nil => simp
    | cons s back =>
      simp [Path.width]
      omega
  | cons s front => simp

/-- What is there is in a folder that is there. -/
theorem find_rooted {front back : List String} (hnames : ∀ s ∈ front ++ back, Named s)
    (h : d.exists? (rooted (front ++ back)) = true) :
    d.find (rooted front) = .ok front ∧ (back ≠ [] → d.isFolderAt front = true) := by
  unfold exists? entry? at h
  cases hfind : d.find (rooted (front ++ back)) with
  | error o => simp [hfind] at h
  | ok loc =>
    have hsize := (isAbsolute_of_find hfind).2
    have hless := size_rooted_le hnames
    have hwalk := walk_of_find hfind
    rw [walk_rooted fun s hs => (hnames s hs).2, walk_append] at hwalk
    cases hfront : d.walk [] front with
    | error o =>
      rw [hfront] at hwalk
      cases hwalk
    | ok loc' =>
      obtain rfl : loc' = front :=
        walk_names (fun s hs => (hnames s (List.mem_append_left back hs)).1) hfront
      constructor
      · rw [find, if_neg (by omega), Path.isAbsolute_rooted, if_pos rfl,
          walk_rooted fun s hs => (hnames s (List.mem_append_left back hs)).2, hfront]
      · intro hback
        rw [hfront] at hwalk
        cases hfolder : d.isFolderAt loc' with
        | true => rfl
        | false =>
          have herror := walk_of_not_folder hback hfolder
          change d.walk loc' back = .ok loc at hwalk
          rw [herror] at hwalk
          cases hwalk

theorem mem_entries_rooted {names : List String} (hnames : ∀ s ∈ names, Named s) (hne : names ≠ [])
    (h : d.exists? (rooted names) = true) : ∃ e, (names, e) ∈ d.entries := by
  have hfind := (@find_rooted d names [] (by simpa using hnames) (by simpa using h)).1
  unfold exists? entry? at h
  rw [hfind] at h
  dsimp only at h
  rw [get?_of_ne_nil hne] at h
  obtain ⟨e, he⟩ := Option.isSome_iff_exists.mp h
  obtain ⟨before, after, hentries, _⟩ := List.lookup_eq_some_iff.mp he
  exact ⟨e, by simp [hentries]⟩

theorem isFolder_rooted {front back : List String} (hnames : ∀ s ∈ front ++ back, Named s)
    (h : d.exists? (rooted (front ++ back)) = true) (hback : back ≠ []) :
    d.isFolder (rooted front) = true := by
  obtain ⟨hfind, hfolder⟩ := find_rooted hnames h
  unfold isFolder entry?
  rw [hfind]
  exact hfolder hback

theorem exists_rooted {front back : List String} (hnames : ∀ s ∈ front ++ back, Named s)
    (h : d.exists? (rooted (front ++ back)) = true) : d.exists? (rooted front) = true := by
  by_cases hback : back = []
  · rwa [hback, List.append_nil] at h
  · have hfolder := isFolder_rooted hnames h hback
    unfold isFolder at hfolder
    unfold exists?
    rw [beq_iff_eq.mp hfolder]
    rfl

theorem mem_list_rooted {front : List String} {name : String}
    (hnames : ∀ s ∈ front ++ [name], Named s)
    (h : d.exists? (rooted (front ++ [name])) = true) : name ∈ d.list (rooted front) := by
  obtain ⟨hfind, hfolder⟩ := find_rooted hnames h
  obtain ⟨e, he⟩ := mem_entries_rooted hnames (by simp) h
  unfold list
  rw [hfind]
  dsimp only
  rw [if_pos (hfolder (by simp))]
  exact List.mem_filterMap.mpr ⟨_, he, by simp⟩

end Disk

end TypeOnly
