import TypeOnly.Volume
import TypeOnly.Proofs.FileDrafts
import TypeOnly.Proofs.PathSegments

/-!
Following paths over links. A way is the same in two trees that differ at one place only, unless it
passes there; and where the way over a place ends at a file, it goes on nowhere else.
-/

namespace TypeOnly

set_option autoImplicit false

namespace Volume

variable {v : Volume}

/-! ### Places -/

theorem get?_of_ne_nil {loc : Location} (h : loc ≠ []) : v.get? loc = v.nodes.lookup loc := by
  cases loc with
  | nil => exact False.elim (h rfl)
  | cons s loc => rfl

@[simp] theorem refusal_put (loc : Location) (e : Node) : (v.put loc e).refusal = v.refusal := rfl

theorem get?_put_self {loc : Location} (e : Node) (hloc : loc ≠ []) :
    (v.put loc e).get? loc = some e := by
  rw [get?_of_ne_nil hloc]
  exact Location.lookup_put_self v.nodes loc e

theorem get?_put_of_ne {loc loc' : Location} (e : Node) (hne : loc' ≠ loc) :
    (v.put loc e).get? loc' = v.get? loc' := by
  by_cases hnil : loc' = []
  · rw [hnil]
    rfl
  · rw [get?_of_ne_nil hnil, get?_of_ne_nil hnil]
    exact Location.lookup_put_of_ne e hne

theorem isFolderAt_iff {loc : Location} : v.isFolderAt loc = true ↔ v.get? loc = some .folder := by
  unfold isFolderAt
  split
  · simp_all
  · simp_all

theorem not_isFolderAt {loc : Location} {e : Node} (h : v.get? loc = some e) (he : e ≠ .folder) :
    v.isFolderAt loc = false := by
  rw [← Bool.not_eq_true, isFolderAt_iff, h]
  simpa using he

/-- A file can come to a place where no folder is. -/
theorem isFolderAt_put {loc : Location} {bytes : ByteArray} {mode : Nat} (hloc : loc ≠ [])
    (h : v.isFolderAt loc = false) (loc' : Location) :
    (v.put loc (.file bytes mode)).isFolderAt loc' = v.isFolderAt loc' := by
  by_cases hne : loc' = loc
  · rw [hne, h]
    exact not_isFolderAt (get?_put_self _ hloc) (by simp)
  · rw [isFolderAt, isFolderAt, get?_put_of_ne _ hne]

theorem ne_nil_of_get?_none {loc : Location} (h : v.get? loc = none) : loc ≠ [] := by
  rintro rfl
  simp [get?] at h

section New

variable {loc : Location} (h : v.get? loc = none)
include h

theorem isFolderAt_put_new (bytes : ByteArray) (mode : Nat) (loc' : Location) :
    (v.put loc (.file bytes mode)).isFolderAt loc' = v.isFolderAt loc' :=
  isFolderAt_put (ne_nil_of_get?_none h) (by simp [isFolderAt, h]) loc'

theorem put_put_new (e e' : Node) : (v.put loc e).put loc e' = v.put loc e' := by
  rw [get?_of_ne_nil (ne_nil_of_get?_none h)] at h
  simp only [put, Location.put_put_new h]

theorem unlink_put_new (e : Node) : (v.put loc e).unlink loc = v := by
  rw [get?_of_ne_nil (ne_nil_of_get?_none h)] at h
  simp only [put, unlink, Location.unlink_put_new h]

theorem move_put_new (e : Node) (target : Location) :
    (v.put loc e).move loc target = v.put target e := by
  rw [move, get?_put_self e (ne_nil_of_get?_none h)]
  dsimp only
  rw [unlink_put_new h]

end New

/-! ### Ways -/

/-- The way along these stretches from one place to another, over so many links. -/
inductive Follows (v : Volume) : Nat → Location → List String → Location → Prop where
  | done (loc : Location) : Follows v 0 loc [] loc
  | stay {links : Nat} {loc loc' : Location} {s : String} {rest : List String}
      (hfolder : v.isFolderAt loc = true) (hs : s = "" ∨ s = ".")
      (hrest : Follows v links loc rest loc') : Follows v links loc (s :: rest) loc'
  | up {links : Nat} {loc loc' : Location} {rest : List String}
      (hfolder : v.isFolderAt loc = true) (hrest : Follows v links loc.dropLast rest loc') :
      Follows v links loc (".." :: rest) loc'
  | enter {links : Nat} {loc loc' : Location} {s : String} {rest : List String} {e : Node}
      (hfolder : v.isFolderAt loc = true) (hs : Path.Ordinary s)
      (hsize : s.utf8ByteSize ≤ Disk.maxName) (hget : v.get? (loc ++ [s]) = some e)
      (he : ∀ target, e ≠ .link target) (hrest : Follows v links (loc ++ [s]) rest loc') :
      Follows v links loc (s :: rest) loc'
  | link {links : Nat} {loc loc' : Location} {s : String} {rest : List String} {target : Path}
      (hfolder : v.isFolderAt loc = true) (hs : Path.Ordinary s)
      (hsize : s.utf8ByteSize ≤ Disk.maxName) (hget : v.get? (loc ++ [s]) = some (.link target))
      (hrest : Follows v links (linkStart loc target) (target.segments ++ rest) loc') :
      Follows v (links + 1) loc (s :: rest) loc'

theorem walkBy_follows {bound : Nat} {follow : Location → List String → Except Obstacle Location}
    (hfollow : ∀ loc segments loc', follow loc segments = .ok loc' →
      ∃ links < bound, v.Follows links loc segments loc')
    {loc loc' : Location} {segments : List String} (h : v.walkBy follow loc segments = .ok loc') :
    ∃ links ≤ bound, v.Follows links loc segments loc' := by
  induction segments generalizing loc with
  | nil =>
    obtain rfl := Except.ok.inj h
    exact ⟨0, Nat.zero_le bound, .done loc⟩
  | cons s rest ih =>
    unfold walkBy at h
    split at h
    · cases h
    · rename_i hfolder
      rw [Bool.not_eq_true, Bool.not_eq_false'] at hfolder
      split at h
      · rename_i hs
        obtain ⟨links, hle, hrest⟩ := ih h
        exact ⟨links, hle, .stay hfolder (by simpa using hs) hrest⟩
      · rename_i hs
        split at h
        · rename_i hup
          obtain ⟨links, hle, hrest⟩ := ih h
          exact ⟨links, hle, hup ▸ .up hfolder hrest⟩
        · rename_i hup
          have hname : Path.Ordinary s := ⟨by simp_all, by simp_all, hup⟩
          split at h
          · cases h
          · rename_i hsize
            rw [not_lt] at hsize
            split at h
            · cases h
            · rename_i target hget
              obtain ⟨links, hlt, hrest⟩ := hfollow _ _ _ h
              exact ⟨links + 1, hlt, .link hfolder hname hsize hget hrest⟩
            · rename_i e he hget
              obtain ⟨links, hle, hrest⟩ := ih h
              exact ⟨links, hle, .enter hfolder hname hsize hget he hrest⟩

theorem walk_follows {bound : Nat} {loc loc' : Location} {segments : List String}
    (h : v.walk bound loc segments = .ok loc') :
    ∃ links ≤ bound, v.Follows links loc segments loc' := by
  induction bound generalizing loc segments loc' with
  | zero => exact walkBy_follows (by simp) h
  | succ bound ih =>
    refine walkBy_follows ?_ h
    intro loc segments loc' h
    obtain ⟨links, hle, hlinks⟩ := ih h
    exact ⟨links, Nat.lt_succ_of_le hle, hlinks⟩

/-- What is done at a stretch does not depend on how many links are left, unless it is one. -/
theorem walk_cons (v : Volume) (bound : Nat) (loc : Location) (s : String) (rest : List String) :
    v.walk bound loc (s :: rest) =
      if !v.isFolderAt loc then .error .notFolder
      else if s = "" || s = "." then v.walk bound loc rest
      else if s = ".." then v.walk bound loc.dropLast rest
      else if s.utf8ByteSize > Disk.maxName then .error .tooLong
      else
        match v.get? (loc ++ [s]), bound with
        | none, _ => .error .missing
        | some (.link _), 0 => .error .linkLoop
        | some (.link target), bound + 1 =>
          v.walk bound (linkStart loc target) (target.segments ++ rest)
        | some _, bound => v.walk bound (loc ++ [s]) rest := by
  cases bound
  all_goals
    simp only [walk]
    rw [walkBy]
    split <;> [rfl; split] <;> [rfl; split] <;> [rfl; split] <;> [rfl; skip]
    cases v.get? (loc ++ [s]) with
    | none => rfl
    | some e => cases e <;> rfl

theorem Follows.walk {links bound : Nat} {loc loc' : Location} {segments : List String}
    (h : v.Follows links loc segments loc') (hbound : links ≤ bound) :
    v.walk bound loc segments = .ok loc' := by
  induction h generalizing bound with
  | done loc => cases bound <;> rfl
  | stay hfolder hs _ ih =>
    rw [walk_cons, ← ih hbound]
    simp [hfolder, hs]
  | up hfolder _ ih =>
    rw [walk_cons, ← ih hbound]
    simp [hfolder]
  | enter hfolder hs hsize hget he _ ih =>
    rw [walk_cons, ← ih hbound, hget]
    rename_i e _
    obtain ⟨hempty, hhere, hup⟩ := hs
    simp only [hfolder, hempty, hhere, hup, not_lt.mpr hsize]
    cases e with
    | link target => exact False.elim (he target rfl)
    | file bytes mode => rfl
    | folder => rfl
  | link hfolder hs hsize hget _ ih =>
    obtain ⟨hempty, hhere, hup⟩ := hs
    obtain ⟨bound, rfl⟩ := Nat.exists_eq_add_of_le' (Nat.lt_of_lt_of_le (Nat.succ_pos _) hbound)
    rw [walk_cons, ← ih (Nat.le_of_succ_le_succ hbound), hget]
    simp [hfolder, hempty, hhere, hup, not_lt.mpr hsize]

theorem walk_eq_ok_iff {bound : Nat} {loc loc' : Location} {segments : List String} :
    v.walk bound loc segments = .ok loc' ↔ ∃ links ≤ bound, v.Follows links loc segments loc' :=
  ⟨walk_follows, fun ⟨_, hle, h⟩ => h.walk hle⟩

/-- There is one way only. -/
theorem Follows.unique {links links' : Nat} {loc a b : Location} {segments : List String}
    (ha : v.Follows links loc segments a) (hb : v.Follows links' loc segments b) : a = b :=
  Except.ok.inj
    ((ha.walk (le_max_left links links')).symm.trans (hb.walk (le_max_right links links')))

theorem Follows.append {links links' : Nat} {loc a b : Location} {first second : List String}
    (ha : v.Follows links loc first a) (hb : v.Follows links' a second b) :
    v.Follows (links + links') loc (first ++ second) b := by
  induction ha with
  | done loc =>
    rw [Nat.zero_add]
    exact hb
  | stay hfolder hs _ ih => exact .stay hfolder hs (ih hb)
  | up hfolder _ ih => exact .up hfolder (ih hb)
  | enter hfolder hs hsize hget he _ ih => exact .enter hfolder hs hsize hget he (ih hb)
  | link hfolder hs hsize hget _ ih =>
    rw [Nat.add_right_comm, List.cons_append]
    refine .link hfolder hs hsize hget ?_
    rw [← List.append_assoc]
    exact ih hb

theorem Follows.split {links : Nat} {loc b : Location} {first second : List String}
    (h : v.Follows links loc (first ++ second) b) :
    ∃ l m a, links = l + m ∧ v.Follows l loc first a ∧ v.Follows m a second b := by
  generalize hsegments : first ++ second = segments at h
  induction h generalizing first with
  | done loc =>
    obtain ⟨rfl, rfl⟩ := List.append_eq_nil_iff.mp hsegments
    exact ⟨0, 0, loc, rfl, .done loc, .done loc⟩
  | @stay links loc b s rest hfolder hs hrest ih =>
    rcases List.append_eq_cons_iff.mp hsegments with ⟨rfl, rfl⟩ | ⟨first, rfl, rfl⟩
    · exact ⟨0, links, loc, (Nat.zero_add links).symm, .done loc, .stay hfolder hs hrest⟩
    · obtain ⟨l, m, a, rfl, ha, hb⟩ := ih rfl
      exact ⟨l, m, a, rfl, .stay hfolder hs ha, hb⟩
  | @up links loc b rest hfolder hrest ih =>
    rcases List.append_eq_cons_iff.mp hsegments with ⟨rfl, rfl⟩ | ⟨first, rfl, rfl⟩
    · exact ⟨0, links, loc, (Nat.zero_add links).symm, .done loc, .up hfolder hrest⟩
    · obtain ⟨l, m, a, rfl, ha, hb⟩ := ih rfl
      exact ⟨l, m, a, rfl, .up hfolder ha, hb⟩
  | @enter links loc b s rest e hfolder hs hsize hget he hrest ih =>
    rcases List.append_eq_cons_iff.mp hsegments with ⟨rfl, rfl⟩ | ⟨first, rfl, rfl⟩
    · exact ⟨0, links, loc, (Nat.zero_add links).symm, .done loc,
        .enter hfolder hs hsize hget he hrest⟩
    · obtain ⟨l, m, a, rfl, ha, hb⟩ := ih rfl
      exact ⟨l, m, a, rfl, .enter hfolder hs hsize hget he ha, hb⟩
  | @link links loc b s rest target hfolder hs hsize hget hrest ih =>
    rcases List.append_eq_cons_iff.mp hsegments with ⟨rfl, rfl⟩ | ⟨first, rfl, rfl⟩
    · exact ⟨0, links + 1, loc, (Nat.zero_add _).symm, .done loc,
        .link hfolder hs hsize hget hrest⟩
    · obtain ⟨l, m, a, rfl, ha, hb⟩ := ih (List.append_assoc target.segments first second)
      exact ⟨l + 1, m, a, Nat.add_right_comm l m 1, .link hfolder hs hsize hget ha, hb⟩

theorem Follows.folder_of_cons {links : Nat} {loc loc' : Location} {s : String} {rest : List String}
    (h : v.Follows links loc (s :: rest) loc') : v.isFolderAt loc = true := by
  cases h with
  | stay hfolder | up hfolder | enter hfolder | link hfolder => exact hfolder

/-- A way to a file goes no further. -/
theorem Follows.past_file {l m : Nat} {loc f loc' : Location} {segments rest : List String}
    (hf : v.Follows l loc segments f) (hfile : v.isFolderAt f = false)
    (h : v.Follows m loc (segments ++ rest) loc') : rest = [] ∧ loc' = f := by
  obtain ⟨_, _, a, _, ha, hrest⟩ := h.split
  obtain rfl := ha.unique hf
  cases hrest with
  | done _ => exact ⟨rfl, rfl⟩
  | stay hfolder | up hfolder | enter hfolder | link hfolder =>
    rw [hfile] at hfolder
    cases hfolder

/-- A way is the same in another tree if it does not pass where they differ. -/
theorem Follows.of_agree {v' : Volume} {place loc' : Location}
    (hfolders : ∀ loc, v'.isFolderAt loc = v.isFolderAt loc)
    (hothers : ∀ loc ≠ place, v'.get? loc = v.get? loc)
    (hplace : ∀ {links loc s rest}, Path.Ordinary s → loc ++ [s] = place →
      ¬v.Follows links loc (s :: rest) loc')
    {links : Nat} {loc : Location} {segments : List String}
    (h : v.Follows links loc segments loc') : v'.Follows links loc segments loc' := by
  induction h with
  | done loc => exact .done loc
  | stay hfolder hs _ ih => exact .stay (by rwa [hfolders]) hs (ih hplace)
  | up hfolder _ ih => exact .up (by rwa [hfolders]) (ih hplace)
  | @enter links loc loc' s rest e hfolder hs hsize hget he hrest ih =>
    have hother : loc ++ [s] ≠ place := fun hp =>
      hplace hs hp (.enter hfolder hs hsize hget he hrest)
    rw [← hothers _ hother] at hget
    exact .enter (by rwa [hfolders]) hs hsize hget he (ih hplace)
  | @link links loc loc' s rest target hfolder hs hsize hget hrest ih =>
    have hother : loc ++ [s] ≠ place := fun hp =>
      hplace hs hp (.link hfolder hs hsize hget hrest)
    rw [← hothers _ hother] at hget
    exact .link (by rwa [hfolders]) hs hsize hget (ih hplace)

theorem reached_linkStart {loc : Location} (h : loc.Reached v.isFolderAt) (target : Path) :
    (linkStart loc target).Reached v.isFolderAt := by
  unfold linkStart
  split
  · exact .nil _
  · exact h

/-! ### Where paths lead -/

/-- A path leads to a place, over any number of links. -/
def Leads (v : Volume) (p : Path) (loc : Location) : Prop :=
  p.isAbsolute = true ∧ ∃ links, v.Follows links [] p.segments loc

theorem find_eq_ok_iff {p : Path} {loc : Location} :
    v.find p = .ok loc ↔ p.text.utf8ByteSize ≤ Disk.maxPath ∧ p.isAbsolute = true ∧
      ∃ links ≤ maxLinks, v.Follows links [] p.segments loc := by
  rw [find, unless_eq_ok_iff, when_eq_ok_iff, walk_eq_ok_iff, not_lt]

theorem Follows.get?_ne_none {links : Nat} {loc loc' : Location} {segments : List String}
    (h : v.Follows links loc segments loc') (hloc : loc.Reached v.isFolderAt)
    (hstart : v.get? loc ≠ none) : v.get? loc' ≠ none := by
  have hfolder {loc : Location} (h : v.isFolderAt loc = true) : v.get? loc ≠ none := by
    simp [isFolderAt_iff.mp h]
  induction h with
  | done loc => exact hstart
  | stay _ _ _ ih => exact ih hloc hstart
  | up hf _ ih => exact ih hloc.dropLast (hfolder (hloc.isFolderAt_dropLast hf))
  | enter hf _ _ hget _ _ ih => exact ih (hloc.concat hf _) (by simp [hget])
  | @link _ loc _ _ _ target hf _ _ _ _ ih =>
    refine ih (reached_linkStart hloc target) ?_
    unfold linkStart
    split
    · simp [get?]
    · exact hfolder hf

theorem get?_of_find {p : Path} {loc : Location} (h : v.find p = .ok loc) : v.get? loc ≠ none := by
  obtain ⟨_, _, links, _, hfollows⟩ := find_eq_ok_iff.mp h
  exact hfollows.get?_ne_none (.nil _) (by simp [get?])

theorem leads_of_find {p : Path} {loc : Location} (h : v.find p = .ok loc) : v.Leads p loc := by
  obtain ⟨_, habsolute, links, _, hfollows⟩ := find_eq_ok_iff.mp h
  exact ⟨habsolute, links, hfollows⟩

theorem Leads.unique {p : Path} {a b : Location} (ha : v.Leads p a) (hb : v.Leads p b) : a = b := by
  obtain ⟨_, _, ha⟩ := ha
  obtain ⟨_, _, hb⟩ := hb
  exact ha.unique hb

theorem contentAt_eq_ok_iff {loc : Location} {bytes : ByteArray} :
    v.contentAt loc = .ok bytes ↔
      v.refusal .read loc = none ∧ ∃ mode, v.get? loc = some (.file bytes mode) := by
  unfold contentAt
  split <;> simp_all

theorem read_eq_ok_iff {p : Path} {text : String} :
    v.read p = .ok text ↔ ∃ loc bytes, v.find p = .ok loc ∧ v.contentAt loc = .ok bytes ∧
      String.fromUTF8? bytes = some text := by
  have hbind : (∃ loc bytes, v.find p = .ok loc ∧ v.contentAt loc = .ok bytes ∧
      String.fromUTF8? bytes = some text) ↔
      ∃ bytes, v.find p >>= v.contentAt = .ok bytes ∧ String.fromUTF8? bytes = some text := by
    cases v.find p <;> simp [bind, Except.bind]
  rw [hbind]
  unfold read
  split
  · simp_all
  · simp_all
  · split <;> simp_all

theorem mode?_eq_some_iff {p : Path} {mode : Nat} :
    v.mode? p = some mode ↔ ∃ loc, v.find p = .ok loc ∧ v.refusal .inspect loc = none ∧
      v.modeAt? loc = some mode := by
  unfold mode?
  cases v.find p with
  | error o => simp
  | ok loc => cases hrefusal : v.refusal .inspect loc <;> simp [hrefusal]

/-! ### A file in place of a name that led to one -/

/-- A name in a folder that leads to a file, at once or over links. -/
structure NamesFile (v : Volume) (folder : Location) (name : String) (f : Location) : Prop where
  follows : ∃ links, v.Follows links folder [name] f
  ordinary : Path.Ordinary name
  file : v.isFolderAt f = false

section Replaced

variable {folder f : Location} {name : String} (h : v.NamesFile folder name f)
include h

theorem NamesFile.end_eq {links : Nat} {loc loc' : Location} {s : String} {rest : List String}
    (hplace : loc ++ [s] = folder ++ [name]) (hrest : v.Follows links loc (s :: rest) loc') :
    rest = [] ∧ loc' = f := by
  obtain ⟨rfl, rfl⟩ := List.append_singleton_inj.mp hplace
  obtain ⟨_, hf⟩ := h.follows
  exact hf.past_file h.file hrest

theorem NamesFile.not_folder : v.isFolderAt (folder ++ [name]) = false := by
  obtain ⟨_, hf⟩ := h.follows
  obtain ⟨hempty, hhere, hup⟩ := h.ordinary
  cases hf with
  | stay _ hs => exact (hs.elim hempty hhere).elim
  | up => exact (hup rfl).elim
  | enter _ _ _ _ _ hrest =>
    cases hrest
    exact h.file
  | link _ _ _ hget => exact not_isFolderAt hget (by simp)

variable {bytes : ByteArray} {mode : Nat}

theorem NamesFile.isFolderAt_put (loc : Location) :
    (v.put (folder ++ [name]) (.file bytes mode)).isFolderAt loc = v.isFolderAt loc :=
  Volume.isFolderAt_put (by simp) h.not_folder loc

/-- Ways that end elsewhere are as before. -/
theorem NamesFile.follows_put {links : Nat} {loc loc' : Location} {segments : List String}
    (hrest : v.Follows links loc segments loc') (hne : loc' ≠ f) :
    (v.put (folder ++ [name]) (.file bytes mode)).Follows links loc segments loc' :=
  hrest.of_agree h.isFolderAt_put (fun _ hother => get?_put_of_ne _ hother)
    fun _ hplace hrest => hne (h.end_eq hplace hrest).2

theorem NamesFile.isFolderAt_folder : v.isFolderAt folder = true := by
  obtain ⟨_, hf⟩ := h.follows
  exact hf.folder_of_cons

/-- The file that is put there is what the name stands for. -/
theorem NamesFile.follows_put_self :
    (v.put (folder ++ [name]) (.file bytes mode)).Follows 0 folder [name] (folder ++ [name]) := by
  have hsize : name.utf8ByteSize ≤ Disk.maxName := by
    obtain ⟨hempty, hhere, hup⟩ := h.ordinary
    obtain ⟨_, hf⟩ := h.follows
    cases hf with
    | stay _ hs => exact (hs.elim hempty hhere).elim
    | up => exact (hup rfl).elim
    | enter _ _ hsize | link _ _ hsize => exact hsize
  refine .enter ?_ h.ordinary hsize (get?_put_self _ (by simp)) (by simp) (.done _)
  rw [h.isFolderAt_put]
  exact h.isFolderAt_folder

theorem NamesFile.put :
    (v.put (folder ++ [name]) (.file bytes mode)).NamesFile folder name (folder ++ [name]) :=
  ⟨⟨0, h.follows_put_self⟩, h.ordinary, (h.isFolderAt_put _).trans h.not_folder⟩

theorem NamesFile.follows_of_put {links : Nat} {loc loc' : Location} {segments : List String}
    (hrest : (v.put (folder ++ [name]) (.file bytes mode)).Follows links loc segments loc')
    (hne : loc' ≠ folder ++ [name]) : v.Follows links loc segments loc' :=
  hrest.of_agree (fun loc => (h.isFolderAt_put loc).symm)
    (fun _ hother => (get?_put_of_ne _ hother).symm)
    fun _ hplace hrest => hne (h.put.end_eq hplace hrest).2

/-- A way to the file that is put there led to the old one. -/
theorem NamesFile.follows_of_put_self {links : Nat} {loc loc' : Location} {segments : List String}
    (hrest : (v.put (folder ++ [name]) (.file bytes mode)).Follows links loc segments loc')
    (hloc : loc.Reached v.isFolderAt) (hstart : loc ≠ folder ++ [name])
    (hend : loc' = folder ++ [name]) : ∃ links, v.Follows links loc segments f := by
  have hfolder (loc : Location) (h' : v.isFolderAt loc = true) : loc ≠ folder ++ [name] := by
    rintro rfl
    rw [h.not_folder] at h'
    cases h'
  induction hrest with
  | done loc => exact (hstart hend).elim
  | stay hf hs _ ih =>
    rw [h.isFolderAt_put] at hf
    obtain ⟨links, hrest⟩ := ih hloc hstart hend
    exact ⟨links, .stay hf hs hrest⟩
  | up hf _ ih =>
    rw [h.isFolderAt_put] at hf
    obtain ⟨links, hrest⟩ := ih hloc.dropLast (hfolder _ (hloc.isFolderAt_dropLast hf)) hend
    exact ⟨links, .up hf hrest⟩
  | @enter links loc loc' s rest e hf hs hsize hget he hrest ih =>
    by_cases hplace : loc ++ [s] = folder ++ [name]
    · obtain ⟨rfl, _⟩ := h.put.end_eq hplace (.enter hf hs hsize hget he hrest)
      obtain ⟨rfl, rfl⟩ := List.append_singleton_inj.mp hplace
      exact h.follows
    · rw [h.isFolderAt_put] at hf
      rw [get?_put_of_ne _ hplace] at hget
      obtain ⟨links, hrest⟩ := ih (hloc.concat hf s) hplace hend
      exact ⟨links, .enter hf hs hsize hget he hrest⟩
  | @link links loc loc' s rest target hf hs hsize hget hrest ih =>
    by_cases hplace : loc ++ [s] = folder ++ [name]
    · obtain ⟨rfl, _⟩ := h.put.end_eq hplace (.link hf hs hsize hget hrest)
      obtain ⟨rfl, rfl⟩ := List.append_singleton_inj.mp hplace
      exact h.follows
    · rw [h.isFolderAt_put] at hf
      rw [get?_put_of_ne _ hplace] at hget
      have hstart' : linkStart loc target ≠ folder ++ [name] := by
        unfold linkStart
        split
        · simp
        · exact hstart
      obtain ⟨links, hrest⟩ := ih (reached_linkStart hloc target) hstart' hend
      exact ⟨links + 1, .link hf hs hsize hget hrest⟩

/-- The way to a folder does not pass the file. -/
theorem NamesFile.walk_put {bound : Nat} {segments : List String} {loc : Location}
    (hloc : v.isFolderAt loc = true) :
    (v.put (folder ++ [name]) (.file bytes mode)).walk bound [] segments = .ok loc ↔
      v.walk bound [] segments = .ok loc := by
  have hfile : loc ≠ f := by
    rintro rfl
    rw [h.file] at hloc
    cases hloc
  have hplace : loc ≠ folder ++ [name] := by
    rintro rfl
    rw [h.not_folder] at hloc
    cases hloc
  rw [walk_eq_ok_iff, walk_eq_ok_iff]
  constructor
  · rintro ⟨links, hle, hfollows⟩
    exact ⟨links, hle, h.follows_of_put hfollows hplace⟩
  · rintro ⟨links, hle, hfollows⟩
    exact ⟨links, hle, h.follows_put hfollows hfile⟩

/-- Every file is replaced where it was. -/
theorem NamesFile.target_put {p : Path} {loc : Location} :
    (v.put (folder ++ [name]) (.file bytes mode)).target p = .ok loc ↔ v.target p = .ok loc := by
  unfold target
  rw [Draft.target_eq_ok_iff, Draft.target_eq_ok_iff]
  simp only [h.isFolderAt_put]
  constructor
  · rintro ⟨hsize, hlast, init, last, folder', hwritten, hhere, hup, hwalk, hfolder, hrest⟩
    exact ⟨hsize, hlast, init, last, folder', hwritten, hhere, hup, (h.walk_put hfolder).mp hwalk,
      hfolder, hrest⟩
  · rintro ⟨hsize, hlast, init, last, folder', hwritten, hhere, hup, hwalk, hfolder, hrest⟩
    exact ⟨hsize, hlast, init, last, folder', hwritten, hhere, hup, (h.walk_put hfolder).mpr hwalk,
      hfolder, hrest⟩

/-- The path of a file leads to what it is replaced with. -/
theorem NamesFile.find_put_self {p : Path} {init : List String} {links : Nat}
    (hsegments : p.segments = init ++ [name]) (hinit : v.Follows links [] init folder)
    (hfind : v.find p = .ok f) :
    (v.put (folder ++ [name]) (.file bytes mode)).find p = .ok (folder ++ [name]) := by
  obtain ⟨hsize, habsolute, _, hle, hfollows⟩ := find_eq_ok_iff.mp hfind
  rw [hsegments] at hfollows
  obtain ⟨l, m, folder', rfl, hfolder', _⟩ := hfollows.split
  obtain rfl := hfolder'.unique hinit
  have hne : folder' ≠ f := by
    rintro rfl
    cases h.file.symm.trans h.isFolderAt_folder
  refine find_eq_ok_iff.mpr ⟨hsize, habsolute, l + 0, by omega, ?_⟩
  rw [hsegments]
  exact (h.follows_put hfolder' hne).append h.follows_put_self

variable {q : Path} (hq : ¬v.Leads q f)
include hq

/-- A path to another file does not lead to the new one. -/
theorem NamesFile.not_leads_put :
    ¬(v.put (folder ++ [name]) (.file bytes mode)).Leads q (folder ++ [name]) := by
  rintro ⟨habsolute, links, hfollows⟩
  exact hq ⟨habsolute, h.follows_of_put_self hfollows (.nil _) (by simp) rfl⟩

/-- A path to another file leads there as before, over as many links. -/
theorem NamesFile.follows_put_iff (habsolute : q.isAbsolute = true) {links : Nat} {loc : Location} :
    (v.put (folder ++ [name]) (.file bytes mode)).Follows links [] q.segments loc ↔
      v.Follows links [] q.segments loc := by
  constructor
  · intro hfollows
    refine h.follows_of_put hfollows ?_
    rintro rfl
    exact h.not_leads_put hq ⟨habsolute, links, hfollows⟩
  · intro hfollows
    refine h.follows_put hfollows ?_
    rintro rfl
    exact hq ⟨habsolute, links, hfollows⟩

theorem NamesFile.leads_put {loc : Location} :
    (v.put (folder ++ [name]) (.file bytes mode)).Leads q loc ↔ v.Leads q loc :=
  and_congr_right fun habsolute => exists_congr fun _ => h.follows_put_iff hq habsolute

theorem NamesFile.find_put {loc : Location} :
    (v.put (folder ++ [name]) (.file bytes mode)).find q = .ok loc ↔ v.find q = .ok loc := by
  rw [find_eq_ok_iff, find_eq_ok_iff]
  exact and_congr_right fun _ => and_congr_right fun habsolute => exists_congr fun _ =>
    and_congr_right fun _ => h.follows_put_iff hq habsolute

theorem NamesFile.get?_put {loc : Location} (hfind : v.find q = .ok loc) :
    (v.put (folder ++ [name]) (.file bytes mode)).get? loc = v.get? loc := by
  have hput : (v.put (folder ++ [name]) (.file bytes mode)).find q = .ok loc :=
    (h.find_put hq).mpr hfind
  apply get?_put_of_ne
  rintro rfl
  exact h.not_leads_put hq (leads_of_find hput)

theorem NamesFile.read_put {text : String} :
    (v.put (folder ++ [name]) (.file bytes mode)).read q = .ok text ↔ v.read q = .ok text := by
  rw [read_eq_ok_iff, read_eq_ok_iff]
  refine exists_congr fun loc => exists_congr fun _ => ?_
  rw [h.find_put hq]
  refine and_congr_right fun hfind => ?_
  rw [contentAt_eq_ok_iff, contentAt_eq_ok_iff, h.get?_put hq hfind]
  rfl

theorem NamesFile.mode?_put :
    (v.put (folder ++ [name]) (.file bytes mode)).mode? q = v.mode? q := by
  apply Option.ext
  intro m
  rw [mode?_eq_some_iff, mode?_eq_some_iff]
  refine exists_congr fun loc => ?_
  rw [h.find_put hq]
  refine and_congr_right fun hfind => ?_
  rw [modeAt?, modeAt?, h.get?_put hq hfind]
  rfl

end Replaced

/-- A file that is read is replaced at the last name of its path. -/
theorem namesFile_of_target {p : Path} {f place : Location} (hfind : v.find p = .ok f)
    (hfile : v.isFolderAt f = false) (htarget : v.target p = .ok place) :
    ∃ init folder name links, p.segments = init ++ [name] ∧ v.Follows links [] init folder ∧
      place = folder ++ [name] ∧ v.NamesFile folder name f := by
  obtain ⟨_, _, links, _, hfollows⟩ := find_eq_ok_iff.mp hfind
  obtain ⟨_, _, init, name, folder, hwritten, _, hup, hwalk, _, _, rfl⟩ :=
    Draft.target_eq_ok_iff.mp htarget
  obtain ⟨_, _, hinit⟩ := walk_follows hwalk
  rcases List.eq_nil_or_concat p.segments with hsegments | ⟨init', name', hsegments⟩
  · rw [hsegments] at hfollows
    cases hfollows
    simp [isFolderAt, get?] at hfile
  · rw [List.concat_eq_append] at hsegments
    rw [hsegments] at hfollows
    obtain ⟨_, _, folder', _, hinit', hname'⟩ := hfollows.split
    have hstay : ¬(name' = "" ∨ name' = ".") := by
      intro hs
      cases hname' with
      | stay hfolder _ hrest =>
        cases hrest
        rw [hfile] at hfolder
        cases hfolder
      | up => simp at hs
      | enter _ hs' | link _ hs' => exact hs.elim hs'.1 hs'.2.1
    rw [not_or] at hstay
    rw [Draft.written_of_segments hsegments hstay.1] at hwritten
    obtain ⟨rfl, rfl⟩ := List.append_singleton_inj.mp hwritten
    obtain rfl := hinit.unique hinit'
    exact ⟨init', folder, name', _, hsegments, hinit, rfl, ⟨_, hname'⟩,
      ⟨hstay.1, hstay.2, hup⟩, hfile⟩

end Volume

end TypeOnly
