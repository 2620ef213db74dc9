import Mathlib.Data.List.Chain
import TypeOnly.Proofs.CompiledPatterns
import TypeOnly.Proofs.DiskPaths

/-!
What the parts of a pattern are expanded to. All that is found is matched, part by part, and what is
there and matched is found, as long as names that begin with a point are asked for by themselves.
-/

namespace TypeOnly

set_option autoImplicit false

open TypeOnly.Path (rooted Named)

namespace Glob

open TypeOnly.Path (Filled)
open Segment (IsStars)

theorem descend_rooted {body names : List String} (hbody : ∀ s ∈ body, Filled s)
    (hnames : ∀ s ∈ names, Filled s) :
    descend (rooted body) names = rooted (body ++ names) := by
  induction names generalizing body with
  | nil => rw [List.append_nil]; rfl
  | cons name names ih =>
    rw [List.forall_mem_cons] at hnames
    have hnext : ∀ s ∈ body ++ [name], Filled s := by
      rw [List.forall_mem_append, List.forall_mem_singleton]
      exact ⟨hbody, hnames.1⟩
    have hstep : descend (rooted body) (name :: names) =
        descend ((rooted body).child name) names := rfl
    rw [hstep, Path.child_rooted hbody hnames.1.2, ih hnext hnames.2, List.append_assoc,
      List.singleton_append]

/-- All names in a tree are names. -/
def NamesOnly (disk : Disk) : Prop := ∀ entry ∈ disk.entries, ∀ s ∈ entry.1, Named s

instance (disk : Disk) : Decidable (NamesOnly disk) :=
  inferInstanceAs (Decidable (∀ entry ∈ disk.entries, ∀ s ∈ entry.1, Named s))

theorem mem_visibleBelow_rooted {d : Disk} {front names : List String}
    (hnames : ∀ s ∈ front ++ names, Named s) (hne : names ≠ [])
    (hvisible : ∀ s ∈ names, isVisible s = true)
    (h : d.exists? (rooted (front ++ names)) = true) :
    names ∈ visibleBelow d (rooted front) := by
  obtain ⟨hfind, hfolder⟩ := Disk.find_rooted hnames h
  obtain ⟨e, he⟩ := Disk.mem_entries_rooted hnames (by simp [hne]) h
  unfold visibleBelow
  rw [hfind]
  dsimp only
  rw [if_pos (hfolder hne)]
  refine List.mem_filter.mpr ⟨?_, List.all_eq_true.mpr hvisible⟩
  exact List.mem_filterMap.mpr ⟨_, he, by simp [hne]⟩

/-- A name that wildcards find. -/
def Listed (name : String) : Prop := isVisible name = true ∨ name = "." ∨ name = ".."

/-- A part stands for a name and finds it. -/
def Segment.Finds (s : Segment) (name : String) : Prop :=
  s.holds name = true ∧ ∀ p, s = .wild p → Listed name

section Found

variable {disk : Disk}

theorem mem_list (hdisk : NamesOnly disk) {p : Path} {name : String} (h : name ∈ disk.list p) :
    Named name := by
  unfold Disk.list at h
  split at h
  · split at h
    · obtain ⟨⟨loc, e⟩, hentry, he⟩ := List.mem_filterMap.mp h
      dsimp only at he
      split at he
      · exact hdisk _ hentry name (List.mem_of_getLast? he)
      · cases he
    · cases h
  · cases h

theorem mem_visibleBelow (hdisk : NamesOnly disk) {p : Path} {names : List String}
    (h : names ∈ visibleBelow disk p) : names ≠ [] ∧ ∀ s ∈ names, Named s ∧ isVisible s = true := by
  unfold visibleBelow at h
  split at h
  · split at h
    · obtain ⟨hbelow, hvisible⟩ := List.mem_filter.mp h
      obtain ⟨⟨place, e⟩, hentry, he⟩ := List.mem_filterMap.mp hbelow
      dsimp only at he
      split at he
      · rename_i loc _ _ hstart
        simp only [Bool.and_eq_true, decide_eq_true_eq] at hstart
        obtain ⟨rest, hrest⟩ := List.isPrefixOf_iff_prefix.mp hstart.1
        have hnames : names = rest := by
          rw [← Option.some.inj he, ← hrest, List.drop_left]
        subst hnames
        refine ⟨?_, fun s hs => ⟨?_, List.all_eq_true.mp hvisible s hs⟩⟩
        · rintro rfl
          exact hstart.2 (by rw [← hrest, List.append_nil])
        · exact hdisk _ hentry s (hrest ▸ List.mem_append_right loc hs)
      · cases he
    · cases h
  · cases h

theorem mem_listed (hdisk : NamesOnly disk) {pattern : Pattern} {p : Path} {name : String}
    (h : name ∈ ((disk.list p).filter fun name => isVisible name && pattern.holds name) ++
      dots pattern) : Filled name ∧ pattern.holds name = true ∧ Listed name := by
  rcases List.mem_append.mp h with h | h
  · obtain ⟨hlist, hshown⟩ := List.mem_filter.mp h
    rw [Bool.and_eq_true] at hshown
    exact ⟨(mem_list hdisk hlist).filled, hshown.2, Or.inl hshown.1⟩
  · unfold dots at h
    split at h
    · obtain ⟨hdots, hholds⟩ := List.mem_filter.mp h
      have hname : name = "." ∨ name = ".." := by simpa using hdots
      refine ⟨?_, hholds, Or.inr hname⟩
      rcases hname with rfl | rfl
      · exact ⟨by decide, by decide⟩
      · exact ⟨by decide, by decide⟩
    · cases h

/-- What the parts of a pattern are expanded to has names that they stand for. -/
theorem expandFrom_sound (hdisk : NamesOnly disk) {segments : List Segment}
    (hsegments : ∀ name, Segment.literal name ∈ segments → Filled name) {body : List String}
    (hbody : ∀ s ∈ body, Filled s) {p : Path} (h : p ∈ expandFrom disk segments (rooted body)) :
    ∃ names, p = rooted (body ++ names) ∧ (∀ s ∈ names, Filled s) ∧
      Spans IsStars Segment.Finds segments names := by
  generalize hq : rooted body = q at h
  fun_induction expandFrom disk segments q generalizing body with
  | case1 q =>
    refine ⟨[], ?_, by simp, .nil⟩
    rw [List.mem_singleton.mp h, List.append_nil, hq]
  | case2 q =>
    subst hq
    obtain ⟨hp, _⟩ := List.mem_filter.mp h
    obtain ⟨names, hnames, rfl⟩ := List.mem_map.mp hp
    obtain ⟨hne, hall⟩ := mem_visibleBelow hdisk hnames
    have hfilled := fun s hs => (hall s hs).1.filled
    refine ⟨names, descend_rooted hbody hfilled, hfilled, ?_⟩
    exact (Spans.last_stars_iff Segment.isStars_folders).mpr ⟨hne, fun s hs => (hall s hs).2⟩
  | case3 s rest q ih =>
    subst hq
    obtain ⟨first, hfirst, hp⟩ := List.mem_flatMap.mp h
    obtain ⟨hne, hall⟩ := mem_visibleBelow hdisk hfirst
    have hfilled : ∀ s ∈ first, Filled s := fun s hs => (hall s hs).1.filled
    split at hp
    · rename_i hholds
      obtain ⟨names, rfl, hnames, hspans⟩ := ih first
        (fun name hname => hsegments name (List.mem_cons_of_mem _ (List.mem_cons_of_mem _ hname)))
        (List.forall_mem_append.mpr ⟨hbody, hfilled⟩) (descend_rooted hbody hfilled).symm hp
      refine ⟨first ++ names, by rw [List.append_assoc],
        List.forall_mem_append.mpr ⟨hfilled, hnames⟩, ?_⟩
      rw [List.getLast?_eq_some_getLast hne, Option.getD_some] at hholds
      rw [← List.dropLast_append_getLast hne, List.append_assoc, List.singleton_append]
      have hlast := (hall _ (List.getLast_mem hne)).2
      apply Spans.stars_then Segment.isStars_folders _ hlast _ hspans
      · exact fun x hx => (hall x (List.dropLast_subset first hx)).2
      · exact fun _ => ⟨hholds, fun _ _ => Or.inl hlast⟩
    · cases hp
  | case4 name rest q =>
    rename_i ih
    subst hq
    have hname := hsegments name List.mem_cons_self
    obtain ⟨names, rfl, hnames, hspans⟩ := ih
      (fun name hname => hsegments name (List.mem_cons_of_mem _ hname))
      (List.forall_mem_append.mpr ⟨hbody, List.forall_mem_singleton.mpr hname⟩)
      (Path.child_rooted hbody hname.2).symm h
    refine ⟨name :: names, by simp, List.forall_mem_cons.mpr ⟨hname, hnames⟩, ?_⟩
    exact .one (by simp [IsStars]) ⟨by simp [Segment.holds], by simp⟩ hspans
  | case5 => cases h
  | case6 pattern rest q hfolder ih =>
    subst hq
    obtain ⟨name, hname, hp⟩ := List.mem_flatMap.mp h
    obtain ⟨hfilled, hholds, hseen⟩ := mem_listed hdisk hname
    obtain ⟨names, rfl, hnames, hspans⟩ := ih name
      (fun name hname => hsegments name (List.mem_cons_of_mem _ hname))
      (List.forall_mem_append.mpr ⟨hbody, List.forall_mem_singleton.mpr hfilled⟩)
      (Path.child_rooted hbody hfilled.2).symm hp
    refine ⟨name :: names, by simp, List.forall_mem_cons.mpr ⟨hfilled, hnames⟩, ?_⟩
    exact .one (by simp [IsStars]) ⟨hholds, fun _ _ => hseen⟩ hspans
  | case7 => cases h

end Found

/-! ### What is matched is found -/

/-- A part that wildcards before it do not keep from being found. -/
def Segment.Shown (s : Segment) : Prop :=
  ¬ s.IsStars ∧ ∀ name, s = .literal name → isVisible name = true

theorem Segment.Finds.isVisible {s : Segment} {name : String} (h : s.Finds name) (hs : s.Shown)
    (hname : Named name) : isVisible name = true := by
  cases s with
  | folders => exact False.elim (hs.1 rfl)
  | literal text =>
    have htext : name = text := by simpa [Segment.holds] using h.1
    exact htext ▸ hs.2 text rfl
  | wild p =>
    rcases h.2 p rfl with hvisible | rfl | rfl
    · exact hvisible
    · exact False.elim (hname.1.2.1 rfl)
    · exact False.elim (hname.1.2.2 rfl)

theorem not_folders_of_cons {s : Segment} {rest : List Segment}
    (h : (s :: rest).getLast? ≠ some .folders) : rest.getLast? ≠ some .folders := by
  intro hrest
  rw [List.getLast?_cons, hrest, Option.getD_some] at h
  exact h rfl

theorem Spans.of_literal {name : String} {rest : List Segment} {names : List String}
    (h : Spans IsStars Segment.Finds (.literal name :: rest) names) :
    ∃ names', names = name :: names' ∧ Spans IsStars Segment.Finds rest names' := by
  obtain ⟨name', names', rfl, hname, hspans⟩ := h.of_one (by simp [IsStars])
  have hsame : name' = name := by simpa [Segment.holds] using hname.1
  exact ⟨names', by rw [hsame], hspans⟩

/-- What is there and has names that the parts of a pattern can find, is found. -/
theorem expandFrom_complete {disk : Disk} {segments : List Segment}
    (hshown : segments.IsChain fun s s' => s.IsStars → s'.Shown)
    (hlast : segments.getLast? ≠ some .folders) {body names : List String}
    (hnames : ∀ s ∈ body ++ names, Named s)
    (hthere : disk.exists? (rooted (body ++ names)) = true)
    (h : Spans IsStars Segment.Finds segments names) :
    rooted (body ++ names) ∈ expandFrom disk segments (rooted body) := by
  have hbody : ∀ s ∈ body, Filled s := fun s hs => (hnames s (List.mem_append_left names hs)).filled
  generalize hq : rooted body = q
  fun_induction expandFrom disk segments q generalizing body names with
  | case1 q =>
    cases h
    rw [List.append_nil, hq]
    exact List.mem_singleton_self q
  | case2 q => exact False.elim (hlast rfl)
  | case3 s rest q ih =>
    -- two stars take all the names up to the one that the next part stands for
    subst hq
    rw [List.isChain_cons_cons] at hshown
    have hs := hshown.1 Segment.isStars_folders
    obtain ⟨first, name, names, rfl, hfirst, hfits, hspans⟩ :=
      h.of_stars_one Segment.isStars_folders hs.1
    have hsplit : body ++ (first ++ name :: names) = body ++ (first ++ [name]) ++ names := by simp
    rw [hsplit] at hnames hthere ⊢
    have hnext : ∀ x ∈ body ++ (first ++ [name]), Named x :=
      fun x hx => hnames x (List.mem_append_left names hx)
    have hadded : ∀ x ∈ first ++ [name], Filled x :=
      fun x hx => (hnext x (List.mem_append_right body hx)).filled
    have hvisible : ∀ x ∈ first ++ [name], isVisible x = true := by
      rw [List.forall_mem_append, List.forall_mem_singleton]
      exact ⟨hfirst, hfits.isVisible hs (hnext name (by simp))⟩
    refine List.mem_flatMap.mpr ⟨first ++ [name], ?_, ?_⟩
    · exact mem_visibleBelow_rooted hnext (by simp) hvisible (Disk.exists_rooted hnames hthere)
    · rw [List.getLast?_concat, Option.getD_some, if_pos hfits.1]
      exact ih (first ++ [name]) hshown.2.tail
        (not_folders_of_cons (not_folders_of_cons hlast)) hnames hthere
        hspans (fun x hx => (hnext x hx).filled) (descend_rooted hbody hadded).symm
  | case4 name rest q =>
    rename_i ih
    subst hq
    obtain ⟨names, rfl, hspans⟩ := h.of_literal
    rw [List.append_cons] at hnames hthere ⊢
    have hnext : ∀ x ∈ body ++ [name], Named x :=
      fun x hx => hnames x (List.mem_append_left names hx)
    exact ih hshown.tail (not_folders_of_cons hlast) hnames hthere hspans
      (fun x hx => (hnext x hx).filled) (Path.child_rooted hbody (hnext name (by simp)).2).symm
  | case5 name rest q =>
    rename_i hgone
    subst hq
    obtain ⟨names, rfl, _⟩ := h.of_literal
    rw [List.append_cons] at hnames hthere
    have hname : Named name := hnames name (by simp)
    refine False.elim (hgone ?_)
    change (if name = "." || name = ".." then _ else disk.exists? ((rooted body).child name)) = true
    rw [if_neg (by simp [hname.1.2.1, hname.1.2.2]), Path.child_rooted hbody hname.2]
    exact Disk.exists_rooted hnames hthere
  | case6 pattern rest q hfolder ih =>
    subst hq
    obtain ⟨name, names, rfl, hname, hspans⟩ := h.of_one (by simp [IsStars])
    rw [List.append_cons] at hnames hthere ⊢
    have hnext : ∀ x ∈ body ++ [name], Named x :=
      fun x hx => hnames x (List.mem_append_left names hx)
    have hvisible := hname.isVisible ⟨by simp [IsStars], by simp⟩ (hnext name (by simp))
    have hlist := Disk.mem_list_rooted hnext (Disk.exists_rooted hnames hthere)
    refine List.mem_flatMap.mpr ⟨name, ?_, ?_⟩
    · refine List.mem_append_left _ (List.mem_filter.mpr ⟨hlist, ?_⟩)
      rw [Bool.and_eq_true]
      exact ⟨hvisible, hname.1⟩
    · exact ih name hshown.tail (not_folders_of_cons hlast) hnames hthere hspans
        (fun x hx => (hnext x hx).filled) (Path.child_rooted hbody (hnext name (by simp)).2).symm
  | case7 pattern rest q hfolder =>
    subst hq
    exact False.elim (hfolder (Disk.isFolder_rooted hnames hthere (h.ne_nil (by simp))))

/-! ### Two stars after two stars -/

theorem head?_collapse (segments : List Segment) : (collapse segments).head? = segments.head? := by
  induction segments with
  | nil => rfl
  | cons s rest ih =>
    rw [collapse]
    split
    · rename_i htwice
      simp only [Bool.and_eq_true, decide_eq_true_eq] at htwice
      rw [ih, htwice.2, htwice.1, List.head?_cons]
    · rfl

theorem getLast?_collapse (segments : List Segment) :
    (collapse segments).getLast? = segments.getLast? := by
  induction segments with
  | nil => rfl
  | cons s rest ih =>
    rw [collapse]
    split
    · rename_i htwice
      simp only [Bool.and_eq_true, decide_eq_true_eq] at htwice
      obtain ⟨rest', rfl⟩ := List.head?_eq_some_iff.mp htwice.2
      rw [ih, List.getLast?_cons_cons]
    · rw [List.getLast?_cons, List.getLast?_cons, ih]

theorem mem_of_mem_collapse {s : Segment} {segments : List Segment} (h : s ∈ collapse segments) :
    s ∈ segments := by
  induction segments with
  | nil => cases h
  | cons x rest ih =>
    rw [collapse] at h
    split at h
    · exact List.mem_cons_of_mem x (ih h)
    · rcases List.mem_cons.mp h with rfl | h
      · exact List.mem_cons_self
      · exact List.mem_cons_of_mem x (ih h)

theorem isChain_collapse {segments : List Segment}
    (h : segments.IsChain fun s s' => s.IsStars → ∀ name, s' = .literal name →
      isVisible name = true) :
    (collapse segments).IsChain fun s s' => s.IsStars → s'.Shown := by
  induction segments with
  | nil => exact List.isChain_nil
  | cons s rest ih =>
    rw [List.isChain_cons] at h
    rw [collapse]
    split
    · exact ih h.2
    · rename_i hsingle
      refine List.isChain_cons.mpr ⟨?_, ih h.2⟩
      rw [head?_collapse]
      intro s' hs' hs
      have hs : s = .folders := hs
      refine ⟨fun hstars => ?_, h.1 s' hs' hs⟩
      obtain rfl : s' = .folders := hstars
      exact hsingle (by simpa [hs] using hs')

/-- An empty part at the beginning finds the top folder again. -/
theorem expandFrom_top (disk : Disk) (segments : List Segment) :
    expandFrom disk (.literal "" :: segments) (rooted []) =
      expandFrom disk segments (rooted []) := by
  have hnext : (rooted []).child "" = rooted [] := rfl
  have hname : ¬ (decide ("" = ".") || decide ("" = "..")) = true := by decide
  rw [expandFrom, hnext, if_neg hname, if_pos disk.exists_top]

end Glob

end TypeOnly
