import TypeOnly.FileSystem
import TypeOnly.Proofs.DiskEntries

/-!
A file is replaced by way of a draft. There is always a new name for the draft, so that it is gone
without a trace in the end: the file has the new text, or the disk is what it was.
-/

namespace TypeOnly

set_option autoImplicit false

/-! ### Names for drafts -/

namespace Draft

theorem name_injective (file : String) : Function.Injective (name file) := by
  have hdigits (zeros n : Nat) :
      Nat.ofDigitChars 10 (List.replicate zeros '0' ++ Nat.toDigits 10 n) 0 = n := by
    induction zeros with
    | zero => exact Nat.ofDigitChars_toDigits (by decide) (by decide)
    | succ zeros ih =>
      rw [List.replicate_succ, List.cons_append, Nat.ofDigitChars_cons]
      exact ih
  intro n n' he
  unfold name at he
  have hpadded := String.ofList_injective
    ((String.append_right_inj _).mp ((String.append_left_inj _).mp he))
  rw [← hdigits (digits - (Nat.toDigits 10 n).length) n, hpadded, hdigits]

/-- There are more names to choose from than are taken. -/
theorem freeName_free (p : Path) {bound : Nat} {taken : String → Bool} {used : List String}
    (hused : ∀ s, taken s = true → s ∈ used) (hlength : used.length ≤ bound) :
    taken (freeName p bound taken) = false := by
  unfold freeName
  generalize hnames : (List.range (bound + 1)).map (name (p.fileName?.getD "")) = names
  cases hfind : names.find? fun s => !taken s with
  | some s => simpa using List.find?_some hfind
  | none =>
    have hnodup : names.Nodup := by
      rw [← hnames]
      exact List.nodup_range.map (name_injective _)
    have htaken : names ⊆ used := by
      intro s hs
      exact hused s (by simpa using List.find?_eq_none.mp hfind s hs)
    have hle := hnodup.length_le_of_subset htaken
    rw [← hnames, List.length_map, List.length_range] at hle
    omega

theorem written_subset (p : Path) : written p ⊆ p.segments := by
  intro s hs
  exact List.mem_reverse.mp ((List.dropWhile_sublist _).subset (List.mem_reverse.mp hs))

theorem written_of_segments {p : Path} {init : List String} {name : String}
    (h : p.segments = init ++ [name]) (hname : name ≠ "") : written p = init ++ [name] := by
  rw [written, h, List.reverse_append]
  simp [hname]

section Target

variable {walk : List String → Except Obstacle Location} {isFolderAt : Location → Bool} {p : Path}

/-- A draft is moved to the last name of a path, in the folder that the rest leads to. -/
theorem target_eq_ok_iff {loc : Location} :
    target walk isFolderAt p = .ok loc ↔
      p.text.utf8ByteSize ≤ Disk.maxPath ∧ p.text.toList.getLast? ≠ some '/' ∧
      ∃ init name folder, written p = init ++ [name] ∧ name ≠ "." ∧ name ≠ ".." ∧
        walk init = .ok folder ∧ isFolderAt folder = true ∧
        isFolderAt (folder ++ [name]) = false ∧ folder ++ [name] = loc := by
  unfold target
  simp only [bind, Except.bind, pure, Except.pure, throw, throwThe, MonadExceptOf.throw]
  rw [unless_eq_ok_iff, Nat.not_lt]
  apply and_congr_right
  intro _
  rcases List.eq_nil_or_concat (written p) with hwritten | ⟨init, name, hwritten⟩
  · rw [hwritten]
    cases walk [].dropLast <;> simp [when_eq_ok_iff]
  · rw [List.concat_eq_append] at hwritten
    simp only [hwritten, List.dropLast_concat, List.getLast?_concat, Option.getD_some,
      List.append_singleton_inj, Bool.or_eq_true, decide_eq_true_eq]
    constructor
    · intro h
      cases hwalk : walk init with
      | error o => simp [hwalk] at h
      | ok folder =>
        rw [hwalk] at h
        simp only [when_eq_ok_iff, unless_eq_ok_iff, not_or, Bool.not_eq_true] at h
        obtain ⟨hfolder, ⟨hhere, hup⟩, hlast, hname, hloc⟩ := h
        exact ⟨hlast, init, name, folder, ⟨rfl, rfl⟩, hhere, hup, hwalk, hfolder, hname,
          Except.ok.inj hloc⟩
    · rintro ⟨hlast, _, _, folder, ⟨rfl, rfl⟩, hhere, hup, hwalk, hfolder, hname, rfl⟩
      simp only [hwalk, when_eq_ok_iff, unless_eq_ok_iff, not_or, Bool.not_eq_true]
      exact ⟨hfolder, ⟨hhere, hup⟩, hlast, hname, trivial⟩

end Target

end Draft

namespace Disk

variable {d : Disk}

theorem newDraft_new (d : Disk) (folder : Location) (p : Path) :
    d.get? (folder ++ [d.newDraft folder p]) = none ∧ d.newDraft folder p ∉ p.segments := by
  have hlength : (d.entries.map (fun x => x.1.getLast?.getD "") ++ p.segments).length ≤
      d.entries.length + p.segments.length := by simp
  have hused (name : String)
      (h : ((d.get? (folder ++ [name])).isSome || p.segments.contains name) = true) :
      name ∈ d.entries.map (fun x => x.1.getLast?.getD "") ++ p.segments := by
    rw [Bool.or_eq_true, List.contains_iff_mem] at h
    rw [List.mem_append]
    rcases h with h | h
    · left
      obtain ⟨e, he⟩ := Option.isSome_iff_exists.mp h
      rw [get?_of_ne_nil (by simp)] at he
      exact List.mem_map.mpr ⟨(folder ++ [name], e), Location.mem_of_lookup he, by simp⟩
    · exact Or.inr h
  have hfree := Draft.freeName_free p hused hlength
  rw [Bool.or_eq_false_iff, Option.isSome_eq_false_iff, Option.isNone_iff_eq_none,
    List.contains_eq_mem, decide_eq_false_iff_not] at hfree
  exact hfree

/-! ### Drafts -/

section Draft

variable {folder : Location} {name : String} {bytes : ByteArray}
variable (h : d.get? (folder ++ [name]) = none)
include h

theorem walk_put_draft {segments : List String} (hname : name ∉ segments) (loc : Location) :
    (d.put (folder ++ [name]) (.file bytes)).walk loc segments = d.walk loc segments := by
  induction segments generalizing loc with
  | nil => rfl
  | cons s rest ih =>
    simp only [List.mem_cons, not_or] at hname
    have hne : loc ++ [s] ≠ folder ++ [name] := by
      intro he
      exact hname.1 (List.append_singleton_inj.mp he).2.symm
    simp only [walk, isFolderAt_put_new h, get?_put_of_ne _ hne, ih hname.2]

theorem target_put_draft {p : Path} (hname : name ∉ p.segments) :
    (d.put (folder ++ [name]) (.file bytes)).target p = d.target p := by
  have hwritten : name ∉ (Draft.written p).dropLast := fun hmem =>
    hname (Draft.written_subset p ((List.dropLast_sublist _).subset hmem))
  simp only [target, Draft.target, walk_put_draft h hwritten, isFolderAt_put_new h]

end Draft

theorem finish_eq (d : Disk) (draft : Location) (p : Path) (text : String) :
    FileSystem.finish draft p text d =
      FileSystem.rename draft p (d.put draft (.file text.toUTF8)) := rfl

/-- A file is replaced at once or not at all. -/
theorem replace_eq (d : Disk) (p : Path) (text : String) :
    FileSystem.replace d p text =
      ((d.draftFolder p *> d.target p).map fun loc => d.put loc (.file text.toUTF8)).mapError
        fun o => ⟨.blocked p o, d⟩ := by
  cases hfolder : d.draftFolder p with
  | error o => simp only [FileSystem.replace, FileSystem.create, hfolder]; rfl
  | ok folder =>
    obtain ⟨hnew, hsegments⟩ := d.newDraft_new folder p
    simp only [FileSystem.replace, FileSystem.create, hfolder, finish_eq, FileSystem.rename,
      put_put_new hnew, target_put_draft hnew hsegments]
    cases d.target p with
    | error o =>
      simp only [FileSystem.remove, unlink_put_new hnew]
      rfl
    | ok loc =>
      simp only [move_put_new hnew]
      rfl

end Disk

end TypeOnly
