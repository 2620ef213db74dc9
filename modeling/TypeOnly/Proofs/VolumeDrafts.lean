import TypeOnly.Proofs.VolumePaths

/-!
A file of a volume is replaced by way of a draft, and each step can be refused. The file is then
replaced, with its permissions, or it is what it was and the draft is gone again; the draft stays
only if to take it away is refused as well.
-/

namespace TypeOnly

set_option autoImplicit false

namespace Volume

variable {v : Volume}

theorem newDraft_new (v : Volume) (folder : Location) (p : Path) :
    v.get? (folder ++ [v.newDraft folder p]) = none ∧ v.newDraft folder p ∉ p.segments ∧
      v.newDraft folder p ∉ v.linkSegments := by
  have hlength : (v.nodes.map (fun x => x.1.getLast?.getD "") ++ p.segments ++
      v.linkSegments).length ≤ v.nodes.length + p.segments.length + v.linkSegments.length := by
    simp [Nat.add_assoc]
  have hused (name : String) (h : ((v.get? (folder ++ [name])).isSome ||
      p.segments.contains name || v.linkSegments.contains name) = true) :
      name ∈ v.nodes.map (fun x => x.1.getLast?.getD "") ++ p.segments ++ v.linkSegments := by
    rw [Bool.or_eq_true, Bool.or_eq_true, List.contains_iff_mem, List.contains_iff_mem] at h
    rw [List.mem_append, List.mem_append]
    refine h.imp_left (Or.imp_left ?_)
    intro h
    obtain ⟨e, he⟩ := Option.isSome_iff_exists.mp h
    rw [get?_of_ne_nil (by simp)] at he
    exact List.mem_map.mpr ⟨(folder ++ [name], e), Location.mem_of_lookup he, by simp⟩
  have hfree := Draft.freeName_free p hused hlength
  rw [Bool.or_eq_false_iff, Bool.or_eq_false_iff, Option.isSome_eq_false_iff,
    Option.isNone_iff_eq_none, List.contains_eq_mem, List.contains_eq_mem, decide_eq_false_iff_not,
    decide_eq_false_iff_not, and_assoc] at hfree
  exact hfree

theorem segments_subset_of_link {loc : Location} {target : Path} (hloc : loc ≠ [])
    (h : v.get? loc = some (.link target)) : target.segments ⊆ v.linkSegments := by
  rw [get?_of_ne_nil hloc] at h
  intro s hs
  exact List.mem_flatMap.mpr ⟨(loc, .link target), Location.mem_of_lookup h, hs⟩

/-! ### A new file -/

section New

variable {draft : Location} {bytes : ByteArray} {mode : Nat} (h : v.get? draft = none)
include h

/-- Ways stay open when a file is added. -/
theorem follows_put_new {links : Nat} {loc loc' : Location} {segments : List String}
    (hfollows : v.Follows links loc segments loc') :
    (v.put draft (.file bytes mode)).Follows links loc segments loc' := by
  refine hfollows.of_agree (isFolderAt_put_new h bytes mode) (fun _ => get?_put_of_ne _) ?_
  rintro links loc s rest ⟨hempty, hhere, hup⟩ rfl hfollows
  cases hfollows with
  | stay _ hs => exact hs.elim hempty hhere
  | up => exact hup rfl
  | enter _ _ _ hget | link _ _ _ hget => simp [h] at hget

theorem find_put_new {q : Path} {loc : Location} (hfind : v.find q = .ok loc) :
    (v.put draft (.file bytes mode)).find q = .ok loc := by
  obtain ⟨hsize, habsolute, links, hle, hfollows⟩ := find_eq_ok_iff.mp hfind
  exact find_eq_ok_iff.mpr ⟨hsize, habsolute, links, hle, follows_put_new h hfollows⟩

theorem get?_put_new {loc : Location} (hloc : v.get? loc ≠ none) :
    (v.put draft (.file bytes mode)).get? loc = v.get? loc := by
  apply get?_put_of_ne
  rintro rfl
  exact hloc h

/-- Files can be read as before when one is added. -/
theorem read_put_new {q : Path} {text : String} (hread : v.read q = .ok text) :
    (v.put draft (.file bytes mode)).read q = .ok text := by
  obtain ⟨loc, content, hfind, hcontent, htext⟩ := read_eq_ok_iff.mp hread
  refine read_eq_ok_iff.mpr ⟨loc, content, find_put_new h hfind, ?_, htext⟩
  obtain ⟨hrefusal, hfile⟩ := contentAt_eq_ok_iff.mp hcontent
  refine contentAt_eq_ok_iff.mpr ⟨hrefusal, ?_⟩
  obtain ⟨m, hget⟩ := hfile
  rw [get?_put_new h (by simp [hget])]
  exact ⟨m, hget⟩

theorem store_put_new (content : ByteArray) :
    (v.put draft (.file bytes mode)).store draft content = v.put draft (.file content mode) := by
  rw [store, modeAt?, get?_put_self _ (ne_nil_of_get?_none h)]
  exact put_put_new h _ _

theorem permit_put_new (mode' : Nat) :
    (v.put draft (.file bytes mode)).permit draft mode' = v.put draft (.file bytes mode') := by
  rw [permit, get?_put_self _ (ne_nil_of_get?_none h)]
  exact put_put_new h _ _

end New

/-! ### Drafts -/

section Draft

variable {folder : Location} {name : String} {bytes : ByteArray} {mode : Nat}
variable (h : v.get? (folder ++ [name]) = none) (hlinks : name ∉ v.linkSegments)
include h hlinks

/-- No way passes a draft whose name nobody knows. -/
theorem follows_of_put_draft {links : Nat} {loc loc' : Location} {segments : List String}
    (hfollows : (v.put (folder ++ [name]) (.file bytes mode)).Follows links loc segments loc')
    (hname : name ∉ segments) : v.Follows links loc segments loc' := by
  have hother {loc : Location} {s : String} {rest : List String} (hname : name ∉ s :: rest) :
      loc ++ [s] ≠ folder ++ [name] := by
    intro he
    exact hname (List.mem_cons.mpr (Or.inl (List.append_singleton_inj.mp he).2.symm))
  have hrest {s : String} {rest : List String} (hname : name ∉ s :: rest) : name ∉ rest :=
    fun hmem => hname (List.mem_cons_of_mem s hmem)
  induction hfollows with
  | done loc => exact .done loc
  | stay hfolder hs _ ih =>
    rw [isFolderAt_put_new h] at hfolder
    exact .stay hfolder hs (ih (hrest hname))
  | up hfolder _ ih =>
    rw [isFolderAt_put_new h] at hfolder
    exact .up hfolder (ih (hrest hname))
  | enter hfolder hs hsize hget he _ ih =>
    rw [isFolderAt_put_new h] at hfolder
    rw [get?_put_of_ne _ (hother hname)] at hget
    exact .enter hfolder hs hsize hget he (ih (hrest hname))
  | link hfolder hs hsize hget _ ih =>
    rw [isFolderAt_put_new h] at hfolder
    rw [get?_put_of_ne _ (hother hname)] at hget
    refine .link hfolder hs hsize hget (ih ?_)
    rw [List.mem_append, not_or]
    exact ⟨fun hmem => hlinks (segments_subset_of_link (by simp) hget hmem), hrest hname⟩

theorem target_put_draft {p : Path} (hname : name ∉ p.segments) {loc : Location} :
    (v.put (folder ++ [name]) (.file bytes mode)).target p = .ok loc ↔ v.target p = .ok loc := by
  have hwritten {init : List String} {last : String} (h : Draft.written p = init ++ [last]) :
      name ∉ init := fun hmem => hname (Draft.written_subset p (by simp [h, hmem]))
  unfold target
  rw [Draft.target_eq_ok_iff, Draft.target_eq_ok_iff]
  simp only [isFolderAt_put_new h, walk_eq_ok_iff]
  constructor
  · rintro ⟨hsize, hlast, init, last, folder', hinit, hhere, hup, ⟨links, hle, hfollows⟩, hrest⟩
    exact ⟨hsize, hlast, init, last, folder', hinit, hhere, hup,
      ⟨links, hle, follows_of_put_draft h hlinks hfollows (hwritten hinit)⟩, hrest⟩
  · rintro ⟨hsize, hlast, init, last, folder', hinit, hhere, hup, ⟨links, hle, hfollows⟩, hrest⟩
    exact ⟨hsize, hlast, init, last, folder', hinit, hhere, hup,
      ⟨links, hle, follows_put_new h hfollows⟩, hrest⟩

theorem find_put_draft {p : Path} (hname : name ∉ p.segments) {loc : Location} :
    (v.put (folder ++ [name]) (.file bytes mode)).find p = .ok loc ↔ v.find p = .ok loc := by
  refine ⟨fun hfind => ?_, find_put_new h⟩
  obtain ⟨hsize, habsolute, links, hle, hfollows⟩ := find_eq_ok_iff.mp hfind
  exact find_eq_ok_iff.mpr
    ⟨hsize, habsolute, links, hle, follows_of_put_draft h hlinks hfollows hname⟩

theorem mode?_put_draft {p : Path} (hname : name ∉ p.segments) :
    (v.put (folder ++ [name]) (.file bytes mode)).mode? p = v.mode? p := by
  apply Option.ext
  intro m
  rw [mode?_eq_some_iff, mode?_eq_some_iff]
  refine exists_congr fun loc => ?_
  rw [find_put_draft h hlinks hname]
  refine and_congr_right fun hfind => ?_
  rw [modeAt?, modeAt?, get?_put_new h (get?_of_find hfind)]
  rfl

theorem rename_draft {p : Path} (hname : name ∉ p.segments) :
    (∃ loc, v.target p = .ok loc ∧
      FileSystem.rename (folder ++ [name]) p (v.put (folder ++ [name]) (.file bytes mode)) =
        .ok () (v.put loc (.file bytes mode))) ∨
    ∃ o, FileSystem.rename (folder ++ [name]) p (v.put (folder ++ [name]) (.file bytes mode)) =
      .error o (v.put (folder ++ [name]) (.file bytes mode)) := by
  simp only [FileSystem.rename, request]
  cases htarget : (v.put (folder ++ [name]) (.file bytes mode)).target p with
  | error o => exact Or.inr ⟨o, rfl⟩
  | ok loc =>
    dsimp only
    cases (v.put (folder ++ [name]) (.file bytes mode)).refusal .rename (folder ++ [name]) with
    | some o => exact Or.inr ⟨o, rfl⟩
    | none =>
      refine Or.inl ⟨loc, (target_put_draft h hlinks hname).mp htarget, ?_⟩
      simp only [move_put_new h]

/-- A draft becomes the file, with the permissions of the old one, or it is still there. -/
theorem finish_draft {p : Path} (hname : name ∉ p.segments) (text : String) :
    (∃ loc, v.target p = .ok loc ∧
      FileSystem.finish (folder ++ [name]) p text (v.put (folder ++ [name]) (.file bytes mode)) =
        .ok () (v.put loc (.file text.toUTF8 ((v.mode? p).getD mode)))) ∨
    ∃ o bytes' mode',
      FileSystem.finish (folder ++ [name]) p text (v.put (folder ++ [name]) (.file bytes mode)) =
        .error o (v.put (folder ++ [name]) (.file bytes' mode')) := by
  simp only [FileSystem.finish, bind, EStateM.bind, FileSystem.write, FileSystem.sync, request,
    refusal_put, store_put_new h]
  cases v.refusal .write (folder ++ [name]) with
  | some o => exact Or.inr ⟨o, _, mode, rfl⟩
  | none =>
    dsimp only
    rw [refusal_put]
    cases v.refusal .sync (folder ++ [name]) with
    | some o => exact Or.inr ⟨o, text.toUTF8, mode, rfl⟩
    | none =>
      simp only [get, getThe, MonadStateOf.get]
      delta EStateM.get
      simp only [FileSystem.mode?, mode?_put_draft h hlinks hname]
      cases v.mode? p with
      | none =>
        rcases rename_draft h hlinks hname with hdone | ⟨o, hrefused⟩
        · exact Or.inl hdone
        · exact Or.inr ⟨o, text.toUTF8, mode, hrefused⟩
      | some mode' =>
        simp only [EStateM.bind, FileSystem.setMode, request, refusal_put, permit_put_new h]
        cases v.refusal .setMode (folder ++ [name]) with
        | some o => exact Or.inr ⟨o, text.toUTF8, mode, rfl⟩
        | none =>
          rcases rename_draft h hlinks hname with hdone | ⟨o, hrefused⟩
          · exact Or.inl hdone
          · exact Or.inr ⟨o, text.toUTF8, mode', hrefused⟩

end Draft

/-- What is left of a file that could not be replaced: nothing, or a draft next to it, if to take
the draft away was refused. -/
def Leftover (v : Volume) (p : Path) (v' : Volume) : Prop :=
  v' = v ∨ ∃ folder name bytes mode, v.draftFolder p = .ok folder ∧
    v.get? (folder ++ [name]) = none ∧ v.refusal .remove (folder ++ [name]) ≠ none ∧
    v' = v.put (folder ++ [name]) (.file bytes mode)

namespace Leftover

variable {p : Path} {v' : Volume} (h : v.Leftover p v')
include h

theorem get?_eq {loc : Location} (hloc : v.get? loc ≠ none) : v'.get? loc = v.get? loc := by
  rcases h with rfl | ⟨folder, name, bytes, mode, _, hnew, _, rfl⟩
  · rfl
  · exact get?_put_new hnew hloc

theorem read {q : Path} {text : String} (hread : v.read q = .ok text) : v'.read q = .ok text := by
  rcases h with rfl | ⟨folder, name, bytes, mode, _, hnew, _, rfl⟩
  · exact hread
  · exact read_put_new hnew hread

end Leftover

/-- A file is replaced with its permissions, or not at all. -/
theorem replace_cases (v : Volume) (p : Path) (text : String) :
    (∃ loc, v.target p = .ok loc ∧ FileSystem.replace v p text =
      .ok (v.put loc (.file text.toUTF8 ((v.mode? p).getD v.newMode)))) ∨
    ∃ o v', v.Leftover p v' ∧ FileSystem.replace v p text = .error ⟨.blocked p o, v'⟩ := by
  simp only [FileSystem.replace, FileSystem.create]
  cases hfolder : v.draftFolder p with
  | error o => exact Or.inr ⟨o, v, Or.inl rfl, rfl⟩
  | ok folder =>
    obtain ⟨hnew, hname, hlinks⟩ := v.newDraft_new folder p
    simp only [request]
    generalize v.newDraft folder p = name at *
    cases v.refusal .create (folder ++ [name]) with
    | some o => exact Or.inr ⟨o, v, Or.inl rfl, rfl⟩
    | none =>
      dsimp only
      rcases finish_draft hnew hlinks hname text with
        ⟨loc, htarget, hdone⟩ | ⟨o, bytes, mode, hrefused⟩
      · rw [hdone]
        exact Or.inl ⟨loc, htarget, rfl⟩
      · rw [hrefused]
        simp only [FileSystem.remove, request, refusal_put, unlink_put_new hnew]
        cases hremove : v.refusal .remove (folder ++ [name]) with
        | none => exact Or.inr ⟨o, v, Or.inl rfl, rfl⟩
        | some o' =>
          refine Or.inr ⟨o, _, Or.inr ⟨folder, name, bytes, mode, hfolder, hnew, ?_, rfl⟩, rfl⟩
          simp [hremove]

end Volume

end TypeOnly
