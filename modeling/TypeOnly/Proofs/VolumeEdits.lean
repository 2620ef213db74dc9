import TypeOnly.Proofs.DiskEdits
import TypeOnly.Proofs.DiskVolumes

/-!
Edit sets on a volume, with links in it and with requests that are refused. Sets are carried out
file by file. A file is patched as a whole, and only while it is what was checked. A set that fails
leaves its own file and all later ones alone, and no draft behind that can be taken away.
-/

namespace TypeOnly

set_option autoImplicit false

namespace EditSet

variable {s : EditSet} {v v' : Volume} {sets done : List EditSet} {writing : Bool}

/-! ### One file -/

/-- Two paths do not lead to the same place. -/
def Apart (v : Volume) (p q : Path) : Prop := ∀ loc, v.Leads p loc → ¬v.Leads q loc

/-- A path leads to the same file in two volumes. -/
structure Alike (v v' : Volume) (q : Path) : Prop where
  leads : ∀ loc, v'.Leads q loc ↔ v.Leads q loc
  find : ∀ loc, v'.find q = .ok loc ↔ v.find q = .ok loc
  read : ∀ text, v'.read q = .ok text ↔ v.read q = .ok text
  mode : v'.mode? q = v.mode? q

/-- The file of a set was what was checked, and a file with the patched text is in its place now. If
the path of the set ends with a link, that is the place of the link. -/
structure Replaces (s : EditSet) (place f : Location) (text : String) (v v' : Volume) : Prop where
  patched : s.patched = .ok text
  checked : s.Unchanged v
  found : v.find s.path = .ok f
  file : v.isFolderAt f = false
  target : v.target s.path = .ok place
  written : v' = v.put place (.file text.toUTF8 ((v.mode? s.path).getD v.newMode))

theorem carryOut_replaces (h : s.carryOut true v = .ok v') :
    ∃ place f text, s.Replaces place f text v v' := by
  obtain ⟨text, hpatched, ⟨current, hread, hdigest⟩, hreplace⟩ := carryOut_ok h
  obtain ⟨f, bytes, hfind, hcontent, _⟩ := Volume.read_eq_ok_iff.mp hread
  obtain ⟨_, mode, hget⟩ := Volume.contentAt_eq_ok_iff.mp hcontent
  rcases v.replace_cases s.path text with ⟨place, htarget, hput⟩ | ⟨o, left, _, hrefused⟩
  · rw [hput] at hreplace
    exact ⟨place, f, text, hpatched, ⟨current, hread, hdigest⟩, hfind,
      Volume.not_isFolderAt hget (by simp), htarget, (Except.ok.inj hreplace).symm⟩
  · rw [hrefused] at hreplace
    cases hreplace

theorem carryOut_leftover {e : Setback Volume RunError} (h : s.carryOut writing v = .error e) :
    v.Leftover s.path e.disk := by
  rcases carryOut_error h with hsame | ⟨_, _, text, x, _, hreplace, rfl⟩
  · exact Or.inl hsame
  · rcases v.replace_cases s.path text with ⟨place, _, hput⟩ | ⟨o, left, hleft, hrefused⟩
    · rw [hput] at hreplace
      cases hreplace
    · rw [hrefused] at hreplace
      exact Except.error.inj hreplace ▸ hleft

namespace Replaces

variable {place f : Location} {text : String} (h : s.Replaces place f text v v')
include h

theorem get?_of_ne {loc : Location} (hne : loc ≠ place) : v'.get? loc = v.get? loc := by
  rw [h.written]
  exact Volume.get?_put_of_ne _ hne

/-- A path to another file leads there as before. -/
theorem alike {q : Path} (hq : Apart v s.path q) : Alike v v' q := by
  obtain ⟨_, folder, name, _, _, _, rfl, hnames⟩ :=
    Volume.namesFile_of_target h.found h.file h.target
  have hf : ¬v.Leads q f := hq f (Volume.leads_of_find h.found)
  rw [h.written]
  exact ⟨fun _ => hnames.leads_put hf, fun _ => hnames.find_put hf, fun _ => hnames.read_put hf,
    hnames.mode?_put hf⟩

theorem target_iff {q : Path} {loc : Location} : v'.target q = .ok loc ↔ v.target q = .ok loc := by
  obtain ⟨_, folder, name, _, _, _, rfl, hnames⟩ :=
    Volume.namesFile_of_target h.found h.file h.target
  rw [h.written]
  exact hnames.target_put

theorem get?_self : v'.get? place =
    some (.file text.toUTF8 ((v.mode? s.path).getD v.newMode)) := by
  obtain ⟨_, folder, name, _, _, _, rfl, _⟩ := Volume.namesFile_of_target h.found h.file h.target
  rw [h.written]
  exact Volume.get?_put_self _ (by simp)

theorem find_self : v'.find s.path = .ok place := by
  obtain ⟨init, folder, name, _, hsegments, hinit, rfl, hnames⟩ :=
    Volume.namesFile_of_target h.found h.file h.target
  rw [h.written]
  exact hnames.find_put_self hsegments hinit h.found

/-- A path to another file does not lead to the new one. -/
theorem apart_self {q : Path} (hq : Apart v s.path q) : Apart v' q s.path := by
  intro loc hloc hself
  obtain rfl := hself.unique (Volume.leads_of_find h.find_self)
  obtain ⟨_, folder, name, _, _, _, rfl, hnames⟩ :=
    Volume.namesFile_of_target h.found h.file h.target
  rw [h.written] at hloc
  exact hnames.not_leads_put (hq f (Volume.leads_of_find h.found)) hloc

/-- Another file that can be read is in another place. -/
theorem target_ne {q : Path} (hq : Apart v s.path q) {f' : Location} (hfind : v.find q = .ok f')
    (hfile : v.isFolderAt f' = false) : v.target q ≠ .ok place := by
  intro htarget
  obtain ⟨_, folder, name, _, _, _, hplace, hnames⟩ :=
    Volume.namesFile_of_target h.found h.file h.target
  obtain ⟨_, folder', name', _, _, _, hplace', hnames'⟩ :=
    Volume.namesFile_of_target hfind hfile htarget
  obtain ⟨rfl, rfl⟩ := List.append_singleton_inj.mp (hplace.symm.trans hplace')
  obtain ⟨_, hfollows⟩ := hnames.follows
  obtain ⟨_, hfollows'⟩ := hnames'.follows
  obtain rfl := hfollows.unique hfollows'
  exact hq f (Volume.leads_of_find h.found) (Volume.leads_of_find hfind)

end Replaces

/-! ### One file after the other -/

/-- No two sets have the same file. -/
def DistinctFiles (v : Volume) (sets : List EditSet) : Prop :=
  sets.Pairwise fun s t => Apart v s.path t.path

theorem DistinctFiles.of_alike (h : DistinctFiles v sets)
    (halike : ∀ s ∈ sets, Alike v v' s.path) : DistinctFiles v' sets := by
  refine List.Pairwise.imp_of_mem ?_ h
  intro s t hs ht hst loc hloc
  rw [(halike s hs).leads] at hloc
  rw [(halike t ht).leads]
  exact hst loc hloc

theorem Alike.trans {v'' : Volume} {q : Path} (h : Alike v v' q) (h' : Alike v' v'' q) :
    Alike v v'' q :=
  ⟨fun loc => (h'.leads loc).trans (h.leads loc), fun loc => (h'.find loc).trans (h.find loc),
    fun text => (h'.read text).trans (h.read text), h'.mode.trans h.mode⟩

theorem Apart.of_alike {p q : Path} (h : Apart v p q) (hp : Alike v v' p) (hq : Alike v v' q) :
    Apart v' p q := by
  intro loc hloc
  rw [hp.leads] at hloc
  rw [hq.leads]
  exact h loc hloc

/-- A path that leads to none of the files leads where it did. -/
theorem CarriedOut.alike (h : CarriedOut true sets v v') (hfiles : DistinctFiles v sets) {q : Path}
    (hq : ∀ s ∈ sets, Apart v s.path q) : Alike v v' q := by
  induction h with
  | nil v => exact ⟨fun _ => Iff.rfl, fun _ => Iff.rfl, fun _ => Iff.rfl, rfl⟩
  | @cons s rest v w v' hs _ ih =>
    obtain ⟨hfirst, hrest⟩ := List.pairwise_cons.mp hfiles
    obtain ⟨place, f, text, hreplaces⟩ := carryOut_replaces hs
    have hsets (t : EditSet) (ht : t ∈ rest) := hreplaces.alike (hfirst t ht)
    have halike := hreplaces.alike (hq s List.mem_cons_self)
    refine halike.trans (ih (DistinctFiles.of_alike hrest hsets) ?_)
    intro t ht
    exact (hq t (List.mem_cons_of_mem s ht)).of_alike (hsets t ht) halike

/-- A volume with the files of these sets patched and nothing else changed. -/
structure PatchesOnly (v : Volume) (sets : List EditSet) (v' : Volume) : Prop where
  patched : ∀ s ∈ sets, ∃ loc text, v.target s.path = .ok loc ∧ v'.find s.path = .ok loc ∧
    s.Unchanged v ∧ s.patched = .ok text ∧
    v'.get? loc = some (.file text.toUTF8 ((v.mode? s.path).getD v.newMode))
  others : ∀ loc, (∀ s ∈ sets, v.target s.path ≠ .ok loc) → v'.get? loc = v.get? loc
  system : v' = { v with nodes := v'.nodes }

theorem Unchanged.of_alike (h : s.Unchanged v') (halike : Alike v v' s.path) : s.Unchanged v := by
  obtain ⟨current, hread, hdigest⟩ := h
  exact ⟨current, (halike.read current).mp hread, hdigest⟩

theorem Unchanged.find (h : s.Unchanged v) :
    ∃ f, v.find s.path = .ok f ∧ v.isFolderAt f = false := by
  obtain ⟨current, hread, _⟩ := h
  obtain ⟨f, bytes, hfind, hcontent, _⟩ := Volume.read_eq_ok_iff.mp hread
  obtain ⟨_, mode, hget⟩ := Volume.contentAt_eq_ok_iff.mp hcontent
  exact ⟨f, hfind, Volume.not_isFolderAt hget (by simp)⟩

theorem CarriedOut.patchesOnly (hfiles : DistinctFiles v sets) (h : CarriedOut true sets v v') :
    PatchesOnly v sets v' := by
  induction h with
  | nil v => exact ⟨by simp, fun _ _ => rfl, rfl⟩
  | @cons s rest v w v' hs hrest ih =>
    obtain ⟨hfirst, hfiles'⟩ := List.pairwise_cons.mp hfiles
    obtain ⟨place, f, text, hreplaces⟩ := carryOut_replaces hs
    have hsets (t : EditSet) (ht : t ∈ rest) := hreplaces.alike (hfirst t ht)
    have hfiles'' := DistinctFiles.of_alike hfiles' hsets
    obtain ⟨hpatched, hothers, hsystem⟩ := ih hfiles''
    refine ⟨?_, ?_, ?_⟩
    · intro t ht
      rcases List.mem_cons.mp ht with rfl | ht
      · refine ⟨place, text, hreplaces.target, ?_, hreplaces.checked, hreplaces.patched, ?_⟩
        · have halike := hrest.alike hfiles'' fun t ht => hreplaces.apart_self (hfirst t ht)
          exact (halike.find place).mpr hreplaces.find_self
        · rw [hothers place ?_]
          · exact hreplaces.get?_self
          intro t ht
          obtain ⟨_, _, _, _, hchecked, _⟩ := hpatched t ht
          obtain ⟨f', hfind, hfile⟩ := (hchecked.of_alike (hsets t ht)).find
          exact fun htarget =>
            hreplaces.target_ne (hfirst t ht) hfind hfile (hreplaces.target_iff.mp htarget)
      · obtain ⟨loc, text', htarget, hfind, hchecked, htext, hget⟩ := hpatched t ht
        refine ⟨loc, text', hreplaces.target_iff.mp htarget, hfind,
          hchecked.of_alike (hsets t ht), htext, ?_⟩
        rw [hget, (hsets t ht).mode, hreplaces.written]
        rfl
    · intro loc hloc
      have hne : loc ≠ place := by
        rintro rfl
        exact hloc s List.mem_cons_self hreplaces.target
      rw [hothers loc fun t ht htarget =>
        hloc t (List.mem_cons_of_mem s ht) (hreplaces.target_iff.mp htarget)]
      exact hreplaces.get?_of_ne hne
    · rw [hsystem, hreplaces.written]
      rfl

theorem PatchesOnly.checked_of_ne (h : PatchesOnly v sets v') {loc : Location}
    (hne : v'.get? loc ≠ v.get? loc) :
    ∃ s ∈ sets, v.target s.path = .ok loc ∧ s.Unchanged v := by
  by_contra hnone
  apply hne
  apply h.others loc
  intro s hs htarget
  obtain ⟨_, _, _, _, hchecked, _⟩ := h.patched s hs
  exact hnone ⟨s, hs, htarget, hchecked⟩

/-- A run patches the files of all sets, or of those before one that fails and may leave its draft
behind. -/
theorem applyAll_patches (style : ReportStyle) (hfiles : DistinctFiles v sets) :
    ∃ done w, done <+: sets ∧ PatchesOnly v done w ∧
      ∃ p, w.Leftover p (applyAll style true sets v).disk := by
  rcases applyAll_cases style true sets v with
    ⟨hdone, _⟩ | ⟨done, s, rest, e, w, rfl, hdone, hs, _⟩
  · exact ⟨sets, _, List.prefix_refl sets, hdone.patchesOnly hfiles, ⟨""⟩, Or.inl rfl⟩
  · exact ⟨done, w, List.prefix_append done (s :: rest),
      hdone.patchesOnly (List.pairwise_append.mp hfiles).1, s.path, carryOut_leftover hs⟩

theorem applyAll_ok {style : ReportStyle} (hfiles : DistinctFiles v sets)
    {reports : List FileReport} (h : (applyAll style writing sets v).result = .ok reports) :
    reports = sets.map (FileReport.ofSet · writing) ∧
      (writing = true → PatchesOnly v sets (applyAll style writing sets v).disk) ∧
      (applyAll style writing sets v).output =
        if style.json then FileReport.renderJson style.cwd writing reports
        else reportsOf style writing sets := by
  rcases applyAll_cases style writing sets v with
    ⟨hdone, hresult, houtput⟩ | ⟨_, _, _, _, _, _, _, _, hresult, _⟩
  · obtain rfl := Except.ok.inj (h.symm.trans hresult)
    refine ⟨rfl, ?_, houtput⟩
    rintro rfl
    exact hdone.patchesOnly hfiles
  · cases h.symm.trans hresult

/-- An error names the set it came from: the sets before it are carried out, and the files of the
others read as they did. -/
theorem applyAll_stops {style : ReportStyle} (hfiles : DistinctFiles v sets) {e : RunError}
    (h : (applyAll style writing sets v).result = .error e) :
    ∃ done s rest w, sets = done ++ s :: rest ∧
      s.carryOut writing w = .error ⟨e, (applyAll style writing sets v).disk⟩ ∧
      (writing = true → PatchesOnly v done w ∧
        w.Leftover s.path (applyAll style writing sets v).disk ∧
        (∀ loc, v.get? loc ≠ none → (∀ t ∈ done, v.target t.path ≠ .ok loc) →
          (applyAll style writing sets v).disk.get? loc = v.get? loc) ∧
        ∀ t ∈ s :: rest, ∀ text, v.read t.path = .ok text →
          (applyAll style writing sets v).disk.read t.path = .ok text) ∧
      (applyAll style writing sets v).output =
        if style.json then "" else reportsOf style writing done := by
  rcases applyAll_cases style writing sets v with
    ⟨_, hresult, _⟩ | ⟨done, s, rest, e', w, hsets, hdone, hs, hresult, houtput⟩
  · cases h.symm.trans hresult
  · obtain rfl := Except.error.inj (h.symm.trans hresult)
    refine ⟨done, s, rest, w, hsets, hs, ?_, houtput⟩
    rintro rfl
    rw [hsets] at hfiles
    obtain ⟨hfiles, _, hbetween⟩ := List.pairwise_append.mp hfiles
    have hpatches := hdone.patchesOnly hfiles
    have hleft := carryOut_leftover hs
    refine ⟨hpatches, hleft, ?_, ?_⟩
    · intro loc hloc hothers
      rw [← hpatches.others loc hothers] at hloc ⊢
      exact hleft.get?_eq hloc
    · intro t ht text hread
      exact hleft.read (((hdone.alike hfiles fun s hs => hbetween s hs t ht).read text).mpr hread)

/-- Where digests tell texts apart, no file is changed but one that still has the text of its
set. -/
theorem checked_of_applyAll (style : ReportStyle) (hfiles : DistinctFiles v sets)
    (hdigest : ∀ s ∈ sets, ∀ text, v.read s.path = .ok text → Digest.ofText text = s.digest →
      text = s.source.text) {loc : Location} (hloc : v.get? loc ≠ none)
    (hne : (applyAll style true sets v).disk.get? loc ≠ v.get? loc) :
    ∃ s ∈ sets, v.target s.path = .ok loc ∧ v.read s.path = .ok s.source.text := by
  obtain ⟨done, w, hsub, hpatches, _, hleft⟩ := applyAll_patches style hfiles
  have hchanged : w.get? loc ≠ v.get? loc := by
    intro hsame
    rw [← hsame] at hloc hne
    exact hne (hleft.get?_eq hloc)
  obtain ⟨s, hs, htarget, current, hread, hsame⟩ := hpatches.checked_of_ne hchanged
  refine ⟨s, hsub.subset hs, htarget, ?_⟩
  exact hdigest s (hsub.subset hs) current hread hsame ▸ hread

theorem applyAll_preview (style : ReportStyle) (sets : List EditSet) (v : Volume) :
    (applyAll style false sets v).disk = v := by
  rcases applyAll_cases style false sets v with
    ⟨hdone, _⟩ | ⟨_, s, _, _, w, _, hdone, hs, _⟩
  · exact hdone.preview
  · rcases carryOut_error hs with hsame | ⟨hfalse, _⟩
    · exact hsame.trans hdone.preview
    · cases hfalse

theorem Apart.of_find {p q : Path} {a b : Location} (hp : v.find p = .ok a) (hq : v.find q = .ok b)
    (hne : a ≠ b) : Apart v p q := by
  intro loc hloc hloc'
  exact hne (((Volume.leads_of_find hp).unique hloc).trans
    (hloc'.unique (Volume.leads_of_find hq)))

end EditSet

/-! ### A step that is refused -/

/-- A file of one letter and a link to another one, where a draft for the link cannot be renamed. -/
def linkedVolume : Volume where
  nodes := [(["a.ts"], .file "a".toUTF8 420), (["b.ts"], .link ⟨"c.ts"⟩),
    (["c.ts"], .file "b".toUTF8 420)]
  newMode := 384
  refusal r loc := if r = .rename ∧ loc = [Draft.name "b.ts" 0] then some .failed else none
  room _ := 0

def letterEdit (letter : String) : EditSet :=
  ⟨⟨⟨"/" ++ letter ++ ".ts"⟩, letter⟩, [⟨0, "type ", .import_⟩], [letter]⟩

theorem letterEdit_patched (letter : String) : (letterEdit letter).patched =
    (Insertion.splice [⟨0, "type ", .import_⟩] 0 letter.toList).map String.ofList :=
  Insertion.apply_single letter _

end TypeOnly
