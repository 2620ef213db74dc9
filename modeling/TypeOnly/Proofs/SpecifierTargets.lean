import TypeOnly.Proofs.FileVariants
import TypeOnly.Proofs.MergedConfigs
import TypeOnly.Proofs.RootOrder

/-!
What a specifier leads to. The answer is a file that is there, in normal form, with the name of a
source. Its own path leads to it again, unless it is a JavaScript file that was found under so long
a spelling that a file with types next to it was out of reach.
-/

namespace TypeOnly

set_option autoImplicit false

/-! ### Files that are preferred to others -/

namespace Resolver

open Source (typeScriptExtensions moduleExtensions javaScriptExtensions endsInOneOf)
open Text (endsWith dropEnd?)

/-- The extensions of sources. -/
def extensions : List String := typeScriptExtensions ++ moduleExtensions ++ javaScriptExtensions

/-- What is preferred to a JavaScript file of a name. -/
def rivals (name : String) : List String :=
  substitutes.flatMap fun (written, real) =>
    match dropEnd? written name with
    | some stem => real.map (stem ++ ·)
    | none => []

variable {r : Resolver} {disk : Disk} {c f p : Path} {name n : String}

theorem mem_rivals : n ∈ rivals name ↔
    ∃ x ∈ substitutes, ∃ stem, name = stem ++ x.1 ∧ ∃ e ∈ x.2, n = stem ++ e := by
  unfold rivals
  rw [List.mem_flatMap]
  constructor
  · rintro ⟨x, hx, hn⟩
    dsimp only at hn
    split at hn
    · rename_i stem hstem
      obtain ⟨e, he, rfl⟩ := List.mem_map.mp hn
      exact ⟨x, hx, stem, Text.eq_append_of_dropEnd? hstem, e, he, rfl⟩
    · cases hn
  · rintro ⟨x, hx, stem, rfl, e, he, rfl⟩
    refine ⟨x, hx, ?_⟩
    dsimp only
    rw [Text.dropEnd?_append]
    exact List.mem_map_of_mem he

theorem rivals_after_slash {front : String} (hfront : front.toList.getLast? = some '/') :
    rivals (front ++ name) = (rivals name).map (front ++ ·) := by
  have htable : ∀ x ∈ substitutes, '/' ∉ x.1.toList := by decide
  unfold rivals
  rw [List.map_flatMap]
  apply List.flatMap_congr
  intro x hx
  dsimp only
  rw [Text.dropEnd?_after_slash hfront (htable x hx)]
  cases dropEnd? x.1 name with
  | none => rfl
  | some stem => simp [Function.comp_def, String.append_assoc]

theorem rivals_bounds (hname : '/' ∉ name.toList) (h : n ∈ rivals name) :
    '/' ∉ n.toList ∧ n.utf8ByteSize ≤ name.utf8ByteSize + 2 := by
  have htable : ∀ x ∈ substitutes, ∀ e ∈ x.2,
      '/' ∉ e.toList ∧ e.utf8ByteSize ≤ x.1.utf8ByteSize + 2 := by decide
  obtain ⟨x, hx, stem, rfl, e, he, rfl⟩ := mem_rivals.mp h
  obtain ⟨hslash, hsize⟩ := htable x hx e he
  rw [String.toList_append, List.mem_append, not_or] at hname
  rw [String.toList_append, List.mem_append, String.utf8ByteSize_append,
    String.utf8ByteSize_append]
  exact ⟨not_or.mpr ⟨hname.1, hslash⟩, by omega⟩

theorem not_endsWith_both {a b s : String} (hab : ¬ a.toList <:+ b.toList)
    (hba : ¬ b.toList <:+ a.toList) (ha : endsWith a s = true) : endsWith b s = false := by
  rw [← Bool.not_eq_true]
  intro hb
  rcases Nat.le_total a.length b.length with hle | hle
  · exact hab (Text.suffix_of_endsWith ha hb hle)
  · exact hba (Text.suffix_of_endsWith hb ha hle)

/-- Nothing is preferred to a file that is not JavaScript. -/
theorem rivals_eq_nil (h : ∀ e ∈ javaScriptExtensions, endsWith e name = false) :
    rivals name = [] := by
  have htable : ∀ x ∈ substitutes, x.1 ∈ javaScriptExtensions := by decide
  rw [List.eq_nil_iff_forall_not_mem]
  intro n hn
  obtain ⟨x, hx, stem, rfl, _⟩ := mem_rivals.mp hn
  have hends := h x.1 (htable x hx)
  rw [Text.endsWith_append] at hends
  cases hends

theorem rivals_typed {e stem : String} (he : e ∈ typeScriptExtensions ++ moduleExtensions) :
    rivals (stem ++ e) = [] := by
  have htable : ∀ e ∈ typeScriptExtensions ++ moduleExtensions, ∀ j ∈ javaScriptExtensions,
      ¬ e.toList <:+ j.toList ∧ ¬ j.toList <:+ e.toList := by decide
  apply rivals_eq_nil
  intro j hj
  obtain ⟨hej, hje⟩ := htable e he j hj
  exact not_endsWith_both hej hje (Text.endsWith_append stem e)

/-- What is preferred to a JavaScript file is looked for before the extension is added too. -/
theorem rivals_added {e stem : String} (he : e ∈ [".js", ".jsx"]) (h : n ∈ rivals (stem ++ e)) :
    ∃ e' ∈ typeScriptExtensions, n = stem ++ e' := by
  have htable : ∀ x ∈ substitutes, ∀ e ∈ [".js", ".jsx"],
      x.1 = e ∧ (∀ e' ∈ x.2, e' ∈ typeScriptExtensions) ∨
        ¬ e.toList <:+ x.1.toList ∧ ¬ x.1.toList <:+ e.toList := by decide
  obtain ⟨x, hx, stem', heq, e', he', rfl⟩ := mem_rivals.mp h
  rcases htable x hx e he with ⟨rfl, hreal⟩ | ⟨hex, hxe⟩
  · obtain rfl : stem = stem' := by simpa using heq
    exact ⟨e', hreal e' he', rfl⟩
  · have hends := not_endsWith_both hex hxe (Text.endsWith_append stem e)
    rw [heq, Text.endsWith_append] at hends
    cases hends

theorem candidates_eq (r : Resolver) (c : Path) : r.candidates c =
    (rivals c.text).map Path.mk ++
      (if extensions.any fun e => endsWith e c.text then [c] else []) ++
      (typeScriptExtensions.map (fun e => ⟨c.text ++ e⟩) ++
        (if r.allowJs then [".js", ".jsx"] else []).map fun e => ⟨c.text ++ e⟩) := by
  have hrivals : (rivals c.text).map Path.mk = substitutes.flatMap fun (written, real) =>
      match dropEnd? written c.text with
      | some stem => real.map fun e => ⟨stem ++ e⟩
      | none => [] := by
    unfold rivals
    rw [List.map_flatMap]
    apply List.flatMap_congr
    intro x _
    dsimp only
    cases dropEnd? x.1 c.text with
    | none => rfl
    | some stem => simp
  rw [hrivals, ← List.map_append]
  rfl

theorem mem_added {e : String}
    (h : e ∈ typeScriptExtensions ++ if r.allowJs then [".js", ".jsx"] else []) :
    e ∈ typeScriptExtensions ++ [".js", ".jsx"] := by
  rcases List.mem_append.mp h with h | h
  · exact List.mem_append_left _ h
  · split at h
    · exact List.mem_append_right _ h
    · cases h

theorem isAbsolute_candidate (h : f ∈ r.candidates c) : f.isAbsolute = c.isAbsolute := by
  have htable : ∀ x ∈ substitutes, x.1.toList.head? ≠ some '/' ∧
      ∀ e ∈ x.2, e.toList.head? ≠ some '/' := by decide
  have hadded : ∀ e ∈ typeScriptExtensions ++ [".js", ".jsx"], e.toList.head? ≠ some '/' := by
    decide
  have hmore {a e : String} (he : e.toList.head? ≠ some '/') :
      Path.isAbsolute ⟨a ++ e⟩ = Path.isAbsolute ⟨a⟩ := by
    unfold Path.isAbsolute
    cases ha : a.toList with
    | nil => simpa [ha] using he
    | cons d ds => simp [ha]
  rw [candidates_eq, ← List.map_append] at h
  rcases List.mem_append.mp h with h | h
  · rcases List.mem_append.mp h with h | h
    · obtain ⟨n, hn, rfl⟩ := List.mem_map.mp h
      obtain ⟨x, hx, stem, htext, e, he, rfl⟩ := mem_rivals.mp hn
      have hc : Path.isAbsolute ⟨c.text⟩ = Path.isAbsolute ⟨stem⟩ := by
        rw [htext]
        exact hmore (htable x hx).1
      exact (hmore ((htable x hx).2 e he)).trans hc.symm
    · split at h
      · rw [List.mem_singleton.mp h]
      · cases h
  · obtain ⟨e, he, rfl⟩ := List.mem_map.mp h
    exact hmore (hadded e (mem_added he))

/-- The ways in which a path stands for a file. -/
theorem loadFile_cases (h : r.loadFile disk c = some f) :
    (∃ stem, ∃ e ∈ typeScriptExtensions ++ moduleExtensions, f = ⟨stem ++ e⟩) ∨
    (f = c ∧ (∃ e ∈ extensions, endsWith e c.text = true) ∧
      ∀ n ∈ rivals c.text, disk.isFile ⟨n⟩ = false) ∨
    (∃ e ∈ [".js", ".jsx"], f = ⟨c.text ++ e⟩ ∧
      ∀ e' ∈ typeScriptExtensions, disk.isFile ⟨c.text ++ e'⟩ = false) := by
  have htable : ∀ x ∈ substitutes, ∀ e ∈ x.2, e ∈ typeScriptExtensions ++ moduleExtensions := by
    decide
  rw [loadFile, candidates_eq, List.find?_append, List.find?_append, List.find?_append,
    Option.or_eq_some_iff, Option.or_eq_some_iff, Option.or_eq_some_iff] at h
  rcases h with (h | ⟨hnone, h⟩) | ⟨_, h | ⟨hnone, h⟩⟩
  · left
    obtain ⟨n, hn, rfl⟩ := List.mem_map.mp (List.mem_of_find?_eq_some h)
    obtain ⟨x, hx, stem, _, e, he, rfl⟩ := mem_rivals.mp hn
    exact ⟨stem, e, htable x hx e he, rfl⟩
  · right
    left
    have hmem := List.mem_of_find?_eq_some h
    split at hmem
    · rename_i hknown
      refine ⟨List.mem_singleton.mp hmem, List.any_eq_true.mp hknown, ?_⟩
      intro n hn
      simpa using List.find?_eq_none.mp hnone ⟨n⟩ (List.mem_map_of_mem hn)
    · cases hmem
  · left
    obtain ⟨e, he, rfl⟩ := List.mem_map.mp (List.mem_of_find?_eq_some h)
    exact ⟨c.text, e, List.mem_append_left _ he, rfl⟩
  · right
    right
    obtain ⟨e, he, rfl⟩ := List.mem_map.mp (List.mem_of_find?_eq_some h)
    refine ⟨e, ?_, rfl, ?_⟩
    · split at he
      · exact he
      · cases he
    · intro e' he'
      simpa using List.find?_eq_none.mp hnone ⟨c.text ++ e'⟩ (List.mem_map_of_mem he')

/-- What a path stands for is a source that is there, and nothing that is preferred to it is. -/
theorem loadFile_spec (h : r.loadFile disk c = some f) :
    disk.isFile f = true ∧ (∃ e ∈ extensions, endsWith e f.text = true) ∧
      ∀ n ∈ rivals f.text, disk.isFile ⟨n⟩ = false := by
  refine ⟨List.find?_some h, ?_⟩
  rcases loadFile_cases h with ⟨stem, e, he, rfl⟩ | ⟨rfl, hends, hnone⟩ | ⟨e, he, rfl, hnone⟩
  · refine ⟨⟨e, List.mem_append_left _ he, Text.endsWith_append stem e⟩, ?_⟩
    rw [rivals_typed he]
    simp
  · exact ⟨hends, hnone⟩
  · have hknown : ∀ e ∈ [".js", ".jsx"], e ∈ extensions := by decide
    refine ⟨⟨e, hknown e he, Text.endsWith_append c.text e⟩, ?_⟩
    intro n hn
    obtain ⟨e', he', rfl⟩ := rivals_added he hn
    exact hnone e' he'

theorem loadFile_self (hfile : disk.isFile p = true)
    (hends : ∃ e ∈ extensions, endsWith e p.text = true)
    (hnone : ∀ n ∈ rivals p.text, disk.isFile ⟨n⟩ = false) : r.loadFile disk p = some p := by
  have hrivals : ((rivals p.text).map Path.mk).find? disk.isFile = none := by
    rw [List.find?_eq_none]
    intro q hq
    obtain ⟨n, hn, rfl⟩ := List.mem_map.mp hq
    simp [hnone n hn]
  rw [loadFile, candidates_eq, if_pos (List.any_eq_true.mpr hends), List.find?_append,
    List.find?_append, hrivals]
  simp [hfile]

/-! ### Where files are looked for -/

/-- An absolute path stands for a file. -/
def Stands (r : Resolver) (disk : Disk) (f : Path) : Prop :=
  ∃ c : Path, c.isAbsolute = true ∧ r.loadFile disk c = some f

/-- All answers of a search have a property. -/
structure Gives (search : Search (Option Path)) (P : Path → Prop) : Prop where
  answer : ∀ cache, ∀ f ∈ (search.run cache).1, P f

variable {P : Path → Prop} {α : Type}

namespace Gives

theorem pure {answer : Option Path} (h : ∀ f ∈ answer, P f) : Gives (Pure.pure answer) P :=
  ⟨fun _ => h⟩

theorem after {search : Search α} {next : α → Search (Option Path)}
    (h : ∀ a, Gives (next a) P) : Gives (search >>= next) P := ⟨fun _ => (h _).answer _⟩

theorem bind {search : Search (Option Path)} {next : Option Path → Search (Option Path)}
    (h : Gives search P) (hnext : ∀ answer, (∀ f ∈ answer, P f) → Gives (next answer) P) :
    Gives (search >>= next) P := ⟨fun cache => (hnext _ (h.answer cache)).answer _⟩

end Gives

theorem gives_firstOf {look : α → Search (Option Path)} {l : List α}
    (h : ∀ a ∈ l, Gives (look a) P) : Gives (firstOf look l) P := by
  induction l with
  | nil => exact Gives.pure (by simp)
  | cons a l ih =>
    apply (h a List.mem_cons_self).bind
    intro answer hanswer
    cases answer with
    | some file => exact Gives.pure hanswer
    | none => exact ih fun b hb => h b (List.mem_cons_of_mem a hb)

theorem stands_loadMain {folder : Path} (h : folder.isAbsolute = true) (package : Option Package) :
    ∀ f ∈ r.loadMain disk folder package, r.Stands disk f := by
  intro f hf
  rcases Option.or_eq_some_iff.mp hf with hf | ⟨_, hf⟩
  · obtain ⟨entry, _, hf⟩ := List.exists_of_findSome?_eq_some hf
    have htarget : (folder.child entry).isAbsolute = true := Path.isAbsolute_join h ⟨entry⟩
    rcases Option.or_eq_some_iff.mp hf with hf | ⟨_, hf⟩
    · exact ⟨folder.child entry, htarget, hf⟩
    · split at hf
      · exact ⟨(folder.child entry).child "index", Path.isAbsolute_join htarget ⟨"index"⟩, hf⟩
      · cases hf
  · exact ⟨folder.child "index", Path.isAbsolute_join h ⟨"index"⟩, hf⟩

theorem gives_load (h : p.isAbsolute = true) : Gives (r.load disk p) (r.Stands disk) := by
  unfold load
  cases hfile : r.loadFile disk p with
  | some file =>
    apply Gives.pure
    rintro _ ⟨⟩
    exact ⟨p, h, hfile⟩
  | none =>
    change Gives (r.loadFolder disk p) (r.Stands disk)
    unfold loadFolder
    split
    · exact Gives.pure (by simp)
    · apply Gives.after
      intro package
      exact Gives.pure (stands_loadMain h package)

theorem gives_packageFile {folder : Path} (h : folder.isAbsolute = true) (subpath : String) :
    Gives (r.packageFile disk folder subpath) (r.Stands disk) := by
  apply Gives.after
  intro package
  cases package.bind Package.exports with
  | some exports =>
    apply Gives.pure
    intro f hf
    obtain ⟨file, _, hf⟩ := List.exists_of_findSome?_eq_some hf
    exact ⟨folder.child file, Path.isAbsolute_join h ⟨file⟩, hf⟩
  | none =>
    cases Text.dropStart? "./" subpath with
    | none => exact gives_load h
    | some inside => exact gives_load (Path.isAbsolute_join h ⟨inside⟩)

theorem isAbsolute_mapped (hbase : ∀ base ∈ r.pathsBase, base.isAbsolute = true)
    {specifier : String} : ∀ q ∈ r.mapped specifier, q.isAbsolute = true := by
  intro q hq
  unfold mapped at hq
  cases hr : r.pathsBase with
  | none =>
    rw [hr] at hq
    cases hq
  | some base =>
    rw [hr] at hq
    obtain ⟨x, _, hq⟩ := List.mem_flatMap.mp hq
    dsimp only at hq
    split at hq
    · obtain ⟨t, _, rfl⟩ := List.mem_map.mp hq
      exact Path.isAbsolute_join (hbase base hr) ⟨_⟩
    · cases hq

theorem isAbsolute_packageFolders {package : String} {folder : Path}
    (h : folder.isAbsolute = true) :
    ∀ dir ∈ packageFolders disk package folder, dir.isAbsolute = true := by
  intro dir hdir
  obtain ⟨modules, hmodules, hdir⟩ := List.mem_flatMap.mp hdir
  obtain ⟨above, habove, rfl⟩ := List.mem_map.mp hmodules
  have hmodules : (above.child "node_modules").isAbsolute = true :=
    Path.isAbsolute_join (Path.isAbsolute_ancestors h above habove) ⟨"node_modules"⟩
  split at hdir
  · rcases List.mem_cons.mp hdir with rfl | hdir
    · exact Path.isAbsolute_join hmodules ⟨package⟩
    · obtain rfl := List.mem_singleton.mp hdir
      exact Path.isAbsolute_join (Path.isAbsolute_join hmodules ⟨"@types"⟩) ⟨_⟩
  · cases hdir

/-- The file that a specifier names, under the path that it is found at. -/
def found (r : Resolver) (disk : Disk) (specifier : String) (containing : Path) :
    Search (Option Path) :=
  let folder := containing.parent?.getD ⟨"/"⟩
  if startsWithDots specifier || Path.isAbsolute ⟨specifier⟩ then
    r.load disk (folder.locate ⟨specifier⟩)
  else r.loadNamed disk specifier folder

theorem resolve_eq_found (r : Resolver) (disk : Disk) (specifier : String) (containing : Path)
    (cache : PackageCache) : (r.resolve disk specifier containing).run cache =
      (((r.found disk specifier containing).run cache).1.map Path.normalize,
        ((r.found disk specifier containing).run cache).2) := by
  have hmap (search : Search (Option Path)) :
      (search >>= fun file => Pure.pure (file.map Path.normalize)).run cache =
        ((search.run cache).1.map Path.normalize, (search.run cache).2) := rfl
  unfold resolve found
  dsimp only
  split
  · exact hmap _
  · exact hmap _

theorem gives_found (hbase : ∀ base ∈ r.baseUrl, base.isAbsolute = true)
    (hpaths : ∀ base ∈ r.pathsBase, base.isAbsolute = true) (specifier : String) {containing : Path}
    (hcontaining : containing.isAbsolute = true) :
    Gives (r.found disk specifier containing) (r.Stands disk) := by
  have hfolder : (containing.parent?.getD ⟨"/"⟩).isAbsolute = true := by
    cases hparent : containing.parent? with
    | none => rfl
    | some folder => exact Path.isAbsolute_parent? hcontaining hparent
  unfold found
  dsimp only
  split
  · exact gives_load (Path.isAbsolute_locate hfolder ⟨specifier⟩)
  · unfold loadNamed
    apply (gives_firstOf fun q hq => gives_load (isAbsolute_mapped hpaths q hq)).bind
    intro answer hanswer
    cases answer with
    | some file => exact Gives.pure hanswer
    | none =>
      apply (gives_firstOf fun base hb =>
        gives_load (Path.isAbsolute_join (hbase base (Option.mem_toList.mp hb)) ⟨specifier⟩)).bind
      intro answer hanswer
      cases answer with
      | some file => exact Gives.pure hanswer
      | none =>
        apply gives_firstOf
        intro dir hdir
        exact gives_packageFile (isAbsolute_packageFolders hfolder dir hdir) _

/-! ### The answer in normal form -/

/-- Where a file is found: in a folder that is written up to its last slash, under the name of a
source. -/
structure Place (f base : Path) (name : String) : Prop where
  absolute : base.isAbsolute = true
  last : base.text.toList.getLast? = some '/'
  named : Path.Named name
  source : ∃ e ∈ extensions, endsWith e name = true
  path : f = base.child name

theorem extensions_slash : ∀ e ∈ extensions, '/' ∉ e.toList := by decide

theorem ordinary_of_endsWith {e : String} (he : e ∈ extensions) (hends : endsWith e name = true) :
    Path.Ordinary name := by
  have htable : ∀ e ∈ extensions, endsWith e "" = false ∧ endsWith e "." = false ∧
      endsWith e ".." = false := by decide
  obtain ⟨hempty, hdot, hup⟩ := htable e he
  refine ⟨?_, ?_, ?_⟩
  · rintro rfl
    exact Bool.false_ne_true (hempty.symm.trans hends)
  · rintro rfl
    exact Bool.false_ne_true (hdot.symm.trans hends)
  · rintro rfl
    exact Bool.false_ne_true (hup.symm.trans hends)

/-- What is looked for in place of a file is next to it. -/
theorem exists_name_of_candidate {base : Path} (h : base.isAbsolute = true) {last : String}
    (hlast : '/' ∉ last.toList) (hf : f ∈ r.candidates (base.child last)) :
    ∃ n, '/' ∉ n.toList ∧ f = base.child n := by
  have hadded : ∀ e ∈ typeScriptExtensions ++ [".js", ".jsx"], '/' ∉ e.toList := by decide
  obtain ⟨front, hfront, htext⟩ := Path.exists_front h
  have hchild {n : String} (hn : '/' ∉ n.toList) : (⟨front ++ n⟩ : Path) = base.child n :=
    congrArg Path.mk (htext n hn).symm
  rw [candidates_eq, ← List.map_append, htext last hlast, rivals_after_slash hfront] at hf
  rcases List.mem_append.mp hf with hf | hf
  · rcases List.mem_append.mp hf with hf | hf
    · rw [List.map_map] at hf
      obtain ⟨n, hn, rfl⟩ := List.mem_map.mp hf
      have hslash := (rivals_bounds hlast hn).1
      exact ⟨n, hslash, hchild hslash⟩
    · split at hf
      · exact ⟨last, hlast, List.mem_singleton.mp hf⟩
      · cases hf
  · obtain ⟨e, he, rfl⟩ := List.mem_map.mp hf
    have hslash : '/' ∉ (last ++ e).toList := by
      rw [String.toList_append, List.mem_append, not_or]
      exact ⟨hlast, hadded e (mem_added he)⟩
    refine ⟨last ++ e, hslash, ?_⟩
    rw [String.append_assoc]
    exact hchild hslash

theorem exists_place_of_loadFile (hc : c.isAbsolute = true) (h : r.loadFile disk c = some f) :
    ∃ base last name, '/' ∉ last.toList ∧ c = base.child last ∧ Place f base name := by
  obtain ⟨base, last, hbase, hend, hlast, rfl⟩ := Path.exists_folder hc
  obtain ⟨name, hslash, rfl⟩ := exists_name_of_candidate hbase hlast (List.mem_of_find?_eq_some h)
  obtain ⟨_, ⟨e, he, hends⟩, _⟩ := loadFile_spec h
  obtain ⟨front, hfront, htext⟩ := Path.exists_front hbase
  rw [htext name hslash, Text.endsWith_after_slash hfront (extensions_slash e he)] at hends
  exact ⟨base, last, name, hlast, rfl, hbase, hend, ⟨ordinary_of_endsWith he hends, hslash⟩,
    ⟨e, he, hends⟩, rfl⟩

theorem Stands.exists_place (h : r.Stands disk f) : ∃ base name, Place f base name := by
  obtain ⟨c, hc, hload⟩ := h
  obtain ⟨base, _, name, _, _, hplace⟩ := exists_place_of_loadFile hc hload
  exact ⟨base, name, hplace⟩

namespace Place

variable {base : Path}

theorem normalize (h : Place f base name) : f.normalize = base.normalize.child name := by
  rw [h.path, Path.normalize_child h.absolute h.named]

theorem isAbsolute (h : Place f base name) : f.isAbsolute = true := by
  rw [h.path]
  exact Path.isAbsolute_join h.absolute ⟨name⟩

theorem fileName? (h : Place f base name) : f.normalize.fileName? = some name := by
  obtain ⟨hordinary, hslash⟩ := h.named
  have hhead := Text.head?_ne_slash hslash
  obtain ⟨init, hsegments, _⟩ :=
    base.normalize.segments_child name hhead (Text.splitOn_of_not_mem hslash)
  rw [h.normalize]
  exact Path.fileName?_of_segments hsegments hordinary

theorem endsWith_text (h : Place f base name) {e : String} (he : '/' ∉ e.toList) :
    endsWith e f.normalize.text = endsWith e name := by
  obtain ⟨front, hfront, htext⟩ := Path.exists_front (Path.isAbsolute_normalize h.absolute)
  rw [h.normalize, htext name h.named.2, Text.endsWith_after_slash hfront he]

/-- What is preferred to the file is out of reach in its folder, in normal form too. -/
theorem not_isFile (h : Place f base name) (hfile : disk.isFile f = true)
    (hnone : ∀ n ∈ rivals f.text, disk.isFile ⟨n⟩ = false)
    (hsize : f.text.utf8ByteSize + 2 ≤ Disk.maxPath) :
    ∀ n ∈ rivals f.normalize.text, disk.isFile ⟨n⟩ = false := by
  obtain ⟨front, hfront, htext⟩ := Path.exists_front h.absolute
  obtain ⟨front', hfront', htext'⟩ := Path.exists_front (Path.isAbsolute_normalize h.absolute)
  have hslash := h.named.2
  have hf : f.text = front ++ name := by rw [h.path, htext name hslash]
  rw [hf, rivals_after_slash hfront] at hnone
  rw [h.normalize, htext' name hslash, rivals_after_slash hfront']
  intro n hn
  obtain ⟨m, hm, rfl⟩ := List.mem_map.mp hn
  obtain ⟨hmslash, hmsize⟩ := rivals_bounds hslash hm
  have hchild : base.child m = ⟨front ++ m⟩ := congrArg Path.mk (htext m hmslash)
  have hchild' : base.normalize.child m = ⟨front' ++ m⟩ := congrArg Path.mk (htext' m hmslash)
  have hshort : (base.child m).text.utf8ByteSize ≤ Disk.maxPath := by
    rw [hf, String.utf8ByteSize_append] at hsize
    rw [htext m hmslash, String.utf8ByteSize_append]
    omega
  rw [← Bool.not_eq_true, ← hchild']
  intro hother
  rw [h.path] at hfile
  have hthere := Disk.isFile_of_normalize h.last hslash hmslash hfile hshort hother
  rw [hchild, hnone _ (List.mem_map_of_mem hm)] at hthere
  cases hthere

theorem endsInOneOf_normalize (h : Place f base name) (endings : List String) :
    endsInOneOf f.normalize endings = endings.any fun e => endsWith e name := by
  rw [endsInOneOf, h.fileName?, Option.any_some]

theorem not_preferred (h : Place f base name) (hload : r.loadFile disk c = some f)
    (hreach : endsInOneOf f.normalize javaScriptExtensions = false ∨ f = f.normalize ∨
      f.text.utf8ByteSize + 2 ≤ Disk.maxPath) :
    ∀ n ∈ rivals f.normalize.text, disk.isFile ⟨n⟩ = false := by
  obtain ⟨hfile, _, hnone⟩ := loadFile_spec hload
  rcases hreach with hscript | hsame | hsize
  · rw [rivals_eq_nil]
    · simp
    · intro j hj
      rw [h.endsWith_text (extensions_slash j (List.mem_append_right _ hj))]
      rw [h.endsInOneOf_normalize] at hscript
      simpa using List.any_eq_false.mp hscript j hj
  · rw [← hsame]
    exact hnone
  · exact h.not_isFile hfile hnone hsize

end Place

theorem load_of_loadFile (h : r.loadFile disk c = some f) (cache : PackageCache) :
    (r.load disk c).run cache = (some f, cache) := by
  unfold load
  rw [h]
  rfl

/-- An absolute path in normal form is looked for as it is. -/
theorem resolve_path (habsolute : p.isAbsolute = true) (hnormal : p.normalize = p)
    (h : r.loadFile disk p = some f) (other : Path) (cache : PackageCache) :
    (r.resolve disk p.text other).run cache = (some f.normalize, cache) := by
  have hlocate : ∀ folder : Path, folder.locate p = p := by
    intro folder
    rw [Path.locate, Path.join, if_pos habsolute, hnormal]
  have hbranch : (startsWithDots p.text || Path.isAbsolute ⟨p.text⟩) = true := by
    rw [Bool.or_eq_true]
    exact Or.inr habsolute
  rw [resolve_eq_found]
  unfold found
  dsimp only
  rw [if_pos hbranch, hlocate, load_of_loadFile h, Option.map_some]

theorem isAbsolute_ofOptions {o : Options}
    (hbase : ∀ s, o.string? "baseUrl" = some s → Path.isAbsolute ⟨s⟩ = true)
    (hpaths : ∀ s, o.string? "pathsBasePath" = some s → Path.isAbsolute ⟨s⟩ = true) :
    (∀ base ∈ (ofOptions o).baseUrl, base.isAbsolute = true) ∧
      ∀ base ∈ (ofOptions o).pathsBase, base.isAbsolute = true := by
  constructor
  · intro base hb
    obtain ⟨s, hs, rfl⟩ := Option.map_eq_some_iff.mp hb
    exact hbase s hs
  · intro base hb
    obtain ⟨s, hs, rfl⟩ := Option.map_eq_some_iff.mp hb
    rcases Option.or_eq_some_iff.mp hs with hs | ⟨_, hs⟩
    · exact hbase s hs
    · exact hpaths s hs

/-- The answer for a specifier is an absolute path in normal form, to a file that is there and has
the name of a source. The path leads to itself from everywhere, unless the file is JavaScript and
was found under a spelling that has no room for another extension. -/
theorem resolve_stable (disk : Disk) (o : Options) (specifier : String) (containing : Path)
    (cache : PackageCache)
    (hbase : ∀ s, o.string? "baseUrl" = some s → Path.isAbsolute ⟨s⟩ = true)
    (hpaths : ∀ s, o.string? "pathsBasePath" = some s → Path.isAbsolute ⟨s⟩ = true)
    (hcontaining : containing.isAbsolute = true) (p : Path)
    (h : (((ofOptions o).resolve disk specifier containing).run cache).1 = some p) :
    disk.isFile p = true ∧ p.isAbsolute = true ∧ p.normalize = p ∧
    endsInOneOf p (typeScriptExtensions ++ moduleExtensions ++ javaScriptExtensions) = true ∧
    ∃ f, (((ofOptions o).found disk specifier containing).run cache).1 = some f ∧
      p = f.normalize ∧
      (endsInOneOf p javaScriptExtensions = false ∨ f = p ∨
          f.text.utf8ByteSize + 2 ≤ Disk.maxPath →
        ∀ other cache',
          ((ofOptions o).resolve disk p.text other).run cache' = (some p, cache')) := by
  rw [resolve_eq_found] at h
  obtain ⟨f, hf, rfl⟩ := Option.map_eq_some_iff.mp h
  obtain ⟨hurl, hmapped⟩ := isAbsolute_ofOptions hbase hpaths
  have hstands := (gives_found hurl hmapped specifier hcontaining).answer cache f hf
  obtain ⟨base, name, hplace⟩ := hstands.exists_place
  obtain ⟨c, _, hload⟩ := hstands
  obtain ⟨e, he, hends⟩ := hplace.source
  have habsolute := Path.isAbsolute_normalize hplace.isAbsolute
  have hnormal := Path.normalize_normalize hplace.isAbsolute
  have hthere := Disk.isFile_normalize (loadFile_spec hload).1
  refine ⟨hthere, habsolute, hnormal, ?_, f, hf, rfl, ?_⟩
  · rw [hplace.endsInOneOf_normalize]
    exact List.any_eq_true.mpr ⟨e, he, hends⟩
  · intro hreach other cache'
    have hself : (ofOptions o).loadFile disk f.normalize = some f.normalize := by
      refine loadFile_self hthere ⟨e, he, ?_⟩ (hplace.not_preferred hload hreach)
      rw [hplace.endsWith_text (extensions_slash e he)]
      exact hends
    rw [resolve_path habsolute hnormal hself, hnormal]

/-! ### Files next to each other -/

open Program (longOptions longResolver ofOptions_longOptions)

theorem string?_longOptions (base : Path) :
    (longOptions base).string? "baseUrl" = some base.text ∧
      (longOptions base).string? "pathsBasePath" = none := by
  simp [Options.string?, longOptions, Dictionary.get?_ofList, lookup_cons_eq, Json.asString?]

/-- A package whose main file is named by a detour. -/
def detourDisk : Disk :=
  ⟨[(["node_modules"], .folder), (["node_modules", "pkg"], .folder),
    (["node_modules", "pkg", "package.json"],
      .file "\x7b\"main\": \"lib/../b.js\"\x7d".toUTF8),
    (["node_modules", "pkg", "b.js"], .file "".toUTF8), (["node_modules", "pkg", "lib"], .folder)]⟩

set_option maxRecDepth 4096 in
theorem resolve_stable_detour :
    (((ofOptions (longOptions ⟨"/lib"⟩)).resolve detourDisk "pkg" ⟨"/a.ts"⟩).run []).1 =
      some ⟨"/node_modules/pkg/b.js"⟩ ∧
    ∀ other cache, ((ofOptions (longOptions ⟨"/lib"⟩)).resolve detourDisk "/node_modules/pkg/b.js"
      other).run cache = (some ⟨"/node_modules/pkg/b.js"⟩, cache) := by
  have hfound : (((ofOptions (longOptions ⟨"/lib"⟩)).found detourDisk "pkg" ⟨"/a.ts"⟩).run []).1 =
      some ⟨"/node_modules/pkg/lib/../b.js"⟩ := by
    rw [ofOptions_longOptions]
    decide +kernel
  have hanswer :
      (((ofOptions (longOptions ⟨"/lib"⟩)).resolve detourDisk "pkg" ⟨"/a.ts"⟩).run []).1 =
      some ⟨"/node_modules/pkg/b.js"⟩ := by
    rw [resolve_eq_found, hfound]
    decide +kernel
  obtain ⟨hbase, hpaths⟩ := string?_longOptions ⟨"/lib"⟩
  obtain ⟨_, _, _, _, f, hf, _, hstable⟩ := resolve_stable detourDisk (longOptions ⟨"/lib"⟩) "pkg"
    ⟨"/a.ts"⟩ [] (fun s hs => by rw [hbase] at hs; cases hs; decide)
    (fun s hs => by rw [hpaths] at hs; cases hs) (by decide) ⟨"/node_modules/pkg/b.js"⟩ hanswer
  obtain rfl := Option.some.inj (hf.symm.trans hfound)
  exact ⟨hanswer, hstable (Or.inr (Or.inr (by decide)))⟩

/-- A JavaScript file with its types next to it. -/
def typedDisk : Disk := .ofTexts [("pkg.js", ""), ("pkg.d.ts", ""), ("a.ts", "")]

section NarrowTop

-- The top folder is spelled so that the JavaScript file has room behind it, and its types have not.
variable {base : Path} (h : base.IsTop) (hsize : base.text.utf8ByteSize + 7 = Disk.maxPath)

include h hsize

theorem loadFile_narrow (r : Resolver) :
    r.loadFile typedDisk (base.child "pkg.js") = some (base.child "pkg.js") := by
  have hshort {m : String} (hm : '/' ∉ m.toList) (hmsize : m.utf8ByteSize ≤ 7) :
      typedDisk.find (base.child m) = typedDisk.walk [] [m] := Disk.find_in_top h hm (by omega)
  have htext : (base.child "pkg.js").text = base.text ++ "pkg.js" := h.text_child (by decide)
  apply loadFile_self
  · rw [Disk.isFile, Disk.entry?, hshort (by decide) (by decide)]
    decide
  · refine ⟨".js", by decide, ?_⟩
    rw [htext, Text.endsWith_after_slash h.last (by decide)]
    decide
  · have hrivals : rivals "pkg.js" = ["pkg.ts", "pkg.tsx", "pkg.d.ts"] := by decide
    rw [htext, rivals_after_slash h.last]
    intro n hn
    obtain ⟨m, hm, rfl⟩ := List.mem_map.mp hn
    obtain ⟨hslash, _⟩ := rivals_bounds (by decide) hm
    rw [← h.text_child hslash]
    change typedDisk.isFile (base.child m) = false
    rw [hrivals] at hm
    rcases List.mem_cons.mp hm with rfl | hm
    · rw [Disk.isFile, Disk.entry?, hshort (by decide) (by decide)]
      decide
    rcases List.mem_cons.mp hm with rfl | hm
    · rw [Disk.isFile, Disk.entry?, hshort (by decide) (by decide)]
      decide
    obtain rfl := List.mem_singleton.mp hm
    have hlong : Disk.maxPath < (base.child "pkg.d.ts").text.utf8ByteSize := by
      have height : "pkg.d.ts".utf8ByteSize = 8 := by decide
      rw [h.text_child hslash, String.utf8ByteSize_append]
      omega
    rw [Disk.isFile, Disk.entry?_of_long hlong]

theorem found_narrow (cache : PackageCache) :
    ((longResolver base).found typedDisk "pkg.js" ⟨"/a.ts"⟩).run cache =
      (some (base.child "pkg.js"), cache) := by
  have hload := load_of_loadFile (loadFile_narrow h hsize (longResolver base)) cache
  have hbase : (longResolver base).baseUrl.toList = [base] := rfl
  have hmapped : (longResolver base).mapped "pkg.js" = [] := rfl
  unfold found loadNamed
  dsimp only
  rw [if_neg (by decide)]
  simp only [hbase, hmapped, firstOf, pure_bind, bind_assoc, StateT.run_bind, hload]
  rfl

theorem resolve_narrow :
    ((longResolver base).resolve typedDisk "pkg.js" ⟨"/a.ts"⟩).run [] =
      (some ⟨"/pkg.js"⟩, []) ∧
    ((longResolver base).resolve typedDisk "/pkg.js" ⟨"/a.ts"⟩).run [] =
      (some ⟨"/pkg.d.ts"⟩, []) := by
  constructor
  · have hnamed : Path.Named "pkg.js" := ⟨⟨by decide, by decide, by decide⟩, by decide⟩
    have hchild : (⟨"/"⟩ : Path).child "pkg.js" = ⟨"/pkg.js"⟩ := by decide
    rw [resolve_eq_found, found_narrow h hsize, Option.map_some,
      Path.normalize_child h.absolute hnamed, h.normalize, hchild]
  · have hfile : (longResolver ⟨"/"⟩).loadFile typedDisk ⟨"/pkg.js"⟩ = some ⟨"/pkg.d.ts"⟩ := by
      decide
    rw [← (Program.files_of_allowJs (r := longResolver base) rfl).1] at hfile
    exact resolve_path (p := ⟨"/pkg.js"⟩) (by decide) (by decide) hfile ⟨"/a.ts"⟩ []

end NarrowTop

/-- The JavaScript file is found under a path that has no room for the extension of the types. Its
own path is shorter, and leads to the types. -/
theorem resolve_typed_twice :
    ((ofOptions (longOptions (.slashes 4087))).resolve typedDisk "pkg.js" ⟨"/a.ts"⟩).run [] =
      (some ⟨"/pkg.js"⟩, []) ∧
    ((ofOptions (longOptions (.slashes 4087))).resolve typedDisk "/pkg.js" ⟨"/a.ts"⟩).run [] =
      (some ⟨"/pkg.d.ts"⟩, []) := by
  rw [ofOptions_longOptions]
  exact resolve_narrow (Path.isTop_slashes 4087) (by rw [Path.size_slashes]; rfl)

end Resolver

end TypeOnly
