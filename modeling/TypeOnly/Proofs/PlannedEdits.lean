import TypeOnly.Proofs.ListFacts
import TypeOnly.Proofs.OutlineSpans
import TypeOnly.Proofs.StaleFiles
import TypeOnly.Proofs.TextInsertion

/-!
The edits that a run plans can be made, each of them once. The set of a file has one insertion for
each finding in it, in the order of the text. Findings stand at specifiers, and specifiers that do
not overlap begin at different places.
-/

namespace TypeOnly

set_option autoImplicit false

open Source (Scope)
open Text (Span Extent Boundary Cut)

namespace Diagnostic

/-- Whether a diagnostic is told of a file. -/
def isAbout (path : Path) (d : Diagnostic) : Bool := d.path?.any fun p => p.same path

/-- What a diagnostic asks to be inserted. -/
def insertion? (d : Diagnostic) : Option Insertion :=
  (Repair.ofCode? d.code).map fun repair => ⟨d.span.start, EditSet.marker, repair⟩

theorem isAbout_iff {path : Path} {d : Diagnostic} :
    d.isAbout path = true ↔ ∃ file, d.file = some file ∧ file.path.parts = path.parts := by
  unfold isAbout path?
  cases d.file with
  | none => simp
  | some file => simp [Path.same_iff]

end Diagnostic

namespace EditSet

variable {sets : List EditSet} {q : Path}

def setOf? (q : Path) (sets : List EditSet) : Option EditSet := sets.find? fun s => s.path.same q

theorem setOf?_cons_of_other {s : EditSet} (h : ¬ s.path.same q = true) :
    setOf? q (s :: sets) = setOf? q sets := List.find?_cons_of_neg h

theorem setOf?_addTo (file : SourceFile) (i : Insertion) (name : String) (sets : List EditSet) :
    setOf? q (addTo file i name sets) =
      if file.path.same q then some (((setOf? q sets).getD ⟨file, [], []⟩).add i name)
      else setOf? q sets := by
  induction sets with
  | nil => by_cases hq : file.path.same q = true <;> simp [setOf?, addTo, path, add, hq]
  | cons s rest ih =>
    unfold addTo
    by_cases hs : s.path.same file.path = true
    · have hsame : s.path.same q = file.path.same q := by
        unfold Path.same
        rw [Path.same_iff.mp hs]
      rw [if_pos hs]
      by_cases hq : file.path.same q = true
      · have hadd : (s.add i name).path.same q = true := hsame.trans hq
        simp [setOf?, hq, hadd, hsame]
      · have hadd : ¬ (s.add i name).path.same q = true := hsame ▸ hq
        simp [setOf?, hq, hadd, hsame]
    · rw [if_neg hs]
      by_cases hq : s.path.same q = true
      · have hother : ¬ file.path.same q = true := by
          intro hfile
          apply hs
          rw [Path.same_iff] at hq hfile ⊢
          exact hq.trans hfile.symm
        simp [setOf?, hq, hother]
      · rw [setOf?_cons_of_other hq, setOf?_cons_of_other hq]
        exact ih

theorem setOf?_gather (d : Diagnostic) :
    ((setOf? q (gather sets d)).map insertions).getD [] =
        ((setOf? q sets).map insertions).getD [] ++
          (if d.isAbout q then d.insertion?.toList else []) ∧
      ((setOf? q (gather sets d)).map names).getD [] =
        ((setOf? q sets).map names).getD [] ++
          (if d.isAbout q ∧ d.insertion?.isSome then [d.quotedText] else []) := by
  unfold gather Diagnostic.insertion?
  cases hrepair : Repair.ofCode? d.code with
  | none => simp
  | some repair =>
    cases hfile : d.file with
    | none => simp [Diagnostic.isAbout, Diagnostic.path?, hfile]
    | some file =>
      have habout : d.isAbout q = file.path.same q := by
        simp [Diagnostic.isAbout, Diagnostic.path?, hfile]
      rw [setOf?_addTo, habout]
      by_cases hq : file.path.same q = true
      · cases setOf? q sets <;> simp [hq, add]
      · simp [hq]

theorem setOf?_foldl (ds : List Diagnostic) (sets : List EditSet) :
    ((setOf? q (ds.foldl gather sets)).map insertions).getD [] =
        ((setOf? q sets).map insertions).getD [] ++
          (ds.filter (·.isAbout q)).filterMap Diagnostic.insertion? ∧
      ((setOf? q (ds.foldl gather sets)).map names).getD [] =
        ((setOf? q sets).map names).getD [] ++
          ((ds.filter (·.isAbout q)).filter (·.insertion?.isSome)).map Diagnostic.quotedText := by
  induction ds generalizing sets with
  | nil => simp
  | cons d ds ih =>
    obtain ⟨hinsertions, hnames⟩ := ih (gather sets d)
    obtain ⟨hinsertion, hname⟩ := @setOf?_gather sets q d
    rw [List.foldl_cons, hinsertions, hnames, hinsertion, hname]
    by_cases habout : d.isAbout q = true
    · cases hi : d.insertion? <;> simp [habout, hi]
    · simp [habout]

theorem setOf?_of_mem (h : DistinctSets sets) {s : EditSet} (hs : s ∈ sets) :
    setOf? s.path sets = some s := by
  induction sets with
  | nil => simp at hs
  | cons x rest ih =>
    obtain ⟨hfirst, hrest⟩ := List.pairwise_cons.mp h
    rcases List.mem_cons.mp hs with rfl | hs
    · exact List.find?_cons_of_pos (Path.same_iff.mpr rfl)
    · have hne : ¬ x.path.same s.path = true := fun hsame => hfirst s hs (Path.same_iff.mp hsame)
      rw [setOf?_cons_of_other hne]
      exact ih hrest hs

/-- The set of a file has one insertion and one name for each diagnostic that asks for it. -/
theorem ofDiagnostics_set {ds : List Diagnostic} {s : EditSet} (hs : s ∈ ofDiagnostics ds) :
    s.insertions = (ds.filter (·.isAbout s.path)).filterMap Diagnostic.insertion? ∧
      s.names = ((ds.filter (·.isAbout s.path)).filter (·.insertion?.isSome)).map
        Diagnostic.quotedText := by
  have hset := setOf?_of_mem (ofDiagnostics_distinct ds) hs
  obtain ⟨hinsertions, hnames⟩ := setOf?_foldl (q := s.path) ds []
  rw [show ds.foldl gather [] = ofDiagnostics ds from rfl, hset] at hinsertions hnames
  exact ⟨hinsertions, hnames⟩

end EditSet

/-! ### Findings -/

/-- The reader finds the specifiers of a file at whole characters of its text, and apart from each
other. -/
def ProgramMember.SpecifiersApart (f : ProgramMember) : Prop :=
  ∀ items, (Source.readModule f.kind.dialect f.source.text).items = some items →
    (∀ e ∈ Source.specifierExtents items, e.Aligned f.source.text) ∧
      (Source.specifierExtents items).Pairwise Extent.Apart

/-- A file whose specifiers cover whole characters of its text and do not overlap. -/
def ProgramMember.SpansApart (f : ProgramMember) : Prop :=
  ∀ scope, (ModuleView.ofFile f).scope = some scope →
    (∀ span ∈ scope.specifierSpans, span.Aligned f.source.text) ∧
      scope.specifierSpans.Pairwise Span.Apart

/-- What the reader finds apart stays so. -/
theorem ProgramMember.SpecifiersApart.spans {f : ProgramMember} (h : f.SpecifiersApart)
    (hparsed : f.parsed = Source.readSource f.source.text f.kind) : f.SpansApart := by
  intro scope hscope
  obtain ⟨o, ho, rfl⟩ := Option.map_eq_some_iff.mp hscope
  rw [ProgramMember.outline, hparsed] at ho
  obtain ⟨items, hitems, rfl⟩ := Option.map_eq_some_iff.mp ho
  obtain ⟨haligned, hapart⟩ := h items hitems
  rw [Source.Outline.specifierSpans_ofItems]
  constructor
  · intro span hspan
    obtain ⟨e, he, rfl⟩ := List.mem_map.mp hspan
    exact (haligned e he).span
  · rw [List.pairwise_map]
    apply hapart.imp_of_mem
    intro a b ha hb hab
    exact hab.span (haligned a ha).start_le (haligned b hb).start_le _

namespace Program

variable {p : Program} {verbatim : Bool} {f : ProgramMember} {scope : Scope}

theorem fixable_append (xs ys : List Diagnostic) : fixable (xs ++ ys) = fixable xs ++ fixable ys :=
  List.filter_append xs ys

/-- Where each diagnostic comes from one thing of a list, they stand at the places of these things,
in their order. -/
theorem fixable_filterMap_spans {α : Type} {tell : α → Option Diagnostic} {place : α → Option Span}
    (h : ∀ a d, tell a = some d → place a = some d.span) (l : List α) :
    ((fixable (l.filterMap tell)).map (·.span)).Sublist (l.filterMap place) := by
  induction l with
  | nil => exact List.Sublist.refl _
  | cons a l ih =>
    cases ha : tell a with
    | none =>
      rw [List.filterMap_cons_none ha]
      exact ih.trans ((List.sublist_cons_self a l).filterMap place)
    | some d =>
      rw [List.filterMap_cons_some ha, List.filterMap_cons_some (h a d ha)]
      have hcons := fixable_append [d] (l.filterMap tell)
      rw [List.singleton_append] at hcons
      rw [hcons, List.map_append]
      have hone : ((fixable [d]).map (·.span)).Sublist [d.span] :=
        List.filter_sublist.map (fun x : Diagnostic => x.span)
      exact hone.append ih

/-- What can be mended in a file stands at specifiers, each of which is told of once. -/
theorem fixable_spans (hscope : (ModuleView.ofFile f).scope = some scope) :
    ((fixable (p.fileDiagnostics verbatim f)).map (·.span)).Sublist scope.specifierSpans := by
  have hissues : fixable (f.parsed.issues.map fun i =>
      Diagnostic.inFile (.badText i.message) f.source i.span) = [] := by
    apply fixable_eq_nil
    intro d hd
    obtain ⟨i, _, rfl⟩ := List.mem_map.mp hd
    simp [Diagnostic.inFile, Problem.code]
  rw [fileDiagnostics, fixable_append, hissues, List.nil_append]
  split
  · have hrequests : fixable (scope.requests.filterMap fun r =>
        if (p.moduleFor? (ModuleView.ofFile f) r.text).isSome then none
        else some (Diagnostic.inFile (.moduleNotFound r.text) f.source r.span)) = [] := by
      apply fixable_eq_nil
      intro d hd
      obtain ⟨r, _, hr⟩ := List.mem_filterMap.mp hd
      split at hr
      · cases hr
      · obtain rfl := Option.some.inj hr
        simp [Diagnostic.inFile, Problem.code]
    simp only [scopeDiagnostics, hscope]
    rw [fixable_append, fixable_append, hrequests, List.nil_append, List.map_append,
      Source.Scope.specifierSpans]
    apply List.Sublist.append
    · have himports : scope.imports.map (·.span) =
          scope.imports.filterMap fun b => some b.span := by
        rw [← List.filterMap_eq_map]
        rfl
      rw [himports]
      apply fixable_filterMap_spans
      intro b d hb
      obtain ⟨q, _, rfl⟩ := Option.map_eq_some_iff.mp hb
      rfl
    · apply fixable_filterMap_spans
      intro e d he
      obtain ⟨span, hspan, he⟩ := Option.bind_eq_some_iff.mp he
      obtain ⟨q, _, he⟩ := Option.bind_eq_some_iff.mp he
      obtain rfl := Option.some.inj he
      exact hspan
  · exact List.nil_sublist _

/-- Nothing is told of a place outside its text. -/
theorem check_within {disk : Disk} {roots : List Path} {options options' : Options}
    (hload : load disk roots options = .ok p) {d : Diagnostic} (hd : d ∈ p.check options')
    {file : SourceFile} (hfile : d.file = some file) : d.span.stop ≤ file.text.utf8ByteSize := by
  rcases mem_problems.mp (Diagnostic.mem_of_mem_arrange hd) with
    ⟨path, _, rfl⟩ | ⟨f, hf, h⟩
  · cases hfile
  obtain ⟨_, hnext⟩ := load_next hload f hf
  obtain ⟨houtline, hissues⟩ := Source.within_readSource f.source.text f.kind
  rw [← hnext.parsed] at houtline hissues
  rcases h with ⟨i, hi, rfl⟩ | ⟨_, scope, hscope, htold⟩
  · obtain rfl := Option.some.inj hfile
    exact hissues i hi
  · obtain ⟨o, ho, rfl⟩ := Option.map_eq_some_iff.mp hscope
    have hwithin := houtline o ho
    cases htold with
    | request hr _ =>
      obtain rfl := Option.some.inj hfile
      exact hwithin.requests _ hr
    | import_ hb _ =>
      obtain rfl := Option.some.inj hfile
      exact hwithin.specifiers _ (List.mem_append_left _ (List.mem_map_of_mem hb))
    | export_ he hspan _ =>
      obtain rfl := Option.some.inj hfile
      exact hwithin.specifiers _
        (List.mem_append_right _ (List.mem_filterMap.mpr ⟨_, he, hspan⟩))

/-- Two findings in one file begin at different places. -/
def Separate (a b : Diagnostic) : Prop :=
  a.path?.map Path.parts = b.path?.map Path.parts → a.span.start ≠ b.span.start

theorem fixable_separate (hf : f.SpansApart) :
    (fixable (p.fileDiagnostics verbatim f)).Pairwise Separate := by
  cases hscope : (ModuleView.ofFile f).scope with
  | none =>
    have hnone : fixable (p.fileDiagnostics verbatim f) = [] := by
      apply fixable_eq_nil
      intro d hd
      rcases List.mem_append.mp hd with hd | hd
      · obtain ⟨i, _, rfl⟩ := List.mem_map.mp hd
        simp [Diagnostic.inFile, Problem.code]
      · split at hd
        · obtain ⟨s, hs, _⟩ := mem_scopeDiagnostics.mp hd
          rw [hscope] at hs
          cases hs
        · simp at hd
    rw [hnone]
    exact List.Pairwise.nil
  | some scope =>
    obtain ⟨haligned, hapart⟩ := hf scope hscope
    have hspans : scope.specifierSpans.Pairwise fun a b => a.start ≠ b.start := by
      apply hapart.imp_of_mem
      intro a b ha hb hab
      exact hab.start_ne (haligned a ha).length_pos (haligned b hb).length_pos
    have hsub := @fixable_spans p verbatim f scope hscope
    have hstarts := List.pairwise_map.mp (hspans.sublist hsub)
    apply hstarts.imp
    intro a b hne _
    exact hne

theorem path_of_fileDiagnostics {d : Diagnostic} (hd : d ∈ p.fileDiagnostics verbatim f) :
    d.path? = some f.path := by
  rcases List.mem_append.mp hd with hd | hd
  · obtain ⟨i, _, rfl⟩ := List.mem_map.mp hd
    rfl
  · split at hd
    · obtain ⟨s, _, htold⟩ := mem_scopeDiagnostics.mp hd
      cases htold <;> rfl
    · simp at hd

theorem fixable_problems_separate (hp : DistinctPaths p.files)
    (hspans : ∀ f ∈ p.files, f.SpansApart) :
    (fixable (p.problems verbatim)).Pairwise Separate := by
  have hroots : fixable (p.absentRoots.map fun path =>
      Diagnostic.global (.fileNotFound path.slashed)) = [] := by
    apply fixable_eq_nil
    intro d hd
    obtain ⟨path, _, rfl⟩ := List.mem_map.mp hd
    simp [Diagnostic.global, Problem.code]
  have hfiles : fixable (p.problems verbatim) =
      p.files.flatMap fun f => fixable (p.fileDiagnostics verbatim f) := by
    unfold fixable at hroots ⊢
    rw [problems, List.filter_append, hroots, List.nil_append, List.filter_flatMap]
  rw [hfiles, List.pairwise_flatMap]
  refine ⟨fun f hf => fixable_separate (hspans f hf), ?_⟩
  apply (List.pairwise_map.mp hp).imp
  intro f g hne a ha b hb hsame
  have hpath := path_of_fileDiagnostics (List.mem_filter.mp ha).1
  have hpath' := path_of_fileDiagnostics (List.mem_filter.mp hb).1
  rw [hpath, hpath'] at hsame
  exact False.elim (hne (Option.some.inj hsame))

theorem start_le_of_le {a b : Diagnostic} (hle : a.le b = true) (hpath : a.path? = b.path?) :
    a.span.start ≤ b.span.start := by
  unfold Diagnostic.le at hle
  rw [hpath] at hle
  simp only [ne_eq, not_true_eq_false, if_false] at hle
  split at hle
  · exact Nat.le_of_lt (of_decide_eq_true hle)
  · rename_i hsame
    exact Nat.le_of_eq (not_not.mp hsame)

/-- The findings in one file are told in the order in which they begin. -/
theorem findings_increasing {options : Options} (hp : DistinctPaths p.files)
    (hspans : ∀ f ∈ p.files, f.SpansApart) (path : Path) :
    ((fixable (p.check options)).filter (·.isAbout path)).Pairwise
      fun a b => a.span.start < b.span.start := by
  have hseparate : (fixable (p.check options)).Pairwise Separate := by
    have hsorted : (fixable ((p.problems options.verbatim).mergeSort Diagnostic.le)).Pairwise
        Separate := by
      unfold fixable
      rw [Diagnostic.filter_mergeSort]
      have hperm := List.mergeSort_perm (fixable (p.problems options.verbatim)) Diagnostic.le
      refine (hperm.pairwise_iff ?_).mpr (fixable_problems_separate hp hspans)
      intro a b hab hsame
      exact (hab hsame.symm).symm
    exact hsorted.sublist ((Diagnostic.arrange_sublist _).filter _)
  have hle : (p.check options).Pairwise fun a b => a.le b = true :=
    (List.pairwise_mergeSort Diagnostic.le_trans Diagnostic.le_total _).sublist
      (Diagnostic.arrange_sublist _)
  have hboth := (hle.sublist List.filter_sublist).and hseparate
  refine (hboth.sublist List.filter_sublist).imp_of_mem ?_
  rintro a b ha hb ⟨hle, hseparate⟩
  -- both are told of the one file that has this path
  obtain ⟨ha, habout⟩ := List.mem_filter.mp ha
  obtain ⟨hb, habout'⟩ := List.mem_filter.mp hb
  obtain ⟨f, hf, _, hfile, _⟩ := told_of_fixable ha
  obtain ⟨g, hg, _, hfile', _⟩ := told_of_fixable hb
  obtain ⟨_, hsource, hparts⟩ := Diagnostic.isAbout_iff.mp habout
  obtain ⟨_, hsource', hparts'⟩ := Diagnostic.isAbout_iff.mp habout'
  obtain rfl := Option.some.inj (hfile.symm.trans hsource)
  obtain rfl := Option.some.inj (hfile'.symm.trans hsource')
  obtain rfl := hp.eq_of_parts hf hg (hparts.trans hparts'.symm)
  have hpath : a.path? = b.path? := by rw [Diagnostic.path?, Diagnostic.path?, hfile, hfile']
  have hne := hseparate (by rw [hpath])
  have hstart := start_le_of_le hle hpath
  omega

theorem told_span {d : Diagnostic} (htold : p.Told verbatim f scope d)
    (hrepair : (Repair.ofCode? d.code).isSome = true) : d.span ∈ scope.specifierSpans := by
  unfold Source.Scope.specifierSpans
  cases htold with
  | request => simp [Diagnostic.inFile, Problem.code, Repair.ofCode?] at hrepair
  | import_ hb _ => exact List.mem_append_left _ (List.mem_map_of_mem hb)
  | export_ he hspan _ => exact List.mem_append_right _ (List.mem_filterMap.mpr ⟨_, he, hspan⟩)

end Program

namespace EditSet

/-- A set does what findings in its file ask for, and can be carried out. -/
structure Fits (s : EditSet) (findings : List Diagnostic) : Prop where
  covers : ∀ d ∈ findings, d.file = some s.source ∧ d.span.Covers s.source.text d.quotedText
  insertions : s.insertions.map some = findings.map Diagnostic.insertion?
  names : s.names = findings.map Diagnostic.quotedText
  increasing : s.insertions.Pairwise fun i j => i.offset < j.offset
  boundaries : ∀ i ∈ s.insertions, Boundary s.source.text i.offset
  patched : ∃ pieces, Cut 0 (s.insertions.map (·.offset)) s.source.text pieces ∧
    s.patched = .ok (marker.intercalate pieces)

variable {p : Program} {options : Options} {s : EditSet}

theorem fits_of_planned (hp : Program.DistinctPaths p.files)
    (hspans : ∀ f ∈ p.files, f.SpansApart)
    (hs : s ∈ ofDiagnostics (fixable (p.check options))) :
    s.Fits ((fixable (p.check options)).filter (·.isAbout s.path)) := by
  obtain ⟨hinsertions, hnames⟩ := ofDiagnostics_set hs
  have hincreasing := @Program.findings_increasing p options hp hspans s.path
  generalize hfindings : (fixable (p.check options)).filter (·.isAbout s.path) = findings at *
  have hfinding (d : Diagnostic) (hd : d ∈ findings) : d.insertion?.isSome = true ∧
      d.file = some s.source ∧ d.span.Aligned s.source.text := by
    obtain ⟨hd, habout⟩ := List.mem_filter.mp (hfindings ▸ hd)
    obtain ⟨f, hf, _, hfile, scope, hscope, htold⟩ := told_of_fixable hd
    have hrepair : (Repair.ofCode? d.code).isSome = true := (List.mem_filter.mp hd).2
    -- the set has the text of the one file with its path
    obtain ⟨g, hg, hsource⟩ := source_of_planned hs
    obtain ⟨file, hfile', hparts⟩ := Diagnostic.isAbout_iff.mp habout
    obtain rfl := Option.some.inj (hfile.symm.trans hfile')
    have hpath : f.path.parts = g.path.parts := by
      rw [EditSet.path, hsource] at hparts
      exact hparts
    obtain rfl := hp.eq_of_parts hf hg hpath
    rw [hsource]
    refine ⟨?_, hfile, (hspans f hf scope hscope).1 _ (Program.told_span htold hrepair)⟩
    rw [Diagnostic.insertion?, Option.isSome_map]
    exact hrepair
  have hquoted (d : Diagnostic) (hd : d ∈ findings) :
      d.span.textIn s.source.text = d.quotedText := by
    rw [Diagnostic.quotedText, (hfinding d hd).2.1]
  have hinsertion (i : Insertion) (hi : i ∈ s.insertions) :
      ∃ d ∈ findings, i.offset = d.span.start ∧ i.literal = marker := by
    rw [hinsertions] at hi
    obtain ⟨d, hd, hi⟩ := List.mem_filterMap.mp hi
    obtain ⟨repair, _, rfl⟩ := Option.map_eq_some_iff.mp hi
    exact ⟨d, hd, rfl, rfl⟩
  have hsorted : s.insertions.Pairwise fun i j => i.offset < j.offset := by
    rw [hinsertions, List.pairwise_filterMap]
    apply hincreasing.imp
    intro a b hab i hi j hj
    obtain ⟨_, _, rfl⟩ := Option.map_eq_some_iff.mp hi
    obtain ⟨_, _, rfl⟩ := Option.map_eq_some_iff.mp hj
    exact hab
  have hboundaries (i : Insertion) (hi : i ∈ s.insertions) : Boundary s.source.text i.offset := by
    obtain ⟨d, hd, hoffset, _⟩ := hinsertion i hi
    rw [hoffset]
    exact (hfinding d hd).2.2.boundary
  refine ⟨?_, ?_, ?_, hsorted, hboundaries, ?_⟩
  · intro d hd
    refine ⟨(hfinding d hd).2.1, ?_⟩
    rw [← hquoted d hd]
    exact (hfinding d hd).2.2.covers_textIn
  · rw [hinsertions]
    exact map_some_filterMap fun d hd => (hfinding d hd).1
  · rw [hnames, List.filter_eq_self.mpr fun d hd => (hfinding d hd).1]
  · apply Insertion.apply_of_boundaries hsorted hboundaries
    intro i hi
    obtain ⟨_, _, _, hliteral⟩ := hinsertion i hi
    exact hliteral

theorem write_ne_edit {d : Disk} {text : String} {e : Setback Disk RunError}
    (h : s.write d text = .error e) (x : SpliceError) : e.error ≠ .edit x := by
  cases hread : FileSystem.read d s.path with
  | error y =>
    unfold write at h
    rw [hread] at h
    obtain rfl := Except.error.inj h
    simp
  | ok current =>
    rw [write_of_read hread] at h
    split at h
    · obtain ⟨y, rfl⟩ := error_of_mapError h
      simp
    · obtain rfl := Except.error.inj h
      simp

theorem carryOut_ne_edit {writing : Bool} {d : Disk} {text : String} {e : Setback Disk RunError}
    (hpatched : s.patched = .ok text) (h : s.carryOut writing d = .error e) (x : SpliceError) :
    e.error ≠ .edit x := by
  unfold carryOut at h
  rw [hpatched] at h
  cases writing with
  | false => cases h
  | true => exact write_ne_edit h x

theorem applyAll_ne_edit {style : ReportStyle} {writing : Bool} {sets : List EditSet} {d : Disk}
    (h : ∀ s ∈ sets, ∃ text, s.patched = .ok text) (x : SpliceError) :
    (applyAll style writing sets d).result ≠ .error (.edit x) := by
  intro hedit
  rcases applyAll_run style writing sets d with
    ⟨_, hresult⟩ | ⟨done, s, rest, e, hsets, _, hs, hresult⟩
  · rw [hresult] at hedit
    cases hedit
  · obtain rfl := Except.error.inj (hedit.symm.trans hresult)
    obtain ⟨text, hpatched⟩ := h s (by simp [hsets])
    exact carryOut_ne_edit hpatched hs x rfl

/-- Every finding is in the set of its file. -/
theorem exists_set {ds : List Diagnostic} {d : Diagnostic} (hd : d ∈ fixable ds)
    {file : SourceFile} (hfile : d.file = some file) :
    ∃ s ∈ ofDiagnostics (fixable ds), s.path.parts = file.path.parts := by
  have habout : d.isAbout file.path = true := Diagnostic.isAbout_iff.mpr ⟨file, hfile, rfl⟩
  obtain ⟨i, hi⟩ : ∃ i, d.insertion? = some i := by
    rw [← Option.isSome_iff_exists, Diagnostic.insertion?, Option.isSome_map]
    exact (List.mem_filter.mp hd).2
  have hinsertions := (setOf?_foldl (q := file.path) (fixable ds) []).1
  have hmem : i ∈ ((fixable ds).filter (·.isAbout file.path)).filterMap Diagnostic.insertion? :=
    List.mem_filterMap.mpr ⟨d, List.mem_filter.mpr ⟨hd, habout⟩, hi⟩
  cases hset : setOf? file.path (ofDiagnostics (fixable ds)) with
  | none =>
    rw [show (fixable ds).foldl gather [] = ofDiagnostics (fixable ds) from rfl,
      hset] at hinsertions
    rw [← List.nil_append (List.filterMap _ _)] at hmem
    exact False.elim (List.not_mem_nil (hinsertions ▸ hmem))
  | some s =>
    have hsame : s.path.same file.path = true :=
      List.find?_some (p := fun t : EditSet => t.path.same file.path) hset
    exact ⟨s, List.mem_of_find?_eq_some hset, Path.same_iff.mp hsame⟩

end EditSet

/-- Where the reader finds the specifiers of all files at whole characters and apart from each
other, the set of each file has one insertion for each finding in it, in the order of the text and
between characters, together with the text that was found. Nothing is told of a place outside its
text. Each set can be carried out, so that no run fails over an insertion. -/
theorem planned_edits_fit (disk : Disk) (style : ReportStyle) (config : Path)
    (hspans : ∀ c p, Config.resolve disk style.cwd config = .ok c →
      Program.load disk (c.allRoots disk) c.options.forced = .ok p →
      ∀ f ∈ p.files, f.SpecifiersApart) :
    (∀ c ds, Config.resolve disk style.cwd config = .ok c → c.compile disk = .ok ds →
      (∀ s ∈ EditSet.ofDiagnostics (fixable ds), s.Fits ((fixable ds).filter (·.isAbout s.path))) ∧
      (∀ d ∈ fixable ds, ∃ s ∈ EditSet.ofDiagnostics (fixable ds), d.isAbout s.path = true) ∧
      ∀ d ∈ ds, ∀ file, d.file = some file → d.span.stop ≤ file.text.utf8ByteSize) ∧
    ∀ writing x, (fixProject disk style writing config).result ≠ .error (.edit x) := by
  have hfits (c : Config) (p : Program) (hconfig : Config.resolve disk style.cwd config = .ok c)
      (hload : Program.load disk (c.allRoots disk) c.options.forced = .ok p) :
      ∀ s ∈ EditSet.ofDiagnostics (fixable (p.check c.options.forced)),
        s.Fits ((fixable (p.check c.options.forced)).filter (·.isAbout s.path)) := by
    intro s hs
    refine EditSet.fits_of_planned (Program.load_distinct hload) (fun f hf => ?_) hs
    obtain ⟨_, hnext⟩ := Program.load_next hload f hf
    exact (hspans c p hconfig hload f hf).spans hnext.parsed
  refine ⟨?_, ?_⟩
  · intro c ds hconfig hcompile
    obtain ⟨p, hload, rfl⟩ := Config.compile_ok hcompile
    refine ⟨hfits c p hconfig hload, ?_, ?_⟩
    · intro d hd
      obtain ⟨f, _, _, hfile, _⟩ := told_of_fixable hd
      obtain ⟨s, hs, hparts⟩ := EditSet.exists_set hd hfile
      exact ⟨s, hs, Diagnostic.isAbout_iff.mpr ⟨f.source, hfile, hparts.symm⟩⟩
    · intro d hd file hfile
      exact Program.check_within hload hd hfile
  · intro writing x
    unfold fixProject
    cases hplan : planEdits disk style.cwd config with
    | error e =>
      intro h
      obtain rfl := Except.error.inj h
      exact planEdits_error hplan
    | ok sets =>
      apply EditSet.applyAll_ne_edit
      obtain ⟨c, p, hconfig, hload, rfl⟩ := planEdits_ok hplan
      intro s hs
      obtain ⟨pieces, _, hpatched⟩ := (hfits c p hconfig hload s hs).patched
      exact ⟨_, hpatched⟩

/-- A project that imports two types behind a letter of two bytes. -/
def accentDisk : Disk :=
  .ofTexts [("tsconfig.json", "\x7b\"files\": [\"b.ts\"]\x7d"),
    ("a.ts", "export type T = 1; export type U = 2"),
    ("b.ts", "/* é */ import \x7b T, U \x7d from './a'")]

def accentSource : SourceFile := ⟨⟨"/b.ts"⟩, "/* é */ import \x7b T, U \x7d from './a'"⟩

def accentFindings : List Diagnostic :=
  [.inFile (.typeImported "T") accentSource ⟨18, 1⟩,
    .inFile (.typeImported "U") accentSource ⟨21, 1⟩]

set_option maxRecDepth 4096 in
theorem planned_edits_fit_accent : ∃ c ds s,
    Config.resolve accentDisk plainStyle.cwd ⟨"tsconfig.json"⟩ = .ok c ∧
    c.compile accentDisk = .ok ds ∧ s ∈ EditSet.ofDiagnostics (fixable ds) ∧
    s.insertions.map (·.offset) = [18, 21] ∧ s.names = ["T", "U"] ∧
    s.Fits ((fixable ds).filter (·.isAbout s.path)) := by
  have hconfig : Config.resolve accentDisk plainStyle.cwd ⟨"tsconfig.json"⟩ =
      .ok ⟨⟨"/tsconfig.json"⟩, ∅, [⟨"/b.ts"⟩]⟩ := Config.eq_of_fields (by decide +kernel)
  have hroots : Config.allRoots accentDisk ⟨⟨"/tsconfig.json"⟩, ∅, [⟨"/b.ts"⟩]⟩ =
      [⟨"/b.ts"⟩] := by decide +kernel
  have hfacts : (Program.load accentDisk [⟨"/b.ts"⟩] (Options.forced ∅)).toOption.map
      (fun p => (p.problems (Options.forced ∅).verbatim, p.files.map fun f =>
        (f.source.text, (Source.readModule f.kind.dialect f.source.text).items.map
          Source.specifierExtents))) =
      some (accentFindings, [(accentSource.text, some [⟨19, 20⟩, ⟨22, 23⟩]),
        ("export type T = 1; export type U = 2", some [])]) := by decide +kernel
  obtain ⟨p, hload, hfound⟩ := exists_of_toOption_map hfacts
  obtain ⟨hproblems, hfiles⟩ := Prod.mk.inj hfound
  rw [← hroots] at hload
  have hspans (f : ProgramMember) (hf : f ∈ p.files) : f.SpecifiersApart := by
    intro items hitems
    have hmem := List.mem_map_of_mem (f := fun f : ProgramMember =>
      (f.source.text, (Source.readModule f.kind.dialect f.source.text).items.map
        Source.specifierExtents)) hf
    rw [hfiles, hitems] at hmem
    simp only [Option.map_some, List.mem_cons, List.not_mem_nil, or_false, Prod.mk.injEq,
      Option.some.injEq] at hmem
    rcases hmem with ⟨htext, hplaces⟩ | ⟨_, hplaces⟩
    · rw [htext, hplaces]
      refine ⟨?_, by simp [Extent.Apart]⟩
      intro e he
      simp only [List.mem_cons, List.not_mem_nil, or_false] at he
      rcases he with rfl | rfl
      · exact ⟨"T", by decide, "/* é */ import \x7b ", ", U \x7d from './a'", by decide +kernel⟩
      · exact ⟨"U", by decide, "/* é */ import \x7b T, ", " \x7d from './a'", by decide +kernel⟩
    · rw [hplaces]
      simp
  have hcompile : Config.compile accentDisk ⟨⟨"/tsconfig.json"⟩, ∅, [⟨"/b.ts"⟩]⟩ =
      .ok accentFindings := by
    unfold Config.compile
    rw [show Options.forced _ = Options.forced ∅ from rfl, hload]
    refine congrArg Except.ok ((p.check_eq_arrange _).trans ?_)
    rw [hproblems]
    exact Diagnostic.arrange_pair (by decide +kernel) (by decide +kernel)
  obtain ⟨hfit, _⟩ := planned_edits_fit accentDisk plainStyle ⟨"tsconfig.json"⟩ (by
    intro c q hc hq
    obtain rfl := Except.ok.inj (hconfig.symm.trans hc)
    obtain rfl := Except.ok.inj (hload.symm.trans hq)
    exact hspans)
  have hset : EditSet.ofDiagnostics (fixable accentFindings) = [⟨accentSource,
      [⟨18, "type ", .import_⟩, ⟨21, "type ", .import_⟩], ["T", "U"]⟩] := rfl
  have hmem : (⟨accentSource, [⟨18, "type ", .import_⟩, ⟨21, "type ", .import_⟩], ["T", "U"]⟩ :
      EditSet) ∈ EditSet.ofDiagnostics (fixable accentFindings) := by simp [hset]
  exact ⟨_, _, _, hconfig, hcompile, hmem, rfl, rfl, (hfit _ _ hconfig hcompile).1 _ hmem⟩

end TypeOnly
