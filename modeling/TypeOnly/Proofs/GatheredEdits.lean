import TypeOnly.Proofs.InsertedLiterals
import TypeOnly.Proofs.PlannedEdits

/-!
Edit sets that are gathered from diagnostics. There is one set for each file that something is to be
mended in, in the order in which the files come up, and it has what the diagnostics of its file ask
for, one by one. Nothing is lost, and nothing is added.
-/

namespace TypeOnly

set_option autoImplicit false

open Text (Span Boundary)

namespace Diagnostic

/-- Whether a diagnostic is told of a type that is imported or exported again as a value. -/
def isFinding (d : Diagnostic) : Bool := d.code == 1484 || d.code == 1205

/-- What a finding asks to be inserted. -/
def asked (d : Diagnostic) : Insertion :=
  ⟨d.span.start, "type ", if d.code = 1484 then .import_ else .reExport⟩

def findingsIn (path : Path) (ds : List Diagnostic) : List Diagnostic :=
  ds.filter fun d => d.isAbout path && d.isFinding

/-- The files of the findings, as often as there are findings in them. -/
def filesOf (ds : List Diagnostic) : List SourceFile := (ds.filter isFinding).filterMap (·.file)

theorem ofCode?_of_isFinding {d : Diagnostic} (h : d.isFinding = true) :
    Repair.ofCode? d.code = some d.asked.repair := by
  unfold isFinding at h
  unfold Repair.ofCode? asked
  rcases Bool.or_eq_true_iff.mp h with hcode | hcode
  · simp [eq_of_beq hcode]
  · simp [eq_of_beq hcode]

theorem ofCode?_of_not_isFinding {d : Diagnostic} (h : d.isFinding = false) :
    Repair.ofCode? d.code = none := by
  simp only [isFinding, Bool.or_eq_false_iff, beq_eq_false_iff_ne] at h
  simp [Repair.ofCode?, h]

theorem isSome_ofCode? (d : Diagnostic) : (Repair.ofCode? d.code).isSome = d.isFinding := by
  cases h : d.isFinding with
  | true => rw [ofCode?_of_isFinding h]; rfl
  | false => rw [ofCode?_of_not_isFinding h]; rfl

theorem insertion?_eq (d : Diagnostic) :
    d.insertion? = if d.isFinding then some d.asked else none := by
  unfold insertion?
  cases h : d.isFinding with
  | true => rw [ofCode?_of_isFinding h]; rfl
  | false => rw [ofCode?_of_not_isFinding h]; rfl

end Diagnostic

namespace EditSet

open Diagnostic (isFinding asked findingsIn filesOf)

variable {sets : List EditSet} {ds : List Diagnostic}

theorem gather_of_not_isFinding {d : Diagnostic} (h : d.isFinding = false) :
    gather sets d = sets := by
  unfold gather
  rw [Diagnostic.ofCode?_of_not_isFinding h]

theorem ofDiagnostics_fixable (ds : List Diagnostic) :
    ofDiagnostics (fixable ds) = ofDiagnostics ds := by
  unfold ofDiagnostics fixable
  rw [List.foldl_filter]
  congr 1
  funext sets d
  rw [Diagnostic.isSome_ofCode?]
  cases h : d.isFinding with
  | true => rfl
  | false => exact (gather_of_not_isFinding h).symm

/-! ### Order of the sets -/

theorem sources_addTo (file : SourceFile) (i : Insertion) (name : String) (sets : List EditSet) :
    (addTo file i name sets).map source = sets.map source ++
      if (sets.map source).all (fun f => !f.path.same file.path) then [file] else [] := by
  induction sets with
  | nil => rfl
  | cons s sets ih =>
    have hpath : s.source.path = s.path := rfl
    unfold addTo
    by_cases hs : s.path.same file.path = true
    · simp [hs, hpath, add]
    · simp only [Bool.not_eq_true] at hs
      simp [hs, hpath, ih]

theorem gather_of_file {d : Diagnostic} (h : d.isFinding = true) {file : SourceFile}
    (hfile : d.file = some file) : gather sets d = addTo file d.asked d.quotedText sets := by
  unfold gather
  rw [Diagnostic.ofCode?_of_isFinding h, hfile]
  rfl

theorem gather_of_global {d : Diagnostic} (hfile : d.file = none) : gather sets d = sets := by
  unfold gather
  rw [hfile]
  cases Repair.ofCode? d.code <;> rfl

/-- A file that has no set yet gets one at the end. -/
theorem sources_foldl (ds : List Diagnostic) (sets : List EditSet) :
    (ds.foldl gather sets).map source = sets.map source ++
      ((filesOf ds).filter fun g => (sets.map source).all fun f => !f.path.same g.path).eraseDupsBy
        fun f g => f.path.same g.path := by
  induction ds generalizing sets with
  | nil => simp [filesOf]
  | cons d ds ih =>
    rw [List.foldl_cons, ih]
    cases hfinding : d.isFinding with
    | false =>
      have hfiles : filesOf (d :: ds) = filesOf ds := by simp [filesOf, hfinding]
      rw [gather_of_not_isFinding hfinding, hfiles]
    | true =>
      cases hfile : d.file with
      | none =>
        have hfiles : filesOf (d :: ds) = filesOf ds := by simp [filesOf, hfinding, hfile]
        rw [gather_of_global hfile, hfiles]
      | some file =>
        have hfiles : filesOf (d :: ds) = file :: filesOf ds := by
          simp [filesOf, hfinding, hfile]
        rw [gather_of_file hfinding hfile, sources_addTo, hfiles]
        generalize sets.map source = known
        cases hnew : known.all fun f => !f.path.same file.path with
        | false =>
          rw [List.filter_cons_of_neg (by simp [hnew]), if_neg (by simp), List.append_nil]
        | true =>
          rw [List.filter_cons, if_pos hnew, List.eraseDupsBy_cons, if_pos rfl, List.append_assoc,
            List.filter_filter]
          refine congrArg (known ++ file :: List.eraseDupsBy _ ·) (List.filter_congr ?_)
          intro g _
          rw [List.all_append, Path.same_comm g.path]
          simp [Bool.and_comm]

/-- The text that a set is made for is that of the first finding in its file. -/
theorem source_setOf?_foldl {q : Path} (ds : List Diagnostic) (sets : List EditSet) :
    (setOf? q (ds.foldl gather sets)).map source =
      ((setOf? q sets).map source).or ((findingsIn q ds).head?.bind (·.file)) := by
  induction ds generalizing sets with
  | nil => simp [findingsIn]
  | cons d ds ih =>
    rw [List.foldl_cons, ih]
    cases hfinding : d.isFinding with
    | false =>
      have hnone : findingsIn q (d :: ds) = findingsIn q ds := by simp [findingsIn, hfinding]
      rw [gather_of_not_isFinding hfinding, hnone]
    | true =>
      cases hfile : d.file with
      | none =>
        have hnone : findingsIn q (d :: ds) = findingsIn q ds := by
          simp [findingsIn, Diagnostic.isAbout, Diagnostic.path?, hfile]
        rw [gather_of_global hfile, hnone]
      | some file =>
        have habout : d.isAbout q = file.path.same q := by
          simp [Diagnostic.isAbout, Diagnostic.path?, hfile]
        rw [gather_of_file hfinding hfile, setOf?_addTo]
        cases hq : file.path.same q with
        | false =>
          have hnone : findingsIn q (d :: ds) = findingsIn q ds := by
            simp [findingsIn, habout, hq]
          rw [hnone]
          rfl
        | true =>
          have hcons : findingsIn q (d :: ds) = d :: findingsIn q ds := by
            simp [findingsIn, habout, hq, hfinding]
          rw [hcons]
          cases setOf? q sets <;> simp [add, hfile]

/-! ### What a set holds -/

/-- A set does what the findings in a file ask for, one by one, on the text of the first of them. -/
structure Gathers (s : EditSet) (findings : List Diagnostic) : Prop where
  insertions : s.insertions = findings.map Diagnostic.asked
  names : List.Forall₂ (fun d name => ∃ file, d.file = some file ∧ d.span.Covers file.text name)
    findings s.names
  first : ∃ d rest file, findings = d :: rest ∧ d.file = some file ∧ s.source = file ∧
    s.digest = Digest.ofText file.text
  filled : s.insertions ≠ []

theorem filterMap_insertion? (path : Path) (ds : List Diagnostic) :
    (ds.filter (·.isAbout path)).filterMap Diagnostic.insertion? =
      (findingsIn path ds).map Diagnostic.asked := by
  unfold findingsIn
  rw [← List.filterMap_eq_map, List.filterMap_filter, List.filterMap_filter]
  apply List.filterMap_congr
  intro d _
  rw [Diagnostic.insertion?_eq]
  cases d.isAbout path <;> rfl

theorem gathers_of_mem {s : EditSet} (hs : s ∈ ofDiagnostics ds)
    (h : ∀ d ∈ ds, ∀ file ∈ d.file,
      Boundary file.text d.span.start ∧ Boundary file.text d.span.stop) :
    s.Gathers (findingsIn s.path ds) := by
  obtain ⟨hinsertions, hnames⟩ := ofDiagnostics_set hs
  rw [filterMap_insertion?] at hinsertions
  have hfindings : (ds.filter (·.isAbout s.path)).filter (·.insertion?.isSome) =
      findingsIn s.path ds := by
    rw [List.filter_filter]
    apply List.filter_congr
    intro d _
    rw [Diagnostic.insertion?, Option.isSome_map, Diagnostic.isSome_ofCode?, Bool.and_comm]
  rw [hfindings] at hnames
  have hsource := source_setOf?_foldl (q := s.path) ds []
  rw [show ds.foldl gather [] = ofDiagnostics ds from rfl,
    setOf?_of_mem (ofDiagnostics_distinct ds) hs] at hsource
  have hfirst : ∃ d rest file, findingsIn s.path ds = d :: rest ∧ d.file = some file ∧
      s.source = file ∧ s.digest = Digest.ofText file.text := by
    cases hcons : findingsIn s.path ds with
    | nil =>
      rw [hcons] at hsource
      cases hsource
    | cons d rest =>
      rw [hcons] at hsource
      exact ⟨d, rest, s.source, rfl, hsource.symm, rfl, rfl⟩
  refine ⟨hinsertions, ?_, hfirst, ?_⟩
  · rw [hnames, List.forall₂_map_right_iff, List.forall₂_same]
    intro d hd
    obtain ⟨hd, hmember⟩ := List.mem_filter.mp hd
    obtain ⟨file, hfile, _⟩ := Diagnostic.isAbout_iff.mp (Bool.and_eq_true_iff.mp hmember).1
    obtain ⟨hstart, hstop⟩ := h d hd file hfile
    refine ⟨file, hfile, ?_⟩
    rw [Diagnostic.quotedText, hfile]
    exact Span.covers_textIn hstart hstop
  · obtain ⟨d, rest, _, hcons, _⟩ := hfirst
    rw [hinsertions, hcons]
    simp

/-- Where the spans of all diagnostics begin and end between characters, there is one set for each
file with a finding, in the order of the first findings, and each set does exactly what the findings
in its file ask for. What cannot be mended makes no difference. -/
theorem gathered_exactly (ds : List Diagnostic)
    (h : ∀ d ∈ ds, ∀ file ∈ d.file,
      Boundary file.text d.span.start ∧ Boundary file.text d.span.stop) :
    DistinctSets (ofDiagnostics ds) ∧
    (ofDiagnostics ds).map source = (filesOf ds).eraseDupsBy (fun f g => f.path.same g.path) ∧
    (∀ s ∈ ofDiagnostics ds, s.Gathers (findingsIn s.path ds)) ∧
    ofDiagnostics (fixable ds) = ofDiagnostics ds := by
  refine ⟨ofDiagnostics_distinct ds, ?_, fun s hs => gathers_of_mem hs h, ofDiagnostics_fixable ds⟩
  have hsources := sources_foldl ds []
  rw [List.map_nil, List.nil_append] at hsources
  rw [ofDiagnostics, hsources]
  simp only [List.all_nil, List.filter_true]

/-- Findings of two files by turns, among them one of a text that is read again, and what cannot be
mended. -/
def byTurns : List Diagnostic :=
  [⟨1205, "", some ⟨⟨"/b.ts"⟩, "é T"⟩, ⟨3, 1⟩⟩, ⟨1484, "", some ⟨⟨"/a.ts"⟩, "aé"⟩, ⟨1, 2⟩⟩,
    ⟨2304, "", some ⟨⟨"/c.ts"⟩, "C"⟩, ⟨0, 1⟩⟩, ⟨1484, "", none, ⟨0, 0⟩⟩,
    ⟨1484, "", some ⟨⟨"//b.ts"⟩, "later"⟩, ⟨0, 4⟩⟩]

theorem gathered_exactly_byTurns :
    (∀ d ∈ byTurns, ∀ file ∈ d.file,
      Boundary file.text d.span.start ∧ Boundary file.text d.span.stop) ∧
    (ofDiagnostics byTurns).map source = [⟨⟨"/b.ts"⟩, "é T"⟩, ⟨⟨"/a.ts"⟩, "aé"⟩] ∧
    (∃ s ∈ ofDiagnostics byTurns, s.path = ⟨"/b.ts"⟩ ∧ s.names = ["T", "late"] ∧
      s.insertions = [⟨3, "type ", .reExport⟩, ⟨0, "type ", .import_⟩] ∧
      s.digest = Digest.ofText "é T") := by
  have hspans : ∀ d ∈ byTurns, ∀ file ∈ d.file,
      Boundary file.text d.span.start ∧ Boundary file.text d.span.stop := by decide +kernel
  obtain ⟨_, hsources, hsets, _⟩ := gathered_exactly byTurns hspans
  have htwo : (ofDiagnostics byTurns).map source = [⟨⟨"/b.ts"⟩, "é T"⟩, ⟨⟨"/a.ts"⟩, "aé"⟩] :=
    hsources.trans (by decide +kernel)
  obtain ⟨s, hs, hsource⟩ : ∃ s ∈ ofDiagnostics byTurns, s.source = ⟨⟨"/b.ts"⟩, "é T"⟩ := by
    rw [← List.mem_map, htwo]
    exact List.mem_cons_self
  have hpath : s.path = ⟨"/b.ts"⟩ := congrArg SourceFile.path hsource
  have hfound : findingsIn ⟨"/b.ts"⟩ byTurns =
      [⟨1205, "", some ⟨⟨"/b.ts"⟩, "é T"⟩, ⟨3, 1⟩⟩,
        ⟨1484, "", some ⟨⟨"//b.ts"⟩, "later"⟩, ⟨0, 4⟩⟩] := by decide +kernel
  have hgathers := hsets s hs
  rw [hpath, hfound] at hgathers
  refine ⟨hspans, htwo, s, hs, hpath, ?_, hgathers.insertions, ?_⟩
  · obtain ⟨first, _, ⟨_, hfirst, hcovers⟩, hrest, hnames⟩ :=
      List.forall₂_cons_left_iff.mp hgathers.names
    obtain ⟨second, _, ⟨_, hsecond, hcovers'⟩, hnil, rfl⟩ := List.forall₂_cons_left_iff.mp hrest
    rw [List.forall₂_nil_left_iff] at hnil
    cases hfirst
    cases hsecond
    rw [hnames, hnil, ← hcovers.textIn_eq, ← hcovers'.textIn_eq]
    decide +kernel
  · rw [digest, hsource]

end EditSet

end TypeOnly
