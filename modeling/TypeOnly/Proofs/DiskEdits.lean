import TypeOnly.Proofs.EditRuns
import TypeOnly.Proofs.ReplacedFiles

/-!
Edit sets on a disk. A file is patched as a whole, and only while it is what was checked; a set
that fails leaves the disk as it was.
-/

namespace TypeOnly

set_option autoImplicit false

namespace EditSet

variable {s : EditSet} {d d' : Disk} {sets : List EditSet} {writing : Bool}

/-- The file of a set was what was checked, and has the patched text now. -/
structure Patches (s : EditSet) (loc : Location) (text : String) (d d' : Disk) : Prop where
  patched : s.patched = .ok text
  found : d.find s.path = .ok loc
  file : ∃ bytes, d.get? loc = some (.file bytes)
  checked : s.Unchanged d
  written : d' = d.put loc (.file text.toUTF8)

namespace Patches

variable {loc : Location} {text : String}

theorem ne_nil (h : s.Patches loc text d d') : loc ≠ [] := by
  obtain ⟨bytes, hget⟩ := h.file
  rintro rfl
  simp [Disk.get?] at hget

theorem samePlaces (h : s.Patches loc text d d') : SamePlaces d d' := by
  obtain ⟨bytes, hget⟩ := h.file
  rw [h.written]
  exact Disk.samePlaces_put h.ne_nil hget

theorem get?_self (h : s.Patches loc text d d') : d'.get? loc = some (.file text.toUTF8) := by
  rw [h.written]
  exact Disk.get?_put_self _ h.ne_nil

theorem get?_of_ne (h : s.Patches loc text d d') {loc' : Location} (hne : loc' ≠ loc) :
    d'.get? loc' = d.get? loc' := by
  rw [h.written]
  exact Disk.get?_put_of_ne _ hne

theorem read_of_ne (h : s.Patches loc text d d') {q : Path} (hq : d.find q ≠ .ok loc) :
    d'.read q = d.read q := by
  obtain ⟨bytes, hget⟩ := h.file
  rw [h.written]
  exact Disk.read_put_of_ne h.ne_nil hget hq

end Patches

theorem carryOut_patches (h : s.carryOut true d = .ok d') :
    ∃ loc text, FileSystem.replace d s.path text = .ok d' ∧ s.Patches loc text d d' := by
  obtain ⟨text, hpatched, ⟨current, hread, hdigest⟩, hreplace⟩ := carryOut_ok h
  obtain ⟨loc, bytes, hfind, hget⟩ := Disk.find_of_read hread
  exact ⟨loc, text, hreplace, hpatched, hfind, ⟨bytes, hget⟩, ⟨current, hread, hdigest⟩,
    Disk.replace_eq_put hfind hget hreplace⟩

/-- A set that fails leaves the disk as it was. -/
theorem disk_of_carryOut_error {e : Setback Disk RunError} (h : s.carryOut writing d = .error e) :
    e.disk = d := by
  rcases carryOut_error h with hsame | ⟨_, _, text, f, _, hreplace, rfl⟩
  · exact hsame
  · rw [Disk.replace_eq] at hreplace
    cases hplace : d.draftFolder s.path *> d.target s.path with
    | error o =>
      rw [hplace] at hreplace
      exact Except.error.inj hreplace ▸ rfl
    | ok loc =>
      rw [hplace] at hreplace
      cases hreplace

/-- No two sets have the same file. -/
def DifferentFiles (disk : Disk) (sets : List EditSet) : Prop :=
  sets.Pairwise fun s t => ∀ loc, disk.find s.path = .ok loc → disk.find t.path ≠ .ok loc

/-- A file that is none of theirs stays as it is. -/
theorem CarriedOut.read_eq {q : Path} (h : CarriedOut true sets d d')
    (hq : ∀ s ∈ sets, ∀ loc, d.find s.path = .ok loc → d.find q ≠ .ok loc) :
    d'.read q = d.read q := by
  induction h with
  | nil d => rfl
  | @cons s rest d d' d'' hs _ ih =>
    obtain ⟨loc, text, _, hpatches⟩ := carryOut_patches hs
    have hsame := hpatches.samePlaces
    rw [ih fun t ht => by simpa only [hsame.find_eq] using hq t (List.mem_cons_of_mem s ht)]
    exact hpatches.read_of_ne (hq s List.mem_cons_self loc hpatches.found)

theorem applyAll_run (style : ReportStyle) (writing : Bool) (sets : List EditSet) (d : Disk) :
    (CarriedOut writing sets d (applyAll style writing sets d).disk ∧
      (applyAll style writing sets d).result = .ok (sets.map (FileReport.ofSet · writing))) ∨
    ∃ done s rest e, sets = done ++ s :: rest ∧
      CarriedOut writing done d (applyAll style writing sets d).disk ∧
      s.carryOut writing (applyAll style writing sets d).disk =
        .error ⟨e, (applyAll style writing sets d).disk⟩ ∧
      (applyAll style writing sets d).result = .error e := by
  rcases applyAll_cases style writing sets d with
    ⟨hdone, hresult, _⟩ | ⟨done, s, rest, e, w, hsets, hdone, hs, hresult, _⟩
  · exact Or.inl ⟨hdone, hresult⟩
  · obtain rfl : _ = w := disk_of_carryOut_error hs
    exact Or.inr ⟨done, s, rest, e, hsets, hdone, hs, hresult⟩

end EditSet

theorem Insertion.apply_single (text : String) (i : Insertion) :
    Insertion.apply text [i] = (Insertion.splice [i] 0 text.toList).map String.ofList := by
  simp [Insertion.apply, Insertion.sort]

def plainStyle : ReportStyle := ⟨⟨"/"⟩, false, false⟩

end TypeOnly
