import TypeOnly.Report

/-!
Edit sets are carried out one after the other, on any file system. A run carries all of them out,
or those before one that fails, and prints what it has come to.
-/

namespace TypeOnly.EditSet

set_option autoImplicit false

variable {σ : Type} [FileSystem σ]
variable {s : EditSet} {d d' d'' : σ} {sets done : List EditSet} {writing : Bool}

/-! ### One file -/

/-- The file of a set is what was checked. -/
def Unchanged (s : EditSet) (d : σ) : Prop :=
  ∃ current, FileSystem.read d s.path = .ok current ∧ Digest.ofText current = s.digest

theorem write_of_read {current : String} (hread : FileSystem.read d s.path = .ok current)
    (text : String) :
    s.write d text =
      if Digest.ofText current = s.digest then
        (FileSystem.replace d s.path text).mapError fun e => ⟨.file e.error, e.disk⟩
      else .error ⟨.stale s.path, d⟩ := by
  unfold write
  rw [hread]
  by_cases hdigest : Digest.ofText current = s.digest
  · rw [if_pos hdigest]
    exact if_neg (Decidable.not_not.mpr hdigest)
  · rw [if_neg hdigest]
    exact if_pos hdigest

theorem write_of_source (hread : FileSystem.read d s.path = .ok s.source.text) (text : String) :
    s.write d text =
      (FileSystem.replace d s.path text).mapError fun e => ⟨.file e.error, e.disk⟩ :=
  (write_of_read hread text).trans (if_pos rfl)

theorem write_ok {text : String} (h : s.write d text = .ok d') :
    s.Unchanged d ∧ FileSystem.replace d s.path text = .ok d' := by
  cases hread : FileSystem.read d s.path with
  | error e =>
    unfold write at h
    rw [hread] at h
    cases h
  | ok current =>
    rw [write_of_read hread] at h
    split at h
    · rename_i hdigest
      cases hreplace : FileSystem.replace d s.path text with
      | error e =>
        rw [hreplace] at h
        cases h
      | ok disk =>
        rw [hreplace] at h
        obtain rfl := Except.ok.inj h
        exact ⟨⟨current, hread, hdigest⟩, rfl⟩
    · cases h

/-- Only a file that is being replaced can fail with something left behind. -/
theorem write_error {text : String} {e : Setback σ RunError} (h : s.write d text = .error e) :
    e.disk = d ∨ s.Unchanged d ∧
      ∃ f, FileSystem.replace d s.path text = .error f ∧ e = ⟨.file f.error, f.disk⟩ := by
  cases hread : FileSystem.read d s.path with
  | error x =>
    unfold write at h
    rw [hread] at h
    exact Or.inl (Except.error.inj h ▸ rfl)
  | ok current =>
    rw [write_of_read hread] at h
    split at h
    · rename_i hdigest
      cases hreplace : FileSystem.replace d s.path text with
      | error f =>
        rw [hreplace] at h
        exact Or.inr ⟨⟨current, hread, hdigest⟩, f, rfl, (Except.error.inj h).symm⟩
      | ok disk =>
        rw [hreplace] at h
        cases h
    · exact Or.inl (Except.error.inj h ▸ rfl)

theorem carryOut_ok (h : s.carryOut true d = .ok d') :
    ∃ text, s.patched = .ok text ∧ s.Unchanged d ∧ FileSystem.replace d s.path text = .ok d' := by
  unfold carryOut at h
  cases hpatched : s.patched with
  | error e =>
    rw [hpatched] at h
    cases h
  | ok text =>
    rw [hpatched] at h
    exact ⟨text, rfl, write_ok h⟩

theorem carryOut_error {e : Setback σ RunError} (h : s.carryOut writing d = .error e) :
    e.disk = d ∨ writing = true ∧ s.Unchanged d ∧
      ∃ text f, s.patched = .ok text ∧ FileSystem.replace d s.path text = .error f ∧
        e = ⟨.file f.error, f.disk⟩ := by
  unfold carryOut at h
  cases hpatched : s.patched with
  | error x =>
    rw [hpatched] at h
    exact Or.inl (Except.error.inj h ▸ rfl)
  | ok text =>
    rw [hpatched] at h
    cases writing with
    | false => cases h
    | true =>
      rcases write_error h with hsame | ⟨hread, f, hreplace, he⟩
      · exact Or.inl hsame
      · exact Or.inr ⟨rfl, hread, text, f, rfl, hreplace, he⟩

/-- A file that is still what was checked is patched if it can be replaced. -/
theorem carryOut_of_read {text : String} (hpatched : s.patched = .ok text)
    (hread : FileSystem.read d s.path = .ok s.source.text)
    (hreplace : FileSystem.replace d s.path text = .ok d') : s.carryOut true d = .ok d' := by
  have hwrite : s.write d text = .ok d' := by
    rw [write_of_source hread, hreplace]
    rfl
  unfold carryOut
  rw [hpatched]
  exact hwrite

theorem carryOut_of_refusal {text : String} {e : Setback σ DiskError}
    (hpatched : s.patched = .ok text) (hread : FileSystem.read d s.path = .ok s.source.text)
    (hreplace : FileSystem.replace d s.path text = .error e) :
    s.carryOut true d = .error ⟨.file e.error, e.disk⟩ := by
  have hwrite : s.write d text = .error ⟨.file e.error, e.disk⟩ := by
    rw [write_of_source hread, hreplace]
    rfl
  unfold carryOut
  rw [hpatched]
  exact hwrite

theorem carryOut_preview (h : s.carryOut false d = .ok d') : d' = d := by
  unfold carryOut at h
  cases hpatched : s.patched with
  | error e =>
    rw [hpatched] at h
    cases h
  | ok text =>
    rw [hpatched] at h
    exact (Except.ok.inj h).symm

/-! ### One file after the other -/

/-- All of these sets are carried out. -/
inductive CarriedOut (writing : Bool) : List EditSet → σ → σ → Prop where
  | nil (d : σ) : CarriedOut writing [] d d
  | cons {s : EditSet} {rest : List EditSet} {d d' d'' : σ} (hs : s.carryOut writing d = .ok d')
      (hrest : CarriedOut writing rest d' d'') : CarriedOut writing (s :: rest) d d''

theorem CarriedOut.preview (h : CarriedOut false sets d d') : d' = d := by
  induction h with
  | nil d => rfl
  | cons hs _ ih => exact ih.trans (carryOut_preview hs)

/-- What is printed on files one by one. -/
def reportsOf (style : ReportStyle) (writing : Bool) (sets : List EditSet) : String :=
  String.join (sets.map fun s => (FileReport.ofSet s writing).render style)

theorem reportsOf_cons (style : ReportStyle) (writing : Bool) (s : EditSet) (sets : List EditSet) :
    reportsOf style writing (s :: sets) =
      (FileReport.ofSet s writing).render style ++ reportsOf style writing sets := by
  simp [reportsOf]

theorem carryOutAll_cases (style : ReportStyle) (writing : Bool) (sets : List EditSet)
    (reports : List FileReport) (output : String) (d : σ) :
    (CarriedOut writing sets d (carryOutAll style writing sets reports output d).disk ∧
      (carryOutAll style writing sets reports output d).result =
        .ok (reports ++ sets.map (FileReport.ofSet · writing)) ∧
      (carryOutAll style writing sets reports output d).output =
        if style.json then output else output ++ reportsOf style writing sets) ∨
    ∃ done s rest e d', sets = done ++ s :: rest ∧ CarriedOut writing done d d' ∧
      s.carryOut writing d' =
        .error ⟨e, (carryOutAll style writing sets reports output d).disk⟩ ∧
      (carryOutAll style writing sets reports output d).result = .error e ∧
      (carryOutAll style writing sets reports output d).output =
        if style.json then output else output ++ reportsOf style writing done := by
  induction sets generalizing reports output d with
  | nil => exact Or.inl ⟨.nil d, by simp [carryOutAll], by simp [carryOutAll, reportsOf]⟩
  | cons s sets ih =>
    unfold carryOutAll
    cases hs : s.carryOut writing d with
    | error e => exact Or.inr ⟨[], s, sets, e.error, d, rfl, .nil d, hs, rfl, by simp [reportsOf]⟩
    | ok d' =>
      dsimp only
      have hprinted (done : List EditSet) :
          (if style.json then
              if style.json then output
              else output ++ (FileReport.ofSet s writing).render style
            else (if style.json then output
              else output ++ (FileReport.ofSet s writing).render style) ++
                reportsOf style writing done) =
            if style.json then output else output ++ reportsOf style writing (s :: done) := by
        rw [reportsOf_cons]
        split
        · rfl
        · rw [String.append_assoc]
      rcases ih (reports ++ [FileReport.ofSet s writing])
          (if style.json then output else output ++ (FileReport.ofSet s writing).render style) d'
        with ⟨hdone, hresult, houtput⟩ | ⟨done, t, rest, e, w, rfl, hdone, ht, hresult, houtput⟩
      · refine Or.inl ⟨.cons hs hdone, ?_, houtput.trans (hprinted sets)⟩
        rw [hresult, List.append_assoc, List.singleton_append, List.map_cons]
      · exact Or.inr ⟨s :: done, t, rest, e, w, rfl, .cons hs hdone, ht, hresult,
          houtput.trans (hprinted done)⟩

/-- The report as one document changes nothing but what is printed. -/
theorem applyAll_eq (style : ReportStyle) (writing : Bool) (sets : List EditSet) (d : σ) :
    (applyAll style writing sets d).result = (carryOutAll style writing sets [] "" d).result ∧
      (applyAll style writing sets d).disk = (carryOutAll style writing sets [] "" d).disk := by
  unfold applyAll
  dsimp only
  split
  · exact ⟨rfl, rfl⟩
  · exact ⟨rfl, rfl⟩

theorem applyAll_error {style : ReportStyle} {rest : List EditSet} {e : Setback σ RunError}
    (hdone : CarriedOut writing done d d') (hs : s.carryOut writing d' = .error e) :
    (applyAll style writing (done ++ s :: rest) d).result = .error e.error ∧
      (applyAll style writing (done ++ s :: rest) d).disk = e.disk := by
  have hrun (reports : List FileReport) (output : String) :
      (carryOutAll style writing (done ++ s :: rest) reports output d).result = .error e.error ∧
        (carryOutAll style writing (done ++ s :: rest) reports output d).disk = e.disk := by
    induction hdone generalizing reports output with
    | nil d => simp only [List.nil_append, carryOutAll, hs, and_self]
    | cons ht _ ih =>
      simp only [List.cons_append, carryOutAll, ht]
      exact ih hs _ _
  rw [(applyAll_eq _ _ _ _).1, (applyAll_eq _ _ _ _).2]
  exact hrun [] ""

theorem applyAll_output_ok {style : ReportStyle} {reports : List FileReport}
    (h : (carryOutAll style writing sets [] "" d).result = .ok reports) :
    (applyAll style writing sets d).output = (carryOutAll style writing sets [] "" d).output ++
      if style.json then FileReport.renderJson style.cwd writing reports else "" := by
  unfold applyAll
  dsimp only
  rw [h]
  cases style.json with
  | false => simp
  | true => rfl

theorem applyAll_output_error {style : ReportStyle} {e : RunError}
    (h : (carryOutAll style writing sets [] "" d).result = .error e) :
    (applyAll style writing sets d).output = (carryOutAll style writing sets [] "" d).output := by
  unfold applyAll
  dsimp only
  rw [h]
  cases style.json with
  | false => rfl
  | true => rfl

/-- A run carries all sets out, or those before one that fails, and prints what it has come to. -/
theorem applyAll_cases (style : ReportStyle) (writing : Bool) (sets : List EditSet) (d : σ) :
    (CarriedOut writing sets d (applyAll style writing sets d).disk ∧
      (applyAll style writing sets d).result = .ok (sets.map (FileReport.ofSet · writing)) ∧
      (applyAll style writing sets d).output =
        if style.json then
          FileReport.renderJson style.cwd writing (sets.map (FileReport.ofSet · writing))
        else reportsOf style writing sets) ∨
    ∃ done s rest e d', sets = done ++ s :: rest ∧ CarriedOut writing done d d' ∧
      s.carryOut writing d' = .error ⟨e, (applyAll style writing sets d).disk⟩ ∧
      (applyAll style writing sets d).result = .error e ∧
      (applyAll style writing sets d).output =
        if style.json then "" else reportsOf style writing done := by
  obtain ⟨hresult, hdisk⟩ := applyAll_eq style writing sets d
  rw [hresult, hdisk]
  rcases carryOutAll_cases style writing sets [] "" d with
    ⟨hdone, hok, houtput⟩ | ⟨done, s, rest, e, w, hsets, hdone, hs, herror, houtput⟩
  · refine Or.inl ⟨hdone, hok, ?_⟩
    rw [applyAll_output_ok hok, houtput]
    cases style.json <;> simp
  · refine Or.inr ⟨done, s, rest, e, w, hsets, hdone, hs, herror, ?_⟩
    rw [applyAll_output_error herror, houtput]
    cases style.json <;> simp

end TypeOnly.EditSet
