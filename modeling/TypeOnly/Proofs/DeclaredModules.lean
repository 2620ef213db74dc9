import TypeOnly.Proofs.LookupBounds

/-!
Which of the modules declared by name a specifier means. Whatever the specifier, it is the first
one of its own name, so that the name and the file tell which module it is.
-/

namespace TypeOnly.Program

set_option autoImplicit false

open Source (NamedModule)

/-! ### The order of patterns -/

theorem goesBefore_iff {a b : String} :
    goesBefore a b = true ↔ Wildcard.weight b < Wildcard.weight a ∨
      (Wildcard.weight a = Wildcard.weight b ∧ a < b) := by
  simp [goesBefore]

theorem goesBefore_irrefl (a : String) : ¬ goesBefore a a = true := by
  rw [goesBefore_iff]
  rintro (h | ⟨_, h⟩)
  · omega
  · exact String.lt_irrefl a h

theorem goesBefore_trans {a b c : String} (hab : goesBefore a b = true)
    (hbc : goesBefore b c = true) : goesBefore a c = true := by
  rw [goesBefore_iff] at *
  rcases hab with hab | ⟨hab, hlt⟩
  · rcases hbc with hbc | ⟨hbc, _⟩ <;> exact Or.inl (by omega)
  · rcases hbc with hbc | ⟨hbc, hlt'⟩
    · exact Or.inl (by omega)
    · exact Or.inr ⟨hab.trans hbc, String.lt_trans hlt hlt'⟩

/-! ### The best module is the first of its name -/

theorem foldl_betterModule_before (ms : List (ProgramMember × NamedModule))
    (best : ProgramMember × NamedModule) :
    ms.foldl betterModule best = best ∨
      goesBefore (ms.foldl betterModule best).2.name best.2.name = true := by
  induction ms generalizing best with
  | nil => exact Or.inl rfl
  | cons x ms ih =>
    rw [List.foldl_cons]
    by_cases hx : goesBefore x.2.name best.2.name = true
    · have hb : betterModule best x = x := if_pos hx
      rw [hb]
      rcases ih x with h | h
      · exact Or.inr (h.symm ▸ hx)
      · exact Or.inr (goesBefore_trans h hx)
    · have hb : betterModule best x = best := if_neg hx
      rw [hb]
      exact ih best

theorem find?_foldl_betterModule (ms : List (ProgramMember × NamedModule))
    (best : ProgramMember × NamedModule) :
    (best :: ms).find? (fun y => y.2.name = (ms.foldl betterModule best).2.name) =
      some (ms.foldl betterModule best) := by
  induction ms generalizing best with
  | nil => simp
  | cons x ms ih =>
    rw [List.foldl_cons]
    by_cases hx : goesBefore x.2.name best.2.name = true
    · have hb : betterModule best x = x := if_pos hx
      rw [hb]
      -- the best one so far is passed over, and what is chosen in the end goes before it
      have hne : best.2.name ≠ (ms.foldl betterModule x).2.name := by
        intro he
        rcases foldl_betterModule_before ms x with h | h
        · rw [← h, ← he] at hx
          exact goesBefore_irrefl _ hx
        · have ht := goesBefore_trans h hx
          rw [← he] at ht
          exact goesBefore_irrefl _ ht
      rw [List.find?_cons_of_neg (by simpa using hne)]
      exact ih x
    · have hb : betterModule best x = best := if_neg hx
      rw [hb]
      have h := ih best
      by_cases he : best.2.name = (ms.foldl betterModule best).2.name
      · rw [List.find?_cons_of_pos (by simpa using he)] at h ⊢
        exact h
      · rw [List.find?_cons_of_neg (by simpa using he)] at h ⊢
        have hne : x.2.name ≠ (ms.foldl betterModule best).2.name := by
          intro hxe
          rcases foldl_betterModule_before ms best with h | h
          · exact he (by rw [h])
          · exact hx (hxe ▸ h)
        rw [List.find?_cons_of_neg (by simpa using hne)]
        exact h

theorem namedModule?_first {p : Program} {specifier : String}
    {x : ProgramMember × NamedModule} (h : p.namedModule? specifier = some x) :
    p.namedModules.find? (fun y => y.2.name = x.2.name) = some x := by
  unfold namedModule? at h
  split at h
  · rename_i y hy
    obtain rfl := Option.some.inj h
    have hname : y.2.name = specifier := by simpa using List.find?_some hy
    rw [hname]
    exact hy
  · split at h
    · simp at h
    · rename_i first rest hrest
      obtain rfl := Option.some.inj h
      have hfind := find?_foldl_betterModule rest first
      rw [← hrest, List.find?_filter] at hfind
      rw [← hfind]
      have hmem := List.mem_of_find?_eq_some (find?_foldl_betterModule rest first)
      rw [← hrest] at hmem
      have hok := (List.mem_filter.mp hmem).2
      congr 1
      funext y
      by_cases hy : y.2.name = (rest.foldl betterModule first).2.name
      · simpa [hy] using hok
      · simp [hy]

end TypeOnly.Program
