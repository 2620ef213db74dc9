import TypeOnly.Proofs.TextSpans
import TypeOnly.Source.Outline

/-!
Where the names of an outline stand in the text. A reader gives places, and each of them becomes a
span. No span leaves the text, wherever the reader says that something is; and what the reader finds
within the text is kept.
-/

namespace TypeOnly.Source

set_option autoImplicit false

open TypeOnly.Text (Span Extent)

/-- The places of the specifiers in the imports and export lists of a module. -/
def Scope.specifierSpans (s : Scope) : List Span :=
  s.imports.map (·.span) ++ s.exports.filterMap (·.span)

def ExportClause.extent? : ExportClause → Option Extent
  | .named _ _ _ extent => some extent
  | .whole _ => none

def Item.importExtents : Item → List Extent
  | importDecl clauses _ _ => clauses.map (·.extent)
  | _ => []

def Item.exportExtents : Item → List Extent
  | exportList clauses _ _ => clauses.filterMap ExportClause.extent?
  | _ => []

/-- Where a reader of the file found the specifiers in its imports and export lists. -/
def specifierExtents (items : List Item) : List Extent :=
  items.flatMap Item.importExtents ++ items.flatMap Item.exportExtents

theorem Item.spans_imports (length : Nat) (i : Item) :
    (i.imports length).map (·.span) = i.importExtents.map (Extent.span length) := by
  cases i <;> simp [imports, importExtents]

theorem Item.spans_exportsOf (bound : List (String × Meaning)) :
    (exportsOf bound).filterMap (·.span) = [] := by
  simp [exportsOf]

theorem Item.spans_listed (length : Nat) (source : Option ModuleName) (typeOnly : Bool)
    (c : ExportClause) :
    (listed length source typeOnly c).filterMap (·.span) =
      c.extent?.toList.map (Extent.span length) := by
  cases c <;> cases source <;> rfl

/-- Only the entries of lists have spans. -/
theorem Item.spans_exports (length : Nat) (implicit : Bool) (i : Item) :
    (i.exports length implicit).filterMap (·.span) = i.exportExtents.map (Extent.span length) := by
  cases i with
  | exportList clauses source typeOnly =>
    rw [exports, exportExtents]
    induction clauses with
    | nil => rfl
    | cons c rest ih =>
      rw [List.flatMap_cons, List.filterMap_append, ih, spans_listed]
      cases c <;> rfl
  | declaration d =>
    cases implicit with
    | true => exact spans_exportsOf _
    | false => rfl
  | exportDecl d => exact spans_exportsOf _
  | importAlias name exported typeOnly =>
    cases exported with
    | true => exact spans_exportsOf _
    | false => rfl
  | _ => rfl

theorem Scope.specifierSpans_ofItems (length : Nat) (ambient implicit : Bool)
    (items : List Item) :
    (Scope.ofItems length ambient implicit items).specifierSpans =
      (specifierExtents items).map (Extent.span length) := by
  have himports : (items.flatMap (Item.imports length)).map (·.span) =
      (items.flatMap Item.importExtents).map (Extent.span length) := by
    simp only [List.map_flatMap, Item.spans_imports]
  have hexports : (items.flatMap (Item.exports length implicit)).filterMap (·.span) =
      (items.flatMap Item.exportExtents).map (Extent.span length) := by
    simp only [List.filterMap_flatMap, List.map_flatMap, Item.spans_exports]
  rw [specifierExtents, List.map_append, ← himports, ← hexports]
  rfl

theorem Outline.specifierSpans_ofItems (length : Nat) (ambient : Bool) (items : List Item) :
    (Outline.ofItems length ambient items).toScope.specifierSpans =
      (specifierExtents items).map (Extent.span length) := by
  rw [← Scope.specifierSpans_ofItems length ambient false]
  unfold Outline.ofItems
  dsimp only
  split
  · rfl
  · rfl

/-! ### Spans within a text -/

/-- A scope whose spans stay within a text of some bytes. -/
structure Scope.Within (length : Nat) (s : Scope) : Prop where
  specifiers : ∀ span ∈ s.specifierSpans, span.stop ≤ length
  requests : ∀ r ∈ s.requests, r.span.stop ≤ length

theorem Item.within_requests {length : Nat} {i : Item} {r : Specifier}
    (hr : r ∈ i.requests length) : r.span.stop ≤ length := by
  have hspecifier {m : ModuleName} (hm : r ∈ [m.specifier length]) : r.span.stop ≤ length := by
    obtain rfl := List.mem_singleton.mp hm
    exact Extent.stop_span_le length m.extent
  cases i with
  | importDecl clauses source typeOnly =>
    rw [requests] at hr
    split at hr
    · cases hr
    · exact hspecifier hr
  | exportList clauses source typeOnly =>
    cases source with
    | some source => exact hspecifier hr
    | none => cases hr
  | exportAll source typeOnly => exact hspecifier hr
  | _ => cases hr

variable (length : Nat)

theorem Scope.within_ofItems (ambient implicit : Bool) (items : List Item) :
    (Scope.ofItems length ambient implicit items).Within length where
  specifiers := by
    rw [specifierSpans_ofItems]
    intro span hspan
    obtain ⟨e, _, rfl⟩ := List.mem_map.mp hspan
    exact e.stop_span_le length
  requests := by
    intro r hr
    obtain ⟨i, _, hr⟩ := List.mem_flatMap.mp hr
    exact Item.within_requests hr

theorem NamedModule.within_ofItem {i : Item} {d : NamedModule}
    (hd : NamedModule.ofItem length i = some d) {body : Scope} (hbody : d.body = some body) :
    body.Within length := by
  unfold NamedModule.ofItem at hd
  split at hd
  · obtain rfl := Option.some.inj hd
    obtain rfl := Option.some.inj hbody
    exact Scope.within_ofItems length true true _
  · obtain rfl := Option.some.inj hd
    cases hbody
  · cases hd

theorem Outline.within_ofItems (ambient : Bool) (items : List Item) :
    (Outline.ofItems length ambient items).toScope.Within length := by
  have hscope := Scope.within_ofItems length ambient false items
  unfold Outline.ofItems
  dsimp only
  split
  · exact hscope
  · refine ⟨hscope.specifiers, ?_⟩
    -- a file that is no module asks for what its declared modules ask for
    intro r hr
    obtain ⟨d, hd, hr⟩ := List.mem_flatMap.mp hr
    obtain ⟨i, _, hi⟩ := List.mem_filterMap.mp hd
    cases hbody : d.body with
    | none => simp [hbody] at hr
    | some body =>
      rw [hbody] at hr
      exact (NamedModule.within_ofItem length hi hbody).requests r hr

/-- Whatever the reader finds, the spans of what it makes of a text stay within the text. -/
theorem within_readSource (text : String) (kind : Kind) :
    (∀ o, (readSource text kind).outline = some o → o.toScope.Within text.utf8ByteSize) ∧
      ∀ i ∈ (readSource text kind).issues, i.span.stop ≤ text.utf8ByteSize := by
  constructor
  · intro o ho
    obtain ⟨items, _, rfl⟩ := Option.map_eq_some_iff.mp ho
    exact Outline.within_ofItems _ _ items
  · intro i hi
    obtain ⟨flaw, _, rfl⟩ := List.mem_map.mp hi
    exact flaw.extent.stop_span_le _

end TypeOnly.Source
