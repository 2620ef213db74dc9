import Mathlib.Data.List.DropRight
import TypeOnly.Path
import TypeOnly.Proofs.TextPieces

/-!
Paths and what stands between their slashes: the segments and parts of a path, of a child of a
folder and of two paths that are joined, how long such paths are, and which paths are written alike.
-/

namespace TypeOnly

set_option autoImplicit false

open Text (splitOn fields)

namespace Path

/-! ### Segments -/

/-- A stretch between slashes that names something. -/
def Ordinary (s : String) : Prop := s ≠ "" ∧ s ≠ "." ∧ s ≠ ".."

theorem fileName?_of_segments {p : Path} {init : List String} {name : String}
    (h : p.segments = init ++ [name]) (hname : Ordinary name) : p.fileName? = some name := by
  obtain ⟨hempty, hdot, hup⟩ := hname
  have hpart : Part.ofSegment? name = some (.name name) := by
    simp [Part.ofSegment?, hempty, hdot, hup]
  have hlast (front : List Part) :
      (front ++ p.segments.filterMap Part.ofSegment?).getLast? = some (.name name) := by
    rw [h, List.filterMap_append, ← List.append_assoc]
    simp [hpart]
  have hparts : p.parts.getLast? = some (.name name) := by
    unfold parts
    split
    · exact hlast [.root]
    · split
      · exact hlast [.here]
      · exact hlast []
  simp only [fileName?, hparts]

/-- Seen from a folder, a relative path keeps its stretches behind those that say what the folder
says. -/
theorem segments_join (base : Path) {p : Path} (hp : p.isAbsolute = false) :
    ∃ init, (base.join p).segments = init ++ p.segments ∧
      init.filterMap Part.ofSegment? = base.segments.filterMap Part.ofSegment? := by
  have hsplit (xs : List Char) : (splitOn '/' (xs ++ '/' :: p.text.toList)).map String.ofList =
      (splitOn '/' xs).map String.ofList ++ p.segments := by
    rw [Text.splitOn_append, List.map_append]
    rfl
  unfold join
  rw [hp, if_neg (by simp)]
  simp only [segments, fields] at hsplit ⊢
  split
  · rename_i hbase
    simp only [Bool.or_eq_true, decide_eq_true_eq] at hbase
    rcases hbase with hbase | hbase
    · exact ⟨[], by simp [hbase], by simp [hbase, splitOn, Part.ofSegment?]⟩
    · obtain ⟨xs, hxs⟩ := List.getLast?_eq_some_iff.mp hbase
      refine ⟨(splitOn '/' xs).map String.ofList, ?_, ?_⟩
      · rw [String.toList_append, hxs, List.append_assoc]
        exact hsplit xs
      · rw [hxs, Text.splitOn_append]
        simp [splitOn, Part.ofSegment?]
  · refine ⟨(splitOn '/' base.text.toList).map String.ofList, ?_, rfl⟩
    rw [String.toList_append, String.toList_append, List.append_assoc]
    exact hsplit base.text.toList

theorem segments_child (base : Path) (name : String) (hname : name.toList.head? ≠ some '/')
    (hslash : splitOn '/' name.toList = [name.toList]) :
    ∃ init, (base.child name).segments = init ++ [name] ∧
      init.filterMap Part.ofSegment? = base.segments.filterMap Part.ofSegment? := by
  have habsolute : isAbsolute ⟨name⟩ = false := by simpa [isAbsolute] using hname
  obtain ⟨init, hsegments, hinit⟩ := base.segments_join habsolute
  refine ⟨init, ?_, hinit⟩
  have hone : segments ⟨name⟩ = [name] := by simp [segments, fields, hslash]
  rw [child, hsegments, hone]

/-- A name that can stand between slashes. -/
def Named (s : String) : Prop := Ordinary s ∧ '/' ∉ s.toList

theorem not_mem_of_mem_segments {p : Path} {s : String} (h : s ∈ p.segments) : '/' ∉ s.toList := by
  obtain ⟨field, hfield, rfl⟩ := List.mem_map.mp h
  rw [String.toList_ofList]
  exact Text.not_mem_of_mem_splitOn field hfield

end Path

/-- The parts that can follow another one. -/
def Part.Follows : Part → Prop
  | .root | .here => False
  | .up => True
  | .name s => Path.Named s

namespace Path

variable {p q base : Path}

theorem follows_of_segments {p : Path} {part : Part}
    (h : part ∈ p.segments.filterMap Part.ofSegment?) : part.Follows := by
  obtain ⟨s, hs, hpart⟩ := List.mem_filterMap.mp h
  unfold Part.ofSegment? at hpart
  split at hpart
  · cases hpart
  · rename_i hidle
    simp only [Bool.or_eq_true, decide_eq_true_eq, not_or] at hidle
    split at hpart
    · obtain rfl := Option.some.inj hpart
      trivial
    · rename_i hup
      obtain rfl := Option.some.inj hpart
      exact ⟨⟨hidle.1, hidle.2, hup⟩, not_mem_of_mem_segments hs⟩

theorem segments_of_isAbsolute {p : Path} (h : p.isAbsolute = true) :
    ∃ rest, p.segments = "" :: rest ∧ rest ≠ [] := by
  unfold isAbsolute at h
  cases hs : p.text.toList with
  | nil => simp [hs] at h
  | cons c cs =>
    obtain rfl : c = '/' := by simpa [hs] using h
    refine ⟨(Text.splitOn '/' cs).map String.ofList, ?_, ?_⟩
    · simp only [segments, Text.fields, hs, Text.splitOn, if_true, List.map_cons, String.ofList_nil]
    · simpa using Text.splitOn_ne_nil '/' cs

theorem isAbsolute_child (folder : Path) {name : String} (hname : name.toList.head? ≠ some '/') :
    (folder.child name).isAbsolute = folder.isAbsolute := by
  have hnamed : isAbsolute ⟨name⟩ = false := by simpa [isAbsolute] using hname
  unfold child join
  rw [hnamed, if_neg (by simp)]
  unfold isAbsolute
  cases hs : folder.text.toList with
  | nil =>
    have hempty : folder.text = "" := String.toList_injective hs
    simpa [hempty] using hname
  | cons c cs =>
    split <;> simp [hs]

theorem isAbsolute_join {folder : Path} (h : folder.isAbsolute = true) (p : Path) :
    (folder.join p).isAbsolute = true := by
  cases hp : p.isAbsolute with
  | true => rw [join, if_pos hp, hp]
  | false => exact (isAbsolute_child folder (by simpa [isAbsolute] using hp)).trans h

theorem isAbsolute_of_parts {a b : Path} (h : a.parts = b.parts) : a.isAbsolute = b.isAbsolute := by
  have hhead (p : Path) : p.isAbsolute = (p.parts.head? == some .root) := by
    cases hp : p.isAbsolute with
    | true => rw [parts, if_pos hp]; rfl
    | false =>
      have hfollows (part : Part) (hpart : part ∈ p.segments.filterMap Part.ofSegment?) :
          part ≠ .root := by
        rintro rfl
        exact follows_of_segments hpart
      rw [parts, hp, if_neg (by simp)]
      split
      · rfl
      · cases hs : p.segments.filterMap Part.ofSegment? with
        | nil => rfl
        | cons part rest =>
          have hne := hfollows part (hs ▸ List.mem_cons_self)
          simpa using hne
  rw [hhead a, hhead b, h]

theorem Named.letter : Named "a" := ⟨⟨by decide, by decide, by decide⟩, by decide⟩

instance (s : String) : Decidable (Named s) :=
  inferInstanceAs (Decidable ((s ≠ "" ∧ s ≠ "." ∧ s ≠ "..") ∧ '/' ∉ s.toList))

/-! ### Parts -/

theorem same_iff {a b : Path} : a.same b = true ↔ a.parts = b.parts := beq_iff_eq

theorem same_comm (p q : Path) : p.same q = q.same p := Bool.beq_comm

theorem root_not_mem_segments (p : Path) : .root ∉ p.segments.filterMap Part.ofSegment? :=
  fun h => follows_of_segments h

theorem parts_of_isAbsolute (h : p.isAbsolute = true) :
    p.parts = .root :: p.segments.filterMap Part.ofSegment? := by
  rw [parts, if_pos h]

theorem root_not_mem_parts (h : p.isAbsolute = false) : .root ∉ p.parts := by
  have hsegments := root_not_mem_segments p
  rw [parts, h, if_neg (by simp)]
  split
  · simpa using hsegments
  · exact hsegments

theorem parts_join (h : base.isAbsolute = true) (hp : p.isAbsolute = false) :
    (base.join p).parts = base.parts ++ p.segments.filterMap Part.ofSegment? := by
  obtain ⟨init, hsegments, hinit⟩ := base.segments_join hp
  rw [parts_of_isAbsolute (isAbsolute_join h p), parts_of_isAbsolute h, hsegments,
    List.filterMap_append, hinit, List.cons_append]

theorem ofSegment?_text {part : Part} (h : part.Follows) :
    Part.ofSegment? part.text = some part := by
  cases part with
  | root => exact False.elim h
  | here => exact False.elim h
  | up => rfl
  | name s =>
    obtain ⟨⟨hempty, hdot, hup⟩, _⟩ := h
    simp [Part.text, Part.ofSegment?, hempty, hdot, hup]

theorem filterMap_texts {parts : List Part} (h : ∀ part ∈ parts, part.Follows) :
    (parts.map Part.text).filterMap Part.ofSegment? = parts := by
  rw [List.filterMap_map]
  have hsome : parts.filterMap (Part.ofSegment? ∘ Part.text) = parts.filterMap some :=
    List.filterMap_congr fun part hpart => ofSegment?_text (h part hpart)
  rw [hsome, List.filterMap_some]

theorem not_isAbsolute_ofParts {parts : List Part} (h : ∀ part ∈ parts, part.Follows) :
    (ofParts parts).isAbsolute = false := by
  cases parts with
  | nil => rfl
  | cons part rest =>
    have hpart := h part List.mem_cons_self
    obtain ⟨c, cs, hc, hslash⟩ : ∃ c cs, part.text.toList = c :: cs ∧ c ≠ '/' := by
      cases part with
      | root => exact False.elim hpart
      | here => exact False.elim hpart
      | up => exact ⟨'.', ['.'], by decide, by decide⟩
      | name s =>
        obtain ⟨⟨hempty, _⟩, hslash⟩ := hpart
        cases hs : s.toList with
        | nil => exact False.elim (hempty (String.toList_injective hs))
        | cons c cs =>
          refine ⟨c, cs, hs, ?_⟩
          rintro rfl
          exact hslash (by simp [hs])
    have htext : ofParts (part :: rest) = ⟨"/".intercalate ((part :: rest).map Part.text)⟩ := by
      cases part with
      | root => exact False.elim hpart
      | here | up | name s => rfl
    have hhead : (ofParts (part :: rest)).text.toList.head? = some c := by
      rw [htext, String.toList_intercalate]
      cases rest with
      | nil => simp [List.intercalate, hc]
      | cons next rest => simp [List.intercalate, hc]
    simp [isAbsolute, hhead, hslash]

theorem parts_ofParts {parts : List Part} (h : ∀ part ∈ parts, part.Follows) :
    (ofParts parts).parts = parts := by
  cases parts with
  | nil => rfl
  | cons part rest =>
    have hpart := h part List.mem_cons_self
    have htext : ofParts (part :: rest) = ⟨"/".intercalate ((part :: rest).map Part.text)⟩ := by
      cases part with
      | root => exact False.elim hpart
      | here | up | name s => rfl
    have hsegments : (ofParts (part :: rest)).segments = (part :: rest).map Part.text := by
      rw [htext]
      simp only [segments, Text.fields, String.toList_intercalate]
      have hslashes : ∀ field ∈ ((part :: rest).map Part.text).map String.toList, '/' ∉ field := by
        intro field hfield
        obtain ⟨s, hs, rfl⟩ := List.mem_map.mp hfield
        obtain ⟨q, hq, rfl⟩ := List.mem_map.mp hs
        have hfollows := h q hq
        cases q with
        | root => exact False.elim hfollows
        | here => exact False.elim hfollows
        | up => decide
        | name s => exact hfollows.2
      have hsplit := Text.splitOn_intercalate (by simp) hslashes
      have hslash : "/".toList = ['/'] := rfl
      rw [hslash, hsplit, List.map_map]
      simp [Function.comp_def]
    have hdot : part.text ≠ "." := by
      cases part with
      | root => exact False.elim hpart
      | here => exact False.elim hpart
      | up => decide
      | name s => exact hpart.1.2.1
    unfold Path.parts
    rw [not_isAbsolute_ofParts h, hsegments, if_neg (by simp), if_neg (by simpa using hdot)]
    exact filterMap_texts h

theorem fileName?_of_parts {p : Path} {folder : List Part} {name : String}
    (h : p.parts = folder ++ [.name name]) : p.fileName? = some name := by
  unfold Path.fileName?
  rw [h, List.getLast?_concat]

theorem suffix?_eq_some_iff {p : Path} {name : String} (hname : p.fileName? = some name)
    {s : String} : p.suffix? = some s ↔
      ∃ front : List Char, front ≠ [] ∧ name.toList = front ++ '.' :: s.toList ∧
        '.' ∉ s.toList := by
  unfold suffix?
  rw [hname, Option.bind_some]
  constructor
  · intro h
    split at h
    · rename_i c front after hbreak
      obtain rfl := Option.some.inj h
      rw [String.toList_ofList]
      exact ⟨c :: front, List.cons_ne_nil c front, Text.breakAtLast_eq_some_iff.mp hbreak⟩
    · cases h
  · rintro ⟨front, hfront, hbreak⟩
    obtain ⟨c, rest, rfl⟩ := List.exists_cons_of_ne_nil hfront
    rw [Text.breakAtLast_eq_some_iff.mpr hbreak]
    exact congrArg some (String.ofList_toList)

/-! ### Paths from their segments -/

/-- The absolute path with these stretches between its slashes. -/
def rooted (segments : List String) : Path := ⟨"/" ++ "/".intercalate segments⟩

theorem isAbsolute_rooted (segments : List String) : (rooted segments).isAbsolute = true := by
  simp [isAbsolute, rooted]

/-- The stretches of a path with slashes between them. -/
def joined (names : List String) : List Char := ['/'].intercalate (names.map String.toList)

theorem joined_singleton (name : String) : joined [name] = name.toList := by
  simp [joined, List.intercalate]

theorem joined_cons (name : String) {names : List String} (h : names ≠ []) :
    joined (name :: names) = name.toList ++ '/' :: joined names := by
  cases names with
  | nil => exact False.elim (h rfl)
  | cons next names => simp [joined, List.intercalate]

theorem joined_append {first second : List String} (hfirst : first ≠ []) (hsecond : second ≠ []) :
    joined (first ++ second) = joined first ++ '/' :: joined second := by
  induction first with
  | nil => exact False.elim (hfirst rfl)
  | cons name first ih =>
    by_cases hnil : first = []
    · rw [hnil, List.singleton_append, joined_cons name hsecond, joined_singleton]
    · rw [List.cons_append, joined_cons name (by simp [hnil]), joined_cons name hnil, ih hnil,
        List.append_assoc, List.cons_append]

theorem toList_rooted (names : List String) :
    (rooted names).text.toList = '/' :: joined names := by
  rw [rooted, String.toList_append, String.toList_intercalate]
  rfl

theorem text_rooted_concat {body : List String} (hne : body ≠ []) (name : String) :
    (rooted body).text ++ "/" ++ name = (rooted (body ++ [name])).text := by
  apply String.toList_injective
  rw [String.toList_append, String.toList_append, toList_rooted, toList_rooted,
    joined_append hne (by simp), joined_singleton]
  simp

theorem map_ofList_toList (l : List String) : (l.map String.toList).map String.ofList = l := by
  simp [Function.comp_def]

theorem segments_intercalate {l : List String} (hne : l ≠ []) (h : ∀ s ∈ l, '/' ∉ s.toList) :
    segments ⟨"/".intercalate l⟩ = l := by
  have hslash : "/".toList = ['/'] := rfl
  unfold segments Text.fields
  rw [String.toList_intercalate, hslash, Text.splitOn_intercalate, map_ofList_toList]
  · simpa using hne
  · intro field hfield
    obtain ⟨s, hs, rfl⟩ := List.mem_map.mp hfield
    exact h s hs

theorem segments_rooted {l : List String} (hne : l ≠ []) (h : ∀ s ∈ l, '/' ∉ s.toList) :
    (rooted l).segments = "" :: l := by
  have htext : rooted l = ⟨"/".intercalate ("" :: l)⟩ := by
    cases l with
    | nil => exact False.elim (hne rfl)
    | cons s l =>
      apply congrArg Path.mk
      apply String.toList_injective
      simp [String.toList_intercalate, List.intercalate]
  rw [htext, segments_intercalate (by simp)]
  intro s hs
  rcases List.mem_cons.mp hs with rfl | hs
  · decide
  · exact h s hs

theorem intercalate_segments (p : Path) : "/".intercalate p.segments = p.text := by
  apply String.toList_injective
  have hsplit (cs : List Char) : ['/'].intercalate (Text.splitOn '/' cs) = cs := by
    induction cs with
    | nil => rfl
    | cons c cs ih =>
      unfold Text.splitOn
      cases hs : Text.splitOn '/' cs with
      | nil => exact False.elim (Text.splitOn_ne_nil '/' cs hs)
      | cons field fields =>
        rw [hs] at ih
        split
        · rename_i hc
          rw [hc, ← ih]
          simp [List.intercalate, List.intersperse]
        · rw [← ih]
          cases fields <;> simp [List.intercalate, List.intersperse]
  rw [String.toList_intercalate, segments, Text.fields, List.map_map]
  simpa [Function.comp_def] using hsplit p.text.toList

theorem eq_rooted {p : Path} (h : p.isAbsolute = true) : p = rooted (p.segments.drop 1) := by
  obtain ⟨rest, hrest, hne⟩ := segments_of_isAbsolute h
  have htext := intercalate_segments p
  rw [hrest] at htext ⊢
  apply congrArg Path.mk
  rw [← htext]
  cases rest with
  | nil => exact False.elim (hne rfl)
  | cons s rest =>
    apply String.toList_injective
    simp [String.toList_intercalate, List.intercalate]

theorem ofSegment?_eq_none_iff {s : String} : Part.ofSegment? s = none ↔ isIdle s = true := by
  unfold Part.ofSegment? isIdle
  split
  · rename_i h
    exact iff_of_true rfl h
  · rename_i h
    split <;> simp_all

theorem parts_dot {l : List String} (h : ∀ s ∈ l, '/' ∉ s.toList) :
    parts ⟨"/".intercalate ("." :: l)⟩ = .here :: l.filterMap Part.ofSegment? := by
  have hsegments : segments ⟨"/".intercalate ("." :: l)⟩ = "." :: l := by
    apply segments_intercalate (by simp)
    intro s hs
    rcases List.mem_cons.mp hs with rfl | hs
    · decide
    · exact h s hs
  have hrelative : isAbsolute ⟨"/".intercalate ("." :: l)⟩ = false := by
    cases l <;> simp [isAbsolute, String.toList_intercalate, List.intercalate]
  rw [parts, hrelative, hsegments, if_neg (by simp), List.head?_cons, if_pos rfl]
  rfl

theorem parts_rooted {l : List String} (h : ∀ s ∈ l, '/' ∉ s.toList) :
    (rooted l).parts = .root :: l.filterMap Part.ofSegment? := by
  rw [parts, isAbsolute_rooted, if_pos rfl]
  by_cases hnil : l = []
  · rw [hnil]
    rfl
  · rw [segments_rooted hnil h]
    rfl

/-- A first stretch that neither is empty nor a dot begins a relative path. -/
theorem parts_relative {l : List String} (h : ∀ s ∈ l, '/' ∉ s.toList)
    (hfirst : ∀ s, l.head? = some s → isIdle s = false) :
    parts ⟨"/".intercalate l⟩ = l.filterMap Part.ofSegment? := by
  cases l with
  | nil => rfl
  | cons s l =>
    have hidle := hfirst s rfl
    rw [isIdle, Bool.or_eq_false_iff, decide_eq_false_iff_not, decide_eq_false_iff_not] at hidle
    have hrelative : isAbsolute ⟨"/".intercalate (s :: l)⟩ = false := by
      have hslash := h s List.mem_cons_self
      have hchars : s.toList ≠ [] := by simpa using hidle.1
      obtain ⟨c, cs, hcs⟩ := List.exists_cons_of_ne_nil hchars
      have hc : c ≠ '/' := by
        rintro rfl
        simp [hcs] at hslash
      cases l <;> simp [isAbsolute, String.toList_intercalate, List.intercalate, hcs, hc]
    rw [parts, hrelative, segments_intercalate (by simp) h, if_neg (by simp), List.head?_cons,
      if_neg (by simpa using hidle.2)]

/-- Only an empty path begins with an empty stretch and is not absolute. -/
theorem segments_of_head_empty {p : Path} (h : p.isAbsolute = false)
    (hhead : p.segments.head? = some "") : p.segments = [""] := by
  unfold isAbsolute at h
  unfold segments Text.fields at hhead ⊢
  cases hcs : p.text.toList with
  | nil => rfl
  | cons c cs =>
    have hc : c ≠ '/' := by simpa [hcs] using h
    rw [hcs, Text.splitOn, if_neg hc] at hhead
    cases hs : Text.splitOn '/' cs with
    | nil => exact False.elim (Text.splitOn_ne_nil '/' cs hs)
    | cons field fields =>
      rw [hs] at hhead
      simp at hhead

/-! ### Children -/

theorem child_eq {base : Path} {name : String} (hname : '/' ∉ name.toList) :
    base.child name = if base.text = "" || base.text.toList.getLast? = some '/'
      then ⟨base.text ++ name⟩ else ⟨base.text ++ "/" ++ name⟩ := by
  have hrelative : isAbsolute ⟨name⟩ = false := by
    simpa [isAbsolute] using Text.head?_ne_slash hname
  rw [child, join, hrelative, if_neg (by simp)]

/-- The files in a folder are written alike up to their names. -/
theorem exists_front {base : Path} (h : base.isAbsolute = true) :
    ∃ front : String, front.toList.getLast? = some '/' ∧
      ∀ name : String, '/' ∉ name.toList → (base.child name).text = front ++ name := by
  have hne : base.text ≠ "" := by
    intro hempty
    simp [isAbsolute, hempty] at h
  by_cases hlast : base.text.toList.getLast? = some '/'
  · refine ⟨base.text, hlast, fun name hname => ?_⟩
    rw [child_eq hname, if_pos (by simp [hlast])]
  · refine ⟨base.text ++ "/", by simp, fun name hname => ?_⟩
    rw [child_eq hname, if_neg (by simp [hne, hlast])]

/-- Every file is in a folder, written up to the last slash. -/
theorem exists_folder {p : Path} (h : p.isAbsolute = true) :
    ∃ (base : Path) (name : String), base.isAbsolute = true ∧
      base.text.toList.getLast? = some '/' ∧ '/' ∉ name.toList ∧ p = base.child name := by
  have hslash : '/' ∈ p.text.toList.reverse :=
    List.mem_reverse.mpr (List.mem_of_mem_head? (eq_of_beq h))
  obtain ⟨after, before, hsplit, hafter⟩ := List.eq_append_cons_of_mem hslash
  have htext : p.text.toList = (before.reverse ++ ['/']) ++ after.reverse := by
    rw [← List.reverse_reverse p.text.toList, hsplit]
    simp
  refine ⟨⟨String.ofList (before.reverse ++ ['/'])⟩, String.ofList after.reverse, ?_, by simp,
    by simpa using hafter, ?_⟩
  · unfold isAbsolute at h ⊢
    rw [htext, List.append_assoc] at h
    rw [String.toList_ofList]
    cases hb : before.reverse with
    | nil => rfl
    | cons c cs => simpa [hb] using h
  · rw [child_eq (by simpa using hafter), if_pos (by simp)]
    cases p with
    | mk text =>
      congr 1
      apply String.toList_injective
      simpa using htext

theorem segments_append_slash (front name : String) (hname : '/' ∉ name.toList) :
    segments ⟨front ++ "/" ++ name⟩ = segments ⟨front⟩ ++ [name] := by
  have hslash : "/".toList = ['/'] := rfl
  simp only [segments, Text.fields, String.toList_append, hslash, List.append_assoc,
    List.singleton_append]
  rw [Text.splitOn_append, Text.splitOn_of_not_mem hname]
  simp

theorem eq_of_segments {p q : Path} (h : p.segments = q.segments) : p = q := by
  have htext : p.text = q.text := by rw [← intercalate_segments p, h, intercalate_segments]
  cases p
  cases q
  exact congrArg Path.mk htext

theorem parts_child {base : Path} (h : base.isAbsolute = true) {name : String}
    (hname : Named name) :
    (base.child name).parts = base.parts ++ [.name name] := by
  obtain ⟨⟨hempty, hdot, hup⟩, hslash⟩ := hname
  have hhead := Text.head?_ne_slash hslash
  obtain ⟨init, hsegments, hinit⟩ :=
    base.segments_child name hhead (Text.splitOn_of_not_mem hslash)
  rw [parts, parts, isAbsolute_child base hhead, h, if_pos rfl, if_pos rfl, hsegments,
    List.filterMap_append, hinit]
  simp [Part.ofSegment?, hempty, hdot, hup]

theorem exists_segments_of_last {p : Path} (h : p.text.toList.getLast? = some '/') :
    ∃ front, p.segments = segments ⟨front⟩ ++ [""] ∧
      ∀ name, '/' ∉ name.toList → (p.child name).segments = segments ⟨front⟩ ++ [name] := by
  obtain ⟨front, hfront⟩ := List.getLast?_eq_some_iff.mp h
  have htext : p.text = String.ofList front ++ "/" :=
    String.toList_injective (by simpa using hfront)
  refine ⟨String.ofList front, ?_, ?_⟩
  · have hsplit := segments_append_slash (String.ofList front) "" (by simp)
    rwa [String.append_empty, ← htext] at hsplit
  · intro name hname
    rw [child_eq hname, if_pos (by simp [h]), htext]
    exact segments_append_slash (String.ofList front) name hname

/-- A spelling of the top folder that ends in a slash. -/
structure IsTop (base : Path) : Prop where
  absolute : base.isAbsolute = true
  last : base.text.toList.getLast? = some '/'
  parts : base.parts = [.root]

/-- A spelling of the top folder. -/
def slashes (n : Nat) : Path := ⟨String.ofList (List.replicate (n + 1) '/')⟩

theorem isAbsolute_slashes (n : Nat) : (slashes n).isAbsolute = true := by
  simp [slashes, isAbsolute, List.replicate_succ]

theorem parts_slashes (n : Nat) : (slashes n).parts = [.root] := by
  have hsplit (k : Nat) : Text.splitOn '/' (List.replicate k '/') = List.replicate (k + 1) [] := by
    induction k with
    | zero => rfl
    | succ k ih => rw [List.replicate_succ, Text.splitOn, if_pos rfl, ih, ← List.replicate_succ]
  rw [parts, if_pos (isAbsolute_slashes n)]
  simp [segments, Text.fields, slashes, hsplit, Part.ofSegment?]

theorem size_slashes (n : Nat) : (slashes n).text.utf8ByteSize = n + 1 := by
  have hsize (k : Nat) : (String.ofList (List.replicate k '/')).utf8ByteSize = k := by
    induction k with
    | zero => rfl
    | succ k ih =>
      rw [List.replicate_succ, Text.size_cons, ih]
      have hslash : '/'.utf8Size = 1 := by decide
      omega
  exact hsize (n + 1)

theorem isTop_slashes (n : Nat) : IsTop (slashes n) := by
  refine ⟨isAbsolute_slashes n, ?_, parts_slashes n⟩
  rw [slashes, String.toList_ofList, List.getLast?_replicate, if_neg (by omega)]

theorem IsTop.text_child {base : Path} (h : base.IsTop) {name : String}
    (hname : '/' ∉ name.toList) : (base.child name).text = base.text ++ name := by
  rw [child_eq hname, if_pos (by simp [h.last])]

/-- A stretch that says something, be it a dot. -/
def Filled (s : String) : Prop := s ≠ "" ∧ '/' ∉ s.toList

theorem Named.filled {s : String} (h : Named s) : Filled s := ⟨h.1.1, h.2⟩

/-- Only the top folder is written with a slash at its end. -/
theorem getLast?_rooted {body : List String} (hbody : ∀ s ∈ body, Filled s) (hne : body ≠ []) :
    (rooted body).text.toList.getLast? ≠ some '/' := by
  rcases List.eq_nil_or_concat body with rfl | ⟨init, s, rfl⟩
  · exact False.elim (hne rfl)
  rw [List.concat_eq_append] at hbody ⊢
  obtain ⟨hempty, hslash⟩ := hbody s (by simp)
  have hchars : s.toList ≠ [] := by simpa using hempty
  have hend : ∃ front, (rooted (init ++ [s])).text.toList = front ++ s.toList := by
    rw [toList_rooted]
    by_cases hinit : init = []
    · exact ⟨['/'], by rw [hinit, List.nil_append, joined_singleton]; rfl⟩
    · refine ⟨'/' :: (joined init ++ ['/']), ?_⟩
      rw [joined_append hinit (by simp), joined_singleton]
      simp
  obtain ⟨front, hfront⟩ := hend
  rw [hfront, List.getLast?_append, List.getLast?_eq_some_getLast hchars, Option.some_or,
    ne_eq, Option.some.injEq]
  exact fun he => hslash (he ▸ List.getLast_mem hchars)

theorem child_rooted {body : List String} {name : String}
    (hbody : ∀ s ∈ body, Filled s) (hname : '/' ∉ name.toList) :
    (rooted body).child name = rooted (body ++ [name]) := by
  have hrelative : isAbsolute ⟨name⟩ = false := by
    unfold isAbsolute
    cases hcs : name.toList with
    | nil => rfl
    | cons c cs =>
      have hc : c ≠ '/' := by
        rintro rfl
        simp [hcs] at hname
      simpa using hc
  have htext : (rooted body).text ≠ "" := by
    intro h
    have hcs := congrArg String.toList h
    rw [toList_rooted] at hcs
    cases hcs
  unfold child join
  rw [hrelative, if_neg (by simp), decide_eq_false htext, Bool.false_or]
  by_cases hnil : body = []
  · subst hnil
    have hend : (rooted []).text.toList.getLast? = some '/' := rfl
    rw [hend, decide_eq_true rfl, if_pos rfl]
    have hjoin : (rooted []).text ++ name = (rooted ([] ++ [name])).text := by
      apply String.toList_injective
      rw [String.toList_append, toList_rooted, toList_rooted, List.nil_append,
        joined_singleton]
      rfl
    exact congrArg Path.mk hjoin
  · rw [decide_eq_false (getLast?_rooted hbody hnil), if_neg (by simp)]
    exact congrArg Path.mk (text_rooted_concat hnil name)

/-! ### Sizes -/

/-- How many bytes some stretches take, each with the slash before it. -/
def width : List String → Nat
  | [] => 0
  | s :: segments => s.utf8ByteSize + 1 + width segments

theorem width_cons (s : String) (segments : List String) :
    width (s :: segments) = s.utf8ByteSize + 1 + width segments := rfl

theorem width_append (a b : List String) : width (a ++ b) = width a + width b := by
  induction a with
  | nil => simp [width]
  | cons s a ih =>
    rw [List.cons_append, width_cons, width_cons, ih]
    omega

theorem width_segments (p : Path) : width p.segments = p.text.utf8ByteSize + 1 := by
  have hsplit (cs : List Char) : width ((Text.splitOn '/' cs).map String.ofList) =
      (String.ofList cs).utf8ByteSize + 1 := by
    induction cs with
    | nil => rfl
    | cons c cs ih =>
      rw [Text.size_cons]
      unfold Text.splitOn
      split
      · rename_i hc
        rw [List.map_cons, width_cons, ih, hc]
        have hslash : '/'.utf8Size = 1 := by decide
        have hempty : (String.ofList []).utf8ByteSize = 0 := rfl
        omega
      · cases hs : Text.splitOn '/' cs with
        | nil => exact False.elim (Text.splitOn_ne_nil '/' cs hs)
        | cons field fields =>
          rw [hs, List.map_cons, width_cons] at ih
          dsimp only
          rw [List.map_cons, width_cons, Text.size_cons]
          omega
  have h := hsplit p.text.toList
  rw [String.ofList_toList] at h
  exact h

theorem size_child_le (folder : Path) {name : String} (hname : name.toList.head? ≠ some '/') :
    folder.text.utf8ByteSize + name.utf8ByteSize ≤ (folder.child name).text.utf8ByteSize := by
  have hnamed : isAbsolute ⟨name⟩ = false := by simpa [isAbsolute] using hname
  unfold child join
  rw [hnamed, if_neg (by simp)]
  dsimp only
  split
  · exact Nat.le_of_eq String.utf8ByteSize_append.symm
  · rw [String.utf8ByteSize_append, String.utf8ByteSize_append]
    omega

/-! ### Slashes and backslashes -/

/-- A path that is written with slashes only. -/
def Slashed (path : Path) : Prop := '\\' ∉ path.text.toList

instance (path : Path) : Decidable (Slashed path) := inferInstanceAs (Decidable (_ ∉ _))

theorem slashed_eq {path : Path} (h : Slashed path) : path.slashed = path.text := by
  have hkeep (cs : List Char) (hcs : '\\' ∉ cs) :
      (cs.flatMap fun x => if x = '\\' then "/".toList else [x]) = cs := by
    induction cs with
    | nil => rfl
    | cons c cs ih =>
      simp only [List.mem_cons, not_or] at hcs
      rw [List.flatMap_cons, if_neg (Ne.symm hcs.1), ih hcs.2]
      rfl
  rw [Path.slashed, Text.replaceAll, hkeep _ h, String.ofList_toList]

theorem not_mem_slashed (path : Path) : '\\' ∉ path.slashed.toList := by
  simp only [Path.slashed, Text.replaceAll, String.toList_ofList, List.mem_flatMap, not_exists,
    not_and]
  intro c _
  split
  · decide
  · rename_i hc
    simpa using Ne.symm hc

theorem slashed_eq_iff {path : Path} : path.slashed = path.text ↔ Slashed path := by
  constructor
  · intro h
    rw [Slashed, ← h]
    exact not_mem_slashed path
  · exact slashed_eq

theorem isAbsolute_slashed {p : Path} (h : p.isAbsolute = true) :
    isAbsolute ⟨p.slashed⟩ = true := by
  unfold isAbsolute at h ⊢
  cases hs : p.text.toList with
  | nil => simp [hs] at h
  | cons c cs =>
    obtain rfl : c = '/' := by simpa [hs] using h
    simp [slashed, Text.replaceAll, hs]

end Path

end TypeOnly
