import TypeOnly.Disk
import TypeOnly.Proofs.NormalPaths

/-!
Where a path leads by its text alone. Read from left to right, a path comes down to a number of
steps above its start and the names that it goes down from there. Its normal form has the same
names, but of the steps up only an odd one is left, since the second one takes the first one back.
-/

namespace TypeOnly

set_option autoImplicit false

namespace Path

/-- Where a part leads from a place. The top folder is above itself. -/
def advance (place : Location) : Part → Location
  | .root => []
  | .here => place
  | .up => place.dropLast
  | .name s => place ++ [s]

def destination (p : Path) (place : Location) : Location := p.parts.foldl advance place

/-- What a path comes down to: steps above its start, and names from there. -/
structure Route where
  above : Nat
  names : List String
deriving DecidableEq

namespace Route

def start : Route := ⟨0, []⟩

/-- A route with one more part. A step up takes the last name back, where there is one. -/
def step (r : Route) : Part → Route
  | .root => start
  | .here => r
  | .up => if r.names = [] then ⟨r.above + 1, []⟩ else ⟨r.above, r.names.dropLast⟩
  | .name s => ⟨r.above, r.names ++ [s]⟩

def lead (r : Route) (place : Location) : Location :=
  place.take (place.length - r.above) ++ r.names

/-- The parts of a route in normal form. -/
def normal (r : Route) : List Part :=
  (if r.above % 2 = 1 then [.up] else []) ++ r.names.map .name

end Route

def routeOf (parts : List Part) : Route := parts.foldl Route.step .start

def route (p : Path) : Route := routeOf p.parts

namespace Route

variable {r : Route} {place : Location} {part : Part} {parts : List Part}

theorem step_up_of_nil (h : r.names = []) : r.step .up = ⟨r.above + 1, []⟩ := by
  rw [step, if_pos h]

theorem step_up_of_concat {init : List String} {s : String} (h : r.names = init ++ [s]) :
    r.step .up = ⟨r.above, init⟩ := by
  rw [step, if_neg (by simp [h]), h, List.dropLast_concat]

theorem lead_step (h : part ≠ .root) : (r.step part).lead place = advance (r.lead place) part := by
  cases part with
  | root => exact False.elim (h rfl)
  | here => rfl
  | name s => exact (List.append_assoc _ _ _).symm
  | up =>
    rcases List.eq_nil_or_concat r.names with hnil | ⟨init, s, hconcat⟩
    · rw [step_up_of_nil hnil, lead, lead, hnil, advance, List.append_nil, List.append_nil,
        List.dropLast_eq_take, List.take_take, List.length_take]
      dsimp only
      congr 1
      omega
    · rw [List.concat_eq_append] at hconcat
      rw [step_up_of_concat hconcat, lead, lead, hconcat, advance, ← List.append_assoc,
        List.dropLast_concat]

/-- A route leads to where its parts lead one after another. -/
theorem lead_foldl (r : Route) (place : Location) (h : .root ∉ parts) :
    (parts.foldl step r).lead place = parts.foldl advance (r.lead place) := by
  induction parts generalizing r with
  | nil => rfl
  | cons part rest ih =>
    obtain ⟨hpart, hrest⟩ := not_or.mp (List.mem_cons.not.mp h)
    rw [List.foldl_cons, List.foldl_cons, ih _ hrest, lead_step (Ne.symm hpart)]

theorem lead_start : start.lead place = place := by
  simp [start, lead]

/-- One route after another: what the second one steps up, it takes back of the first one. -/
def after (r s : Route) : Route := ⟨r.above + (s.above - r.names.length), s.lead r.names⟩

theorem step_after {s : Route} (h : part ≠ .root) :
    (r.after s).step part = r.after (s.step part) := by
  cases part with
  | root => exact False.elim (h rfl)
  | here => rfl
  | name x => simp [after, step, lead]
  | up =>
    have hlead : (s.step .up).lead r.names = (s.lead r.names).dropLast := lead_step (by simp)
    have hnil : s.lead r.names = [] ↔ r.names.length ≤ s.above ∧ s.names = [] := by
      rw [lead, List.append_eq_nil_iff, List.take_eq_nil_iff, Nat.sub_eq_zero_iff_le]
      constructor
      · rintro ⟨hle | hnone, hnames⟩
        · exact ⟨hle, hnames⟩
        · simp [hnone, hnames]
      · exact fun h => ⟨Or.inl h.1, h.2⟩
    have habove : (s.step .up).above = if s.names = [] then s.above + 1 else s.above := by
      rw [step]
      split <;> rfl
    rw [after, after, hlead, habove, step]
    dsimp only
    by_cases hempty : s.lead r.names = []
    · -- nothing is left that could be taken back
      obtain ⟨hle, hnames⟩ := hnil.mp hempty
      rw [if_pos hempty, if_pos hnames, hempty, mk.injEq]
      exact ⟨by omega, rfl⟩
    · have hsome : ¬ (r.names.length ≤ s.above ∧ s.names = []) := mt hnil.mpr hempty
      rw [if_neg hempty, mk.injEq]
      refine ⟨?_, rfl⟩
      split
      · rename_i hnames
        have hlt : ¬ r.names.length ≤ s.above := fun hle => hsome ⟨hle, hnames⟩
        omega
      · rfl

theorem foldl_step (h : .root ∉ parts) : parts.foldl step r = r.after (routeOf parts) := by
  have hafter (s : Route) : parts.foldl step (r.after s) = r.after (parts.foldl step s) := by
    induction parts generalizing s with
    | nil => rfl
    | cons part rest ih =>
      obtain ⟨hpart, hrest⟩ := not_or.mp (List.mem_cons.not.mp h)
      rw [List.foldl_cons, List.foldl_cons, step_after (Ne.symm hpart), ih hrest]
  have hstart : r.after start = r := by
    rw [after, lead_start]
    simp [start]
  rw [routeOf, ← hafter, hstart]

theorem above_le_foldl (r : Route) (h : .root ∉ parts) : r.above ≤ (parts.foldl step r).above := by
  rw [foldl_step h]
  exact Nat.le_add_right _ _

theorem foldl_fold_from (r : Route) (acc : List Part) (hroot : .root ∉ parts)
    (h : (parts.foldl step r).above = 0) :
    parts.foldl fold ((r.names.map Part.name).reverse ++ acc) =
      ((parts.foldl step r).names.map Part.name).reverse ++ acc := by
  induction parts generalizing r with
  | nil => rfl
  | cons part rest ih =>
    obtain ⟨hpart, hrest⟩ := not_or.mp (List.mem_cons.not.mp hroot)
    have hstep : fold ((r.names.map Part.name).reverse ++ acc) part =
        ((r.step part).names.map Part.name).reverse ++ acc := by
      cases part with
      | root => exact False.elim (hpart rfl)
      | here => rfl
      | name s => simp [step, fold]
      | up =>
        rcases List.eq_nil_or_concat r.names with hnil | ⟨init, s, hconcat⟩
        · -- this step would lead above the start
          have habove := above_le_foldl (r.step .up) hrest
          rw [List.foldl_cons] at h
          rw [h, step_up_of_nil hnil] at habove
          exact absurd habove (Nat.not_succ_le_zero _)
        · rw [List.concat_eq_append] at hconcat
          rw [step_up_of_concat hconcat, hconcat]
          simp [fold]
    rw [List.foldl_cons, List.foldl_cons, hstep]
    exact ih (r.step part) hrest h

/-- Parts that do not lead above their start leave what is before them as it is. -/
theorem foldl_fold (acc : List Part) (hroot : .root ∉ parts) (h : (routeOf parts).above = 0) :
    parts.foldl fold acc = ((routeOf parts).names.map Part.name).reverse ++ acc :=
  foldl_fold_from .start acc hroot h

/-- What normal forms do with one more part, below a top folder or without one. -/
theorem fold_normal {top : List Part} (htop : top = [] ∨ top = [.root]) (h : part ≠ .root) :
    fold (r.normal.reverse ++ top) part = (r.step part).normal.reverse ++ top := by
  cases part with
  | root => exact False.elim (h rfl)
  | here => rfl
  | name s =>
    have hlast : (r.step (.name s)).normal = r.normal ++ [.name s] := by
      rw [normal, normal, step, List.map_append]
      exact (List.append_assoc _ _ _).symm
    rw [hlast, List.reverse_concat]
    rfl
  | up =>
    rcases List.eq_nil_or_concat r.names with hnil | ⟨init, s, hconcat⟩
    · -- a step above the start, which the one before it takes back
      rw [step_up_of_nil hnil, normal, normal, hnil]
      rcases Nat.mod_two_eq_zero_or_one r.above with heven | hodd
      · have hnext : (r.above + 1) % 2 = 1 := by omega
        rcases htop with rfl | rfl
        · simp [heven, hnext, fold]
        · simp [heven, hnext, fold]
      · have hnext : (r.above + 1) % 2 = 0 := by omega
        simp [hodd, hnext, fold]
    · rw [List.concat_eq_append] at hconcat
      rw [step_up_of_concat hconcat]
      simp [normal, hconcat, fold]

theorem foldl_normal (r : Route) {top : List Part} (htop : top = [] ∨ top = [.root])
    (h : .root ∉ parts) :
    parts.foldl fold (r.normal.reverse ++ top) = (parts.foldl step r).normal.reverse ++ top := by
  induction parts generalizing r with
  | nil => rfl
  | cons part rest ih =>
    obtain ⟨hpart, hrest⟩ := not_or.mp (List.mem_cons.not.mp h)
    rw [List.foldl_cons, List.foldl_cons, fold_normal htop (Ne.symm hpart), ih _ hrest]

end Route

/-! ### Absolute and relative paths -/

variable {p q base : Path}

theorem normalize_parts_eq (p : Path) :
    p.normalize.parts = (if p.isAbsolute then [.root] else []) ++ p.route.normal := by
  rw [parts_normalize, normalParts, route, routeOf]
  cases h : p.isAbsolute with
  | true =>
    rw [parts_of_isAbsolute h, List.foldl_cons, List.foldl_cons]
    have hfold := Route.foldl_normal .start (Or.inr rfl) (root_not_mem_segments p)
    change (List.foldl fold [.root] _).reverse = _
    rw [← List.nil_append [Part.root]]
    exact (congrArg List.reverse hfold).trans (by simp [Route.step])
  | false =>
    have hfold := Route.foldl_normal .start (Or.inl rfl) (root_not_mem_parts h)
    rw [List.append_nil, List.append_nil] at hfold
    exact (congrArg List.reverse hfold).trans (by simp)

/-- What a relative path goes through before its last stretch does not lead above its start. -/
def StaysBelow (p : Path) : Prop :=
  p.isAbsolute = false ∧ (routeOf (p.segments.dropLast.filterMap Part.ofSegment?)).above = 0

instance (p : Path) : Decidable p.StaysBelow := inferInstanceAs (Decidable (_ ∧ _))

/-- A file is inside a folder if it is there in normal form. -/
def Inside (f folder : Path) : Prop :=
  ∃ names, names ≠ [] ∧ f.normalize.parts = folder.normalize.parts ++ names.map .name

theorem inside_of_parts {f folder : Path} {between : List Part} {name : String}
    (hroot : .root ∉ between) (hbelow : (routeOf between).above = 0)
    (hf : f.parts = folder.parts ++ between ++ [.name name]) : f.Inside folder := by
  refine ⟨(routeOf between).names ++ [name], by simp, ?_⟩
  rw [parts_normalize, parts_normalize, hf, normalParts, normalParts, List.foldl_append,
    List.foldl_append, Route.foldl_fold _ hroot hbelow]
  simp [fold]

theorem destination_of_isAbsolute (h : p.isAbsolute = true) (place : Location) :
    p.destination place = p.route.names := by
  rw [destination, route, routeOf, parts_of_isAbsolute h, List.foldl_cons, List.foldl_cons]
  have hlead := Route.lead_foldl .start [] (root_not_mem_segments p)
  rw [Route.lead_start] at hlead
  exact hlead.symm.trans (by simp [Route.lead, Route.step])

theorem destination_of_relative (h : p.isAbsolute = false) (place : Location) :
    p.destination place = p.route.lead place := by
  have hlead := Route.lead_foldl .start place (root_not_mem_parts h)
  rw [Route.lead_start] at hlead
  exact hlead.symm

/-- What is left of a route in normal form is a route with the same names. -/
theorem route_normalize (p : Path) : p.normalize.route = ⟨p.route.above % 2, p.route.names⟩ := by
  have hnames (r : Route) (names : List String) :
      (names.map Part.name).foldl Route.step r = ⟨r.above, r.names ++ names⟩ := by
    induction names generalizing r with
    | nil => simp
    | cons s rest ih => rw [List.map_cons, List.foldl_cons, ih]; simp [Route.step]
  have hnormal : routeOf p.route.normal = ⟨p.route.above % 2, p.route.names⟩ := by
    rw [routeOf, Route.normal, List.foldl_append, hnames]
    rcases Nat.mod_two_eq_zero_or_one p.route.above with heven | hodd
    · simp [heven, Route.start]
    · simp [hodd, Route.start, Route.step]
  rw [route, normalize_parts_eq, ← hnormal]
  cases p.isAbsolute <;> rfl

/-- Two routes with the same names that lead to the same place from everywhere. -/
theorem Route.above_eq {a b : Nat} {names : List String}
    (h : ∀ place : Location, (∀ s ∈ place, Named s) →
      (⟨a, names⟩ : Route).lead place = (⟨b, names⟩ : Route).lead place) : a = b := by
  -- a place that is deep enough for both of them
  have hdeep := h (List.replicate (a + b) "a") fun s hs => List.eq_of_mem_replicate hs ▸ .letter
  have hlength := congrArg List.length (List.append_cancel_right hdeep)
  simp only [List.length_take, List.length_replicate] at hlength
  omega

/-- A relative path leads to the same place in normal form as long as it goes no further than one
step above its start. -/
theorem destination_normalize_iff (h : p.isAbsolute = false) :
    (∀ place : Location, (∀ s ∈ place, Named s) →
      p.normalize.destination place = p.destination place) ↔ p.route.above ≤ 1 := by
  have hlead (place : Location) : p.normalize.destination place = p.destination place ↔
      (⟨p.route.above % 2, p.route.names⟩ : Route).lead place = p.route.lead place := by
    rw [destination_of_relative h, destination_of_relative ((isAbsolute_of_normalize p).trans h),
      route_normalize]
  simp only [hlead]
  constructor
  · intro hsame
    have habove : p.route.above % 2 = p.route.above := Route.above_eq hsame
    omega
  · intro habove place _
    rw [Nat.mod_eq_of_lt (by omega)]

theorem normalize_eq_iff (hp : p.isAbsolute = true) (hq : q.isAbsolute = true) :
    p.normalize = q.normalize ↔
      p.route.names = q.route.names ∧ p.route.above % 2 = q.route.above % 2 := by
  constructor
  · intro h
    have hroute := congrArg route h
    rw [route_normalize, route_normalize, Route.mk.injEq] at hroute
    exact hroute.symm
  · rintro ⟨hnames, habove⟩
    apply IsNormal.eq_of_parts ⟨p, rfl⟩ ⟨q, rfl⟩
    rw [normalize_parts_eq, normalize_parts_eq, hp, hq, Route.normal, Route.normal, hnames, habove]

theorem up_mem_normalize_iff (p : Path) : .up ∈ p.normalize.parts ↔ p.route.above % 2 = 1 := by
  rw [normalize_parts_eq, Route.normal]
  cases p.isAbsolute with
  | true => simp
  | false => simp

/-! ### Paths seen from a folder -/

theorem routeOf_segments (h : p.isAbsolute = false) :
    routeOf (p.segments.filterMap Part.ofSegment?) = p.route := by
  rw [route, parts, h, if_neg (by simp)]
  split <;> rfl

theorem route_join (h : base.isAbsolute = true) (hp : p.isAbsolute = false) :
    (base.join p).route = base.route.after p.route := by
  rw [route, parts_join h hp, routeOf, List.foldl_append,
    Route.foldl_step (root_not_mem_segments p), routeOf_segments hp]
  rfl

theorem up_mem_locate_iff (h : base.isAbsolute = true) :
    .up ∈ (base.locate p).parts ↔ (if p.isAbsolute then p.route.above
      else base.route.above + (p.route.above - base.route.names.length)) % 2 = 1 := by
  rw [locate, up_mem_normalize_iff]
  cases hp : p.isAbsolute with
  | true => rw [join, if_pos hp, if_pos rfl]
  | false => rw [route_join h hp, if_neg (by simp), Route.after]

/-- The place that a normal form leads to, and what it is made of. It leads to where the path leads,
unless that is relative and goes further than one step above its start. Its only step up is the
first part or follows the top folder, and is there if the path goes an odd number of steps above its
start. Absolute paths with one destination have one normal form, up to that step. -/
theorem normalize_destination (p q base : Path) :
    (p.isAbsolute = true → ∀ place, p.normalize.destination place = p.destination place) ∧
    (p.isAbsolute = false → ((∀ place : Location, (∀ s ∈ place, Named s) →
      p.normalize.destination place = p.destination place) ↔ p.route.above ≤ 1)) ∧
    p.normalize.parts = (if p.isAbsolute then [.root] else []) ++
      (if p.route.above % 2 = 1 then [.up] else []) ++ p.route.names.map .name ∧
    (p.isAbsolute = true → q.isAbsolute = true → (p.normalize = q.normalize ↔
      (∀ place, p.destination place = q.destination place) ∧
        p.route.above % 2 = q.route.above % 2)) ∧
    (base.isAbsolute = true → (.up ∈ (base.locate p).parts ↔ (if p.isAbsolute then p.route.above
      else base.route.above + (p.route.above - base.route.names.length)) % 2 = 1)) := by
  refine ⟨?_, destination_normalize_iff, ?_, ?_, up_mem_locate_iff⟩
  · intro h place
    rw [destination_of_isAbsolute (isAbsolute_normalize h), destination_of_isAbsolute h,
      route_normalize]
  · rw [normalize_parts_eq, Route.normal, List.append_assoc]
  · intro hp hq
    rw [normalize_eq_iff hp hq]
    simp only [destination_of_isAbsolute hp, destination_of_isAbsolute hq, forall_const]

theorem normalize_destination_detour :
    (∀ place, (normalize ⟨"/a/../../b"⟩).destination place = destination ⟨"/a/../../b"⟩ place) ∧
    (∀ place : Location, (∀ s ∈ place, Named s) →
      (normalize ⟨"a/../../b"⟩).destination place = destination ⟨"a/../../b"⟩ place) ∧
    normalize ⟨"/a/../../b"⟩ = normalize ⟨"/.././b"⟩ ∧
    .up ∉ (locate ⟨"/x"⟩ ⟨"a/../../b"⟩).parts := by
  obtain ⟨hsame, _, _, heq, _⟩ := normalize_destination ⟨"/a/../../b"⟩ ⟨"/.././b"⟩ ⟨"/x"⟩
  obtain ⟨_, hrelative, _, _, hup⟩ := normalize_destination ⟨"a/../../b"⟩ ⟨"/"⟩ ⟨"/x"⟩
  refine ⟨hsame (by decide), (hrelative (by decide)).mpr (by decide),
    (heq (by decide) (by decide)).mpr ⟨fun place => ?_, by decide⟩, ?_⟩
  · rw [destination_of_isAbsolute (by decide), destination_of_isAbsolute (by decide)]
    decide
  · rw [hup (by decide)]
    decide

/-- Two steps up are lost, and a step up from the top folder is kept although it leads nowhere. -/
theorem normalize_loses_steps :
    (normalize ⟨"../../b"⟩).destination ["x", "y"] = ["x", "y", "b"] ∧
    destination ⟨"../../b"⟩ ["x", "y"] = ["b"] ∧
    (∀ place, destination ⟨"/../b"⟩ place = destination ⟨"/b"⟩ place) ∧
    normalize ⟨"/../b"⟩ ≠ normalize ⟨"/b"⟩ ∧ .up ∈ (locate ⟨"/"⟩ ⟨".."⟩).parts := by
  refine ⟨by decide, by decide, fun place => ?_, by decide, by decide⟩
  rw [destination_of_isAbsolute (by decide), destination_of_isAbsolute (by decide)]
  decide

end Path

end TypeOnly
