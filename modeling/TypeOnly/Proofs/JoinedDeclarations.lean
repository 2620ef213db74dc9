import TypeOnly.Proofs.ConfigStatements

/-!
What the declarations of a module make of its names together. Whatever the order of the items of a
module, each of its names can be used for all that one of its declarations makes of it, and each of
its namespaces has the members of all its parts.
-/

namespace TypeOnly.Source

set_option autoImplicit false

/-! ### Namespaces at run time -/

/-- A declaration that is there at run time by itself. -/
def Declaration.Lasts : Declaration → Prop
  | .interfaceDecl _ | .typeAlias _ | .namespaceDecl _ _ _ => False
  | _ => True

/-- An item that is there at run time by itself. -/
def Item.Lasts : Item → Prop
  | .declaration d | .exportDecl d => d.Lasts
  | .importDecl _ _ typeOnly | .exportList _ _ typeOnly => typeOnly = false
  | _ => True

/-- An item stands in the body of a namespace, at whatever depth. -/
inductive NamespaceBody.Holds : NamespaceBody → Item → Prop where
  | nested (name : String) {body : NamespaceBody} {i : Item} (h : Holds body i) :
      Holds (.nested name body) i
  | here {items : List Item} {i : Item} (hi : i ∈ items) : Holds (.block items) i
  | inner {items : List Item} {what : NamespaceName} {declared : Bool} {body : NamespaceBody}
      {i : Item} (hd : .declaration (.namespaceDecl what declared body) ∈ items ∨
        .exportDecl (.namespaceDecl what declared body) ∈ items) (h : Holds body i) :
      Holds (.block items) i

/-- What the name of a namespace can be used for: always as a type, and as a value if something in
it is there at run time. -/
inductive NamespaceBody.Means : NamespaceBody → Meaning → Prop where
  | both {body : NamespaceBody} {i : Item} (hi : body.Holds i) (h : i.Lasts) : Means body .both
  | asType {body : NamespaceBody} (h : ∀ i, body.Holds i → ¬ i.Lasts) : Means body .asType

theorem NamespaceBody.anyInstantiated_iff {items : List Item} :
    anyInstantiated items = true ↔ ∃ i ∈ items, i.isInstantiated = true := by
  induction items with
  | nil => simp [anyInstantiated]
  | cons i rest ih => simp [anyInstantiated, ih]

theorem Item.Lasts.isInstantiated {i : Item} (h : i.Lasts) : i.isInstantiated = true := by
  cases i with
  | declaration d | exportDecl d =>
    cases d with
    | interfaceDecl | typeAlias | namespaceDecl => cases h
    | classDecl | functionDecl | variableDecl | enumDecl | resource => rfl
  | importDecl | exportList =>
    cases h
    rfl
  | statement | directive | exportAll | exportDefault | importAlias | exportAssign
  | exportGlobal => rfl

theorem Item.isInstantiated_cases {i : Item} (h : i.isInstantiated = true) :
    i.Lasts ∨ ∃ what declared body, body.isInstantiated = true ∧
      (i = .declaration (.namespaceDecl what declared body) ∨
        i = .exportDecl (.namespaceDecl what declared body)) := by
  cases i with
  | declaration d | exportDecl d =>
    cases d with
    | interfaceDecl | typeAlias => cases h
    | namespaceDecl what declared body => exact Or.inr ⟨what, declared, body, h, by simp⟩
    | classDecl | functionDecl | variableDecl | enumDecl | resource => exact Or.inl trivial
  | importDecl clauses source typeOnly | exportList clauses source typeOnly =>
    cases typeOnly with
    | false => exact Or.inl rfl
    | true => cases h
  | statement | directive | exportAll | exportDefault | importAlias | exportAssign
  | exportGlobal => exact Or.inl trivial

theorem NamespaceBody.Holds.isInstantiated {body : NamespaceBody} {i : Item} (h : body.Holds i)
    (hi : i.Lasts) : body.isInstantiated = true := by
  induction h with
  | nested name _ ih => exact ih hi
  | here hmem => exact anyInstantiated_iff.mpr ⟨_, hmem, hi.isInstantiated⟩
  | inner hd _ ih =>
    rcases hd with hd | hd
    · exact anyInstantiated_iff.mpr ⟨_, hd, ih hi⟩
    · exact anyInstantiated_iff.mpr ⟨_, hd, ih hi⟩

theorem NamespaceBody.holds_of_isInstantiated (body : NamespaceBody)
    (h : body.isInstantiated = true) : ∃ i, body.Holds i ∧ i.Lasts := by
  cases body with
  | absent => cases h
  | nested name body =>
    obtain ⟨i, hi, hlasts⟩ := holds_of_isInstantiated body h
    exact ⟨i, .nested name hi, hlasts⟩
  | block items =>
    obtain ⟨i, hmem, hi⟩ := anyInstantiated_iff.mp h
    have hless := List.sizeOf_lt_of_mem hmem
    rcases Item.isInstantiated_cases hi with hlasts | ⟨what, declared, body, hbody, hopens⟩
    · exact ⟨i, .here hmem, hlasts⟩
    · rcases hopens with rfl | rfl
      · obtain ⟨j, hj, hlasts⟩ := holds_of_isInstantiated body hbody
        exact ⟨j, .inner (Or.inl hmem) hj, hlasts⟩
      · obtain ⟨j, hj, hlasts⟩ := holds_of_isInstantiated body hbody
        exact ⟨j, .inner (Or.inr hmem) hj, hlasts⟩
termination_by sizeOf body
decreasing_by
  · subst_vars
    simp only [NamespaceBody.nested.sizeOf_spec]
    omega
  all_goals
    subst_vars
    simp only [Item.declaration.sizeOf_spec, Item.exportDecl.sizeOf_spec,
      Declaration.namespaceDecl.sizeOf_spec, NamespaceBody.block.sizeOf_spec] at hless ⊢
    omega

theorem NamespaceBody.means_iff {body : NamespaceBody} {m : Meaning} :
    body.Means m ↔ m = body.meaning := by
  unfold meaning
  constructor
  · intro h
    cases h with
    | both hi hlasts => rw [if_pos (hi.isInstantiated hlasts)]
    | asType hno =>
      rw [if_neg]
      intro hinst
      obtain ⟨i, hi, hlasts⟩ := body.holds_of_isInstantiated hinst
      exact hno i hi hlasts
  · rintro rfl
    split
    · rename_i hinst
      obtain ⟨i, hi, hlasts⟩ := body.holds_of_isInstantiated hinst
      exact .both hi hlasts
    · rename_i hinst
      exact .asType fun i hi hlasts => hinst (hi.isInstantiated hlasts)

/-! ### What binds a name -/

/-- A pattern binds every name in it, however deep. -/
inductive Binding.Binds : Binding → String → Prop where
  | name (id : String) : Binds (.name id) id
  | part {parts : List Binding} {b : Binding} {id : String} (hb : b ∈ parts) (h : Binds b id) :
      Binds (.group parts) id

/-- A declaration binds a name, and what it makes of it. -/
inductive Declaration.Binds : Declaration → String → Meaning → Prop where
  | classDecl (name : String) : Binds (.classDecl name) name .both
  | functionDecl (name : String) : Binds (.functionDecl name) name .asValue
  | variableDecl {bound : List Binding} {b : Binding} {name : String} (hb : b ∈ bound)
      (h : b.Binds name) : Binds (.variableDecl bound) name .asValue
  | interfaceDecl (name : String) : Binds (.interfaceDecl name) name .asType
  | typeAlias (name : String) : Binds (.typeAlias name) name .asType
  | enumDecl (name : String) : Binds (.enumDecl name) name .both
  | namespaceDecl (name : String) (declared : Bool) {body : NamespaceBody} {m : Meaning}
      (h : body.Means m) : Binds (.namespaceDecl (.ident name) declared body) name m

/-- An item binds a name in its module, and what it makes of it. -/
inductive Item.Binds : Item → String → Meaning → Prop where
  | plain {d : Declaration} {name : String} {m : Meaning} (h : d.Binds name m) :
      Binds (.declaration d) name m
  | exported {d : Declaration} {name : String} {m : Meaning} (h : d.Binds name m) :
      Binds (.exportDecl d) name m
  | defaultClass (name : String) : Binds (.exportDefault (.classDecl (some name))) name .both
  | defaultFunction (name : String) :
      Binds (.exportDefault (.functionDecl (some name))) name .asValue
  | defaultInterface (name : String) : Binds (.exportDefault (.interfaceDecl name)) name .asType
  | importAlias (name : String) (exported : Bool) :
      Binds (.importAlias name exported false) name .both
  | importTypeAlias (name : String) (exported : Bool) :
      Binds (.importAlias name exported true) name .asType

/-- An item is a part of a namespace. -/
inductive Item.Opens : Item → String → Bool → NamespaceBody → Prop where
  | plain (name : String) (declared : Bool) (body : NamespaceBody) :
      Opens (.declaration (.namespaceDecl (.ident name) declared body)) name declared body
  | exported (name : String) (declared : Bool) (body : NamespaceBody) :
      Opens (.exportDecl (.namespaceDecl (.ident name) declared body)) name declared body

/-- The body of a namespace exports a name, and what it makes of it. -/
inductive NamespaceBody.Exports (ambient : Bool) : NamespaceBody → String → Meaning → Prop where
  | nested (name : String) {body : NamespaceBody} {m : Meaning} (h : body.Means m) :
      Exports ambient (.nested name body) name m
  | exported {items : List Item} {d : Declaration} {name : String} {m : Meaning}
      (hd : .exportDecl d ∈ items) (h : d.Binds name m) : Exports ambient (.block items) name m
  | ambient {items : List Item} {d : Declaration} {name : String} {m : Meaning}
      (hambient : ambient = true) (hd : .declaration d ∈ items) (h : d.Binds name m) :
      Exports ambient (.block items) name m

theorem Binding.mem_namesOfAll {bs : List Binding} {id : String} :
    id ∈ namesOfAll bs ↔ ∃ b ∈ bs, id ∈ b.names := by
  induction bs with
  | nil => simp [namesOfAll]
  | cons b rest ih => simp [namesOfAll, ih]

theorem Binding.Binds.mem_names {b : Binding} {id : String} (h : b.Binds id) : id ∈ b.names := by
  induction h with
  | name id => simp [names]
  | part hb _ ih =>
    rw [names]
    exact mem_namesOfAll.mpr ⟨_, hb, ih⟩

theorem Binding.binds_of_mem_names (b : Binding) (id : String) (h : id ∈ b.names) : b.Binds id := by
  cases b with
  | name id' =>
    rw [names] at h
    obtain rfl := List.mem_singleton.mp h
    exact .name id
  | group parts =>
    rw [names] at h
    obtain ⟨b, hb, hid⟩ := mem_namesOfAll.mp h
    have hless := List.sizeOf_lt_of_mem hb
    exact .part hb (binds_of_mem_names b id hid)
termination_by sizeOf b
decreasing_by
  subst_vars
  simp only [Binding.group.sizeOf_spec]
  omega

theorem Declaration.mem_bound_iff {d : Declaration} {name : String} {m : Meaning} :
    (name, m) ∈ d.bound ↔ d.Binds name m := by
  constructor
  · intro h
    cases d with
    | classDecl | functionDecl | interfaceDecl | typeAlias | enumDecl =>
      obtain ⟨rfl, rfl⟩ := Prod.mk.inj (List.mem_singleton.mp h)
      constructor
    | variableDecl bound =>
      obtain ⟨id, hid, he⟩ := List.mem_map.mp h
      obtain ⟨rfl, rfl⟩ := Prod.mk.inj he
      obtain ⟨b, hb, hname⟩ := Binding.mem_namesOfAll.mp hid
      exact .variableDecl hb (b.binds_of_mem_names id hname)
    | namespaceDecl what declared body =>
      cases what with
      | ident name' =>
        obtain ⟨rfl, hm⟩ := Prod.mk.inj (List.mem_singleton.mp h)
        exact .namespaceDecl name declared (NamespaceBody.means_iff.mpr hm)
      | text | global => cases h
    | resource => cases h
  · intro h
    cases h with
    | variableDecl hb h =>
      exact List.mem_map.mpr ⟨name, Binding.mem_namesOfAll.mpr ⟨_, hb, h.mem_names⟩, rfl⟩
    | namespaceDecl _ _ h =>
      obtain rfl := NamespaceBody.means_iff.mp h
      exact List.mem_singleton_self _
    | classDecl | functionDecl | interfaceDecl | typeAlias | enumDecl =>
      exact List.mem_singleton_self _

theorem Item.mem_declared_iff {i : Item} {name : String} {m : Meaning} :
    (name, m) ∈ i.declared ↔ i.Binds name m := by
  constructor
  · intro h
    cases i with
    | declaration d => exact .plain (Declaration.mem_bound_iff.mp h)
    | exportDecl d => exact .exported (Declaration.mem_bound_iff.mp h)
    | exportDefault what =>
      cases what with
      | classDecl name' | functionDecl name' =>
        cases name' with
        | none => cases h
        | some name' =>
          obtain ⟨rfl, rfl⟩ := Prod.mk.inj (List.mem_singleton.mp h)
          constructor
      | interfaceDecl name' =>
        obtain ⟨rfl, rfl⟩ := Prod.mk.inj (List.mem_singleton.mp h)
        constructor
      | reference | expression => cases h
    | importAlias name' exported typeOnly =>
      obtain ⟨rfl, rfl⟩ := Prod.mk.inj (List.mem_singleton.mp h)
      cases typeOnly
      · exact .importAlias name exported
      · exact .importTypeAlias name exported
    | statement | directive | importDecl | exportList | exportAll | exportAssign | exportGlobal =>
      cases h
  · intro h
    cases h with
    | plain h | exported h => exact Declaration.mem_bound_iff.mpr h
    | defaultClass | defaultFunction | defaultInterface | importAlias | importTypeAlias =>
      exact List.mem_singleton_self _

theorem NamespaceBody.mem_members_iff {ambient : Bool} {body : NamespaceBody} {name : String}
    {m : Meaning} : (name, m) ∈ body.members ambient ↔ body.Exports ambient name m := by
  cases body with
  | absent =>
    constructor
    · intro h
      cases h
    · intro h
      cases h
  | nested name' body =>
    constructor
    · intro h
      obtain ⟨rfl, hm⟩ := Prod.mk.inj (List.mem_singleton.mp h)
      exact .nested name (means_iff.mpr hm)
    · intro h
      cases h with
      | nested _ h =>
        obtain rfl := means_iff.mp h
        exact List.mem_singleton_self _
  | block items =>
    rw [members, List.mem_flatMap]
    constructor
    · rintro ⟨i, hi, h⟩
      cases i with
      | exportDecl d => exact .exported hi (Declaration.mem_bound_iff.mp h)
      | declaration d =>
        cases ambient with
        | false => cases h
        | true => exact .ambient rfl hi (Declaration.mem_bound_iff.mp h)
      | statement | directive | importDecl | exportList | exportAll | exportDefault | importAlias
      | exportAssign | exportGlobal => cases h
    · intro h
      cases h with
      | exported hd h => exact ⟨_, hd, Declaration.mem_bound_iff.mpr h⟩
      | ambient hambient hd h =>
        subst hambient
        exact ⟨_, hd, Declaration.mem_bound_iff.mpr h⟩

theorem Item.mem_namespaceParts_iff {ambient : Bool} {i : Item} {name : String}
    {l : List (String × Meaning)} : (name, l) ∈ i.namespaceParts ambient ↔
      ∃ declared body, i.Opens name declared body ∧ l = body.members (ambient || declared) := by
  constructor
  · intro h
    cases i with
    | declaration d | exportDecl d =>
      cases d with
      | namespaceDecl what declared body =>
        cases what with
        | ident name' =>
          obtain ⟨rfl, rfl⟩ := Prod.mk.inj (List.mem_singleton.mp h)
          exact ⟨declared, body, by constructor, rfl⟩
        | text | global => cases h
      | classDecl | functionDecl | variableDecl | interfaceDecl | typeAlias | enumDecl | resource =>
        cases h
    | statement | directive | importDecl | exportList | exportAll | exportDefault | importAlias
    | exportAssign | exportGlobal => cases h
  · rintro ⟨declared, body, h, rfl⟩
    cases h with
    | plain | exported => exact List.mem_singleton_self _

/-! ### What several declarations make of a name -/

/-- What a name can be used for, if `P` holds of what each of its declarations makes of it. -/
inductive Meaning.Joins (P : Meaning → Prop) : Option Meaning → Prop where
  | unbound (h : ∀ m, ¬ P m) : Joins P Option.none
  | bound {u : Meaning} (hbound : ∃ m, P m) (hvalue : u.value = true ↔ ∃ m, P m ∧ m.value = true)
      (htype : u.type = true ↔ ∃ m, P m ∧ m.type = true) : Joins P (some u)

theorem Meaning.Joins.unique {P : Meaning → Prop} {a b : Option Meaning} (ha : Joins P a)
    (hb : Joins P b) : a = b := by
  cases ha with
  | unbound hnone =>
    cases hb with
    | unbound => rfl
    | bound hbound =>
      obtain ⟨m, hm⟩ := hbound
      exact (hnone m hm).elim
  | @bound u hbound hvalue htype =>
    cases hb with
    | unbound hnone =>
      obtain ⟨m, hm⟩ := hbound
      exact (hnone m hm).elim
    | @bound v _ hvalue' htype' =>
      have hsame : u.value = v.value ∧ u.type = v.type :=
        ⟨Bool.eq_iff_iff.mpr (hvalue.trans hvalue'.symm),
          Bool.eq_iff_iff.mpr (htype.trans htype'.symm)⟩
      cases u
      cases v
      obtain ⟨rfl, rfl⟩ := hsame
      rfl

/-- One more declaration adds what it makes of the name. -/
theorem Meaning.Joins.add {P : Meaning → Prop} {a : Option Meaning} (h : Joins P a) (e : Meaning) :
    Joins (fun m => P m ∨ m = e) (some ((a.getD .none).union e)) := by
  refine .bound ⟨e, Or.inr rfl⟩ ?_ ?_
  all_goals cases h with
  | unbound hnone => simp [union, Meaning.none, hnone]
  | bound hbound hvalue htype => simp [union, hvalue, htype, or_and_right, exists_or]

/-! ### Maps of meanings -/

/-- A map in which each name has what its declarations make of it. -/
def Unites (binds : String → Meaning → Prop) (d : Dictionary Meaning) : Prop :=
  ∀ name, Meaning.Joins (binds name) (d.get? name)

namespace Unites

variable {binds : String → Meaning → Prop} {d : Dictionary Meaning}

theorem unique {d' : Dictionary Meaning} (h : Unites binds d) (h' : Unites binds d') : d = d' :=
  Dictionary.ext_get? fun name => (h name).unique (h' name)

theorem congr {binds' : String → Meaning → Prop} (h : Unites binds d)
    (hsame : ∀ name m, binds name m ↔ binds' name m) : Unites binds' d := by
  obtain rfl : binds = binds' := funext fun name => funext fun m => propext (hsame name m)
  exact h

theorem empty : Unites (fun _ _ => False) ∅ := fun _ => .unbound fun _ => id

theorem declareName (h : Unites binds d) (e : String × Meaning) :
    Unites (fun name m => binds name m ∨ (name, m) = e) (declareName d e) := by
  intro name
  obtain ⟨key, added⟩ := e
  rw [Source.declareName, Dictionary.get?_alter]
  by_cases hname : name = key
  · subst hname
    simpa using (h name).add added
  · simpa [hname] using h name

theorem declareAll (h : Unites binds d) (entries : List (String × Meaning)) :
    Unites (fun name m => binds name m ∨ (name, m) ∈ entries)
      (entries.foldl Source.declareName d) := by
  induction entries generalizing binds d with
  | nil => simpa using h
  | cons e entries ih =>
    have hall := ih (h.declareName e)
    simpa [or_assoc] using hall

end Unites

theorem unites_meaningsOf (entries : List (String × Meaning)) :
    Unites (fun name m => (name, m) ∈ entries) (meaningsOf entries) :=
  (Unites.empty.declareAll entries).congr fun _ _ => iff_of_eq (false_or _)

/-- A map in which each namespace has what its parts make of their members. -/
structure Gathers (parts : String → List (String × Meaning) → Prop)
    (d : Dictionary (Dictionary Meaning)) : Prop where
  absent : ∀ name, d.get? name = none → ∀ l, ¬ parts name l
  present : ∀ name members, d.get? name = some members → (∃ l, parts name l) ∧
    Unites (fun member m => ∃ l, parts name l ∧ (member, m) ∈ l) members

namespace Gathers

variable {parts : String → List (String × Meaning) → Prop} {d : Dictionary (Dictionary Meaning)}

theorem unique {d' : Dictionary (Dictionary Meaning)} (h : Gathers parts d)
    (h' : Gathers parts d') : d = d' := by
  apply Dictionary.ext_get?
  intro name
  cases hget : d.get? name with
  | none =>
    cases hget' : d'.get? name with
    | none => rfl
    | some members' =>
      obtain ⟨⟨l, hl⟩, _⟩ := h'.present name members' hget'
      exact (h.absent name hget l hl).elim
  | some members =>
    obtain ⟨⟨l, hl⟩, hunites⟩ := h.present name members hget
    cases hget' : d'.get? name with
    | none => exact (h'.absent name hget' l hl).elim
    | some members' => rw [hunites.unique (h'.present name members' hget').2]

theorem empty : Gathers (fun _ _ => False) ∅ where
  absent _ _ _ := id
  present _ _ h := by cases h

theorem congr {parts' : String → List (String × Meaning) → Prop} (h : Gathers parts d)
    (hsame : ∀ name l, parts name l ↔ parts' name l) : Gathers parts' d := by
  obtain rfl : parts = parts' := funext fun name => funext fun l => propext (hsame name l)
  exact h

/-- The members of a namespace before one more part of it is added. -/
theorem unites_getD (h : Gathers parts d) (name : String) :
    Unites (fun member m => ∃ l, parts name l ∧ (member, m) ∈ l) ((d.get? name).getD ∅) := by
  cases hget : d.get? name with
  | none =>
    apply Unites.empty.congr
    intro member m
    simp [h.absent name hget]
  | some members => exact (h.present name members hget).2

theorem addNamespace (h : Gathers parts d) (e : String × List (String × Meaning)) :
    Gathers (fun name l => parts name l ∨ (name, l) = e) (addNamespace d e) where
  absent name hnone := by
    rw [Source.addNamespace, Dictionary.get?_alter] at hnone
    split at hnone
    · cases hnone
    · rename_i hne
      rintro l (hl | rfl)
      · exact h.absent name hnone l hl
      · exact hne rfl
  present name members hget := by
    rw [Source.addNamespace, Dictionary.get?_alter] at hget
    split at hget
    · rename_i hname
      subst hname
      refine ⟨⟨e.2, Or.inr rfl⟩, ?_⟩
      obtain rfl := Option.some.inj hget
      apply ((h.unites_getD e.1).declareAll e.2).congr
      intro member m
      simp [or_and_right, exists_or, Prod.ext_iff]
    · rename_i hne
      obtain ⟨⟨l, hl⟩, hunites⟩ := h.present name members hget
      refine ⟨⟨l, Or.inl hl⟩, hunites.congr fun member m => ?_⟩
      have hother (l : List (String × Meaning)) : (name, l) ≠ e := fun he => hne (he ▸ rfl)
      simp [hother]

theorem addNamespaces (h : Gathers parts d) (entries : List (String × List (String × Meaning))) :
    Gathers (fun name l => parts name l ∨ (name, l) ∈ entries)
      (entries.foldl Source.addNamespace d) := by
  induction entries generalizing parts d with
  | nil => simpa using h
  | cons e entries ih =>
    apply (ih (h.addNamespace e)).congr
    simp [or_assoc]

end Gathers

/-! ### Modules -/

variable (length : Nat) (ambient implicit : Bool) (items : List Item)

theorem unites_declarations : Unites (fun name m => ∃ i ∈ items, i.Binds name m)
    (Scope.ofItems length ambient implicit items).declarations := by
  apply (unites_meaningsOf _).congr
  intro name m
  simp only [List.mem_flatMap, Item.mem_declared_iff]

theorem gathers_namespaces : Gathers (fun name l => ∃ i ∈ items, ∃ declared body,
      i.Opens name declared body ∧ l = body.members (ambient || declared))
    (Scope.ofItems length ambient implicit items).namespaces := by
  apply (Gathers.empty.addNamespaces _).congr
  intro name l
  simp only [false_or, List.mem_flatMap, Item.mem_namespaceParts_iff]

/-- What the items of a module make of its names: each name has what all the items that bind it make
of it, and each member of a namespace what all the parts of the namespace that export it do. -/
structure Scope.Joined (s : Scope) (ambient : Bool) (items : List Item) : Prop where
  declarations : ∀ name,
    Meaning.Joins (fun m => ∃ i ∈ items, i.Binds name m) (s.declarations.get? name)
  namespaces : ∀ name, (s.namespaces.get? name).isSome = true ↔
    ∃ i ∈ items, ∃ declared body, i.Opens name declared body
  members : ∀ name members, s.namespaces.get? name = some members → ∀ member,
    Meaning.Joins (fun m => ∃ i ∈ items, ∃ declared body, i.Opens name declared body ∧
      body.Exports (ambient || declared) member m) (members.get? member)

theorem Scope.joined_ofItems :
    (Scope.ofItems length ambient implicit items).Joined ambient items where
  declarations := unites_declarations length ambient implicit items
  namespaces name := by
    have h := gathers_namespaces length ambient implicit items
    cases hget : (Scope.ofItems length ambient implicit items).namespaces.get? name with
    | none =>
      constructor
      · intro hsome
        cases hsome
      · rintro ⟨i, hi, declared, body, hopens⟩
        exact (h.absent name hget _ ⟨i, hi, declared, body, hopens, rfl⟩).elim
    | some members =>
      obtain ⟨⟨_, i, hi, declared, body, hopens, _⟩, _⟩ := h.present name members hget
      exact iff_of_true rfl ⟨i, hi, declared, body, hopens⟩
  members name members hget := by
    have hunites := ((gathers_namespaces length ambient implicit items).present name members hget).2
    refine hunites.congr (fun member m => ?_)
    constructor
    · rintro ⟨_, ⟨i, hi, declared, body, hopens, rfl⟩, hmem⟩
      exact ⟨i, hi, declared, body, hopens, NamespaceBody.mem_members_iff.mp hmem⟩
    · rintro ⟨i, hi, declared, body, hopens, hexports⟩
      exact ⟨_, ⟨i, hi, declared, body, hopens, rfl⟩, NamespaceBody.mem_members_iff.mpr hexports⟩

/-- The items of a module in another order declare the same names and the same namespaces. -/
theorem Scope.ofItems_perm (length' : Nat) {items items' : List Item} (h : items.Perm items') :
    (Scope.ofItems length ambient implicit items).declarations =
        (Scope.ofItems length' ambient implicit items').declarations ∧
      (Scope.ofItems length ambient implicit items).namespaces =
        (Scope.ofItems length' ambient implicit items').namespaces := by
  constructor
  · apply (unites_declarations length ambient implicit items).unique
    apply (unites_declarations length' ambient implicit items').congr
    simp only [h.mem_iff, implies_true]
  · apply (gathers_namespaces length ambient implicit items).unique
    apply (gathers_namespaces length' ambient implicit items').congr
    simp only [h.mem_iff, implies_true]

theorem Outline.maps_ofItems : (Outline.ofItems length ambient items).declarations =
        (Scope.ofItems length ambient false items).declarations ∧
      (Outline.ofItems length ambient items).namespaces =
        (Scope.ofItems length ambient false items).namespaces := by
  unfold Outline.ofItems
  dsimp only
  split
  · exact ⟨rfl, rfl⟩
  · exact ⟨rfl, rfl⟩

/-- The names and namespaces of a file do not depend on the order of its items, and each of them is
what all the items that declare it make of it together. So it is for the body of a module declared
by name. -/
theorem joined_in_any_order {items items' : List Item} (h : items.Perm items')
    (length length' : Nat) (ambient : Bool) :
    ((Outline.ofItems length ambient items).declarations =
        (Outline.ofItems length' ambient items').declarations ∧
      (Outline.ofItems length ambient items).namespaces =
        (Outline.ofItems length' ambient items').namespaces ∧
      (Outline.ofItems length ambient items).toScope.Joined ambient items) ∧
    ∀ name declared, ∃ body body',
      NamedModule.ofItem length
        (.declaration (.namespaceDecl (.text name) declared (.block items))) =
          some ⟨name, some body⟩ ∧
      NamedModule.ofItem length'
        (.declaration (.namespaceDecl (.text name) declared (.block items'))) =
          some ⟨name, some body'⟩ ∧
      body.declarations = body'.declarations ∧ body.namespaces = body'.namespaces ∧
      body.Joined true items := by
  refine ⟨?_, fun name declared => ?_⟩
  · obtain ⟨hdeclarations, hnamespaces⟩ := Outline.maps_ofItems length ambient items
    obtain ⟨hdeclarations', hnamespaces'⟩ := Outline.maps_ofItems length' ambient items'
    obtain ⟨hsame, hsame'⟩ := Scope.ofItems_perm length ambient false length' h
    have hjoined := Scope.joined_ofItems length ambient false items
    refine ⟨by rw [hdeclarations, hdeclarations', hsame], by rw [hnamespaces, hnamespaces', hsame'],
      ?_, ?_, ?_⟩
    · rw [hdeclarations]
      exact hjoined.declarations
    · rw [hnamespaces]
      exact hjoined.namespaces
    · rw [hnamespaces]
      exact hjoined.members
  · obtain ⟨hsame, hsame'⟩ := Scope.ofItems_perm length true true length' h
    exact ⟨_, _, rfl, rfl, hsame, hsame', Scope.joined_ofItems length true true items⟩

/-- A class that is also an interface, a pattern, a default export, an alias and the two parts of a
namespace. -/
def mixedItems : List Item :=
  [.exportDecl (.classDecl "C"), .declaration (.interfaceDecl "C"),
    .declaration (.variableDecl [.group [.name "v", .group [.name "x"]]]),
    .exportDefault (.interfaceDecl "f"), .exportDecl (.functionDecl "f"),
    .importAlias "T" false true,
    .declaration (.namespaceDecl (.ident "N") false (.block [.exportDecl (.typeAlias "T")])),
    .exportDecl (.namespaceDecl (.ident "N") true (.block [.declaration (.functionDecl "T")]))]

theorem joined_in_any_order_mixed :
    (Outline.ofItems 0 false mixedItems.reverse).declarations.entries =
        [("C", .both), ("N", .both), ("T", .asType), ("f", .both), ("v", .asValue),
          ("x", .asValue)] ∧
      ((Outline.ofItems 0 false mixedItems.reverse).namespaces.entries.map fun (name, members) =>
        (name, members.entries)) = [("N", [("T", .both)])] := by
  obtain ⟨⟨hdeclarations, hnamespaces, _⟩, _⟩ :=
    joined_in_any_order (List.reverse_perm mixedItems).symm 0 0 false
  rw [← hdeclarations, ← hnamespaces]
  decide

end TypeOnly.Source
