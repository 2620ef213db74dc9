import TypeOnly.Proofs.SecondRun
import TypeOnly.Source.Grammar.Module

/-!
What one more word `type` does where a name of an import or export is read. In front of an entry of
a list it marks that entry, and all that follows is read as before. In front of the default name it
marks the whole declaration.
-/

namespace TypeOnly.Source

set_option autoImplicit false

open TypeOnly.Text (Extent)
open Read

variable {α β : Type} {c : Context} {s s₁ s₂ : State} {l t x : Lexeme} {name : String}

/-- The same entry with its own `type`, over another place. -/
def ImportClause.marked (e : ImportClause) (extent : Extent) : ImportClause :=
  { e with typeOnly := true, extent }

/-- The same entry with its own `type`, over another place. -/
def ExportClause.marked : ExportClause → Extent → ExportClause
  | .named origin exported _ _, extent => .named origin exported true extent
  | .whole name, _ => .whole name

/-- Whether an entry has its own `type`. -/
def ExportClause.isMarked : ExportClause → Bool
  | .named _ _ typeOnly _ => typeOnly
  | .whole _ => false

/-! ### Reading known tokens -/

namespace Read

theorem bind_ok {p : Read α} {f : α → Read β} {a : α} {s' : State} (h : p c s = .ok a s') :
    (p >>= f) c s = f a c s' := by
  change EStateM.bind (p c) (fun a => f a c) s = _
  simp only [EStateM.bind, h]

theorem bind_eq_ok {p : Read α} {f : α → Read β} {b : β} {s' : State}
    (h : (p >>= f) c s = .ok b s') : ∃ a s₁, p c s = .ok a s₁ ∧ f a c s₁ = .ok b s' := by
  change EStateM.bind (p c) (fun a => f a c) s = _ at h
  unfold EStateM.bind at h
  split at h
  case h_1 a s₁ hp => exact ⟨a, s₁, hp, h⟩
  case h_2 => cases h

theorem bind_eq_bind {p : Read α} {f : α → Read β} {s' : State} (h : p c s = p c s') :
    (p >>= f) c s = (p >>= f) c s' := by
  change EStateM.bind (p c) _ s = EStateM.bind (p c) _ s'
  unfold EStateM.bind
  rw [h]

/-- Whatever a reader gives has a property. -/
def Yields (p : Read α) (P : α → Prop) : Prop := ∀ ⦃c s a s'⦄, p c s = .ok a s' → P a

namespace Yields

variable {p q : Read α} {P : α → Prop} {a : α}

theorem pure (h : P a) : Yields (pure a) P := by
  intro c s b s' hb
  cases hb
  exact h

theorem throw (i : Flaw) : Yields (throw i) P := by
  intro c s b s' h
  cases h

theorem bind {p : Read β} {f : β → Read α} (h : ∀ b, Yields (f b) P) : Yields (p >>= f) P := by
  intro c s a s' ha
  obtain ⟨b, s₁, _, hf⟩ := bind_eq_ok ha
  exact h b hf

theorem ite {cond : Prop} [Decidable cond] (hp : Yields p P) (hq : Yields q P) :
    Yields (if cond then p else q) P := by
  split
  · exact hp
  · exact hq

theorem failAt (extent : Extent) (fault : Fault) : Yields (failAt extent fault) P := by
  unfold Read.failAt
  refine .bind fun bad? => ?_
  split
  · exact .bind fun _ => .throw _
  · exact .throw _

end Yields

/-- The state after a token is taken. -/
def taken (l : Lexeme) (s : State) : State := { s with current := none, last := l.extent }

theorem current?_of_current (h : s.current = some l) : current? c s = .ok (some l) s := by
  obtain ⟨current, ahead, scanner, last, flaws⟩ := s
  change current = some l at h
  subst h
  rfl

/-- A token that was asked for stays the current one. -/
theorem current_of_current? (h : current? c s = .ok (some l) s₁) : s₁.current = some l := by
  obtain ⟨current, ahead, scanner, last, flaws⟩ := s
  match current, ahead with
  | some _, _ =>
    cases h
    rfl
  | none, some _ =>
    cases h
    rfl
  | none, none =>
    obtain ⟨_, _, hget, h⟩ := bind_eq_ok h
    cases hget
    obtain ⟨found, s₂, _, h⟩ := bind_eq_ok h
    cases h
    rfl

theorem bump_of_current (h : s.current = some l) : bump c s = .ok () (taken l s) := by
  unfold bump
  rw [bind_ok (current?_of_current h)]
  rfl

theorem place_of_current (h : s.current = some l) : place c s = .ok l.extent.start s := by
  unfold place
  rw [bind_ok (current?_of_current h)]
  rfl

theorem required_of_current (h : s.current = some l) (hl : l.token.name? = some name) :
    required c s = .ok l s := by
  have hgood : takeBad? c s = .ok none s := by
    unfold takeBad?
    rw [bind_ok (current?_of_current h)]
    cases htoken : l.token <;> simp only [htoken, Token.name?, reduceCtorEq] at hl <;>
      simp only [htoken] <;> rfl
  unfold required
  rw [bind_ok hgood]
  dsimp only
  rw [bind_ok (current?_of_current h)]
  rfl

theorem typed_eq (c : Context) (s : State) : typed c s = .ok c.dialect.types s := rfl

theorem token?_of_current? {l? : Option Lexeme} (h : current? c s = .ok l? s₁) :
    token? c s = .ok (l?.map (·.token)) s₁ := by
  unfold token?
  rw [bind_ok h]
  rfl

theorem isAnyWord_of_current? (h : current? c s = .ok (some l) s₁) :
    isAnyWord c s = .ok l.token.isWord s₁ := by
  unfold isAnyWord
  rw [bind_ok (token?_of_current? h)]
  rfl

theorem isName_of_current? (h : current? c s = .ok (some l) s₁) :
    isName c s = .ok l.token.isName s₁ := by
  unfold isName
  rw [bind_ok (token?_of_current? h)]
  rfl

theorem isWord_of_current? (h : current? c s = .ok (some l) s₁) (w : String) :
    isWord w c s = .ok (l.token == .word w) s₁ := by
  unfold isWord
  rw [bind_ok (token?_of_current? h)]
  rfl

theorem anyName_of_current (h : s.current = some l) (hl : l.token.name? = some name) :
    anyName c s = .ok (name, l.extent) (taken l s) := by
  unfold anyName
  rw [bind_ok (required_of_current h hl)]
  simp only [hl]
  rw [bind_ok (bump_of_current h)]
  rfl

/-- Asking for a word first does not change how it is taken. -/
theorem eatWord_of_current? (h : current? c s = .ok (some l) s₁) (w : String) :
    eatWord w c s = eatWord w c s₁ := by
  have h' := current?_of_current (c := c) (current_of_current? h)
  unfold eatWord
  rw [bind_ok (isWord_of_current? h w), bind_ok (isWord_of_current? h' w)]

end Read

theorem Token.isWord_of_name? {token : Token} (h : token.name? = some name) :
    token.isWord = true := by
  cases token <;> simp only [Token.name?, reduceCtorEq] at h <;> rfl

namespace Grammar

/-! ### Entries of lists -/

theorem listName_of_current (h : s.current = some l) (hl : l.token.name? = some name) :
    listName c s = .ok (.word name l.extent) (taken l s) := by
  unfold listName
  rw [bind_ok (current?_of_current h)]
  obtain ⟨token, extent, afterLineEnd⟩ := l
  cases token <;> simp only [Token.name?, Option.some.injEq, reduceCtorEq] at hl <;> subst hl <;>
    exact bind_ok (bump_of_current h)

/-- A word other than `as` is what the word `type` before it marks. -/
theorem afterType_of_current {aliasName : Read (String × Extent)} (h : s.current = some l)
    (hl : l.token.name? = some name) (has : name ≠ "as") :
    afterType aliasName c s = .ok (.name name l.extent) (taken l s) := by
  have hne : (name != "as") = true := bne_iff_ne.mpr has
  unfold afterType
  rw [bind_ok (anyName_of_current h hl)]
  simp only [hne, if_true]
  rfl

/-- The rest of an import of a name. -/
def plainImport (start : Nat) (name : String) (marked : Bool) : Read ImportClause := do
  if ← eatWord "as" then
    let (newName, _) ← bindingName
    return ⟨newName, .named name, marked, ← since start⟩
  return ⟨name, .named name, marked, ← since start⟩

theorem importEntry_of_current (h : s.current = some l) (hl : l.token.name? = some name)
    (htype : name ≠ "type") (hnext : current? c (taken l s) = .ok (some x) s₁) :
    importEntry false c s = plainImport l.extent.start name false c s₁ := by
  unfold importEntry
  rw [bind_ok (place_of_current h), bind_ok (listName_of_current h hl)]
  dsimp only
  rw [bind_ok (typed_eq c _), bind_ok (isAnyWord_of_current? hnext)]
  simp only [htype, decide_false, Bool.and_false, Bool.false_and, Bool.false_eq_true, if_false]
  rfl

theorem importEntry_of_marker (htypes : c.dialect.types = true) (h : s.current = some t)
    (ht : t.token = .word "type") (hword : current? c (taken t s) = .ok (some l) s₁)
    (hl : l.token.name? = some name) (has : name ≠ "as") :
    importEntry false c s = plainImport t.extent.start name true c (taken l s₁) := by
  have ht' : t.token.name? = some "type" := by rw [ht]; rfl
  unfold importEntry
  rw [bind_ok (place_of_current h), bind_ok (listName_of_current h ht')]
  dsimp only
  rw [bind_ok (typed_eq c _), bind_ok (isAnyWord_of_current? hword), htypes,
    Token.isWord_of_name? hl]
  simp only [decide_true, Bool.and_self, if_true]
  rw [bind_ok (afterType_of_current (current_of_current? hword) hl has)]
  rfl

theorem plainImport_of_current? {start : Nat} {marked : Bool}
    (h : current? c s = .ok (some l) s₁) :
    plainImport start name marked c s = plainImport start name marked c s₁ := by
  unfold plainImport
  exact bind_eq_bind (eatWord_of_current? h "as")

theorem plainImport_marked {start start' : Nat} {e : ImportClause}
    (h : plainImport start name false c s = .ok e s₁) :
    e.typeOnly = false ∧
      plainImport start' name true c s = .ok (e.marked (between start' s₁.last.stop)) s₁ := by
  unfold plainImport at h ⊢
  obtain ⟨renamed, s₂, heat, h⟩ := bind_eq_ok h
  rw [bind_ok heat]
  cases renamed with
  | true =>
    obtain ⟨⟨newName, _⟩, s₃, hname, h⟩ := bind_eq_ok h
    cases h
    exact ⟨rfl, bind_ok hname⟩
  | false =>
    cases h
    exact ⟨rfl, rfl⟩

/-- The rest of an export of a name. -/
def plainExport (start : Nat) (origin : ListName) (marked : Bool) :
    Read (ExportClause × ListName) := do
  if ← eatWord "as" then
    let newName ← listName
    return (.named origin.value newName.value marked (← since start), origin)
  return (.named origin.value origin.value marked (← since start), origin)

theorem listedExport_of_current (h : s.current = some l) (hl : l.token.name? = some name)
    (htype : name ≠ "type") (hnext : current? c (taken l s) = .ok (some x) s₁) :
    listedExport false c s = plainExport l.extent.start (.word name l.extent) false c s₁ := by
  unfold listedExport
  rw [bind_ok (place_of_current h), bind_ok (listName_of_current h hl)]
  dsimp only
  rw [bind_ok (typed_eq c _), bind_ok (isAnyWord_of_current? hnext)]
  simp only [htype, decide_false, Bool.and_false, Bool.false_and, Bool.false_eq_true, if_false]
  rfl

theorem listedExport_of_marker (htypes : c.dialect.types = true) (h : s.current = some t)
    (ht : t.token = .word "type") (hword : current? c (taken t s) = .ok (some l) s₁)
    (hl : l.token.name? = some name) (has : name ≠ "as") :
    listedExport false c s
      = plainExport t.extent.start (.word name l.extent) true c (taken l s₁) := by
  have ht' : t.token.name? = some "type" := by rw [ht]; rfl
  unfold listedExport
  rw [bind_ok (place_of_current h), bind_ok (listName_of_current h ht')]
  dsimp only
  rw [bind_ok (typed_eq c _), bind_ok (isAnyWord_of_current? hword), htypes,
    Token.isWord_of_name? hl]
  simp only [decide_true, Bool.and_self, if_true]
  rw [bind_ok (afterType_of_current (current_of_current? hword) hl has)]
  rfl

theorem plainExport_of_current? {start : Nat} {origin : ListName} {marked : Bool}
    (h : current? c s = .ok (some l) s₁) :
    plainExport start origin marked c s = plainExport start origin marked c s₁ := by
  unfold plainExport
  exact bind_eq_bind (eatWord_of_current? h "as")

theorem plainExport_marked {start start' : Nat} {origin : ListName} {e : ExportClause × ListName}
    (h : plainExport start origin false c s = .ok e s₁) :
    e.1.isMarked = false ∧ plainExport start' origin true c s
      = .ok (e.1.marked (between start' s₁.last.stop), e.2) s₁ := by
  unfold plainExport at h ⊢
  obtain ⟨renamed, s₂, heat, h⟩ := bind_eq_ok h
  rw [bind_ok heat]
  cases renamed with
  | true =>
    obtain ⟨newName, s₃, hname, h⟩ := bind_eq_ok h
    cases h
    exact ⟨rfl, bind_ok hname⟩
  | false =>
    cases h
    exact ⟨rfl, rfl⟩

/-! ### The default of an import -/

theorem named_yields (name : String) (extent : Extent) :
    Yields (identifierWith.named name extent) (· = (name, extent)) := by
  unfold identifierWith.named
  exact .bind fun _ => .ite (.bind fun _ => .pure rfl) (.pure rfl)

theorem identifierWith_name (h : s.current = some l) (hl : l.token.name? = some name)
    {first : String × Extent} (hfirst : identifierWith true c s = .ok first s₁) :
    first = (name, l.extent) := by
  unfold identifierWith at hfirst
  rw [bind_ok (required_of_current h hl)] at hfirst
  obtain ⟨token, extent, afterLineEnd⟩ := l
  cases token <;> simp only [Token.name?, Option.some.injEq, reduceCtorEq] at hl <;> subst hl
  case plainWord word =>
    dsimp only at hfirst
    rw [bind_ok (bump_of_current h)] at hfirst
    exact named_yields word extent hfirst
  case word word =>
    dsimp only at hfirst
    rw [bind_ok (bump_of_current h)] at hfirst
    -- Whether or not the word is complained about, reading goes on in the same way.
    refine Yields.ite (P := (· = (word, extent))) (.bind fun _ => .bind fun c => ?_)
      (.ite (.bind fun _ => .bind fun c => ?_) (.bind fun c => ?_)) hfirst
    all_goals
      refine .ite (.ite (.pure rfl) (.ite (.failAt _ _) (.failAt _ _))) ?_
      refine .ite (.pure rfl) (.ite (.pure rfl) ?_)
      exact .ite (.ite (.pure rfl) (.failAt _ _)) (.ite (.failAt _ _) (named_yields word extent))

theorem bindingName_name (h : s.current = some l) (hl : l.token.name? = some name)
    {first : String × Extent} (hfirst : bindingName c s = .ok first s₁) :
    first = (name, l.extent) := by
  unfold bindingName at hfirst
  obtain ⟨word, s₂, hword, hfirst⟩ := bind_eq_ok hfirst
  obtain rfl := identifierWith_name h hl hword
  dsimp only at hfirst
  refine Yields.ite (P := (· = (name, l.extent))) (.bind fun _ => .bind fun c => ?_)
    (.bind fun c => ?_) hfirst
  all_goals
    refine .ite (.bind fun _ => ?_) ?_
    all_goals exact .ite (.bind fun _ => .pure rfl) (.pure rfl)

theorem identifierWith_type (h : s.current = some t) (ht : t.token = .word "type") :
    identifierWith true c s = .ok ("type", t.extent) (taken t s) := by
  have ht' : t.token.name? = some "type" := by rw [ht]; rfl
  unfold identifierWith
  rw [bind_ok (required_of_current h ht')]
  simp only [ht]
  rw [bind_ok (bump_of_current h)]
  rfl

theorem bindingName_type (h : s.current = some t) (ht : t.token = .word "type") :
    bindingName c s = .ok ("type", t.extent) (taken t s) := by
  have hawait : ∀ b : Bool, (b && decide ("type" = "await")) = false := by decide
  have hyield : ∀ b : Bool, (b && decide ("type" = "yield")) = false := by decide
  unfold bindingName
  rw [bind_ok (identifierWith_type h ht)]
  simp only [hawait, hyield]
  rfl

/-- What the first name of an import stands for: itself, or a mark on what follows. -/
def chosenDefault (first : String × Extent) : Read (Option (String × Extent) × Bool) := do
  unless (← typed) && first.1 = "type" do return (some first, false)
  if ← isOneOf [.star, .openBrace] then return (none, true)
  if ← isName then
    if ← not <$> isWord "from" <||> peekIsWord "from" then
      return (some (← bindingName), true)
    if ← peekIsSym .equals then return (some (← anyName), true)
  return (some first, false)

/-- The rest of the default of an import, once its name is known. -/
def plainDefault (first : String × Extent) (typeOnly : Bool) : Read DefaultClause := do
  if (← typed) && (← isSym .equals) then return ⟨some first, typeOnly⟩
  return ⟨← phasedName? first.1 first.2, typeOnly⟩

theorem importDefault_of_chosen {first next : String × Extent} {typeOnly : Bool}
    (hname : isName c s = .ok true s) (hfirst : bindingName c s = .ok first s₁)
    (hnext : chosenDefault first c s₁ = .ok (some next, typeOnly) s₂) :
    importDefault c s = plainDefault next typeOnly c s₂ := by
  unfold importDefault
  rw [bind_ok hname]
  simp only [if_true]
  rw [bind_ok hfirst]
  exact bind_ok hnext

theorem chosenDefault_plain {first : String × Extent} (htype : first.1 ≠ "type") :
    chosenDefault first c s = .ok (some first, false) s := by
  unfold chosenDefault
  rw [bind_ok (typed_eq c s)]
  simp only [htype, decide_false, Bool.and_false, Bool.false_eq_true, if_false]
  rfl

/-- A name after the word `type` is the default, unless it is `from`. -/
theorem chosenDefault_type (htypes : c.dialect.types = true)
    (hword : current? c s = .ok (some l) s₁) (hname : l.token.isName = true)
    (hfrom : l.token ≠ .word "from") {next : String × Extent}
    (hnext : bindingName c s₁ = .ok next s₂) {p : Extent} :
    chosenDefault ("type", p) c s = .ok (some next, true) s₂ := by
  have hcurrent := current?_of_current (c := c) (current_of_current? hword)
  have hsymbol : isOneOf [.star, .openBrace] c s = .ok false s₁ := by
    unfold isOneOf
    rw [bind_ok (token?_of_current? hword)]
    cases htoken : l.token <;> simp only [htoken, Token.isName, Bool.false_eq_true] at hname <;>
      simp only [Option.map_some, htoken] <;> rfl
  have hother : (not <$> isWord "from") c s₁ = .ok true s₁ := by
    have hne : (l.token == .word "from") = false := beq_eq_false_iff_ne.mpr hfrom
    have hask := isWord_of_current? hcurrent "from"
    rw [hne] at hask
    change EStateM.map not (isWord "from" c) s₁ = _
    simp only [EStateM.map, hask, Bool.not_false]
  have hname' := isName_of_current? hcurrent
  rw [hname] at hname'
  unfold chosenDefault
  rw [bind_ok (typed_eq c _), htypes]
  simp only [decide_true, Bool.and_self, if_true]
  rw [bind_ok hsymbol]
  simp only [Bool.false_eq_true, if_false]
  rw [bind_ok hname']
  simp only [if_true]
  have heither : (not <$> isWord "from" <||> peekIsWord "from") c s₁ = .ok true s₁ := bind_ok hother
  rw [bind_ok heither]
  exact bind_ok hnext

theorem plainDefault_marked {first : String × Extent} {d : DefaultClause}
    (h : plainDefault first false c s = .ok d s₁) :
    d.typeOnly = false ∧ plainDefault first true c s = .ok { d with typeOnly := true } s₁ := by
  unfold plainDefault at h ⊢
  obtain ⟨isTyped, s₂, htyped, h⟩ := bind_eq_ok h
  obtain ⟨isEquals, s₃, hequals, h⟩ := bind_eq_ok h
  rw [bind_ok htyped, bind_ok hequals]
  cases hboth : isTyped && isEquals with
  | true =>
    simp only [hboth, if_true] at h ⊢
    cases h
    exact ⟨rfl, rfl⟩
  | false =>
    simp only [hboth, Bool.false_eq_true, if_false] at h ⊢
    obtain ⟨clause, s₄, hclause, h⟩ := bind_eq_ok h
    cases h
    exact ⟨rfl, bind_ok hclause⟩

theorem importDefault_marked (htypes : c.dialect.types = true) (h : s.current = some t)
    (ht : t.token = .word "type") (hword : current? c (taken t s) = .ok (some l) s₁)
    (hl : l.token.name? = some name) (htype : name ≠ "type") (hname : l.token.isName = true)
    (hfrom : l.token ≠ .word "from") {d : DefaultClause}
    (hd : importDefault c s₁ = .ok d s₂) :
    d.typeOnly = false ∧ importDefault c s = .ok { d with typeOnly := true } s₂ := by
  have hcurrent : s₁.current = some l := current_of_current? hword
  have hask : isName c s₁ = .ok true s₁ := by
    rw [isName_of_current? (current?_of_current hcurrent), hname]
  have hask' : isName c s = .ok true s := by
    rw [isName_of_current? (current?_of_current h), ht]
    rfl
  obtain ⟨first, s₃, hfirst⟩ : ∃ first s₃, bindingName c s₁ = .ok first s₃ := by
    unfold importDefault at hd
    rw [bind_ok hask] at hd
    obtain ⟨first, s₃, hfirst, _⟩ := bind_eq_ok hd
    exact ⟨first, s₃, hfirst⟩
  have hne : first.1 ≠ "type" := by
    rw [bindingName_name hcurrent hl hfirst]
    exact htype
  rw [importDefault_of_chosen hask hfirst (chosenDefault_plain hne)] at hd
  obtain ⟨hunmarked, hmarked⟩ := plainDefault_marked hd
  refine ⟨hunmarked, ?_⟩
  rw [importDefault_of_chosen hask' (bindingName_type h ht)
    (chosenDefault_type htypes hword hname hfrom hfirst)]
  exact hmarked

/-! ### Marks of one entry and of all -/

/-- The rest of an import, once its default is known. -/
def importTail (r : Rules) (d : DefaultClause) : Read Item := do
  match d.clause with
  | some (name, extent) => do
    if (← typed) && (← isSym .equals) then
      moduleReference
      return .importAlias name false d.typeOnly
    unless ← isWord "from" do expect .comma
    let others ← importList d.typeOnly
    let source ← fromClause r
    return .importDecl (⟨name, .default, false, extent⟩ :: others) source d.typeOnly
  | none => do
    let clauses ← importList d.typeOnly
    let source ← fromClause r
    return .importDecl clauses source d.typeOnly

theorem importItem_of_type (r : Rules) (hstart : expectWord "import" c s = .ok () s₁)
    (hcurrent : current? c s₁ = .ok (some t) s₂) (ht : t.token = .word "type") :
    importItem r c s = (importDefault >>= importTail r) c s₂ := by
  obtain ⟨token, extent, afterLineEnd⟩ := t
  change token = _ at ht
  subst ht
  unfold importItem
  rw [bind_ok hstart, bind_ok hcurrent]
  rfl

theorem imports_typeOnly (length : Nat) (clauses : List ImportClause) (source : ModuleName) :
    ∀ i ∈ (Item.importDecl clauses source true).imports length, i.typeOnly = true := by
  intro i hi
  obtain ⟨clause, _, rfl⟩ := List.mem_map.mp hi
  rfl

/-- A mark on the default is one on every name that the declaration takes. -/
theorem importTail_typeOnly (length : Nat) (r : Rules) {d : DefaultClause}
    (hd : d.typeOnly = true) :
    Yields (importTail r d) fun item => ∀ i ∈ item.imports length, i.typeOnly = true := by
  unfold importTail
  rw [hd]
  split
  · refine .bind fun _ => .bind fun _ => .ite (.bind fun _ => .pure ?_) (.bind fun _ => ?_)
    · intro i hi
      cases hi
    · refine .ite ?_ (.bind fun _ => ?_)
      all_goals exact .bind fun _ => .bind fun _ => .pure (imports_typeOnly _ _ _)
  · exact .bind fun _ => .bind fun _ => .pure (imports_typeOnly _ _ _)

/-- The word `type` in front of a name marks the entry of a list and nothing else, and what follows
is read from the same state. In front of the default it marks all that the declaration takes. -/
theorem marker_reading (r : Rules) (htypes : c.dialect.types = true) (h : s.current = some t)
    (ht : t.token = .word "type") (hword : current? c (taken t s) = .ok (some l) s₁)
    (hl : l.token.name? = some name) (htype : name ≠ "type") :
    (name ≠ "as" → ∀ x s₂, current? c (taken l s₁) = .ok (some x) s₂ →
      (∀ e s', importEntry false c s₁ = .ok e s' → e.typeOnly = false ∧
        importEntry false c s = .ok (e.marked (between t.extent.start s'.last.stop)) s') ∧
      ∀ e s', listedExport false c s₁ = .ok e s' → e.1.isMarked = false ∧
        listedExport false c s = .ok (e.1.marked (between t.extent.start s'.last.stop), e.2) s') ∧
    (l.token.isName = true → l.token ≠ .word "from" →
      ∀ d s', importDefault c s₁ = .ok d s' → d.typeOnly = false ∧
        importDefault c s = .ok { d with typeOnly := true } s' ∧
        ∀ start s₀ item s₂, expectWord "import" c start = .ok () s₀ →
          current? c s₀ = .ok (some t) s → importItem r c start = .ok item s₂ →
            ∀ length, ∀ i ∈ item.imports length, i.typeOnly = true) := by
  refine ⟨?_, ?_⟩
  · intro has x s₂ hnext
    refine ⟨?_, ?_⟩
    · intro e s' he
      rw [importEntry_of_current (current_of_current? hword) hl htype hnext] at he
      rw [importEntry_of_marker htypes h ht hword hl has, plainImport_of_current? hnext]
      exact plainImport_marked he
    · intro e s' he
      rw [listedExport_of_current (current_of_current? hword) hl htype hnext] at he
      rw [listedExport_of_marker htypes h ht hword hl has, plainExport_of_current? hnext]
      exact plainExport_marked he
  · intro hname hfrom d s' hd
    obtain ⟨hunmarked, hmarked⟩ := importDefault_marked htypes h ht hword hl htype hname hfrom hd
    refine ⟨hunmarked, hmarked, ?_⟩
    intro start s₀ item s₂ hstart hcurrent hitem length
    rw [importItem_of_type r hstart hcurrent ht, bind_ok hmarked] at hitem
    exact importTail_typeOnly length r rfl hitem

end Grammar

end TypeOnly.Source

namespace TypeOnly

set_option autoImplicit false

open Source

/-- A project that imports a type as the default beside a value, before and after it is marked. -/
def defaultDisk (marker : String) : Disk :=
  .ofTexts [("tsconfig.json", "\x7b\"files\": [\"n.ts\"]\x7d"),
    ("t.ts", "export default interface D {} export const v = 1"),
    ("n.ts", "import " ++ marker ++ "D, { v } from './t'")]

def defaultFinding : Diagnostic :=
  .inFile (.typeImported "D") ⟨⟨"/n.ts"⟩, "import D, { v } from './t'"⟩ ⟨7, 1⟩

def defaultEdits : EditSet :=
  ⟨⟨⟨"/n.ts"⟩, "import D, { v } from './t'"⟩, [⟨7, "type ", .import_⟩], ["D"]⟩

set_option maxRecDepth 4096 in
/-- A mark on the default alone is read back as one on the value beside it, too. -/
theorem default_mark_spreads : ∃ c p,
    Config.resolve (defaultDisk "") plainStyle.cwd ⟨"tsconfig.json"⟩ = .ok c ∧
    Program.load (defaultDisk "") (c.allRoots (defaultDisk "")) c.options.forced = .ok p ∧
    p.check c.options.forced = [defaultFinding] ∧
    (fixProject (defaultDisk "") plainStyle true ⟨"tsconfig.json"⟩).result =
      .ok [FileReport.ofSet defaultEdits true] ∧
    ∃ f ∈ p.files, ∃ text,
      (fixProject (defaultDisk "") plainStyle true ⟨"tsconfig.json"⟩).disk.read f.path = .ok text ∧
        ¬ Program.ReadsBack [defaultFinding] f text := by
  have hconfig : Config.resolve (defaultDisk "") plainStyle.cwd ⟨"tsconfig.json"⟩ =
      .ok ⟨⟨"/tsconfig.json"⟩, ∅, [⟨"/n.ts"⟩]⟩ := Config.eq_of_fields (by decide +kernel)
  have hroots : Config.allRoots (defaultDisk "") ⟨⟨"/tsconfig.json"⟩, ∅, [⟨"/n.ts"⟩]⟩ =
      [⟨"/n.ts"⟩] := by decide +kernel
  have hfacts : (Program.load (defaultDisk "") [⟨"/n.ts"⟩] (Options.forced ∅)).toOption.map
      (fun p => (p.problems (Options.forced ∅).verbatim, p.files.any fun f =>
        ((defaultDisk "type ").read f.path).toOption.any fun text =>
          !decide (Program.ReadsBack [defaultFinding] f text))) =
            some ([defaultFinding], true) := by decide +kernel
  have hpatched : defaultEdits.patched = .ok "import type D, { v } from './t'" := by
    rw [EditSet.patched, defaultEdits, Insertion.apply_single]
    decide +kernel
  have hreplace : FileSystem.replace (defaultDisk "") ⟨"/n.ts"⟩ "import type D, { v } from './t'" =
      .ok (defaultDisk "type ") := Disk.eq_of_entries (by decide +kernel)
  obtain ⟨p, hload, hfound⟩ := exists_of_toOption_map hfacts
  obtain ⟨hproblems, hback⟩ := Prod.mk.inj hfound
  rw [← hroots] at hload
  obtain ⟨hresult, hdisk⟩ := fixProject_of_finding hconfig hload hproblems (s := defaultEdits) rfl
    hpatched (by decide +kernel) hreplace
  have hcheck : p.check (Options.forced ∅) = [defaultFinding] := by
    rw [Program.check_eq_arrange, hproblems, Diagnostic.arrange_single]
  refine ⟨_, p, hconfig, hload, hcheck, hresult, ?_⟩
  obtain ⟨f, hf, hread⟩ := List.any_eq_true.mp hback
  obtain ⟨text, htext, hnot⟩ := exists_of_toOption_any hread
  rw [hdisk]
  refine ⟨f, hf, text, htext, ?_⟩
  simpa using hnot

end TypeOnly
