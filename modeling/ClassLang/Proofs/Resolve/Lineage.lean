import ClassLang.Proofs.Accepted
import ClassLang.Proofs.Resolve.Edits

/-!
# Every class descends from the root class

Names are bound and parents are given whatever is reported on the way: a name that is taken is
left out, and an `extends` clause that names no class, or would close a circle, gives the class
the root class as its parent.  So inheritance is a tree with the root class at its top after
every resolution, and layouts are always found (`resolve_rooted`).

* `Unparented` : behind the binding of names, no class has a parent yet, and every class other
  than the root class waits for one;
* `Rising` : some classes have their parents, and there is no circle so far;
* `Rooted` : no class waits any longer.
-/

namespace ClassLang

open Analysis

namespace SymbolTable

variable {t t' : SymbolTable} {id parent : SymbolId} {waiting : List SymbolId}

/-- Every class has its place below the root class. -/
structure Rooted (t : SymbolTable) : Prop where
  acyclic : t.Acyclic
  reaches : ∀ id, (t.class? id).isSome = true → t.Inherits id rootClass
  top : ∀ id, (t.class? id).isSome = true → (t.parent? id = none ↔ id = rootClass)

/-- Classes have their parents but for those that wait, and none is its own ancestor. -/
structure Rising (t : SymbolTable) (waiting : List SymbolId) : Prop where
  acyclic : t.Acyclic
  unlaid : t.Unlaid
  root : (t.class? rootClass).isSome = true
  top : t.parent? rootClass = none
  parents : ∀ id parent, t.parent? id = some parent → (t.class? parent).isSome = true
  orphans : ∀ id, (t.class? id).isSome = true → t.parent? id = none → id = rootClass ∨ id ∈ waiting

theorem isSome_class?_setParent (t : SymbolTable) (id parent other : SymbolId) :
    ((t.setParent id parent).class? other).isSome = (t.class? other).isSome := by
  simp only [setParent, class?_modifyClass_eq]
  split <;> simp

/-- **One more class gets its parent.** -/
theorem Rising.setParent (h : t.Rising (id :: waiting)) (hid : id ≠ rootClass)
    (hclass : (t.class? parent).isSome = true) (hnot : ¬ t.Inherits parent id) :
    (t.setParent id parent).Rising waiting := by
  constructor
  · exact h.acyclic.setParent hnot
  · intro other s hs
    rcases get?_setParent hs with hs | ⟨e, rfl, he, rfl⟩
    · exact h.unlaid other s hs
    · have hlayout := Symbol.bare_classEntry_iff.1 (h.unlaid _ _ he)
      exact Symbol.bare_classEntry_iff.2 hlayout
  · rw [isSome_class?_setParent]
    exact h.root
  · rw [parent?_setParent, if_neg fun hand => hid hand.1.symm]
    exact h.top
  · intro other grandparent hparent
    rw [parent?_setParent] at hparent
    rw [isSome_class?_setParent]
    split at hparent
    · cases hparent
      exact hclass
    · exact h.parents other grandparent hparent
  · intro other hother hnone
    rw [isSome_class?_setParent] at hother
    rw [parent?_setParent] at hnone
    split at hnone
    · cases hnone
    · next hnew =>
        refine (h.orphans other hother hnone).imp_right fun hmem => ?_
        rcases List.mem_cons.1 hmem with heq | hmem
        · exact absurd ⟨heq, heq ▸ hother⟩ hnew
        · exact hmem

/-- On the way up from a class one meets the root class: the way does not end before it, and it
has no more steps than there are symbols. -/
theorem Rising.reaches (h : t.Rising []) {below : List SymbolId} (hbelow : t.Climbing below id)
    (hclass : (t.class? id).isSome = true) : t.Inherits id rootClass := by
  induction hn : t.size - below.length generalizing id below with
  | zero =>
      cases hparent : t.parent? id with
      | none =>
          obtain rfl : id = rootClass := by simpa using h.orphans id hclass hparent
          exact .refl
      | some parent =>
          have hlength := (hbelow.cons h.acyclic hparent).length_le
          rw [List.length_cons] at hlength
          omega
  | succ n ih =>
      cases hparent : t.parent? id with
      | none =>
          obtain rfl : id = rootClass := by simpa using h.orphans id hclass hparent
          exact .refl
      | some parent =>
          have hup := ih (hbelow.cons h.acyclic hparent) (h.parents id parent hparent)
            (by rw [List.length_cons]; omega)
          exact .head hparent hup

/-- **No class waits any longer.** -/
theorem Rising.rooted (h : t.Rising []) : t.Rooted where
  acyclic := h.acyclic
  reaches id hclass := h.reaches (.nil t id) hclass
  top id hclass := by
    constructor
    · intro hnone
      simpa using h.orphans id hclass hnone
    · rintro rfl
      exact h.top

theorem SameLineage.parent? (h : t.SameLineage t') (id : SymbolId) :
    t'.parent? id = t.parent? id := by
  have hsame := h id
  unfold SymbolTable.parent?
  cases hclass : t.class? id <;> cases hclass' : t'.class? id <;> simp_all

theorem SameLineage.isSome_class? (h : t.SameLineage t') (id : SymbolId) :
    (t'.class? id).isSome = (t.class? id).isSome := by
  simpa using congrArg Option.isSome (h id)

/-- Edits change nothing about inheritance. -/
theorem Rooted.edits (h : t.Rooted) (hedits : t.Edits t') : t'.Rooted := by
  have hsame := hedits.sameLineage
  constructor
  · exact h.acyclic.congr hsame.parent?
  · intro id hclass
    rw [hsame.isSome_class?] at hclass
    exact Relation.ReflTransGen.mono (fun a _ hab => (hsame.parent? a).trans hab) _ _
      (h.reaches id hclass)
  · intro id hclass
    rw [hsame.isSome_class?] at hclass
    rw [hsame.parent?]
    exact h.top id hclass

/-- Tables that only differ in layouts and numbers. -/
theorem keptByLayout_dressed (t : SymbolTable) : t.KeptByLayout t.Dressed where
  dressed _ h := h
  next _ id entry h _ _ := h.layOutNext id entry
  structs _ _ entry h _ := h.assignOffsets entry.fields

end SymbolTable

/-! ## Names -/

/-- What is known when names are bound: no class has a parent, every class but the root class is
the symbol of an item, and nothing else has a symbol. -/
structure Unparented (items : List Item) (ctx : Context) : Prop where
  unlaid : ctx.symbols.Unlaid
  root : (ctx.symbols.class? SymbolTable.rootClass).isSome = true
  parents : ∀ id, ctx.symbols.parent? id = none
  source : ∀ id, (ctx.symbols.class? id).isSome = true → id = SymbolTable.rootClass ∨
    ∃ decl, .classDecl decl ∈ items ∧ ctx.bindings.symbol? decl.id = some id
  bound : ∀ node id, ctx.bindings.symbol? node = some id →
    id ≠ SymbolTable.rootClass ∧ ∃ item ∈ items, item.id = node

theorem unparented_initial : Unparented [] .initial where
  unlaid := Context.outline_initial.unlaid
  root := rfl
  parents id := by
    cases hparent : Context.initial.symbols.parent? id with
    | none => rfl
    | some parent =>
        have hlt : id < 5 := SymbolTable.lt_size_of_parent? hparent
        match id, hlt with
        | 0, _ | 1, _ | 2, _ | 3, _ | 4, _ => cases hparent
  source id hclass := by
    obtain ⟨entry, hentry⟩ := Option.isSome_iff_exists.1 hclass
    have hget := SymbolTable.class?_eq_some_iff.1 hentry
    have hlt : id < 5 := SymbolTable.lt_size_of_get? hget
    match id, hlt with
    | 0, _ => exact .inl rfl
    | 1, _ | 2, _ | 3, _ | 4, _ => cases hget
  bound node id h := by cases h

/-- A name that is taken is left out; any other gets a symbol. -/
def Item.Declares (item : Item) (ctx ctx' : Context) : Prop :=
  (ctx'.symbols = ctx.symbols ∧ ctx'.bindings = ctx.bindings) ∨
    (ctx'.symbols = ctx.symbols.add item.symbol ∧
      ctx'.bindings = ctx.bindings.bindSymbol item.id ctx.symbols.size)

/-- An item whose name is free is declared. -/
theorem Item.run_declare {item : Item} {ctx : Context}
    (hfree : ctx.scopes.lookupLocal? ScopeTree.root item.name.name = none) :
    item.declare.run ctx = (true, ctx.declareItem item) := by
  rw [declare, StateT.run_bind, StateT.run_get, pure_bind]
  dsimp only
  split
  · next hbound => cases hfree.symm.trans hbound
  · simp [hfree, define, addSymbol, Context.declareItem]
    rfl

theorem Item.always_declare (item : Item) :
    Always item.declare fun ctx _ ctx' => item.Declares ctx ctx' := by
  intro ctx
  cases hfound : ctx.scopes.lookupLocal? ScopeTree.root item.name.name with
  | none =>
      rw [run_declare hfound]
      exact .inr ⟨rfl, rfl⟩
  | some _ =>
      rw [declare, StateT.run_bind, StateT.run_get, pure_bind, hfound]
      exact .inl ⟨rfl, rfl⟩

/-- **One more item**, whether its name is taken or not. -/
theorem Unparented.declare {items : List Item} {item : Item} {ctx ctx' : Context}
    (h : Unparented items ctx) (hnew : ∀ other ∈ items, other.id ≠ item.id)
    (hstep : item.Declares ctx ctx') : Unparented (items ++ [item]) ctx' := by
  rcases hstep with ⟨hsymbols, hbindings⟩ | ⟨hsymbols, hbindings⟩
  · constructor
    · rw [hsymbols]
      exact h.unlaid
    · rw [hsymbols]
      exact h.root
    · rw [hsymbols]
      exact h.parents
    · intro id hclass
      rw [hsymbols] at hclass
      rw [hbindings]
      refine (h.source id hclass).imp_right ?_
      rintro ⟨decl, hdecl, hsymbol⟩
      exact ⟨decl, List.mem_append_left _ hdecl, hsymbol⟩
    · intro node id hid
      rw [hbindings] at hid
      obtain ⟨hroot, other, hother, heq⟩ := h.bound node id hid
      exact ⟨hroot, other, List.mem_append_left _ hother, heq⟩
  · obtain ⟨rootEntry, hrootEntry⟩ := Option.isSome_iff_exists.1 h.root
    have hrootSize : SymbolTable.rootClass ≠ ctx.symbols.size :=
      Nat.ne_of_lt (SymbolTable.lt_size_of_get? (SymbolTable.class?_eq_some_iff.1 hrootEntry))
    -- The symbols that were there keep their nodes.
    have hkept : ∀ node, node ≠ item.id →
        ctx'.bindings.symbol? node = ctx.bindings.symbol? node := by
      intro node hne
      rw [hbindings, Bindings.symbol?_bindSymbol, if_neg hne]
    have hown : ctx'.bindings.symbol? item.id = some ctx.symbols.size := by
      rw [hbindings, Bindings.symbol?_bindSymbol, if_pos rfl]
    constructor
    · rw [hsymbols]
      exact h.unlaid.add item.bare_symbol
    · rw [hsymbols, SymbolTable.class?_add, if_neg hrootSize]
      exact h.root
    · intro id
      rw [hsymbols, SymbolTable.parent?, SymbolTable.class?_add]
      split
      · cases item <;> rfl
      · exact h.parents id
    · intro id hclass
      rw [hsymbols, SymbolTable.class?_add] at hclass
      split at hclass
      · next heq =>
          subst heq
          cases item with
          | classDecl decl => exact .inr ⟨decl, by simp, hown⟩
          | structDecl decl => cases hclass
          | function decl => cases hclass
      · refine (h.source id hclass).imp_right ?_
        rintro ⟨decl, hdecl, hsymbol⟩
        exact ⟨decl, List.mem_append_left _ hdecl, (hkept _ (hnew _ hdecl)).trans hsymbol⟩
    · intro node id hid
      by_cases hnode : node = item.id
      · subst hnode
        cases hown.symm.trans hid
        exact ⟨hrootSize.symm, item, by simp, rfl⟩
      · obtain ⟨hroot, other, hother, heq⟩ := h.bound node id ((hkept node hnode).symm.trans hid)
        exact ⟨hroot, other, List.mem_append_left _ hother, heq⟩

/-- **Whatever names are taken**: what every item keeps holds behind all of them. -/
theorem Item.always_declareAll {P : List Item → Context → Prop}
    (hstep : ∀ {done item ctx ctx'}, P done ctx → (∀ other ∈ done, other.id ≠ item.id) →
      item.Declares ctx ctx' → P (done ++ [item]) ctx') (items : List Item) :
    Always (Item.declareAll items) fun ctx _ ctx' => ∀ done, P done ctx →
      ((done ++ items).map Item.id).Nodup → P (done ++ items) ctx' := by
  induction items with
  | nil =>
      intro ctx done h _
      rw [List.append_nil]
      exact h
  | cons item rest ih =>
      intro ctx done h hids
      have hnew : ∀ other ∈ done, other.id ≠ item.id := by
        intro other hother heq
        rw [List.map_append, List.nodup_append] at hids
        exact hids.2.2 _ (List.mem_map_of_mem hother) item.id (by simp) heq
      have hnext := hstep h hnew (item.always_declare ctx)
      have hrest := ih (item.declare.run ctx).2 (done ++ [item]) hnext (by simpa using hids)
      rw [List.append_cons]
      exact hrest

/-! ## Parents -/

/-- The parent that is found is a class, and does not inherit from the class. -/
theorem ClassDecl.always_resolveParent (decl : ClassDecl) (id : SymbolId) :
    Always (decl.resolveParent id) fun ctx parent ctx' =>
      ctx'.symbols = ctx.symbols ∧ ctx'.bindings = ctx.bindings ∧
      ∀ waiting, ctx.symbols.Rising waiting → id ≠ SymbolTable.rootClass →
        (ctx.symbols.class? parent).isSome = true ∧ ¬ ctx.symbols.Inherits parent id := by
  intro ctx
  -- The root class always is a possible parent.
  have hroot : ∀ waiting, ctx.symbols.Rising waiting → id ≠ SymbolTable.rootClass →
      (ctx.symbols.class? SymbolTable.rootClass).isSome = true ∧
        ¬ ctx.symbols.Inherits SymbolTable.rootClass id := by
    intro waiting h hid
    refine ⟨h.root, fun hinherits => ?_⟩
    rcases Relation.ReflTransGen.cases_head hinherits with heq | ⟨parent, hparent, -⟩
    · exact hid heq.symm
    · cases h.top.symm.trans hparent
  generalize hresult : (decl.resolveParent id).run ctx = result
  rw [resolveParent] at hresult
  split at hresult
  · cases hresult
    exact ⟨rfl, rfl, hroot⟩
  · rw [StateT.run_bind, StateT.run_get, pure_bind] at hresult
    dsimp only at hresult
    split at hresult
    · cases hresult
      exact ⟨rfl, rfl, hroot⟩
    · next parent hlookup =>
        split at hresult
        · cases hresult
          exact ⟨rfl, rfl, hroot⟩
        · next entry hclass =>
            split at hresult
            · cases hresult
              exact ⟨rfl, rfl, hroot⟩
            · next hsub =>
                cases hresult
                refine ⟨rfl, rfl, fun waiting h _ =>
                  ⟨Option.isSome_iff_exists.2 ⟨entry, hclass⟩, ?_⟩⟩
                exact SymbolTable.not_inherits_of_isSubclassOf h.acyclic (eq_false_of_ne_true hsub)

/-- A class without a symbol gets no parent. -/
theorem ClassDecl.run_bindParent_of_none (decl : ClassDecl) {ctx : Context}
    (h : ctx.bindings.symbol? decl.id = none) : (decl.bindParent.run ctx).2 = ctx := by
  simp [bindParent, symbolOf?, h]
  rfl

/-- A class with a symbol gets the parent that is found. -/
theorem ClassDecl.run_bindParent (decl : ClassDecl) {ctx : Context} {id : SymbolId}
    (h : ctx.bindings.symbol? decl.id = some id) :
    (decl.bindParent.run ctx).2 =
      { ((decl.resolveParent id).run ctx).2 with
        symbols := ((decl.resolveParent id).run ctx).2.symbols.setParent id
          ((decl.resolveParent id).run ctx).1 } := by
  simp [bindParent, symbolOf?, h]
  rfl

/-- **A class that waits gets its parent**, whatever its `extends` clause says. -/
theorem ClassDecl.always_bindParent (decl : ClassDecl) :
    Always decl.bindParent fun ctx _ ctx' => ctx'.bindings = ctx.bindings ∧
      ∀ waiting, ctx.bindings.symbol? decl.id ≠ some SymbolTable.rootClass →
        ctx.symbols.Rising ((ctx.bindings.symbol? decl.id).toList ++ waiting) →
        ctx'.symbols.Rising waiting := by
  intro ctx
  cases hsymbol : ctx.bindings.symbol? decl.id with
  | none =>
      rw [decl.run_bindParent_of_none hsymbol]
      exact ⟨rfl, fun waiting _ h => h⟩
  | some id =>
      obtain ⟨hsymbols, hbindings, hparent⟩ := decl.always_resolveParent id ctx
      rw [decl.run_bindParent hsymbol, hsymbols]
      refine ⟨hbindings, fun waiting hid h => ?_⟩
      have hne : id ≠ SymbolTable.rootClass := fun heq => hid (congrArg some heq)
      obtain ⟨hclass, hnot⟩ := hparent _ h hne
      exact h.setParent hne hclass hnot

/-- The classes that wait for their parents. -/
def ClassDecl.waiting (ctx : Context) (decls : List ClassDecl) : List SymbolId :=
  decls.flatMap fun decl => (ctx.bindings.symbol? decl.id).toList

/-- **All classes get their parents.** -/
theorem ClassDecl.always_bindParents (decls : List ClassDecl) :
    Always (decls.forM ClassDecl.bindParent) fun ctx _ ctx' =>
      (∀ node, ctx.bindings.symbol? node ≠ some SymbolTable.rootClass) →
      ctx.symbols.Rising (ClassDecl.waiting ctx decls) → ctx'.symbols.Rising [] := by
  induction decls with
  | nil => exact fun ctx _ h => h
  | cons decl rest ih =>
      refine (decl.always_bindParent.bind fun _ => ih).mono ?_
      rintro ctx _ ctx' ⟨_, ctx₁, ⟨hbindings, hstep⟩, hrest⟩ hroot h
      have hwaiting : ClassDecl.waiting ctx₁ rest = ClassDecl.waiting ctx rest := by
        unfold ClassDecl.waiting
        rw [hbindings]
      refine hrest (fun node => hbindings ▸ hroot node) ?_
      rw [hwaiting]
      exact hstep _ (hroot decl.id) h

/-- Behind the binding of names, all classes but the root class wait. -/
theorem Unparented.rising {script : Script} {ctx : Context} (h : Unparented script.items ctx) :
    ctx.symbols.Rising (ClassDecl.waiting ctx script.classes) where
  acyclic id hid := by
    obtain ⟨parent, hparent, -⟩ := Relation.TransGen.head'_iff.1 hid
    cases (h.parents id).symm.trans hparent
  unlaid := h.unlaid
  root := h.root
  top := h.parents _
  parents id parent hparent := by cases (h.parents id).symm.trans hparent
  orphans id hclass _ := by
    refine (h.source id hclass).imp_right ?_
    rintro ⟨decl, hdecl, hsymbol⟩
    exact List.mem_flatMap.2 ⟨decl, Script.mem_classes.2 hdecl, by simp [hsymbol]⟩

/-! ## The whole resolution -/

namespace Script

/-- The context in which classes have their parents. -/
def parentedContext (script : Script) : Context :=
  ((script.classes.forM ClassDecl.bindParent).run script.declaredContext).2

/-- Resolution gives classes their parents, and then only edits the table. -/
theorem edits_resolvedContext (script : Script) :
    script.parentedContext.symbols.Edits script.resolvedContext.symbols := by
  have hmembers := script.edits_resolveMembers script.parentedContext
  exact hmembers.trans (FunctionDecl.edits_resolveBodies (script.items.flatMap Item.functions)
    (script.resolveMembers.run script.parentedContext).2)

/-- Whatever is reported, classes have their parents in the end. -/
theorem rising_parentedContext {script : Script} (hids : (script.items.map Item.id).Nodup) :
    script.parentedContext.symbols.Rising [] := by
  have hdeclared : Unparented script.items script.declaredContext :=
    Item.always_declareAll Unparented.declare script.items .initial [] unparented_initial hids
  refine ClassDecl.always_bindParents script.classes script.declaredContext ?_ hdeclared.rising
  intro node hnode
  exact (hdeclared.bound node _ hnode).1 rfl

/-- Whatever is reported, every class descends from the root class in the end. -/
theorem rooted {script : Script} (hids : (script.items.map Item.id).Nodup) :
    script.resolvedContext.symbols.Rooted :=
  (rising_parentedContext hids).rooted.edits script.edits_resolvedContext

/-- Whatever is reported, parents are classes in the end. -/
theorem isSome_class?_parent {script : Script} (hids : (script.items.map Item.id).Nodup)
    {id parent : SymbolId} (h : script.resolvedContext.symbols.parent? id = some parent) :
    (script.resolvedContext.symbols.class? parent).isSome = true := by
  have hsame := script.edits_resolvedContext.sameLineage
  rw [hsame.isSome_class?]
  exact (rising_parentedContext hids).parents id parent ((hsame.parent? id).symm.trans h)

end Script

/-- **Every class descends from the root class**, and layouts are found.  Of no source that
parses does resolution make a table with a circle of classes, or with a class that has no
parent, whatever was reported before; so every class can be laid out. -/
theorem resolve_rooted {source : String} {script : Script} (h : parse source = .ok script) :
    script.resolvedContext.symbols.Rooted ∧
      ∃ t', script.resolvedContext.symbols.finalizeLayouts = (none, t') ∧
        ∀ id, (script.resolvedContext.symbols.class? id).isSome = true →
          (t'.layout? id).isSome = true := by
  have hids := Script.ids_nodup (Script.proper_of_parse h)
  have hrooted := Script.rooted hids
  have hunlaid :=
    script.edits_resolvedContext.unlaid (Script.rising_parentedContext hids).unlaid
  obtain ⟨t', heq, -, hclasses, -⟩ := SymbolTable.finalizeLayouts_kept
    (SymbolTable.keptByLayout_dressed _) hrooted.acyclic hunlaid.dressed
  exact ⟨hrooted, t', heq, hclasses⟩

/-! ## A tangled source -/

/-- Classes that extend themselves, each other, a struct, and a name that is not declared; one is
declared twice. -/
def tangledSource : String :=
  "struct S {} class A extends A {} class B extends C {} class C extends B {} " ++
  "class D extends S {} class E extends X {} class A extends D {}"

/-- One of the errors is reported when names are declared, and the others by resolution. -/
theorem tangled_evaluated :
    (match parse tangledSource with
      | .ok script => script.declaredContext.diagnostics.errorCount == 1 &&
          script.resolvedContext.diagnostics.errorCount == 5
      | .error _ => false) = true := by
  decide +kernel

theorem resolve_rooted_tangled : ∃ script, parse tangledSource = .ok script ∧
    script.declaredContext.diagnostics.errorCount = 1 ∧
    script.resolvedContext.diagnostics.errorCount = 5 ∧
    script.resolvedContext.symbols.Rooted ∧
    ∃ t', script.resolvedContext.symbols.finalizeLayouts = (none, t') ∧
      ∀ id, (script.resolvedContext.symbols.class? id).isSome = true →
        (t'.layout? id).isSome = true := by
  have h := tangled_evaluated
  split at h
  · next script hparse =>
      simp only [Bool.and_eq_true, beq_iff_eq] at h
      exact ⟨script, hparse, h.1, h.2, resolve_rooted hparse⟩
  · cases h

end ClassLang
