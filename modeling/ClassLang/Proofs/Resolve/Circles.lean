import ClassLang.Proofs.Resolve.Deeds
import ClassLang.Proofs.Resolve.Lineage

/-!
# Circles of `extends` clauses

Classes get their parents one after the other, in the order of their declarations.  A clause is
reported if the class that it names inherits from the class already, and that is found out in a
table that only has the parents of the earlier classes.

On a circle of clauses, this happens once, at the last class of the circle (`ClosesCircle`).  The
invariant is that the table has exactly the clauses of the classes that had their turn, but for
those that close a circle (`Parented`).  `closesCircle_iff` is what makes it go on: a class closes
a circle if and only if the clauses that are in force lead from the class it names back to it.
-/

namespace ClassLang

open Analysis Relation

/-! ## Circles of a relation -/

section

variable {α : Type} {step : α → α → Prop} {order before after : List α} {a b : α}

/-- There is a way from each to the other. -/
def SameCircle (step : α → α → Prop) (a b : α) : Prop := TransGen step a b ∧ TransGen step b a

/-- Being on one circle goes both ways. -/
theorem SameCircle.symm (h : SameCircle step a b) : SameCircle step b a := ⟨h.2, h.1⟩

/-- Being on one circle is transitive. -/
theorem SameCircle.trans {c : α} (h : SameCircle step a b) (h' : SameCircle step b c) :
    SameCircle step a c :=
  ⟨h.1.trans h'.1, h'.2.trans h.2⟩

/-- An element is on a circle, and no other one of the circle comes behind it. -/
def ClosesCircle (step : α → α → Prop) (order : List α) (a : α) : Prop :=
  SameCircle step a a ∧
    ∃ before after, order = before ++ a :: after ∧ ∀ other ∈ after, ¬ SameCircle step a other

/-- What closes a circle has no one of the circle behind it. -/
theorem ClosesCircle.not_behind (h : ClosesCircle step order a) (hnodup : order.Nodup)
    (hall : order = before ++ a :: after) : ∀ other ∈ after, ¬ SameCircle step a other := by
  obtain ⟨-, before', after', hall', hlast⟩ := h
  rw [hall] at hnodup
  obtain ⟨-, hrest, hdisjoint⟩ := List.nodup_append.1 hnodup
  have hbefore : a ∉ before := fun hmem => hdisjoint a hmem a (List.mem_cons_self ..) rfl
  obtain ⟨-, -, rfl⟩ := (List.append_cons_inj_of_notMem hbefore (List.nodup_cons.1 hrest).1).1
    (hall.symm.trans hall')
  exact hlast

/-- Of those in a list that have a property, one is the last. -/
theorem exists_last_of_exists {p : α → Prop} {l : List α} (h : ∃ a ∈ l, p a) :
    ∃ before a after, l = before ++ a :: after ∧ p a ∧ ∀ other ∈ after, ¬ p other := by
  induction l with
  | nil => simp at h
  | cons first rest ih =>
      by_cases hrest : ∃ a ∈ rest, p a
      · obtain ⟨before, a, after, rfl, ha, hlast⟩ := ih hrest
        exact ⟨first :: before, a, after, rfl, ha, hlast⟩
      · obtain ⟨a, ha, hp⟩ := h
        obtain rfl | hmem := List.mem_cons.1 ha
        · exact ⟨[], a, rest, rfl, hp, fun other hother hp => hrest ⟨other, hother, hp⟩⟩
        · exact absurd ⟨a, hmem, hp⟩ hrest

/-- **Every circle is closed once.** -/
theorem existsUnique_closesCircle (hnodup : order.Nodup) (hmem : a ∈ order)
    (h : SameCircle step a a) : ∃! b, SameCircle step a b ∧ ClosesCircle step order b := by
  obtain ⟨before, b, after, hall, hb, hlast⟩ :=
    exists_last_of_exists (p := SameCircle step a) ⟨a, hmem, h⟩
  have hcloses : ClosesCircle step order b :=
    ⟨hb.symm.trans hb, before, after, hall,
      fun other hother hsame => hlast other hother (hb.trans hsame)⟩
  refine ⟨b, ⟨hb, hcloses⟩, ?_⟩
  rintro c ⟨hc, hclosesc⟩
  obtain ⟨-, before', after', hall', hlast'⟩ := id hclosesc
  have hposition : c ∈ before ++ b :: after := by
    rw [← hall, hall']
    simp
  rcases List.mem_append.1 hposition with hbefore | hbehind
  · -- Then the other one comes behind it, and is on the same circle.
    obtain ⟨front, back, rfl⟩ := List.append_of_mem hbefore
    have hsplit : order = front ++ c :: (back ++ b :: after) := by
      rw [hall]
      simp
    exact absurd (hc.symm.trans hb) (hclosesc.not_behind hnodup hsplit b (by simp))
  · rcases List.mem_cons.1 hbehind with rfl | hafter
    · rfl
    · exact absurd hc (hlast c hafter)

/-- The steps that are in force when some have had their turn: those that close no circle. -/
def StepInForce (step : α → α → Prop) (order before : List α) (a b : α) : Prop :=
  step a b ∧ a ∈ before ∧ ¬ ClosesCircle step order a

/-- **An element closes a circle if and only if the steps in force lead back to it**, where every
element has one step at most. -/
theorem closesCircle_iff (hnodup : order.Nodup) (hmem : ∀ {a b}, step a b → a ∈ order)
    (hone : ∀ {a b c}, step a b → step a c → b = c) (hall : order = before ++ a :: after)
    (hstep : step a b) :
    ClosesCircle step order a ↔ ReflTransGen (StepInForce step order before) b a := by
  have hapart := hnodup
  rw [hall] at hapart
  obtain ⟨-, hrest, hdisjoint⟩ := List.nodup_append.1 hapart
  constructor
  · intro hcloses
    have hlast := hcloses.not_behind hnodup hall
    obtain ⟨b', hb', hback⟩ := TransGen.head'_iff.1 hcloses.1.1
    obtain rfl := hone hstep hb'
    have hreach : ReflTransGen step a b := .single hstep
    clear hstep hb'
    -- Whatever stands on the way back is on the circle, so it had its turn and does not close it.
    induction hback using ReflTransGen.head_induction_on with
    | refl => exact .refl
    | @head x y hxy hya ih =>
        by_cases hx : x = a
        · exact hx ▸ .refl
        · have hforth : TransGen step a x :=
            (reflTransGen_iff_eq_or_transGen.1 hreach).resolve_left hx
          have hcircle : SameCircle step a x := ⟨hforth, .head' hxy hya⟩
          have hbefore : x ∈ before := by
            have hin := hmem hxy
            rw [hall] at hin
            rcases List.mem_append.1 hin with hin | hin
            · exact hin
            · rcases List.mem_cons.1 hin with heq | hin
              · exact absurd heq hx
              · exact absurd hcircle (hlast x hin)
          have hopen : ¬ ClosesCircle step order x := by
            intro hclosesx
            obtain ⟨front, back, rfl⟩ := List.append_of_mem hbefore
            have hsplit : order = front ++ x :: (back ++ a :: after) := by
              rw [hall]
              simp
            exact hclosesx.not_behind hnodup hsplit a (by simp) hcircle.symm
          exact .head ⟨hxy, hbefore, hopen⟩ (ih (hreach.tail hxy))
  · intro hback
    have hcircle : TransGen step a a :=
      .head' hstep (ReflTransGen.mono (fun _ _ h => h.1) _ _ hback)
    refine ⟨⟨hcircle, hcircle⟩, before, after, hall, fun other hother hsame => ?_⟩
    -- Whatever can be reached from here stands on the way back.
    have hall : ∀ x, TransGen step a x → ReflTransGen (StepInForce step order before) x a := by
      intro x hx
      induction hx with
      | single hax => exact hone hstep hax ▸ hback
      | tail _ hxy ih =>
          rcases ReflTransGen.cases_head ih with rfl | ⟨z, hxz, hza⟩
          · exact hone hstep hxy ▸ hback
          · exact hone hxz.1 hxy ▸ hza
    rcases ReflTransGen.cases_head (hall other hsame.1) with rfl | ⟨z, hz, -⟩
    · exact (List.nodup_cons.1 hrest).1 hother
    · exact hdisjoint other hz.2.1 other (List.mem_cons_of_mem _ hother) rfl

end

/-! ## What is known when names are bound -/

/-- Names that are bound without a report were free, and no two of them are equal. -/
theorem Item.does_declareAll_apart (items : List Item) :
    Does (Item.declareAll items) fun ctx _ _ => ScopeTree.root < ctx.scopes.size →
      (∀ item ∈ items, ctx.scopes.lookupLocal? ScopeTree.root item.name.name = none) ∧
        items.Pairwise fun a b => a.name.name ≠ b.name.name := by
  induction items with
  | nil => exact (does_pure _).mono fun _ _ _ _ _ => ⟨by simp, .nil⟩
  | cons item rest ih =>
      refine (item.does_declare.bind fun bound => ih.bind fun declared => does_pure _).mono ?_
      rintro ctx _ ctx' ⟨_, _, ⟨hfree, rfl⟩, _, _, hrest, -, rfl⟩ hroot
      obtain ⟨hothers, hapart⟩ := hrest (by simpa [Context.declareItem] using hroot)
      simp only [Context.declareItem, ScopeTree.lookupLocal?_bind_same _ _ hroot hfree] at hothers
      refine ⟨List.forall_mem_cons.2 ⟨hfree, fun other hother => ?_⟩,
        List.pairwise_cons.2 ⟨fun other hother heq => ?_, hapart⟩⟩
      · have hfreeOther := hothers other hother
        split at hfreeOther
        · cases hfreeOther
        · exact hfreeOther
      · have hfreeOther := hothers other hother
        rw [if_pos heq.symm] at hfreeOther
        cases hfreeOther

/-- Whether an error is about circular inheritance. -/
def SemanticError.isCircular : SemanticError → Bool
  | .mismatch (.circularInheritance ..) _ => true
  | _ => false

/-- A class with an `extends` clause has the parent it names. -/
theorem ClassDecl.parentName_eq {decl : ClassDecl} {ident : Ident} (h : decl.parent = some ident) :
    decl.parentName = ident.name := by
  rw [parentName, h]
  rfl

/-- Reports change nothing about the items. -/
theorem Outline.diagnostics {items : List Item} {ctx : Context} (h : Outline items ctx)
    (ds : Diagnostics) : Outline items { ctx with diagnostics := ds } :=
  { h with
    ok := ⟨h.ok.table, h.ok.tree, h.ok.bound, h.ok.root⟩
    names := h.names }

namespace Script

variable {script : Script} {decl other : ClassDecl}

/-- The `extends` clause of a class names a class of the script. -/
def Extends (script : Script) (decl other : ClassDecl) : Prop :=
  decl ∈ script.classes ∧ other ∈ script.classes ∧
    ∃ ident, decl.parent = some ident ∧ ident.name = other.name.name

/-- A name stands for a class: the root class, or one of the script. -/
def NamesClass (script : Script) (name : String) (id : SymbolId) : Prop :=
  (name = rootClassName ∧ id = SymbolTable.rootClass) ∨
    ∃ decl ∈ script.classes, decl.name.name = name ∧
      script.declaredContext.bindings.symbol? decl.id = some id

/-- What is known about the classes of a script whose names are bound without a report. -/
structure Declares (script : Script) : Prop where
  outline : Outline script.items script.declaredContext
  unparented : Unparented script.items script.declaredContext
  unnamed : ∀ decl ∈ script.classes, decl.name.name ≠ rootClassName
  named : ∀ {a b : Item}, a ∈ script.items → b ∈ script.items → a.name.name = b.name.name → a = b

/-- A script whose declarations were clean declares its items. -/
theorem declares (hids : (script.items.map Item.id).Nodup) (h : script.declaredContext.Clean) :
    script.Declares := by
  obtain ⟨-, houtline⟩ := Item.does_declareAll script.items .initial _ _ rfl h
  obtain ⟨-, hfresh⟩ := Item.does_declareAll_apart script.items .initial _ _ rfl h
  obtain ⟨hfree, hnames⟩ := hfresh (by decide)
  constructor
  · exact houtline [] Context.outline_initial (by simpa [List.Nodup, List.pairwise_map] using hids)
  · exact Item.always_declareAll Unparented.declare script.items .initial [] unparented_initial hids
  · intro decl hdecl heq
    have hfree : Context.initial.scopes.lookupLocal? ScopeTree.root decl.name.name = none :=
      hfree _ (mem_classes.1 hdecl)
    rw [heq] at hfree
    cases hfree
  · intro a b ha hb heq
    exact List.inj_on_of_nodup_map (List.pairwise_map.2 hnames) ha hb heq

variable {ctx : Context}

namespace Declares

/-- No class is declared twice. -/
theorem nodup (h : script.Declares) : script.classes.Nodup :=
  h.outline.classes_apart.imp fun hne heq => hne (by rw [heq])

/-- Classes of one name are one class. -/
theorem eq_of_name (h : script.Declares) (hdecl : decl ∈ script.classes)
    (hother : other ∈ script.classes) (heq : decl.name.name = other.name.name) : decl = other := by
  cases h.named (mem_classes.1 hdecl) (mem_classes.1 hother) heq
  rfl

/-- A class names one class at most. -/
theorem extends_unique (h : script.Declares) {next : ClassDecl} (hother : script.Extends decl other)
    (hnext : script.Extends decl next) : other = next := by
  obtain ⟨-, hmem, ident, hident, hname⟩ := hother
  obtain ⟨-, hmem', ident', hident', hname'⟩ := hnext
  cases hident.symm.trans hident'
  exact h.eq_of_name hmem hmem' (hname.symm.trans hname')

/-- A class that is known to name a class of the script names it in its clause. -/
theorem extends_of_parentName (h : script.Declares) (hdecl : decl ∈ script.classes)
    (hother : other ∈ script.classes) (hname : other.name.name = decl.parentName) :
    script.Extends decl other := by
  unfold ClassDecl.parentName at hname
  cases hclause : decl.parent with
  | none =>
      rw [hclause] at hname
      exact absurd hname (h.unnamed other hother)
  | some ident =>
      rw [hclause] at hname
      exact ⟨hdecl, hother, ident, hclause, hname.symm⟩

/-- Every class has a symbol, which is not that of the root class. -/
theorem symbol (h : script.Declares) (hdecl : decl ∈ script.classes) :
    ∃ id, script.declaredContext.bindings.symbol? decl.id = some id ∧
      id ≠ SymbolTable.rootClass := by
  obtain ⟨id, s, hid, -, -, hroot⟩ := h.outline.bound _ (mem_classes.1 hdecl)
  exact ⟨id, hid, hroot⟩

/-- Classes of one symbol are one class. -/
theorem eq_of_symbol (h : script.Declares) (hdecl : decl ∈ script.classes)
    (hother : other ∈ script.classes) {id : SymbolId}
    (hid : script.declaredContext.bindings.symbol? decl.id = some id)
    (hid' : script.declaredContext.bindings.symbol? other.id = some id) : decl = other := by
  have hids : (script.classes.map fun decl =>
      script.declaredContext.bindings.symbol? decl.id).Nodup :=
    List.pairwise_map.2 h.outline.classes_apart
  exact List.inj_on_of_nodup_map hids hdecl hother (hid.trans hid'.symm)

/-- A name stands for one class at most. -/
theorem namesClass_unique (h : script.Declares) {name : String} {id id' : SymbolId}
    (hid : script.NamesClass name id) (hid' : script.NamesClass name id') : id = id' := by
  rcases hid with ⟨hroot, rfl⟩ | ⟨decl, hdecl, hname, hid⟩ <;>
    rcases hid' with ⟨hroot', rfl⟩ | ⟨other, hother, hname', hid'⟩
  · rfl
  · exact absurd (hname'.trans hroot) (h.unnamed other hother)
  · exact absurd (hname.trans hroot') (h.unnamed decl hdecl)
  · obtain rfl := h.eq_of_name hdecl hother (hname.trans hname'.symm)
    exact Option.some.inj (hid.symm.trans hid')

/-- What is found under a name is a class if and only if the name stands for a class. -/
theorem namesClass_iff (h : script.Declares) (houtline : Outline script.items ctx)
    (hbindings : ctx.bindings = script.declaredContext.bindings) {name : String} {id : SymbolId} :
    script.NamesClass name id ↔
      ctx.scopes.lookup? ScopeTree.root name = some id ∧ (ctx.symbols.class? id).isSome = true := by
  rw [houtline.lookup?, Context.topLevel?, hbindings]
  constructor
  · rintro (⟨rfl, rfl⟩ | ⟨decl, hdecl, rfl, hid⟩)
    · obtain ⟨entry, hentry, -⟩ := houtline.root
      exact ⟨if_pos rfl, by rw [hentry]; rfl⟩
    · have hitem := mem_classes.1 hdecl
      have hnamed : Item.named? script.items decl.name.name = some (.classDecl decl) := by
        cases hfind : Item.named? script.items decl.name.name with
        | none =>
            have hnone := List.find?_eq_none.1 hfind _ hitem
            simp [Item.name] at hnone
        | some item =>
            have hname : item.name.name = decl.name.name := by
              simpa using List.find?_some hfind
            rw [h.named (List.mem_of_find?_eq_some hfind) hitem hname]
      obtain ⟨id', s, hid', hs, houtlines, -⟩ := houtline.bound _ hitem
      rw [hbindings] at hid'
      cases hid.symm.trans hid'
      refine ⟨by rw [if_neg (h.unnamed decl hdecl), hnamed]; exact hid, ?_⟩
      cases s <;> simp only [Item.Outlines] at houtlines
      simp [SymbolTable.class?, hs, Symbol.class?]
  · rintro ⟨hid, hclass⟩
    split at hid
    · next hroot => exact .inl ⟨hroot, (Option.some.inj hid).symm⟩
    · obtain ⟨item, hnamed, hid⟩ := Option.bind_eq_some_iff.1 hid
      have hitem := List.mem_of_find?_eq_some hnamed
      have hname : item.name.name = name := by simpa using List.find?_some hnamed
      obtain ⟨id', s, hid', hs, houtlines, -⟩ := houtline.bound _ hitem
      rw [hbindings] at hid'
      cases hid.symm.trans hid'
      -- Only the symbol of a class has a class.
      have hsymbol : s.class?.isSome = true := by simpa [SymbolTable.class?, hs] using hclass
      cases s <;> simp only [Symbol.class?, Option.isSome_none, Bool.false_eq_true] at hsymbol
      cases item with
      | classDecl decl => exact .inr ⟨decl, mem_classes.2 hitem, hname, hid⟩
      | structDecl decl => cases houtlines
      | function decl => cases houtlines

end Declares

/-! ## Giving parents -/

/-- A class closes a circle of `extends` clauses. -/
def Closes (script : Script) (decl : ClassDecl) : Prop :=
  ClosesCircle script.Extends script.classes decl

/-- The parent that a class is given: the one that it names, unless that would close a circle. -/
def GivenParent (script : Script) (decl : ClassDecl) (parent : SymbolId) : Prop :=
  (¬ script.Closes decl ∧ script.NamesClass decl.parentName parent) ∨
    (parent = SymbolTable.rootClass ∧
      (script.Closes decl ∨ ∀ id, ¬ script.NamesClass decl.parentName id))

/-- Some classes have their parents, and the others have none yet. -/
structure Parented (script : Script) (before : List ClassDecl) (ctx : Context) : Prop where
  outline : Outline script.items ctx
  bindings : ctx.bindings = script.declaredContext.bindings
  given : ∀ decl ∈ before, ∀ id, ctx.bindings.symbol? decl.id = some id →
    ∃ parent, ctx.symbols.parent? id = some parent ∧ script.GivenParent decl parent
  waiting : ∀ decl ∈ script.classes, decl ∉ before → ∀ id,
    ctx.bindings.symbol? decl.id = some id → ctx.symbols.parent? id = none

variable {before after : List ClassDecl}

/-- The root class has no parent. -/
theorem Parented.parent?_rootClass (h : script.Parented before ctx) :
    ctx.symbols.parent? SymbolTable.rootClass = none := by
  obtain ⟨entry, hentry, -, -, hnone⟩ := h.outline.root
  rw [SymbolTable.parent?, hentry]
  exact hnone

/-- Nothing but the root class is an ancestor of the root class. -/
theorem Parented.not_inherits_rootClass (h : script.Parented before ctx) {id : SymbolId}
    (hid : id ≠ SymbolTable.rootClass) : ¬ ctx.symbols.Inherits SymbolTable.rootClass id := by
  intro hinherits
  rcases ReflTransGen.cases_head hinherits with heq | ⟨parent, hparent, -⟩
  · exact hid heq.symm
  · cases h.parent?_rootClass.symm.trans hparent

/-- **The table has the clauses that are in force**, and no others. -/
theorem Parented.inherits_iff (hdeclares : script.Declares) (h : script.Parented before ctx)
    (hdecl : decl ∈ script.classes) (hother : other ∈ script.classes) {id otherId : SymbolId}
    (hid : ctx.bindings.symbol? decl.id = some id)
    (hotherId : ctx.bindings.symbol? other.id = some otherId) :
    ctx.symbols.Inherits otherId id ↔
      ReflTransGen (StepInForce script.Extends script.classes before) other decl := by
  rw [h.bindings] at hid hotherId
  constructor
  · intro hinherits
    have hroot : id ≠ SymbolTable.rootClass := by
      obtain ⟨id', hid', hne⟩ := hdeclares.symbol hdecl
      exact Option.some.inj (hid.symm.trans hid') ▸ hne
    induction hinherits using ReflTransGen.head_induction_on generalizing other with
    | refl => exact hdeclares.eq_of_symbol hother hdecl hotherId hid ▸ .refl
    | @head lower upper hupper hrest ih =>
        have hbefore : other ∈ before := by
          by_contra hnot
          cases hupper.symm.trans (h.waiting other hother hnot lower (h.bindings ▸ hotherId))
        obtain ⟨parent, hparent, hgiven⟩ := h.given other hbefore lower (h.bindings ▸ hotherId)
        cases hupper.symm.trans hparent
        rcases hgiven with ⟨hopen, ⟨-, rfl⟩ | ⟨next, hnext, hname, hnextId⟩⟩ | ⟨rfl, -⟩
        · exact absurd hrest (h.not_inherits_rootClass hroot)
        · have hextends := hdeclares.extends_of_parentName hother hnext hname
          exact .head ⟨hextends, hbefore, hopen⟩ (ih hnext hnextId)
        · exact absurd hrest (h.not_inherits_rootClass hroot)
  · intro hforce
    induction hforce using ReflTransGen.head_induction_on generalizing otherId with
    | refl => exact Option.some.inj (hid.symm.trans hotherId) ▸ .refl
    | @head lower upper hstep hrest ih =>
        obtain ⟨⟨-, hupper, ident, hident, hname⟩, hbefore, hopen⟩ := hstep
        obtain ⟨upperId, hupperId, -⟩ := hdeclares.symbol hupper
        obtain ⟨parent, hparent, hgiven⟩ := h.given lower hbefore otherId (h.bindings ▸ hotherId)
        have hnamed : script.NamesClass lower.parentName upperId :=
          .inr ⟨upper, hupper, by rw [ClassDecl.parentName_eq hident, hname], hupperId⟩
        have hsame : parent = upperId := by
          rcases hgiven with ⟨-, hparentNamed⟩ | ⟨-, hcloses | hnone⟩
          · exact hdeclares.namesClass_unique hparentNamed hnamed
          · exact absurd hcloses hopen
          · exact absurd hnamed (hnone upperId)
        exact .head (hsame ▸ hparent) (ih hupper hupperId)

/-- What looking for the parent of a class does to a context. -/
inductive FindsParent (script : Script) (decl : ClassDecl) (id : SymbolId) (ctx : Context) :
    SymbolId → List SemanticError → Prop
  | named {parent : SymbolId} (hname : script.NamesClass decl.parentName parent)
      (hnot : ¬ ctx.symbols.Inherits parent id) :
      FindsParent script decl id ctx parent []
  | circular {ident : Ident} {parent : SymbolId} (hclause : decl.parent = some ident)
      (hname : script.NamesClass decl.parentName parent) (hup : ctx.symbols.Inherits parent id) :
      FindsParent script decl id ctx SymbolTable.rootClass
        [.mismatch (.circularInheritance decl.name.name ident.name) ident.span]
  | unnamed {error : SemanticError} (hnone : ∀ parent, ¬ script.NamesClass decl.parentName parent)
      (herror : error.isCircular = false) :
      FindsParent script decl id ctx SymbolTable.rootClass [error]

/-- A class finds its parent, or reports why it has none. -/
theorem Parented.resolveParent (hdeclares : script.Declares) (h : script.Parented before ctx)
    (decl : ClassDecl) {id : SymbolId} (hid : id ≠ SymbolTable.rootClass) :
    ∃ parent errors, script.FindsParent decl id ctx parent errors ∧
      (decl.resolveParent id).run ctx =
        (parent, { ctx with diagnostics := ctx.diagnostics.reportAll errors }) := by
  have hnames (name : String) (parent : SymbolId) : script.NamesClass name parent ↔
      ctx.scopes.lookup? ScopeTree.root name = some parent ∧
        (ctx.symbols.class? parent).isSome = true :=
    hdeclares.namesClass_iff h.outline h.bindings
  unfold ClassDecl.resolveParent
  cases hclause : decl.parent with
  | none =>
      have hname : script.NamesClass decl.parentName SymbolTable.rootClass :=
        .inl ⟨by simp [ClassDecl.parentName, hclause], rfl⟩
      exact ⟨_, _, .named hname (h.not_inherits_rootClass hid), rfl⟩
  | some ident =>
      have hparentName := ClassDecl.parentName_eq hclause
      rw [StateT.run_bind, StateT.run_get, pure_bind]
      dsimp only
      cases hlookup : ctx.scopes.lookup? ScopeTree.root ident.name with
      | none =>
          have hnone : ∀ parent, ¬ script.NamesClass decl.parentName parent := by
            intro parent hname
            rw [hparentName, hnames, hlookup] at hname
            cases hname.1
          have herror : (SemanticError.unresolved ident.name ident.span).isCircular = false := rfl
          exact ⟨_, _, .unnamed hnone herror, rfl⟩
      | some parent =>
          cases hclass : ctx.symbols.class? parent with
          | none =>
              simp only [hclass]
              refine ⟨_, _, .unnamed ?_ rfl, rfl⟩
              · intro other hname
                rw [hparentName, hnames, hlookup] at hname
                cases hname.1
                simp [hclass] at hname
          | some entry =>
              have hname : script.NamesClass decl.parentName parent := by
                rw [hparentName, hnames, hlookup, hclass]
                exact ⟨rfl, rfl⟩
              simp only [hclass]
              cases hsub : ctx.symbols.isSubclassOf parent id with
              | true =>
                  have hup : ctx.symbols.Inherits parent id :=
                    SymbolTable.inherits_of_mem_ancestorsUpTo (List.contains_iff_mem.1 hsub)
                  exact ⟨_, _, .circular hclause hname hup, rfl⟩
              | false =>
                  have hnot := SymbolTable.not_inherits_of_isSubclassOf h.outline.acyclic hsub
                  exact ⟨_, _, .named hname hnot, rfl⟩

/-- A class names the class that a circle goes on with. -/
theorem Closes.exists_extends (h : script.Closes decl) :
    ∃ other ident, script.Extends decl other ∧ decl.parent = some ident ∧
      ident.name = other.name.name := by
  obtain ⟨other, hextends, -⟩ := TransGen.head'_iff.1 h.1.1
  obtain ⟨-, -, ident, hident, hname⟩ := id hextends
  exact ⟨other, ident, hextends, hident, hname⟩

/-- **A clause leads back if and only if it closes a circle.** -/
theorem Parented.inherits_iff_closes (hdeclares : script.Declares)
    (h : script.Parented before ctx) (hall : script.classes = before ++ decl :: after)
    {id parent : SymbolId} {ident : Ident} (hid : ctx.bindings.symbol? decl.id = some id)
    (hclause : decl.parent = some ident) (hname : script.NamesClass decl.parentName parent) :
    ctx.symbols.Inherits parent id ↔ script.Closes decl := by
  rw [ClassDecl.parentName_eq hclause] at hname
  have hdecl : decl ∈ script.classes := by
    rw [hall]
    simp
  rcases hname with ⟨hroot, rfl⟩ | ⟨other, hother, hname, hotherId⟩
  · have hne : id ≠ SymbolTable.rootClass := by
      obtain ⟨id', hid', hne⟩ := hdeclares.symbol hdecl
      exact Option.some.inj ((h.bindings ▸ hid).symm.trans hid') ▸ hne
    refine ⟨fun hinherits => absurd hinherits (h.not_inherits_rootClass hne), fun hcloses => ?_⟩
    obtain ⟨other, ident', hextends, hident', hname⟩ := hcloses.exists_extends
    cases hclause.symm.trans hident'
    exact absurd (hname.symm.trans hroot) (hdeclares.unnamed other hextends.2.1)
  · have hextends : script.Extends decl other := ⟨hdecl, hother, ident, hclause, hname.symm⟩
    rw [h.inherits_iff hdeclares hdecl hother hid (h.bindings ▸ hotherId)]
    exact (closesCircle_iff hdeclares.nodup And.left hdeclares.extends_unique hall hextends).symm

/-- What giving a class its parent says: a circle is reported if the class closes one, and a
class that is named otherwise is the parent, without a report. -/
structure SaysOf (script : Script) (decl : ClassDecl) (parent : SymbolId)
    (errors : List SemanticError) : Prop where
  given : script.GivenParent decl parent
  circular : (∃ error ∈ errors, error.isCircular = true) ↔ script.Closes decl
  closing : script.Closes decl → ∃ ident, decl.parent = some ident ∧
    errors = [.mismatch (.circularInheritance decl.name.name ident.name) ident.span]
  silent : ¬ script.Closes decl → ∀ other, script.NamesClass decl.parentName other → errors = []

/-- What a class finds is what the clauses say. -/
theorem FindsParent.saysOf (hdeclares : script.Declares) (h : script.Parented before ctx)
    (hall : script.classes = before ++ decl :: after) {id parent : SymbolId}
    {errors : List SemanticError} (hid : ctx.bindings.symbol? decl.id = some id)
    (hfinds : script.FindsParent decl id ctx parent errors) :
    script.SaysOf decl parent errors := by
  cases hfinds with
  | named hname hnot =>
      have hopen : ¬ script.Closes decl := by
        intro hcloses
        obtain ⟨-, ident, -, hclause, -⟩ := hcloses.exists_extends
        exact hnot ((h.inherits_iff_closes hdeclares hall hid hclause hname).2 hcloses)
      exact ⟨.inl ⟨hopen, hname⟩, by simp [hopen], fun hcloses => absurd hcloses hopen,
        fun _ _ _ => rfl⟩
  | @circular ident parent hclause hname hup =>
      have hcloses := (h.inherits_iff_closes hdeclares hall hid hclause hname).1 hup
      exact ⟨.inr ⟨rfl, .inl hcloses⟩, by simp [hcloses, SemanticError.isCircular],
        fun _ => ⟨ident, hclause, rfl⟩, fun hopen => absurd hcloses hopen⟩
  | unnamed hnone herror =>
      have hopen : ¬ script.Closes decl := by
        intro hcloses
        obtain ⟨other, ident, hextends, hclause, hname⟩ := hcloses.exists_extends
        obtain ⟨otherId, hotherId, -⟩ := hdeclares.symbol hextends.2.1
        have hnamed : other.name.name = decl.parentName := by
          rw [ClassDecl.parentName_eq hclause, hname]
        exact hnone otherId (.inr ⟨other, hextends.2.1, hnamed, hotherId⟩)
      exact ⟨.inr ⟨rfl, .inr hnone⟩, by simp [hopen, herror], fun hcloses => absurd hcloses hopen,
        fun _ other hname => absurd hname (hnone other)⟩

/-- A parent that is found does not inherit from the class. -/
theorem FindsParent.not_inherits (h : script.Parented before ctx) {id parent : SymbolId}
    (hid : id ≠ SymbolTable.rootClass) {errors : List SemanticError}
    (hfinds : script.FindsParent decl id ctx parent errors) : ¬ ctx.symbols.Inherits parent id := by
  cases hfinds with
  | named _ hnot => exact hnot
  | circular => exact h.not_inherits_rootClass hid
  | unnamed => exact h.not_inherits_rootClass hid

/-- **One more class gets its parent.** -/
theorem Parented.bindParent (hdeclares : script.Declares) (h : script.Parented before ctx)
    (hall : script.classes = before ++ decl :: after) :
    ∃ parent errors, script.SaysOf decl parent errors ∧
      (decl.bindParent.run ctx).2.diagnostics = ctx.diagnostics.reportAll errors ∧
      script.Parented (before ++ [decl]) (decl.bindParent.run ctx).2 := by
  have hdecl : decl ∈ script.classes := by
    rw [hall]
    simp
  obtain ⟨id, hid, hroot⟩ := hdeclares.symbol hdecl
  rw [← h.bindings] at hid
  obtain ⟨parent, errors, hfinds, hresolve⟩ := h.resolveParent hdeclares decl hroot
  have hsaid := hfinds.saysOf hdeclares h hall hid
  have hrun := decl.run_bindParent hid
  rw [hresolve] at hrun
  refine ⟨parent, errors, hsaid, by rw [hrun], ?_⟩
  rw [hrun]
  have hown : script.NamesClass decl.name.name id := .inr ⟨decl, hdecl, rfl, h.bindings ▸ hid⟩
  have hclass := ((hdeclares.namesClass_iff h.outline h.bindings).1 hown).2
  have hothers : ∀ other ∈ script.classes, other ≠ decl → ∀ otherId,
      ctx.bindings.symbol? other.id = some otherId →
      (ctx.symbols.setParent id parent).parent? otherId = ctx.symbols.parent? otherId := by
    intro other hother hne otherId hotherId
    have hapart : otherId ≠ id := by
      rintro rfl
      rw [h.bindings] at hid hotherId
      exact hne (hdeclares.eq_of_symbol hother hdecl hotherId hid)
    simp [SymbolTable.parent?_setParent, hapart]
  have hnodup := hdeclares.nodup
  rw [hall] at hnodup
  constructor
  · exact (h.outline.setParent hroot (hfinds.not_inherits h hroot)).diagnostics _
  · exact h.bindings
  · intro other hother otherId hotherId
    rcases List.mem_append.1 hother with hbefore | hnow
    · have hne : other ≠ decl := (List.nodup_append.1 hnodup).2.2 other hbefore decl (by simp)
      have hmem : other ∈ script.classes := by
        rw [hall]
        exact List.mem_append_left _ hbefore
      rw [hothers other hmem hne otherId hotherId]
      exact h.given other hbefore otherId hotherId
    · obtain rfl := List.mem_singleton.1 hnow
      cases hid.symm.trans hotherId
      exact ⟨parent, by simp [SymbolTable.parent?_setParent, hclass], hsaid.given⟩
  · intro other hother hnot otherId hotherId
    rw [List.mem_append, List.mem_singleton, not_or] at hnot
    rw [hothers other hother hnot.2 otherId hotherId]
    exact h.waiting other hother hnot.1 otherId hotherId

/-- The context in which some classes have had their turn. -/
def contextBehind (script : Script) (before : List ClassDecl) : Context :=
  ((before.forM ClassDecl.bindParent).run script.declaredContext).2

/-- One more class has its turn behind the others. -/
theorem contextBehind_append (before : List ClassDecl) (decl : ClassDecl) :
    script.contextBehind (before ++ [decl]) =
      (decl.bindParent.run (script.contextBehind before)).2 := by
  simp [contextBehind, List.forM_append]
  rfl

/-- **However many classes have had their turn**, the table has the clauses that are in force. -/
theorem parented_contextBehind (hdeclares : script.Declares)
    (hall : script.classes = before ++ after) :
    script.Parented before (script.contextBehind before) := by
  induction before using List.reverseRecOn generalizing after with
  | nil =>
      exact ⟨hdeclares.outline, rfl, by simp, fun _ _ _ _ _ => hdeclares.unparented.parents _⟩
  | append_singleton before decl ih =>
      rw [List.append_assoc] at hall
      rw [contextBehind_append]
      obtain ⟨_, _, -, -, hparented⟩ := (ih hall).bindParent hdeclares hall
      exact hparented

end Script

/-! ## What is reported, and what is obeyed -/

/-- **Circular inheritance is reported once on every circle, at its last class**, and every other
clause that names a class is obeyed.  This holds of every script whose names are bound without a
report, at the turn of each of its classes: what is reported then is one error about the circle if
the class closes one; and if not, but its clause names a class, then nothing is reported and that
class is its parent for good. -/
theorem Script.bindParents_circular {script : Script} (hids : (script.items.map Item.id).Nodup)
    (hclean : script.declaredContext.Clean) {before after : List ClassDecl} {decl : ClassDecl}
    (hall : script.classes = before ++ decl :: after) :
    (SameCircle script.Extends decl decl →
      ∃! last, SameCircle script.Extends decl last ∧ script.Closes last) ∧
    ∃ errors,
      (decl.bindParent.run (script.contextBehind before)).2.diagnostics =
        (script.contextBehind before).diagnostics.reportAll errors ∧
      ((∃ error ∈ errors, error.isCircular = true) ↔ script.Closes decl) ∧
      (script.Closes decl → ∃ ident, decl.parent = some ident ∧
        errors = [.mismatch (.circularInheritance decl.name.name ident.name) ident.span]) ∧
      ∀ ident parent, decl.parent = some ident → script.NamesClass ident.name parent →
        ¬ script.Closes decl → errors = [] ∧
          ∃ id, script.declaredContext.bindings.symbol? decl.id = some id ∧
            script.resolvedContext.symbols.parent? id = some parent := by
  have hdeclares := Script.declares hids hclean
  have hdecl : decl ∈ script.classes := by
    rw [hall]
    simp
  refine ⟨existsUnique_closesCircle hdeclares.nodup hdecl, ?_⟩
  have hbefore := Script.parented_contextBehind hdeclares hall
  obtain ⟨_, errors, hsaid, hdiagnostics, -⟩ := hbefore.bindParent hdeclares hall
  refine ⟨errors, hdiagnostics, hsaid.circular, hsaid.closing,
    fun ident parent hclause hname hopen => ?_⟩
  rw [← ClassDecl.parentName_eq hclause] at hname
  refine ⟨hsaid.silent hopen parent hname, ?_⟩
  -- The parent is the one that the table has when all classes have had their turn.
  have hend : script.Parented script.classes script.parentedContext :=
    Script.parented_contextBehind hdeclares (List.append_nil _).symm
  obtain ⟨id, hid, -⟩ := hdeclares.symbol hdecl
  obtain ⟨parent', hparent, hgiven⟩ := hend.given decl hdecl id (hend.bindings ▸ hid)
  have hsame : parent' = parent := by
    rcases hgiven with ⟨-, hnamed⟩ | ⟨-, hcloses | hnone⟩
    · exact hdeclares.namesClass_unique hnamed hname
    · exact absurd hcloses hopen
    · exact absurd hname (hnone parent)
  exact ⟨id, hid, by rw [script.edits_resolvedContext.sameLineage.parent?, hparent, hsame]⟩

/-! ## A source with circles -/

/-- Two classes that extend each other, one that hangs off them, and one that extends itself. -/
def circlesSource : String :=
  "class A extends B {} class B extends A {} class C extends B {} class D extends D {}"

/-- Nothing is reported at the first class, and a circle at the second one. -/
theorem circles_evaluated :
    (match parse circlesSource with
      | .ok script => !script.declaredContext.diagnostics.hasErrors &&
          (match script.classes with
            | first :: second :: _ =>
              (script.contextBehind [first]).diagnostics.semantic.isEmpty &&
                (second.bindParent.run (script.contextBehind [first])).2.diagnostics.semantic.any
                  SemanticError.isCircular
            | _ => false)
      | .error _ => false) = true := by
  decide +kernel

/-- Two concrete classes that extend each other: the second one closes the circle. -/
theorem Script.bindParents_circular_mutual : ∃ script first second rest,
    parse circlesSource = .ok script ∧ script.declaredContext.Clean ∧
    script.classes = first :: second :: rest ∧ script.Closes second ∧ ¬ script.Closes first := by
  have h := circles_evaluated
  split at h
  · next script hparse =>
      rw [Bool.and_eq_true, Bool.not_eq_true'] at h
      obtain ⟨hclean, hclasses⟩ := h
      split at hclasses
      · next first second rest hall =>
          rw [Bool.and_eq_true] at hclasses
          have hempty := List.isEmpty_iff.1 hclasses.1
          have hany := hclasses.2
          have hids := Script.ids_nodup (Script.proper_of_parse hparse)
          have hall' : script.classes = [] ++ first :: second :: rest := hall
          obtain ⟨-, errors, hreports, hfirst, -⟩ := Script.bindParents_circular hids hclean hall'
          have hall' : script.classes = [first] ++ second :: rest := hall
          obtain ⟨-, errors', hreports', hsecond, -⟩ :=
            Script.bindParents_circular hids hclean hall'
          rw [← Script.contextBehind_append, List.nil_append] at hreports
          rw [hreports, Diagnostics.reportAll_eq, List.append_eq_nil_iff] at hempty
          rw [hreports', hreports, Diagnostics.reportAll_eq, Diagnostics.reportAll_eq, hempty.1,
            hempty.2] at hany
          have hcloses : script.Closes second := hsecond.1 (by simpa using hany)
          refine ⟨script, first, second, rest, hparse, hclean, hall, hcloses, fun hopen => ?_⟩
          obtain ⟨error, herror, -⟩ := hfirst.2 hopen
          rw [hempty.2] at herror
          cases herror
      · cases hclasses
  · cases h

end ClassLang
