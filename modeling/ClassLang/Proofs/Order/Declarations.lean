import ClassLang.Proofs.Order.InStep
import ClassLang.Proofs.Order.Trees
import ClassLang.Proofs.Resolve.Acts

/-!
# Declarations are read in step

One lemma for each program that reads declarations: run on trees that are the same apart from
numbers and places, in contexts that agree, it leads to contexts that agree.  The names that a
declaration looks up stand for items, of which only the kind counts; everything else that is read
or changed belongs to the item itself.  So the entries of other items may be hidden.
-/

open List (Forall₂)

namespace ClassLang

open Analysis

variable {part : Part} {m : Pairing}

/-! ## Written types -/

namespace TypeExpr

/-- The base of a type is read in step in scopes that are paired. -/
theorem inStep_resolveBase {base base' : TypeBase} {depth depth' : Nat} {span span' : Span}
    (h : (⟨base', depth', span'⟩ : TypeExpr).bare = (⟨base, depth, span⟩ : TypeExpr).bare)
    {s s' : ScopeId} (hs : m.scopes s s') :
    InStep part m (resolveBase base s) (resolveBase base' s') fun m' t t' =>
      t.Paired m'.symbols t' := by
  cases base with
  | primitive p =>
      cases base' with
      | named ident => simp [bare] at h
      | primitive p' =>
          obtain rfl : p' = p := by simpa [bare] using congrArg TypeExpr.base h
          exact inStep_pure (.primitive p')
  | named ident =>
      cases base' with
      | primitive p' => simp [bare] at h
      | named ident' =>
          have hname : ident'.name = ident.name :=
            Ident.name_eq_of_bare (by simpa [bare] using congrArg TypeExpr.base h)
          refine inStep_read fun c c' hpaired => ?_
          have hlookup := hpaired.lookup? hs ident.name
          rw [hname]
          cases hx : c.scopes.lookup? s ident.name <;>
            cases hx' : c'.scopes.lookup? s' ident.name <;> rw [hx, hx'] at hlookup <;>
            cases hlookup
          · exact inStep_report_return _ _ fun _ _ => .error
          · next i j hij =>
            obtain ⟨x, x', hget, hget', hkind, -⟩ := hpaired.table i j hij
            simp only [hget, hget']
            cases hkind with
            | classEntry => exact inStep_pure (.classType hij)
            | structEntry => exact inStep_pure (.structType hij)
            | _ => exact inStep_mismatch_return _ _ _ _ fun _ _ => .error

/-- A type is read in step in scopes that are paired. -/
theorem inStep_resolve {ty ty' : TypeExpr} (h : ty'.bare = ty.bare) {s s' : ScopeId}
    (hs : m.scopes s s') :
    InStep part m (ty.resolve s) (ty'.resolve s') fun m' t t' => t.Paired m'.symbols t' := by
  have hdepth : ty'.depth = ty.depth := by simpa only [bare] using congrArg TypeExpr.depth h
  refine (inStep_resolveBase h hs).bind fun m' base base' _ hbase => ?_
  have hpointers := hbase.pointers ty.depth
  rw [hdepth]
  cases hbase with
  | error => exact inStep_pure .error
  | _ => exact inStep_pure hpointers

/-- A type to store is read in step in scopes that are paired. -/
theorem inStep_resolveStorage {ty ty' : TypeExpr} (h : ty'.bare = ty.bare) {s s' : ScopeId}
    (hs : m.scopes s s') (what : String) :
    InStep part m (ty.resolveStorage s what) (ty'.resolveStorage s' what) fun m' t t' =>
      t.Paired m'.symbols t' := by
  refine (inStep_resolve h hs).bind fun m' t t' _ ht => ?_
  rw [ht.isVoid]
  split
  · exact inStep_mismatch_return _ _ _ _ fun _ _ => .error
  · exact inStep_pure ht

/-- Types that are the same but for places are both `void` or neither is. -/
theorem isVoid_eq_of_bare {ty ty' : TypeExpr} (h : ty'.bare = ty.bare) :
    ty'.isVoid = ty.isVoid := by
  have hbare : ∀ ty : TypeExpr, ty.bare.isVoid = ty.isVoid := by
    rintro ⟨base, depth, span⟩
    cases base with
    | primitive p => rfl
    | named ident =>
        have hother : ∀ ident : Ident, (TypeBase.named ident == .primitive .void) = false :=
          fun ident => by simp
        simp only [bare, isVoid, hother]
  rw [← hbare ty', h, hbare]

end TypeExpr

/-! ## Fields -/

/-- Fields that are paired are added in step. -/
theorem FieldDecl.inStep_add {f f' : FieldDecl} (hf : f.Paired part.nodes f') {ty ty' : Ty}
    (hty : ty.Paired m.symbols ty') {i j : SymbolId} (hij : m.symbols i j) :
    InStep part m (f.add ty i) (f'.add ty' j) fun m' a b => m'.symbols a b ∧ ¬ part.hidden a := by
  have hsymbol : (Symbol.field { name := f.name.name, span := f.name.span, ty, owner := i }).Paired
      m.symbols (.field { name := f'.name.name, span := f'.name.span, ty := ty', owner := j }) :=
    .field ⟨hf.name, hty, hij, rfl⟩
  refine (inStep_addSymbol hsymbol).bind fun m' a b _ hab => ?_
  exact (inStep_bindSymbol hf.node hab.1 hab.2).bind fun m'' _ _ hle _ =>
    inStep_pure ⟨hle.symbols hab.1, hab.2⟩

/-- A field is added to two records. -/
theorem inStep_pushField {i j a b : SymbolId} (hij : m.symbols i j) (hi : ¬ part.hidden i)
    (hab : m.symbols a b) :
    InStep part m (modifySymbols fun t => t.pushField i a) (modifySymbols fun t => t.pushField j b)
      fun _ _ _ => True := by
  refine inStep_modifySymbol hij hi fun x x' hx => ?_
  have hone : Forall₂ m.symbols [a] [b] := .cons hab .nil
  cases hx with
  | classEntry h => exact .classEntry { h with fields := List.rel_append h.fields hone }
  | structEntry h => exact .structEntry { h with fields := List.rel_append h.fields hone }
  | function h => exact .function h
  | field h => exact .field h
  | argument h => exact .argument h
  | localVariable h => exact .localVariable h
  | variadicMarker => exact .variadicMarker

/-- The entry of a class changes in two tables. -/
theorem inStep_modifyClass {i j : SymbolId} (hij : m.symbols i j) (hi : ¬ part.hidden i)
    {f f' : ClassEntry → ClassEntry}
    (hf : ∀ e e', e.Paired m.symbols e' → (f e).Paired m.symbols (f' e')) :
    InStep part m (modifySymbols fun t => t.modifyClass i f)
      (modifySymbols fun t => t.modifyClass j f') fun _ _ _ => True := by
  refine inStep_modifySymbol hij hi fun x x' hx => ?_
  cases hx with
  | classEntry h => exact .classEntry (hf _ _ h)
  | structEntry h => exact .structEntry h
  | function h => exact .function h
  | field h => exact .field h
  | argument h => exact .argument h
  | localVariable h => exact .localVariable h
  | variadicMarker => exact .variadicMarker

/-- Functions that are paired are listed in classes that are. -/
theorem inStep_pushFunction {i j a b : SymbolId} (hij : m.symbols i j) (hi : ¬ part.hidden i)
    (hab : m.symbols a b) :
    InStep part m (modifySymbols fun t => t.pushFunction i a)
      (modifySymbols fun t => t.pushFunction j b) fun _ _ _ => True :=
  inStep_modifyClass hij hi fun _ _ h =>
    { h with functions := List.rel_append h.functions (.cons hab .nil) }

/-- The first occurrence of a number is exchanged in two lists. -/
theorem SymbolTable.replaceFirst_paired {r : SymbolId → SymbolId → Prop}
    (hunique : Relator.BiUnique r) {l l' : List SymbolId} (hl : Forall₂ r l l') {i j a b : SymbolId}
    (hij : r i j) (hab : r a b) : Forall₂ r (replaceFirst i a l) (replaceFirst j b l') := by
  induction hl with
  | nil => exact .nil
  | cons hxy hrest ih =>
      simp only [replaceFirst, Relator.eq_iff_eq hunique hxy hij]
      split
      · exact .cons hab hrest
      · exact .cons hxy ih

/-- Functions that are paired are exchanged in classes that are. -/
theorem inStep_replaceFunction {i j a b x y : SymbolId} (hij : m.symbols i j)
    (hi : ¬ part.hidden i) (hab : m.symbols a b) (hxy : m.symbols x y) :
    InStep part m (modifySymbols fun t => t.replaceFunction i a x)
      (modifySymbols fun t => t.replaceFunction j b y) fun _ _ _ => True :=
  inStep_modifyClass hij hi fun _ _ h =>
    { h with functions := SymbolTable.replaceFirst_paired m.uniqueSymbols h.functions hab hxy }

/-- Fields of structs that are paired are declared in step. -/
theorem FieldDecl.inStep_declareInStruct {f f' : FieldDecl} (hf : f.Paired part.nodes f')
    {i j : SymbolId} (hij : m.symbols i j) (hi : ¬ part.hidden i) (hroot : m.scopes ScopeTree.root
    ScopeTree.root) :
    InStep part m (f.declareInStruct i) (f'.declareInStruct j) fun _ _ _ => True := by
  refine (TypeExpr.inStep_resolveStorage hf.ty hroot "field").bind fun m₁ t t' h₁ ht => ?_
  refine inStep_read fun c c' hpaired => ?_
  have hfield := hpaired.table.structField? (h₁.symbols hij) hi f.name.name
  rw [hf.name]
  cases hx : c.symbols.structField? i f.name.name <;>
    cases hx' : c'.symbols.structField? j f.name.name <;> rw [hx, hx'] at hfield <;> cases hfield
  · exact (inStep_add hf ht (h₁.symbols hij)).bind fun m₂ a b h₂ hab =>
      inStep_pushField ((h₁.trans h₂).symbols hij) hi hab.1
  · exact inStep_report _ _

/-- Fields of classes that are paired are declared in step. -/
theorem FieldDecl.inStep_declareInClass {f f' : FieldDecl} (hf : f.Paired part.nodes f')
    {i j : SymbolId} (hij : m.symbols i j) (hi : ¬ part.hidden i) {s s' : ScopeId}
    (hs : m.scopes s s') :
    InStep part m (f.declareInClass i s) (f'.declareInClass j s') fun _ _ _ => True := by
  refine (TypeExpr.inStep_resolveStorage hf.ty hs "field").bind fun m₁ t t' h₁ ht => ?_
  refine (inStep_add hf ht (h₁.symbols hij)).bind fun m₂ a b h₂ hab => ?_
  have hle := h₁.trans h₂
  rw [hf.name]
  exact inStep_defineThen (hle.scopes hs) hab.1 _ _ _ fun m₃ h₃ =>
    inStep_pushField ((hle.trans h₃).symbols hij) hi (h₃.symbols hab.1)

/-! ## Signatures -/

/-- Parameters that are paired are declared in step. -/
theorem Param.inStep_declareAll {params params' : List Param}
    (h : Forall₂ (Param.Paired part.nodes) params params') {s s' : ScopeId} (hs : m.scopes s s') :
    InStep part m (Param.declareAll s params) (Param.declareAll s' params') fun m' l l' =>
      Forall₂ m'.symbols l l' := by
  induction h generalizing m with
  | nil => exact inStep_pure .nil
  | @cons p p' _ _ hp _ ih =>
      refine (TypeExpr.inStep_resolveStorage hp.ty hs "parameter").bind fun m₁ t t' h₁ ht => ?_
      have hsymbol : (Symbol.argument ⟨p.name.name, p.name.span, t⟩).Paired m₁.symbols
          (.argument ⟨p'.name.name, p'.name.span, t'⟩) := .argument ⟨hp.name, ht⟩
      refine (inStep_addSymbol hsymbol).bind fun m₂ a b h₂ hab => ?_
      refine (inStep_bindSymbol hp.node hab.1 hab.2).bind fun m₃ _ _ h₃ _ => ?_
      rw [hp.name]
      have hscope := ((h₁.trans h₂).trans h₃).scopes hs
      refine (inStep_define hscope (h₃.symbols hab.1) _ _ _).bind fun m₄ _ _ h₄ _ => ?_
      refine (ih (h₄.scopes hscope)).bind fun m₅ l l' h₅ hl => ?_
      exact inStep_pure (.cons (((h₃.trans h₄).trans h₅).symbols hab.1) hl)

/-- Receivers of classes that are paired are declared in step. -/
theorem FunctionDecl.inStep_declareReceiver {f f' : FunctionDecl} {owner owner' : Option SymbolId}
    (howner : Option.Rel m.symbols owner owner') {s s' : ScopeId} (hs : m.scopes s s') :
    InStep part m (f.declareReceiver s owner) (f'.declareReceiver s' owner') fun _ _ _ => True := by
  cases howner with
  | none => exact inStep_pure trivial
  | @some i j hij =>
      have hsymbol : (Symbol.argument ⟨selfName, f.name.span, .pointer (.classType i)⟩).Paired
          m.symbols (.argument ⟨selfName, f'.name.span, .pointer (.classType j)⟩) :=
        .argument ⟨rfl, .pointer (.classType hij)⟩
      exact (inStep_addSymbol hsymbol).bind fun m₁ a b h₁ hab =>
        (inStep_define (h₁.scopes hs) hab.1 _ _ _).bind fun _ _ _ _ _ => inStep_pure trivial

/-- The mark for further arguments is added in step. -/
theorem inStep_markVariadic (variadic : Bool) {l l' : List SymbolId}
    (hl : Forall₂ m.symbols l l') :
    InStep part m (markVariadic variadic l) (markVariadic variadic l') fun m' a a' =>
      Forall₂ m'.symbols a a' := by
  unfold markVariadic
  split
  · exact (inStep_addSymbol .variadicMarker).bind fun m₁ a b h₁ hab =>
      inStep_pure (List.rel_append (hl.imp fun _ _ => h₁.symbols) (.cons hab.1 .nil))
  · exact inStep_pure hl

/-- Two functions get their signatures, or have them already. -/
theorem inStep_sign {i j : SymbolId} (hij : m.symbols i j) (hi : ¬ part.hidden i) {t t' : Ty}
    (ht : t.Paired m.symbols t') {l l' : List SymbolId} (hl : Forall₂ m.symbols l l')
    (span span' : Span) :
    InStep part m (sign i t l span) (sign j t' l' span') fun _ _ _ => True := by
  intro c c' hpaired
  have hfunction := hpaired.table.function? hij hi
  simp only [sign, StateT.run_bind, StateT.run_get, pure_bind, SymbolTable.setSignature]
  cases he : c.symbols.function? i <;> cases he' : c'.symbols.function? j <;>
    rw [he, he'] at hfunction <;> cases hfunction
  · exact inStep_mismatch _ _ _ _ c c' hpaired
  · next e e' hpe =>
    simp only [hpe.resolved]
    cases e.resolved with
    | true => exact ⟨m, .still ⟨le_refl _, le_refl _⟩ ⟨le_refl _, le_refl _⟩ hpaired, trivial⟩
    | false =>
      have hnew : ({ e with returnType := t, arguments := l, resolved := true } :
          FunctionEntry).Paired m.symbols
          { e' with returnType := t', arguments := l', resolved := true } :=
        { hpe with returnType := ht, arguments := hl, resolved := rfl }
      have hstep := hpaired.modifySymbol hij hi
        (f := fun _ => .function { e with returnType := t, arguments := l, resolved := true })
        (g := fun _ => .function { e' with returnType := t', arguments := l', resolved := true })
        fun _ _ _ _ _ => .function hnew
      have hsize : ∀ (t : SymbolTable) i (f : Symbol → Symbol), t.size ≤ (t.modify i f).size :=
        fun t i f => Nat.le_of_eq (t.size_modify i f).symm
      exact ⟨m, .still ⟨hsize _ _ _, hsize _ _ _⟩ ⟨le_refl _, le_refl _⟩ hstep, trivial⟩

/-- Signatures of functions that are paired are resolved in step. -/
theorem FunctionDecl.inStep_resolveSignature {f f' : FunctionDecl} (hf : f.Paired part.nodes f')
    {i j : SymbolId} (hij : m.symbols i j) (hi : ¬ part.hidden i) {s s' : ScopeId}
    (hs : m.scopes s s') {owner owner' : Option SymbolId}
    (howner : Option.Rel m.symbols owner owner') :
    InStep part m (f.resolveSignature i s owner) (f'.resolveSignature j s' owner')
      fun _ _ _ => True := by
  rw [resolveSignature_eq, resolveSignature_eq, hf.body.isVariadic]
  refine (TypeExpr.inStep_resolve hf.returnType hs).bind fun m₁ t t' h₁ ht => ?_
  refine (inStep_declareReceiver (howner.imp fun _ _ => h₁.symbols) (h₁.scopes hs)).bind
    fun m₂ _ _ h₂ _ => ?_
  have h₁₂ := h₁.trans h₂
  refine (Param.inStep_declareAll hf.params (h₁₂.scopes hs)).bind fun m₃ l l' h₃ hl => ?_
  refine (inStep_markVariadic f.body.isVariadic hl).bind fun m₄ a a' h₄ ha => ?_
  have h := (h₁₂.trans h₃).trans h₄
  exact inStep_sign (h.symbols hij) hi (ht.imp fun _ _ => ((h₂.trans h₃).trans h₄).symbols) ha _ _

/-! ## Members of classes -/

/-- Classes that are paired get their `init` in step. -/
theorem ClassDecl.inStep_installInit {d d' : ClassDecl} (hd : d.Paired part.nodes d')
    {i j : SymbolId} (hij : m.symbols i j) (hi : ¬ part.hidden i) {s s' : ScopeId}
    (hs : m.scopes s s') :
    InStep part m (d.installInit i s) (d'.installInit j s') fun _ _ _ => True := by
  have hsymbol : (Symbol.function { FunctionEntry.memberOf d.name.name i initName none
      { implicit := true } with returnType := .void, resolved := true }).Paired m.symbols
      (.function { FunctionEntry.memberOf d'.name.name j initName none { implicit := true } with
        returnType := .void, resolved := true }) := by
    refine .function ⟨rfl, ?_, .primitive _, .nil, rfl, .some hij, rfl⟩
    simp only [FunctionEntry.memberOf, hd.name]
  exact (inStep_addSymbol hsymbol).bind fun m₁ a b h₁ hab =>
    inStep_defineThen (h₁.scopes hs) hab.1 _ _ _ fun m₂ h₂ =>
      inStep_pushFunction ((h₁.trans h₂).symbols hij) hi (h₂.symbols hab.1)

/-- A name that two scopes bind stands for something else in both. -/
theorem Context.Paired.rebind {c c' : Context} (h : Context.Paired part m c c') {s s' : ScopeId}
    (hs : m.scopes s s') {name : String} {old old' a b : SymbolId}
    (hold : c.scopes.lookupLocal? s name = some old)
    (hold' : c'.scopes.lookupLocal? s' name = some old') (hab : m.symbols a b) :
    Context.Paired part m ((Deed.rebind s name a).apply c) ((Deed.rebind s' name b).apply c') := by
  simp only [Deed.apply, ScopeTree.rebind?_eq hold, ScopeTree.rebind?_eq hold', Option.map_some,
    Option.getD_some]
  refine h.modifyScope hs (fun x => ScopeTree.get?_rebound _ _ _ _ _ _)
    (fun x => ScopeTree.get?_rebound _ _ _ _ _ _) (fun _ => rfl) (fun _ => rfl) ?_
  intro x x' _ _ hx
  refine ⟨hx.kind, hx.parent, fun other => ?_⟩
  rw [Scope.get?_rebind, Scope.get?_rebind]
  split
  · exact (hx.names name).map fun _ _ _ => hab
  · exact hx.names other

/-- A plain `init` takes the place of the one that both classes have, or both collide. -/
theorem FunctionDecl.inStep_bindInit {f f' : FunctionDecl} (hf : f.Paired part.nodes f')
    {i j a b : SymbolId} (hab : m.symbols a b) (hij : m.symbols i j) (hi : ¬ part.hidden i)
    {s s' : ScopeId} (hs : m.scopes s s') (place place' : Span) :
    InStep part m (f.bindInit a i s place) (f'.bindInit b j s' place') fun _ _ _ => True := by
  intro c c' hpaired
  have hlocal := hpaired.lookupLocal? hs initName
  rw [run_bindInit, run_bindInit]
  cases hx : c.scopes.lookupLocal? s initName <;> cases hx' : c'.scopes.lookupLocal? s' initName <;>
    rw [hx, hx'] at hlocal <;> cases hlocal
  · exact inStep_report _ _ c c' hpaired
  · next old old' hold =>
    have hreplaces : f'.replacesInit c' old' = f.replacesInit c old := by
      obtain ⟨x, x', hget, hget', hakin, -⟩ := hpaired.table old old' hold
      simp only [replacesInit, TypeExpr.isVoid_eq_of_bare hf.returnType, hf.params.isEmpty_eq,
        SymbolTable.function?, hget, hget', Option.bind_some]
      cases hakin with
      | function _ htraits => simp only [Symbol.function?, Option.any_some, htraits]
      | _ => rfl
    dsimp only
    rw [hreplaces]
    cases f.replacesInit c old with
    | false => exact inStep_report _ _ c c' hpaired
    | true =>
        have hstep := hpaired.rebind hs hx hx' hab
        have hsize : ∀ (c : Context) (s : ScopeId) (a : SymbolId),
            c.scopes.size ≤ ((Deed.rebind s initName a).apply c).scopes.size := by
          intro c s a
          simp only [Deed.apply, ScopeTree.rebind?]
          cases c.scopes.lookupLocal? s initName <;> simp [ScopeTree.size]
        have hfirst : Advance part m c c' m ((Deed.rebind s initName a).apply c)
            ((Deed.rebind s' initName b).apply c') :=
          .still ⟨le_refl _, le_refl _⟩ ⟨hsize c s a, hsize c' s' b⟩ hstep
        obtain ⟨m', hadvance, -⟩ := inStep_replaceFunction hij hi hold hab _ _ hstep
        exact ⟨m', hfirst.trans hadvance, trivial⟩

/-- Methods of classes that are paired are declared in step. -/
theorem FunctionDecl.inStep_declareInClass {f f' : FunctionDecl} (hf : f.Paired part.nodes f')
    {d d' : ClassDecl} (hd : d.Paired part.nodes d') {i j : SymbolId} (hij : m.symbols i j)
    (hi : ¬ part.hidden i) {s s' : ScopeId} (hs : m.scopes s s') :
    InStep part m (f.declareInClass d i s) (f'.declareInClass d' j s') fun _ _ _ => True := by
  have hsymbol :
      (Symbol.function (.memberOf d.name.name i f.name.name (some f.name.span) {})).Paired m.symbols
        (.function (.memberOf d'.name.name j f'.name.name (some f'.name.span) {})) := by
    refine .function ⟨hf.name, ?_, .error, .nil, rfl, .some hij, rfl⟩
    simp only [FunctionEntry.memberOf, hd.name, hf.name]
  refine (inStep_addSymbol hsymbol).bind fun m₁ a b h₁ hab => ?_
  refine (inStep_bindSymbol hf.node hab.1 hab.2).bind fun m₂ _ _ h₂ _ => ?_
  have h₁₂ := h₁.trans h₂
  refine (inStep_scopeFor hf.node (h₁₂.scopes hs) (.function (h₂.symbols hab.1))).bind
    fun m₃ x x' h₃ hx => ?_
  have h₁₃ := h₁₂.trans h₃
  refine (inStep_resolveSignature hf ((h₂.trans h₃).symbols hab.1) hab.2 hx
    (.some (h₁₃.symbols hij))).bind fun m₄ _ _ h₄ _ => ?_
  have h := h₁₃.trans h₄
  have hab' := ((h₂.trans h₃).trans h₄).symbols hab.1
  rw [hf.name]
  split
  · exact inStep_bindInit hf hab' (h.symbols hij) hi (h.scopes hs) _ _
  · exact inStep_defineThen (h.scopes hs) hab' _ _ _ fun m₅ h₅ =>
      inStep_pushFunction ((h.trans h₅).symbols hij) hi (h₅.symbols hab')

/-! ## Items -/

/-- Structs that are paired declare their fields in step. -/
theorem StructDecl.inStep_declareFields {d d' : StructDecl} (hd : d.Paired part.nodes d')
    (hroot : m.scopes ScopeTree.root ScopeTree.root) :
    InStep part m d.declareFields d'.declareFields fun _ _ _ => True := by
  refine (inStep_symbolOf? hd.node).bind fun m₁ o o' h₁ ho => ?_
  cases ho with
  | none => exact inStep_pure trivial
  | some hij =>
      exact inStep_forM hd.fields fun m₂ f f' h₂ hf =>
        FieldDecl.inStep_declareInStruct hf (h₂.symbols hij.1) hij.2 ((h₁.trans h₂).scopes hroot)

/-- Classes that are paired declare their members in step. -/
theorem ClassDecl.inStep_declareMembers {d d' : ClassDecl} (hd : d.Paired part.nodes d')
    (hroot : m.scopes ScopeTree.root ScopeTree.root) :
    InStep part m d.declareMembers d'.declareMembers fun _ _ _ => True := by
  refine (inStep_symbolOf? hd.node).bind fun m₁ o o' h₁ ho => ?_
  cases ho with
  | none => exact inStep_pure trivial
  | some hij =>
      refine (inStep_scopeFor hd.node (h₁.scopes hroot) (.classBody hij.1)).bind
        fun m₂ s s' h₂ hs => ?_
      refine (inStep_installInit hd (h₂.symbols hij.1) hij.2 hs).bind fun m₃ _ _ h₃ _ => ?_
      refine inStep_forM hd.members fun m₄ f f' h₄ hf => ?_
      have hij' := ((h₂.trans h₃).trans h₄).symbols hij.1
      have hs' := (h₃.trans h₄).scopes hs
      cases hf with
      | field hf => exact FieldDecl.inStep_declareInClass hf hij' hij.2 hs'
      | method hf => exact FunctionDecl.inStep_declareInClass hf hd hij' hij.2 hs'

/-- Free functions that are paired are declared in step. -/
theorem FunctionDecl.inStep_declareFree {f f' : FunctionDecl} (hf : f.Paired part.nodes f')
    (hroot : m.scopes ScopeTree.root ScopeTree.root) :
    InStep part m f.declareFree f'.declareFree fun _ _ _ => True := by
  refine (inStep_symbolOf? hf.node).bind fun m₁ o o' h₁ ho => ?_
  cases ho with
  | none => exact inStep_pure trivial
  | some hij =>
      exact (inStep_scopeFor hf.node (h₁.scopes hroot) (.function hij.1)).bind fun m₂ s s' h₂ hs =>
        inStep_resolveSignature hf (h₂.symbols hij.1) hij.2 hs .none

/-- **Two items that are the same are filled in alike.** -/
theorem Item.inStep_fill {item item' : Item} (h : item.Paired part.nodes item')
    (hroot : m.scopes ScopeTree.root ScopeTree.root) :
    InStep part m item.fill item'.fill fun _ _ _ => True := by
  cases h with
  | classDecl h => exact ClassDecl.inStep_declareMembers h hroot
  | structDecl h => exact StructDecl.inStep_declareFields h hroot
  | function h => exact FunctionDecl.inStep_declareFree h hroot

end ClassLang
