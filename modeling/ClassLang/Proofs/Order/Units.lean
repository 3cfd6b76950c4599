import Mathlib.Data.List.Perm.Basic
import ClassLang.Proofs.Order.Code
import ClassLang.Proofs.Order.Reordering

/-!
# The code of a unit in two orders

The parts of a unit are generated item by item.  Twins have the same declarations and the same code,
up to the names of the globals of string literals, so the code of a unit is the code of the other
one in another order (`Script.Reordered.unitCode`).
-/

open List (Forall₂)

/-! ## Lists of results -/

section

variable {ε α β γ δ : Type}

/-- Results are there for a list if they are there for each element. -/
theorem Except.mapM_eq_ok_iff {f : α → Except ε β} {l : List α} {xs : List β} :
    l.mapM f = .ok xs ↔ Forall₂ (fun a x => f a = .ok x) l xs := by
  induction l generalizing xs with
  | nil =>
      rw [List.forall₂_nil_left_iff]
      exact ⟨fun h => (Except.ok.inj h).symm, fun h => congrArg Except.ok h.symm⟩
  | cons a l ih =>
      rw [List.mapM_cons, List.forall₂_cons_left_iff]
      simp only [← ih]
      cases f a with
      | error _ => simp [bind, Except.bind]
      | ok x =>
          cases l.mapM f with
          | error _ => simp [bind, Except.bind]
          | ok xs => simp [bind, Except.bind, pure, Except.pure, eq_comm]

/-- Two lists with elements that are related, one of them in another order. -/
def List.Shuffled (S : α → β → Prop) (l : List α) (l' : List β) : Prop :=
  ∃ l₁, l.Perm l₁ ∧ Forall₂ S l₁ l'

section

variable {S : α → β → Prop} {R : γ → δ → Prop} {l : List α} {l' : List β}

/-- Lists that are shuffled alike one behind the other are shuffled alike. -/
theorem List.Shuffled.append {m : List α} {m' : List β} (h : List.Shuffled S l l')
    (hm : List.Shuffled S m m') : List.Shuffled S (l ++ m) (l' ++ m') := by
  obtain ⟨l₁, hperm, hall⟩ := h
  obtain ⟨m₁, hpermm, hallm⟩ := hm
  exact ⟨l₁ ++ m₁, hperm.append hpermm, List.rel_append hall hallm⟩

/-- Lists that are shuffled are filtered and mapped to lists that are. -/
theorem List.Shuffled.filterMap {f : α → Option γ} {g : β → Option δ} (h : List.Shuffled S l l')
    (hfg : ∀ a b, S a b → Option.Rel R (f a) (g b)) :
    List.Shuffled R (l.filterMap f) (l'.filterMap g) := by
  obtain ⟨l₁, hperm, hall⟩ := h
  exact ⟨l₁.filterMap f, hperm.filterMap f, List.rel_filterMap (fun a b hab => hfg a b hab) hall⟩

/-- Lists that are shuffled are filtered to lists that are. -/
theorem List.Shuffled.filter {p : α → Bool} {q : β → Bool} (h : List.Shuffled S l l')
    (hpq : ∀ a b, S a b → q b = p a) : List.Shuffled S (l.filter p) (l'.filter q) := by
  obtain ⟨l₁, hperm, hall⟩ := h
  refine ⟨l₁.filter p, hperm.filter p, List.rel_filter (fun a b hab => ?_) hall⟩
  exact Bool.eq_iff_iff.1 (hpq a b hab).symm

/-- Lists of lists that are shuffled are flattened to lists that are. -/
theorem List.Shuffled.flatten {l : List (List α)} {l' : List (List β)}
    (h : List.Shuffled (Forall₂ S) l l') : List.Shuffled S l.flatten l'.flatten := by
  obtain ⟨l₁, hperm, hall⟩ := h
  exact ⟨l₁.flatten, hperm.flatten, List.rel_flatten hall⟩

/-- Lists that are shuffled by a renaming are permutations up to it. -/
theorem List.Shuffled.perm_map {ρ : α → β} (h : List.Shuffled (fun a b => b = ρ a) l l') :
    (l.map ρ).Perm l' := by
  obtain ⟨l₁, hperm, hall⟩ := h
  have hmap : l'.map id = l₁.map ρ := hall.map_eq fun _ _ hab => hab
  rw [← List.map_id l', hmap]
  exact hperm.map ρ

/-- Results follow each other in any order. -/
theorem Except.Follows.mapM_shuffled {f : α → Except ε γ} {g : β → Except ε δ}
    (hl : List.Shuffled S l l') (h : ∀ a b, S a b → Except.Follows R (f a) (g b)) :
    Except.Follows (List.Shuffled R) (l.mapM f) (l'.mapM g) := by
  obtain ⟨l₁, hperm, hall⟩ := hl
  intro xs hxs
  obtain ⟨xs₁, hxs₁, hperm₁⟩ := List.perm_comp_forall₂ hperm.symm (Except.mapM_eq_ok_iff.1 hxs)
  obtain ⟨ys, hys, hsame⟩ := Except.Follows.mapM hall h xs₁ (Except.mapM_eq_ok_iff.2 hxs₁)
  exact ⟨ys, hys, xs₁, hperm₁.symm, hsame⟩

end

/-- Equal answers follow each other. -/
theorem Except.follows_of_eq {x y : Except ε α} (h : y = x) :
    Except.Follows (fun a b => b = a) x y :=
  fun a ha => ⟨a, h.trans ha, rfl⟩

end

namespace ClassLang

/-- String literals have no signature. -/
theorem SymbolTable.SameText.signature {σ : String → String} {t t' : SymbolTable} {i j : SymbolId}
    (h : t.SameText σ t' i j) : t.signature i = .error (.invariant (.isFunction (t.name i))) := by
  obtain ⟨e, e', he, -⟩ := h
  have hnone : t.function? i = none := by
    rw [SymbolTable.function?, SymbolTable.literal?_eq_some_iff.1 he]
    rfl
  rw [SymbolTable.signature, hnone]

namespace Context.Renamed

variable {σ : String → String} {N : NodeId → NodeId → Prop} {r : SymbolId → SymbolId → Prop}
  {c c' : Context} {n n' : NodeId} {i j : SymbolId}

section

variable (h : c.Renamed σ N r c')

include h

/-! ## Declarations -/

/-- Declarations that correspond have symbols that are alike. -/
theorem declared (hn : N n n') (span span' : Span) :
    Except.Follows (c.symbols.Alike σ r c'.symbols) (c.declared n span) (c'.declared n' span') := by
  have hsymbol := h.symbol? n n' hn
  unfold Context.declared
  cases hx : c.bindings.symbol? n <;> cases hx' : c'.bindings.symbol? n' <;>
    rw [hx, hx'] at hsymbol <;> cases hsymbol
  · exact Except.follows_error _
  · exact Except.follows_ok ‹_›

/-- Fields that are paired give the same record. -/
theorem recordFields {fields fields' : List SymbolId} (hfields : Forall₂ r fields fields') :
    c'.recordFields fields' = c.recordFields fields :=
  hfields.mapM_eq fun a b hab => by
    rw [h.table.name hab, h.table.storageType (h.table.symbolType hab (shown a))]

/-- Functions that are paired give the same slots. -/
theorem dispatchSlots {functions functions' : List SymbolId}
    (hfunctions : Forall₂ r functions functions') :
    c'.dispatchSlots functions' = c.dispatchSlots functions :=
  hfunctions.mapM_eq fun a b hab => by
    rw [h.table.signature shown hab, h.table.linkName shown hab]

/-- Structs that correspond are declared by the same code, up to the renaming. -/
theorem structDeclaration {decl decl' : StructDecl} (hdecl : decl.Paired N decl') :
    Except.Follows (fun code code' => code' = code.rename σ) (c.structDeclaration decl)
      (c'.structDeclaration decl') := by
  refine (h.declared hdecl.node _ _).bind fun i j hij => ?_
  have hfields : Forall₂ r (((c.symbols.struct? i).map StructEntry.fields).getD [])
      (((c'.symbols.struct? j).map StructEntry.fields).getD []) := by
    have hstruct := h.struct? hij
    cases he : c.symbols.struct? i <;> cases he' : c'.symbols.struct? j <;>
      rw [he, he'] at hstruct <;> cases hstruct
    · exact .nil
    · next hentry => exact hentry.fields
  refine (Except.follows_of_eq (h.recordFields hfields)).bind fun fields fields' heq => ?_
  rw [heq, hdecl.name]
  exact Except.follows_ok rfl

/-- **Classes that are paired have the same declaration.** -/
theorem classDeclaration (hij : c.symbols.Alike σ r c'.symbols i j) :
    Except.Follows (fun code code' => code' = code.rename σ) (c.classDeclaration i)
      (c'.classDeclaration j) := by
  have hclass := h.class? hij
  unfold Context.classDeclaration
  cases he : c.symbols.class? i <;> cases he' : c'.symbols.class? j <;> rw [he, he'] at hclass <;>
    cases hclass
  · exact Except.follows_error _
  · next e e' hentry =>
    have hlayout := hentry.layout
    dsimp only
    cases hl : e.layout <;> cases hl' : e'.layout <;> rw [hl, hl'] at hlayout <;> cases hlayout
    · exact Except.follows_error _
    · next l l' hpaired =>
      have hparent : Option.Rel (ClassEntry.Paired r) (e.parent.bind c.symbols.class?)
          (e'.parent.bind c'.symbols.class?) :=
        hentry.parent.bind fun a b hab => h.table.class? hab (shown a)
      have hinstance : (e'.parent.bind c'.symbols.class?).map ClassEntry.dispatchInstance =
          (e.parent.bind c.symbols.class?).map ClassEntry.dispatchInstance :=
        hparent.map_eq fun a b hab => by
          rw [ClassEntry.dispatchInstance, ClassEntry.dispatchInstance, hab.name]
      have hrecord : (e'.parent.bind c'.symbols.class?).map ClassEntry.dispatchRecord =
          (e.parent.bind c.symbols.class?).map ClassEntry.dispatchRecord :=
        hparent.map_eq fun a b hab => by
          rw [ClassEntry.dispatchRecord, ClassEntry.dispatchRecord, hab.name]
      refine (Except.follows_of_eq (h.dispatchSlots hpaired.dispatch)).bind
        fun slots slots' hslots => ?_
      refine (Except.follows_of_eq (h.recordFields hpaired.fields)).bind
        fun fields fields' hfields => Except.follows_ok ?_
      rw [hinstance, hrecord, hslots, hfields, hentry.external]
      simp only [ClassEntry.dispatchInstance, ClassEntry.dispatchRecord, ClassEntry.nameGlobal,
        hentry.name, Instruction.rename]

/-- External functions that are alike are declared by the same code, up to the renaming.
-/
theorem externalDeclaration (hij : c.symbols.Alike σ r c'.symbols i j) :
    Except.Follows (fun code code' => code' = code.rename σ) (c.externalDeclaration i)
      (c'.externalDeclaration j) := by
  rcases hij with hij | htext
  · refine (Except.follows_of_eq (h.table.signature shown hij)).bind fun s s' hs => ?_
    subst hs
    rw [h.table.linkName shown hij]
    exact Except.follows_ok rfl
  · rw [Context.externalDeclaration, htext.signature]
    exact Except.follows_error _

/-! ## Functions -/

/-- The site of functions that are paired. -/
theorem ofFunction (hij : r i j) : (Site.ofFunction c i).Renamed σ N r (Site.ofFunction c' j) where
  ctx := h
  owner := (h.table.function? hij (shown i)).bind fun _ _ he => he.owner

/-- Functions that are alike are lowered to the same code, up to the renaming. -/
theorem lowerFunction (hij : c.symbols.Alike σ r c'.symbols i j) {block block' : Option Block}
    (hblock : Option.Rel (fun b b' => b.toStmt.Paired N b'.toStmt) block block') :
    Except.Follows (fun code code' => code' = code.rename σ)
      ((Site.ofFunction c i).lowerFunction i block)
      ((Site.ofFunction c' j).lowerFunction j block') := by
  rcases hij with hij | htext
  · exact (h.ofFunction hij).lowerFunction (h.table.linkName shown hij) hij hblock
  · rw [Site.lowerFunction, show (Site.ofFunction c i).symbols.signature i = _ from htext.signature]
    exact Except.follows_error _

/-- A node is bound to a symbol exactly if the node that corresponds is bound to the symbol that is
paired with it. -/
theorem symbol?_beq (hn : N n n') (hij : r i j) :
    (c'.bindings.symbol? n' == some j) = (c.bindings.symbol? n == some i) := by
  have hsymbol := h.symbol? n n' hn
  cases hx : c.bindings.symbol? n <;> cases hx' : c'.bindings.symbol? n' <;>
    rw [hx, hx'] at hsymbol <;> cases hsymbol
  · rfl
  · next a b hab =>
    rw [Bool.eq_iff_iff, beq_iff_eq, beq_iff_eq, Option.some.injEq, Option.some.injEq]
    exact (h.eq_iff hab i j hij).symm

/-- The code of the functions of a class. -/
theorem methodCode {decl decl' : ClassDecl} (hdecl : decl.Paired N decl') :
    Except.Follows (Forall₂ fun code code' => code' = code.rename σ) (c.methodCode decl)
      (c'.methodCode decl') := by
  refine (h.declared hdecl.node _ _).bind fun i j hij => ?_
  have hfunctions : Forall₂ r (((c.symbols.class? i).map ClassEntry.functions).getD [])
      (((c'.symbols.class? j).map ClassEntry.functions).getD []) := by
    have hclass := h.class? hij
    cases he : c.symbols.class? i <;> cases he' : c'.symbols.class? j <;>
      rw [he, he'] at hclass <;> cases hclass
    · exact .nil
    · next hentry => exact hentry.functions
  have hmethods : Forall₂ (FunctionDecl.Paired N) decl.methods decl'.methods :=
    (Item.Paired.classDecl hdecl).functions
  refine Except.Follows.mapM hfunctions fun f f' hf => h.lowerFunction (.inl hf) ?_
  have hmethod := hmethods.find? fun m m' hm => h.symbol?_beq hm.node hf
  refine hmethod.bind fun m m' hm => ?_
  have hbody := hm.body
  cases hb : m.body <;> cases hb' : m'.body <;> rw [hb, hb'] at hbody <;> cases hbody
  · next hblock => exact .some hblock
  · exact .none

/-- **Items that are paired** have the same code. -/
theorem itemCode {item item' : Item} (hitem : item.Paired N item') :
    Except.Follows (Forall₂ fun code code' => code' = code.rename σ) (c.itemCode item)
      (c'.itemCode item') := by
  cases hitem with
  | classDecl hdecl => exact h.methodCode hdecl
  | structDecl _ => exact Except.follows_ok .nil
  | @function decl decl' hdecl =>
      have hbody := hdecl.body
      simp only [Context.itemCode]
      cases hb : decl.body <;> cases hb' : decl'.body <;> rw [hb, hb'] at hbody <;> cases hbody
      · next hblock =>
        refine (h.declared hdecl.node _ _).bind fun i j hij => ?_
        exact (h.lowerFunction hij (.some hblock)).bind fun code code' hcode =>
          Except.follows_ok (.cons hcode .nil)
      · exact Except.follows_ok .nil

/-! ## Units -/

section

variable {script script' : Script}
  (hitems : List.Shuffled (Item.Paired N) script.items script'.items)

include hitems

/-- The structs of both scripts are declared alike, in another order. -/
theorem structDeclarations :
    Except.Follows (List.Shuffled fun code code' => code' = code.rename σ)
      (script.structs.mapM c.structDeclaration) (script'.structs.mapM c'.structDeclaration) := by
  have hstructs : List.Shuffled (StructDecl.Paired N) script.structs script'.structs :=
    hitems.filterMap fun item item' hitem => by
      cases hitem with
      | structDecl hdecl => exact .some hdecl
      | _ => exact .none
  exact Except.Follows.mapM_shuffled hstructs fun decl decl' hdecl => h.structDeclaration hdecl

/-- The classes of both scripts are declared alike, in another order. -/
theorem classDeclarations :
    Except.Follows (List.Shuffled fun code code' => code' = code.rename σ)
      (script.classes.mapM fun decl => do
        c.classDeclaration (← c.declared decl.id decl.name.span))
      (script'.classes.mapM fun decl => do
        c'.classDeclaration (← c'.declared decl.id decl.name.span)) := by
  have hclasses : List.Shuffled (ClassDecl.Paired N) script.classes script'.classes :=
    hitems.filterMap fun item item' hitem => by
      cases hitem with
      | classDecl hdecl => exact .some hdecl
      | _ => exact .none
  exact Except.Follows.mapM_shuffled hclasses fun decl decl' hdecl =>
    (h.declared hdecl.node _ _).bind fun i j hij => h.classDeclaration hij

/-- The external functions of both scripts are declared alike, in another order. -/
theorem externalDeclarations
    (hmethods : Forall₂ (c.symbols.Alike σ r c'.symbols) c.externalMethods c'.externalMethods) :
    Except.Follows (List.Shuffled fun code code' => code' = code.rename σ)
      (c.externalDeclarations script) (c'.externalDeclarations script') := by
  have hfunctions : List.Shuffled (FunctionDecl.Paired N) script.functions script'.functions :=
    hitems.filterMap fun item item' hitem => by
      cases hitem with
      | function hdecl => exact .some hdecl
      | _ => exact .none
  have hexternal := hfunctions.filter fun decl decl' hdecl => hdecl.body.isExternal
  refine (Except.Follows.mapM_shuffled hexternal fun decl decl' hdecl =>
    h.declared hdecl.node _ _).bind fun written written' hwritten => ?_
  have hall := List.Shuffled.append ⟨_, .refl _, hmethods⟩ hwritten
  exact Except.Follows.mapM_shuffled hall fun i j hij => h.externalDeclaration hij

/-- **The code of a unit** is the code of the other one in another order, if the items are. -/
theorem unitCode
    (hroot : c.symbols.Alike σ r c'.symbols SymbolTable.rootClass SymbolTable.rootClass)
    (hmethods : Forall₂ (c.symbols.Alike σ r c'.symbols) c.externalMethods c'.externalMethods)
    (hliterals : (c.literalDeclarations.map (Instruction.rename σ)).Perm c'.literalDeclarations) :
    Except.Follows (fun unit unit' => (unit.map (Instruction.rename σ)).Perm unit')
      (c.unitCode script) (c'.unitCode script') := by
  refine (h.structDeclarations hitems).bind fun structs structs' hstructs => ?_
  refine (h.classDeclaration hroot).bind fun root root' hroot => ?_
  refine (h.classDeclarations hitems).bind fun classes classes' hclasses => ?_
  refine (h.externalDeclarations hitems hmethods).bind fun externals externals' hexternals => ?_
  refine (Except.Follows.mapM_shuffled hitems fun item item' hitem => h.itemCode hitem).bind
    fun functions functions' hfunctions => Except.follows_ok ?_
  subst hroot
  simp only [List.map_append, List.map_cons]
  exact (((hliterals.append hstructs.perm_map).append (hclasses.perm_map.cons _)).append
    hexternals.perm_map).append hfunctions.flatten.perm_map

end

end

end Context.Renamed

/-- The items of two scripts are twins in two orders. -/
theorem Script.Reordered.shuffled {script script' : Script} (h : Reordered script script') :
    List.Shuffled (Item.Paired h.part.nodes) script.items script'.items := by
  obtain ⟨pairs, pairs', hpairs, hpairs', hperm, htwins⟩ := h.exists_pairs (.refl _) (.refl _)
  refine ⟨pairs'.map Prod.fst, hpairs ▸ (hperm.map Prod.fst).symm, hpairs' ▸ ?_⟩
  rw [List.forall₂_map_left_iff, List.forall₂_map_right_iff, List.forall₂_same]
  exact fun pair hpair => h.paired (htwins pair (hperm.subset hpair))

end ClassLang
