import ClassLang.Lower.Stmt
import ClassLang.Proofs.Order.Bodies
import ClassLang.Proofs.Order.Frames

/-!
# What the lowering of a function reads

A function is lowered with its unit at hand.  Two units agree up to the names of the globals of
string literals if symbols that are paired have the same entries, and nodes that correspond have
types and symbols that are paired (`Context.Renamed`); string literals have the same text then.
What a lowering reads off such units is the same: storage types, signatures, and the names that
functions have in the code.
-/

open List (Forall₂)

/-- Lists that correspond are mapped to equal results. -/
theorem List.Forall₂.mapM_eq {α β γ ε : Type} {R : α → β → Prop} {l : List α} {l' : List β}
    {f : α → Except ε γ} {g : β → Except ε γ} (hl : Forall₂ R l l')
    (h : ∀ a b, R a b → g b = f a) : l'.mapM g = l.mapM f := by
  induction hl with
  | nil => rfl
  | cons hab _ ih => rw [List.mapM_cons, List.mapM_cons, h _ _ hab, ih]

namespace ClassLang

/-! ## Signatures -/

namespace SymbolTable

variable {hidden : SymbolId → Prop} {r : SymbolId → SymbolId → Prop} {t t' : SymbolTable}
  {i j : SymbolId}

/-- Storage types name records, and symbols that are paired have the same name. -/
theorem Paired.storageType (h : t.Paired hidden r t') {a b : Ty} (hab : a.Paired r b) :
    t'.storageType b = t.storageType a := by
  induction hab with
  | primitive p => cases p <;> rfl
  | pointer _ ih | array _ _ ih => simp only [SymbolTable.storageType, ih]
  | classType hij | structType hij | function hij => simp only [SymbolTable.storageType, h.name hij]
  | error => rfl

/-- Classes that are paired have the same type of receiver. -/
theorem Paired.receiverType (h : t.Paired hidden r t') (hij : r i j) :
    t'.receiverType j = t.receiverType i := by
  rw [SymbolTable.receiverType, SymbolTable.receiverType, h.name hij]

section

variable (h : t.Paired hidden r t') (hshown : ∀ i, ¬ hidden i) (hij : r i j)

include h hshown hij

/-- Functions that are paired have arguments that are. -/
theorem Paired.arguments : Forall₂ r (t.arguments i) (t'.arguments j) := by
  have hfunction := h.function? hij (hshown i)
  unfold SymbolTable.arguments
  cases he : t.function? i <;> cases he' : t'.function? j <;> rw [he, he'] at hfunction <;>
    cases hfunction
  · exact .nil
  · exact h.declaredArguments ‹_›

/-- **Functions that are paired have the same signature.** -/
theorem Paired.signature : t'.signature j = t.signature i := by
  have hfunction := h.function? hij (hshown i)
  have harguments := h.arguments hshown hij
  have hnames : (t'.arguments j).map t'.name = (t.arguments i).map t.name :=
    harguments.map_eq fun a b hab => h.name hab
  have htypes : ((t'.arguments j).mapM fun arg => t'.storageType (t'.symbolType arg)) =
      (t.arguments i).mapM fun arg => t.storageType (t.symbolType arg) :=
    harguments.mapM_eq fun a b hab => h.storageType (h.symbolType hab (hshown a))
  unfold SymbolTable.signature
  cases he : t.function? i <;> cases he' : t'.function? j <;> rw [he, he'] at hfunction <;>
    cases hfunction
  · dsimp only
    rw [h.name hij]
  · next e e' hentry =>
    have howner := hentry.owner
    dsimp only
    rw [hnames, htypes, h.storageType hentry.returnType, hentry.traits]
    cases ho : e.owner <;> cases ho' : e'.owner <;> rw [ho, ho'] at howner <;> cases howner
    next hoo => simp only [h.receiverType hoo]

/-- Functions that are paired are called alike in the code. -/
theorem Paired.linkName : t'.linkName j = t.linkName i := by
  have hfunction := h.function? hij (hshown i)
  unfold SymbolTable.linkName
  cases he : t.function? i <;> cases he' : t'.function? j <;> rw [he, he'] at hfunction <;>
    cases hfunction
  · exact h.name hij
  · next hentry => exact hentry.linkName

end

/-- Nothing is paired with a string literal. -/
theorem Paired.literal?_left (h : t.Paired hidden r t') (hij : r i j) : t.literal? i = none := by
  obtain ⟨s, s', hs, -, hakin, -⟩ := h i j hij
  rw [SymbolTable.literal?, hs]
  cases hakin <;> rfl

/-- A symbol that is paired is no string literal. -/
theorem Paired.literal?_right (h : t.Paired hidden r t') (hij : r i j) : t'.literal? j = none := by
  obtain ⟨s, s', -, hs', hakin, -⟩ := h i j hij
  rw [SymbolTable.literal?, hs']
  cases hakin <;> rfl

end SymbolTable

/-! ## Units -/

/-- Two string literals with the same text, whose globals are renamed. -/
def SymbolTable.SameText (σ : String → String) (t t' : SymbolTable) (i j : SymbolId) : Prop :=
  ∃ e e', t.literal? i = some e ∧ t'.literal? j = some e' ∧ e'.text = e.text ∧
    e'.globalName = σ e.globalName

/-- Two symbols that are paired, or string literals with the same text. -/
def SymbolTable.Alike (σ : String → String) (r : SymbolId → SymbolId → Prop) (t t' : SymbolTable)
    (i j : SymbolId) : Prop :=
  r i j ∨ t.SameText σ t' i j

/-- Two units that agree up to the names of the globals of string literals. -/
structure Context.Renamed (σ : String → String) (N : NodeId → NodeId → Prop)
    (r : SymbolId → SymbolId → Prop) (c c' : Context) : Prop where
  injective : Function.Injective σ
  unique : Relator.BiUnique r
  table : c.symbols.Paired (fun _ => False) r c'.symbols
  symbol? : ∀ n n', N n n' → Option.Rel (c.symbols.Alike σ r c'.symbols)
    (c.bindings.symbol? n) (c'.bindings.symbol? n')
  type? : ∀ n n', N n n' → Option.Rel (Ty.Paired r) (c.bindings.type? n) (c'.bindings.type? n')

/-- Two sites of the same function. -/
structure Site.Renamed (σ : String → String) (N : NodeId → NodeId → Prop)
    (r : SymbolId → SymbolId → Prop) (site site' : Site) : Prop where
  ctx : site.ctx.Renamed σ N r site'.ctx
  owner : Option.Rel r site.owner site'.owner

section

variable {σ : String → String} {N : NodeId → NodeId → Prop} {r : SymbolId → SymbolId → Prop}
  {c c' : Context} {i j : SymbolId}

/-- A symbol that is no string literal is paired. -/
theorem SymbolTable.Alike.of_get? {t t' : SymbolTable} (hij : t.Alike σ r t' i j) {s : Symbol}
    (hs : t.get? i = some s) (hliteral : s.literal? = none) : r i j := by
  rcases hij with hij | ⟨e, e', he, -⟩
  · exact hij
  · cases hs.symm.trans (SymbolTable.literal?_eq_some_iff.1 he)
    cases hliteral

/-- What is not read off string literals is not read off two of them. -/
theorem SymbolTable.SameText.bind_get? {t t' : SymbolTable} (h : t.SameText σ t' i j) {γ δ : Type}
    {S : γ → δ → Prop} {f : Symbol → Option γ} {g : Symbol → Option δ}
    (hf : ∀ e, f (.literal e) = none) (hg : ∀ e, g (.literal e) = none) :
    Option.Rel S ((t.get? i).bind f) ((t'.get? j).bind g) := by
  obtain ⟨e, e', he, he', -⟩ := h
  rw [SymbolTable.literal?_eq_some_iff.1 he, SymbolTable.literal?_eq_some_iff.1 he',
    Option.bind_some, Option.bind_some, hf, hg]
  exact .none

/-- String literals are stored alike. -/
theorem SymbolTable.SameText.storage {e e' : LiteralEntry} (htext : e'.text = e.text) :
    e.storage.Paired r e'.storage := by
  rw [LiteralEntry.storage, LiteralEntry.storage, htext]
  exact .array _ (.primitive _)

namespace Context.Renamed

/-- Nothing is hidden any more. -/
theorem shown (i : SymbolId) : ¬ (fun _ : SymbolId => False) i := id

variable (h : c.Renamed σ N r c')

include h

/-- Symbols that are alike stand for classes that are paired. -/
theorem class? (hij : c.symbols.Alike σ r c'.symbols i j) :
    Option.Rel (ClassEntry.Paired r) (c.symbols.class? i) (c'.symbols.class? j) :=
  hij.elim (fun hij => h.table.class? hij (shown i)) fun htext =>
    htext.bind_get? (fun _ => rfl) fun _ => rfl

/-- Symbols that are alike stand for structs that are paired. -/
theorem struct? (hij : c.symbols.Alike σ r c'.symbols i j) :
    Option.Rel (StructEntry.Paired r) (c.symbols.struct? i) (c'.symbols.struct? j) :=
  hij.elim (fun hij => h.table.struct? hij (shown i)) fun htext =>
    htext.bind_get? (fun _ => rfl) fun _ => rfl

/-- Symbols that are alike stand for functions that are paired. -/
theorem function? (hij : c.symbols.Alike σ r c'.symbols i j) :
    Option.Rel (FunctionEntry.Paired r) (c.symbols.function? i) (c'.symbols.function? j) :=
  hij.elim (fun hij => h.table.function? hij (shown i)) fun htext =>
    htext.bind_get? (fun _ => rfl) fun _ => rfl

/-- Symbols that are alike stand for fields that are paired. -/
theorem field? (hij : c.symbols.Alike σ r c'.symbols i j) :
    Option.Rel (FieldEntry.Paired r) (c.symbols.field? i) (c'.symbols.field? j) :=
  hij.elim (fun hij => h.table.field? hij (shown i)) fun htext =>
    htext.bind_get? (fun _ => rfl) fun _ => rfl

/-- Symbols that are alike have types that are paired. -/
theorem symbolType (hij : c.symbols.Alike σ r c'.symbols i j) :
    (c.symbols.symbolType i).Paired r (c'.symbols.symbolType j) := by
  rcases hij with hij | ⟨e, e', he, he', htext, -⟩
  · exact h.table.symbolType hij (shown i)
  · have hs := SymbolTable.literal?_eq_some_iff.1 he
    have hs' := SymbolTable.literal?_eq_some_iff.1 he'
    simp only [SymbolTable.symbolType, hs, hs']
    exact SymbolTable.SameText.storage htext

/-- Alike symbols are paired with the same symbols, or with none. -/
theorem eq_iff (hij : c.symbols.Alike σ r c'.symbols i j) (a b : SymbolId) (hab : r a b) :
    i = a ↔ j = b := by
  rcases hij with hij | ⟨e, e', he, he', -⟩
  · exact (Relator.eq_iff_eq h.unique hij hab).symm
  · constructor
    · rintro rfl
      cases he.symm.trans (h.table.literal?_left hab)
    · rintro rfl
      cases he'.symm.trans (h.table.literal?_right hab)

end Context.Renamed

end

namespace Lowering

variable {σ : String → String} {N : NodeId → NodeId → Prop} {r : SymbolId → SymbolId → Prop}
  {site site' : Site} {n n' : NodeId} {i j : SymbolId}

/-- The current label is asked for in step. -/
theorem inStep_currentLabel (site site' : Site) :
    InStep σ r (currentLabel site) (currentLabel site') fun a b => b = a := by
  refine inStep_read fun f f' hf => ?_
  rw [hf.label]
  split
  · exact inStep_pure rfl
  · exact inStep_broken _

/-- A value that is needed is asked for in step. -/
theorem inStep_needed (site site' : Site) (span span' : Span) {x y : Lowering (Option Operand)}
    (hxy : InStep σ r x y fun a b => b = a.map (Operand.rename σ)) :
    InStep σ r (needed site span x) (needed site' span' y) fun a b => b = a.rename σ := by
  refine hxy.bind fun a b hab => ?_
  subst hab
  cases a with
  | none => exact inStep_broken _
  | some a => exact inStep_pure rfl

section

variable (h : site.Renamed σ N r site')

include h

/-- The symbol of a node is asked for in step. -/
theorem inStep_symbolOf (hn : N n n') (facet : Facet) (span span' : Span) :
    InStep σ r (symbolOf site n facet span) (symbolOf site' n' facet span')
      (site.symbols.Alike σ r site'.symbols) := by
  have hsymbol := h.ctx.symbol? n n' hn
  unfold symbolOf
  cases hx : site.ctx.bindings.symbol? n <;> cases hx' : site'.ctx.bindings.symbol? n' <;>
    rw [hx, hx'] at hsymbol <;> cases hsymbol
  · exact inStep_throw _
  · exact inStep_pure ‹_›

/-- The type of a node is asked for in step. -/
theorem inStep_typeOf (hn : N n n') (span span' : Span) :
    InStep σ r (typeOf site n span) (typeOf site' n' span') (Ty.Paired r) := by
  have htype := h.ctx.type? n n' hn
  unfold typeOf
  cases hx : site.ctx.bindings.type? n <;> cases hx' : site'.ctx.bindings.type? n' <;>
    rw [hx, hx'] at htype <;> cases htype
  · exact inStep_throw _
  · exact inStep_pure ‹_›

/-- Types that are paired are stored alike. -/
theorem inStep_storage {a b : Ty} (hab : a.Paired r b) :
    InStep σ r (storage site a) (storage site' b) fun s s' => s' = s :=
  inStep_lift fun s hs => ⟨s, (h.ctx.table.storageType hab).trans hs, rfl⟩

/-- The receiver is asked for in step. -/
theorem inStep_receiver (span span' : Span) :
    InStep σ r (receiver site span) (receiver site' span') fun a b => b = a.rename σ := by
  have howner := h.owner
  unfold receiver
  cases ho : site.owner <;> cases ho' : site'.owner <;> rw [ho, ho'] at howner <;> cases howner
  · exact inStep_throw _
  · next hoo =>
    refine inStep_pure ?_
    rw [show site'.symbols.receiverType _ = site.symbols.receiverType _ from
      h.ctx.table.receiverType hoo]
    rfl

end

end Lowering

end ClassLang
