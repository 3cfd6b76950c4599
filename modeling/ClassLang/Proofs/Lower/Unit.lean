import ClassLang.Proofs.Lower.Function

/-!
# The code of a complete script

All parts of a unit can be generated for a complete script.  The result is described by
`Generates`: part by part, each instruction of the unit is the declaration or the code of one
symbol, and the symbols are listed by the items of the script.
-/

namespace ClassLang

section

variable {α β : Type} {R : α → β → Prop} {l : List α} {l' : List β}

theorem List.Forall₂.exists_right (h : List.Forall₂ R l l') {a : α} (ha : a ∈ l) :
    ∃ b ∈ l', R a b := by
  induction h with
  | nil => simp at ha
  | cons hab _ ih =>
      rcases List.mem_cons.1 ha with rfl | ha
      · exact ⟨_, List.mem_cons_self .., hab⟩
      · obtain ⟨b, hb, hr⟩ := ih ha
        exact ⟨b, List.mem_cons_of_mem _ hb, hr⟩

theorem List.Forall₂.exists_left (h : List.Forall₂ R l l') {b : β} (hb : b ∈ l') :
    ∃ a ∈ l, R a b := by
  induction h with
  | nil => simp at hb
  | cons hab _ ih =>
      rcases List.mem_cons.1 hb with rfl | hb
      · exact ⟨_, List.mem_cons_self .., hab⟩
      · obtain ⟨a, ha, hr⟩ := ih hb
        exact ⟨a, List.mem_cons_of_mem _ ha, hr⟩

end

/-! ## Declarations -/

/-- The record that an instruction declares: its name and its fields. -/
def Instruction.record? : Instruction → Option (String × List RecordField)
  | .structRecord name fields => some (name, fields)
  | .classRecord record => some (record.name, record.fields)
  | _ => none

/-- The fields of a record in generated code are the symbols that it stores, in order: they have
their names and their types. -/
def SymbolTable.FieldsOf (table : SymbolTable) (slots : List SymbolId)
    (fields : List RecordField) : Prop :=
  List.Forall₂ (fun slot field => field.name = table.name slot ∧
    table.storageType (table.symbolType slot) = .ok field.ty) slots fields

section

variable {ctx : Context} {script : Script}

theorem Context.declared_eq {node : NodeId} {id : SymbolId}
    (h : ctx.bindings.symbol? node = some id) (span : Span) : ctx.declared node span = .ok id := by
  simp [Context.declared, h]

/-- Fields can be declared. -/
theorem Context.recordFields_eq (hok : ctx.symbols.Ok) {slots : List SymbolId}
    (h : ∀ f ∈ slots, (ctx.symbols.field? f).isSome = true) :
    ∃ fields, ctx.recordFields slots = .ok fields ∧ ctx.symbols.FieldsOf slots fields := by
  refine List.mapM_ok fun f hf => ?_
  obtain ⟨entry, hentry⟩ := Option.isSome_iff_exists.1 (h f hf)
  obtain ⟨t, ht, -⟩ := (hok.field hentry).1.storageType
  have hs := SymbolTable.field?_eq_some_iff.1 hentry
  have hty : ctx.symbols.storageType (ctx.symbols.symbolType f) = .ok t := by
    simpa [SymbolTable.symbolType, hs] using ht
  exact ⟨⟨ctx.symbols.name f, t⟩, by rw [hty]; rfl, rfl, hty⟩

theorem SymbolTable.Ok.struct_fields {table : SymbolTable} (hok : table.Ok) {id : SymbolId}
    {entry : StructEntry} (hentry : table.struct? id = some entry) {f : SymbolId}
    (hf : f ∈ entry.fields) : (table.field? f).isSome = true := by
  have hs := SymbolTable.struct?_eq_some_iff.1 hentry
  have hsok := hok id _ hs
  obtain ⟨e, he, -⟩ := hsok.2 f hf
  simp [he]

/-- A struct is declared with the fields that it stores. -/
def IsStructCode (ctx : Context) (id : SymbolId) (i : Instruction) : Prop :=
  ∃ entry fields, ctx.symbols.struct? id = some entry ∧
    ctx.symbols.FieldsOf (ctx.symbols.slots id) fields ∧ i = .structRecord entry.name fields

/-- A dispatch slot holds a function that can be called. -/
def Context.IsSlot (ctx : Context) (slot : DispatchSlot) : Prop :=
  ∃ function names, ctx.symbols.Callable function ∧
    slot.function = ctx.symbols.linkName function ∧
    ctx.symbols.signature function = .ok (slot.signature, names)

/-- The declaration of a class with some fields and slots. -/
def Context.classRecord (ctx : Context) (entry : ClassEntry) (fields : List RecordField)
    (slots : List DispatchSlot) : ClassRecord :=
  ⟨entry.name, fields,
    ⟨entry.dispatchRecord, entry.dispatchInstance,
      (entry.parent.bind ctx.symbols.class?).map ClassEntry.dispatchInstance,
      (entry.parent.bind ctx.symbols.class?).map ClassEntry.dispatchRecord, entry.nameGlobal,
      slots⟩,
    entry.external⟩

/-- A class is declared with the fields that it stores, and with its dispatch record. -/
def IsClassCode (ctx : Context) (id : SymbolId) (i : Instruction) : Prop :=
  ∃ entry fields slots, ctx.symbols.class? id = some entry ∧
    ctx.symbols.FieldsOf (ctx.symbols.slots id) fields ∧ (∀ slot ∈ slots, ctx.IsSlot slot) ∧
    i = .classRecord (ctx.classRecord entry fields slots)

/-- An external function is declared with its signature. -/
def IsExternalCode (ctx : Context) (function : SymbolId) (i : Instruction) : Prop :=
  ∃ entry signature, ctx.symbols.function? function = some entry ∧
    ctx.symbols.signature function = .ok (signature, ctx.symbols.parameterNames entry) ∧
    i = .externalFunction entry.linkName signature

/-- A struct can be declared. -/
theorem Context.structDeclaration_eq (hok : ctx.symbols.Ok) {decl : StructDecl} {id : SymbolId}
    {entry : StructEntry} (hsymbol : ctx.bindings.symbol? decl.id = some id)
    (hentry : ctx.symbols.struct? id = some entry) (hname : entry.name = decl.name.name) :
    ∃ i, ctx.structDeclaration decl = .ok i ∧ IsStructCode ctx id i := by
  obtain ⟨fields, hfields, hall⟩ := ctx.recordFields_eq hok
    fun f hf => hok.struct_fields hentry hf
  have hslots : ((ctx.symbols.struct? id).map StructEntry.fields).getD [] = entry.fields := by
    rw [hentry]
    rfl
  refine ⟨.structRecord entry.name fields, ?_, entry, fields, hentry, ?_, rfl⟩
  · rw [Context.structDeclaration, Context.declared_eq hsymbol]
    change (do return Instruction.structRecord decl.name.name (← ctx.recordFields
      (((ctx.symbols.struct? id).map StructEntry.fields).getD []))) = _
    rw [hslots, hfields, hname]
    rfl
  · rwa [SymbolTable.slots_of_struct? hentry]

/-- A class can be declared. -/
theorem Context.classDeclaration_eq (htable : ctx.symbols.Lowerable) {id : SymbolId}
    {entry : ClassEntry} (hentry : ctx.symbols.class? id = some entry) :
    ∃ i, ctx.classDeclaration id = .ok i ∧ IsClassCode ctx id i := by
  obtain ⟨layout, hlayout, hdispatch, hfields⟩ := htable.placed.layouts id entry hentry
  obtain ⟨fields, hrecord, hall⟩ := ctx.recordFields_eq htable.ok hfields
  have hslots : ∃ slots, ctx.dispatchSlots layout.dispatch = .ok slots ∧
      List.Forall₂ (fun _ slot => ctx.IsSlot slot) layout.dispatch slots := by
    refine List.mapM_ok fun g hg => ?_
    obtain ⟨e, he⟩ := htable.ok.callable_function (hdispatch g hg)
    obtain ⟨signature, hsignature, -⟩ := htable.signature he
    exact ⟨_, by rw [hsignature]; rfl, g, _, hdispatch g hg, rfl, hsignature⟩
  obtain ⟨slots, hslots, hcallable⟩ := hslots
  have hlayout? : ctx.symbols.layout? id = some layout := by
    simp [SymbolTable.layout?, hentry, hlayout]
  simp only [Context.classDeclaration, hentry, hlayout, hslots, hrecord]
  refine ⟨_, rfl, entry, fields, slots, hentry, ?_, fun slot hslot => ?_, rfl⟩
  · rwa [SymbolTable.slots_of_layout? hlayout?]
  · obtain ⟨-, -, hisSlot⟩ := List.Forall₂.exists_left hcallable hslot
    exact hisSlot

/-- An external function can be declared. -/
theorem Context.externalDeclaration_eq (htable : ctx.symbols.Lowerable) {function : SymbolId}
    {entry : FunctionEntry} (hentry : ctx.symbols.function? function = some entry) :
    ∃ i, ctx.externalDeclaration function = .ok i ∧ IsExternalCode ctx function i := by
  obtain ⟨signature, hsignature, -⟩ := htable.signature hentry
  refine ⟨.externalFunction entry.linkName signature, ?_, entry, signature, hentry, hsignature, rfl⟩
  rw [Context.externalDeclaration, hsignature, SymbolTable.linkName_eq hentry]
  rfl

/-- The external functions among the items. -/
def Context.externalsOf (ctx : Context) : Item → List SymbolId
  | .function decl =>
    if decl.body.isExternal then (ctx.bindings.symbol? decl.id).toList else []
  | _ => []

/-- The functions of an item that have code. -/
def Context.functionsOf (ctx : Context) : Item → List SymbolId
  | .classDecl decl =>
    (((ctx.bindings.symbol? decl.id).bind ctx.symbols.class?).map ClassEntry.functions).getD []
  | .structDecl _ => []
  | .function decl =>
    if decl.body.isExternal then [] else (ctx.bindings.symbol? decl.id).toList

/-- Every class, struct or function outside classes but the root class is one of the items. -/
theorem Complete.item_source (h : Complete script ctx) {id : SymbolId} {s : Symbol}
    (hs : ctx.symbols.get? id = some s) (hisItem : s.IsItem) (hid : id ≠ SymbolTable.rootClass) :
    ∃ item ∈ script.items, ctx.bindings.symbol? item.id = some id ∧
      item.Holds (Checked ctx) ctx id := by
  rcases h.source id s hs hisItem with heq | ⟨item, hitem, hsymbol⟩
  · exact absurd heq hid
  · obtain ⟨id', hholds⟩ := h.checked item hitem
    cases hsymbol.symm.trans hholds.1
    exact ⟨item, hitem, hsymbol, hholds⟩

theorem Complete.class_source (h : Complete script ctx) {id : SymbolId} {entry : ClassEntry}
    (hentry : ctx.symbols.class? id = some entry) (hid : id ≠ SymbolTable.rootClass) :
    ∃ decl, .classDecl decl ∈ script.items ∧ ctx.bindings.symbol? decl.id = some id ∧
      entry.name = decl.name.name ∧ entry.external = false := by
  have hs := SymbolTable.class?_eq_some_iff.1 hentry
  obtain ⟨item, hitem, hsymbol, -, hholds⟩ := h.item_source hs trivial hid
  cases item with
  | classDecl decl =>
      obtain ⟨⟨entry', hentry', hname, hexternal⟩, -⟩ := hholds
      cases hentry.symm.trans hentry'
      exact ⟨decl, hitem, hsymbol, hname, hexternal⟩
  | structDecl decl =>
      obtain ⟨entry', hentry', -⟩ := hholds
      simp [SymbolTable.struct?, hs, Symbol.struct?] at hentry'
  | function decl =>
      obtain ⟨-, entry', hentry', -⟩ := hholds
      simp [SymbolTable.function?, hs, Symbol.function?] at hentry'

theorem Complete.struct_source (h : Complete script ctx) {id : SymbolId} {entry : StructEntry}
    (hentry : ctx.symbols.struct? id = some entry) :
    ∃ decl, .structDecl decl ∈ script.items ∧ ctx.bindings.symbol? decl.id = some id := by
  have hs := SymbolTable.struct?_eq_some_iff.1 hentry
  obtain ⟨rootEntry, hroot, -⟩ := h.root
  have hid : id ≠ SymbolTable.rootClass := by
    rintro rfl
    cases (SymbolTable.class?_eq_some_iff.1 hroot).symm.trans hs
  obtain ⟨item, hitem, hsymbol, -, hholds⟩ := h.item_source hs trivial hid
  cases item with
  | classDecl decl =>
      obtain ⟨⟨entry', hentry', -⟩, -⟩ := hholds
      simp [SymbolTable.class?, hs, Symbol.class?] at hentry'
  | structDecl decl => exact ⟨decl, hitem, hsymbol⟩
  | function decl =>
      obtain ⟨-, entry', hentry', -⟩ := hholds
      simp [SymbolTable.function?, hs, Symbol.function?] at hentry'

theorem Complete.function_source (h : Complete script ctx) {id : SymbolId} {entry : FunctionEntry}
    (hentry : ctx.symbols.function? id = some entry) (howner : entry.owner = none) :
    ∃ decl, .function decl ∈ script.items ∧ ctx.bindings.symbol? decl.id = some id := by
  have hs := SymbolTable.function?_eq_some_iff.1 hentry
  obtain ⟨rootEntry, hroot, -⟩ := h.root
  have hid : id ≠ SymbolTable.rootClass := by
    rintro rfl
    cases (SymbolTable.class?_eq_some_iff.1 hroot).symm.trans hs
  obtain ⟨item, hitem, hsymbol, -, hholds⟩ := h.item_source hs howner hid
  cases item with
  | classDecl decl =>
      obtain ⟨⟨entry', hentry', -⟩, -⟩ := hholds
      simp [SymbolTable.class?, hs, Symbol.class?] at hentry'
  | structDecl decl =>
      obtain ⟨entry', hentry', -⟩ := hholds
      simp [SymbolTable.struct?, hs, Symbol.struct?] at hentry'
  | function decl => exact ⟨decl, hitem, hsymbol⟩

/-- Only the functions of the root class are defined outside the unit. -/
theorem Complete.externalMethods_eq (h : Complete script ctx) {entry : ClassEntry}
    (hentry : ctx.symbols.class? SymbolTable.rootClass = some entry)
    (hexternal : entry.external = true) : ctx.externalMethods = entry.functions := by
  obtain ⟨rest, hclassIds, hrest⟩ := SymbolTable.classIds_eq_cons hentry
  -- No class behind the root class is external.
  have hnone : ((rest.filterMap ctx.symbols.class?).flatMap fun e =>
      if e.external then e.functions else []) = [] := by
    refine List.flatMap_eq_nil_iff.2 fun e he => ?_
    obtain ⟨id, hid, hclass'⟩ := List.mem_filterMap.1 he
    obtain ⟨-, -, -, -, hinternal⟩ := h.class_source hclass' (hrest id hid)
    simp [hinternal]
  rw [Context.externalMethods, hclassIds, List.filterMap_cons_some hentry, List.flatMap_cons, hnone,
    List.append_nil]
  simp [hexternal]

/-- What an item lists as its functions are functions. -/
theorem Complete.item_functions (h : Complete script ctx) {item : Item}
    (hitem : item ∈ script.items) {g : SymbolId}
    (hg : g ∈ ctx.externalsOf item ++ ctx.functionsOf item) :
    ∃ entry, ctx.symbols.function? g = some entry := by
  obtain ⟨id, hsymbol, hholds⟩ := h.checked item hitem
  cases item with
  | classDecl decl =>
      obtain ⟨⟨entry, hentry, -⟩, -⟩ := hholds
      have hof : g ∈ entry.functions := by
        simpa [Context.externalsOf, Context.functionsOf, hentry,
          show ctx.bindings.symbol? decl.id = some id from hsymbol] using hg
      obtain ⟨e, he, -⟩ := h.table.class_functions hentry hof
      exact ⟨e, he⟩
  | structDecl decl => simp [Context.externalsOf, Context.functionsOf] at hg
  | function decl =>
      obtain ⟨-, entry, hentry, -⟩ := hholds
      have hof : g = id := by
        simp only [Context.externalsOf, Context.functionsOf,
          show ctx.bindings.symbol? decl.id = some id from hsymbol] at hg
        split at hg <;> simpa using hg
      exact ⟨entry, hof ▸ hentry⟩

/-- The external functions of a script are bound to symbols. -/
theorem Complete.written_eq (h : Complete script ctx) :
    ((script.functions.filter (·.body.isExternal)).mapM fun decl =>
      ctx.declared decl.id decl.name.span) = .ok (script.items.flatMap ctx.externalsOf) := by
  have hbound : ∀ item ∈ script.items, ∃ id, ctx.bindings.symbol? item.id = some id := by
    intro item hitem
    obtain ⟨id, hsymbol, -⟩ := h.checked item hitem
    exact ⟨id, hsymbol⟩
  unfold Script.functions
  revert hbound
  induction script.items with
  | nil => exact fun _ => rfl
  | cons item rest ih =>
      intro hbound
      have ih' := ih fun item' hmem => hbound item' (List.mem_cons_of_mem _ hmem)
      obtain ⟨id, hsymbol⟩ := hbound item (List.mem_cons_self ..)
      cases item with
      | classDecl decl => exact ih'
      | structDecl decl => exact ih'
      | function decl =>
          simp only [List.filterMap_cons]
          rw [List.flatMap_cons]
          cases hkind : decl.body.isExternal with
          | false =>
              rw [List.filter_cons_of_neg (by simp [hkind])]
              simpa [Context.externalsOf, hkind] using ih'
          | true =>
              have hsymbol' : ctx.bindings.symbol? decl.id = some id := hsymbol
              have hof : ctx.externalsOf (.function decl) = [id] := by
                simp [Context.externalsOf, hkind, hsymbol']
              rw [List.filter_cons_of_pos (by simp [hkind]), List.mapM_cons, ih', hof,
                Context.declared_eq hsymbol']
              rfl

/-- External functions can be declared. -/
theorem Complete.externalDeclarations_eq (h : Complete script ctx)
    (htable : ctx.symbols.Lowerable) {entry : ClassEntry}
    (hentry : ctx.symbols.class? SymbolTable.rootClass = some entry)
    (hexternal : entry.external = true) :
    ∃ code, ctx.externalDeclarations script = .ok code ∧ List.Forall₂ (IsExternalCode ctx)
      (entry.functions ++ script.items.flatMap ctx.externalsOf) code := by
  have hfunctions : ∀ g ∈ entry.functions ++ script.items.flatMap ctx.externalsOf, ∃ e,
      ctx.symbols.function? g = some e := by
    intro g hg
    rcases List.mem_append.1 hg with hg | hg
    · obtain ⟨e, he, -⟩ := htable.ok.class_functions hentry hg
      exact ⟨e, he⟩
    · obtain ⟨item, hitem, hof⟩ := List.mem_flatMap.1 hg
      exact h.item_functions hitem (List.mem_append_left _ hof)
  obtain ⟨code, hcode, hall⟩ := List.mapM_ok fun g hg => by
    obtain ⟨e, he⟩ := hfunctions g hg
    exact Context.externalDeclaration_eq htable he
  refine ⟨code, ?_, hall⟩
  rw [Context.externalDeclarations, h.written_eq, h.externalMethods_eq hentry hexternal]
  exact hcode

end

/-! ## Functions -/

/-- The code of a function. -/
def IsFunctionCode (ctx : Context) (id : SymbolId) (instruction : Instruction) : Prop :=
  ∃ block entry signature region, IsCodeOf ctx id block entry signature region ∧
    instruction = .function entry.linkName signature (ctx.symbols.parameterNames entry) region.code

/-- The code of a declared function that has a body. -/
def IsDeclaredCode (ctx : Context) (decl : FunctionDecl) (instruction : Instruction) : Prop :=
  ∃ block ∈ decl.body.block?, ∃ id entry signature region,
    ctx.bindings.symbol? decl.id = some id ∧
    IsCodeOf ctx id (some block) entry signature region ∧
    instruction = .function entry.linkName signature (ctx.symbols.parameterNames entry) region.code

/-- The code of a function that is not written in the source: it only returns. -/
def IsImplicitCode (instruction : Instruction) : Prop :=
  ∃ name signature names, instruction = .function name signature names [.ret none]

/-- A function that has a body has code in a list. -/
def HasCode (ctx : Context) (code : List Instruction) (decl : FunctionDecl) : Prop :=
  ∀ block ∈ decl.body.block?, ∃ id entry signature region,
    ctx.bindings.symbol? decl.id = some id ∧
    IsCodeOf ctx id (some block) entry signature region ∧
    .function entry.linkName signature (ctx.symbols.parameterNames entry) region.code ∈ code

section

variable {ctx : Context} {script : Script}

/-- The string literals of a function are bound to their texts. -/
theorem Complete.textBound (h : Complete script ctx) {decl : FunctionDecl}
    (hdecl : decl ∈ script.items.flatMap Item.functions) {visit : Visit}
    (hvisit : visit ∈ decl.visits) : visit.TextBound ctx := by
  unfold Visit.TextBound
  split
  · next e =>
      unfold Expr.TextBound
      split
      · next id text span =>
          refine h.texts id text (List.mem_filterMap.2 ⟨_, Script.mem_visits hdecl hvisit, rfl⟩)
      · trivial
  · trivial

theorem Complete.lowerable (h : Complete script ctx) : ctx.symbols.Lowerable :=
  ⟨h.table, h.resolved, h.placed⟩

/-- A function with a body has code. -/
theorem Complete.function_eq (h : Complete script ctx) {decl : FunctionDecl}
    (hdecl : decl ∈ script.items.flatMap Item.functions) {owner : Option SymbolId} {id : SymbolId}
    (hchecked : Checked ctx decl owner id) {block : Block} (hblock : block ∈ decl.body.block?) :
    ∃ instruction, (Site.ofFunction ctx id).lowerFunction id (some block) = .ok instruction ∧
      IsFunctionCode ctx id instruction ∧ IsDeclaredCode ctx decl instruction ∧
      ∀ code, instruction ∈ code → HasCode ctx code decl := by
  obtain ⟨entry, signature, region, hcode⟩ := hchecked.isCodeOf h.lowerable hblock
    fun visit hvisit => h.textBound hdecl hvisit
  refine ⟨_, hcode.lowerFunction_eq, ⟨_, _, _, _, hcode, rfl⟩,
    ⟨block, hblock, id, entry, signature, region, hchecked.symbol?, hcode, rfl⟩,
    fun code hmem b hb => ?_⟩
  cases hblock.symm.trans hb
  exact ⟨id, entry, signature, region, hchecked.symbol?, hcode, hmem⟩

/-- The functions of classes have bodies. -/
theorem Script.Proper.method_block (hproper : script.Proper) {decl : ClassDecl}
    (hitem : .classDecl decl ∈ script.items) {m : FunctionDecl} (hm : m ∈ decl.methods) :
    ∃ block, block ∈ m.body.block? := by
  obtain ⟨member, hmember, hsome⟩ := List.mem_filterMap.1 hm
  cases member <;> simp only [reduceCtorEq, Option.some.injEq] at hsome
  subst hsome
  have hbody := ((hproper.items _ hitem).2 _ hmember).2
  cases hkind : FunctionDecl.body _ with
  | block b => exact ⟨b, by simp [FunctionBody.block?]⟩
  | external variadic => simp [hkind, FunctionBody.isExternal] at hbody

/-- The declaration of a function of a class, if there is one. -/
def Context.methodOf (ctx : Context) (decl : ClassDecl) (function : SymbolId) :
    Option FunctionDecl :=
  decl.methods.find? fun m => ctx.bindings.symbol? m.id == some function

/-- A function of a class has code, whether it was written or not. -/
theorem Complete.classFunction_eq (hproper : script.Proper) (h : Complete script ctx)
    {decl : ClassDecl} (hitem : .classDecl decl ∈ script.items) {id : SymbolId}
    {entry : ClassEntry} (hentry : ctx.symbols.class? id = some entry)
    (hfunctions : HasFunctions (Checked ctx) ctx decl.methods id) {g : SymbolId}
    (hg : g ∈ entry.functions) :
    ∃ i, (Site.ofFunction ctx g).lowerFunction g ((ctx.methodOf decl g).bind (·.body.block?)) =
        .ok i ∧ IsFunctionCode ctx g i ∧
          (IsImplicitCode i ∨ ∃ m ∈ decl.methods, IsDeclaredCode ctx m i) ∧
          ∀ m ∈ decl.methods, ctx.bindings.symbol? m.id = some g →
            ∀ code, i ∈ code → HasCode ctx code m := by
  obtain ⟨entry', hentry', hlisted, hapart, hmethods⟩ := hfunctions
  cases hentry.symm.trans hentry'
  cases hfind : ctx.methodOf decl g with
  | some m =>
      have hm := List.mem_of_find?_eq_some hfind
      have hbound : ctx.bindings.symbol? m.id = some g := by simpa using List.find?_some hfind
      obtain ⟨block, hblock⟩ := hproper.method_block hitem hm
      obtain ⟨g', -, hchecked⟩ := hmethods m hm
      cases hbound.symm.trans hchecked.symbol?
      obtain ⟨i, hi, hcode, hdeclared, hhas⟩ :=
        h.function_eq (List.mem_flatMap.2 ⟨_, hitem, hm⟩) hchecked hblock
      refine ⟨i, ?_, hcode, .inr ⟨m, hm, hdeclared⟩, fun m' hm' hbound' => ?_⟩
      · rw [← hi, Option.bind_some, hblock]
      · rw [hapart m' hm' m hm (hbound'.trans hbound.symm)]
        exact hhas
  | none =>
      have hnot : ∀ m ∈ decl.methods, ctx.bindings.symbol? m.id ≠ some g := fun m hm heq => by
        simpa [heq] using List.find?_eq_none.1 hfind m hm
      rcases hlisted g hg with ⟨m, hm, hbound⟩ | ⟨e, he, -, hvoid, harguments⟩
      · exact absurd hbound (hnot m hm)
      · obtain ⟨signature, hcode⟩ := h.lowerable.isCodeOf_implicit he hvoid harguments
        exact ⟨_, hcode.lowerFunction_eq, ⟨_, _, _, _, hcode, rfl⟩, .inl ⟨_, _, _, rfl⟩,
          fun m hm hbound => absurd hbound (hnot m hm)⟩

/-- The code of an item: that of each of its functions, and of the functions that its class has
without a declaration. -/
def IsItemCode (ctx : Context) (item : Item) (code : List Instruction) : Prop :=
  List.Forall₂ (IsFunctionCode ctx) (ctx.functionsOf item) code ∧
    (∀ i ∈ code, IsImplicitCode i ∨ ∃ decl ∈ item.functions, IsDeclaredCode ctx decl i) ∧
    ∀ decl ∈ item.functions, HasCode ctx code decl

/-- The functions of a class have code. -/
theorem Complete.methodCode_eq (hproper : script.Proper) (h : Complete script ctx)
    {decl : ClassDecl} (hitem : .classDecl decl ∈ script.items) :
    ∃ code, ctx.methodCode decl = .ok code ∧ IsItemCode ctx (.classDecl decl) code := by
  obtain ⟨id, hsymbol, -, hfunctions⟩ := h.checked _ hitem
  have hsymbol' : ctx.bindings.symbol? decl.id = some id := hsymbol
  have hfunctions' := hfunctions
  obtain ⟨entry, hentry, -, -, hmethods⟩ := hfunctions'
  obtain ⟨code, hcode, hall⟩ := List.mapM_ok fun g hg =>
    h.classFunction_eq hproper hitem hentry hfunctions (g := g) hg
  refine ⟨code, ?_, ?_, fun i hi => ?_, fun m hm => ?_⟩
  · have hslots : ((ctx.symbols.class? id).map ClassEntry.functions).getD [] = entry.functions := by
      rw [hentry]
      rfl
    rw [Context.methodCode, Context.declared_eq hsymbol']
    change (((ctx.symbols.class? id).map ClassEntry.functions).getD []).mapM _ = _
    rw [hslots]
    exact hcode
  · have hof : ctx.functionsOf (.classDecl decl) = entry.functions := by
      simp [Context.functionsOf, hsymbol', hentry]
    rw [hof]
    exact hall.imp fun g i hrun => hrun.1
  · obtain ⟨g, -, -, hwritten, -⟩ := List.Forall₂.exists_left hall hi
    exact hwritten
  · obtain ⟨g, hg, hchecked⟩ := hmethods m hm
    obtain ⟨i, hi, -, -, hhas⟩ := List.Forall₂.exists_right hall hg
    exact hhas m hm hchecked.symbol? code hi

/-- The functions of an item have code. -/
theorem Complete.itemCode_eq (hproper : script.Proper) (h : Complete script ctx) {item : Item}
    (hitem : item ∈ script.items) :
    ∃ code, ctx.itemCode item = .ok code ∧ IsItemCode ctx item code := by
  cases item with
  | classDecl decl => exact h.methodCode_eq hproper hitem
  | structDecl decl => exact ⟨[], rfl, .nil, by simp, by simp [Item.functions]⟩
  | function decl =>
      obtain ⟨id, hsymbol, hchecked, -⟩ := h.checked _ hitem
      have hsymbol' : ctx.bindings.symbol? decl.id = some id := hsymbol
      cases hbody : decl.body with
      | external variadic =>
          refine ⟨[], by simp [Context.itemCode, hbody], ?_, by simp, fun d hd => ?_⟩
          · have hof : ctx.functionsOf (.function decl) = [] := by
              simp [Context.functionsOf, hbody, FunctionBody.isExternal]
            rw [hof]
            exact .nil
          · rw [List.mem_singleton.1 hd]
            simp [HasCode, hbody, FunctionBody.block?]
      | block b =>
          obtain ⟨i, hi, hcode, hdeclared, hhas⟩ := h.function_eq
            (List.mem_flatMap.2 ⟨_, hitem, List.mem_singleton_self _⟩) hchecked
            (show b ∈ decl.body.block? by simp [hbody, FunctionBody.block?])
          refine ⟨[i], ?_, ?_, fun j hj => ?_, fun d hd => ?_⟩
          · simp only [Context.itemCode, hbody]
            rw [Context.declared_eq hsymbol']
            change (do return [← (Site.ofFunction ctx id).lowerFunction id (some b)]) = _
            rw [hi]
            rfl
          · have hof : ctx.functionsOf (.function decl) = [id] := by
              simp [Context.functionsOf, hbody, FunctionBody.isExternal, hsymbol']
            rw [hof]
            exact .cons hcode .nil
          · rw [List.mem_singleton.1 hj]
            exact .inr ⟨decl, List.mem_singleton_self _, hdeclared⟩
          · rw [List.mem_singleton.1 hd]
            exact hhas [i] (List.mem_singleton_self i)

end

/-! ## The whole unit -/

/-- The parts of a unit behind its string literals. -/
structure UnitParts where
  structs : List Instruction
  root : Instruction
  classes : List Instruction
  externals : List Instruction
  /-- The functions with code, item by item. -/
  functions : List (List Instruction)

/-- The parts one after the other. -/
def UnitParts.code (parts : UnitParts) (ctx : Context) : CodeUnit :=
  ctx.literalDeclarations ++ parts.structs ++ parts.root :: parts.classes ++ parts.externals
    ++ parts.functions.flatten

/-- The parts behind the string literals, one after the other. -/
def UnitParts.rest (parts : UnitParts) : CodeUnit :=
  parts.structs ++ parts.root :: parts.classes ++ parts.externals ++ parts.functions.flatten

/-- What the parts of the code of a script consist of. -/
structure Assembles (script : Script) (ctx : Context) (parts : UnitParts) : Prop where
  structs : List.Forall₂ (fun decl i => ∃ id, ctx.bindings.symbol? decl.id = some id ∧
    IsStructCode ctx id i) script.structs parts.structs
  root : IsClassCode ctx SymbolTable.rootClass parts.root
  classes : List.Forall₂ (fun decl i => ∃ id, ctx.bindings.symbol? decl.id = some id ∧
    IsClassCode ctx id i) script.classes parts.classes
  /-- The functions of the root class come from outside. -/
  externals : ∃ entry, ctx.symbols.class? SymbolTable.rootClass = some entry ∧
    List.Forall₂ (IsExternalCode ctx)
      (entry.functions ++ script.items.flatMap ctx.externalsOf) parts.externals
  functions : List.Forall₂ (IsItemCode ctx) script.items parts.functions

/-- What the code of a script consists of. -/
def Generates (script : Script) (ctx : Context) (unit : CodeUnit) : Prop :=
  ∃ parts, Assembles script ctx parts ∧ unit = parts.code ctx

section

variable {ctx : Context} {script : Script} {unit : CodeUnit} {parts : UnitParts}

/-- The structs of a script can be declared. -/
theorem Complete.structs_eq (h : Complete script ctx) :
    ∃ code, script.structs.mapM ctx.structDeclaration = .ok code ∧
      List.Forall₂ (fun decl i => ∃ id, ctx.bindings.symbol? decl.id = some id ∧
        IsStructCode ctx id i) script.structs code := by
  refine List.mapM_ok fun decl hdecl => ?_
  obtain ⟨id, hsymbol, entry, hentry, hname⟩ := h.checked _ (Script.mem_structs.1 hdecl)
  obtain ⟨i, heq, hcode⟩ := ctx.structDeclaration_eq h.table hsymbol hentry hname
  exact ⟨i, heq, id, hsymbol, hcode⟩

/-- The classes of a script can be declared. -/
theorem Complete.classes_eq (h : Complete script ctx) :
    ∃ code, (script.classes.mapM fun decl => do
        ctx.classDeclaration (← ctx.declared decl.id decl.name.span)) = .ok code ∧
      List.Forall₂ (fun decl i => ∃ id, ctx.bindings.symbol? decl.id = some id ∧
        IsClassCode ctx id i) script.classes code := by
  refine List.mapM_ok fun decl hdecl => ?_
  obtain ⟨id, hsymbol, ⟨entry, hentry, -⟩, -⟩ := h.checked _ (Script.mem_classes.1 hdecl)
  have hsymbol' : ctx.bindings.symbol? decl.id = some id := hsymbol
  obtain ⟨i, heq, hcode⟩ := ctx.classDeclaration_eq h.lowerable hentry
  refine ⟨i, ?_, id, hsymbol', hcode⟩
  rw [Context.declared_eq hsymbol']
  exact heq

/-- **The code of a complete script can be generated.** -/
theorem Complete.unitCode_eq (hproper : script.Proper) (h : Complete script ctx) :
    ∃ unit, ctx.unitCode script = .ok unit ∧ Generates script ctx unit := by
  obtain ⟨structs, hstructs, hstructCode⟩ := h.structs_eq
  obtain ⟨rootEntry, hrootEntry, -, hexternal⟩ := h.root
  obtain ⟨root, hroot, hrootCode⟩ := ctx.classDeclaration_eq h.lowerable hrootEntry
  obtain ⟨classes, hclasses, hclassCode⟩ := h.classes_eq
  obtain ⟨externals, hexternals, hexternalCode⟩ :=
    h.externalDeclarations_eq h.lowerable hrootEntry hexternal
  obtain ⟨functions, hfunctions, hitems⟩ := List.mapM_ok fun item hitem =>
    h.itemCode_eq hproper hitem
  refine ⟨_, by
    rw [Context.unitCode, hstructs, hroot]
    simp only [bind, Except.bind] at hclasses ⊢
    rw [hclasses, hexternals, hfunctions]
    rfl, ⟨structs, root, classes, externals, functions⟩, ?_, rfl⟩
  exact ⟨hstructCode, hrootCode, hclassCode, ⟨rootEntry, hrootEntry, hexternalCode⟩, hitems⟩

theorem UnitParts.mem_rest {i : Instruction} : i ∈ parts.rest ↔
    i ∈ parts.structs ∨ i = parts.root ∨ i ∈ parts.classes ∨ i ∈ parts.externals ∨
      ∃ code ∈ parts.functions, i ∈ code := by
  simp only [UnitParts.rest, List.mem_append, List.mem_cons, List.mem_flatten, or_assoc]

theorem UnitParts.code_eq (parts : UnitParts) (ctx : Context) :
    parts.code ctx = ctx.literalDeclarations ++ parts.rest := by
  simp only [UnitParts.code, UnitParts.rest, List.append_assoc]

theorem UnitParts.mem_code {i : Instruction} : i ∈ parts.code ctx ↔
    i ∈ ctx.literalDeclarations ∨ i ∈ parts.structs ∨ i = parts.root ∨ i ∈ parts.classes ∨
      i ∈ parts.externals ∨ ∃ code ∈ parts.functions, i ∈ code := by
  rw [UnitParts.code_eq, List.mem_append, UnitParts.mem_rest]

/-- An instruction behind the string literals is the declaration or the code of a symbol. -/
theorem Assembles.rest_cases (h : Assembles script ctx parts) {i : Instruction}
    (hmem : i ∈ parts.rest) : ∃ id, IsStructCode ctx id i ∨ IsClassCode ctx id i ∨
      IsExternalCode ctx id i ∨ IsFunctionCode ctx id i := by
  rcases UnitParts.mem_rest.1 hmem with hmem | rfl | hmem | hmem | ⟨code, hcode, hmem⟩
  · obtain ⟨-, -, id, -, hi⟩ := List.Forall₂.exists_left h.structs hmem
    exact ⟨id, .inl hi⟩
  · exact ⟨_, .inr (.inl h.root)⟩
  · obtain ⟨-, -, id, -, hi⟩ := List.Forall₂.exists_left h.classes hmem
    exact ⟨id, .inr (.inl hi)⟩
  · obtain ⟨_, -, hall⟩ := h.externals
    obtain ⟨id, -, hi⟩ := List.Forall₂.exists_left hall hmem
    exact ⟨id, .inr (.inr (.inl hi))⟩
  · obtain ⟨_, -, hall, -⟩ := List.Forall₂.exists_left h.functions hcode
    obtain ⟨id, -, hi⟩ := List.Forall₂.exists_left hall hmem
    exact ⟨id, .inr (.inr (.inr hi))⟩

/-- An instruction of a unit declares a literal or is the declaration or the code of a
symbol. -/
theorem Assembles.cases (h : Assembles script ctx parts) {i : Instruction}
    (hmem : i ∈ parts.code ctx) :
    (∃ entry : LiteralEntry, i = .stringLiteral entry.globalName entry.text) ∨
      ∃ id, IsStructCode ctx id i ∨ IsClassCode ctx id i ∨ IsExternalCode ctx id i ∨
        IsFunctionCode ctx id i := by
  rw [UnitParts.code_eq, List.mem_append] at hmem
  refine hmem.imp (fun hmem => ?_) h.rest_cases
  obtain ⟨entry, -, rfl⟩ := List.mem_map.1 hmem
  exact ⟨entry, rfl⟩

/-- The functions of a unit follow the rules. -/
theorem Generates.functions (h : Generates script ctx unit) (name : String)
    (signature : Signature) (names : List String) (body : List Instruction)
    (hmem : .function name signature names body ∈ unit) :
    ∃ id, IsFunctionCode ctx id (.function name signature names body) := by
  obtain ⟨parts, hparts, rfl⟩ := h
  rcases hparts.cases hmem with ⟨_, heq⟩ | ⟨id, ⟨_, _, _, _, heq⟩ | ⟨_, _, _, _, _, _, heq⟩ |
    ⟨_, _, _, _, heq⟩ | hcode⟩
  iterate 4 cases heq
  exact ⟨id, hcode⟩

/-- Every function of a unit that does more than return is declared. -/
theorem Generates.written (h : Generates script ctx unit) {name : String} {signature : Signature}
    {names : List String} {body : List Instruction}
    (hmem : .function name signature names body ∈ unit) :
    body = [.ret none] ∨ ∃ decl ∈ script.items.flatMap Item.functions,
      IsDeclaredCode ctx decl (.function name signature names body) := by
  obtain ⟨parts, hparts, rfl⟩ := h
  rcases UnitParts.mem_code.1 hmem with hmem | hmem | heq | hmem | hmem | ⟨code, hcode, hmem⟩
  · obtain ⟨_, -, heq⟩ := List.mem_map.1 hmem
    cases heq
  · obtain ⟨-, -, id, -, _, _, _, _, heq⟩ := List.Forall₂.exists_left hparts.structs hmem
    cases heq
  · obtain ⟨_, _, _, _, _, _, heq'⟩ := hparts.root
    cases heq.trans heq'
  · obtain ⟨-, -, id, -, _, _, _, _, _, _, heq⟩ := List.Forall₂.exists_left hparts.classes hmem
    cases heq
  · obtain ⟨_, -, hall⟩ := hparts.externals
    obtain ⟨id, -, _, _, _, _, heq⟩ := List.Forall₂.exists_left hall hmem
    cases heq
  · obtain ⟨item, hitem, -, hwritten, -⟩ := List.Forall₂.exists_left hparts.functions hcode
    rcases hwritten _ hmem with ⟨_, _, _, heq⟩ | ⟨decl, hdecl, hcode⟩
    · cases heq
      exact .inl rfl
    · exact .inr ⟨decl, List.mem_flatMap.2 ⟨item, hitem, hdecl⟩, hcode⟩

/-- Every function with a body has code. -/
theorem Generates.bodies (h : Generates script ctx unit) {decl : FunctionDecl}
    (hdecl : decl ∈ script.items.flatMap Item.functions) : HasCode ctx unit decl := by
  obtain ⟨parts, hparts, rfl⟩ := h
  obtain ⟨item, hitem, hof⟩ := List.mem_flatMap.1 hdecl
  obtain ⟨code, hmem, -, -, hhas⟩ := List.Forall₂.exists_right hparts.functions hitem
  intro block hblock
  obtain ⟨id, entry, signature, region, hsymbol, hisCode, hin⟩ := hhas decl hof block hblock
  exact ⟨id, entry, signature, region, hsymbol, hisCode,
    List.mem_append_right _ (List.mem_flatten.2 ⟨code, hmem, hin⟩)⟩

/-- **Every class is declared.** -/
theorem Generates.classes (h : Generates script ctx unit) (hcomplete : Complete script ctx)
    {id : SymbolId} {entry : ClassEntry} (hentry : ctx.symbols.class? id = some entry) :
    ∃ i ∈ unit, IsClassCode ctx id i := by
  obtain ⟨parts, hparts, rfl⟩ := h
  by_cases hroot : id = SymbolTable.rootClass
  · subst hroot
    exact ⟨parts.root, UnitParts.mem_code.2 (by simp), hparts.root⟩
  · obtain ⟨decl, hitem, hsymbol, -, -⟩ := hcomplete.class_source hentry hroot
    obtain ⟨i, hi, id', hsymbol', hcode⟩ :=
      List.Forall₂.exists_right hparts.classes (Script.mem_classes.2 hitem)
    cases hsymbol.symm.trans hsymbol'
    exact ⟨i, UnitParts.mem_code.2 (by simp [hi]), hcode⟩

/-- **Every struct is declared.** -/
theorem Generates.structs (h : Generates script ctx unit) (hcomplete : Complete script ctx)
    {id : SymbolId} {entry : StructEntry} (hentry : ctx.symbols.struct? id = some entry) :
    ∃ i ∈ unit, IsStructCode ctx id i := by
  obtain ⟨parts, hparts, rfl⟩ := h
  obtain ⟨decl, hitem, hsymbol⟩ := hcomplete.struct_source hentry
  obtain ⟨i, hi, id', hsymbol', hcode⟩ :=
    List.Forall₂.exists_right hparts.structs (Script.mem_structs.2 hitem)
  cases hsymbol.symm.trans hsymbol'
  exact ⟨i, UnitParts.mem_code.2 (by simp [hi]), hcode⟩

/-- Every record is declared, with the fields that it stores. -/
theorem Generates.records (h : Generates script ctx unit) (hcomplete : Complete script ctx)
    {id : SymbolId}
    (hid : (ctx.symbols.class? id).isSome = true ∨ (ctx.symbols.struct? id).isSome = true) :
    ∃ fields, (ctx.symbols.name id, fields) ∈ unit.filterMap Instruction.record? ∧
      ctx.symbols.FieldsOf (ctx.symbols.slots id) fields := by
  rcases hid with hid | hid
  · obtain ⟨entry, hentry⟩ := Option.isSome_iff_exists.1 hid
    obtain ⟨i, hi, entry', fields, slots, hentry', hfields, -, rfl⟩ := h.classes hcomplete hentry
    refine ⟨fields, List.mem_filterMap.2 ⟨_, hi, ?_⟩, hfields⟩
    rw [SymbolTable.name_of_class? hentry']
    rfl
  · obtain ⟨entry, hentry⟩ := Option.isSome_iff_exists.1 hid
    obtain ⟨i, hi, entry', fields, hentry', hfields, rfl⟩ := h.structs hcomplete hentry
    refine ⟨fields, List.mem_filterMap.2 ⟨_, hi, ?_⟩, hfields⟩
    rw [SymbolTable.name_of_struct? hentry']
    rfl

end

end ClassLang
