import ClassLang.Proofs.Lower.Unit
import Mathlib.Data.List.Nodup
import Mathlib.Data.List.Perm.Basic

/-!
# Names of the generated code

The names that a unit declares are collected from its instructions.  They are the names that
were compared when the declarations of the script were settled, in another order: what the
instructions declare and what the items bring are permutations of each other
(`Assembles.records_perm`, `Assembles.globals_perm`).  Only string literals are not among
them; their names start with a mark that no word starts with.
-/

namespace ClassLang

/-- The record types that an instruction declares. -/
def Instruction.recordNames : Instruction → List String
  | .structRecord name _ => [name]
  | .classRecord record => [record.name, record.dispatch.name]
  | _ => []

/-- The globals that an instruction declares. -/
def Instruction.globalNames : Instruction → List String
  | .stringLiteral name _ => [name]
  | .classRecord record => [record.dispatch.instanceName, record.dispatch.nameGlobal]
  | .externalFunction name _ => [name]
  | .function name _ _ _ => [name]
  | _ => []

/-! ## Names that items bring -/

namespace LinkName

/-- The names of records, or of everything else. -/
def names (isRecord : Bool) (links : List LinkName) : List String :=
  (links.filter fun link => link.isRecord == isRecord).map LinkName.name

variable {isRecord : Bool}

/-- The names of links in two parts come one part behind the other. -/
theorem names_append (links links' : List LinkName) :
    names isRecord (links ++ links') = names isRecord links ++ names isRecord links' := by
  simp [names]

/-- The names of links that are collected are collected. -/
theorem names_flatMap {α : Type} (l : List α) (f : α → List LinkName) :
    names isRecord (l.flatMap f) = l.flatMap fun a => names isRecord (f a) := by
  induction l with
  | nil => rfl
  | cons a rest ih => rw [List.flatMap_cons, names_append, ih, List.flatMap_cons]

/-- Names of one kind are different if all keys are. -/
theorem names_nodup {links : List LinkName} (h : (links.map key).Nodup) :
    (names isRecord links).Nodup := by
  have hkept : ((links.filter fun link => link.isRecord == isRecord).map key).Nodup :=
    (List.filter_sublist.map key).nodup h
  refine List.Nodup.map_on (fun a ha b hb heq => ?_) (List.Nodup.of_map key hkept)
  have hkey : a.key = b.key := by
    have hkind := (List.mem_filter.1 ha).2
    have hkind' := (List.mem_filter.1 hb).2
    simp only [beq_iff_eq] at hkind hkind'
    rw [key, key, hkind, hkind', heq]
  exact List.inj_on_of_nodup_map hkept ha hb hkey

/-- Functions bring no record types. -/
theorem names_functions {α : Type} (l : List α) (name : α → String) (span : α → Span) :
    names true (l.map fun a => ⟨false, name a, span a⟩) = [] ∧
      names false (l.map fun a => ⟨false, name a, span a⟩) = l.map name := by
  induction l with
  | nil => exact ⟨rfl, rfl⟩
  | cons a rest ih => exact ⟨ih.1, congrArg (name a :: ·) ih.2⟩

end LinkName

/-- The record types of a class. -/
def ClassEntry.recordNames (entry : ClassEntry) : List String :=
  [entry.name, entry.dispatchRecord]

/-- The globals of a class that are no functions. -/
def ClassEntry.globalNames (entry : ClassEntry) : List String :=
  [entry.dispatchInstance, entry.nameGlobal]

/-- The class that an item is. -/
def Context.classOf (ctx : Context) : Item → Option ClassEntry
  | .classDecl decl => (ctx.bindings.symbol? decl.id).bind ctx.symbols.class?
  | _ => none

/-- The class of an item is one of the table. -/
theorem Context.classOf_eq (ctx : Context) {item : Item} {entry : ClassEntry}
    (h : ctx.classOf item = some entry) : ∃ id, ctx.symbols.class? id = some entry := by
  cases item <;> simp only [classOf, reduceCtorEq] at h
  obtain ⟨id, -, hentry⟩ := Option.bind_eq_some_iff.1 h
  exact ⟨id, hentry⟩

/-- The struct that an item is. -/
def Context.structOf (ctx : Context) : Item → Option StructEntry
  | .structDecl decl => (ctx.bindings.symbol? decl.id).bind ctx.symbols.struct?
  | _ => none

section

variable {ctx : Context} {script : Script} {parts : UnitParts}

/-- What a class brings into the generated code. -/
theorem LinkName.names_ofClass (hok : ctx.symbols.Ok) {id : SymbolId} {entry : ClassEntry}
    (hentry : ctx.symbols.class? id = some entry) (span : Span) :
    names true (ofClass ctx id span) = entry.recordNames ∧
      names false (ofClass ctx id span) =
        entry.globalNames ++ entry.functions.map ctx.symbols.linkName := by
  have hfunctions : (entry.functions.filterMap ctx.symbols.function?).map FunctionEntry.linkName =
      entry.functions.map ctx.symbols.linkName := by
    rw [List.map_filterMap, ← List.filterMap_eq_map]
    refine List.filterMap_congr fun g hg => ?_
    obtain ⟨e, he, -⟩ := hok.class_functions hentry hg
    simp [he, SymbolTable.linkName_eq he]
  obtain ⟨hrecords, hglobals⟩ := names_functions
    (entry.functions.filterMap ctx.symbols.function?) FunctionEntry.linkName
    fun f => f.span.getD span
  simp only [ofClass, hentry, names_append, hrecords, hglobals, hfunctions]
  exact ⟨rfl, rfl⟩

/-- What an item brings into the generated code. -/
theorem Complete.names_ofItem (h : Complete script ctx) {item : Item}
    (hitem : item ∈ script.items) :
    LinkName.names true (LinkName.ofItem ctx item) =
        (ctx.structOf item).toList.map StructEntry.name ++
        (ctx.classOf item).toList.flatMap ClassEntry.recordNames ∧
      LinkName.names false (LinkName.ofItem ctx item) =
        (ctx.classOf item).toList.flatMap ClassEntry.globalNames ++
          (ctx.externalsOf item ++ ctx.functionsOf item).map ctx.symbols.linkName := by
  obtain ⟨id, hsymbol, hholds⟩ := h.checked item hitem
  cases item with
  | classDecl decl =>
      have hsymbol' : ctx.bindings.symbol? decl.id = some id := hsymbol
      obtain ⟨⟨entry, hentry, -⟩, -⟩ := hholds
      obtain ⟨hrecords, hglobals⟩ := LinkName.names_ofClass h.table hentry decl.name.span
      simp only [LinkName.ofItem, hsymbol', hrecords, hglobals, Context.classOf, Option.bind_some,
        hentry, Context.externalsOf, Context.functionsOf]
      simp [Context.structOf]
  | structDecl decl =>
      have hsymbol' : ctx.bindings.symbol? decl.id = some id := hsymbol
      obtain ⟨entry, hentry, hname⟩ := hholds
      have hstruct : ctx.structOf (.structDecl decl) = some entry := by
        simp [Context.structOf, hsymbol', hentry]
      rw [hstruct, Option.toList_some, List.map_singleton, hname]
      exact ⟨rfl, rfl⟩
  | function decl =>
      have hsymbol' : ctx.bindings.symbol? decl.id = some id := hsymbol
      obtain ⟨-, entry, hentry, hlink⟩ := hholds
      have hfunctions : ctx.externalsOf (.function decl) ++ ctx.functionsOf (.function decl) =
          [id] := by
        simp only [Context.externalsOf, Context.functionsOf, hsymbol']
        split <;> rfl
      rw [hfunctions, List.map_singleton, SymbolTable.linkName_eq hentry, hlink]
      exact ⟨rfl, rfl⟩

/-! ## Names that instructions declare -/

/-- Lists that correspond are collected to equal lists. -/
theorem List.Forall₂.flatMap_eq {α β γ : Type} {R : α → β → Prop} {l : List α} {l' : List β}
    {f : α → List γ} {g : β → List γ} (h : List.Forall₂ R l l')
    (heq : ∀ a b, R a b → g b = f a) : l'.flatMap g = l.flatMap f := by
  induction h with
  | nil => rfl
  | cons hab _ ih => rw [List.flatMap_cons, List.flatMap_cons, heq _ _ hab, ih]

/-- The code of a class declares the records and globals of its entry. -/
theorem IsClassCode.names {id : SymbolId} {i : Instruction} (h : IsClassCode ctx id i)
    {entry : ClassEntry} (hentry : ctx.symbols.class? id = some entry) :
    i.recordNames = entry.recordNames ∧ i.globalNames = entry.globalNames := by
  obtain ⟨entry', fields, slots, hentry', -, -, rfl⟩ := h
  cases hentry.symm.trans hentry'
  exact ⟨rfl, rfl⟩

/-- The code of an external function declares its own name. -/
theorem IsExternalCode.names {id : SymbolId} {i : Instruction} (h : IsExternalCode ctx id i) :
    i.recordNames = [] ∧ i.globalNames = [ctx.symbols.linkName id] := by
  obtain ⟨entry, signature, hentry, -, rfl⟩ := h
  rw [SymbolTable.linkName_eq hentry]
  exact ⟨rfl, rfl⟩

/-- The code of a function declares its own name. -/
theorem IsFunctionCode.names {id : SymbolId} {i : Instruction} (h : IsFunctionCode ctx id i) :
    i.recordNames = [] ∧ i.globalNames = [ctx.symbols.linkName id] := by
  obtain ⟨block, entry, signature, region, hcode, rfl⟩ := h
  rw [SymbolTable.linkName_eq hcode.function?]
  exact ⟨rfl, rfl⟩

/-- The code of a struct declares its own record. -/
theorem IsStructCode.names {id : SymbolId} {i : Instruction} (h : IsStructCode ctx id i)
    {entry : StructEntry} (hentry : ctx.symbols.struct? id = some entry) :
    i.recordNames = [entry.name] ∧ i.globalNames = [] := by
  obtain ⟨entry', fields, hentry', -, rfl⟩ := h
  cases hentry.symm.trans hentry'
  exact ⟨rfl, rfl⟩

/-- Collecting from those that are picked is collecting from all. -/
theorem List.flatMap_filterMap_eq {α β γ : Type} {p : α → Option β} {f : β → List γ}
    {g : α → List γ} (l : List α) (h : ∀ a, g a = (p a).toList.flatMap f) :
    (l.filterMap p).flatMap f = l.flatMap g := by
  induction l with
  | nil => rfl
  | cons a rest ih =>
      rw [List.flatMap_cons, h a, ← ih]
      cases hp : p a <;> simp [hp]

/-- The names that the structs of a unit declare. -/
theorem Assembles.structs_names (h : Assembles script ctx parts) :
    parts.structs.flatMap Instruction.recordNames =
        script.items.flatMap (fun item => (ctx.structOf item).toList.map StructEntry.name) ∧
      parts.structs.flatMap Instruction.globalNames = [] := by
  have hstruct : ∀ decl i, (∃ id, ctx.bindings.symbol? decl.id = some id ∧ IsStructCode ctx id i) →
      i.recordNames = (ctx.structOf (.structDecl decl)).toList.map StructEntry.name ∧
        i.globalNames = [] := by
    rintro decl i ⟨id, hsymbol, hcode⟩
    have ⟨entry, _, hentry, _⟩ := hcode
    simpa [Context.structOf, hsymbol, hentry] using hcode.names hentry
  constructor
  · rw [List.Forall₂.flatMap_eq h.structs fun decl i hi => (hstruct decl i hi).1]
    refine List.flatMap_filterMap_eq _ fun item => ?_
    cases item <;> simp [Context.structOf]
  · rw [List.Forall₂.flatMap_eq (f := fun _ => []) h.structs fun decl i hi => (hstruct decl i hi).2]
    simp

/-- The names that the classes of a unit declare. -/
theorem Assembles.classes_names (h : Assembles script ctx parts) :
    parts.classes.flatMap Instruction.recordNames = script.items.flatMap
        (fun item => (ctx.classOf item).toList.flatMap ClassEntry.recordNames) ∧
      parts.classes.flatMap Instruction.globalNames = script.items.flatMap
        (fun item => (ctx.classOf item).toList.flatMap ClassEntry.globalNames) := by
  have hclass : ∀ decl i, (∃ id, ctx.bindings.symbol? decl.id = some id ∧ IsClassCode ctx id i) →
      i.recordNames = (ctx.classOf (.classDecl decl)).toList.flatMap ClassEntry.recordNames ∧
        i.globalNames = (ctx.classOf (.classDecl decl)).toList.flatMap ClassEntry.globalNames := by
    rintro decl i ⟨id, hsymbol, hcode⟩
    have ⟨entry, _, _, hentry, _⟩ := hcode
    simpa [Context.classOf, hsymbol, hentry] using hcode.names hentry
  constructor
  · rw [List.Forall₂.flatMap_eq h.classes fun decl i hi => (hclass decl i hi).1]
    refine List.flatMap_filterMap_eq _ fun item => ?_
    cases item <;> simp [Context.classOf]
  · rw [List.Forall₂.flatMap_eq h.classes fun decl i hi => (hclass decl i hi).2]
    refine List.flatMap_filterMap_eq _ fun item => ?_
    cases item <;> simp [Context.classOf]

/-- The names that the functions of a unit declare. -/
theorem Assembles.functions_names (h : Assembles script ctx parts) :
    parts.functions.flatten.flatMap Instruction.recordNames = [] ∧
      parts.functions.flatten.flatMap Instruction.globalNames = script.items.flatMap
        fun item => (ctx.functionsOf item).map ctx.symbols.linkName := by
  have hitem : ∀ item code, IsItemCode ctx item code →
      code.flatMap Instruction.recordNames = [] ∧ code.flatMap Instruction.globalNames =
        (ctx.functionsOf item).map ctx.symbols.linkName := by
    rintro item code ⟨hall, -⟩
    constructor
    · rw [List.Forall₂.flatMap_eq (f := fun _ => []) hall fun id i hi => hi.names.1]
      simp
    · rw [List.Forall₂.flatMap_eq hall fun id i hi => hi.names.2, List.map_eq_flatMap]
  rw [List.flatten_eq_flatMap, List.flatMap_assoc, List.flatMap_assoc]
  constructor
  · exact (List.Forall₂.flatMap_eq (f := fun _ => []) h.functions fun item code hcode =>
      (hitem item code hcode).1).trans (by simp)
  · exact List.Forall₂.flatMap_eq h.functions fun item code hcode => (hitem item code hcode).2

/-- The names that the external functions of a unit declare. -/
theorem Assembles.externals_names (h : Assembles script ctx parts) {entry : ClassEntry}
    (hentry : ctx.symbols.class? SymbolTable.rootClass = some entry) :
    parts.externals.flatMap Instruction.recordNames = [] ∧
      parts.externals.flatMap Instruction.globalNames =
        entry.functions.map ctx.symbols.linkName ++
          script.items.flatMap fun item => (ctx.externalsOf item).map ctx.symbols.linkName := by
  obtain ⟨entry', hentry', hall⟩ := h.externals
  cases hentry.symm.trans hentry'
  constructor
  · rw [List.Forall₂.flatMap_eq (f := fun _ => []) hall fun id i hi => hi.names.1]
    simp
  · rw [List.Forall₂.flatMap_eq hall fun id i hi => hi.names.2, ← List.map_eq_flatMap,
      List.map_append, List.map_flatMap]

/-- The literals declare their own globals, and no record. -/
theorem Context.literalDeclarations_names (ctx : Context) :
    ctx.literalDeclarations.flatMap Instruction.recordNames = [] ∧
      ctx.literalDeclarations.flatMap Instruction.globalNames =
        ctx.symbols.literalIds.filterMap
          fun id => (ctx.symbols.literal? id).map LiteralEntry.globalName := by
  unfold Context.literalDeclarations
  constructor
  · simp [List.flatMap_map, Instruction.recordNames]
  · rw [List.flatMap_map, ← List.map_filterMap, List.map_eq_flatMap]
    rfl

/-! ## Both are the same names -/

/-- **The record types of a unit are those that were compared.** -/
theorem Assembles.records_perm (h : Assembles script ctx parts) (hcomplete : Complete script ctx) :
    ((parts.code ctx).flatMap Instruction.recordNames).Perm
      (LinkName.names true (LinkName.ofScript ctx script)) := by
  obtain ⟨root, hroot, -⟩ := hcomplete.root
  have hitems : (script.items.flatMap fun item => LinkName.names true (LinkName.ofItem ctx item)) =
      script.items.flatMap fun item => (ctx.structOf item).toList.map StructEntry.name ++
        (ctx.classOf item).toList.flatMap ClassEntry.recordNames :=
    List.flatMap_congr fun item hitem => (hcomplete.names_ofItem hitem).1
  simp only [UnitParts.code, List.flatMap_append, List.flatMap_cons, h.structs_names.1,
    h.classes_names.1, h.functions_names.1, (h.externals_names hroot).1,
    ctx.literalDeclarations_names.1, (h.root.names hroot).1, LinkName.ofScript,
    LinkName.names_append, LinkName.names_flatMap,
      (LinkName.names_ofClass hcomplete.table hroot _).1,
    hitems, List.nil_append, List.append_nil]
  exact (List.perm_append_comm_assoc _ _ _).trans
    ((List.flatMap_append_perm _ _ _).append_left _)

/-- **The globals of a unit are its literals and those that were compared.** -/
theorem Assembles.globals_perm (h : Assembles script ctx parts) (hcomplete : Complete script ctx) :
    ((parts.code ctx).flatMap Instruction.globalNames).Perm
      (ctx.literalDeclarations.flatMap Instruction.globalNames ++
        LinkName.names false (LinkName.ofScript ctx script)) := by
  obtain ⟨root, hroot, -⟩ := hcomplete.root
  have hitems : (script.items.flatMap fun item => LinkName.names false (LinkName.ofItem ctx item)) =
      script.items.flatMap fun item => (ctx.classOf item).toList.flatMap ClassEntry.globalNames ++
        ((ctx.externalsOf item).map ctx.symbols.linkName ++
          (ctx.functionsOf item).map ctx.symbols.linkName) :=
    List.flatMap_congr fun item hitem => by
      rw [(hcomplete.names_ofItem hitem).2, List.map_append]
  simp only [UnitParts.code, List.flatMap_append, List.flatMap_cons, h.structs_names.2,
    h.classes_names.2, h.functions_names.2, (h.externals_names hroot).2,
    (h.root.names hroot).2, LinkName.ofScript,
    LinkName.names_append, LinkName.names_flatMap,
      (LinkName.names_ofClass hcomplete.table hroot _).2,
    hitems, List.nil_append, List.append_assoc]
  refine (List.Perm.append_left _ ?_).append_left _
  -- The functions of the root class stand behind the other classes.
  refine (List.perm_append_comm_assoc _ _ _).trans (List.Perm.append_left _ ?_)
  exact ((List.flatMap_append_perm _ _ _).append_left _).trans (List.flatMap_append_perm _ _ _)

/-! ## Literals -/

/-- Literals with the same count in front of them are the same. -/
theorem SymbolTable.literalsBefore_inj {table : SymbolTable} {a b : SymbolId}
    (ha : (table.literal? a).isSome = true) (hb : (table.literal? b).isSome = true)
    (heq : table.literalsBefore a = table.literalsBefore b) : a = b := by
  -- A literal counts for all that come behind it.
  have hcounts : ∀ {c d : SymbolId}, (table.literal? c).isSome = true → c < d →
      table.literalsBefore c < table.literalsBefore d := by
    intro c d hc hlt
    have hprefix : (List.range (c + 1)).Sublist (List.range d) := List.range_sublist.2 hlt
    have hle := hprefix.countP_le (p := fun k => (table.literal? k).isSome)
    rw [List.range_succ, List.countP_append, List.countP_singleton, if_pos hc] at hle
    exact hle
  rcases Nat.lt_trichotomy a b with hlt | hab | hlt
  · exact absurd heq (Nat.ne_of_lt (hcounts ha hlt))
  · exact hab
  · exact absurd heq.symm (Nat.ne_of_lt (hcounts hb hlt))

/-- The index of a literal is the number of literals in front of it. -/
theorem SymbolTable.Ok.literal_index {table : SymbolTable} (h : table.Ok) {id : SymbolId}
    {entry : LiteralEntry} (hentry : table.literal? id = some entry) :
    entry.index = table.literalsBefore id := by
  have hs := SymbolTable.literal?_eq_some_iff.1 hentry
  have hsok := h id _ hs
  exact hsok.2

/-- A name shows the number in it. -/
theorem Nat.toString_inj {m n : Nat} (h : toString m = toString n) : m = n := by
  have hdigits : Nat.toDigits 10 m = Nat.toDigits 10 n := by
    simpa using congrArg String.toList h
  have hread : ∀ k : Nat, Nat.ofDigitChars 10 (Nat.toDigits 10 k) 0 = k := fun k =>
    Nat.ofDigitChars_toDigits (by decide) (by decide)
  rw [← hread m, hdigits, hread n]

/-- No two literals have the same name. -/
theorem Context.literals_nodup (hok : ctx.symbols.Ok) :
    (ctx.literalDeclarations.flatMap Instruction.globalNames).Nodup := by
  rw [ctx.literalDeclarations_names.2]
  have hids : ctx.symbols.literalIds.Nodup := by
    rw [SymbolTable.literalIds_eq]
    exact List.nodup_range.filter _
  refine hids.filterMap fun a b name ha hb => ?_
  obtain ⟨e, he, hname⟩ := Option.map_eq_some_iff.1 ha
  obtain ⟨e', he', hname'⟩ := Option.map_eq_some_iff.1 hb
  have hindex : e.index = e'.index :=
    Nat.toString_inj ((String.append_right_inj _).1 (hname.trans hname'.symm))
  rw [hok.literal_index he, hok.literal_index he'] at hindex
  exact SymbolTable.literalsBefore_inj (by simp [he]) (by simp [he']) hindex

/-- A name that starts like a word. -/
def Worded (name : String) : Prop := name.toList.head?.any isWordStart = true

/-- A name that starts like a word does so with more behind it. -/
theorem Worded.append {name : String} (h : Worded name) (rest : String) :
    Worded (name ++ rest) := by
  unfold Worded at *
  cases hname : name.toList with
  | nil => simp [hname] at h
  | cons c cs => simpa [hname] using h

/-- The name of a literal starts like no word. -/
theorem LiteralEntry.not_worded (entry : LiteralEntry) : ¬ Worded entry.globalName := by
  unfold Worded globalName
  rw [String.toList_append]
  exact Bool.not_eq_true _ ▸ rfl

/-- The name of a class starts like a word. -/
theorem Complete.worded_class (h : Complete script ctx) (hproper : script.Proper) {id : SymbolId}
    {entry : ClassEntry} (hentry : ctx.symbols.class? id = some entry) : Worded entry.name := by
  by_cases hid : id = SymbolTable.rootClass
  · subst hid
    obtain ⟨root, hroot, hname, -⟩ := h.root
    cases hentry.symm.trans hroot
    rw [hname]
    exact (rfl : rootClassName.toList.head?.any isWordStart = true)
  · obtain ⟨decl, hitem, -, hname, -⟩ := h.class_source hentry hid
    rw [hname]
    exact (hproper.items _ hitem).1.1

/-- The name of a function in the code starts like a word. -/
theorem Complete.worded_function (h : Complete script ctx) (hproper : script.Proper) {id : SymbolId}
    {entry : FunctionEntry} (hentry : ctx.symbols.function? id = some entry) :
    Worded entry.linkName := by
  cases howner : entry.owner with
  | none =>
      obtain ⟨decl, hitem, hsymbol⟩ := h.function_source hentry howner
      obtain ⟨id', hsymbol', -, entry', hentry', hlink⟩ := h.checked _ hitem
      cases hsymbol.symm.trans hsymbol'
      cases hentry.symm.trans hentry'
      rw [hlink]
      exact (hproper.items _ hitem).1.1
  | some c =>
      obtain ⟨owner, hclass, hlink⟩ := h.table.owner hentry howner
      rw [hlink]
      exact ((h.worded_class hproper hclass).append _).append _

/-- The globals that were compared start like words. -/
theorem Complete.worded_names (h : Complete script ctx) (hproper : script.Proper) :
    ∀ name ∈ LinkName.names false (LinkName.ofScript ctx script), Worded name := by
  have hclass : ∀ id entry, ctx.symbols.class? id = some entry → ∀ name ∈ entry.globalNames,
      Worded name := by
    intro id entry hentry name hname
    have hworded := h.worded_class hproper hentry
    simp only [ClassEntry.globalNames, List.mem_cons, List.not_mem_nil, or_false] at hname
    rcases hname with rfl | rfl
    · exact hworded.append _
    · exact hworded.append _
  have hfunction : ∀ id entry, ctx.symbols.function? id = some entry →
      Worded (ctx.symbols.linkName id) := by
    intro id entry hentry
    rw [SymbolTable.linkName_eq hentry]
    exact h.worded_function hproper hentry
  intro name hname
  obtain ⟨root, hroot, -⟩ := h.root
  rw [LinkName.ofScript, LinkName.names_append, (LinkName.names_ofClass h.table hroot _).2,
    LinkName.names_flatMap] at hname
  rcases List.mem_append.1 hname with hname | hname
  · rcases List.mem_append.1 hname with hname | hname
    · exact hclass _ _ hroot name hname
    · obtain ⟨g, hg, rfl⟩ := List.mem_map.1 hname
      obtain ⟨e, he, -⟩ := h.table.class_functions hroot hg
      exact hfunction g e he
  · obtain ⟨item, hitem, hname⟩ := List.mem_flatMap.1 hname
    rw [(h.names_ofItem hitem).2] at hname
    rcases List.mem_append.1 hname with hname | hname
    · obtain ⟨entry, hentry, hname⟩ := List.mem_flatMap.1 hname
      obtain ⟨id, hid⟩ := ctx.classOf_eq (Option.mem_toList.1 hentry)
      exact hclass id entry hid name hname
    · obtain ⟨g, hg, rfl⟩ := List.mem_map.1 hname
      obtain ⟨e, he⟩ := h.item_functions hitem hg
      exact hfunction g e he

/-! ## No name twice -/

variable {unit : CodeUnit}

/-- **No record type is declared twice.** -/
theorem Generates.records_nodup (h : Generates script ctx unit) (hcomplete : Complete script ctx) :
    (unit.flatMap Instruction.recordNames).Nodup := by
  obtain ⟨parts, hparts, rfl⟩ := h
  exact (hparts.records_perm hcomplete).nodup_iff.2 (LinkName.names_nodup hcomplete.links)

/-- Classes and structs are declared in order among the record types. -/
theorem Instruction.record?_sublist (code : List Instruction) :
    ((code.filterMap Instruction.record?).map Prod.fst).Sublist
      (code.flatMap Instruction.recordNames) := by
  induction code with
  | nil => exact .slnil
  | cons i rest ih =>
      rw [List.flatMap_cons]
      cases i with
      | structRecord name fields => exact ih.cons_cons name
      | classRecord record => exact (ih.cons _).cons_cons record.name
      | _ => exact ih

/-- No class or struct is declared twice. -/
theorem Generates.distinct (h : Generates script ctx unit) (hcomplete : Complete script ctx) :
    ((unit.filterMap Instruction.record?).map Prod.fst).Nodup :=
  (Instruction.record?_sublist unit).nodup (h.records_nodup hcomplete)

/-- **No global is declared twice.** -/
theorem Generates.globals_nodup (h : Generates script ctx unit) (hcomplete : Complete script ctx)
    (hproper : script.Proper) : (unit.flatMap Instruction.globalNames).Nodup := by
  obtain ⟨parts, hparts, rfl⟩ := h
  refine (hparts.globals_perm hcomplete).nodup_iff.2 (List.nodup_append.2
    ⟨ctx.literals_nodup hcomplete.table, LinkName.names_nodup hcomplete.links, ?_⟩)
  rintro name hliteral _ hother rfl
  rw [ctx.literalDeclarations_names.2] at hliteral
  obtain ⟨id, -, hname⟩ := List.mem_filterMap.1 hliteral
  obtain ⟨entry, -, rfl⟩ := Option.map_eq_some_iff.1 hname
  exact entry.not_worded (hcomplete.worded_names hproper _ hother)

end

end ClassLang
