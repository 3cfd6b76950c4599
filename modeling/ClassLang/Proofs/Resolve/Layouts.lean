import ClassLang.Proofs.Resolve.Bound
import ClassLang.Proofs.Resolve.Lineage
import ClassLang.Proofs.Symbol.Arrangement

/-!
# Layouts of a script

A script that is resolved without a report gives each class the functions and fields that it
declares, in the order in which it declares them, and no name twice.  So its layouts fit together
(`SymbolTable.Compatible`), whatever the order of the classes is: a class is put on the layout of
its parent, and what it has besides comes behind, as it is written (`layOut_compatible`).
-/

namespace ClassLang

open Analysis

/-! ## What classes list -/

/-- Lists of symbols that belong to declarations, after some have been left out. -/
theorem List.map_some_filter {α : Type} {ids : List SymbolId} {decls : List α}
    {symbol : α → Option SymbolId} {p : SymbolId → Bool} {q : α → Bool}
    (h : ids.map some = decls.map symbol)
    (hsame : ∀ d ∈ decls, ∀ x, symbol d = some x → p x = q d) :
    (ids.filter p).map some = (decls.filter q).map symbol := by
  induction decls generalizing ids with
  | nil =>
      obtain rfl : ids = [] := by simpa using h
      rfl
  | cons d rest ih =>
      cases ids with
      | nil => cases h
      | cons x ids =>
          obtain ⟨hhead, htail⟩ := List.cons.inj h
          have hrest := ih htail fun d hd => hsame d (List.mem_cons_of_mem _ hd)
          have hx := hsame d (List.mem_cons_self ..) x hhead.symm
          rw [List.filter_cons, List.filter_cons, hx]
          split
          · rw [List.map_cons, List.map_cons, hrest, hhead]
          · exact hrest

namespace ListsMembers

variable {ctx : Context} {members : List ClassMember} {entry entry' : ClassEntry}

theorem init_mem (h : ListsMembers ctx members entry) :
    ∃ g ∈ entry.functions, ctx.symbols.name g = initName := by
  obtain ⟨init, rest, hlist, hname, -⟩ := h.functions
  exact ⟨init, by simp [hlist], hname⟩

/-- Functions of some names left out, `init` among them, the others come as they are written. -/
theorem further (h : ListsMembers ctx members entry)
    (hnamed : ∀ m ∈ ClassMember.methodsOf members, ∀ x, ctx.bindings.symbol? m.id = some x →
      ctx.symbols.name x = m.name.name)
    {names : List String} (hinit : initName ∈ names) :
    (entry.functions.filter fun g => !names.contains (ctx.symbols.name g)).map some =
      ((ClassMember.methodsOf members).filter fun m => !names.contains m.name.name).map
        fun m => ctx.bindings.symbol? m.id := by
  obtain ⟨init, rest, hlist, hname, -, hrest⟩ := h.functions
  have hfirst : names.contains (ctx.symbols.name init) = true := by simpa [hname] using hinit
  have hothers : (ClassMember.furtherOf members).filter (fun m => !names.contains m.name.name) =
      (ClassMember.methodsOf members).filter fun m => !names.contains m.name.name := by
    rw [ClassMember.furtherOf, List.filter_filter]
    refine List.filter_congr fun m _ => ?_
    by_cases hcalled : m.name.name = initName
    · simp [hcalled, hinit]
    · simp [hcalled]
  rw [hlist, List.filter_cons, hfirst, ← hothers]
  refine List.map_some_filter hrest fun m hm x hx => ?_
  rw [hnamed m (List.mem_filter.1 hm).1 x hx]

/-- Layouts change nothing about it. -/
theorem dressed (h : ListsMembers ctx members entry) {table : SymbolTable}
    (hdressed : ctx.symbols.Dressed table) (hfields : entry'.fields = entry.fields)
    (hfunctions : entry'.functions = entry.functions) :
    ListsMembers { ctx with symbols := table } members entry' := by
  have hname := hdressed.name
  obtain ⟨hlisted, hfunctions', hdistinct⟩ := h
  constructor
  · rw [hfields]
    exact hlisted
  · rw [hfunctions, hname]
    exact hfunctions'
  · rw [hfields, hfunctions, hname]
    exact hdistinct

end ListsMembers

/-- The symbol of a member carries its name. -/
theorem HasMembers.name {ctx : Context} {members : List ClassMember} {owner : SymbolId}
    (h : HasMembers ctx members owner) {member : ClassMember} (hmember : member ∈ members)
    {x : SymbolId} (hx : ctx.bindings.symbol? member.id = some x) :
    ctx.symbols.name x = member.name.name := by
  obtain ⟨y, hy, -, hown⟩ := h.declared member hmember
  obtain ⟨entry, hentry, -⟩ := h.listed
  cases hx.symm.trans hy
  rw [SymbolTable.ownMember?_eq hentry] at hown
  simpa using List.find?_some hown

/-! ## What classes of a script list -/

section

variable {script : Script} {ctx : Context}

/-- The class of an item is the one that its members are listed in. -/
theorem DeclaredIn.members (h : DeclaredIn script ctx) {decl : ClassDecl}
    (hitem : .classDecl decl ∈ script.items) {id : SymbolId}
    (hid : ctx.bindings.symbol? decl.id = some id) : HasMembers ctx decl.members id := by
  obtain ⟨x, ⟨hx, -⟩, hmembers⟩ := h.items _ hitem
  cases hid.symm.trans hx
  exact hmembers

/-- A class is the root class, or it is declared by an item. -/
theorem DeclaredIn.class_cases (h : DeclaredIn script ctx) (hanalysed : Analysed script ctx)
    {id : SymbolId} {entry : ClassEntry} (hentry : ctx.symbols.class? id = some entry) :
    id = SymbolTable.rootClass ∨ ∃ decl, .classDecl decl ∈ script.items ∧
      ctx.bindings.symbol? decl.id = some id := by
  have hs := SymbolTable.class?_eq_some_iff.1 hentry
  refine (hanalysed.source id _ hs trivial).imp_right ?_
  rintro ⟨item, hitem, hid⟩
  obtain ⟨x, ⟨hx, hholds⟩, -⟩ := h.items item hitem
  cases hid.symm.trans hx
  cases item with
  | classDecl decl => exact ⟨decl, hitem, hid⟩
  | structDecl decl =>
      obtain ⟨e, he, -⟩ := hholds
      cases hs.symm.trans (SymbolTable.struct?_eq_some_iff.1 he)
  | function decl =>
      obtain ⟨-, e, he, -⟩ := hholds
      cases hs.symm.trans (SymbolTable.function?_eq_some_iff.1 he)

/-- The root class has the functions that it started with. -/
theorem DeclaredIn.root_functions (h : DeclaredIn script ctx) {entry : ClassEntry}
    (hentry : ctx.symbols.class? SymbolTable.rootClass = some entry) :
    entry.functions.map ctx.symbols.name = [initName, "dest"] := by
  obtain ⟨hlater, hsame⟩ := h.started
  have hinitial := hentry.symm.trans hsame
  cases hinitial
  have hnames : [3, 4].map ctx.symbols.name = [3, 4].map SymbolTable.initial.name := by
    refine List.map_congr_left fun g hg => hlater.name ?_
    have hall : ∀ g ∈ [3, 4], g < SymbolTable.initial.size := by decide
    exact hall g hg
  rw [hnames]
  rfl

/-- **No class has two functions of one name, and each has an `init`.** -/
theorem DeclaredIn.functions (h : DeclaredIn script ctx) (hanalysed : Analysed script ctx)
    {id : SymbolId} {entry : ClassEntry} (hentry : ctx.symbols.class? id = some entry) :
    (entry.functions.map ctx.symbols.name).Nodup ∧
      ∃ g ∈ entry.functions, ctx.symbols.name g = initName := by
  rcases h.class_cases hanalysed hentry with rfl | ⟨decl, hitem, hid⟩
  · have hnames := h.root_functions hentry
    rw [hnames]
    refine ⟨by decide, ?_⟩
    have hmem : initName ∈ entry.functions.map ctx.symbols.name := by rw [hnames]; simp
    exact List.mem_map.1 hmem
  · obtain ⟨e, he, hlists⟩ := (h.members hitem hid).listed
    cases hentry.symm.trans he
    exact ⟨hlists.functions_nodup, hlists.init_mem⟩

end

/-! ## Layouts -/

/-- How a class of the source is laid out: on top of the class that it extends, and what is new
comes in the order in which it is written. -/
def ClassDecl.IsPutOn (decl : ClassDecl) (ctx : Context) : Prop :=
  ∃ id entry parent layout inherited, ctx.bindings.symbol? decl.id = some id ∧
    ctx.symbols.class? id = some entry ∧ entry.parent = some parent ∧
    entry.layout = some layout ∧ ctx.symbols.layout? parent = some inherited ∧
    ctx.symbols.PutsOn entry inherited layout ∧ ListsMembers ctx decl.members entry ∧
    (layout.dispatch.drop inherited.dispatch.length).map some =
      (decl.methods.filter fun m =>
        !(inherited.dispatch.map ctx.symbols.name).contains m.name.name).map
        fun m => ctx.bindings.symbol? m.id

/-- **Layouts fit together**, in every script that is resolved without a report. -/
theorem layOut_compatible {source : String} {script : Script}
    (hparse : parse source = .ok script) (hclean : script.resolvedContext.Clean) :
    ∃ laid, script.resolvedContext.layOut = (none, laid) ∧ laid.symbols.Compatible ∧
      (∀ decl, .classDecl decl ∈ script.items → decl.IsPutOn laid) ∧
      ∀ decl, .structDecl decl ∈ script.items →
        ∃ id, laid.bindings.symbol? decl.id = some id ∧ HasFields laid decl.fields id := by
  have hproper := Script.proper_of_parse hparse
  have hids := Script.ids_nodup hproper
  have hanalysed := script.analysed hproper hclean
  have hdeclared := Script.declaredIn hproper hclean
  have hok := hanalysed.ok.table
  have hdistinct : script.resolvedContext.symbols.Distinct := fun id entry hentry =>
    (hdeclared.functions hanalysed hentry).1
  obtain ⟨table, heq, hlaid⟩ :=
    SymbolTable.finalizeLayouts_eq hok hanalysed.unlaid hanalysed.acyclic
  have harranged := SymbolTable.LaidOut.arranged hanalysed.unlaid hanalysed.acyclic heq
  have hcompatible := harranged.compatible hok hanalysed.acyclic hdistinct
    (fun _ _ => Script.isSome_class?_parent hids) hlaid
  have hdressed := harranged.toDressed
  refine ⟨{ script.resolvedContext with symbols := table }, by simp [Context.layOut, heq],
    hcompatible, fun decl hitem => ?_, fun decl hitem => ?_⟩
  · obtain ⟨id, parent, hid, hparent, -⟩ := hdeclared.parents decl (Script.mem_classes.2 hitem)
    have hmembers := hdeclared.members hitem hid
    obtain ⟨entry₀, hentry₀, hlists⟩ := hmembers.listed
    obtain ⟨entry, hentry⟩ := Option.isSome_iff_exists.1
      ((hdressed.isClass_iff id).2 (by simp [hentry₀]))
    cases hentry₀.symm.trans (hdressed.class? hentry)
    have hparent' : entry.parent = some parent := by
      simpa [SymbolTable.parent?, hentry₀] using hparent
    obtain ⟨layout, hlayout, -⟩ := hcompatible.layouts id entry hentry
    obtain ⟨inherited, hinherited, hon⟩ :=
      hcompatible.parents id entry parent layout hentry hparent' hlayout
    -- The parent has an `init`, so that the one of the class is not among the new functions.
    have hinit : initName ∈ inherited.dispatch.map table.name := by
      obtain ⟨e, he⟩ := Option.isSome_iff_exists.1 (Script.isSome_class?_parent hids hparent)
      obtain ⟨g, hg, hname⟩ := (hdeclared.functions hanalysed he).2
      have hslot := (harranged.layouts parent inherited hinherited).mem_names hdistinct he hg
      rwa [hdressed.name, ← hname]
    refine ⟨id, entry, parent, layout, inherited, hid, hentry, hparent', hlayout, hinherited, hon,
      hlists.dressed hdressed rfl rfl, ?_⟩
    rw [hon.further]
    have hlists' : ListsMembers { script.resolvedContext with symbols := table } decl.members
        entry :=
      hlists.dressed hdressed rfl rfl
    refine hlists'.further (fun m hm x hx => ?_) hinit
    exact (congrFun hdressed.name x).trans (hmembers.name (ClassMember.mem_methodsOf.1 hm) hx)
  · obtain ⟨id, ⟨hid, e, he, -⟩, hmembers⟩ := hdeclared.items _ hitem
    have hfields : HasFields script.resolvedContext decl.fields id := hmembers
    exact ⟨id, hid, hfields.keep hok hdressed.extend.later he ((hdressed.struct? id).trans he)
      fun _ _ => rfl⟩

/-- A class that is declared before the one that it extends, and takes over one of its functions. -/
def overridingSource : String :=
  "class B extends A { int32 k; int32 get() { return k; } int32 more() { return n; } } " ++
    "class A { int32 n; int32 get() { return n; } } struct S { int32 x; A y; }"

/-- It is resolved without a report, and these are the slots of its classes. -/
theorem overridingSource_evaluated :
    (match parse overridingSource with
      | .ok script => !script.resolvedContext.diagnostics.hasErrors &&
          (script.resolvedContext.layOut.2.symbols.symbols.filterMap Symbol.class?).map
            (fun entry => entry.layout.map fun layout =>
              layout.dispatch.map script.resolvedContext.symbols.name) ==
            [some ["init", "dest"], some ["init", "dest", "get", "more"],
              some ["init", "dest", "get"]]
      | .error _ => false) = true := by
  decide +kernel

theorem layOut_compatible_overriding : ∃ script, parse overridingSource = .ok script ∧
    script.resolvedContext.Clean ∧
    (script.resolvedContext.layOut.2.symbols.symbols.filterMap Symbol.class?).map
      (fun entry => entry.layout.map fun layout =>
        layout.dispatch.map script.resolvedContext.symbols.name) =
      [some ["init", "dest"], some ["init", "dest", "get", "more"],
        some ["init", "dest", "get"]] ∧
    ∃ laid, script.resolvedContext.layOut = (none, laid) ∧ laid.symbols.Compatible ∧
      (∀ decl, .classDecl decl ∈ script.items → decl.IsPutOn laid) ∧
      ∀ decl, .structDecl decl ∈ script.items →
        ∃ id, laid.bindings.symbol? decl.id = some id ∧ HasFields laid decl.fields id := by
  have h := overridingSource_evaluated
  split at h
  · next script hparse =>
      simp only [Bool.and_eq_true, Bool.not_eq_true', beq_iff_eq] at h
      exact ⟨script, hparse, h.1, h.2, layOut_compatible hparse h.1⟩
  · cases h

end ClassLang
