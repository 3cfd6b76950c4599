import ClassLang.Proofs.Resolve.Agreement
import ClassLang.Proofs.Resolve.Lineage
import ClassLang.Proofs.Resolve.Settle

/-!
# Classes while members are declared

At any moment of the declaration of members some structs and classes have been read, one class
is half read, and the others wait.  Those that wait are as they were when parents were given
(`Unfilled`), because nothing that is read changes the nodes or the entry of another item
(`Underway`).  So a class starts with an empty entry and an empty scope, whatever was reported
before, and its two records agree from then on (`Script.members_agree`).
-/

namespace ClassLang

open Analysis

/-! ## Before members are declared -/

/-- Names are bound, and nothing else is known: a symbol belongs to the node of one item, no node
has opened a scope, and classes have no members. -/
structure Unfilled (items : List Item) (ctx : Context) : Prop where
  unopened : ∀ node, ctx.bindings.scope? node = none
  known : ∀ node id, ctx.bindings.symbol? node = some id → id < ctx.symbols.size
  bound : ∀ node id, ctx.bindings.symbol? node = some id → ∃ item ∈ items, item.id = node
  apart : ∀ node other id, ctx.bindings.symbol? node = some id →
    ctx.bindings.symbol? other = some id → node = other
  empty : ∀ decl id, .classDecl decl ∈ items → ctx.bindings.symbol? decl.id = some id →
    ∃ entry, ctx.symbols.class? id = some entry ∧ entry.fields = [] ∧ entry.functions = []

theorem unfilled_initial : Unfilled [] .initial where
  unopened _ := rfl
  known _ _ h := by cases h
  bound _ _ h := by cases h
  apart _ _ _ h := by cases h
  empty _ _ h := by cases h

/-- **One more item**, whether its name is taken or not. -/
theorem Unfilled.declare {items : List Item} {item : Item} {ctx ctx' : Context}
    (h : Unfilled items ctx) (hnew : ∀ other ∈ items, other.id ≠ item.id)
    (hstep : item.Declares ctx ctx') : Unfilled (items ++ [item]) ctx' := by
  have hunbound : ctx.bindings.symbol? item.id = none := by
    cases hsymbol : ctx.bindings.symbol? item.id with
    | none => rfl
    | some id =>
        obtain ⟨other, hother, heq⟩ := h.bound item.id id hsymbol
        exact absurd heq (hnew other hother)
  rcases hstep with ⟨hsymbols, hbindings⟩ | ⟨hsymbols, hbindings⟩
  · refine ⟨?_, ?_, ?_, ?_, ?_⟩ <;> simp only [hsymbols, hbindings]
    · exact h.unopened
    · exact h.known
    · intro node id hid
      obtain ⟨other, hother, heq⟩ := h.bound node id hid
      exact ⟨other, List.mem_append_left _ hother, heq⟩
    · exact h.apart
    · intro decl id hdecl hid
      rcases List.mem_append.1 hdecl with hdecl | hdecl
      · exact h.empty decl id hdecl hid
      · obtain rfl := List.mem_singleton.1 hdecl
        cases hunbound.symm.trans hid
  · -- A node has the symbol that it had, or it is the node of the item, whose symbol is new.
    have hcases : ∀ node id, ctx'.bindings.symbol? node = some id →
        (node = item.id ∧ id = ctx.symbols.size) ∨ ctx.bindings.symbol? node = some id := by
      intro node id hid
      rw [hbindings, Bindings.symbol?_bindSymbol] at hid
      split at hid
      · next heq => exact .inl ⟨heq, (Option.some.inj hid).symm⟩
      · exact .inr hid
    constructor
    · rw [hbindings]
      exact h.unopened
    · intro node id hid
      rw [hsymbols, SymbolTable.size_add]
      rcases hcases node id hid with ⟨-, rfl⟩ | hid
      · exact Nat.lt_succ_self _
      · exact Nat.lt_succ_of_lt (h.known node id hid)
    · intro node id hid
      rcases hcases node id hid with ⟨rfl, -⟩ | hid
      · exact ⟨item, by simp, rfl⟩
      · obtain ⟨other, hother, heq⟩ := h.bound node id hid
        exact ⟨other, List.mem_append_left _ hother, heq⟩
    · intro node other id hid hother
      rcases hcases node id hid with ⟨hnode, rfl⟩ | hid
      · rcases hcases other _ hother with ⟨hnode', -⟩ | hother
        · rw [hnode, hnode']
        · exact absurd (h.known other _ hother) (Nat.lt_irrefl _)
      · rcases hcases other id hother with ⟨-, rfl⟩ | hother
        · exact absurd (h.known node _ hid) (Nat.lt_irrefl _)
        · exact h.apart node other id hid hother
    · intro decl id hdecl hid
      rw [hsymbols]
      rcases hcases decl.id id hid with ⟨heq, rfl⟩ | hid
      · rcases List.mem_append.1 hdecl with hdecl | hdecl
        · exact absurd heq (hnew _ hdecl)
        · rw [← List.mem_singleton.1 hdecl, SymbolTable.class?_add, if_pos rfl]
          exact ⟨_, rfl, rfl, rfl⟩
      · rcases List.mem_append.1 hdecl with hdecl | hdecl
        · obtain ⟨entry, hentry, hempty⟩ := h.empty decl id hdecl hid
          exact ⟨entry, SymbolTable.class?_add_of_some hentry, hempty⟩
        · obtain rfl := List.mem_singleton.1 hdecl
          cases hunbound.symm.trans hid

/-- Parents do not matter. -/
theorem Unfilled.bindParent {items : List Item} {decl : ClassDecl} {ctx : Context}
    (h : Unfilled items ctx) : Unfilled items (decl.bindParent.run ctx).2 := by
  cases hsymbol : ctx.bindings.symbol? decl.id with
  | none =>
      rw [decl.run_bindParent_of_none hsymbol]
      exact h
  | some id =>
      obtain ⟨hsymbols, hbindings, -⟩ := decl.always_resolveParent id ctx
      rw [decl.run_bindParent hsymbol, hsymbols]
      constructor
      · rw [hbindings]
        exact h.unopened
      · simpa [hbindings, SymbolTable.setParent, SymbolTable.modifyClass] using h.known
      · rw [hbindings]
        exact h.bound
      · rw [hbindings]
        exact h.apart
      · rw [hbindings]
        intro other x hother hx
        obtain ⟨entry, hentry, hempty⟩ := h.empty other x hother hx
        rw [SymbolTable.setParent, SymbolTable.class?_modifyClass_eq]
        split
        · rw [hentry]
          exact ⟨_, rfl, hempty⟩
        · exact ⟨entry, hentry, hempty⟩

namespace Script

/-- Behind the parents, nothing is filled in. -/
theorem unfilled_parentedContext {script : Script} (hids : (script.items.map Item.id).Nodup) :
    Unfilled script.items script.parentedContext := by
  have hdeclared : Unfilled script.items script.declaredContext :=
    Item.always_declareAll Unfilled.declare script.items .initial [] unfilled_initial hids
  have hparents := always_forM (f := ClassDecl.bindParent)
    (R := fun ctx ctx' => Unfilled script.items ctx → Unfilled script.items ctx') (fun _ h => h)
    (fun h h' hctx => h' (h hctx)) script.classes fun decl _ ctx h => h.bindParent
  exact hparents script.declaredContext hdeclared

end Script

/-! ## Item by item -/

/-- What reading the members of an item does: nothing changes but the item, and the records of a
class that has waited agree. -/
def Item.Reads (item : Item) (ctx ctx' : Context) : Prop :=
  (∀ decl, item = .classDecl decl → decl.Waits ctx) → ∀ changed,
    (∀ id, ctx.bindings.symbol? item.id = some id → id ∈ changed) →
    Fills changed item.nodes [] ctx ctx' ∧ ∀ decl, item = .classDecl decl → ∀ id,
      ctx.bindings.symbol? decl.id = some id → decl.Agrees ctx' id

theorem StructDecl.always_reads (decl : StructDecl) :
    Always decl.declareFields fun ctx _ ctx' => (Item.structDecl decl).Reads ctx ctx' := by
  refine decl.always_declareFields.mono ?_
  intro ctx _ ctx' h _ changed hchanged
  refine ⟨(h changed hchanged).mono (fun _ h _ => h) (List.subset_cons_self _ _) fun _ h _ => h, ?_⟩
  intro other hother
  cases hother

theorem ClassDecl.always_reads {decl : ClassDecl} {first rest : List ClassMember}
    (hmembers : decl.members = first ++ rest) (hnodes : (Item.classDecl decl).nodes.Nodup) :
    Always (decl.declareFirst first) fun ctx _ ctx' => (Item.classDecl decl).Reads ctx ctx' := by
  refine (decl.always_declareFirst hmembers hnodes).mono ?_
  intro ctx _ ctx' h hwaits changed hchanged
  obtain ⟨hfills, hagree⟩ := h (hwaits decl rfl) changed hchanged
  refine ⟨hfills, ?_⟩
  rintro other ⟨⟩
  exact hagree

theorem ClassDecl.always_reads_all {decl : ClassDecl} (hnodes : (Item.classDecl decl).nodes.Nodup) :
    Always decl.declareMembers fun ctx _ ctx' => (Item.classDecl decl).Reads ctx ctx' := by
  have hnil : decl.members = decl.members ++ [] := (List.append_nil _).symm
  have hrest : ∀ found, Always (decl.declareRest [] found) fun ctx _ ctx' => ctx' = ctx := by
    rintro (_ | _) <;> exact fun _ => rfl
  rw [declareMembers_eq hnil]
  refine ((ClassDecl.always_reads hnil hnodes).bind hrest).mono ?_
  rintro ctx _ ctx' ⟨_, _, hreads, rfl⟩
  exact hreads

/-- The records of a class agree, whatever is filled in elsewhere. -/
theorem ClassDecl.Agrees.keep {decl : ClassDecl} {id : SymbolId} {ctx ctx' : Context}
    {changed : List SymbolId} {nodes : List NodeId} (h : decl.Agrees ctx id)
    (hfills : Fills changed nodes [] ctx ctx') (hnode : decl.id ∉ nodes) (hid : id ∉ changed) :
    decl.Agrees ctx' id := by
  obtain ⟨hsymbol, scope, entry, hscope, hagree⟩ := h
  exact ⟨(hfills.confined.symbol? _ hnode).trans hsymbol, scope, entry,
    (hfills.confined.scope? _ hnode).trans hscope, hagree.keep hfills hid (by simp)⟩

/-- Some items have been read since `start`. -/
structure Underway (start : Context) (done : List Item) (ctx : Context) : Prop where
  fills : Fills (Item.idsOf start done) (done.flatMap Item.nodes) [] start ctx
  agree : ∀ decl id, .classDecl decl ∈ done → start.bindings.symbol? decl.id = some id →
    decl.Agrees ctx id

theorem Item.nodup_nodes_left {items more : List Item}
    (h : ((items ++ more).flatMap Item.nodes).Nodup) : (items.flatMap Item.nodes).Nodup := by
  rw [List.flatMap_append] at h
  exact h.of_append_left

/-- **One more item.** -/
theorem Underway.step {items done : List Item} {item : Item} {start ctx ctx' : Context}
    (hstart : Unfilled items start) (h : Underway start done ctx) (hitem : item ∈ items)
    (hnodes : ((done ++ [item]).flatMap Item.nodes).Nodup) (hstep : item.Reads ctx ctx') :
    Underway start (done ++ [item]) ctx' := by
  rw [List.flatMap_append, List.flatMap_singleton] at hnodes
  have hapart : ∀ n ∈ item.nodes, n ∉ done.flatMap Item.nodes := fun n hn hmem =>
    (List.nodup_append.1 hnodes).2.2 n hmem n hn rfl
  have hapart' : ∀ other ∈ done, ∀ n ∈ other.nodes, n ∉ item.nodes := fun other hother n hn hmem =>
    hapart n hmem (List.mem_flatMap.2 ⟨other, hother, hn⟩)
  have hsymbol : ctx.bindings.symbol? item.id = start.bindings.symbol? item.id :=
    h.fills.confined.symbol? _ (hapart _ item.id_mem_nodes)
  -- The symbol of the item is not the one of an item before it.
  have hids : ∀ other ∈ done, ∀ id, start.bindings.symbol? other.id = some id →
      start.bindings.symbol? item.id ≠ some id := by
    intro other hother id hid hsame
    have heq := hstart.apart _ _ _ hsame hid
    exact hapart _ item.id_mem_nodes
      (List.mem_flatMap.2 ⟨other, hother, heq ▸ other.id_mem_nodes⟩)
  have hwaits : ∀ decl, item = .classDecl decl → decl.Waits ctx := by
    rintro decl rfl
    refine ⟨fun n hn => (h.fills.confined.scope? n (hapart n hn)).trans (hstart.unopened n), ?_⟩
    intro id hid
    have hid' := hsymbol.symm.trans hid
    obtain ⟨entry, hentry, hempty⟩ := hstart.empty decl id hitem hid'
    refine ⟨entry, (h.fills.class? fun hmem => ?_).trans hentry, hempty⟩
    obtain ⟨other, hother, hsame⟩ := List.mem_filterMap.1 hmem
    exact hids other hother id hsame hid'
  let changed := (start.bindings.symbol? item.id).toList
  obtain ⟨hfills, hagree⟩ := hstep hwaits changed fun id hid => by
    simpa [changed] using hsymbol.symm.trans hid
  have hidsOf : Item.idsOf start (done ++ [item]) = Item.idsOf start done ++ changed := by
    simp only [Item.idsOf, List.filterMap_append, changed]
    cases hid : start.bindings.symbol? item.id <;> simp [hid]
  constructor
  · rw [hidsOf, List.flatMap_append, List.flatMap_singleton]
    exact (h.fills.mono (fun _ hx _ => List.mem_append_left _ hx)
      (List.subset_append_left _ _) fun _ hs _ => hs).trans
      (hfills.mono (fun _ hx _ => List.mem_append_right _ hx)
      (List.subset_append_right _ _) fun _ hs _ => hs)
  · intro decl id hdecl hid
    rcases List.mem_append.1 hdecl with hdecl | hdecl
    · have hnode : decl.id ∉ item.nodes := hapart' _ hdecl _ (List.mem_cons_self ..)
      refine (h.agree decl id hdecl hid).keep hfills hnode fun hmem => ?_
      exact hids _ hdecl id hid (by simpa [changed] using hmem)
    · obtain rfl := List.mem_singleton.1 hdecl
      exact hagree decl rfl id (hsymbol.trans hid)

/-- Items one after the other. -/
theorem Underway.forM {α : Type} {f : α → Analysis PUnit} {g : α → Item} {items : List Item}
    {start : Context} (hstart : Unfilled items start) {all : List α}
    (hstep : ∀ a ∈ all, Always (f a) fun ctx _ ctx' => (g a).Reads ctx ctx') :
    Always (all.forM f) fun ctx _ ctx' => ∀ done, Underway start done ctx →
      (∀ a ∈ all, g a ∈ items) → ((done ++ all.map g).flatMap Item.nodes).Nodup →
      Underway start (done ++ all.map g) ctx' := by
  induction all with
  | nil =>
      intro ctx done h _ _
      rw [List.map_nil, List.append_nil]
      exact h
  | cons a rest ih =>
      intro ctx done h hitems hnodes
      rw [List.map_cons, List.append_cons] at hnodes ⊢
      have hnext := h.step hstart (hitems a (List.mem_cons_self ..)) (Item.nodup_nodes_left hnodes)
        (hstep a (List.mem_cons_self ..) ctx)
      exact ih (fun b hb => hstep b (List.mem_cons_of_mem _ hb)) _ _ hnext
        (fun b hb => hitems b (List.mem_cons_of_mem _ hb)) hnodes

/-! ## Scripts -/

namespace Script

/-- The declarations of a script up to some member of some class: the classes `before` are read,
and of `decl` there is the `init` that every class starts with, and the members `first`. -/
def declareUpTo (script : Script) (before : List ClassDecl) (decl : ClassDecl)
    (first : List ClassMember) : Analysis (Option (SymbolId × ScopeId)) := do
  script.classes.forM ClassDecl.bindParent
  script.structs.forM StructDecl.declareFields
  before.forM ClassDecl.declareMembers
  decl.declareFirst first

/-- What is left of the declarations of a script behind some member of some class. -/
def declareFrom (script : Script) (decl : ClassDecl) (rest : List ClassMember)
    (after : List ClassDecl) (found : Option (SymbolId × ScopeId)) : Analysis Unit := do
  decl.declareRest rest found
  after.forM ClassDecl.declareMembers
  script.functions.forM FunctionDecl.declareFree
  script.items.forM Item.checkContainment
  let ctx ← get
  (LinkName.clashes [] (LinkName.ofScript ctx script)).forM Analysis.report

/-- Every resolution comes by every member. -/
theorem declareUpTo_bind_declareFrom {script : Script} {before after : List ClassDecl}
    {decl : ClassDecl} (hclasses : script.classes = before ++ decl :: after)
    {first rest : List ClassMember} (hmembers : decl.members = first ++ rest) :
    script.declareUpTo before decl first >>= script.declareFrom decl rest after =
      script.resolveDeclarations := by
  have hread : script.classes.forM ClassDecl.declareMembers = (do
      before.forM ClassDecl.declareMembers
      let found ← decl.declareFirst first
      decl.declareRest rest found
      after.forM ClassDecl.declareMembers) := by
    simp [hclasses, ClassDecl.declareMembers_eq hmembers]
  unfold resolveDeclarations declareUpTo declareFrom
  simp only [hread, bind_assoc]

theorem bindings_parentedContext (script : Script) :
    script.parentedContext.bindings = script.declaredContext.bindings := by
  have hparents := always_forM (R := fun ctx ctx' => ctx'.bindings = ctx.bindings) (fun _ => rfl)
    (fun h h' => h'.trans h) script.classes fun decl _ ctx => (decl.always_bindParent ctx).1
  exact hparents script.declaredContext

section

variable {script : Script} {before after : List ClassDecl} {decl : ClassDecl}
  {first rest : List ClassMember}

/-- At any moment the structs and some classes have been read, one after the other. -/
theorem underway_declareUpTo (hproper : script.Proper)
    (hclasses : script.classes = before ++ decl :: after)
    (hmembers : decl.members = first ++ rest) :
    Underway script.parentedContext (script.structs.map Item.structDecl ++
        before.map Item.classDecl ++ [Item.classDecl decl])
      ((script.declareUpTo before decl first).run script.declaredContext).2 := by
  have hstart := unfilled_parentedContext (Script.ids_nodup hproper)
  have hitem : ∀ c ∈ before ++ [decl], Item.classDecl c ∈ script.items := by
    intro c hc
    rw [← Script.mem_classes, hclasses, List.append_cons]
    exact List.mem_append_left _ hc
  have hown : ∀ c ∈ before ++ [decl], (Item.classDecl c).nodes.Nodup := fun c hc =>
    Script.item_nodup hproper (hitem c hc)
  have horder : ((script.structs.map Item.structDecl ++ before.map Item.classDecl ++
      [Item.classDecl decl]).flatMap Item.nodes).Nodup := by
    have hall : (script.fillOrder.flatMap Item.nodes).Nodup :=
      (script.fillOrder_perm.flatMap_right Item.nodes).symm.nodup hproper.nodup
    have hsplit : script.fillOrder = (script.structs.map Item.structDecl ++
        before.map Item.classDecl ++ [Item.classDecl decl]) ++
          (after.map Item.classDecl ++ script.functions.map Item.function) := by
      simp [fillOrder, hclasses]
    exact Item.nodup_nodes_left (hsplit ▸ hall)
  have hbefore := Item.nodup_nodes_left horder
  -- The structs, the classes in front, and the class that is half read.
  have hstructs : Always (script.structs.forM StructDecl.declareFields) _ :=
    Underway.forM hstart fun s _ => s.always_reads
  have hclasses : Always (before.forM ClassDecl.declareMembers) _ :=
    Underway.forM hstart fun c hc =>
      ClassDecl.always_reads_all (hown c (List.mem_append_left _ hc))
  have hdecl := ClassDecl.always_reads hmembers (hown decl (by simp))
  obtain ⟨_, _, hafterStructs, _, _, hafterClasses, hreads⟩ :=
    (hstructs.bind fun _ => hclasses.bind fun _ => hdecl) script.parentedContext
  have hstarted : Underway script.parentedContext [] script.parentedContext :=
    ⟨.refl _ _ _ _, by simp⟩
  have hread := hafterStructs [] hstarted (fun s hs => Script.mem_structs.1 hs)
    (Item.nodup_nodes_left hbefore)
  exact (hafterClasses _ hread (fun c hc => hitem c (List.mem_append_left _ hc)) hbefore).step
    hstart (hitem decl (by simp)) horder hreads

/-- **The two records of the members of a class never diverge.**  At every moment of the
declaration of members, whatever was reported until then: for each class that has got its `init`,
the scope of its body binds every name to the own member of the class of this name, and to nothing
if there is none; no two of its fields and functions have one name, and exactly one function is
called `init`. -/
theorem members_agree {source : String} (h : parse source = .ok script)
    (hclasses : script.classes = before ++ decl :: after)
    (hmembers : decl.members = first ++ rest) :
    ∀ c ∈ before ++ [decl], ∀ id, script.declaredContext.bindings.symbol? c.id = some id →
      c.Agrees ((script.declareUpTo before decl first).run script.declaredContext).2 id := by
  have hread := underway_declareUpTo (Script.proper_of_parse h) hclasses hmembers
  intro c hc id hid
  refine hread.agree c id ?_ (script.bindings_parentedContext ▸ hid)
  rcases List.mem_append.1 hc with hc | hc
  · simp [hc]
  · simp [List.mem_singleton.1 hc]

end

end Script

/-! ## Members that are declared again -/

/-- A field called `init`, a function with the name of a field, and an `init` that is wrong, one
that is right and one more; a class is declared twice. -/
def repeatedSource : String :=
  "class A { int32 init; } class A {} " ++
    "class B { int32 n; void n() {} int32 init() {} void init() {} void init() {} int8 n; }"

/-- Behind the second `void init()`, four errors have been reported for the members, and one for
the name that is taken. -/
theorem repeated_evaluated :
    (match parse repeatedSource with
      | .ok script =>
          match script.classes with
          | [a, taken, b] =>
              script.declaredContext.bindings.symbol? a.id == some 5 &&
                script.declaredContext.bindings.symbol? b.id == some 6 && b.members.length == 6 &&
                ((script.declareUpTo [a, taken] b (b.members.take 5)).run
                  script.declaredContext).2.diagnostics.errorCount == 5
          | _ => false
      | .error _ => false) = true := by
  decide +kernel

theorem Script.members_agree_repeated : ∃ script a taken b ctx, parse repeatedSource = .ok script ∧
    script.classes = [a, taken, b] ∧ b.members.length = 6 ∧
    ctx = ((script.declareUpTo [a, taken] b (b.members.take 5)).run script.declaredContext).2 ∧
    ctx.diagnostics.errorCount = 5 ∧ a.Agrees ctx 5 ∧ b.Agrees ctx 6 := by
  have h := repeated_evaluated
  split at h
  · next script hparse =>
      split at h
      · next a taken b hclasses =>
          simp only [Bool.and_eq_true, beq_iff_eq] at h
          obtain ⟨⟨⟨ha, hb⟩, hlength⟩, herrors⟩ := h
          have hsplit : script.classes = [a, taken] ++ b :: [] := hclasses
          have hmembers : b.members = b.members.take 5 ++ b.members.drop 5 :=
            (List.take_append_drop 5 b.members).symm
          have hagree := Script.members_agree hparse hsplit hmembers
          exact ⟨script, a, taken, b, _, hparse, hclasses, hlength, rfl, herrors,
            hagree a (by simp) 5 ha, hagree b (by simp) 6 hb⟩
      · cases h
  · cases h

end ClassLang
