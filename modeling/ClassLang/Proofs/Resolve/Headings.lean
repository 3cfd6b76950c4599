import ClassLang.Declare
import ClassLang.Resolve.Decl

/-!
# Declarations do not read bodies

The heading of a unit is what is left of it without the bodies of its functions.  Names are
declared, and declarations resolved, from the heading alone (`Script.declare_heading`,
`Script.resolveDeclarations_heading`).
-/

namespace ClassLang

/-! ## Headings -/

/-- Every block counts as the same one. -/
def FunctionBody.heading : FunctionBody → FunctionBody
  | .block _ => .block default
  | .external variadic => .external variadic

/-- A function without its body. -/
def FunctionDecl.heading (decl : FunctionDecl) : FunctionDecl :=
  { decl with body := decl.body.heading }

/-- A member of a class without its body. -/
def ClassMember.heading : ClassMember → ClassMember
  | .field f => .field f
  | .method f => .method f.heading

/-- A class without the bodies of its functions. -/
def ClassDecl.heading (decl : ClassDecl) : ClassDecl :=
  { decl with members := decl.members.map ClassMember.heading }

/-- An item without bodies. -/
def Item.heading : Item → Item
  | .classDecl decl => .classDecl decl.heading
  | .structDecl decl => .structDecl decl
  | .function decl => .function decl.heading

/-- A unit without bodies. -/
def Script.heading (script : Script) : Script :=
  { script with items := script.items.map Item.heading }

@[simp] theorem FunctionBody.isExternal_heading (body : FunctionBody) :
    body.heading.isExternal = body.isExternal := by
  cases body <;> rfl

@[simp] theorem FunctionBody.isVariadic_heading (body : FunctionBody) :
    body.heading.isVariadic = body.isVariadic := by
  cases body <;> rfl

/-- A program for each element of a list, and one that does the same for what it was made of. -/
theorem List.forM_map_congr {α β : Type} {g : α → β} {f : α → Analysis PUnit}
    {f' : β → Analysis PUnit} (h : ∀ a, f' (g a) = f a) (l : List α) :
    (l.map g).forM f' = l.forM f := by
  induction l with
  | nil => rfl
  | cons a rest ih =>
      simp only [List.map_cons, List.forM_eq_forM, List.forM_cons, h] at ih ⊢
      rw [ih]

/-! ## Names -/

/-- Declaring an item does not read bodies. -/
theorem Item.declare_heading (item : Item) : item.heading.declare = item.declare := by
  cases item with
  | function decl => simp [heading, declare, symbol, name, id, FunctionDecl.heading]
  | _ => rfl

/-- Counting the items of a name does not read bodies. -/
theorem Item.countIn_heading (item : Item) : item.heading.countIn = item.countIn := by
  cases item <;> rfl

/-- **Names are declared without looking at bodies.** -/
theorem Script.declare_heading (script : Script) : script.heading.declare = script.declare := by
  unfold declare heading
  dsimp only
  induction script.items with
  | nil => rfl
  | cons item rest ih =>
      simp only [List.map_cons, Item.declareAll, Item.declare_heading, Item.countIn_heading, ih]

/-! ## Declarations -/

/-- Resolving a signature does not read the body. -/
theorem FunctionDecl.resolveSignature_heading (decl : FunctionDecl) (id : SymbolId)
    (scope : ScopeId) (owner : Option SymbolId) :
    decl.heading.resolveSignature id scope owner = decl.resolveSignature id scope owner := by
  simp [heading, resolveSignature]

/-- Declaring a free function does not read its body. -/
theorem FunctionDecl.declareFree_heading (decl : FunctionDecl) :
    decl.heading.declareFree = decl.declareFree := by
  simp only [declareFree, resolveSignature_heading]
  rfl

/-- Declaring a member does not read bodies. -/
theorem ClassMember.declare_heading (member : ClassMember) (decl : ClassDecl) (owner : SymbolId)
    (scope : ScopeId) :
    member.heading.declare decl.heading owner scope = member.declare decl owner scope := by
  cases member with
  | field f => rfl
  | method f =>
      simp only [heading, declare, FunctionDecl.declareInClass,
        FunctionDecl.resolveSignature_heading]
      rfl

/-- Declaring the members of a class does not read bodies. -/
theorem ClassDecl.declareMembers_heading (decl : ClassDecl) :
    decl.heading.declareMembers = decl.declareMembers := by
  have hmembers : ∀ id scope,
      decl.heading.members.forM (fun member => member.declare decl.heading id scope) =
        decl.members.forM fun member => member.declare decl id scope := fun id scope =>
    List.forM_map_congr (fun member => member.declare_heading decl id scope) decl.members
  simp only [declareMembers, hmembers]
  rfl

/-- Looking for records that contain themselves does not read bodies. -/
theorem Item.checkContainment_heading (item : Item) :
    item.heading.checkContainment = item.checkContainment := by
  cases item <;> rfl

/-- The classes of a heading are those of the script, without bodies. -/
theorem Script.classes_heading (script : Script) :
    script.heading.classes = script.classes.map ClassDecl.heading := by
  unfold classes heading
  dsimp only
  induction script.items with
  | nil => rfl
  | cons item rest ih => cases item <;> simp_all [Item.heading]

/-- The structs of a heading are those of the script. -/
theorem Script.structs_heading (script : Script) : script.heading.structs = script.structs := by
  unfold structs heading
  dsimp only
  induction script.items with
  | nil => rfl
  | cons item rest ih => cases item <;> simp_all [Item.heading]

/-- The functions of a heading are those of the script, without bodies. -/
theorem Script.functions_heading (script : Script) :
    script.heading.functions = script.functions.map FunctionDecl.heading := by
  unfold functions heading
  dsimp only
  induction script.items with
  | nil => rfl
  | cons item rest ih => cases item <;> simp_all [Item.heading]

/-- The names that items bring along do not depend on bodies. -/
theorem LinkName.ofScript_heading (ctx : Context) (script : Script) :
    ofScript ctx script.heading = ofScript ctx script := by
  have hitem : ∀ item : Item, ofItem ctx item.heading = ofItem ctx item := by
    intro item
    cases item <;> rfl
  simp only [ofScript, Script.heading, List.flatMap_map, hitem]

/-- **Declarations are resolved without looking at bodies.** -/
theorem Script.resolveDeclarations_heading (script : Script) :
    script.heading.resolveDeclarations = script.resolveDeclarations := by
  have hitems : script.heading.items = script.items.map Item.heading := rfl
  have hparents : ∀ decl : ClassDecl, decl.heading.bindParent = decl.bindParent := fun _ => rfl
  simp only [resolveDeclarations, classes_heading, structs_heading, functions_heading, hitems,
    List.forM_map_congr hparents, List.forM_map_congr ClassDecl.declareMembers_heading,
    List.forM_map_congr FunctionDecl.declareFree_heading,
    List.forM_map_congr Item.checkContainment_heading, LinkName.ofScript_heading]

end ClassLang
