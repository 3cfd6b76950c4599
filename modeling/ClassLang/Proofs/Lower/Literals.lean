import ClassLang.Proofs.Lower.Receivers
import ClassLang.Proofs.Resolve.Literals

/-!
# String literals in the tree and in the code

A unit declares a global for each text of its source.  The code of a function addresses globals
for string literals only, one after the other in the order in which the literals are evaluated
(`Expr.codeTexts`, `Stmt.codeTexts`), and each address is that of the global that was declared
with the text: `Lowers.addresses`, `LowersStmt.addresses`.
-/

namespace ClassLang

/-! ## Texts in the tree -/

mutual

/-- The texts in an expression, in the order of evaluation. -/
def Expr.codeTexts : Expr → List String
  | .literal _ (.string text) _ => [text]
  | .literal _ _ _ | .name _ _ => []
  | .binary _ _ left right _ => left.codeTexts ++ right.codeTexts
  | .assign _ target value _ => value.codeTexts ++ target.codeTexts
  | .call _ _ args _ => Expr.codeTextsOfAll args
  | .methodCall _ object _ args _ => object.codeTexts ++ Expr.codeTextsOfAll args
  | .member _ object _ _ => object.codeTexts

/-- The texts in expressions. -/
def Expr.codeTextsOfAll : List Expr → List String
  | [] => []
  | e :: rest => e.codeTexts ++ Expr.codeTextsOfAll rest

end

/-- The texts in an expression that may be missing. -/
def Expr.codeTextsOfOption : Option Expr → List String
  | some e => e.codeTexts
  | none => []

mutual

/-- The texts in a statement, in the order of the code. -/
def Stmt.codeTexts : Stmt → List String
  | .block _ stmts _ => Stmt.codeTextsOfAll stmts
  | .varDecl _ _ _ value _ | .ret value _ => Expr.codeTextsOfOption value
  | .ifThen condition positive _ => condition.codeTexts ++ positive.codeTexts
  | .ifElse condition positive negative _ =>
    condition.codeTexts ++ (positive.codeTexts ++ negative.codeTexts)
  | .expr e _ => e.codeTexts

/-- The texts in statements, as far as control gets to them. -/
def Stmt.codeTextsOfAll : List Stmt → List String
  | [] => []
  | s :: rest => s.codeTexts ++ if s.returns then [] else Stmt.codeTextsOfAll rest

end

/-- The texts that belong to a task. -/
def Task.codeTexts : Task → List String
  | .value e | .address e | .base e => e.codeTexts
  | .receiver object _ => Expr.codeTextsOfOption object
  | .values es => Expr.codeTextsOfAll es

/-- The same for statements. -/
def StmtTask.codeTexts : StmtTask → List String
  | .one s => s.codeTexts
  | .all stmts => Stmt.codeTextsOfAll stmts

/-- The texts of a call are those of its receiver and of its arguments. -/
theorem Expr.IsCall.codeTexts_eq {e : Expr} {id : NodeId} {callee : Ident} {object : Option Expr}
    {args : List Expr} (h : e.IsCall id callee object args) :
    e.codeTexts = Expr.codeTextsOfOption object ++ Expr.codeTextsOfAll args := by
  cases h <;> rfl

/-! ## Addresses in the code -/

/-- Whether an operand is a global. -/
def Operand.isGlobal : Operand → Bool
  | .global _ _ => true
  | _ => false

/-- The address of a part of a global that an instruction computes: where it is put, the global and
the indices. -/
def Instruction.globalPtr? : Instruction → Option (Operand × Operand × List Nat)
  | .elementPtr dest base indices => if base.isGlobal then some (dest, base, indices) else none
  | _ => none

instance : Region.PicksPlain Instruction.globalPtr? where
  eq_none i hi := by cases i <;> first | rfl | exact absurd trivial hi

/-- The global that an instruction declares for a text. -/
def Instruction.textGlobal? : Instruction → Option (String × String)
  | .stringLiteral name text => some (name, text)
  | _ => none

/-- An address is that of the first byte of a text, in the global that holds the text and a zero
byte. -/
structure AddressesText (globals : List (String × String)) (text : String)
    (address : Operand × Operand × List Nat) : Prop where
  pointer : address.1.ty = .pointer .int8
  global : ∃ name, (name, text) ∈ globals ∧
    address.2.1 = .global name (.pointer (.array .int8 (text.utf8ByteSize + 1)))
  indices : address.2.2 = [0, 0]

/-- The globals for the string literals of a table. -/
def SymbolTable.textGlobals (table : SymbolTable) : List (String × String) :=
  table.literals.map fun entry => (entry.globalName, entry.text)

theorem Text.byteLength_toList (text : String) : byteLength text.toList = text.utf8ByteSize := by
  induction text using String.push_induction with
  | empty => rfl
  | push text c ih => simp [ih, String.utf8ByteSize_push]

/-! ## Regions that address texts -/

/-- The globals that the code of a region addresses are those for texts. -/
def Region.Addresses (globals : List (String × String)) (texts : List String) (r : Region) :
    Prop :=
  List.Forall₂ (AddressesText globals) texts (r.picked Instruction.globalPtr?)

namespace Region.Addresses

variable {globals : List (String × String)} {texts more : List String} {r r₁ r₂ : Region}
  {i : Instruction}

theorem empty : Region.empty.Addresses globals [] := .nil

theorem step (h : i.globalPtr? = none) : (Region.step i).Addresses globals [] := by
  rw [Region.Addresses, picked_step, h]
  exact .nil

theorem seq (h₁ : r₁.Addresses globals texts) (h₂ : r₂.Addresses globals more) :
    (r₁.seq r₂).Addresses globals (texts ++ more) := by
  rw [Region.Addresses, picked_seq]
  exact List.rel_append h₁ h₂

/-- Code in front that addresses no global. -/
theorem behind (h₁ : r₁.Addresses globals []) (h₂ : r₂.Addresses globals texts) :
    (r₁.seq r₂).Addresses globals texts :=
  h₁.seq h₂

/-- Code behind that addresses no global. -/
theorem before (h₁ : r₁.Addresses globals texts) (h₂ : r₂.Addresses globals []) :
    (r₁.seq r₂).Addresses globals texts := by
  simpa using h₁.seq h₂

/-- One more instruction that addresses no global. -/
theorem silent (h : r.Addresses globals texts) (hi : i.globalPtr? = none) :
    (r.seq (.step i)).Addresses globals texts :=
  h.before (step hi)

theorem shortCircuit (start rest stop : Label) (a b dest : Operand)
    (h₁ : r₁.Addresses globals texts) (h₂ : r₂.Addresses globals more) :
    (Region.shortCircuit start rest stop r₁ a r₂ b dest).Addresses globals (texts ++ more) := by
  rw [Region.Addresses, picked_shortCircuit]
  exact List.rel_append h₁ h₂

theorem ifThen (a : Operand) (onTrue onFalse : Label) (h : r.Addresses globals texts) :
    (Region.ifThen a onTrue onFalse r).Addresses globals texts := by
  rwa [Region.Addresses, picked_ifThen]

theorem ifElse (a : Operand) (onTrue onFalse stop : Label) (h₁ : r₁.Addresses globals texts)
    (h₂ : r₂.Addresses globals more) :
    (Region.ifElse a onTrue onFalse stop r₁ r₂).Addresses globals (texts ++ more) := by
  rw [Region.Addresses, picked_ifElse]
  exact List.rel_append h₁ h₂

end Region.Addresses

section

variable {site : Site} {params : List (String × StorageType)} {own : List SymbolId}
  {ret : StorageType} {vars vars' : List SymbolId} {p p' : Point} {r : Region}

/-- No value is the address of a global itself. -/
theorem Lowers.not_isGlobal {task : Task} {ops : List Operand}
    (h : Lowers site params own vars task p ops r p') : ∀ a ∈ ops, a.isGlobal = false := by
  have hone : ∀ {a : Operand}, a.isGlobal = false → ∀ b ∈ [a], b.isGlobal = false := by
    rintro a ha b hb
    rwa [List.mem_singleton.1 hb]
  have hcast : ∀ {actual owner : SymbolId} {receiver a : Operand} {p p' : Point} {r : Region},
      Upcasts site actual owner receiver p a r p' → receiver.isGlobal = false →
        a.isGlobal = false := by
    rintro _ _ _ _ _ _ _ (_ | _) h
    · exact h
    · rfl
  induction h with
  | bool | int | string | argument | load | or | operator | stored | ownField | member =>
      exact hone rfl
  | assign | free | nil => nofun
  | call =>
      unfold Point.result
      split
      · nofun
      · exact hone rfl
  | basePointer _ _ _ ih => exact ih
  | basePlace _ _ _ ih => exact ih
  | self _ _ _ hupcasts => exact hone (hcast hupcasts rfl)
  | object _ _ _ _ hupcasts ih => exact hone (hcast hupcasts (ih _ (List.mem_singleton_self _)))
  | cons _ _ ih₁ ih₂ =>
      intro a ha
      rcases List.mem_cons.1 ha with rfl | ha
      · exact ih₁ _ (List.mem_singleton_self _)
      · exact ih₂ a ha

theorem Upcasts.addresses {globals : List (String × String)} {actual owner : SymbolId}
    {receiver a : Operand} (h : Upcasts site actual owner receiver p a r p') :
    r.Addresses globals [] := by
  cases h with
  | same => exact .empty
  | cast => exact .step rfl

theorem OperatorCode.globalPtr? {id : NodeId} {a b dest : Operand} {op : BinaryOp}
    {t : StorageType} {instruction : Operand → Instruction}
    (h : OperatorCode site id a b op t instruction) : (instruction dest).globalPtr? = none := by
  cases h <;> rfl

/-- **The code of an expression addresses its texts**, and no other global. -/
theorem Lowers.addresses {task : Task} {ops : List Operand}
    (h : Lowers site params own vars task p ops r p') :
    r.Addresses site.symbols.textGlobals task.codeTexts := by
  induction h with
  | bool | int | argument | stored | free | nil => exact .empty
  | ownField => exact .step rfl
  | @string id text symbol entry span p hsymbol hentry htext hvar =>
      subst htext
      refine .cons ⟨rfl, ⟨entry.globalName, ?_, ?_⟩, rfl⟩ .nil
      · exact List.mem_map_of_mem (SymbolTable.mem_literals.2 ⟨symbol, hentry⟩)
      · rw [Text.byteLength_toList]
  | load _ _ ih => exact ih.silent rfl
  | or _ _ _ _ ih₁ ih₂ => exact ih₁.shortCircuit _ _ _ _ _ _ ih₂
  | operator _ _ hcode ih₁ ih₂ => exact ih₁.seq (ih₂.silent hcode.globalPtr?)
  | assign _ _ _ ih₁ ih₂ => exact ih₁.seq (ih₂.silent rfl)
  | call hcall _ _ _ _ _ _ _ ih₁ ih₂ =>
      rw [Task.codeTexts, hcall.codeTexts_eq]
      exact ih₁.seq (ih₂.silent rfl)
  | member _ hbase _ _ ih =>
      have hglobal := hbase.not_isGlobal _ (List.mem_singleton_self _)
      exact ih.silent (by simp [Instruction.globalPtr?, hglobal])
  | basePointer _ _ _ ih => exact ih
  | basePlace _ _ _ ih => exact ih
  | self _ _ _ hcast => exact hcast.addresses
  | object _ _ _ _ hcast ih => exact ih.before hcast.addresses
  | cons _ _ ih₁ ih₂ => exact ih₁.seq ih₂

/-- **The code of statements addresses their texts**, and no other global. -/
theorem LowersStmt.addresses {task : StmtTask}
    (h : LowersStmt site params own ret vars task p r p' vars') :
    r.Addresses site.symbols.textGlobals task.codeTexts := by
  induction h with
  | nil => exact .empty
  | cons hfirst hgoesOn _ ih₁ ih₂ =>
      have hreturns := hfirst.returns_eq.trans hgoesOn
      rw [StmtTask.codeTexts, Stmt.codeTextsOfAll, hreturns]
      exact ih₁.seq ih₂
  | last _ hfirst hleaves ih =>
      have hreturns := hfirst.returns_eq.trans hleaves
      rw [StmtTask.codeTexts, Stmt.codeTextsOfAll, hreturns, if_pos rfl, List.append_nil]
      exact ih
  | block _ _ _ ih => exact ih
  | declare => exact .step rfl
  | declareWith _ _ _ _ _ _ hvalue =>
      exact .behind (.step rfl) (hvalue.addresses.silent rfl)
  | ifThen _ hcondition _ _ ih => exact hcondition.addresses.seq (ih.ifThen _ _ _)
  | ifElse _ hcondition _ _ _ ih₁ ih₂ =>
      exact hcondition.addresses.seq (ih₁.ifElse _ _ _ _ ih₂)
  | ret => exact .step rfl
  | retValue _ hvalue => exact hvalue.addresses.silent rfl
  | expr _ hvalue => exact hvalue.addresses

/-- Storage for arguments is filled without globals. -/
theorem BindsArguments.addresses {globals : List (String × String)} {arguments : List SymbolId}
    (h : BindsArguments site params vars arguments p r p' vars') : r.Addresses globals [] := by
  induction h with
  | nil => exact .empty
  | pointer _ _ ih => exact ih
  | value _ _ _ _ _ ih => exact .behind (.step rfl) (.behind (.step rfl) ih)

/-- **The code of a function addresses the texts of its body**, and no other global. -/
theorem LowersBody.addresses {arguments : List SymbolId} {block : Block}
    (h : LowersBody site params ret arguments (some block) r) :
    r.Addresses site.symbols.textGlobals (Stmt.codeTextsOfAll block.stmts) := by
  cases h with
  | leaves harguments hstmts => exact harguments.addresses.behind hstmts.addresses
  | goesOn harguments hstmts =>
      exact harguments.addresses.behind (hstmts.addresses.silent rfl)

end

/-! ## Units -/

/-- The globals for texts that a unit declares are those of the string literals. -/
theorem Generates.textGlobals {script : Script} {ctx : Context} {unit : CodeUnit}
    (h : Generates script ctx unit) :
    unit.filterMap Instruction.textGlobal? = ctx.symbols.textGlobals := by
  obtain ⟨parts, hparts, rfl⟩ := h
  have hrest : parts.rest.filterMap Instruction.textGlobal? = [] := by
    refine List.filterMap_eq_nil_iff.2 fun i hi => ?_
    obtain ⟨id, hcode | hcode | hcode | hcode⟩ := hparts.rest_cases hi
    · obtain ⟨_, _, _, _, rfl⟩ := hcode
      rfl
    · obtain ⟨_, _, _, _, _, _, rfl⟩ := hcode
      rfl
    · obtain ⟨_, _, _, _, rfl⟩ := hcode
      rfl
    · obtain ⟨_, _, _, _, _, rfl⟩ := hcode
      rfl
  rw [UnitParts.code_eq, List.filterMap_append, hrest, List.append_nil,
    Context.literalDeclarations, SymbolTable.filterMap_literalIds, List.filterMap_map,
    SymbolTable.textGlobals, ← List.filterMap_eq_map]
  rfl

/-- **String literals are hoisted.**

* The globals for texts that the unit of an accepted source declares are, in order, the texts of
  the source, each one once, and their names number them.
* The texts of the source are those of its functions, one function after the other, with the
  statements that control never gets to.
* The code of a function addresses, in order, the texts of its body as far as control gets to them:
  each by the first byte of the global that the unit declares with the text, which is an array of
  the bytes of the text and one more. -/
theorem compile_literals {source : String} {compiled : Compiled}
    (h : compile source = .ok compiled) :
    compiled.unit.filterMap Instruction.textGlobal? =
      ((sourceTexts source).eraseDups.mapIdx fun i text => (".str" ++ toString i, text)) ∧
    ∃ script, parse source = .ok script ∧
      (script.items.flatMap Item.functions).flatMap FunctionDecl.texts = sourceTexts source ∧
      ∀ decl ∈ script.items.flatMap Item.functions, ∀ block ∈ decl.body.block?,
        ∃ id entry signature names body,
          compiled.context.bindings.symbol? decl.id = some id ∧
          compiled.context.symbols.function? id = some entry ∧
          .function entry.linkName signature names body ∈ compiled.unit ∧
          List.Forall₂ (AddressesText (compiled.unit.filterMap Instruction.textGlobal?))
            (Stmt.codeTextsOfAll block.stmts) (body.filterMap Instruction.globalPtr?) := by
  obtain ⟨script, haccepted, hliterals⟩ := literals_of_compile h
  have hglobals := haccepted.generates.textGlobals
  have htexts := script.texts_functions.symm.trans (Script.texts_eq haccepted.parse_eq)
  refine ⟨?_, script, haccepted.parse_eq, htexts, fun decl hdecl block hblock => ?_⟩
  · rw [hglobals, SymbolTable.textGlobals, hliterals, SymbolTable.map_numbered]
    rfl
  · obtain ⟨id, entry, signature, region, hsymbol, hcode, hmem⟩ :=
      haccepted.generates.bodies hdecl block hblock
    refine ⟨id, entry, signature, _, _, hsymbol, hcode.function?, hmem, ?_⟩
    rw [hglobals]
    exact hcode.body.addresses

/-- Texts that occur more than once, in statements that control gets to and in one that it does
not get to. -/
def literalsSource : String :=
  "class A \x7b int8* f(bool b) \x7b if (b) return \"b\\n\"; else return g(\"é\", \"b\\n\"); " ++
    "g(\"c\", \"é\"); \x7d int8* g(int8* x, int8* y) \x7b return \"c\"; \x7d \x7d"

/-- What is found out about these texts by compiling them. -/
theorem literals_evaluated :
    ((sourceTexts literalsSource).eraseDups == ["b\n", "é", "c"] &&
      match parse literalsSource, compile literalsSource with
      | .ok script, .ok _ => (script.items.flatMap Item.functions).map (fun decl =>
          decl.body.block?.map fun block => Stmt.codeTextsOfAll block.stmts) ==
            [some ["b\n", "é", "b\n"], some ["c"]]
      | _, _ => false) = true := by
  decide +kernel

theorem compile_literals_shared : ∃ compiled name signature names body,
    compile literalsSource = .ok compiled ∧
    compiled.unit.filterMap Instruction.textGlobal? =
      [(".str0", "b\n"), (".str1", "é"), (".str2", "c")] ∧
    .function name signature names body ∈ compiled.unit ∧
    List.Forall₂ (AddressesText [(".str0", "b\n"), (".str1", "é"), (".str2", "c")])
      ["b\n", "é", "b\n"] (body.filterMap Instruction.globalPtr?) := by
  have h := literals_evaluated
  rw [Bool.and_eq_true] at h
  obtain ⟨htexts, h⟩ := h
  split at h
  · next script compiled hparse hcompile =>
      obtain ⟨hglobals, script', hparse', -, hcode⟩ := compile_literals hcompile
      cases hparse.symm.trans hparse'
      rw [beq_iff_eq.1 htexts] at hglobals
      obtain ⟨decl, rest, hfunctions, hfirst, -⟩ := List.map_eq_cons_iff.1 (beq_iff_eq.1 h)
      obtain ⟨block, hblock, hown⟩ := Option.map_eq_some_iff.1 hfirst
      obtain ⟨id, entry, signature, names, body, -, -, hmem, haddresses⟩ :=
        hcode decl (hfunctions ▸ List.mem_cons_self ..) block hblock
      rw [hglobals, hown] at haddresses
      exact ⟨compiled, _, signature, names, body, hcompile, hglobals, hmem, haddresses⟩
  · cases h

end ClassLang
