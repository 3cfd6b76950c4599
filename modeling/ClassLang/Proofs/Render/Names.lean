import ClassLang.Proofs.Lower.Closed
import ClassLang.Proofs.Resolve.Calls
import ClassLang.Render.C

/-!
# Names in C text

C text has parameters, values, functions and literals in one kind of identifier, and takes
parameters and functions as they are called in the source.  What it makes up starts with `stp_`
(`MadeUp`), which the source may use as well, so a parameter `stp_t0` is captured by the first
value of its function (`compile_not_namesApart`).  The only other names that are not checked
against parameters are those of functions of classes, which carry the name of the class.  Both
are all there is (`compile_capturesIn`): where a function outside classes is called by its name,
scoping has seen to it that no parameter has this name, and declarations of one name are rejected.
-/

namespace ClassLang

namespace C

/-! ## Names in a text -/

/-- The name that C has for an operand, unless it is that of a parameter. -/
def ownName? : Operand → Option String
  | .temp id _ => some (tempName id)
  | .global name _ => some (globalName name)
  | .const _ _ | .named _ _ | .label _ => none

/-- The array behind an address. -/
def slotName? : Instruction → Option String
  | .alloca dest _ _ => some ((Expr.ofOperand dest).text ++ "_slot")
  | _ => none

/-- The function that is called. -/
def callee? : Instruction → Option String
  | .call _ callee _ _ => some callee
  | _ => none

/-- The names in the text of an instruction, apart from those of parameters. -/
def instructionNames (i : Instruction) : List String :=
  (i.dest?.toList ++ i.operands).filterMap ownName? ++ ((slotName? i).toList ++ (callee? i).toList)

/-- The names in the text of a body, apart from those of parameters. -/
def bodyNames (body : List Instruction) : List String :=
  "stp_pred" :: "stp_block" :: body.flatMap instructionNames

/-- The globals and functions that an instruction declares in the text, with their names in C.  The
name of a class is written where it is used. -/
def spellings : Instruction → List (String × String)
  | .stringLiteral name _ => [(name, globalName name)]
  | .classRecord record => [(record.dispatch.instanceName, record.dispatch.instanceName)]
  | i => i.globalNames.map fun name => (name, name)

/-- No name means two things: neither a parameter and something else in a body, nor two
declarations of the unit. -/
structure NamesApart (unit : CodeUnit) : Prop where
  params : ∀ name signature names body, .function name signature names body ∈ unit →
    ∀ p ∈ names, p ∉ bodyNames body
  globals : ((unit.flatMap spellings).map Prod.snd).Nodup

/-- A name that the text makes up. -/
inductive MadeUp : String → Prop
  | pred : MadeUp "stp_pred"
  | block : MadeUp "stp_block"
  | value (id : Nat) : MadeUp (tempName id)
  | slot (id : Nat) : MadeUp (tempName id ++ "_slot")
  | literal (n : Nat) : MadeUp ("stp_str" ++ toString n)

/-- Where one name means two things after all. -/
structure CapturesIn (table : SymbolTable) (unit : CodeUnit) : Prop where
  /-- A parameter is called like something that is made up, or like a function of a class that is
  called. -/
  params : ∀ name signature names body, .function name signature names body ∈ unit →
    ∀ p ∈ names, p ∈ bodyNames body → MadeUp p ∨ p ∈ body.filterMap callee? ∧
      ∃ f entry, table.function? f = some entry ∧ entry.owner.isSome = true ∧ entry.linkName = p
  /-- No two declarations have the same name before it is written in C. -/
  declared : ((unit.flatMap spellings).map Prod.fst).Nodup
  /-- Afterwards, a declaration can only be called like a literal. -/
  globals : ∀ g ∈ unit.flatMap spellings, ∀ g' ∈ unit.flatMap spellings, g.2 = g'.2 → g = g' ∨
    ∃ n : Nat, g.2 = "stp_str" ++ toString n ∧
      (g.1 = ".str" ++ toString n ∧ g'.1 = g.2 ∨ g'.1 = ".str" ++ toString n ∧ g.1 = g.2)

/-! ## The names are those of the text -/

namespace Expr

mutual

/-- The names in an expression. -/
def names : Expr → List String
  | .int _ | .bool _ | .nothing => []
  | .name n | .global n => [n]
  | .deref e | .address e | .index e _ | .member e _ | .cast _ e => e.names
  | .binary _ left right => left.names ++ right.names
  | .select _ v otherwise => "stp_pred" :: (v.names ++ otherwise.names)
  | .call function args => function :: namesOfAll args

/-- The names in a list of expressions. -/
def namesOfAll : List Expr → List String
  | [] => []
  | e :: rest => e.names ++ namesOfAll rest

end

end Expr

/-- The names in a statement. -/
def Stmt.names : Stmt → List String
  | .mark _ => ["stp_pred", "stp_block"]
  | .slot _ _ _ dest => (dest.text ++ "_slot") :: dest.names
  | .define _ dest v | .assign dest v => dest.names ++ v.names
  | .goto _ | .ret none => []
  | .branch e _ _ | .expr e | .ret (some e) => e.names

/-- The name of an operand is its own, or the one of a parameter. -/
def IsNameOf (n : String) (a : Operand) : Prop :=
  ownName? a = some n ∨ ownName? a = none ∧ Expr.ofOperand a = .name n

/-- An operand is written by its own name, if it has one. -/
theorem Expr.names_ofOperand {a : Operand} {n : String} (h : n ∈ (Expr.ofOperand a).names) :
    IsNameOf n a := by
  unfold Expr.ofOperand at h
  split at h <;> simp_all [Expr.names, IsNameOf, ownName?, Expr.ofOperand]

/-- A path into a record uses the names of what it starts from. -/
theorem Expr.names_path (e : Expr) (ty : Option StorageType) (indices : List Nat) :
    (Expr.path e ty indices).names = e.names := by
  fun_induction Expr.path e ty indices <;> simp_all [Expr.names]

/-- A merge uses the name of the block before and those of its operands. -/
theorem Expr.names_merge {incoming : List (Operand × Label)} {n : String}
    (h : n ∈ (Expr.merge incoming).names) :
    n = "stp_pred" ∨ ∃ a ∈ incoming.map Prod.fst, IsNameOf n a := by
  fun_induction Expr.merge incoming with
  | case1 => cases h
  | case2 v label => exact .inr ⟨v, List.mem_cons_self .., Expr.names_ofOperand h⟩
  | case3 v label rest hrest ih =>
      rcases List.mem_cons.1 h with rfl | h
      · exact .inl rfl
      · rcases List.mem_append.1 h with h | h
        · exact .inr ⟨v, List.mem_cons_self .., Expr.names_ofOperand h⟩
        · rcases ih h with hpred | ⟨a, ha, hname⟩
          · exact .inl hpred
          · exact .inr ⟨a, List.mem_cons_of_mem _ ha, hname⟩

/-- The operands of a list are written by their own names. -/
theorem Expr.names_ofOperands {args : List Operand} {n : String}
    (h : n ∈ Expr.namesOfAll (args.map .ofOperand)) : ∃ a ∈ args, IsNameOf n a := by
  induction args with
  | nil => cases h
  | cons a rest ih =>
      rcases List.mem_append.1 h with h | h
      · exact ⟨a, List.mem_cons_self .., Expr.names_ofOperand h⟩
      · obtain ⟨b, hb, hname⟩ := ih h
        exact ⟨b, List.mem_cons_of_mem _ hb, hname⟩

/-- What a name in the text of an instruction is there for. -/
inductive NamedIn (i : Instruction) (n : String) : Prop
  | mark (h : n ∈ ["stp_pred", "stp_block"])
  | slot (h : slotName? i = some n)
  | callee (h : callee? i = some n)
  | dest (a : Operand) (ha : i.dest? = some a) (h : IsNameOf n a)
  | operand (a : Operand) (ha : a ∈ i.operands) (h : IsNameOf n a)

/-- An assignment names what it defines and what its value reads. -/
theorem namedIn_define {i : Instruction} {dest : Operand} {v : Expr} {n : String}
    (hdest : i.dest? = some dest) (hn : n ∈ (define dest v).names)
    (hvalue : n ∈ v.names → NamedIn i n) : NamedIn i n := by
  rcases List.mem_append.1 hn with hn | hn
  · exact .dest dest hdest (Expr.names_ofOperand hn)
  · exact hvalue hn

/-- A call names its function and its arguments. -/
theorem namedIn_call {dest : Option Operand} {callee : String} {signature : Signature}
    {args : List Operand} {n : String} (hn : n ∈ (Expr.call callee (args.map .ofOperand)).names) :
    NamedIn (.call dest callee signature args) n := by
  rcases List.mem_cons.1 hn with rfl | hn
  · exact .callee rfl
  · obtain ⟨a, ha, hname⟩ := Expr.names_ofOperands hn
    exact .operand a (List.mem_append_left _ ha) hname

attribute [local simp] Instruction.operands_eq in
/-- Every name in the text of an instruction is there for one of these reasons. -/
theorem namedIn_of_stmt? {i : Instruction} {s : Stmt} (h : stmt? i = some s) {n : String}
    (hn : n ∈ s.names) : NamedIn i n := by
  have hread : ∀ a ∈ i.operands, n ∈ (Expr.ofOperand a).names → NamedIn i n :=
    fun a ha hn => .operand a ha (Expr.names_ofOperand hn)
  cases i with
  | label l =>
      cases h
      exact .mark hn
  | alloca dest ty count =>
      cases h
      rcases List.mem_cons.1 hn with rfl | hn
      · exact .slot rfl
      · exact .dest dest rfl (Expr.names_ofOperand hn)
  | load dest address | cast dest address =>
      cases h
      exact namedIn_define rfl hn (hread address (by simp))
  | store v address =>
      cases h
      rcases List.mem_append.1 hn with hn | hn
      · exact hread address (by simp) hn
      · exact hread v (by simp) hn
  | elementPtr dest base indices =>
      cases h
      refine namedIn_define rfl hn ?_
      rw [Expr.names, Expr.names_path]
      exact hread base (by simp)
  | arith op dest left right | compare op dest left right =>
      cases h
      refine namedIn_define rfl hn fun hn => ?_
      rcases List.mem_append.1 hn with hn | hn
      · exact hread left (by simp) hn
      · exact hread right (by simp) hn
  | branch condition onTrue onFalse =>
      cases h
      exact hread condition (by simp) hn
  | phi dest incoming =>
      cases h
      refine namedIn_define rfl hn fun hn => ?_
      rcases Expr.names_merge hn with rfl | ⟨a, ha, hname⟩
      · exact .mark (List.mem_cons_self ..)
      · exact .operand a (List.mem_append_right _ ha) hname
  | call dest callee signature args =>
      cases dest with
      | none =>
          cases h
          exact namedIn_call hn
      | some dest =>
          cases h
          exact namedIn_define rfl hn namedIn_call
  | ret v =>
      cases h
      cases v with
      | none => cases hn
      | some v => exact hread v (by simp) hn
  | jump l =>
      cases h
      cases hn
  | stringLiteral | structRecord | classRecord | externalFunction | function => cases h

/-- **The text of a body has no other names** than its own and those of parameters. -/
theorem names_of_stmt? {i : Instruction} {s : Stmt} (h : stmt? i = some s) {n : String}
    (hn : n ∈ s.names) : n ∈ ["stp_pred", "stp_block"] ∨ n ∈ instructionNames i ∨
      ∃ a ∈ i.dest?.toList ++ i.operands, ownName? a = none ∧ Expr.ofOperand a = .name n := by
  have hoperand : ∀ a ∈ i.dest?.toList ++ i.operands, IsNameOf n a → n ∈ instructionNames i ∨
      ∃ a ∈ i.dest?.toList ++ i.operands, ownName? a = none ∧ Expr.ofOperand a = .name n := by
    rintro a ha (hown | hparam)
    · exact .inl (List.mem_append_left _ (List.mem_filterMap.2 ⟨a, ha, hown⟩))
    · exact .inr ⟨a, ha, hparam⟩
  cases namedIn_of_stmt? h hn with
  | mark hmark => exact .inl hmark
  | slot hslot => exact .inr (.inl (by simp [instructionNames, hslot]))
  | callee hcallee => exact .inr (.inl (by simp [instructionNames, hcallee]))
  | dest a ha hname => exact .inr (hoperand a (by simp [ha]) hname)
  | operand a ha hname => exact .inr (hoperand a (List.mem_append_right _ ha) hname)

/-! ## Made-up names -/

/-- A number is written without dots. -/
theorem ne_dot_of_mem_toString {n : Nat} {c : Char} (h : c ∈ (toString n).toList) : c ≠ '.' := by
  have hdigits : c ∈ Nat.toDigits 10 n := by simpa using h
  have hdigit := Nat.isDigit_of_mem_toDigits (b := 10) (by decide) (by decide) hdigits
  rintro rfl
  cases hdigit

/-- The `n`-th literal is renamed with the prefix of made-up names. -/
theorem globalName_literal (n : Nat) :
    globalName (".str" ++ toString n) = "stp_str" ++ toString n := by
  have hplain : ∀ c ∈ (toString n).toList, (if c = '.' then '_' else c) = c :=
    fun c hc => if_neg (ne_dot_of_mem_toString hc)
  unfold globalName
  rw [String.toList_append]
  change "stp_" ++ String.ofList (List.map _ ("str".toList ++ (toString n).toList)) = _
  rw [List.map_append, List.map_congr_left hplain, List.map_id', String.ofList_append,
    String.ofList_toList, ← String.append_assoc]
  rfl

/-- An operand has a made-up name, if it is no parameter. -/
def IsMadeUp (a : Operand) : Prop := ∀ n ∈ ownName? a, MadeUp n

/-- A function is called by this name; where it belongs to no class, there is a call of it without
a receiver. -/
def CalledIn (ctx : Context) (visits : List Visit) (name : String) : Prop :=
  ∃ f entry, ctx.symbols.function? f = some entry ∧ entry.linkName = name ∧
    (entry.owner = none → ∃ node callee args span,
      .expr (.call node callee args span) ∈ visits ∧ ctx.bindings.symbol? node = some f)

/-- The names in an instruction are made up, except for that of the function that it calls. -/
structure Spells (ctx : Context) (visits : List Visit) (i : Instruction) : Prop where
  dest : ∀ a ∈ i.dest?, IsMadeUp a
  operands : ∀ a ∈ i.operands, IsMadeUp a
  slot : ∀ n ∈ slotName? i, MadeUp n
  callee : ∀ n ∈ callee? i, CalledIn ctx visits n

/-- A name that an instruction spells is made up, or belongs to a function that is
called. -/
theorem Spells.madeUp {ctx : Context} {visits : List Visit} {i : Instruction}
    (h : Spells ctx visits i) {n : String} (hn : n ∈ instructionNames i) :
    MadeUp n ∨ callee? i = some n ∧ CalledIn ctx visits n := by
  rcases List.mem_append.1 hn with hn | hn
  · obtain ⟨a, ha, hname⟩ := List.mem_filterMap.1 hn
    rcases List.mem_append.1 ha with ha | ha
    · exact .inl (h.dest a (Option.mem_toList.1 ha) n hname)
    · exact .inl (h.operands a ha n hname)
  · rcases List.mem_append.1 hn with hn | hn
    · exact .inl (h.slot n (Option.mem_toList.1 hn))
    · have hcallee := Option.mem_toList.1 hn
      exact .inr ⟨hcallee, h.callee n hcallee⟩

/-- A temporary has a made-up name. -/
theorem isMadeUp_temp (id : Nat) (t : StorageType) : IsMadeUp (.temp id t) := by
  rintro n ⟨⟩
  exact .value id

/-- A fresh temporary has a made-up name. -/
theorem isMadeUp_fresh (p : Point) (t : StorageType) : IsMadeUp (p.fresh t) := isMadeUp_temp _ t

/-- An operand that has its name from the program makes up none. -/
theorem isMadeUp_named (name : String) (t : StorageType) : IsMadeUp (.named name t) := nofun

/-- A constant makes up no name. -/
theorem isMadeUp_const (n : Int) (t : StorageType) : IsMadeUp (.const n t) := nofun

/-- A literal is written by a made-up name. -/
theorem isMadeUp_literal (entry : LiteralEntry) (t : StorageType) :
    IsMadeUp (.global entry.globalName t) := by
  rintro n ⟨⟩
  exact globalName_literal entry.index ▸ .literal _

section

variable {ctx : Context} {visits : List Visit} {i : Instruction}

attribute [local simp] Instruction.dest? Instruction.operands_eq

/-- An instruction that calls nothing and creates no storage. -/
theorem Spells.of_operands (hdest : ∀ a ∈ i.dest?, IsMadeUp a)
    (hoperands : ∀ a ∈ i.operands, IsMadeUp a) (hslot : slotName? i = none)
    (hcallee : callee? i = none) : Spells ctx visits i :=
  ⟨hdest, hoperands, by simp [hslot], by simp [hcallee]⟩

/-- A label spells no name of the program. -/
theorem spells_label (l : Label) : Spells ctx visits (.label l) :=
  .of_operands nofun nofun rfl rfl

/-- A jump spells no name of the program. -/
theorem spells_jump (l : Label) : Spells ctx visits (.jump l) :=
  .of_operands nofun nofun rfl rfl

/-- A branch spells the name of its condition only. -/
theorem spells_branch {a : Operand} (onTrue onFalse : Label) (ha : IsMadeUp a) :
    Spells ctx visits (.branch a onTrue onFalse) :=
  .of_operands nofun (by simpa) rfl rfl

/-- A store spells its value and its address only. -/
theorem spells_store {a address : Operand} (ha : IsMadeUp a) (haddress : IsMadeUp address) :
    Spells ctx visits (.store a address) :=
  .of_operands nofun (by simpa using ⟨ha, haddress⟩) rfl rfl

/-- A return spells its value only. -/
theorem spells_ret {value : Option Operand} (h : ∀ a ∈ value, IsMadeUp a) :
    Spells ctx visits (.ret value) :=
  .of_operands nofun (by simpa) rfl rfl

/-- An allocation spells the fresh temporary only. -/
theorem spells_allocation (p : Point) (t : StorageType) : Spells ctx visits (p.allocation t) where
  dest := by simpa [Point.allocation] using isMadeUp_fresh p _
  operands := nofun
  slot := by
    rintro n ⟨⟩
    exact .slot _
  callee := nofun

/-- A pointer to an element spells the fresh temporary and its base only. -/
theorem spells_elementPtr (p : Point) {t : StorageType} {base : Operand} (indices : List Nat)
    (hbase : IsMadeUp base) : Spells ctx visits (.elementPtr (p.fresh t) base indices) :=
  .of_operands (by simpa using isMadeUp_fresh p t) (by simpa) rfl rfl

/-- A load spells the fresh temporary and its address only. -/
theorem spells_load (p : Point) {t : StorageType} {address : Operand} (h : IsMadeUp address) :
    Spells ctx visits (.load (p.fresh t) address) :=
  .of_operands (by simpa using isMadeUp_fresh p t) (by simpa) rfl rfl

/-- A cast spells the fresh temporary and its operand only. -/
theorem spells_cast (p : Point) {t : StorageType} {a : Operand} (h : IsMadeUp a) :
    Spells ctx visits (.cast (p.fresh t) a) :=
  .of_operands (by simpa using isMadeUp_fresh p t) (by simpa) rfl rfl

/-- A merge of two values spells the fresh temporary and both values. -/
theorem spells_phi (p : Point) {t : StorageType} {a b : Operand} (l l' : Label) (ha : IsMadeUp a)
    (hb : IsMadeUp b) : Spells ctx visits (.phi (p.fresh t) [(a, l), (b, l')]) :=
  .of_operands (by simpa using isMadeUp_fresh p t) (by simpa using ⟨ha, hb⟩) rfl rfl

/-- A call spells its result, its arguments and a function that the program calls there.
-/
theorem spells_call {dest : Option Operand} {callee : String} {signature : Signature}
    {args : List Operand} (hdest : ∀ a ∈ dest, IsMadeUp a) (hargs : ∀ a ∈ args, IsMadeUp a)
    (hcalled : CalledIn ctx visits callee) :
    Spells ctx visits (.call dest callee signature args) where
  dest := hdest
  operands := by simpa
  slot := nofun
  callee := by
    rintro n ⟨⟩
    exact hcalled

end

end C

section

open C (Spells IsMadeUp)

variable {site : Site} {params : List (String × StorageType)} {own vars vars' : List SymbolId}
  {ret : StorageType} {p p' : Point} {r : Region} {visits : List Visit}

/-- The instruction of an operator spells its result and both operands only. -/
theorem OperatorCode.spells {id : NodeId} {op : BinaryOp} {a b : Operand} {t : StorageType}
    {instruction : Operand → Instruction} (h : OperatorCode site id a b op t instruction)
    (ha : IsMadeUp a) (hb : IsMadeUp b) : Spells site.ctx visits (instruction (p.fresh t)) := by
  have hoperands : ∀ c ∈ [a, b], IsMadeUp c := by simpa using ⟨ha, hb⟩
  cases h <;> exact .of_operands (by simpa [Instruction.dest?] using C.isMadeUp_fresh p _)
    (by simpa [Instruction.operands_eq] using hoperands)
    rfl rfl

/-- A cast to an ancestor makes up its own names, and its result is one. -/
theorem Upcasts.spells {actual owner : SymbolId} {receiver a : Operand}
    (h : Upcasts site actual owner receiver p a r p') (hreceiver : IsMadeUp receiver) :
    r.All (Spells site.ctx visits) ∧ IsMadeUp a := by
  cases h with
  | same => exact ⟨Region.all_empty, hreceiver⟩
  | cast => exact ⟨Region.all_step.2 (C.spells_cast p hreceiver), C.isMadeUp_fresh p _⟩

/-- A function outside classes is only called without a receiver. -/
theorem Lowers.calledIn {e : Expr} {id : NodeId} {callee : Ident} {object : Option Expr}
    {args : List Expr} {f : SymbolId} {entry : FunctionEntry} {self : List Operand}
    (hself : Lowers site params own vars (.receiver object entry.owner) p self r p')
    (hcall : e.IsCall id callee object args) (he : .expr e ∈ visits)
    (hsymbol : site.ctx.bindings.symbol? id = some f)
    (hentry : site.symbols.function? f = some entry) :
    C.CalledIn site.ctx visits entry.linkName := by
  refine ⟨f, entry, hentry, rfl, fun hfree => ?_⟩
  rw [hfree] at hself
  cases hself
  cases hcall
  exact ⟨id, callee, args, _, he, hsymbol⟩

/-- The code of a call calls its function, with operands that are made up. -/
theorem Lowers.spells_call {e : Expr} {id : NodeId} {callee : Ident} {object : Option Expr}
    {args : List Expr} {f : SymbolId} {entry : FunctionEntry} {signature : Signature}
    {self values : List Operand} {r₁ r₂ : Region} {p₁ p₂ : Point}
    (hself : Lowers site params own vars (.receiver object entry.owner) p self r₁ p₁)
    (hcall : e.IsCall id callee object args) (he : .expr e ∈ visits)
    (hsymbol : site.ctx.bindings.symbol? id = some f)
    (hentry : site.symbols.function? f = some entry)
    (h₁ : r₁.All (Spells site.ctx visits) ∧ ∀ a ∈ self, IsMadeUp a)
    (h₂ : r₂.All (Spells site.ctx visits) ∧ ∀ a ∈ values, IsMadeUp a) :
    (r₁.seq (r₂.seq (.step (.call (p₂.result signature.returnType) entry.linkName signature
      (self ++ values))))).All (Spells site.ctx visits) ∧
      ∀ a ∈ (p₂.result signature.returnType).toList, IsMadeUp a := by
  have hresult : ∀ a ∈ p₂.result signature.returnType, IsMadeUp a := by
    intro a ha
    unfold Point.result at ha
    split at ha
    · cases ha
    · cases ha
      exact C.isMadeUp_fresh p₂ _
  have hargs : ∀ a ∈ self ++ values, IsMadeUp a := List.forall_mem_append.2 ⟨h₁.2, h₂.2⟩
  have hcalled := hself.calledIn hcall he hsymbol hentry
  exact ⟨Region.all_seq.2 ⟨h₁.1, Region.all_seq.2 ⟨h₂.1, Region.all_step.2
    (C.spells_call hresult hargs hcalled)⟩⟩, fun a ha => hresult a (Option.mem_toList.1 ha)⟩

/-- **The names in the code of expressions are made up**, up to functions that are called. -/
theorem Lowers.spells {task : Task} {ops : List Operand}
    (h : Lowers site params own vars task p ops r p')
    (hvisits : ∀ e ∈ task.subexprs, .expr e ∈ visits) :
    r.All (Spells site.ctx visits) ∧ ∀ a ∈ ops, IsMadeUp a := by
  induction h with
  | bool => exact ⟨Region.all_empty, by simp [Operand.ofBool, C.isMadeUp_const]⟩
  | int => exact ⟨Region.all_empty, by simp [C.isMadeUp_const]⟩
  | @string id text symbol entry span p =>
      exact ⟨Region.all_step.2 (C.spells_elementPtr p _ (C.isMadeUp_literal entry _)),
        by simp [C.isMadeUp_fresh]⟩
  | argument => exact ⟨Region.all_empty, by simp [C.isMadeUp_named]⟩
  | @load e p p₁ address r t haddress hty ih =>
      obtain ⟨hcode, hops⟩ := ih hvisits
      exact ⟨Region.all_seq.2 ⟨hcode, Region.all_step.2
        (C.spells_load p₁ (hops address (List.mem_singleton_self _)))⟩, by simp [C.isMadeUp_fresh]⟩
  | @or id left right span p p₁ p₂ a b r₁ r₂ hleft hright ha hb ih₁ ih₂ =>
      obtain ⟨hvisits₁, hvisits₂⟩ := Expr.forall_binary hvisits
      obtain ⟨hcode₁, hops₁⟩ := ih₁ hvisits₁
      obtain ⟨hcode₂, hops₂⟩ := ih₂ hvisits₂
      have hleft' := hops₁ a (List.mem_singleton_self _)
      exact ⟨Region.all_shortCircuit C.spells_label C.spells_jump hcode₁ hcode₂
        (C.spells_branch _ _ hleft')
        (C.spells_phi p₂ _ _ hleft' (hops₂ b (List.mem_singleton_self _))),
        by simp [C.isMadeUp_fresh]⟩
  | operator hleft hright hcode ih₁ ih₂ =>
      obtain ⟨hvisits₁, hvisits₂⟩ := Expr.forall_binary hvisits
      obtain ⟨hcode₁, hops₁⟩ := ih₁ hvisits₁
      obtain ⟨hcode₂, hops₂⟩ := ih₂ hvisits₂
      exact ⟨Region.all_seq.2 ⟨hcode₁, Region.all_seq.2 ⟨hcode₂, Region.all_step.2 (hcode.spells
        (hops₁ _ (List.mem_singleton_self _)) (hops₂ _ (List.mem_singleton_self _)))⟩⟩,
        by simp [C.isMadeUp_fresh]⟩
  | assign hvalue haddress hty ih₁ ih₂ =>
      obtain ⟨hvisits₁, hvisits₂⟩ := Expr.forall_assign hvisits
      obtain ⟨hcode₁, hops₁⟩ := ih₁ hvisits₂
      obtain ⟨hcode₂, hops₂⟩ := ih₂ hvisits₁
      exact ⟨Region.all_seq.2 ⟨hcode₁, Region.all_seq.2 ⟨hcode₂, Region.all_step.2 (C.spells_store
        (hops₁ _ (List.mem_singleton_self _)) (hops₂ _ (List.mem_singleton_self _)))⟩⟩, by simp⟩
  | @call e id callee object args function entry signature names p p₁ p₂ self values r₁ r₂ hcall
      hsymbol hentry hsignature hself hvalues htakes hcallable ih₁ ih₂ =>
      obtain ⟨hvisits₁, hvisits₂⟩ := hcall.forall_parts hvisits entry.owner
      exact hself.spells_call hcall (hvisits e (Expr.mem_subexprs e)) hsymbol hentry
        (ih₁ hvisits₁) (ih₂ hvisits₂)
  | stored => exact ⟨Region.all_empty, by simp [C.isMadeUp_temp]⟩
  | ownField ident p =>
      exact ⟨Region.all_step.2 (C.spells_elementPtr p _ (C.isMadeUp_named _ _)),
        by simp [C.isMadeUp_fresh]⟩
  | @member id object ident span record field index t p p₁ base r hsymbol hbase hty hfield ih =>
      obtain ⟨hcode, hops⟩ := ih (Expr.forall_member hvisits)
      exact ⟨Region.all_seq.2 ⟨hcode, Region.all_step.2
        (C.spells_elementPtr p₁ _ (hops base (List.mem_singleton_self _)))⟩,
        by simp [C.isMadeUp_fresh]⟩
  | basePointer _ _ _ ih => exact ih hvisits
  | basePlace _ _ _ ih => exact ih hvisits
  | free => exact ⟨Region.all_empty, by simp⟩
  | self _ _ _ hcast =>
      obtain ⟨hcode, hop⟩ := hcast.spells (C.isMadeUp_named _ _)
      exact ⟨hcode, by simpa using hop⟩
  | object _ _ _ _ hcast ih =>
      obtain ⟨hcode₁, hops₁⟩ := ih (Task.forall_object hvisits)
      obtain ⟨hcode₂, hop⟩ := hcast.spells (hops₁ _ (List.mem_singleton_self _))
      exact ⟨Region.all_seq.2 ⟨hcode₁, hcode₂⟩, by simpa using hop⟩
  | nil => exact ⟨Region.all_empty, by simp⟩
  | cons hvalue hvalues ih₁ ih₂ =>
      obtain ⟨hvisits₁, hvisits₂⟩ := Expr.forall_all hvisits
      obtain ⟨hcode₁, hops₁⟩ := ih₁ hvisits₁
      obtain ⟨hcode₂, hops₂⟩ := ih₂ hvisits₂
      exact ⟨Region.all_seq.2 ⟨hcode₁, hcode₂⟩,
        List.forall_mem_cons.2 ⟨hops₁ _ (List.mem_singleton_self _), hops₂⟩⟩

/-- **The names in the code of statements are made up**, up to functions that are called. -/
theorem LowersStmt.spells {task : StmtTask}
    (h : LowersStmt site params own ret vars task p r p' vars') (hvisits : task.visits ⊆ visits) :
    r.All (Spells site.ctx visits) := by
  induction h with
  | nil => exact Region.all_empty
  | cons _ _ _ ih₁ ih₂ =>
      exact Region.all_seq.2 ⟨ih₁ fun v hv => hvisits (List.mem_append_left _ hv),
        ih₂ fun v hv => hvisits (List.mem_append_right _ hv)⟩
  | last _ _ _ ih => exact ih fun v hv => hvisits (List.mem_append_left _ hv)
  | block _ _ _ ih =>
      exact ih fun v hv => hvisits (List.mem_cons_of_mem _ (List.mem_cons_of_mem _ hv))
  | declare => exact Region.all_step.2 (C.spells_allocation _ _)
  | declareWith _ _ _ _ _ _ hvalue _ =>
      obtain ⟨hcode, hops⟩ := hvalue.spells fun e he =>
        hvisits (List.mem_cons_of_mem _ (List.mem_map_of_mem he))
      exact Region.all_seq.2 ⟨Region.all_step.2 (C.spells_allocation _ _), Region.all_seq.2 ⟨hcode,
        Region.all_step.2 (C.spells_store (hops _ (List.mem_singleton_self _))
          (C.isMadeUp_fresh _ _))⟩⟩
  | ifThen _ hcondition _ _ ih =>
      obtain ⟨hcode, hops⟩ := hcondition.spells fun e he =>
        hvisits (List.mem_cons_of_mem _ (List.mem_append_left _ (List.mem_map_of_mem he)))
      have hside := ih fun v hv => hvisits (List.mem_cons_of_mem _ (List.mem_append_right _ hv))
      exact Region.all_seq.2 ⟨hcode, Region.all_ifThen C.spells_label C.spells_jump hside
        (C.spells_branch _ _ (hops _ (List.mem_singleton_self _)))⟩
  | ifElse _ hcondition _ _ _ ih₁ ih₂ =>
      obtain ⟨hcode, hops⟩ := hcondition.spells fun e he => hvisits (List.mem_cons_of_mem _
        (List.mem_append_left _ (List.mem_append_left _ (List.mem_map_of_mem he))))
      have hside₁ := ih₁ fun v hv => hvisits (List.mem_cons_of_mem _
        (List.mem_append_left _ (List.mem_append_right _ hv)))
      have hside₂ := ih₂ fun v hv => hvisits (List.mem_cons_of_mem _ (List.mem_append_right _ hv))
      exact Region.all_seq.2 ⟨hcode, Region.all_ifElse C.spells_label C.spells_jump hside₁ hside₂
        (C.spells_branch _ _ (hops _ (List.mem_singleton_self _)))⟩
  | ret => exact Region.all_step.2 (C.spells_ret nofun)
  | retValue _ hvalue _ _ =>
      obtain ⟨hcode, hops⟩ := hvalue.spells fun e he =>
        hvisits (List.mem_cons_of_mem _ (List.mem_map_of_mem he))
      exact Region.all_seq.2 ⟨hcode, Region.all_step.2 (C.spells_ret (by simpa using hops))⟩
  | expr _ hvalue =>
      exact (hvalue.spells fun e he =>
        hvisits (List.mem_cons_of_mem _ (List.mem_map_of_mem he))).1

/-- Storing arguments makes up its own names. -/
theorem BindsArguments.spells {arguments : List SymbolId}
    (h : BindsArguments site params vars arguments p r p' vars') :
    r.All (Spells site.ctx visits) := by
  induction h with
  | nil => exact Region.all_empty
  | pointer _ _ ih => exact ih
  | @value _ _ _ _ p _ _ _ _ _ _ _ _ ih =>
      exact Region.all_seq.2 ⟨Region.all_step.2 (C.spells_allocation _ _), Region.all_seq.2
        ⟨Region.all_step.2 (C.spells_store (C.isMadeUp_named _ _) (C.isMadeUp_fresh p _)), ih⟩⟩

/-- A body spells made-up names and the functions it calls. -/
theorem LowersBody.spells {arguments : List SymbolId} {block : Block}
    (h : LowersBody site params ret arguments (some block) r)
    (hvisits : Stmt.visitsOfAll block.stmts ⊆ visits) : r.All (Spells site.ctx visits) := by
  cases h with
  | leaves harguments hstmts _ =>
      exact Region.all_seq.2 ⟨harguments.spells, hstmts.spells hvisits⟩
  | goesOn harguments hstmts _ _ =>
      exact Region.all_seq.2 ⟨harguments.spells, Region.all_seq.2
        ⟨hstmts.spells hvisits, Region.all_step.2 (C.spells_ret nofun)⟩⟩

end

/-! ## Units -/

namespace C

section

variable {script : Script} {ctx : Context} {unit : CodeUnit}

/-- **What captures a parameter** is made up, or is a function of a class. -/
theorem captures_params (hgenerates : Generates script ctx unit) (hcalls : CallsFree script ctx)
    {name : String} {signature : Signature} {names : List String} {body : List Instruction}
    (hmem : .function name signature names body ∈ unit) {p : String} (hp : p ∈ names)
    (hbody : p ∈ bodyNames body) : MadeUp p ∨ p ∈ body.filterMap callee? ∧
      ∃ f entry, ctx.symbols.function? f = some entry ∧ entry.owner.isSome = true ∧
        entry.linkName = p := by
  have hmarks : p ∈ ["stp_pred", "stp_block"] ∨ p ∈ body.flatMap instructionNames := by
    simpa [bodyNames, or_assoc] using hbody
  rcases hmarks with hmark | hown
  · left
    rcases List.mem_cons.1 hmark with rfl | hmark
    · exact .pred
    · exact List.mem_singleton.1 hmark ▸ .block
  obtain ⟨i, hi, hname⟩ := List.mem_flatMap.1 hown
  rcases hgenerates.written hmem with rfl | ⟨decl, hdecl, block, hblock, g, own, _, region, hg,
    hcode, heq⟩
  · rw [List.mem_singleton.1 hi] at hname
    cases hname
  cases heq
  have hspells := hcode.body.spells (FunctionDecl.visits_body hblock) i hi
  rcases hspells.madeUp hname with hmadeUp | ⟨hcallee, f, entry, hf, rfl, hcall⟩
  · exact .inl hmadeUp
  refine .inr ⟨List.mem_filterMap.2 ⟨i, hi, hcallee⟩, f, entry, hf, ?_, rfl⟩
  cases howner : entry.owner with
  | some c => rfl
  | none =>
      obtain ⟨node, callee, args, span, hvisit, hsymbol⟩ := hcall howner
      exact absurd hp (hcalls decl hdecl g own hg
        hcode.function? node callee args span hvisit f entry
        hsymbol hf howner)

/-- What is declared in the text is declared in the unit. -/
theorem spellings_sublist (unit : CodeUnit) :
    ((unit.flatMap spellings).map Prod.fst).Sublist (unit.flatMap Instruction.globalNames) := by
  induction unit with
  | nil => exact .slnil
  | cons i rest ih =>
      rw [List.flatMap_cons, List.map_append, List.flatMap_cons]
      apply List.Sublist.append _ ih
      cases i <;> simp [spellings, Instruction.globalNames]

/-- A global has its own name in C, except for the literals. -/
theorem spelled (hgenerates : Generates script ctx unit) {g : String × String}
    (hg : g ∈ unit.flatMap spellings) :
    g.2 = g.1 ∨ ∃ n : Nat, g.1 = ".str" ++ toString n ∧ g.2 = "stp_str" ++ toString n := by
  obtain ⟨i, hi, hspelled⟩ := List.mem_flatMap.1 hg
  obtain ⟨parts, hparts, rfl⟩ := hgenerates
  rcases hparts.cases hi with ⟨entry, rfl⟩ | ⟨id, ⟨_, _, _, _, rfl⟩ | ⟨_, _, _, _, _, _, rfl⟩ |
    ⟨_, _, _, _, rfl⟩ | ⟨_, _, _, _, _, rfl⟩⟩
  · rw [List.mem_singleton.1 hspelled]
    exact .inr ⟨entry.index, rfl, globalName_literal entry.index⟩
  · cases hspelled
  all_goals
    rw [List.mem_singleton.1 hspelled]
    exact .inl rfl

end

/-- **Names of an accepted source capture each other only where the source uses a made-up name**, or
has a parameter with the name of a function of a class. -/
theorem compile_capturesIn {source : String} {compiled : Compiled}
    (h : compile source = .ok compiled) : CapturesIn compiled.context.symbols compiled.unit := by
  obtain ⟨script, haccepted, hcalls⟩ := compile_callsFree h
  constructor
  · intro name signature names body hmem p hp hbody
    exact captures_params haccepted.generates hcalls hmem hp hbody
  · exact (haccepted.generates.globals_nodup haccepted.complete haccepted.proper).sublist
      (spellings_sublist compiled.unit)
  · intro g hg g' hg' heq
    rcases spelled haccepted.generates hg with hplain | ⟨n, hname, hspelled⟩
    · rcases spelled haccepted.generates hg' with hplain' | ⟨n, hname', hspelled'⟩
      · exact .inl (Prod.ext (hplain.symm.trans (heq.trans hplain')) heq)
      · exact .inr ⟨n, heq.trans hspelled', .inr ⟨hname', hplain.symm⟩⟩
    · rcases spelled haccepted.generates hg' with hplain' | ⟨n', hname', hspelled'⟩
      · exact .inr ⟨n, hspelled, .inl ⟨hname, hplain'.symm.trans heq.symm⟩⟩
      · -- two literals have different numbers
        have hnumber : toString n = toString n' :=
          (String.append_right_inj _).1 (hspelled.symm.trans (heq.trans hspelled'))
        exact .inl (Prod.ext (by rw [hname, hname', hnumber]) heq)

/-- **Names are apart** where nothing in the source has a name that the text makes up, and no
parameter has the name of a function of a class. -/
theorem CapturesIn.namesApart {table : SymbolTable} {unit : CodeUnit} (h : CapturesIn table unit)
    (hparams : ∀ name signature names body, .function name signature names body ∈ unit →
      ∀ p ∈ names, ¬ MadeUp p ∧
        ∀ f entry, table.function? f = some entry → entry.owner.isSome = true → entry.linkName ≠ p)
    (hglobals : ∀ name ∈ unit.flatMap Instruction.globalNames, ¬ MadeUp name) :
    NamesApart unit where
  params name signature names body hmem p hp hbody := by
    obtain ⟨hmadeUp, hfunction⟩ := hparams name signature names body hmem p hp
    rcases h.params name signature names body hmem p hp hbody with
      hmade | ⟨-, f, entry, hf, howner, heq⟩
    · exact hmadeUp hmade
    · exact hfunction f entry hf howner heq
  globals := by
    have hglobal : ∀ g ∈ unit.flatMap spellings, ¬ MadeUp g.1 := fun g hg =>
      hglobals g.1 ((spellings_sublist unit).subset (List.mem_map_of_mem hg))
    apply List.Nodup.map_on _ (List.Nodup.of_map _ h.declared)
    intro g hg g' hg' heq
    rcases h.globals g hg g' hg' heq with hsame | ⟨n, hspelled, ⟨-, hname⟩ | ⟨-, hname⟩⟩
    · exact hsame
    · exact absurd (hname ▸ hspelled ▸ MadeUp.literal n) (hglobal g' hg')
    · exact absurd (hname ▸ hspelled ▸ MadeUp.literal n) (hglobal g hg)

/-- A function of a class, one that is called like a literal, and one with parameters that are
called like the former and like a value. -/
def capturingSource : String :=
  "class A { void g() { } } void stp_str0() { } " ++
    "void f(A* A_g, int32 stp_t0) \x7b A_g.g(); int8* s = \"x\"; \x7d"

/-- The program with a capture is accepted, and the literal of the unit takes the name
of a function. -/
theorem capturingSource_evaluated :
    (match parse capturingSource with
      | .ok script => (match script.compile with
        | .ok compiled => (compiled.unit.function? "f").any (fun f =>
            f.2.1 == ["A_g", "stp_t0"] && f.2.1.all (bodyNames f.2.2).contains) &&
          (compiled.unit.flatMap spellings).filter (fun g => g.2 == "stp_str0") ==
            [(".str0", "stp_str0"), ("stp_str0", "stp_str0")]
        | .error _ => false)
      | .error _ => false) = true := by
  decide +kernel

/-- A concrete program where both captures happen. -/
theorem compile_capturesIn_capturing : ∃ compiled signature body,
    compile capturingSource = .ok compiled ∧
    .function "f" signature ["A_g", "stp_t0"] body ∈ compiled.unit ∧
    (∀ p ∈ ["A_g", "stp_t0"], p ∈ bodyNames body) ∧
    (compiled.unit.flatMap spellings).filter (fun g => g.2 == "stp_str0") =
      [(".str0", "stp_str0"), ("stp_str0", "stp_str0")] ∧
    CapturesIn compiled.context.symbols compiled.unit := by
  have h := capturingSource_evaluated
  split at h
  · next script hparse =>
      split at h
      · next compiled hcompile =>
          have hcompile' : compile capturingSource = .ok compiled := by
            rw [compile, hparse]
            exact hcompile
          rw [Bool.and_eq_true, Option.any_eq_true, beq_iff_eq] at h
          obtain ⟨⟨⟨signature, names, body⟩, hfunction, hbody⟩, hglobals⟩ := h
          rw [Bool.and_eq_true, beq_iff_eq, List.all_eq_true] at hbody
          obtain ⟨rfl, hcaptured⟩ := hbody
          exact ⟨compiled, signature, body, hcompile', CodeUnit.mem_of_function? hfunction,
            fun p hp => List.contains_iff_mem.1 (hcaptured p hp), hglobals,
              compile_capturesIn hcompile'⟩
      · cases h
  · cases h

/-- A function with a parameter that is called like its first value. -/
def valueSource : String := "void f(int32 stp_t0) { }"

/-- The program with a parameter like a temporary is accepted, and its body uses the
name. -/
theorem valueSource_evaluated :
    (match parse valueSource with
      | .ok script => (match script.compile with
        | .ok compiled => (compiled.unit.function? "f").any fun f =>
            f.2.1 == ["stp_t0"] && (bodyNames f.2.2).contains "stp_t0"
        | .error _ => false)
      | .error _ => false) = true := by
  decide +kernel

/-- Names are not always apart: the storage of the parameter has its name. -/
theorem compile_not_namesApart :
    ¬ ∀ source compiled, compile source = .ok compiled → NamesApart compiled.unit := by
  intro hall
  have h := valueSource_evaluated
  split at h
  · next script hparse =>
      split at h
      · next compiled hcompile =>
          rw [Option.any_eq_true] at h
          obtain ⟨⟨signature, names, body⟩, hfunction, hbody⟩ := h
          rw [Bool.and_eq_true, beq_iff_eq] at hbody
          obtain ⟨rfl, hcaptured⟩ := hbody
          have hapart := hall valueSource compiled (by rw [compile, hparse]; exact hcompile)
          exact hapart.params _ _ _ _ (CodeUnit.mem_of_function? hfunction) "stp_t0"
            (List.mem_singleton_self _) (List.contains_iff_mem.1 hcaptured)
      · cases h
  · cases h

end C

end ClassLang
