import ClassLang.Proofs.Order.Pairing
import ClassLang.Proofs.Syntax.Nodes
import ClassLang.Proofs.Syntax.Printing

/-!
# Trees that are the same apart from numbers and places

Two trees are equal without numbers and places (`Item.bare`) if one is the other with its nodes
numbered anew.  The relations here say the same constructor by constructor, with the numbers of
corresponding nodes related by `N`; that is the form in which two analyses of the trees are
compared.  `Item.paired_of_bare` leads from one to the other.
-/

open List (Forall₂)

section

variable {α β γ : Type} {R : α → β → Prop}

/-- Two lists that go on behind two beginnings of the same length. -/
theorem List.Forall₂.append_inv {a b : List α} {a' b' : List β} (h : Forall₂ R (a ++ b) (a' ++ b'))
    (hlength : a'.length = a.length) : Forall₂ R a a' ∧ Forall₂ R b b' := by
  induction a generalizing a' with
  | nil =>
      obtain rfl := List.length_eq_zero_iff.1 hlength
      exact ⟨.nil, h⟩
  | cons x a ih =>
      cases a' with
      | nil => cases hlength
      | cons y a' =>
          cases h with
          | cons hxy h =>
              obtain ⟨ha, hb⟩ := ih h (by simpa using hlength)
              exact ⟨.cons hxy ha, hb⟩

/-- Elements of two lists that are related at each place. -/
theorem List.forall₂_of_flatMap {f : α → List γ} {g : β → List γ} {S : α → β → Prop}
    {N : γ → γ → Prop} {l : List α} {l' : List β} (hl : Forall₂ R l l')
    (hlength : ∀ a b, R a b → (g b).length = (f a).length)
    (hstep : ∀ a b, R a b → Forall₂ N (f a) (g b) → S a b)
    (h : Forall₂ N (l.flatMap f) (l'.flatMap g)) : Forall₂ S l l' := by
  induction hl with
  | nil => exact .nil
  | cons hab _ ih =>
      rw [List.flatMap_cons, List.flatMap_cons] at h
      obtain ⟨hhead, htail⟩ := h.append_inv (hlength _ _ hab)
      exact .cons (hstep _ _ hab hhead) (ih htail)

/-- Lists with equal images are related entry by entry. -/
theorem List.forall₂_of_map_eq {f : α → γ} {g : β → γ} {l : List α} {l' : List β}
    (h : l'.map g = l.map f) : Forall₂ (fun a b => g b = f a) l l' := by
  induction l generalizing l' with
  | nil =>
      obtain rfl := List.map_eq_nil_iff.1 h
      exact .nil
  | cons a l ih =>
      cases l' with
      | nil => cases h
      | cons b l' =>
          rw [List.map_cons, List.map_cons, List.cons.injEq] at h
          exact .cons h.1 (ih h.2)

end

namespace ClassLang

/-! ## Trees with related nodes -/

section

variable (N : NodeId → NodeId → Prop)

/-- Two expressions that differ in numbers and places only. -/
inductive Expr.Paired : Expr → Expr → Prop
  | literal {n n' : NodeId} (hn : N n n') (value : Literal) (span span' : Span) :
      Paired (.literal n value span) (.literal n' value span')
  | name {n n' : NodeId} {ident ident' : Ident} (hn : N n n') (hname : ident'.name = ident.name) :
      Paired (.name n ident) (.name n' ident')
  | binary {n n' : NodeId} {left right left' right' : Expr} (hn : N n n') (op : BinaryOp)
      (hleft : Paired left left') (hright : Paired right right') (span span' : Span) :
      Paired (.binary n op left right span) (.binary n' op left' right' span')
  | assign {n n' : NodeId} {target value target' value' : Expr} (hn : N n n')
      (htarget : Paired target target') (hvalue : Paired value value') (span span' : Span) :
      Paired (.assign n target value span) (.assign n' target' value' span')
  | call {n n' : NodeId} {callee callee' : Ident} {args args' : List Expr} (hn : N n n')
      (hname : callee'.name = callee.name) (hargs : Forall₂ Paired args args') (span span' : Span) :
      Paired (.call n callee args span) (.call n' callee' args' span')
  | methodCall {n n' : NodeId} {receiver receiver' : Expr} {callee callee' : Ident}
      {args args' : List Expr} (hn : N n n') (hreceiver : Paired receiver receiver')
      (hname : callee'.name = callee.name) (hargs : Forall₂ Paired args args') (span span' : Span) :
      Paired (.methodCall n receiver callee args span)
        (.methodCall n' receiver' callee' args' span')
  | member {n n' : NodeId} {object object' : Expr} {ident ident' : Ident} (hn : N n n')
      (hobject : Paired object object') (hname : ident'.name = ident.name) (span span' : Span) :
      Paired (.member n object ident span) (.member n' object' ident' span')

/-- Two statements that differ in numbers and places only. -/
inductive Stmt.Paired : Stmt → Stmt → Prop
  | block {n n' : NodeId} {stmts stmts' : List Stmt} (hn : N n n')
      (hstmts : Forall₂ Paired stmts stmts') (span span' : Span) :
      Paired (.block n stmts span) (.block n' stmts' span')
  | varDecl {n n' : NodeId} {ty ty' : TypeExpr} {name name' : Ident} {value value' : Option Expr}
      (hn : N n n') (hty : ty'.bare = ty.bare) (hname : name'.name = name.name)
      (hvalue : Option.Rel (Expr.Paired N) value value') (span span' : Span) :
      Paired (.varDecl n ty name value span) (.varDecl n' ty' name' value' span')
  | ifThen {condition condition' : Expr} {positive positive' : Stmt}
      (hcondition : condition.Paired N condition') (hpositive : Paired positive positive')
      (span span' : Span) :
      Paired (.ifThen condition positive span) (.ifThen condition' positive' span')
  | ifElse {condition condition' : Expr} {positive negative positive' negative' : Stmt}
      (hcondition : condition.Paired N condition') (hpositive : Paired positive positive')
      (hnegative : Paired negative negative') (span span' : Span) :
      Paired (.ifElse condition positive negative span)
        (.ifElse condition' positive' negative' span')
  | ret {value value' : Option Expr} (hvalue : Option.Rel (Expr.Paired N) value value')
      (span span' : Span) : Paired (.ret value span) (.ret value' span')
  | expr {e e' : Expr} (he : e.Paired N e') (span span' : Span) :
      Paired (.expr e span) (.expr e' span')

/-- Two fields that differ in numbers and places only. -/
structure FieldDecl.Paired (f f' : FieldDecl) : Prop where
  node : N f.id f'.id
  ty : f'.ty.bare = f.ty.bare
  name : f'.name.name = f.name.name

/-- Two parameters that differ in numbers and places only. -/
structure Param.Paired (p p' : Param) : Prop where
  node : N p.id p'.id
  ty : p'.ty.bare = p.ty.bare
  name : p'.name.name = p.name.name

/-- Two bodies that differ in numbers and places only. -/
inductive FunctionBody.Paired : FunctionBody → FunctionBody → Prop
  | block {b b' : Block} (h : Stmt.Paired N b.toStmt b'.toStmt) : Paired (.block b) (.block b')
  | external (variadic : Bool) : Paired (.external variadic) (.external variadic)

/-- Two functions that differ in numbers and places only. -/
structure FunctionDecl.Paired (f f' : FunctionDecl) : Prop where
  node : N f.id f'.id
  returnType : f'.returnType.bare = f.returnType.bare
  name : f'.name.name = f.name.name
  params : Forall₂ (Param.Paired N) f.params f'.params
  body : f.body.Paired N f'.body

/-- Two members that differ in numbers and places only. -/
inductive ClassMember.Paired : ClassMember → ClassMember → Prop
  | field {f f' : FieldDecl} (h : f.Paired N f') : Paired (.field f) (.field f')
  | method {f f' : FunctionDecl} (h : f.Paired N f') : Paired (.method f) (.method f')

/-- Two classes that differ in numbers and places only. -/
structure ClassDecl.Paired (d d' : ClassDecl) : Prop where
  node : N d.id d'.id
  name : d'.name.name = d.name.name
  parent : Option.Rel (fun p p' : Ident => p'.name = p.name) d.parent d'.parent
  members : Forall₂ (ClassMember.Paired N) d.members d'.members

/-- Two structs that differ in numbers and places only. -/
structure StructDecl.Paired (d d' : StructDecl) : Prop where
  node : N d.id d'.id
  name : d'.name.name = d.name.name
  fields : Forall₂ (FieldDecl.Paired N) d.fields d'.fields

/-- Two items that differ in numbers and places only. -/
inductive Item.Paired : Item → Item → Prop
  | classDecl {d d' : ClassDecl} (h : d.Paired N d') : Paired (.classDecl d) (.classDecl d')
  | structDecl {d d' : StructDecl} (h : d.Paired N d') : Paired (.structDecl d) (.structDecl d')
  | function {f f' : FunctionDecl} (h : f.Paired N f') : Paired (.function f) (.function f')

end

/-- Bodies that are paired are both variadic or neither is. -/
theorem FunctionBody.Paired.isVariadic {N : NodeId → NodeId → Prop} {body body' : FunctionBody}
    (h : body.Paired N body') : body'.isVariadic = body.isVariadic := by
  cases h <;> rfl

/-- Bodies that are paired are both external or neither is. -/
theorem FunctionBody.Paired.isExternal {N : NodeId → NodeId → Prop} {body body' : FunctionBody}
    (h : body.Paired N body') : body'.isExternal = body.isExternal := by
  cases h <;> rfl

/-! ## Bare trees have as many nodes -/

mutual

/-- An expression without numbers and places has as many nodes. -/
theorem Expr.length_nodes_bare : (e : Expr) → e.bare.nodes.length = e.nodes.length
  | .literal _ _ _ | .name _ _ => rfl
  | .binary _ _ left right _ => by
      simp only [bare, nodes_binary, List.length_cons, List.length_append, left.length_nodes_bare,
        right.length_nodes_bare]
  | .assign _ target value _ => by
      simp only [bare, nodes_assign, List.length_cons, List.length_append,
        target.length_nodes_bare, value.length_nodes_bare]
  | .call _ _ args _ => by
      simp only [bare, nodes_call, List.length_cons, length_nodesOfAll_bareAll args]
  | .methodCall _ receiver _ args _ => by
      simp only [bare, nodes_methodCall, List.length_cons, List.length_append,
        receiver.length_nodes_bare, length_nodesOfAll_bareAll args]
  | .member _ object _ _ => by
      simp only [bare, nodes_member, List.length_cons, object.length_nodes_bare]

/-- The same for lists of expressions. -/
theorem Expr.length_nodesOfAll_bareAll : (es : List Expr) →
    (nodesOfAll (bareAll es)).length = (nodesOfAll es).length
  | [] => rfl
  | e :: rest => by
      simp only [bareAll, nodesOfAll_cons, List.length_append, e.length_nodes_bare,
        length_nodesOfAll_bareAll rest]

end

/-- The same for an expression that may be missing. -/
theorem Expr.length_nodesOfOption_bare (value : Option Expr) :
    (nodesOfOption (value.map Expr.bare)).length = (nodesOfOption value).length := by
  cases value with
  | none => rfl
  | some e => exact e.length_nodes_bare

mutual

/-- A statement without numbers and places has as many nodes. -/
theorem Stmt.length_nodes_bare : (s : Stmt) → s.bare.nodes.length = s.nodes.length
  | .block _ stmts _ => by
      simp only [bare, nodes, List.length_cons, length_nodesOfAll_bareAll stmts]
  | .varDecl _ _ _ value _ => by
      simp only [bare, nodes, List.length_cons, Expr.length_nodesOfOption_bare]
  | .ifThen condition positive _ => by
      simp only [bare, nodes, List.length_append, condition.length_nodes_bare,
        positive.length_nodes_bare]
  | .ifElse condition positive negative _ => by
      simp only [bare, nodes, List.length_append, condition.length_nodes_bare,
        positive.length_nodes_bare, negative.length_nodes_bare]
  | .ret value _ => Expr.length_nodesOfOption_bare value
  | .expr e _ => e.length_nodes_bare

/-- The same for lists of statements. -/
theorem Stmt.length_nodesOfAll_bareAll : (stmts : List Stmt) →
    (nodesOfAll (bareAll stmts)).length = (nodesOfAll stmts).length
  | [] => rfl
  | s :: rest => by
      simp only [bareAll, nodesOfAll, List.length_append, s.length_nodes_bare,
        length_nodesOfAll_bareAll rest]

end

/-- A block is the same statement without numbers and places. -/
theorem Block.bare_toStmt (b : Block) : b.bare.toStmt = b.toStmt.bare := by
  simp only [Block.toStmt, Block.bare, Stmt.bare, Stmt.bareAll_eq_map]

/-- A function without numbers and places has as many nodes. -/
theorem FunctionDecl.length_nodes_bare (f : FunctionDecl) :
    f.bare.nodes.length = f.nodes.length := by
  obtain ⟨n, ty, name, params, body, span⟩ := f
  cases body with
  | external variadic => simp [FunctionDecl.bare, nodes, FunctionBody.bare, FunctionBody.nodes]
  | block b =>
      simp [FunctionDecl.bare, nodes, FunctionBody.bare, FunctionBody.nodes, Block.bare_toStmt,
        Stmt.length_nodes_bare]

/-- A member without numbers and places has as many nodes. -/
theorem ClassMember.length_nodes_bare (member : ClassMember) :
    member.bare.nodes.length = member.nodes.length := by
  cases member with
  | field f => rfl
  | method f => exact f.length_nodes_bare

/-- An item without numbers and places has as many nodes. -/
theorem Item.length_nodes_bare (item : Item) : item.bare.nodes.length = item.nodes.length := by
  cases item with
  | classDecl d =>
      simp only [bare, nodes, List.length_cons, List.length_flatMap, List.map_map,
        Function.comp_def, ClassMember.length_nodes_bare]
  | structDecl d => simp [bare, nodes]
  | function f => exact f.length_nodes_bare

/-! ## From bare trees -/

section

variable {N : NodeId → NodeId → Prop}

/-- Names that are the same but for their places are the same. -/
theorem Ident.name_eq_of_bare {ident ident' : Ident} (h : ident'.bare = ident.bare) :
    ident'.name = ident.name := by
  simpa [Ident.bare] using h

/-- Nodes of two expressions are as many if the expressions are equal without them. -/
theorem Expr.length_nodes_eq {e e' : Expr} (h : e'.bare = e.bare) :
    e'.nodes.length = e.nodes.length := by
  rw [← e'.length_nodes_bare, h, e.length_nodes_bare]

/-- Statements that are the same but for numbers and places have as many nodes. -/
theorem Stmt.length_nodes_eq {s s' : Stmt} (h : s'.bare = s.bare) :
    s'.nodes.length = s.nodes.length := by
  rw [← s'.length_nodes_bare, h, s.length_nodes_bare]

mutual

/-- Expressions that are the same but for numbers and places are paired. -/
theorem Expr.paired_of_bare : (e e' : Expr) → e'.bare = e.bare → Forall₂ N e.nodes e'.nodes →
    e.Paired N e'
  | .literal n value span, e', h, hn => by
      cases e' <;> simp only [bare, reduceCtorEq, Expr.literal.injEq, true_and, and_true] at h
      subst h
      simp only [nodes_literal] at hn
      cases hn with
      | cons hn _ => exact .literal hn _ _ _
  | .name n ident, e', h, hn => by
      cases e' <;> simp only [bare, reduceCtorEq, Expr.name.injEq, true_and] at h
      simp only [nodes_name] at hn
      cases hn with
      | cons hn _ => exact .name hn (Ident.name_eq_of_bare h)
  | .binary n op left right span, e', h, hn => by
      cases e' <;> simp only [bare, reduceCtorEq, Expr.binary.injEq, true_and, and_true] at h
      obtain ⟨rfl, hleft, hright⟩ := h
      simp only [nodes_binary] at hn
      cases hn with
      | cons hn hrest =>
          obtain ⟨hl, hr⟩ := hrest.append_inv (length_nodes_eq hleft)
          exact .binary hn _ (left.paired_of_bare _ hleft hl) (right.paired_of_bare _ hright hr) _ _
  | .assign n target value span, e', h, hn => by
      cases e' <;> simp only [bare, reduceCtorEq, Expr.assign.injEq, true_and, and_true] at h
      obtain ⟨htarget, hvalue⟩ := h
      simp only [nodes_assign] at hn
      cases hn with
      | cons hn hrest =>
          obtain ⟨ht, hv⟩ := hrest.append_inv (length_nodes_eq htarget)
          exact .assign hn (target.paired_of_bare _ htarget ht)
            (value.paired_of_bare _ hvalue hv) _ _
  | .call n callee args span, e', h, hn => by
      cases e' <;> simp only [bare, reduceCtorEq, Expr.call.injEq, true_and, and_true] at h
      obtain ⟨hcallee, hargs⟩ := h
      simp only [nodes_call] at hn
      cases hn with
      | cons hn hrest =>
          exact .call hn (Ident.name_eq_of_bare hcallee) (pairedAll_of_bare args _ hargs hrest) _ _
  | .methodCall n receiver callee args span, e', h, hn => by
      cases e' <;> simp only [bare, reduceCtorEq, Expr.methodCall.injEq, true_and, and_true] at h
      obtain ⟨hreceiver, hcallee, hargs⟩ := h
      simp only [nodes_methodCall] at hn
      cases hn with
      | cons hn hrest =>
          obtain ⟨hr, ha⟩ := hrest.append_inv (length_nodes_eq hreceiver)
          exact .methodCall hn (receiver.paired_of_bare _ hreceiver hr)
            (Ident.name_eq_of_bare hcallee) (pairedAll_of_bare args _ hargs ha) _ _
  | .member n object ident span, e', h, hn => by
      cases e' <;> simp only [bare, reduceCtorEq, Expr.member.injEq, true_and, and_true] at h
      obtain ⟨hobject, hident⟩ := h
      simp only [nodes_member] at hn
      cases hn with
      | cons hn hrest =>
          exact .member hn (object.paired_of_bare _ hobject hrest)
            (Ident.name_eq_of_bare hident) _ _

/-- The same for lists of expressions. -/
theorem Expr.pairedAll_of_bare : (es es' : List Expr) → bareAll es' = bareAll es →
    Forall₂ N (nodesOfAll es) (nodesOfAll es') → Forall₂ (Expr.Paired N) es es'
  | [], es', h, _ => by
      cases es' with
      | nil => exact .nil
      | cons e' rest' => simp [bareAll] at h
  | e :: rest, es', h, hn => by
      cases es' with
      | nil => simp [bareAll] at h
      | cons e' rest' =>
          simp only [bareAll, List.cons.injEq] at h
          obtain ⟨he, hrest⟩ := h
          simp only [nodesOfAll_cons] at hn
          obtain ⟨hhead, htail⟩ := hn.append_inv (length_nodes_eq he)
          exact .cons (e.paired_of_bare e' he hhead) (pairedAll_of_bare rest rest' hrest htail)

end

/-- The same for an expression that may be missing. -/
theorem Expr.pairedOption_of_bare {value value' : Option Expr}
    (h : value'.map Expr.bare = value.map Expr.bare)
    (hn : Forall₂ N (nodesOfOption value) (nodesOfOption value')) :
    Option.Rel (Expr.Paired N) value value' := by
  cases value <;> cases value' <;> simp only [Option.map_none, Option.map_some, reduceCtorEq,
    Option.some.injEq] at h
  · exact .none
  · exact .some (Expr.paired_of_bare _ _ h hn)

mutual

/-- Statements that are the same but for numbers and places are paired. -/
theorem Stmt.paired_of_bare : (s s' : Stmt) → s'.bare = s.bare → Forall₂ N s.nodes s'.nodes →
    s.Paired N s'
  | .block n stmts span, s', h, hn => by
      cases s' <;> simp only [bare, reduceCtorEq, Stmt.block.injEq, true_and, and_true] at h
      simp only [nodes] at hn
      cases hn with
      | cons hn hrest => exact .block hn (pairedAll_of_bare stmts _ h hrest) _ _
  | .varDecl n ty name value span, s', h, hn => by
      cases s' <;> simp only [bare, reduceCtorEq, Stmt.varDecl.injEq, true_and, and_true] at h
      obtain ⟨hty, hname, hvalue⟩ := h
      simp only [nodes] at hn
      cases hn with
      | cons hn hrest =>
          exact .varDecl hn hty (Ident.name_eq_of_bare hname)
            (Expr.pairedOption_of_bare hvalue hrest) _ _
  | .ifThen condition positive span, s', h, hn => by
      cases s' <;> simp only [bare, reduceCtorEq, Stmt.ifThen.injEq, and_true] at h
      obtain ⟨hcondition, hpositive⟩ := h
      simp only [nodes] at hn
      obtain ⟨hc, hp⟩ := hn.append_inv (Expr.length_nodes_eq hcondition)
      exact .ifThen (Expr.paired_of_bare _ _ hcondition hc) (positive.paired_of_bare _ hpositive hp)
        _ _
  | .ifElse condition positive negative span, s', h, hn => by
      cases s' <;> simp only [bare, reduceCtorEq, Stmt.ifElse.injEq, and_true] at h
      obtain ⟨hcondition, hpositive, hnegative⟩ := h
      simp only [nodes] at hn
      obtain ⟨hc, hrest⟩ := hn.append_inv (Expr.length_nodes_eq hcondition)
      obtain ⟨hp, hn⟩ := hrest.append_inv (length_nodes_eq hpositive)
      exact .ifElse (Expr.paired_of_bare _ _ hcondition hc) (positive.paired_of_bare _ hpositive hp)
        (negative.paired_of_bare _ hnegative hn) _ _
  | .ret value span, s', h, hn => by
      cases s' <;> simp only [bare, reduceCtorEq, Stmt.ret.injEq, and_true] at h
      simp only [nodes] at hn
      exact .ret (Expr.pairedOption_of_bare h hn) _ _
  | .expr e span, s', h, hn => by
      cases s' <;> simp only [bare, reduceCtorEq, Stmt.expr.injEq, and_true] at h
      simp only [nodes] at hn
      exact .expr (Expr.paired_of_bare _ _ h hn) _ _

/-- The same for lists of statements. -/
theorem Stmt.pairedAll_of_bare : (stmts stmts' : List Stmt) → bareAll stmts' = bareAll stmts →
    Forall₂ N (nodesOfAll stmts) (nodesOfAll stmts') → Forall₂ (Stmt.Paired N) stmts stmts'
  | [], stmts', h, _ => by
      cases stmts' with
      | nil => exact .nil
      | cons s' rest' => simp [bareAll] at h
  | s :: rest, stmts', h, hn => by
      cases stmts' with
      | nil => simp [bareAll] at h
      | cons s' rest' =>
          simp only [bareAll, List.cons.injEq] at h
          obtain ⟨hs, hrest⟩ := h
          simp only [nodesOfAll] at hn
          obtain ⟨hhead, htail⟩ := hn.append_inv (length_nodes_eq hs)
          exact .cons (s.paired_of_bare s' hs hhead) (pairedAll_of_bare rest rest' hrest htail)

end

/-- Functions that are the same but for numbers and places are paired. -/
theorem FunctionDecl.paired_of_bare {f f' : FunctionDecl} (h : f'.bare = f.bare)
    (hn : Forall₂ N f.nodes f'.nodes) : f.Paired N f' := by
  obtain ⟨n, ty, name, params, body, span⟩ := f
  obtain ⟨n', ty', name', params', body', span'⟩ := f'
  simp only [bare, FunctionDecl.mk.injEq, true_and, and_true] at h
  obtain ⟨hty, hname, hparams, hbody⟩ := h
  simp only [nodes] at hn
  cases hn with
  | cons hn hrest =>
      obtain ⟨hp, hb⟩ := hrest.append_inv (by simpa using congrArg List.length hparams)
      refine ⟨hn, hty, Ident.name_eq_of_bare hname, ?_, ?_⟩
      · rw [List.forall₂_map_left_iff, List.forall₂_map_right_iff] at hp
        refine List.Forall₂.mp (fun p p' hpp hn => ?_) (List.forall₂_of_map_eq hparams) hp
        simp only [Param.bare, Param.mk.injEq, true_and, and_true] at hpp
        exact ⟨hn, hpp.1, Ident.name_eq_of_bare hpp.2⟩
      · cases body <;> cases body' <;>
          simp only [FunctionBody.bare, reduceCtorEq, FunctionBody.block.injEq,
            FunctionBody.external.injEq] at hbody
        · refine .block (Stmt.paired_of_bare _ _ ?_ hb)
          rw [← Block.bare_toStmt, ← Block.bare_toStmt, hbody]
        · subst hbody
          exact .external _

/-- Fields that are the same but for numbers and places are paired. -/
theorem FieldDecl.paired_of_bare {f f' : FieldDecl} (h : f'.bare = f.bare) (hn : N f.id f'.id) :
    f.Paired N f' := by
  simp only [bare, FieldDecl.mk.injEq, true_and, and_true] at h
  exact ⟨hn, h.1, Ident.name_eq_of_bare h.2⟩

/-- Members that are the same but for numbers and places are paired. -/
theorem ClassMember.paired_of_bare {member member' : ClassMember} (h : member'.bare = member.bare)
    (hn : Forall₂ N member.nodes member'.nodes) : member.Paired N member' := by
  cases member <;> cases member' <;> simp only [bare, reduceCtorEq, ClassMember.field.injEq,
    ClassMember.method.injEq] at h
  · cases hn with
    | cons hn _ => exact .field (FieldDecl.paired_of_bare h hn)
  · exact .method (FunctionDecl.paired_of_bare h hn)

/-- **Items that are equal without numbers and places** are paired along their nodes. -/
theorem Item.paired_of_bare {item item' : Item} (h : item'.bare = item.bare)
    (hn : Forall₂ N item.nodes item'.nodes) : item.Paired N item' := by
  cases item with
  | function f =>
      cases item' <;> simp only [bare, reduceCtorEq, Item.function.injEq] at h
      exact .function (FunctionDecl.paired_of_bare h hn)
  | structDecl d =>
      cases item' <;> simp only [bare, reduceCtorEq, Item.structDecl.injEq, StructDecl.mk.injEq,
        true_and, and_true] at h
      obtain ⟨hname, hfields⟩ := h
      simp only [nodes] at hn
      cases hn with
      | cons hn hrest =>
          rw [List.forall₂_map_left_iff, List.forall₂_map_right_iff] at hrest
          exact .structDecl ⟨hn, Ident.name_eq_of_bare hname, List.Forall₂.mp
            (fun _ _ => FieldDecl.paired_of_bare) (List.forall₂_of_map_eq hfields) hrest⟩
  | classDecl d =>
      cases item' <;> simp only [bare, reduceCtorEq, Item.classDecl.injEq, ClassDecl.mk.injEq,
        true_and, and_true] at h
      obtain ⟨hname, hparent, hmembers⟩ := h
      simp only [nodes] at hn
      cases hn with
      | cons hn hrest =>
          refine .classDecl ⟨hn, Ident.name_eq_of_bare hname, ?_, ?_⟩
          · next d' =>
            cases hp : d.parent <;> cases hp' : d'.parent <;> simp only [hp, hp', Option.map_none,
              Option.map_some, reduceCtorEq, Option.some.injEq] at hparent
            · exact .none
            · exact .some (Ident.name_eq_of_bare hparent)
          · refine List.forall₂_of_flatMap (List.forall₂_of_map_eq hmembers) (fun m m' hm => ?_)
              (fun m m' => ClassMember.paired_of_bare) hrest
            rw [← m'.length_nodes_bare, hm, m.length_nodes_bare]

/-- Items that are the same but for numbers and places have as many nodes. -/
theorem Item.length_nodes_eq {item item' : Item} (h : item'.bare = item.bare) :
    item'.nodes.length = item.nodes.length := by
  rw [← item'.length_nodes_bare, h, item.length_nodes_bare]

end

end ClassLang
