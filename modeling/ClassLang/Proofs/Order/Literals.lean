import ClassLang.Proofs.Order.Reordering
import ClassLang.Proofs.Order.Sites
import ClassLang.Proofs.Resolve.Literals

/-!
# String literals in two orders

Twins have the same string literals, in the same order (`Twins.literals`), so two scripts with the
same items have the same texts, in another order.  When the literals get their storage, the contexts
agree up to the names of the globals: a renaming takes each number of a text to the other one
(`Script.Reordered.renamed_internLiterals`).
-/

open List (Forall₂)

/-- A list without duplicates has none. -/
theorem List.nodup_eraseDups {α : Type} [BEq α] [LawfulBEq α] (l : List α) : l.eraseDups.Nodup := by
  induction l using List.reverseRecOn with
  | nil => exact List.nodup_nil
  | append_singleton l a ih =>
      rw [List.eraseDups_append]
      by_cases ha : a ∈ l
      · simpa [List.removeAll, ha] using ih
      · have hlast : ([a].removeAll l).eraseDups = [a] := by
          simp [List.removeAll, ha, List.eraseDups_cons]
        rw [hlast]
        exact ih.append (List.nodup_singleton a) (by simpa using ha)

namespace ClassLang

variable {N : NodeId → NodeId → Prop}

/-! ## The literals of a tree -/

/-- The same string literal at two nodes that correspond. -/
def SameLiteral (N : NodeId → NodeId → Prop) (p p' : NodeId × String) : Prop :=
  N p.1 p'.1 ∧ p'.2 = p.2

/-- The same string literal is met, or none. -/
def Visit.SameLiteral (N : NodeId → NodeId → Prop) (v v' : Visit) : Prop :=
  Option.Rel (ClassLang.SameLiteral N) v.literal? v'.literal?

mutual

/-- Expressions that are paired have parts that are. -/
theorem Expr.Paired.subexprs : (e e' : Expr) → e.Paired N e' →
    Forall₂ (Expr.Paired N) e.subexprs e'.subexprs
  | .literal .., _, h => by
      cases h with
      | literal hn => exact .cons (.literal hn _ _ _) .nil
  | .name .., _, h => by
      cases h with
      | name hn hname => exact .cons (.name hn hname) .nil
  | .binary _ _ left right _, _, h => by
      cases h with
      | binary hn _ hleft hright =>
          exact .cons (.binary hn _ hleft hright _ _)
            (List.rel_append (Expr.Paired.subexprs left _ hleft)
              (Expr.Paired.subexprs right _ hright))
  | .assign _ target value _, _, h => by
      cases h with
      | assign hn htarget hvalue =>
          exact .cons (.assign hn htarget hvalue _ _) (List.rel_append
            (Expr.Paired.subexprs target _ htarget) (Expr.Paired.subexprs value _ hvalue))
  | .call _ _ args _, _, h => by
      cases h with
      | call hn hname hargs =>
          exact .cons (.call hn hname hargs _ _) (Expr.Paired.subexprsOfAll args _ hargs)
  | .methodCall _ receiver _ args _, _, h => by
      cases h with
      | methodCall hn hreceiver hname hargs =>
          exact .cons (.methodCall hn hreceiver hname hargs _ _) (List.rel_append
            (Expr.Paired.subexprs receiver _ hreceiver) (Expr.Paired.subexprsOfAll args _ hargs))
  | .member _ object _ _, _, h => by
      cases h with
      | member hn hobject hname =>
          exact .cons (.member hn hobject hname _ _) (Expr.Paired.subexprs object _ hobject)

/-- The same for lists of expressions. -/
theorem Expr.Paired.subexprsOfAll : (es es' : List Expr) → Forall₂ (Expr.Paired N) es es' →
    Forall₂ (Expr.Paired N) (Expr.subexprsOfAll es) (Expr.subexprsOfAll es')
  | [], _, h => by
      cases h
      exact .nil
  | e :: rest, _, h => by
      cases h with
      | cons he hrest =>
          exact List.rel_append (Expr.Paired.subexprs e _ he)
            (Expr.Paired.subexprsOfAll rest _ hrest)

end

/-- The expressions in an expression are met in the same order. -/
theorem Expr.Paired.visits {e e' : Expr} (h : e.Paired N e') :
    Forall₂ (Visit.SameLiteral N) e.visits e'.visits := by
  unfold Expr.visits
  rw [List.forall₂_map_left_iff, List.forall₂_map_right_iff]
  refine (Expr.Paired.subexprs e e' h).imp fun x x' hx => ?_
  cases hx with
  | literal hn value =>
      cases value with
      | string text => exact .some ⟨hn, rfl⟩
      | _ => exact .none
  | _ => exact .none

/-- Expressions that may be missing are visited alike. -/
theorem Expr.visitsOfOption_paired {value value' : Option Expr}
    (h : Option.Rel (Expr.Paired N) value value') :
    Forall₂ (Visit.SameLiteral N) (Expr.visitsOfOption value) (Expr.visitsOfOption value') := by
  cases h with
  | none => exact .nil
  | some he => exact he.visits

mutual

/-- Statements that are paired are visited alike. -/
theorem Stmt.Paired.visits : (s s' : Stmt) → s.Paired N s' →
    Forall₂ (Visit.SameLiteral N) s.visits s'.visits
  | .block _ stmts _, _, h => by
      cases h with
      | block _ hstmts => exact .cons .none (.cons .none (Stmt.Paired.visitsOfAll stmts _ hstmts))
  | .varDecl .., _, h => by
      cases h with
      | varDecl _ _ _ hvalue => exact .cons .none (Expr.visitsOfOption_paired hvalue)
  | .ifThen _ positive _, _, h => by
      cases h with
      | ifThen hcondition hpositive =>
          exact .cons .none (List.rel_append hcondition.visits
            (Stmt.Paired.visits positive _ hpositive))
  | .ifElse _ positive negative _, _, h => by
      cases h with
      | ifElse hcondition hpositive hnegative =>
          exact .cons .none (List.rel_append (List.rel_append hcondition.visits
            (Stmt.Paired.visits positive _ hpositive)) (Stmt.Paired.visits negative _ hnegative))
  | .ret .., _, h => by
      cases h with
      | ret hvalue => exact .cons .none (Expr.visitsOfOption_paired hvalue)
  | .expr .., _, h => by
      cases h with
      | expr he => exact .cons .none he.visits

/-- The same for lists of statements. -/
theorem Stmt.Paired.visitsOfAll : (stmts stmts' : List Stmt) →
    Forall₂ (Stmt.Paired N) stmts stmts' →
    Forall₂ (Visit.SameLiteral N) (Stmt.visitsOfAll stmts) (Stmt.visitsOfAll stmts')
  | [], _, h => by
      cases h
      exact .nil
  | s :: rest, _, h => by
      cases h with
      | cons hs hrest =>
          exact List.rel_append (Stmt.Paired.visits s _ hs) (Stmt.Paired.visitsOfAll rest _ hrest)

end

/-- Functions that are paired are visited alike. -/
theorem FunctionDecl.Paired.visits {f f' : FunctionDecl} (h : f.Paired N f') :
    Forall₂ (Visit.SameLiteral N) f.visits f'.visits := by
  have hbody := h.body
  unfold FunctionDecl.visits
  cases hb : f.body <;> cases hb' : f'.body <;> rw [hb, hb'] at hbody <;> cases hbody
  · next b b' hblock =>
    cases hblock with
    | block _ hstmts => exact .cons .none (.cons .none (Stmt.Paired.visitsOfAll _ _ hstmts))
  · exact .cons .none .nil

/-- **Items that are paired** have the same string literals. -/
theorem Item.Paired.visits {item item' : Item} (h : item.Paired N item') :
    Forall₂ (Visit.SameLiteral N) item.visits item'.visits := by
  have hfunctions := h.functions
  cases h with
  | structDecl _ => exact .cons .none (.cons .none .nil)
  | function h => exact .cons .none h.visits
  | classDecl h =>
      exact .cons .none (.cons .none (List.rel_flatMap hfunctions fun f f' hf => hf.visits))

/-! ## The literals of a script -/

namespace Script

variable {script script' : Script} {item item' : Item}

/-- Twins have the same literals, in the same order. -/
theorem Reordered.literals (h : Reordered script script')
    (htwins : Twins script script' item item') :
    Forall₂ (SameLiteral h.part.nodes) (item.visits.filterMap Visit.literal?)
      (item'.visits.filterMap Visit.literal?) :=
  List.rel_filterMap (fun _ _ hvisit => hvisit) (h.paired htwins).visits

/-- The literals of a script are those of its items. -/
theorem mem_stringLiterals {literal : NodeId × String} : literal ∈ script.stringLiterals ↔
    ∃ item ∈ script.items, literal ∈ item.visits.filterMap Visit.literal? := by
  rw [Script.stringLiterals_eq, Script.visits, List.filterMap_flatMap, List.mem_flatMap]

/-- **Every string literal is there in the other script.** -/
theorem Reordered.exists_literal (h : Reordered script script') {literal : NodeId × String}
    (hliteral : literal ∈ script.stringLiterals) :
    ∃ literal' ∈ script'.stringLiterals, SameLiteral h.part.nodes literal literal' := by
  obtain ⟨item, hitem, hmem⟩ := mem_stringLiterals.1 hliteral
  obtain ⟨item', htwins⟩ := h.exists_twin hitem
  obtain ⟨literal', hmem', hsame⟩ := (h.literals htwins).exists_of_mem_left hmem
  exact ⟨literal', mem_stringLiterals.2 ⟨item', htwins.mem', hmem'⟩, hsame⟩

/-- Every literal of the one script is one of the other. -/
theorem Reordered.exists_literal' (h : Reordered script script') {literal' : NodeId × String}
    (hliteral' : literal' ∈ script'.stringLiterals) :
    ∃ literal ∈ script.stringLiterals, SameLiteral h.part.nodes literal literal' := by
  obtain ⟨item', hitem', hmem'⟩ := mem_stringLiterals.1 hliteral'
  obtain ⟨item, htwins⟩ := h.symm.exists_twin hitem'
  obtain ⟨literal, hmem, hsame⟩ := (h.literals htwins.symm).exists_of_mem_right hmem'
  exact ⟨literal, mem_stringLiterals.2 ⟨item, htwins.mem', hmem⟩, hsame⟩

/-- A node that corresponds to a literal is a literal. -/
theorem Reordered.mem_literals_iff (h : Reordered script script') {n n' : NodeId}
    (hn : h.part.nodes n n') :
    n' ∈ script'.stringLiterals.map Prod.fst ↔ n ∈ script.stringLiterals.map Prod.fst := by
  constructor
  · intro hmem
    obtain ⟨literal', hliteral', rfl⟩ := List.mem_map.1 hmem
    obtain ⟨literal, hliteral, hsame⟩ := h.exists_literal' hliteral'
    rw [h.part.uniqueNodes.1 hn hsame.1]
    exact List.mem_map_of_mem hliteral
  · intro hmem
    obtain ⟨literal, hliteral, rfl⟩ := List.mem_map.1 hmem
    obtain ⟨literal', hliteral', hsame⟩ := h.exists_literal hliteral
    rw [h.part.uniqueNodes.2 hn hsame.1]
    exact List.mem_map_of_mem hliteral'

/-- The texts of a script, each one once. -/
def distinctTexts (script : Script) : List String :=
  (script.stringLiterals.map Prod.snd).eraseDups

/-- Every text of a script is listed once. -/
theorem nodup_distinctTexts (script : Script) : script.distinctTexts.Nodup :=
  List.nodup_eraseDups _

/-- The texts of the one script are those of the other, in another order. -/
theorem Reordered.perm_distinctTexts (h : Reordered script script') :
    script.distinctTexts.Perm script'.distinctTexts := by
  refine (List.perm_ext_iff_of_nodup script.nodup_distinctTexts script'.nodup_distinctTexts).2
    fun text => ?_
  rw [distinctTexts, distinctTexts, List.mem_eraseDups, List.mem_eraseDups]
  constructor
  · intro hmem
    obtain ⟨literal, hliteral, rfl⟩ := List.mem_map.1 hmem
    obtain ⟨literal', hliteral', -, htext⟩ := h.exists_literal hliteral
    exact List.mem_map.2 ⟨literal', hliteral', htext⟩
  · intro hmem
    obtain ⟨literal', hliteral', rfl⟩ := List.mem_map.1 hmem
    obtain ⟨literal, hliteral, -, htext⟩ := h.exists_literal' hliteral'
    exact List.mem_map.2 ⟨literal, hliteral, htext.symm⟩

end Script

/-! ## Storage -/

/-- The number of a text is its place among the texts. -/
theorem SymbolTable.numbered_eq_map {texts : List String} (hnodup : texts.Nodup) :
    numbered texts = texts.map fun text => ⟨text, texts.idxOf text⟩ := by
  refine List.ext_getElem (by simp [numbered]) fun i hi _ => ?_
  simp [numbered, hnodup.idxOf_getElem]

section

variable {script script' : Script} {c c' : Context}

/-- The literals of a script that have their storage. -/
theorem Context.literals_eq (h : c.symbols.Textless) :
    (c.internLiterals script).symbols.literals =
      script.distinctTexts.map fun text => ⟨text, script.distinctTexts.idxOf text⟩ := by
  exact (Context.literals_internLiterals script h).trans
    (SymbolTable.numbered_eq_map script.nodup_distinctTexts)

/-- The global of a literal is numbered by the place of its text. -/
theorem Context.globalName_eq (h : c.symbols.Textless) {i : SymbolId} {entry : LiteralEntry}
    (hentry : (c.internLiterals script).symbols.literal? i = some entry) :
    entry.text ∈ script.distinctTexts ∧
      entry.globalName = literalName (script.distinctTexts.idxOf entry.text) := by
  have hmem := SymbolTable.mem_literals.2 ⟨i, hentry⟩
  rw [Context.literals_eq h] at hmem
  obtain ⟨text, htext, rfl⟩ := List.mem_map.1 hmem
  exact ⟨htext, rfl⟩

/-- The declarations of literals are those of the texts, in order. -/
theorem Context.literalDeclarations_eq (h : c.symbols.Textless) :
    (c.internLiterals script).literalDeclarations = script.distinctTexts.map fun text =>
      .stringLiteral (literalName (script.distinctTexts.idxOf text)) text := by
  rw [Context.literalDeclarations, SymbolTable.filterMap_literalIds, Context.literals_eq h,
    List.map_map]
  rfl

/-- Symbols that were paired are paired when literals have their storage. -/
theorem SymbolTable.AddsStorage.paired {hidden : SymbolId → Prop} {r : SymbolId → SymbolId → Prop}
    {t t' table table' : SymbolTable} (h : t.AddsStorage table) (h' : t'.AddsStorage table')
    (hpaired : t.Paired hidden r t') : table.Paired hidden r table' := by
  intro i j hij
  rw [h.get? (hpaired.lt_left hij), h'.get? (hpaired.lt_right hij)]
  exact hpaired i j hij

/-- **When string literals have their storage**, the two contexts agree up to the names of the
globals, and so do the declarations of the globals. -/
theorem Script.Reordered.renamed_internLiterals (h : Reordered script script') {m : Pairing}
    (hpaired : Context.Paired h.part m c c') (htextless : c.symbols.Textless)
    (htextless' : c'.symbols.Textless) : ∃ σ, RenamesLiterals σ ∧
      (c.internLiterals script).Renamed σ h.part.nodes m.symbols (c'.internLiterals script') ∧
      ((c.internLiterals script).literalDeclarations.map (Instruction.rename σ)).Perm
        (c'.internLiterals script').literalDeclarations := by
  have hinterns := c.interns_internLiterals script
  have hinterns' := c'.interns_internLiterals script'
  have htexts := hinterns.texts (script.literals_sublist.nodup (Script.visits_nodup h.proper))
  have htexts' := hinterns'.texts (script'.literals_sublist.nodup (Script.visits_nodup h.proper'))
  obtain ⟨σ, hσ, hnames⟩ :=
    exists_renamesLiterals_of_perm script.nodup_distinctTexts h.perm_distinctTexts
  refine ⟨σ, hσ, ⟨hσ.injective, m.uniqueSymbols, ?_, fun n n' hn => ?_, fun n n' hn => ?_⟩, ?_⟩
  · exact hinterns.storage.paired hinterns'.storage fun i j hij => hpaired.table i j hij
  · by_cases hmem : n ∈ script.stringLiterals.map Prod.fst
    · obtain ⟨⟨n, text⟩, hliteral, rfl⟩ := List.mem_map.1 hmem
      obtain ⟨⟨m', text'⟩, hliteral', hnode, rfl⟩ := h.exists_literal hliteral
      obtain rfl := h.part.uniqueNodes.2 hn hnode
      obtain ⟨i, e, hi, he, htext⟩ := htexts _ _ hliteral
      obtain ⟨j, e', hj, he', htext'⟩ := htexts' _ _ hliteral'
      obtain ⟨hin, hname⟩ := Context.globalName_eq htextless he
      obtain ⟨-, hname'⟩ := Context.globalName_eq htextless' he'
      rw [hi, hj]
      refine .some (.inr ⟨e, e', he, he', htext'.trans htext.symm, ?_⟩)
      rw [hname, hname', hnames _ hin, htext, htext']
    · rw [hinterns.symbol? n hmem, hinterns'.symbol? n' (mt (h.mem_literals_iff hn).1 hmem)]
      exact (hpaired.symbol? n n' hn).imp fun i j hij => .inl hij.1
  · rw [hinterns.type?, hinterns'.type?]
    exact hpaired.type? n n' hn
  · rw [Context.literalDeclarations_eq htextless, Context.literalDeclarations_eq htextless',
      List.map_map]
    have hrenamed : script.distinctTexts.map (Instruction.rename σ ∘ fun text =>
          .stringLiteral (literalName (script.distinctTexts.idxOf text)) text) =
        script.distinctTexts.map fun text =>
          .stringLiteral (literalName (script'.distinctTexts.idxOf text)) text := by
      refine List.map_congr_left fun text htext => ?_
      rw [Function.comp_apply, Instruction.rename, hnames text htext]
    rw [hrenamed]
    exact h.perm_distinctTexts.map _

end

end ClassLang
