import ClassLang.Proofs.Accepted
import ClassLang.Proofs.Lower.Literals
import ClassLang.Proofs.Order.Layouts
import ClassLang.Proofs.Order.Literals
import ClassLang.Proofs.Order.Resolved
import ClassLang.Proofs.Order.Units
import ClassLang.Proofs.Symbol.Arrangement

/-!
# The order of declarations does not matter

Two sources that consist of the same items in different orders are accepted or rejected together,
and the code of one is the code of the other one in another order, up to the names of the globals of
string literals (`compile_reordered`).

The contexts behind resolution agree (`Script.Reordered.paired_resolvedContext`).  They still do
when classes are laid out (`Context.Paired.layOut`) and literals have their storage, and such
contexts lead to the same code (`Context.Renamed.unitCode`).
-/

open List (Forall₂)

namespace ClassLang

/-- What was resolved without a report and is laid out differs in its table only. -/
theorem Script.furnished_of_layOut {script : Script} {laid : Context} (hproper : script.Proper)
    (hclean : script.resolvedContext.Clean)
    (hlaid : script.resolvedContext.layOut = (none, laid)) :
    ∃ table, laid = { script.resolvedContext with symbols := table } ∧
      script.resolvedContext.symbols.Furnished table := by
  have h := script.analysed hproper hclean
  obtain ⟨table, heq, hlaidOut⟩ :=
    SymbolTable.finalizeLayouts_eq h.ok.table h.unlaid h.acyclic
  exact ⟨table, by simpa [Context.layOut, heq] using hlaid.symm, h.ok.table, h.acyclic,
    SymbolTable.LaidOut.arranged h.unlaid h.acyclic heq, hlaidOut⟩

/-- **Contexts that agree still agree when they are laid out.** -/
theorem Context.Paired.furnished {part : Part} {m : Pairing} {c c' : Context}
    (h : Paired part m c c') (hshown : ∀ i, ¬ part.hidden i) {table table' : SymbolTable}
    (ht : c.symbols.Furnished table) (ht' : c'.symbols.Furnished table') :
    Paired part m { c with symbols := table } { c' with symbols := table' } where
  table := h.table.furnished m.uniqueSymbols hshown ht ht'
  known i hi := absurd hi (hshown i)
  scopes := h.scopes
  descends := h.descends
  descends' := h.descends'
  symbol? := h.symbol?
  type? := h.type?
  scope? := h.scope?
  clean := h.clean

/-- The functions of external classes are those of the root class. -/
theorem Context.Renamed.externalMethods {σ : String → String} {N : NodeId → NodeId → Prop}
    {r : SymbolId → SymbolId → Prop} {c c' : Context} {script script' : Script}
    (h : c.Renamed σ N r c') (hcomplete : Complete script c) (hcomplete' : Complete script' c')
    (hroot : r SymbolTable.rootClass SymbolTable.rootClass) :
    Forall₂ (c.symbols.Alike σ r c'.symbols) c.externalMethods c'.externalMethods := by
  obtain ⟨entry, hentry, -, hexternal⟩ := hcomplete.root
  obtain ⟨entry', hentry', -, hexternal'⟩ := hcomplete'.root
  rw [hcomplete.externalMethods_eq hentry hexternal,
    hcomplete'.externalMethods_eq hentry' hexternal']
  have hclass := h.class? (.inl hroot)
  rw [hentry, hentry'] at hclass
  cases hclass with
  | some hpaired => exact hpaired.functions.imp fun _ _ => .inl

namespace Script

variable {script script' : Script} {laid laid' : Context} {unit unit' : CodeUnit}

/-- **The code of a script** is the code of the other one in another order, but for the names of the
globals of string literals. -/
theorem Reordered.perm_unit (h : Reordered script script') (hclean : script.resolvedContext.Clean)
    (hclean' : script'.resolvedContext.Clean)
    (hlaid : script.resolvedContext.layOut = (none, laid))
    (hlaid' : script'.resolvedContext.layOut = (none, laid'))
    (hcomplete : Complete script (laid.internLiterals script))
    (hcomplete' : Complete script' (laid'.internLiterals script'))
    (hunit : laid.generate script = .ok unit) (hunit' : laid'.generate script' = .ok unit') :
    ∃ σ, RenamesLiterals σ ∧ (unit.map (Instruction.rename σ)).Perm unit' := by
  obtain ⟨table, rfl, ht⟩ := furnished_of_layOut h.proper hclean hlaid
  obtain ⟨table', rfl, ht'⟩ := furnished_of_layOut h.proper' hclean' hlaid'
  obtain ⟨-, m, hroot, hpaired⟩ := h.paired_resolvedContext hclean
  obtain ⟨σ, hσ, hrenamed, hliterals⟩ := h.renamed_internLiterals
    (hpaired.furnished (fun _ => id) ht ht')
    (ht.arranged.toDressed.textless script.textless_resolvedContext)
    (ht'.arranged.toDressed.textless script'.textless_resolvedContext)
  obtain ⟨found, hfound, hperm⟩ := hrenamed.unitCode h.shuffled (.inl hroot)
    (hrenamed.externalMethods hcomplete hcomplete' hroot) hliterals unit hunit
  cases hunit'.symm.trans hfound
  exact ⟨σ, hσ, hperm⟩

/-- **Scripts with the same items are resolved without a report together.** -/
theorem clean_iff_of_perm (hproper : script.Proper) (hproper' : script'.Proper)
    (hitems : (script.items.map Item.bare).Perm (script'.items.map Item.bare)) :
    script.resolvedContext.Clean ↔ script'.resolvedContext.Clean := by
  constructor
  · intro hclean
    exact ((reordered_of_clean hproper hproper' hitems hclean).paired_resolvedContext hclean).1
  · intro hclean
    exact ((reordered_of_clean hproper' hproper hitems.symm hclean).paired_resolvedContext hclean).1

end Script

/-- A source is accepted if its script is resolved without a report. -/
theorem exists_compile_iff {source : String} {script : Script}
    (hparse : parse source = .ok script) :
    (∃ compiled, compile source = .ok compiled) ↔ script.resolvedContext.Clean := by
  constructor
  · rintro ⟨compiled, hcompile⟩
    obtain ⟨found, _, haccepted, hclean, -⟩ := resolved_of_compile hcompile
    cases hparse.symm.trans haccepted.parse_eq
    exact hclean
  · intro hclean
    have hproper := Script.proper_of_parse hparse
    obtain ⟨_, _, -, -, hcompile, -⟩ :=
      script.compile_of_clean hproper (Script.clean_declaredContext hproper hclean) hclean
    exact ⟨_, by rw [compile, hparse]; exact hcompile⟩

/-- **The order of declarations does not matter.**  Take two sources without syntax errors that
consist of the same items in different orders.  Declaration and resolution report no error in one
exactly if they report none in the other, and one has code exactly if the other one has.  The code
consists of the same declarations, with the same contents, up to one renaming of the globals of
string literals. -/
theorem compile_reordered {source₁ source₂ : String} {script₁ script₂ : Script}
    (hparse₁ : parse source₁ = .ok script₁) (hparse₂ : parse source₂ = .ok script₂)
    (hitems : (script₁.items.map Item.bare).Perm (script₂.items.map Item.bare)) :
    (script₁.declaredContext.Clean ∧ script₁.resolvedContext.Clean ↔
        script₂.declaredContext.Clean ∧ script₂.resolvedContext.Clean) ∧
      ((∃ compiled, compile source₁ = .ok compiled) ↔
        ∃ compiled, compile source₂ = .ok compiled) ∧
      ∀ compiled₁ compiled₂, compile source₁ = .ok compiled₁ → compile source₂ = .ok compiled₂ →
        ∃ σ, RenamesLiterals σ ∧
          (compiled₁.unit.map (Instruction.rename σ)).Perm compiled₂.unit := by
  have hproper₁ := Script.proper_of_parse hparse₁
  have hproper₂ := Script.proper_of_parse hparse₂
  have hclean := Script.clean_iff_of_perm hproper₁ hproper₂ hitems
  refine ⟨?_, ?_, fun compiled₁ compiled₂ hcompile₁ hcompile₂ => ?_⟩
  · rw [and_iff_right_of_imp (Script.clean_declaredContext hproper₁),
      and_iff_right_of_imp (Script.clean_declaredContext hproper₂), hclean]
  · rw [exists_compile_iff hparse₁, exists_compile_iff hparse₂, hclean]
  · have hclean₁ := (exists_compile_iff hparse₁).1 ⟨_, hcompile₁⟩
    have hclean₂ := (exists_compile_iff hparse₂).1 ⟨_, hcompile₂⟩
    obtain ⟨laid₁, unit₁, hlaid₁, hunit₁, hscript₁, hcomplete₁, -⟩ := script₁.compile_of_clean
      hproper₁ (Script.clean_declaredContext hproper₁ hclean₁) hclean₁
    obtain ⟨laid₂, unit₂, hlaid₂, hunit₂, hscript₂, hcomplete₂, -⟩ := script₂.compile_of_clean
      hproper₂ (Script.clean_declaredContext hproper₂ hclean₂) hclean₂
    rw [compile, hparse₁] at hcompile₁
    rw [compile, hparse₂] at hcompile₂
    cases hcompile₁.symm.trans hscript₁
    cases hcompile₂.symm.trans hscript₂
    exact (Script.reordered_of_clean hproper₁ hproper₂ hitems hclean₁).perm_unit hclean₁ hclean₂
      hlaid₁ hlaid₂ hcomplete₁ hcomplete₂ hunit₁ hunit₂

/-- A class with a function that gives back a text. -/
def textClass (head text : String) : String :=
  "class " ++ head ++ " \x7b int8* f() \x7b return \"" ++ text ++ "\"; \x7d \x7d "

/-- A class in front of its parent, with a text in both. -/
def childFirstSource : String := textClass "B extends A" "b" ++ textClass "A" "a"

/-- The same declarations from back to front. -/
def parentFirstSource : String := textClass "A" "a" ++ textClass "B extends A" "b"

/-- The class that `textClass` declares, without numbers and places. -/
def bareTextClass (name : String) (parent : Option String) (text : String) : Item :=
  .classDecl ⟨0, ⟨name, {}⟩, parent.map (⟨·, {}⟩),
    [.method ⟨0, ⟨.primitive (.int .w8), 1, {}⟩, ⟨"f", {}⟩, [],
      .block ⟨0, [.ret (some (.literal 0 (.string text) {})) {}], {}⟩, {}⟩], {}⟩

/-- The child is read in front of its parent. -/
theorem childFirst_items {script : Script} (h : parse childFirstSource = .ok script) :
    script.items.map Item.bare =
      [bareTextClass "B" (some "A") "b", bareTextClass "A" none "a"] := by
  have hread : (parse childFirstSource).toOption.map (fun script => script.items.map Item.bare) =
      some [bareTextClass "B" (some "A") "b", bareTextClass "A" none "a"] := by rfl
  rw [h] at hread
  exact Option.some.inj hread

/-- The parent is read in front of its child. -/
theorem parentFirst_items {script : Script} (h : parse parentFirstSource = .ok script) :
    script.items.map Item.bare =
      [bareTextClass "A" none "a", bareTextClass "B" (some "A") "b"] := by
  have hread : (parse parentFirstSource).toOption.map (fun script => script.items.map Item.bare) =
      some [bareTextClass "A" none "a", bareTextClass "B" (some "A") "b"] := by rfl
  rw [h] at hread
  exact Option.some.inj hread

/-- What is found out about both by compiling them: their texts have other numbers. -/
theorem childFirst_evaluated :
    (match parse childFirstSource, compile childFirstSource,
        parse parentFirstSource, compile parentFirstSource with
      | .ok _, .ok compiled₁, .ok _, .ok compiled₂ =>
          compiled₁.unit.filterMap Instruction.textGlobal? == [(".str0", "b"), (".str1", "a")] &&
            compiled₂.unit.filterMap Instruction.textGlobal? == [(".str0", "a"), (".str1", "b")]
      | _, _, _, _ => false) = true := by
  decide +kernel

theorem compile_reordered_childFirst : ∃ script₁ script₂ compiled₁ compiled₂ σ,
    parse childFirstSource = .ok script₁ ∧ parse parentFirstSource = .ok script₂ ∧
    (script₁.items.map Item.bare).Perm (script₂.items.map Item.bare) ∧
    compile childFirstSource = .ok compiled₁ ∧ compile parentFirstSource = .ok compiled₂ ∧
    compiled₁.unit.filterMap Instruction.textGlobal? = [(".str0", "b"), (".str1", "a")] ∧
    compiled₂.unit.filterMap Instruction.textGlobal? = [(".str0", "a"), (".str1", "b")] ∧
    RenamesLiterals σ ∧ (compiled₁.unit.map (Instruction.rename σ)).Perm compiled₂.unit := by
  have h := childFirst_evaluated
  split at h
  · next script₁ compiled₁ script₂ compiled₂ hparse₁ hcompile₁ hparse₂ hcompile₂ =>
      rw [Bool.and_eq_true, beq_iff_eq, beq_iff_eq] at h
      have hitems : (script₁.items.map Item.bare).Perm (script₂.items.map Item.bare) := by
        rw [childFirst_items hparse₁, parentFirst_items hparse₂]
        exact List.Perm.swap ..
      obtain ⟨σ, hσ, hperm⟩ := (compile_reordered hparse₁ hparse₂ hitems).2.2 compiled₁ compiled₂
        hcompile₁ hcompile₂
      exact ⟨script₁, script₂, compiled₁, compiled₂, σ, hparse₁, hparse₂, hitems, hcompile₁,
        hcompile₂, h.1, h.2, hσ, hperm⟩
  · cases h

end ClassLang
