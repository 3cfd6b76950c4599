import ClassLang.Proofs.Resolve.Bound
import ClassLang.Proofs.Resolve.Finished
import ClassLang.Proofs.Resolve.Lineage

/-!
# Records of a script have sizes

Each class and each struct of a script is checked when all declarations are settled, and a
record that contains itself is reported.  The root class stores scalars only.  So no record of a
script without a report contains itself (`Script.contained`), and this is still so when bodies
are resolved and records are laid out: every class and every struct has one size
(`compile_containment`).
-/

namespace ClassLang

open Analysis SymbolTable

section

variable {script : Script} {ctx : Context}

/-- The root class stores no record. -/
theorem Settled.root_embeds (h : Settled script ctx) {record : SymbolId} :
    ¬ ctx.symbols.Embeds SymbolTable.rootClass record := by
  obtain ⟨hlater, hsame⟩ := h.started
  have hroot : initial.class? SymbolTable.rootClass =
      some ⟨rootClassName, none, none, [1, 2], [3, 4], true, none⟩ := rfl
  rw [hroot] at hsame
  intro hembeds
  cases hembeds with
  | parent hparent => simp [SymbolTable.parent?, hsame] at hparent
  | classField he hf hfield hty =>
      cases hsame.symm.trans he
      have hscalars : ∀ f ∈ [1, 2], ∃ e, initial.field? f = some e ∧
          (e.ty = .pointer .void ∨ e.ty = .uint32) := by
        simp [initial, SymbolTable.field?, SymbolTable.get?, Symbol.field?]
      obtain ⟨e, he, hscalar⟩ := hscalars _ hf
      obtain ⟨e', he', -, hsameType, -⟩ := hlater.field? he
      cases hfield.symm.trans he'
      rcases hscalar with hscalar | hscalar <;> rw [hsameType, hscalar] at hty <;> cases hty
  | structField he =>
      cases (class?_eq_some_iff.1 hsame).symm.trans (struct?_eq_some_iff.1 he)

/-- **No record contains itself** if each item was checked for it. -/
theorem Settled.contained (h : Settled script ctx)
    (hfree : ∀ item ∈ script.items, item.FreeOfItself ctx) : ctx.symbols.Contained := by
  intro id hcycle
  obtain ⟨inner, hembeds, -⟩ := Relation.TransGen.head'_iff.1 hcycle
  have hrecord : ∃ s, ctx.symbols.get? id = some s ∧ s.IsItem ∧ ∀ e, s ≠ .function e := by
    rcases hembeds.isRecord with ⟨entry, hentry⟩ | ⟨entry, hentry⟩
    · exact ⟨_, class?_eq_some_iff.1 hentry, trivial, by simp⟩
    · exact ⟨_, struct?_eq_some_iff.1 hentry, trivial, by simp⟩
  obtain ⟨s, hs, hitem, hother⟩ := hrecord
  rcases h.source id s hs hitem with rfl | ⟨item, hitem, hid⟩
  · exact h.root_embeds hembeds
  · have hnotFunction : ∀ decl, item ≠ .function decl := by
      rintro decl rfl
      obtain ⟨id', hid', -, e, he, -⟩ := h.filled _ hitem
      cases hid.symm.trans hid'
      exact hother e (Option.some.inj (hs.symm.trans (function?_eq_some_iff.1 he)))
    have hchecked := hfree item hitem hnotFunction id hid
    rw [containsItself_iff_contains.2 hcycle] at hchecked
    cases hchecked

/-- **No record of a script that is resolved without a report contains itself.** -/
theorem Script.contained (hproper : script.Proper) (hclean : script.resolvedContext.Clean) :
    script.resolvedContext.symbols.Contained := by
  have hbodies := FunctionDecl.does_resolveBodies (script.items.flatMap Item.functions)
    (fun decl hdecl => script.proper_functions hproper hdecl) (Script.functions_nodup hproper)
  obtain ⟨hbefore, hresolve⟩ :=
    script.does_resolve_bodies hproper hbodies script.declaredContext _ _ rfl hclean
  obtain ⟨-, houtline⟩ := script.does_declare hproper .initial _ _ rfl hbefore
  obtain ⟨ctx, -, hsettled, hfree, -, hrun⟩ := hresolve (houtline rfl)
  obtain ⟨-, -, hadvances, -⟩ := hrun hsettled.ok hsettled.resolved fun decl hdecl => by
    obtain ⟨item, hitem, hof⟩ := List.mem_flatMap.1 hdecl
    obtain ⟨id, hfilled⟩ := hsettled.filled item hitem
    exact hfilled.function hof
  exact (hsettled.contained hfree).mono fun _ _ => hadvances.storage.embeds

end

/-- **By-value containment is decided exactly.**  For every table and every record, the search
ends, and it tells whether there is a way from the record back to it.  So in an accepted program
no record contains itself, and every class and every struct has one size. -/
theorem compile_containment :
    (∀ (table : SymbolTable) (record : SymbolId),
      (∀ steps, table.searchSteps record ≤ steps →
        table.searchStored record steps [] (table.inlineRecords record).reverse =
          some (table.containsItself record)) ∧
      (table.containsItself record = true ↔ Relation.TransGen table.Embeds record record)) ∧
    ∀ source compiled, compile source = .ok compiled →
      (∀ record, ¬ Relation.TransGen compiled.context.symbols.Embeds record record) ∧
      ∀ rule id,
        ((compiled.context.symbols.class? id).isSome = true →
          ∃! n, compiled.context.symbols.HasSize rule (.classType id) n) ∧
        ((compiled.context.symbols.struct? id).isSome = true →
          ∃! n, compiled.context.symbols.HasSize rule (.structType id) n) := by
  refine ⟨fun table record => ⟨fun steps => searchStored_eq, containsItself_iff_contains⟩,
    fun source compiled h => ?_⟩
  obtain ⟨script, table, haccepted, hclean, hfinished⟩ := finished_of_compile h
  have hproper := haccepted.proper
  have hcontained : compiled.context.symbols.Contained :=
    (script.contained hproper hclean).mono fun _ _ => hfinished.embeds
  have hparents : ∀ id parent, compiled.context.symbols.parent? id = some parent →
      (compiled.context.symbols.class? parent).isSome = true := by
    intro id parent hparent
    rw [hfinished.parent?] at hparent
    exact (hfinished.isClass_iff parent).2
      (Script.isSome_class?_parent (Script.ids_nodup hproper) hparent)
  have hsize : ∀ rule ty, ty.Known compiled.context.symbols →
      ∃! n, compiled.context.symbols.HasSize rule ty n := fun rule ty hknown =>
    hcontained.existsUnique_hasSize haccepted.complete.table hparents rule hknown
  exact ⟨hcontained, fun rule id => ⟨fun hclass => hsize rule (.classType id) hclass,
    fun hstruct => hsize rule (.structType id) hstruct⟩⟩

/-- Structs and classes that store each other in place, and a pointer back. -/
def nestedSource : String :=
  "struct P { int32 x; } class B extends A { P p; } class A { Q q; A* next; } " ++
    "struct Q { P p; B* owner; }"

/-- It is accepted, and has five records. -/
theorem nestedSource_evaluated :
    (match compile nestedSource with
      | .ok compiled => compiled.context.symbols.classIds.length == 3 &&
          compiled.context.symbols.structIds.length == 2
      | .error _ => false) = true := by
  decide +kernel

theorem compile_containment_nested : ∃ compiled, compile nestedSource = .ok compiled ∧
    compiled.context.symbols.classIds.length = 3 ∧ compiled.context.symbols.structIds.length = 2 ∧
    (∀ record, ¬ Relation.TransGen compiled.context.symbols.Embeds record record) ∧
    ∀ rule id,
      ((compiled.context.symbols.class? id).isSome = true →
        ∃! n, compiled.context.symbols.HasSize rule (.classType id) n) ∧
      ((compiled.context.symbols.struct? id).isSome = true →
        ∃! n, compiled.context.symbols.HasSize rule (.structType id) n) := by
  have h := nestedSource_evaluated
  split at h
  · next compiled hcompile =>
      simp only [Bool.and_eq_true, beq_iff_eq] at h
      exact ⟨compiled, hcompile, h.1, h.2, compile_containment.2 nestedSource compiled hcompile⟩
  · cases h

end ClassLang
