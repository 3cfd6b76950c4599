import ClassLang.Proofs.Accepted
import ClassLang.Proofs.Resolve.Lookup
import ClassLang.Proofs.Symbol.Containment
import ClassLang.Proofs.Symbol.Arrangement

/-!
# The finished table

Behind resolution a table is laid out, and then string literals get storage.  Neither changes
what classes, structs and functions are: `SymbolTable.FinishedAs` relates the table behind
resolution to the one in the end, and says what can be carried over.
-/

namespace ClassLang

namespace SymbolTable

variable {t table final : SymbolTable} {id g : SymbolId} {name : String} {layout : ClassLayout}

theorem Dressed.ownMember? (h : t.Dressed table) (id : SymbolId) (name : String) :
    table.ownMember? id name = t.ownMember? id name := by
  cases hentry : table.class? id with
  | none =>
      have hnone : t.class? id = none := by
        simpa [hentry] using (h.isClass_iff id).not.symm
      simp [SymbolTable.ownMember?, hentry, hnone]
  | some e => simp [SymbolTable.ownMember?, hentry, h.class? hentry, h.name]

/-- A table is laid out, and then it gets storage. -/
structure FinishedAs (t table final : SymbolTable) : Prop where
  arranged : t.Arranged table
  laidOut : t.LaidOut table
  storage : table.AddsStorage final

section

variable (h : t.FinishedAs table final)

include h

theorem FinishedAs.later : t.Later final :=
  h.arranged.toDressed.extend.later.trans h.storage.extend.later

theorem FinishedAs.parent? (id : SymbolId) : final.parent? id = t.parent? id :=
  (h.storage.parent? id).trans (h.arranged.toDressed.parent? id)

theorem FinishedAs.function? (id : SymbolId) : final.function? id = t.function? id :=
  (h.storage.function? id).trans (h.arranged.toDressed.function? id)

theorem FinishedAs.isClass_iff (id : SymbolId) :
    (final.class? id).isSome = true ↔ (t.class? id).isSome = true := by
  rw [h.storage.class?]
  exact h.arranged.isClass_iff id

theorem FinishedAs.embeds {record : SymbolId} (hembeds : final.Embeds id record) :
    t.Embeds id record :=
  h.arranged.toDressed.embeds (h.storage.embeds hembeds)

theorem FinishedAs.ownMember? (hok : t.Ok) (id : SymbolId) (name : String) :
    final.ownMember? id name = t.ownMember? id name :=
  (h.storage.ownMember? (h.arranged.toDressed.ok hok) id name).trans
    (h.arranged.toDressed.ownMember? id name)

/-- A name stands for the same members. -/
theorem FinishedAs.member?_eq_some_iff (hok : t.Ok) (hacyclic : t.Acyclic) {member : SymbolId} :
    final.member? id name = some member ↔ t.NearestMember name id member := by
  rw [SymbolTable.member?_eq_some_iff (hacyclic.congr h.parent?)]
  constructor
  · exact fun hnearest => hnearest.congr (fun id => (h.ownMember? hok id name).symm)
      fun id => (h.parent? id).symm
  · exact fun hnearest => hnearest.congr (fun id => h.ownMember? hok id name) h.parent?

/-- The layout of a class in the end. -/
theorem FinishedAs.layoutOf {entry : ClassEntry} (hentry : final.class? id = some entry) :
    ∃ layout, entry.layout = some layout ∧ t.LayoutOf id layout ∧
      ∀ g ∈ layout.dispatch, t.Callable g := by
  rw [h.storage.class?] at hentry
  obtain ⟨layout, hlayout⟩ := Option.isSome_iff_exists.1
    (h.laidOut.classes id ((h.arranged.isClass_iff id).1 (by simp [hentry])))
  have hsome : entry.layout = some layout := by simpa [layout?, hentry] using hlayout
  obtain ⟨-, hcallable, -⟩ := h.laidOut.laid.layouts id entry layout hentry hsome
  exact ⟨layout, hsome, h.arranged.layouts id layout hlayout, hcallable⟩

/-- Classes store their fields in order in the end. -/
theorem FinishedAs.order (hid : (final.class? id).isSome = true) : t.Order id (final.slots id) := by
  obtain ⟨entry, hentry⟩ := Option.isSome_iff_exists.1 hid
  have hentry' : table.class? id = some entry := (h.storage.class? id).symm.trans hentry
  have hslots : final.slots id = table.slots id := by
    rw [SymbolTable.slots, SymbolTable.slots, class?_eq_some_iff.1 hentry,
      class?_eq_some_iff.1 hentry']
  rw [hslots]
  exact (h.laidOut.order ((h.isClass_iff id).1 hid)).1

/-- **A class stores the fields of its ancestors first**, in the order in which they do. -/
theorem FinishedAs.slots_isPrefix {ancestor : SymbolId} (hinherits : final.Inherits id ancestor)
    (hancestor : (final.class? ancestor).isSome = true) :
    final.slots ancestor <+: final.slots id := by
  have hinherits' : t.Inherits id ancestor :=
    Relation.ReflTransGen.mono (fun a _ hab => (h.parent? a).symm.trans hab) _ _ hinherits
  obtain ⟨inherited, horder, hprefix⟩ :=
    (h.order (hinherits.isClass hancestor)).isPrefix hinherits'
      ((h.isClass_iff ancestor).1 hancestor)
  rwa [horder.unique (h.order hancestor)]

end

end SymbolTable

/-- What was resolved without an error is laid out, and then its literals get storage. -/
theorem laid_of_compile {source : String} {compiled : Compiled}
    (h : compile source = .ok compiled) : ∃ (script : Script) (laid : Context),
      Accepted source script compiled ∧ script.resolvedContext.Clean ∧
      script.resolvedContext.symbols.Arranged laid.symbols ∧
      script.resolvedContext.symbols.LaidOut laid.symbols ∧
      compiled.context = laid.internLiterals script := by
  obtain ⟨script, laid, haccepted, hclean, hlaid, hcompiled⟩ := resolved_of_compile h
  have hanalysed := script.analysed haccepted.proper hclean
  obtain ⟨table, heq, hlaidOut⟩ :=
    SymbolTable.finalizeLayouts_eq hanalysed.ok.table hanalysed.unlaid hanalysed.acyclic
  obtain rfl : laid = { script.resolvedContext with symbols := table } := by
    simpa [Context.layOut, heq] using hlaid.symm
  exact ⟨script, _, haccepted, hclean,
    SymbolTable.LaidOut.arranged hanalysed.unlaid hanalysed.acyclic heq, hlaidOut, hcompiled⟩

/-- What is known about the table of an accepted program: it is the one behind resolution,
finished. -/
theorem finished_of_compile {source : String} {compiled : Compiled}
    (h : compile source = .ok compiled) : ∃ script table, Accepted source script compiled ∧
      script.resolvedContext.Clean ∧
      script.resolvedContext.symbols.FinishedAs table compiled.context.symbols := by
  obtain ⟨script, laid, haccepted, hclean, harranged, hlaidOut, hcompiled⟩ := laid_of_compile h
  refine ⟨script, laid.symbols, haccepted, hclean, ⟨harranged, hlaidOut, ?_⟩⟩
  rw [hcompiled]
  exact (Context.interns_internLiterals _ script).storage

end ClassLang
