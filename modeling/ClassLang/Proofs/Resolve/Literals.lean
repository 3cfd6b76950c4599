import ClassLang.Proofs.Resolve.Finished
import ClassLang.Proofs.Resolve.Lineage
import ClassLang.Proofs.Syntax.Texts

/-!
# The storage of string literals

String literals get their storage last, behind resolution and layout, in a table that is full of
other symbols by then.  None of those is a string literal, whatever was reported on the way
(`Script.textless_resolvedContext`).  So interning starts with no literals, and what it keeps is
that the literals of the table are the texts so far, each one once and numbered by its first
occurrence (`SymbolTable.literals_intern`).
-/

namespace ClassLang

open Analysis

namespace SymbolTable

variable {t t' : SymbolTable} {id : SymbolId}

/-! ## Tables without string literals -/

/-- No symbol is a string literal. -/
def Textless (t : SymbolTable) : Prop := ∀ id, t.literal? id = none

theorem textless_initial : initial.Textless := by
  intro id
  cases hentry : initial.literal? id with
  | none => rfl
  | some entry =>
      have hget := literal?_eq_some_iff.1 hentry
      have hlt : id < 5 := lt_size_of_get? hget
      match id, hlt with
      | 0, _ | 1, _ | 2, _ | 3, _ | 4, _ => cases hget

theorem Textless.add (h : t.Textless) {s : Symbol} (hs : s.literal? = none) :
    (t.add s).Textless := by
  intro id
  rw [literal?, get?_add]
  split
  · exact hs
  · exact h id

theorem Textless.modify (h : t.Textless) {f : Symbol → Symbol}
    (hf : ∀ s, s.literal? = none → (f s).literal? = none) : (t.modify id f).Textless := by
  intro other
  have hother := h other
  rw [literal?] at hother
  rw [literal?, get?_modify]
  split
  · cases hs : t.get? other with
    | none => rfl
    | some s =>
        rw [hs] at hother
        exact hf s hother
  · exact hother

theorem Edit.textless (h : Edit t t') (ht : t.Textless) : t'.Textless := by
  cases h with
  | add _ hliteral => exact ht.add hliteral
  | field | function | replace => exact ht.modify fun s hs => by cases s <;> exact hs
  | sign => exact ht.modify fun _ _ => rfl

/-- **Edits add no string literal.** -/
theorem Edits.textless (h : t.Edits t') (ht : t.Textless) : t'.Textless := by
  induction h with
  | refl => exact ht
  | tail _ hstep ih => exact hstep.textless ih

/-- Layouts add no string literal. -/
theorem Dressed.textless (h : t.Dressed t') (ht : t.Textless) : t'.Textless := by
  intro id
  cases hentry : t'.literal? id with
  | none => rfl
  | some entry =>
      have hsame := h.same id
      rw [literal?_eq_some_iff.1 hentry] at hsame
      cases (literal?_eq_some_iff.2 hsame.symm).symm.trans (ht id)

end SymbolTable

/-- No item is a string literal, whether its name is taken or not. -/
theorem Item.textless_declareAll (items : List Item) :
    Always (Item.declareAll items) fun ctx _ ctx' =>
      ctx.symbols.Textless → ctx'.symbols.Textless := by
  induction items with
  | nil => exact fun _ h => h
  | cons item rest ih =>
      intro ctx h
      have hstep : (item.declare.run ctx).2.symbols.Textless := by
        rcases item.always_declare ctx with ⟨hsymbols, -⟩ | ⟨hsymbols, -⟩
        · rw [hsymbols]
          exact h
        · rw [hsymbols]
          exact h.add (by cases item <;> rfl)
      exact ih (item.declare.run ctx).2 hstep

theorem ClassDecl.textless_bindParent (decl : ClassDecl) :
    Always decl.bindParent fun ctx _ ctx' =>
      ctx.symbols.Textless → ctx'.symbols.Textless := by
  intro ctx h
  cases hsymbol : ctx.bindings.symbol? decl.id with
  | none =>
      rw [decl.run_bindParent_of_none hsymbol]
      exact h
  | some id =>
      rw [decl.run_bindParent hsymbol, (decl.always_resolveParent id ctx).1]
      exact h.modify fun s hs => by cases s <;> exact hs

/-- **Resolution leaves no string literal in the table**, whatever it reports. -/
theorem Script.textless_resolvedContext (script : Script) :
    script.resolvedContext.symbols.Textless := by
  have hdeclared : script.declaredContext.symbols.Textless :=
    Item.textless_declareAll script.items .initial SymbolTable.textless_initial
  refine script.edits_resolvedContext.textless ?_
  unfold parentedContext
  generalize script.declaredContext = ctx at hdeclared
  induction script.classes generalizing ctx with
  | nil => exact hdeclared
  | cons decl rest ih => exact ih _ (decl.textless_bindParent ctx hdeclared)

/-! ## Interning -/

namespace SymbolTable

variable {t : SymbolTable} {id : SymbolId}

/-- The string literals of a table, in the order of their symbols. -/
def literals (t : SymbolTable) : List LiteralEntry := t.symbols.filterMap Symbol.literal?

theorem filterMap_literalIds (t : SymbolTable) :
    t.literalIds.filterMap t.literal? = t.literals := by
  have hsymbols : t.symbols = t.symbols.zipIdx.map Prod.fst :=
    (List.zipIdx_map_fst 0 t.symbols).symm
  rw [literalIds, idsWhere, literals, hsymbols, List.filterMap_map, List.filterMap_filter,
    List.filterMap_map, ← hsymbols]
  refine List.filterMap_congr fun pair hpair => ?_
  obtain ⟨s, id⟩ := pair
  have hget : t.get? id = some s := List.mem_zipIdx_iff_getElem?.1 hpair
  cases hs : s.literal? <;> simp [literal?, hget, hs]

theorem mem_literals {entry : LiteralEntry} :
    entry ∈ t.literals ↔ ∃ id, t.literal? id = some entry := by
  constructor
  · intro h
    obtain ⟨s, hs, hliteral⟩ := List.mem_filterMap.1 h
    obtain ⟨id, hget⟩ := List.mem_iff_getElem?.1 hs
    exact ⟨id, by simp [literal?, get?, hget, hliteral]⟩
  · rintro ⟨id, hid⟩
    have hget := literal?_eq_some_iff.1 hid
    exact List.mem_filterMap.2 ⟨_, List.mem_iff_getElem?.2 ⟨id, hget⟩, rfl⟩

/-- A literal that is added is the last one. -/
theorem literals_add (t : SymbolTable) (entry : LiteralEntry) :
    (t.add (.literal entry)).literals = t.literals ++ [entry] := by
  simp [literals, add, Symbol.literal?]

theorem mem_literalIds : id ∈ t.literalIds ↔ ∃ entry, t.literal? id = some entry := by
  rw [literalIds, mem_idsWhere, literal?]
  cases t.get? id <;> simp [Option.isSome_iff_exists]

theorem length_literalIds (t : SymbolTable) : t.literalIds.length = t.literals.length := by
  rw [← filterMap_literalIds, List.length_filterMap_eq_countP, eq_comm, List.countP_eq_length]
  intro id hid
  obtain ⟨entry, hentry⟩ := mem_literalIds.1 hid
  simp [hentry]

/-- The storage that is found for a text holds it. -/
theorem literalFor?_eq_some {text : String} (h : t.literalFor? text = some id) :
    text ∈ t.literals.map LiteralEntry.text := by
  have htext := List.find?_some h
  cases hentry : t.literal? id with
  | none => simp [hentry] at htext
  | some entry =>
      rw [hentry] at htext
      exact List.mem_map.2 ⟨entry, mem_literals.2 ⟨id, hentry⟩, by simpa using htext⟩

/-- Where no storage is found, no literal holds the text. -/
theorem literalFor?_eq_none {text : String} (h : t.literalFor? text = none) :
    text ∉ t.literals.map LiteralEntry.text := by
  intro hmem
  obtain ⟨entry, hentry, htext⟩ := List.mem_map.1 hmem
  obtain ⟨id, hid⟩ := mem_literals.1 hentry
  have hother := List.find?_eq_none.1 h id (mem_literalIds.2 ⟨entry, hid⟩)
  simp [hid, htext] at hother

theorem Textless.literals (h : t.Textless) : t.literals = [] := by
  refine List.eq_nil_iff_forall_not_mem.2 fun entry hentry => ?_
  obtain ⟨id, hid⟩ := mem_literals.1 hentry
  cases (h id).symm.trans hid

/-- Texts as the string literals of a table: each one has the number of those before it. -/
def numbered (texts : List String) : List LiteralEntry := texts.mapIdx fun i text => ⟨text, i⟩

theorem map_numbered {α : Type} (f : LiteralEntry → α) (texts : List String) :
    (numbered texts).map f = texts.mapIdx fun i text => f ⟨text, i⟩ := by
  refine List.ext_getElem? fun i => ?_
  simp [numbered, Function.comp_def]

/-- **One more text**: it gets the next number, unless it has one. -/
theorem literals_intern {texts : List String} (h : t.literals = numbered texts.eraseDups)
    (text : String) : (t.intern text).2.literals = numbered (texts ++ [text]).eraseDups := by
  have htexts : t.literals.map LiteralEntry.text = texts.eraseDups := by
    rw [h, map_numbered]
    exact List.ext_getElem? fun i => by simp
  rw [List.eraseDups_append]
  unfold intern
  split
  · next id hfound =>
      have hmem : text ∈ texts := by
        rw [← List.mem_eraseDups, ← htexts]
        exact literalFor?_eq_some hfound
      simp [List.removeAll, hmem, h]
  · next hnone =>
      have hnew : text ∉ texts := by
        rw [← List.mem_eraseDups, ← htexts]
        exact literalFor?_eq_none hnone
      have hlast : [text].removeAll texts = [text] := by simp [List.removeAll, hnew]
      have hindex : t.literalIds.length = texts.eraseDups.length := by
        rw [length_literalIds, ← htexts, List.length_map]
      rw [literals_add, h, hindex, hlast, List.eraseDups_cons]
      simp [numbered, List.mapIdx_concat]

end SymbolTable

/-- **All texts of a script**, one after the other. -/
theorem Context.literals_internLiterals {ctx : Context} (script : Script)
    (h : ctx.symbols.Textless) : (ctx.internLiterals script).symbols.literals =
      SymbolTable.numbered (script.stringLiterals.map Prod.snd).eraseDups := by
  -- The texts so far are those in front of the list that is left.
  suffices hrun : ∀ before : List String,
      ctx.symbols.literals = SymbolTable.numbered before.eraseDups →
      (ctx.internLiterals script).symbols.literals =
        SymbolTable.numbered (before ++ script.stringLiterals.map Prod.snd).eraseDups from
    hrun [] h.literals
  clear h
  unfold internLiterals
  generalize script.stringLiterals = left
  induction left generalizing ctx with
  | nil =>
      intro before h
      simpa using h
  | cons literal rest ih =>
      intro before h
      obtain ⟨node, text⟩ := literal
      have hstep := SymbolTable.literals_intern h text
      simpa using @ih (ctx.internLiteral node text) (before ++ [text]) hstep

/-- The texts of a script are those of its functions. -/
theorem Script.texts_functions (script : Script) :
    script.texts = (script.items.flatMap Item.functions).flatMap FunctionDecl.texts :=
  script.filterMap_visits Visit.text? (fun _ => rfl) (fun _ => rfl) fun _ => rfl

/-- **The string literals of an accepted source** are its texts, each one once and numbered by its
first occurrence. -/
theorem literals_of_compile {source : String} {compiled : Compiled}
    (h : compile source = .ok compiled) : ∃ script, Accepted source script compiled ∧
      compiled.context.symbols.literals =
        SymbolTable.numbered (sourceTexts source).eraseDups := by
  obtain ⟨script, laid, haccepted, -, harranged, -, hcompiled⟩ := laid_of_compile h
  refine ⟨script, haccepted, ?_⟩
  rw [hcompiled, ← Script.texts_eq haccepted.parse_eq, script.texts_eq_literals]
  exact Context.literals_internLiterals script
    (harranged.toDressed.textless script.textless_resolvedContext)

end ClassLang
