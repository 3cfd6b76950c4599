import ClassLang.Proofs.Resolve.Finished
import ClassLang.Proofs.Resolve.Layouts

/-!
# Look-up and dispatch agree

A name is looked up in a class by walking up to the nearest class that has a member of the name.
The slots of a class are filled the other way round, from the root class down.  Both find the
same function (`LayoutOf.mem_dispatch`): a class that declares a function puts it into the slot
of its name, and a class that does not leaves this slot alone.  The other way, what a slot holds
is what its name finds, unless a nearer field hides it (`LayoutOf.nearest`).
-/

namespace ClassLang

namespace SymbolTable

variable {t : SymbolTable} {id f g : SymbolId} {name : String} {layout : ClassLayout}

/-- There is one slot of a name, and it holds a function. -/
def OnlySlot (t : SymbolTable) (slots : List SymbolId) (name : String) (f : SymbolId) : Prop :=
  ∃ i, ∀ (j : Nat) g, slots[j]? = some g ∧ t.name g = name ↔ j = i ∧ g = f

/-- Where names differ, a function has the slot of its name for itself. -/
theorem onlySlot_of_mem {slots : List SymbolId} (hnodup : (slots.map t.name).Nodup) (hf : f ∈ slots)
    (hname : t.name f = name) : t.OnlySlot slots name f := by
  obtain ⟨i, hi⟩ := List.getElem?_of_mem hf
  refine ⟨i, fun j g => ⟨?_, ?_⟩⟩
  · rintro ⟨hj, hg⟩
    obtain rfl : g = f := List.inj_on_of_nodup_map hnodup (List.mem_of_getElem? hj) hf
      (hg.trans hname.symm)
    obtain ⟨hlt, hget⟩ := List.getElem?_eq_some_iff.1 hi
    obtain ⟨hlt', hget'⟩ := List.getElem?_eq_some_iff.1 hj
    exact ⟨(List.Nodup.getElem_inj_iff hnodup.of_map).1 (hget'.trans hget.symm), rfl⟩
  · rintro ⟨rfl, rfl⟩
    exact ⟨hi, hname⟩

/-- **What the slots hold** once functions have been put in: these functions, and what was there
under other names. -/
theorem mem_foldl_dispatchWith_iff {functions slots : List SymbolId}
    (hfunctions : (functions.map t.name).Nodup) (hslots : (slots.map t.name).Nodup) :
    g ∈ functions.foldl t.dispatchWith slots ↔
      g ∈ functions ∨ g ∈ slots ∧ ∀ f ∈ functions, t.name f ≠ t.name g := by
  rw [foldl_dispatchWith hfunctions hslots, List.mem_append]
  constructor
  · rintro (h | h)
    · obtain ⟨slot, hslot, rfl⟩ := List.mem_map.1 h
      by_cases htaken : ∃ f ∈ functions, t.name f = t.name slot
      · obtain ⟨f, hf, hname⟩ := htaken
        rw [slotWith_of_mem hfunctions hf hname]
        exact .inl hf
      · have hfree : ∀ f ∈ functions, t.name f ≠ t.name slot := fun f hf hname =>
          htaken ⟨f, hf, hname⟩
        rw [slotWith_of_forall hfree]
        exact .inr ⟨hslot, hfree⟩
    · exact .inl (List.mem_filter.1 h).1
  · rintro (hg | ⟨hg, hfree⟩)
    · by_cases hmem : t.name g ∈ slots.map t.name
      · obtain ⟨slot, hslot, hname⟩ := List.mem_map.1 hmem
        exact .inl (List.mem_map.2 ⟨slot, hslot, slotWith_of_mem hfunctions hg hname.symm⟩)
      · exact .inr (List.mem_filter.2 ⟨hg, by simpa using hmem⟩)
    · exact .inl (List.mem_map.2 ⟨g, hg, slotWith_of_forall hfree⟩)

/-! ## Own members -/

/-- What a class answers with itself has the name, and is a field or one of its functions. -/
theorem Ok.ownMember?_eq_some (hok : t.Ok) {entry : ClassEntry} (hentry : t.class? id = some entry)
    (h : t.ownMember? id name = some f) :
    t.name f = name ∧ (f ∈ entry.functions ∨ ∃ field, t.field? f = some field) := by
  rw [ownMember?_eq hentry] at h
  refine ⟨by simpa using List.find?_some h, ?_⟩
  rcases List.mem_append.1 (List.mem_of_find?_eq_some h) with hmem | hmem
  · obtain ⟨field, hfield, -⟩ := hok.class_fields hentry hmem
    exact .inr ⟨field, hfield⟩
  · exact .inl hmem

theorem name_ne_of_ownMember?_eq_none {entry : ClassEntry} (hentry : t.class? id = some entry)
    (h : t.ownMember? id name = none) (hg : g ∈ entry.functions) : t.name g ≠ name := by
  rw [ownMember?_eq hentry] at h
  simpa using List.find?_eq_none.1 h g (List.mem_append_right _ hg)

/-! ## Along the ancestors -/

theorem NearestMember.class? (h : t.NearestMember name id f) :
    ∃ entry, t.class? id = some entry := by
  cases h with
  | own hown =>
      obtain ⟨entry, hentry, -⟩ := Option.bind_eq_some_iff.1 hown
      exact ⟨entry, hentry⟩
  | inherited _ hparent =>
      obtain ⟨entry, hentry, -⟩ := Option.bind_eq_some_iff.1 hparent
      exact ⟨entry, hentry⟩

/-- **A function that a name stands for has a slot.** -/
theorem LayoutOf.mem_dispatch (hok : t.Ok) (hdistinct : t.Distinct) (h : t.LayoutOf id layout)
    (hnearest : t.NearestMember name id f) {entry : FunctionEntry}
    (hfunction : t.function? f = some entry) : f ∈ layout.dispatch ∧ t.name f = name := by
  -- An own function goes into its slot, whatever was there.
  have hown : ∀ {id : SymbolId} {e : ClassEntry} {slots : List SymbolId}, t.class? id = some e →
      (slots.map t.name).Nodup → t.ownMember? id name = some f →
      f ∈ e.functions.foldl t.dispatchWith slots ∧ t.name f = name := by
    intro id e slots he hslots hmember
    obtain ⟨hname, hlisted⟩ := hok.ownMember?_eq_some he hmember
    refine ⟨(mem_foldl_dispatchWith_iff (hdistinct id e he) hslots).2 (.inl ?_), hname⟩
    rcases hlisted with hlisted | ⟨field, hfield⟩
    · exact hlisted
    · cases (field?_eq_some_iff.1 hfield).symm.trans (function?_eq_some_iff.1 hfunction)
  induction h with
  | first hentry hparent =>
      cases hnearest with
      | own hmember => exact hown hentry (by simp) hmember
      | inherited _ hp hrest =>
          obtain ⟨e, he⟩ := hrest.class?
          simp only [SymbolTable.parent?, hentry, Option.bind_some] at hp
          cases (hparent _ hp).symm.trans he
  | next hentry hparent hlayout ih =>
      have hslots := hlayout.nodup_dispatch hdistinct
      cases hnearest with
      | own hmember => exact hown hentry hslots hmember
      | inherited hnone hp hrest =>
          simp only [SymbolTable.parent?, hentry, Option.bind_some, hparent,
            Option.some.injEq] at hp
          subst hp
          obtain ⟨hmem, hname⟩ := ih hrest
          refine ⟨(mem_foldl_dispatchWith_iff (hdistinct _ _ hentry) hslots).2
            (.inr ⟨hmem, fun g hg => ?_⟩), hname⟩
          rw [hname]
          exact name_ne_of_ownMember?_eq_none hentry hnone hg

/-- **What a slot holds is what its name stands for**, unless a field hides it. -/
theorem LayoutOf.nearest (hok : t.Ok) (hdistinct : t.Distinct) (h : t.LayoutOf id layout)
    (hg : g ∈ layout.dispatch) :
    ∃ m, t.NearestMember (t.name g) id m ∧ (m = g ∨ ∃ field, t.field? m = some field) := by
  -- A class that declares the function answers with it, or with a field of the name.
  have hown : ∀ {id : SymbolId} {e : ClassEntry}, t.class? id = some e → g ∈ e.functions →
      ∃ m, t.NearestMember (t.name g) id m ∧ (m = g ∨ ∃ field, t.field? m = some field) := by
    intro id e he hmem
    cases hmember : t.ownMember? id (t.name g) with
    | none => exact absurd rfl (name_ne_of_ownMember?_eq_none he hmember hmem)
    | some m =>
        obtain ⟨hname, hlisted⟩ := hok.ownMember?_eq_some he hmember
        exact ⟨m, .own hmember, hlisted.imp_left fun hlisted =>
          List.inj_on_of_nodup_map (hdistinct id e he) hlisted hmem hname⟩
  induction h with
  | first hentry =>
      rcases (mem_foldl_dispatchWith_iff (hdistinct _ _ hentry) (by simp)).1 hg with hg | ⟨hg, -⟩
      · exact hown hentry hg
      · cases hg
  | @next id parent entry layout hentry hparent hlayout ih =>
      have hslots := hlayout.nodup_dispatch hdistinct
      rcases (mem_foldl_dispatchWith_iff (hdistinct _ _ hentry) hslots).1 hg with hg | ⟨hg, hfree⟩
      · exact hown hentry hg
      · cases hmember : t.ownMember? id (t.name g) with
        | none =>
            obtain ⟨m, hnearest, hkind⟩ := ih hg
            exact ⟨m, .inherited hmember (by simp [SymbolTable.parent?, hentry, hparent]) hnearest,
              hkind⟩
        | some m =>
            obtain ⟨hname, hlisted⟩ := hok.ownMember?_eq_some hentry hmember
            refine ⟨m, .own hmember, .inr (hlisted.resolve_left fun hlisted => ?_)⟩
            exact hfree m hlisted hname

end SymbolTable

open SymbolTable

/-- **Look-up and dispatch agree.**  If a name stands for a function in a class of an accepted
program, then the class has one slot of this name, and it holds the function.  And a slot holds
what its name stands for, unless that is a field. -/
theorem compile_dispatch {source : String} {compiled : Compiled}
    (h : compile source = .ok compiled) :
    ∀ id entry, compiled.context.symbols.class? id = some entry →
      ∃ layout, entry.layout = some layout ∧
        (∀ name f function, compiled.context.symbols.member? id name = some f →
          compiled.context.symbols.function? f = some function →
          compiled.context.symbols.OnlySlot layout.dispatch name f) ∧
        ∀ g ∈ layout.dispatch, ∃ m,
          compiled.context.symbols.member? id (compiled.context.symbols.name g) = some m ∧
          (m = g ∨ ∃ field, compiled.context.symbols.field? m = some field) := by
  obtain ⟨script, table, haccepted, hclean, hfinished⟩ := finished_of_compile h
  have hanalysed := script.analysed haccepted.proper hclean
  have hok := hanalysed.ok.table
  have hdistinct : script.resolvedContext.symbols.Distinct := fun id entry hentry =>
    ((Script.declaredIn haccepted.proper hclean).functions hanalysed hentry).1
  intro id entry hentry
  obtain ⟨layout, hlayout, hlays, hcallable⟩ := hfinished.layoutOf hentry
  have hname : ∀ g ∈ layout.dispatch,
      compiled.context.symbols.name g = script.resolvedContext.symbols.name g := by
    intro g hg
    obtain ⟨function, hfunction⟩ := hok.callable_function (hcallable g hg)
    exact hfinished.later.name (lt_size_of_get? (function?_eq_some_iff.1 hfunction))
  refine ⟨layout, hlayout, fun name f function hf hfunction => ?_, fun g hg => ?_⟩
  · have hnearest := (hfinished.member?_eq_some_iff hok hanalysed.acyclic).1 hf
    rw [hfinished.function?] at hfunction
    obtain ⟨hmem, hfname⟩ := hlays.mem_dispatch hok hdistinct hnearest hfunction
    refine onlySlot_of_mem ?_ hmem ((hname f hmem).trans hfname)
    rw [List.map_congr_left hname]
    exact hlays.nodup_dispatch hdistinct
  · obtain ⟨m, hnearest, hkind⟩ := hlays.nearest hok hdistinct hg
    refine ⟨m, (hfinished.member?_eq_some_iff hok hanalysed.acyclic).2 ?_, hkind.imp_right ?_⟩
    · rwa [hname g hg]
    · rintro ⟨field, hfield⟩
      obtain ⟨field', hfield', -⟩ := hfinished.later.field? hfield
      exact ⟨field', hfield'⟩

/-- A class that inherits from one that overrides a function, and hides another one with a
field. -/
def hidingSource : String :=
  "class C extends B { int32 put; int32 last() { return get(); } } " ++
    "class A { int32 n; int32 get() { return n; } void put(int32 k) { n = k; } } " ++
    "class B extends A { void init() { n = 1; } int32 get() { return 2; } }"

/-- The class of number 5 is the first one: there `get` stands for function 22, and `put` for
field 9. -/
theorem hidingSource_evaluated :
    (match compile hidingSource with
      | .ok compiled => (compiled.context.symbols.class? 5).map ClassEntry.name == some "C" &&
          compiled.context.symbols.member? 5 "get" == some 22 &&
          (compiled.context.symbols.function? 22).isSome &&
          compiled.context.symbols.member? 5 "put" == some 9 &&
          (compiled.context.symbols.field? 9).isSome
      | .error _ => false) = true := by
  decide +kernel

theorem compile_dispatch_hiding : ∃ compiled entry layout, compile hidingSource = .ok compiled ∧
    compiled.context.symbols.class? 5 = some entry ∧ entry.name = "C" ∧
    entry.layout = some layout ∧ compiled.context.symbols.member? 5 "get" = some 22 ∧
    compiled.context.symbols.OnlySlot layout.dispatch "get" 22 := by
  have h := hidingSource_evaluated
  split at h
  · next compiled hcompile =>
      simp only [Bool.and_eq_true, beq_iff_eq] at h
      obtain ⟨⟨⟨⟨hname, hget⟩, hfunction⟩, -⟩, -⟩ := h
      obtain ⟨entry, hentry, hname⟩ := Option.map_eq_some_iff.1 hname
      obtain ⟨function, hfunction⟩ := Option.isSome_iff_exists.1 hfunction
      obtain ⟨layout, hlayout, hslot, -⟩ := compile_dispatch hcompile 5 entry hentry
      exact ⟨compiled, entry, layout, hcompile, hentry, hname, hlayout, hget,
        hslot "get" 22 function hget hfunction⟩
  · cases h

end ClassLang
