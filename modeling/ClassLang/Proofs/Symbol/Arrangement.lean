import Mathlib.Data.List.Nodup
import ClassLang.Proofs.Symbol.Layout

/-!
# Layouts are put on top of each other

A class puts its fields behind those of its parent.  Its functions go into the slots of the
parent that have their names, and behind the last slot if there is none.  `LayoutOf` describes
the layout that a class gets in this way, and `PutsOn` says what it has in common with the
layout of the parent: a place that exists in the parent exists in the class and means the same
there.

`foldl_dispatchWith` says at once what filling slots one after the other comes to.
-/

namespace ClassLang

namespace SymbolTable

variable {t table : SymbolTable} {id parent : SymbolId} {layout : ClassLayout}

/-! ## Slots -/

/-- A function takes the slot of its name. -/
theorem dispatchWith_of_mem {slots : List SymbolId} {g : SymbolId}
    (h : t.name g ∈ slots.map t.name) (hnodup : (slots.map t.name).Nodup) :
    t.dispatchWith slots g = slots.map fun s => if t.name s = t.name g then g else s := by
  unfold dispatchWith
  obtain ⟨slot, hslot, hname⟩ := List.mem_map.1 h
  cases hfind : slots.findIdx? fun s => t.name s == t.name g with
  | none =>
      have hnone := List.findIdx?_eq_none_iff.1 hfind slot hslot
      simp [hname] at hnone
  | some index =>
      obtain ⟨hlt, hfound, -⟩ := List.findIdx?_eq_some_iff_getElem.1 hfind
      have hfound' : t.name slots[index] = t.name g := by simpa using hfound
      refine List.ext_getElem (by simp) fun i hi hi' => ?_
      simp only [List.length_set] at hi
      rw [List.getElem_map]
      by_cases heq : index = i
      · subst heq
        simp [hfound']
      · -- Another slot has another name.
        have hother : t.name slots[i] ≠ t.name g := by
          intro hsame
          have helem : slots[index] = slots[i] := List.inj_on_of_nodup_map hnodup
            (List.getElem_mem hlt) (List.getElem_mem hi) (hfound'.trans hsame.symm)
          exact heq ((List.Nodup.getElem_inj_iff hnodup.of_map).1 helem)
        rw [List.getElem_set_ne heq, if_neg hother]

/-- A function of a new name gets a slot behind the others. -/
theorem dispatchWith_of_not_mem {slots : List SymbolId} {g : SymbolId}
    (h : t.name g ∉ slots.map t.name) : t.dispatchWith slots g = slots ++ [g] := by
  unfold dispatchWith
  cases hfind : slots.findIdx? fun s => t.name s == t.name g with
  | none => rfl
  | some index =>
      obtain ⟨hlt, hfound, -⟩ := List.findIdx?_eq_some_iff_getElem.1 hfind
      refine absurd (List.mem_map.2 ⟨slots[index], List.getElem_mem hlt, ?_⟩) h
      simpa using hfound

/-- What a slot holds once functions have been put in. -/
def slotWith (t : SymbolTable) (functions : List SymbolId) (slot : SymbolId) : SymbolId :=
  (functions.find? fun g => t.name g == t.name slot).getD slot

/-- The functions whose names have no slot yet. -/
def newSlots (t : SymbolTable) (functions slots : List SymbolId) : List SymbolId :=
  functions.filter fun g => !(slots.map t.name).contains (t.name g)

theorem name_slotWith (functions : List SymbolId) (slot : SymbolId) :
    t.name (t.slotWith functions slot) = t.name slot := by
  unfold slotWith
  cases hfind : functions.find? fun g => t.name g == t.name slot with
  | none => rfl
  | some g => simpa using List.find?_some hfind

theorem slotWith_of_mem {functions : List SymbolId} (hnodup : (functions.map t.name).Nodup)
    {g slot : SymbolId} (hg : g ∈ functions) (hname : t.name g = t.name slot) :
    t.slotWith functions slot = g := by
  have hfound := name_slotWith (t := t) functions slot
  unfold slotWith at hfound ⊢
  cases hfind : functions.find? fun g => t.name g == t.name slot with
  | none =>
      have hnone := List.find?_eq_none.1 hfind g hg
      simp [hname] at hnone
  | some other =>
      rw [hfind, Option.getD_some] at hfound
      exact List.inj_on_of_nodup_map hnodup (List.mem_of_find?_eq_some hfind) hg
        (hfound.trans hname.symm)

theorem slotWith_of_forall {functions : List SymbolId} {slot : SymbolId}
    (h : ∀ g ∈ functions, t.name g ≠ t.name slot) : t.slotWith functions slot = slot := by
  unfold slotWith
  rw [List.find?_eq_none.2 (by simpa using h)]
  rfl

/-- **Filling slots one after the other**: every slot holds the function of its name, if there is
one, and the other functions come behind, in order. -/
theorem foldl_dispatchWith {functions slots : List SymbolId}
    (hfunctions : (functions.map t.name).Nodup) (hslots : (slots.map t.name).Nodup) :
    functions.foldl t.dispatchWith slots =
      slots.map (t.slotWith functions) ++ t.newSlots functions slots := by
  induction functions generalizing slots with
  | nil =>
      have hsame : slots.map (t.slotWith []) = slots := List.map_id'' (fun _ => rfl) slots
      simp [hsame, newSlots]
  | cons g rest ih =>
      rw [List.map_cons, List.nodup_cons] at hfunctions
      obtain ⟨hnew, hrest⟩ := hfunctions
      have hapart : ∀ f ∈ rest, t.name f ≠ t.name g := fun f hf heq =>
        hnew (List.mem_map.2 ⟨f, hf, heq⟩)
      have hg : t.slotWith rest g = g := slotWith_of_forall hapart
      rw [List.foldl_cons]
      by_cases hmem : t.name g ∈ slots.map t.name
      · have hnames : (slots.map fun s => if t.name s = t.name g then g else s).map t.name =
            slots.map t.name := by
          rw [List.map_map]
          refine List.map_congr_left fun s _ => ?_
          by_cases heq : t.name s = t.name g <;> simp [heq]
        rw [dispatchWith_of_mem hmem hslots, ih hrest (by rwa [hnames]), newSlots, newSlots, hnames,
          List.map_map]
        congr 1
        · refine List.map_congr_left fun s _ => ?_
          by_cases heq : t.name s = t.name g
          · have hthis : t.slotWith (g :: rest) s = g := by simp [slotWith, heq]
            rw [Function.comp_apply, if_pos heq, hg, hthis]
          · have hne : (t.name g == t.name s) = false := by simpa using Ne.symm heq
            simp [heq, slotWith, hne]
        · have htaken : (slots.map t.name).contains (t.name g) = true := by simpa using hmem
          rw [List.filter_cons, htaken]
          rfl
      · have hslots' : ((slots ++ [g]).map t.name).Nodup := by
          rw [List.map_append, List.nodup_append]
          refine ⟨hslots, by simp, fun a ha b hb heq => hmem ?_⟩
          obtain rfl : b = t.name g := by simpa using hb
          exact heq ▸ ha
        rw [dispatchWith_of_not_mem hmem, ih hrest hslots', List.map_append, List.append_assoc]
        congr 1
        · refine List.map_congr_left fun s hs => ?_
          have hne : (t.name g == t.name s) = false := by
            simpa using fun heq => hmem (List.mem_map.2 ⟨s, hs, Eq.symm heq⟩)
          simp [slotWith, hne]
        · have hfurther : t.newSlots rest (slots ++ [g]) = t.newSlots rest slots := by
            refine List.filter_congr fun f hf => ?_
            simp [hapart f hf]
          have hself : t.newSlots (g :: rest) slots = g :: t.newSlots rest slots := by
            have hfree : (slots.map t.name).contains (t.name g) = false := by simpa using hmem
            rw [newSlots, List.filter_cons, hfree]
            rfl
          rw [hself, hfurther, List.map_singleton, hg]
          rfl

/-- Slots of different names stay so. -/
theorem nodup_foldl_dispatchWith {functions slots : List SymbolId}
    (hfunctions : (functions.map t.name).Nodup) (hslots : (slots.map t.name).Nodup) :
    ((functions.foldl t.dispatchWith slots).map t.name).Nodup := by
  have hkept : (slots.map (t.slotWith functions)).map t.name = slots.map t.name := by
    rw [List.map_map]
    exact List.map_congr_left fun s _ => name_slotWith functions s
  rw [foldl_dispatchWith hfunctions hslots, List.map_append, hkept, List.nodup_append]
  refine ⟨hslots, hfunctions.sublist (List.filter_sublist.map _), fun a ha b hb heq => ?_⟩
  obtain ⟨g, hg, rfl⟩ := List.mem_map.1 hb
  have hfree := (List.mem_filter.1 hg).2
  rw [Bool.not_eq_true', List.contains_eq_mem] at hfree
  simp only [decide_eq_false_iff_not] at hfree
  exact hfree (heq ▸ ha)

/-! ## Layouts -/

/-- The layout that a class gets on top of its parent's. -/
inductive LayoutOf (t : SymbolTable) : SymbolId → ClassLayout → Prop
  | first {id : SymbolId} {entry : ClassEntry} (h : t.class? id = some entry)
      (hparent : ∀ parent ∈ entry.parent, t.class? parent = none) :
      LayoutOf t id (t.extendLayout entry {})
  | next {id parent : SymbolId} {entry : ClassEntry} {layout : ClassLayout}
      (h : t.class? id = some entry) (hparent : entry.parent = some parent)
      (hrest : LayoutOf t parent layout) : LayoutOf t id (t.extendLayout entry layout)

theorem LayoutOf.class? (h : t.LayoutOf id layout) : ∃ entry, t.class? id = some entry := by
  cases h with
  | first hentry => exact ⟨_, hentry⟩
  | next hentry => exact ⟨_, hentry⟩

/-- A class gets one layout only. -/
theorem LayoutOf.unique {layout' : ClassLayout} (h : t.LayoutOf id layout)
    (h' : t.LayoutOf id layout') : layout' = layout := by
  induction h generalizing layout' with
  | first hentry hparent =>
      cases h' with
      | first hentry' => cases hentry.symm.trans hentry'; rfl
      | next hentry' hparent' hrest' =>
          cases hentry.symm.trans hentry'
          obtain ⟨e, he⟩ := hrest'.class?
          cases (hparent _ hparent').symm.trans he
  | next hentry hparent hrest ih =>
      cases h' with
      | first hentry' hparent' =>
          cases hentry.symm.trans hentry'
          obtain ⟨e, he⟩ := hrest.class?
          cases (hparent' _ hparent).symm.trans he
      | next hentry' hparent' hrest' =>
          cases hentry.symm.trans hentry'
          cases hparent.symm.trans hparent'
          rw [ih hrest']

/-- The fields of a layout are declared by the class or by one that it inherits from. -/
theorem LayoutOf.field (h : t.LayoutOf id layout) {f : SymbolId} (hf : f ∈ layout.fields) :
    ∃ owner entry, t.Inherits id owner ∧ t.class? owner = some entry ∧ f ∈ entry.fields := by
  induction h with
  | @first id entry hentry =>
      refine ⟨id, entry, .refl, hentry, ?_⟩
      simpa [extendLayout] using hf
  | @next id parent entry layout hentry hparent _ ih =>
      rcases List.mem_append.1 hf with hf | hf
      · obtain ⟨owner, e, hinherits, he, hmem⟩ := ih hf
        refine ⟨owner, e, .head ?_ hinherits, he, hmem⟩
        simp [SymbolTable.parent?, hentry, hparent]
      · exact ⟨id, entry, .refl, hentry, hf⟩

/-- No two functions of a class have one name. -/
def Distinct (t : SymbolTable) : Prop :=
  ∀ id entry, t.class? id = some entry → (entry.functions.map t.name).Nodup

/-- **No field occurs twice**: what is inherited belongs to another class. -/
theorem LayoutOf.nodup_fields (hok : t.Ok) (hacyclic : t.Acyclic) (h : t.LayoutOf id layout) :
    layout.fields.Nodup := by
  induction h with
  | first hentry =>
      have hown := (hok _ _ (class?_eq_some_iff.1 hentry)).1
      simpa [extendLayout] using hown
  | @next id parent entry layout hentry hparent hrest ih =>
      have hown := (hok _ _ (class?_eq_some_iff.1 hentry)).1
      refine List.nodup_append.2 ⟨ih, hown, fun f hf g hg heq => ?_⟩
      subst heq
      obtain ⟨owner, e, hinherits, he, hmem⟩ := hrest.field hf
      obtain ⟨field, hfield, howner⟩ := hok.class_fields he hmem
      obtain ⟨field', hfield', howner'⟩ := hok.class_fields hentry hg
      cases hfield.symm.trans hfield'
      have hstep : t.parent? id = some parent := by simp [SymbolTable.parent?, hentry, hparent]
      have hcycle : Relation.TransGen t.Extending id owner := .head' hstep hinherits
      exact hacyclic id (howner'.symm.trans howner ▸ hcycle)

/-- **No name has two slots.** -/
theorem LayoutOf.nodup_dispatch (hdistinct : t.Distinct) (h : t.LayoutOf id layout) :
    (layout.dispatch.map t.name).Nodup := by
  induction h with
  | first hentry => exact nodup_foldl_dispatchWith (hdistinct _ _ hentry) (by simp)
  | next hentry hparent hrest ih => exact nodup_foldl_dispatchWith (hdistinct _ _ hentry) ih

/-- Every function that a class declares has a slot of its name. -/
theorem LayoutOf.mem_names (hdistinct : t.Distinct) (h : t.LayoutOf id layout) {entry : ClassEntry}
    (hentry : t.class? id = some entry) {g : SymbolId} (hg : g ∈ entry.functions) :
    t.name g ∈ layout.dispatch.map t.name := by
  have hslots : ∀ slots, (slots.map t.name).Nodup →
      t.name g ∈ (entry.functions.foldl t.dispatchWith slots).map t.name := by
    intro slots hnodup
    rw [foldl_dispatchWith (hdistinct id entry hentry) hnodup, List.map_append, List.mem_append]
    by_cases hmem : t.name g ∈ slots.map t.name
    · obtain ⟨slot, hslot, hname⟩ := List.mem_map.1 hmem
      exact .inl (List.mem_map.2 ⟨_, List.mem_map_of_mem hslot, (name_slotWith _ _).trans hname⟩)
    · exact .inr (List.mem_map_of_mem (List.mem_filter.2 ⟨hg, by simpa using hmem⟩))
  cases h with
  | first hentry' =>
      cases hentry.symm.trans hentry'
      exact hslots [] (by simp)
  | next hentry' hparent hrest =>
      cases hentry.symm.trans hentry'
      exact hslots _ (hrest.nodup_dispatch hdistinct)

/-- How the layout of a class is put on the layout of its parent: every place that was there
stays, and means the same. -/
structure PutsOn (t : SymbolTable) (entry : ClassEntry) (parent layout : ClassLayout) : Prop where
  /-- The fields of the parent come first, and then the own fields. -/
  fields : layout.fields = parent.fields ++ entry.fields
  /-- The slots of the parent keep their names and their order. -/
  names : (layout.dispatch.take parent.dispatch.length).map t.name = parent.dispatch.map t.name
  /-- An own function takes over the slot of its name. -/
  own : ∀ (i : Nat) slot g, parent.dispatch[i]? = some slot → g ∈ entry.functions →
    t.name g = t.name slot → layout.dispatch[i]? = some g
  /-- Every other slot holds what it holds in the parent. -/
  inherited : ∀ (i : Nat) slot, parent.dispatch[i]? = some slot →
    (∀ g ∈ entry.functions, t.name g ≠ t.name slot) → layout.dispatch[i]? = some slot
  /-- Behind the slots of the parent come the own functions of new names, in order. -/
  further : layout.dispatch.drop parent.dispatch.length = entry.functions.filter fun g =>
    !(parent.dispatch.map t.name).contains (t.name g)

/-- **What a class adds leaves the places of its parent alone.** -/
theorem putsOn_extendLayout {entry : ClassEntry} {parent : ClassLayout}
    (hfunctions : (entry.functions.map t.name).Nodup)
    (hslots : (parent.dispatch.map t.name).Nodup) :
    t.PutsOn entry parent (t.extendLayout entry parent) := by
  have hdispatch : (t.extendLayout entry parent).dispatch =
      parent.dispatch.map (t.slotWith entry.functions) ++
        t.newSlots entry.functions parent.dispatch :=
    foldl_dispatchWith hfunctions hslots
  have hlength : (parent.dispatch.map (t.slotWith entry.functions)).length =
      parent.dispatch.length := List.length_map _
  have hslot : ∀ (i : Nat) slot, parent.dispatch[i]? = some slot →
      (t.extendLayout entry parent).dispatch[i]? = some (t.slotWith entry.functions slot) := by
    intro i slot hi
    have hlt : i < parent.dispatch.length := (List.getElem?_eq_some_iff.1 hi).1
    rw [hdispatch, List.getElem?_append_left (by rwa [hlength]), List.getElem?_map, hi]
    rfl
  constructor
  · rfl
  · rw [hdispatch, List.take_left' hlength, List.map_map]
    exact List.map_congr_left fun s _ => name_slotWith entry.functions s
  · intro i slot g hi hg hname
    rw [hslot i slot hi, slotWith_of_mem hfunctions hg hname]
  · intro i slot hi hnone
    rw [hslot i slot hi, slotWith_of_forall hnone]
  · rw [hdispatch, List.drop_left' hlength]
    rfl

/-! ## Finding layouts -/

theorem Dressed.name (h : t.Dressed table) : table.name = t.name := by
  funext x
  rw [SymbolTable.name, SymbolTable.name, ← h.same x]
  cases table.get? x with
  | none => rfl
  | some s => cases s <;> rfl

theorem Dressed.extendLayout (h : t.Dressed table) (entry : ClassEntry) (parent : ClassLayout) :
    table.extendLayout entry parent = t.extendLayout entry parent := by
  have hwith : table.dispatchWith = t.dispatchWith := by
    funext slots g
    simp only [dispatchWith, h.name]
  simp only [SymbolTable.extendLayout, hwith]

/-- Some classes have been laid out, each on top of its parent. -/
structure Arranged (t table : SymbolTable) : Prop extends Dressed t table where
  layouts : ∀ id layout, table.layout? id = some layout → t.LayoutOf id layout

theorem Unlaid.arranged (h : t.Unlaid) : t.Arranged t where
  toDressed := h.dressed
  layouts id layout hlayout := by
    obtain ⟨entry, hentry, hl⟩ := Option.bind_eq_some_iff.1 hlayout
    have hs := SymbolTable.class?_eq_some_iff.1 hentry
    simp [Symbol.bare_classEntry_iff.1 (h id _ hs)] at hl

theorem Arranged.next (h : t.Arranged table) {entry : ClassEntry}
    (hentry : t.class? id = some entry) (hparent : t.ParentLaid table entry) :
    t.Arranged (table.layOutNext id entry) where
  toDressed := h.toDressed.layOutNext id entry
  layouts x layout hlayout := by
    obtain ⟨e, he⟩ := Option.isSome_iff_exists.1 ((h.isClass_iff id).2 (by simp [hentry]))
    rw [layout?_layOutNext he, h.toDressed.extendLayout] at hlayout
    split at hlayout
    · next heq =>
        subst heq
        cases hlayout
        cases hp : entry.parent with
        | none =>
            have hempty : table.parentLayout entry = {} := by simp [parentLayout, hp]
            rw [hempty]
            exact .first hentry (by simp [hp])
        | some parent =>
            cases hl : table.layout? parent with
            | none =>
                have hempty : table.parentLayout entry = {} := by simp [parentLayout, hp, hl]
                rw [hempty]
                refine .first hentry fun p hmem => ?_
                obtain rfl : p = parent := by simpa [hp] using hmem.symm
                have hsome := hparent p hp
                cases hclass : t.class? p with
                | none => rfl
                | some e => simp [hclass, hl] at hsome
            | some layout =>
                have heq : table.parentLayout entry = layout := by simp [parentLayout, hp, hl]
                rw [heq]
                exact .next hentry hp (h.layouts parent layout hl)
    · exact h.layouts x layout hlayout

theorem keptByLayout_arranged (t : SymbolTable) : t.KeptByLayout t.Arranged where
  dressed _ h := h.toDressed
  next _ _ _ h hentry hparent := h.next hentry hparent
  structs _ _ entry h _ := ⟨h.toDressed.assignOffsets entry.fields, fun id layout hlayout => by
    refine h.layouts id layout ?_
    simpa [layout?, class?_assignOffsets] using hlayout⟩

/-- **The layouts that are found** are put on top of each other. -/
theorem LaidOut.arranged (hunlaid : t.Unlaid) (hacyclic : t.Acyclic) {t' : SymbolTable}
    (h : t.finalizeLayouts = (none, t')) : t.Arranged t' := by
  obtain ⟨t'', heq, harranged, -⟩ :=
    finalizeLayouts_kept (keptByLayout_arranged t) hacyclic hunlaid.arranged
  cases h.symm.trans heq
  exact harranged

/-- How the layouts of a table fit together. -/
structure Compatible (t : SymbolTable) : Prop where
  /-- Every class has a layout.  Each field stands at its number in it, and no name has two
  slots. -/
  layouts : ∀ id entry, t.class? id = some entry → ∃ layout, entry.layout = some layout ∧
    (∀ (i : Nat) f, layout.fields[i]? = some f →
      t.fieldOffset? f = some i ∧ layout.offsetOf? f = some i) ∧
    (layout.dispatch.map t.name).Nodup
  /-- A class that has a parent is put on the layout of the parent. -/
  parents : ∀ id entry parent layout, t.class? id = some entry → entry.parent = some parent →
    entry.layout = some layout →
    ∃ inherited, t.layout? parent = some inherited ∧ t.PutsOn entry inherited layout
  /-- A field is stored at one place in all classes that have it. -/
  descendants : ∀ id ancestor layout inherited f, t.Inherits id ancestor →
    t.layout? id = some layout → t.layout? ancestor = some inherited → f ∈ inherited.fields →
    layout.offsetOf? f = inherited.offsetOf? f
  /-- The fields of a struct stand at their numbers. -/
  structs : ∀ id entry (i : Nat) f, t.struct? id = some entry → entry.fields[i]? = some f →
    t.fieldOffset? f = some i

/-- A list without duplicates has an element at its first index only. -/
theorem offsetOf?_of_nodup (hnodup : layout.fields.Nodup) {i : Nat} {f : SymbolId}
    (hi : layout.fields[i]? = some f) : layout.offsetOf? f = some i := by
  obtain ⟨hlt, hget⟩ := List.getElem?_eq_some_iff.1 hi
  unfold ClassLayout.offsetOf?
  rw [List.findIdx?_eq_some_iff_getElem]
  refine ⟨hlt, by simpa using hget, fun j hj heq => ?_⟩
  have hsame : layout.fields[j] = layout.fields[i] := by simpa [hget] using heq
  exact Nat.ne_of_lt hj ((List.Nodup.getElem_inj_iff hnodup).1 hsame)

/-- A field that is stored at one place only has the number of this place. -/
theorem LaidOut.fieldOffset? {t' : SymbolTable} (hok : t.Ok) (h : t.LaidOut t')
    {record f : SymbolId} (hstores : t.Stores record f) (hnodup : (t'.slots record).Nodup) {i : Nat}
    (hi : (t'.slots record)[i]? = some f) : t'.fieldOffset? f = some i := by
  obtain ⟨owner, e, he, -⟩ : ∃ owner, t.FieldOf f owner := by
    rcases hstores with ⟨owner, e, -, he, hmem⟩ | ⟨e, he, hmem⟩
    · exact ⟨owner, hok.class_fields he hmem⟩
    · exact ⟨record, (hok record _ (struct?_eq_some_iff.1 he)).2 f hmem⟩
  obtain ⟨field, hfield, -⟩ := h.laid.extend.later.field? he
  obtain ⟨k, hoffset, hk⟩ := h.slot hok hstores hfield
  obtain ⟨hlt, hget⟩ := List.getElem?_eq_some_iff.1 hi
  obtain ⟨hlt', hget'⟩ := List.getElem?_eq_some_iff.1 hk
  have hsame : k = i := (List.Nodup.getElem_inj_iff hnodup).1 (hget'.trans hget.symm)
  simp [SymbolTable.fieldOffset?, hfield, hoffset, hsame]

/-- **Layouts fit together** in a table where everything has been laid out. -/
theorem Arranged.compatible {t' : SymbolTable} (hok : t.Ok) (hacyclic : t.Acyclic)
    (hdistinct : t.Distinct)
    (hparents : ∀ id parent, t.parent? id = some parent → (t.class? parent).isSome = true)
    (hlaid : t.LaidOut t') (h : t.Arranged t') : t'.Compatible := by
  have hname := h.toDressed.name
  have hnodup : ∀ id layout, t'.layout? id = some layout → layout.fields.Nodup :=
    fun id layout hlayout => (h.layouts id layout hlayout).nodup_fields hok hacyclic
  have hplace : ∀ id layout (i : Nat) f, t'.layout? id = some layout →
      layout.fields[i]? = some f → t'.fieldOffset? f = some i := by
    intro id layout i f hlayout hi
    have hslots := slots_of_layout? hlayout
    obtain ⟨owner, e, hstored⟩ := (h.layouts id layout hlayout).field (List.mem_of_getElem? hi)
    refine hlaid.fieldOffset? hok (.inl ⟨owner, e, hstored⟩) ?_ (by rwa [hslots])
    rw [hslots]
    exact hnodup id layout hlayout
  constructor
  · intro id entry hentry
    obtain ⟨layout, hlayout⟩ := Option.isSome_iff_exists.1
      (hlaid.classes id ((h.isClass_iff id).1 (by simp [hentry])))
    have hsame : entry.layout = some layout := by simpa [layout?, hentry] using hlayout
    refine ⟨layout, hsame, fun i f hi => ?_, ?_⟩
    · exact ⟨hplace id layout i f hlayout hi, offsetOf?_of_nodup (hnodup id layout hlayout) hi⟩
    · rw [hname]
      exact (h.layouts id layout hlayout).nodup_dispatch hdistinct
  · intro id entry parent layout hentry hparent hlayout
    have hentry' := h.class? hentry
    have hclass := hparents id parent (by simp [SymbolTable.parent?, hentry', hparent])
    obtain ⟨inherited, hinherited⟩ := Option.isSome_iff_exists.1 (hlaid.classes parent hclass)
    have hrest := h.layouts parent inherited hinherited
    have hthis : t.LayoutOf id layout := h.layouts id layout (by simp [layout?, hentry, hlayout])
    have hextends := LayoutOf.next hentry' hparent hrest
    have hon := putsOn_extendLayout (hdistinct id _ hentry') (hrest.nodup_dispatch hdistinct)
    rw [hthis.unique hextends] at hon
    refine ⟨inherited, hinherited, ?_⟩
    obtain ⟨hfields, hnames, hown, hkept, hfurther⟩ := hon
    exact ⟨hfields, by rwa [hname], by rwa [hname], by rwa [hname], by rwa [hname]⟩
  · intro id ancestor layout inherited f hinherits hlayout hinherited hf
    obtain ⟨i, hi⟩ := List.getElem?_of_mem hf
    have hclass : (t.class? ancestor).isSome = true := by
      obtain ⟨e, he, -⟩ := Option.bind_eq_some_iff.1 hinherited
      exact (h.isClass_iff ancestor).1 (by simp [he])
    have hinherits' : t.Inherits id ancestor :=
      Relation.ReflTransGen.mono (fun a _ hab => (h.toDressed.parent? a).symm.trans hab) _ _
        hinherits
    obtain ⟨horder, -⟩ := hlaid.order (Inherits.isClass hinherits' hclass)
    obtain ⟨fields, horder', rest, hrest⟩ := horder.isPrefix hinherits' hclass
    have hsame : inherited.fields = fields := by
      rw [← slots_of_layout? hinherited]
      exact horder'.unique (hlaid.order hclass).1
    rw [slots_of_layout? hlayout, ← hsame] at hrest
    have hi' : layout.fields[i]? = some f := by
      rw [← hrest, List.getElem?_append_left (List.getElem?_eq_some_iff.1 hi).1, hi]
    rw [offsetOf?_of_nodup (hnodup id layout hlayout) hi',
      offsetOf?_of_nodup (hnodup ancestor inherited hinherited) hi]
  · intro id entry i f hentry hi
    have hslots := slots_of_struct? hentry
    have hentry' : t.struct? id = some entry := (h.struct? id).symm.trans hentry
    refine hlaid.fieldOffset? hok (.inr ⟨entry, hentry', List.mem_of_getElem? hi⟩) ?_
      (by rwa [hslots])
    rw [hslots]
    exact (hok id _ (struct?_eq_some_iff.1 hentry')).1

end SymbolTable

end ClassLang
