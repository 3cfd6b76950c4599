import Mathlib.Data.List.Induction
import ClassLang.Proofs.Symbol.Ancestry
import ClassLang.Proofs.Symbol.Members
import ClassLang.Symbol.Layout

/-!
# Layouts

If no class inherits from itself, every class gets a layout (`finalizeLayouts_eq`).  A
layout begins with the layout of the parent, and a field has the same number in the class
that declares it and in every class that inherits it.  So the number that is attached to a
field is right for every object that stores it (`FieldAt`).

The order of the fields is described on its own, by `Order`; `Laid` says of a table in which
some classes have been laid out that layouts and numbers agree with this order.
-/

namespace ClassLang

namespace SymbolTable

variable {t t' table : SymbolTable} {id record field : SymbolId}

/-- The order in which a record stores its fields: inherited ones first. -/
inductive Order (t : SymbolTable) : SymbolId → List SymbolId → Prop
  | struct {id : SymbolId} {entry : StructEntry} (h : t.struct? id = some entry) :
      Order t id entry.fields
  | root {id : SymbolId} {entry : ClassEntry} (h : t.class? id = some entry)
      (hparent : ∀ parent ∈ entry.parent, t.class? parent = none) : Order t id entry.fields
  | child {id parent : SymbolId} {entry : ClassEntry} {fields : List SymbolId}
      (h : t.class? id = some entry) (hparent : entry.parent = some parent)
      (hclass : (t.class? parent).isSome = true) (hrest : Order t parent fields) :
      Order t id (fields ++ entry.fields)

/-- A class is no struct. -/
theorem struct?_of_class? {entry : ClassEntry} (h : t.class? id = some entry) :
    t.struct? id = none := by
  simp [SymbolTable.struct?, class?_eq_some_iff.1 h, Symbol.struct?]

/-- There is one order only. -/
theorem Order.unique {fields fields' : List SymbolId} (h : t.Order id fields)
    (h' : t.Order id fields') : fields' = fields := by
  induction h generalizing fields' with
  | struct hentry =>
      cases h' with
      | struct hentry' => cases hentry.symm.trans hentry'; rfl
      | root hentry' => simp [struct?_of_class? hentry'] at hentry
      | child hentry' => simp [struct?_of_class? hentry'] at hentry
  | root hentry hparent =>
      cases h' with
      | struct hentry' => simp [struct?_of_class? hentry] at hentry'
      | root hentry' => cases hentry.symm.trans hentry'; rfl
      | child hentry' hparent' hclass' =>
          cases hentry.symm.trans hentry'
          simp [hparent _ hparent'] at hclass'
  | child hentry hparent hclass hrest ih =>
      cases h' with
      | struct hentry' => simp [struct?_of_class? hentry] at hentry'
      | root hentry' hparent' =>
          cases hentry.symm.trans hentry'
          simp [hparent' _ hparent] at hclass
      | child hentry' hparent' _ hrest' =>
          cases hentry.symm.trans hentry'
          cases hparent.symm.trans hparent'
          rw [ih hrest']

/-- The order of a class begins with the order of every class it inherits from. -/
theorem Order.isPrefix {ancestor : SymbolId} (hi : t.Inherits id ancestor)
    (hancestor : (t.class? ancestor).isSome = true) {fields : List SymbolId}
    (h : t.Order id fields) : ∃ inherited, t.Order ancestor inherited ∧ inherited <+: fields := by
  induction hi using Relation.ReflTransGen.head_induction_on generalizing fields with
  | refl => exact ⟨fields, h, List.prefix_refl _⟩
  | @head id parent hparent hrest ih =>
      obtain ⟨entry, hentry, hp⟩ := Option.bind_eq_some_iff.1 hparent
      -- The parent is a class: it has a parent itself, or it is the ancestor.
      have hclass : (t.class? parent).isSome = true := by
        rcases Relation.ReflTransGen.cases_head hrest with rfl | ⟨_, hnext, -⟩
        · exact hancestor
        · obtain ⟨e, he, -⟩ := Option.bind_eq_some_iff.1 hnext
          simp [he]
      cases h with
      | struct hentry' => simp [struct?_of_class? hentry] at hentry'
      | root hentry' hparent' =>
          cases hentry.symm.trans hentry'
          simp [hparent' parent hp] at hclass
      | child hentry' hparent' _ horder =>
          cases hentry.symm.trans hentry'
          cases hp.symm.trans hparent'
          obtain ⟨inherited, hinherited, hprefix⟩ := ih horder
          exact ⟨inherited, hinherited, hprefix.trans (List.prefix_append _ _)⟩

end SymbolTable

/-! ## Numbers of fields -/

/-- A symbol with a number, unless it has one already. -/
def Symbol.placed (number : Option Nat) : Symbol → Symbol
  | .field entry => .field { entry with offset := entry.offset <|> number }
  | other => other

@[simp] theorem Symbol.bare_placed (number : Option Nat) (s : Symbol) :
    (s.placed number).bare = s.bare := by
  cases s <;> rfl

/-- Numbering a symbol changes no class. -/
theorem Symbol.class?_placed (number : Option Nat) (s : Symbol) :
    (s.placed number).class? = s.class? := by
  cases s <;> rfl

/-- A list says at which place an element stands first. -/
theorem List.getElem?_of_lookup_zipIdx {ids : List SymbolId} {id : SymbolId} {k : Nat}
    (h : ids.zipIdx.lookup id = some k) : ids[k]? = some id := by
  have hmem : (id, k) ∈ ids.zipIdx := by
    obtain ⟨l₁, l₂, heq, -⟩ := List.lookup_eq_some_iff.1 h
    simp [heq]
  simpa [List.mem_zipIdx_iff_getElem?] using hmem

/-- Every member of a list is given a number by its position. -/
theorem List.isSome_lookup_zipIdx {ids : List SymbolId} {id : SymbolId} (h : id ∈ ids) :
    (ids.zipIdx.lookup id).isSome = true := by
  cases hlookup : ids.zipIdx.lookup id with
  | some k => rfl
  | none =>
      obtain ⟨k, hk⟩ := List.getElem?_of_mem h
      have hmem : (id, k) ∈ ids.zipIdx := by simpa [List.mem_zipIdx_iff_getElem?] using hk
      have hne := List.lookup_eq_none_iff.1 hlookup (id, k) hmem
      simp at hne

namespace SymbolTable

variable {t t' table : SymbolTable} {id record field : SymbolId}

/-- What assigning numbers does to a symbol: it gets the number of its first place. -/
theorem get?_assignOffsets (t : SymbolTable) (fields : List SymbolId) (id : SymbolId) :
    (t.assignOffsets fields).get? id =
      (t.get? id).map (Symbol.placed (fields.zipIdx.lookup id)) := by
  unfold assignOffsets
  generalize fields.zipIdx = pairs
  induction pairs generalizing t with
  | nil =>
      simp only [List.foldl_nil, List.lookup_nil]
      cases t.get? id with
      | none => rfl
      | some s => cases s <;> simp [Symbol.placed]
  | cons pair rest ih =>
      obtain ⟨f, i⟩ := pair
      rw [List.foldl_cons, ih, get?_modify]
      by_cases heq : f = id
      · subst heq
        cases t.get? f with
        | none => simp
        | some s => cases s <;> simp [Symbol.placed]
      · have hne : (id == f) = false := by simpa using Ne.symm heq
        simp [heq, List.lookup_cons, hne]

/-- Numbering the fields of a record changes no class. -/
theorem class?_assignOffsets (table : SymbolTable) (fields : List SymbolId) (id : SymbolId) :
    (table.assignOffsets fields).class? id = table.class? id := by
  rw [SymbolTable.class?, SymbolTable.class?, get?_assignOffsets]
  cases table.get? id <;> simp [Symbol.class?_placed]

/-- A table that is another one with layouts and numbers. -/
structure Dressed (t table : SymbolTable) : Prop where
  same : ∀ id, (table.get? id).map Symbol.bare = t.get? id

/-- Some classes of a table have been laid out, and some fields have numbers; all of them
agree with the order of the fields. -/
structure Laid (t table : SymbolTable) : Prop extends Dressed t table where
  layouts : ∀ id entry layout, table.class? id = some entry → entry.layout = some layout →
    t.Order id layout.fields ∧ (∀ g ∈ layout.dispatch, t.Callable g) ∧
      ∀ f ∈ layout.fields, (table.fieldOffset? f).isSome = true
  offsets : ∀ f entry k, table.field? f = some entry → entry.offset = some k →
    ∃ fields, t.Order entry.owner fields ∧ fields[k]? = some f

/-- Where no class has a layout, the table is the same table but for layouts. -/
theorem Unlaid.dressed (h : t.Unlaid) : t.Dressed t where
  same id := by
    cases hget : t.get? id with
    | none => rfl
    | some s => simp [h id s hget]

/-- Where no class has a layout, nothing has to agree yet. -/
theorem Unlaid.laid (h : t.Unlaid) : t.Laid t where
  toDressed := h.dressed
  layouts id entry layout hentry hlayout := by
    have hs := SymbolTable.class?_eq_some_iff.1 hentry
    simp [Symbol.bare_classEntry_iff.1 (h id _ hs)] at hlayout
  offsets f entry k hentry hk := by
    have hs := SymbolTable.field?_eq_some_iff.1 hentry
    simp [Symbol.bare_field_iff.1 (h f _ hs)] at hk

section

variable (h : t.Dressed table)

include h

/-- A table with layouts added still extends what the table extended. -/
theorem Dressed.extend : t.Extends table := by
  intro id s hs
  have hsame := h.same id
  rw [hs] at hsame
  obtain ⟨s', hs', rfl⟩ := Option.map_eq_some_iff.1 hsame
  exact ⟨s', hs', by cases s' <;> rfl⟩

/-- Layouts change the entry of a class in its layout only. -/
theorem Dressed.class? {entry : ClassEntry} (hentry : table.class? id = some entry) :
    t.class? id = some { entry with layout := none } := by
  have hs := SymbolTable.class?_eq_some_iff.1 hentry
  have hsame := h.same id
  rw [hs] at hsame
  rw [SymbolTable.class?, ← hsame]
  rfl

/-- Layouts change no struct. -/
theorem Dressed.struct? (id : SymbolId) : table.struct? id = t.struct? id := by
  rw [SymbolTable.struct?, SymbolTable.struct?, ← h.same id]
  cases table.get? id with
  | none => rfl
  | some s => cases s <;> rfl

/-- Layouts change the entry of a field in its number only. -/
theorem Dressed.field? {entry : FieldEntry} (hentry : table.field? id = some entry) :
    t.field? id = some { entry with offset := none } := by
  have hs := SymbolTable.field?_eq_some_iff.1 hentry
  have hsame := h.same id
  rw [hs] at hsame
  rw [SymbolTable.field?, ← hsame]
  rfl

/-- Layouts change no function. -/
theorem Dressed.function? (id : SymbolId) : table.function? id = t.function? id := by
  rw [SymbolTable.function?, SymbolTable.function?, ← h.same id]
  cases table.get? id with
  | none => rfl
  | some s => cases s <;> rfl

/-- Layouts break nothing. -/
theorem Dressed.ok (hok : t.Ok) : table.Ok := by
  intro id s hs
  have hsame := h.same id
  rw [hs] at hsame
  have hbare : s.bare.bare = s.bare := by cases s <;> rfl
  exact Ok.of_bare hbare.symm ((hok id s.bare hsame.symm).later h.extend.later)

/-- Layouts leave the classes what they are. -/
theorem Dressed.isClass_iff (id : SymbolId) :
    (table.class? id).isSome = true ↔ (t.class? id).isSome = true := by
  rw [SymbolTable.class?, SymbolTable.class?, ← h.same id]
  cases table.get? id with
  | none => rfl
  | some s => cases s <;> simp [Symbol.bare, Symbol.class?]

/-- Layouts change no parent. -/
theorem Dressed.parent? (id : SymbolId) : table.parent? id = t.parent? id := by
  rw [SymbolTable.parent?, SymbolTable.parent?, SymbolTable.class?, SymbolTable.class?, ← h.same id]
  cases table.get? id with
  | none => rfl
  | some s => cases s <;> rfl

/-- No field is stored that was not stored before. -/
theorem Dressed.stores {field : SymbolId} (hstores : table.Stores record field) :
    t.Stores record field := by
  rcases hstores with ⟨owner, entry, hinherits, hentry, hmem⟩ | ⟨entry, hentry, hmem⟩
  · refine .inl ⟨owner, _, ?_, h.class? hentry, hmem⟩
    exact Relation.ReflTransGen.mono (fun a b hab => (h.parent? a).symm.trans hab) _ _ hinherits
  · exact .inr ⟨entry, (h.struct? record).symm.trans hentry, hmem⟩

/-- Layouts add no symbol. -/
theorem Dressed.size_eq : table.size = t.size := by
  refine Nat.le_antisymm (Nat.not_lt.1 fun hlt => ?_) h.extend.later.size_le
  obtain ⟨s, hs⟩ := Option.isSome_iff_exists.1 ((table.isSome_get?_iff t.size).2 hlt)
  have hsame := h.same t.size
  have hnone : t.get? t.size = none := by simp [SymbolTable.get?, SymbolTable.size]
  rw [hs, hnone] at hsame
  cases hsame

/-- Numbering fields changes nothing but numbers. -/
theorem Dressed.assignOffsets (fields : List SymbolId) :
    t.Dressed (table.assignOffsets fields) where
  same id := by
    rw [get?_assignOffsets, ← h.same id]
    cases table.get? id <;> simp

/-- Storing a layout changes nothing but layouts. -/
theorem Dressed.setLayout (id : SymbolId) (layout : ClassLayout) :
    t.Dressed (table.modifyClass id fun entry => { entry with layout := some layout }) where
  same x := by
    rw [← h.same x, modifyClass, get?_modify]
    split
    · cases table.get? x with
      | none => rfl
      | some s => cases s <;> rfl
    · rfl

end

/-- Numbering fields: those that have no number yet belong to the record. -/
theorem Laid.assignOffsets (h : t.Laid table) {fields : List SymbolId}
    (horder : t.Order record fields)
    (howner : ∀ f ∈ fields, ∀ entry, table.field? f = some entry → entry.offset = none →
      entry.owner = record) : t.Laid (table.assignOffsets fields) where
  toDressed := h.toDressed.assignOffsets fields
  layouts id entry layout hentry hlayout := by
    have hentry' : table.class? id = some entry := by
      rw [← hentry, class?_assignOffsets]
    obtain ⟨hfields, hdispatch, hoffsets⟩ := h.layouts id entry layout hentry' hlayout
    refine ⟨hfields, hdispatch, fun f hf => ?_⟩
    have hoffset := hoffsets f hf
    simp only [fieldOffset?, SymbolTable.field?, get?_assignOffsets] at hoffset ⊢
    cases hget : table.get? f with
    | none => simp [hget] at hoffset
    | some s => cases s <;> simp_all [Symbol.field?, Symbol.placed]
  offsets f entry k hentry hk := by
    obtain ⟨s, hs, hfield⟩ := Option.bind_eq_some_iff.1 hentry
    rw [get?_assignOffsets] at hs
    obtain ⟨s₀, hs₀, rfl⟩ := Option.map_eq_some_iff.1 hs
    cases s₀ <;> simp only [Symbol.placed, Symbol.field?, reduceCtorEq, Option.some.injEq] at hfield
    next entry₀ =>
      have hentry₀ : table.field? f = some entry₀ := by
        simp [SymbolTable.field?, hs₀, Symbol.field?]
      subst hfield
      simp only at hk ⊢
      cases hoffset : entry₀.offset with
      | some k₀ =>
          obtain rfl : k₀ = k := by simpa [hoffset] using hk
          exact h.offsets f entry₀ k₀ hentry₀ hoffset
      | none =>
          have hplace : fields[k]? = some f :=
            List.getElem?_of_lookup_zipIdx (by simpa [hoffset] using hk)
          rw [howner f (List.mem_of_getElem? hplace) entry₀ hentry₀ hoffset]
          exact ⟨fields, horder, hplace⟩

/-- All fields that are numbered have a number. -/
theorem isSome_fieldOffset?_assignOffsets {fields : List SymbolId} {f : SymbolId}
    (hf : f ∈ fields) {entry : FieldEntry} (hentry : table.field? f = some entry) :
    ((table.assignOffsets fields).fieldOffset? f).isSome = true := by
  have hs := SymbolTable.field?_eq_some_iff.1 hentry
  obtain ⟨k, hk⟩ := Option.isSome_iff_exists.1 (List.isSome_lookup_zipIdx hf)
  simp [fieldOffset?, SymbolTable.field?, get?_assignOffsets, hs, hk, Symbol.placed, Symbol.field?]

/-! ## Classes -/

/-- A dispatch slot holds a new function, or one that was there. -/
theorem mem_dispatchWith {slots : List SymbolId} {function g : SymbolId}
    (h : g ∈ table.dispatchWith slots function) : g = function ∨ g ∈ slots := by
  unfold dispatchWith at h
  split at h
  · exact (List.mem_or_eq_of_mem_set h).symm
  · exact (List.mem_append.1 h).symm.imp_left List.mem_singleton.1

/-- Every function of the dispatch slots was there or was put there. -/
theorem mem_foldl_dispatchWith {functions slots : List SymbolId} {g : SymbolId}
    (h : g ∈ functions.foldl table.dispatchWith slots) : g ∈ functions ∨ g ∈ slots := by
  induction functions generalizing slots with
  | nil => exact .inr h
  | cons f rest ih =>
      rcases ih h with h | h
      · exact .inl (List.mem_cons_of_mem _ h)
      · rcases mem_dispatchWith h with rfl | h
        · exact .inl (List.mem_cons_self ..)
        · exact .inr h

/-- A table in which more classes may have been laid out. -/
def LaidFurther (table table' : SymbolTable) : Prop :=
  ∀ id, (table.layout? id).isSome = true → (table'.layout? id).isSome = true

/-- Changing a class numbers no field. -/
theorem fieldOffset?_modifyClass (f : ClassEntry → ClassEntry) (x : SymbolId) :
    (table.modifyClass id f).fieldOffset? x = table.fieldOffset? x := by
  simp only [fieldOffset?, SymbolTable.field?, modifyClass, get?_modify]
  split
  · cases table.get? x with
    | none => rfl
    | some s => cases s <;> rfl
  · rfl

/-- Changing a class changes no field. -/
theorem field?_modifyClass (f : ClassEntry → ClassEntry) (x : SymbolId) :
    (table.modifyClass id f).field? x = table.field? x := by
  simp only [SymbolTable.field?, modifyClass, get?_modify]
  split
  · cases table.get? x with
    | none => rfl
    | some s => cases s <;> rfl
  · rfl

/-- After a class is changed, only its own entry is another. -/
theorem class?_modifyClass_eq (f : ClassEntry → ClassEntry) (x : SymbolId) :
    (table.modifyClass id f).class? x =
      if id = x then (table.class? x).map f else table.class? x := by
  simp only [SymbolTable.class?, modifyClass, get?_modify]
  split
  · cases table.get? x with
    | none => rfl
    | some s => cases s <;> rfl
  · rfl

/-- A class gets a layout that agrees with the order of its fields. -/
theorem Laid.setLayout (h : t.Laid table) {layout : ClassLayout}
    (horder : t.Order id layout.fields)
    (hdispatch : ∀ g ∈ layout.dispatch, t.Callable g)
    (hoffsets : ∀ f ∈ layout.fields, (table.fieldOffset? f).isSome = true) :
    t.Laid (table.modifyClass id fun entry => { entry with layout := some layout }) where
  toDressed := h.toDressed.setLayout id layout
  layouts x entry l hentry hl := by
    simp only [fieldOffset?_modifyClass]
    rw [class?_modifyClass_eq] at hentry
    split at hentry
    · next heq =>
        subst heq
        obtain ⟨e, -, rfl⟩ := Option.map_eq_some_iff.1 hentry
        cases hl
        exact ⟨horder, hdispatch, hoffsets⟩
    · exact h.layouts x entry l hentry hl
  offsets f entry k hentry hk := by
    rw [field?_modifyClass] at hentry
    exact h.offsets f entry k hentry hk

/-- Numbering fields loses no layout. -/
theorem laidFurther_assignOffsets (fields : List SymbolId) :
    table.LaidFurther (table.assignOffsets fields) := by
  intro id hid
  simpa [layout?, class?_assignOffsets] using hid

/-- Storing a layout loses none. -/
theorem laidFurther_setLayout (layout : ClassLayout) :
    table.LaidFurther (table.modifyClass id fun entry => { entry with layout := some layout }) := by
  intro x hx
  simp only [layout?, class?_modifyClass_eq] at hx ⊢
  split
  · cases hclass : table.class? x <;> simp_all
  · exact hx

/-- The layout that a class extends. -/
def parentLayout (table : SymbolTable) (entry : ClassEntry) : ClassLayout :=
  (entry.parent.bind table.layout?).getD {}

/-- The table in which one more class is laid out, on top of its parent's layout. -/
def layOutNext (table : SymbolTable) (id : SymbolId) (entry : ClassEntry) : SymbolTable :=
  let layout := table.extendLayout entry (table.parentLayout entry)
  (table.assignOffsets layout.fields).modifyClass id fun e => { e with layout := some layout }

/-- The layout of one more class loses none. -/
theorem laidFurther_layOutNext (entry : ClassEntry) :
    table.LaidFurther (table.layOutNext id entry) :=
  fun x hx => laidFurther_setLayout _ x (laidFurther_assignOffsets _ x hx)

/-- The layout of one more class changes nothing but layouts and numbers. -/
theorem Dressed.layOutNext (h : t.Dressed table) (id : SymbolId) (entry : ClassEntry) :
    t.Dressed (table.layOutNext id entry) :=
  (h.assignOffsets _).setLayout id _

/-- The layouts in the new table: one class has got its own. -/
theorem layout?_layOutNext {entry entry' : ClassEntry} (hclass : table.class? id = some entry')
    (x : SymbolId) : (table.layOutNext id entry).layout? x =
      if id = x then some (table.extendLayout entry (table.parentLayout entry))
      else table.layout? x := by
  simp only [layout?, layOutNext, class?_modifyClass_eq, class?_assignOffsets]
  split
  · next heq => simp [← heq, hclass]
  · rfl

/-- The parent of a class has been laid out, if it is a class. -/
def ParentLaid (t table : SymbolTable) (entry : ClassEntry) : Prop :=
  ∀ parent, entry.parent = some parent → (t.class? parent).isSome = true →
    (table.layout? parent).isSome = true

/-- What stays true of a table while its classes, and then its structs, are laid out. -/
structure KeptByLayout (t : SymbolTable) (I : SymbolTable → Prop) : Prop where
  dressed : ∀ table, I table → t.Dressed table
  next : ∀ table id entry, I table → t.class? id = some entry → t.ParentLaid table entry →
    I (table.layOutNext id entry)
  structs : ∀ table id entry, I table → t.struct? id = some entry →
    I (table.assignOffsets entry.fields)

section

variable {I : SymbolTable → Prop} (hI : t.KeptByLayout I) (hacyclic : t.Acyclic)

include hI hacyclic

/-- **Laying out a class succeeds**, its ancestors first. -/
theorem layOutUpTo_eq {fuel : Nat} {visiting : List SymbolId}
    (hvisiting : t.Climbing visiting id) (hfuel : t.size + 1 ≤ fuel + visiting.length)
    (h : I table) :
    ∃ table', layOutUpTo fuel visiting id table = .ok table' ∧ I table' ∧
      table.LaidFurther table' ∧
      ((t.class? id).isSome = true → (table'.layout? id).isSome = true) := by
  induction fuel generalizing visiting id table with
  | zero =>
      have hlength := hvisiting.length_le
      omega
  | succ fuel ih =>
      have hdressed := hI.dressed table h
      cases hclass : table.class? id with
      | none =>
          have hnone : (t.class? id).isSome = true → False := fun hsome => by
            simpa [hclass] using (hdressed.isClass_iff id).2 hsome
          exact ⟨table, by simp [layOutUpTo, hclass], h, fun _ hx => hx, fun hsome =>
            (hnone hsome).elim⟩
      | some entry =>
          cases hlayout : entry.layout with
          | some layout =>
              exact ⟨table, by simp [layOutUpTo, hclass, hlayout], h, fun _ hx => hx, fun _ => by
                simp [layout?, hclass, hlayout]⟩
          | none =>
              have hnew : id ∉ visiting := hvisiting.not_mem hacyclic
              have hentry : t.class? id = some entry := by
                rw [hdressed.class? hclass, ← hlayout]
              cases hparent : entry.parent with
              | none =>
                  have hlaid : t.ParentLaid table entry := by simp [ParentLaid, hparent]
                  refine ⟨_, ?_, hI.next table id entry h hentry hlaid,
                    laidFurther_layOutNext entry, fun _ => by simp [layout?_layOutNext hclass]⟩
                  simp [layOutUpTo, hclass, hlayout, hnew, hparent, layOutNext, parentLayout]
                  rfl
              | some parent =>
                  have hstep : t.parent? id = some parent := by
                    simp [SymbolTable.parent?, hentry, hparent]
                  obtain ⟨table₁, heq, h₁, hfurther₁, hsome₁⟩ := ih (hvisiting.cons hacyclic hstep)
                    (by simp only [List.length_cons]; omega) h
                  have hlaid : t.ParentLaid table₁ entry := by
                    simpa [ParentLaid, hparent] using hsome₁
                  obtain ⟨entry₁, hclass₁⟩ := Option.isSome_iff_exists.1
                    (((hI.dressed table₁ h₁).isClass_iff id).2 (by simp [hentry]))
                  refine ⟨_, ?_, hI.next table₁ id entry h₁ hentry hlaid, fun x hx =>
                    laidFurther_layOutNext entry x (hfurther₁ x hx), fun _ => by
                      simp [layout?_layOutNext hclass₁]⟩
                  simp [layOutUpTo, hclass, hlayout, hnew, hparent, heq, layOutNext, parentLayout]

/-- **What every layout keeps holds at the end**: a class is laid out without error,
what holds of the table goes on to hold, and the class has its layout. -/
theorem layOut_eq (h : I table) (id : SymbolId) :
    ∃ table', table.layOut id = .ok table' ∧ I table' ∧ table.LaidFurther table' ∧
      ((t.class? id).isSome = true → (table'.layout? id).isSome = true) := by
  unfold layOut
  exact layOutUpTo_eq hI hacyclic (.nil t id) (by simp [(hI.dressed table h).size_eq]) h

/-- All classes of a list are laid out. -/
theorem layOutAll_eq (ids : List SymbolId) (h : I table) :
    ∃ table', layOutAll ids table = (none, table') ∧ I table' ∧ table.LaidFurther table' ∧
      ∀ id ∈ ids, (t.class? id).isSome = true → (table'.layout? id).isSome = true := by
  induction ids generalizing table with
  | nil => exact ⟨table, rfl, h, fun _ hx => hx, by simp⟩
  | cons id rest ih =>
      obtain ⟨table₁, heq₁, h₁, hfurther₁, hsome₁⟩ := layOut_eq hI hacyclic h id
      obtain ⟨table', heq', h', hfurther', hsome'⟩ := ih h₁
      refine ⟨table', by simp [layOutAll, heq₁, heq'], h',
        fun x hx => hfurther' x (hfurther₁ x hx), fun x hx hclass => ?_⟩
      rcases List.mem_cons.1 hx with rfl | hx
      · exact hfurther' x (hsome₁ hclass)
      · exact hsome' x hx hclass

end

/-! ## Numbers of fields agree with layouts -/

/-- The layout of a parent that has been laid out before. -/
theorem Laid.parentLayout (h : t.Laid table) {entry : ClassEntry}
    (hentry : t.class? id = some entry) (hparent : t.ParentLaid table entry) :
    t.Order id ((table.parentLayout entry).fields ++ entry.fields) ∧
      (∀ g ∈ (table.parentLayout entry).dispatch, t.Callable g) ∧
      ∀ f ∈ (table.parentLayout entry).fields, (table.fieldOffset? f).isSome = true := by
  have hroot : table.parentLayout entry = {} → (∀ parent ∈ entry.parent, t.class? parent = none) →
      t.Order id ((table.parentLayout entry).fields ++ entry.fields) ∧
        (∀ g ∈ (table.parentLayout entry).dispatch, t.Callable g) ∧
        ∀ f ∈ (table.parentLayout entry).fields, (table.fieldOffset? f).isSome = true := by
    intro hempty hnone
    rw [hempty]
    exact ⟨.root hentry hnone, by simp, by simp⟩
  cases hp : entry.parent with
  | none => exact hroot (by simp [SymbolTable.parentLayout, hp]) (by simp [hp])
  | some parent =>
      cases hlayout : table.layout? parent with
      | none =>
          have hnone : t.class? parent = none := by
            have hsome := hparent parent hp
            cases hclass : t.class? parent with
            | none => rfl
            | some e => simp [hclass, hlayout] at hsome
          exact hroot (by simp [SymbolTable.parentLayout, hp, hlayout]) (by simp [hp, hnone])
      | some layout =>
          obtain ⟨e, he, hl⟩ := Option.bind_eq_some_iff.1 hlayout
          obtain ⟨horder, hdispatch, hoffsets⟩ := h.layouts parent e layout he hl
          have heq : table.parentLayout entry = layout := by
            simp [SymbolTable.parentLayout, hp, hlayout]
          rw [heq]
          exact ⟨.child hentry hp ((h.isClass_iff parent).1 (by simp [he])) horder, hdispatch,
            hoffsets⟩

/-- What one class adds to the layout of its parent. -/
theorem Laid.next (hok : t.Ok) (h : t.Laid table) {entry : ClassEntry}
    (hentry : t.class? id = some entry) (hparent : t.ParentLaid table entry) :
    t.Laid (table.layOutNext id entry) := by
  obtain ⟨horder, hdispatch, hoffsets⟩ := h.parentLayout hentry hparent
  have hs := SymbolTable.class?_eq_some_iff.1 hentry
  obtain ⟨-, hfields, -⟩ := hok id _ hs
  have hfieldOf : ∀ f ∈ entry.fields, ∃ e, table.field? f = some e ∧ e.owner = id := by
    intro f hf
    obtain ⟨e, he, howner⟩ := hfields f hf
    obtain ⟨e', he', -, -, howner'⟩ := h.extend.later.field? he
    exact ⟨e', he', howner'.trans howner⟩
  have hlaid := h.assignOffsets horder fun f hf e he hnone => by
    rcases List.mem_append.1 hf with hf | hf
    · have hsome := hoffsets f hf
      simp [fieldOffset?, he, hnone] at hsome
    · obtain ⟨e', he', howner⟩ := hfieldOf f hf
      cases he.symm.trans he'
      exact howner
  refine hlaid.setLayout horder (fun g hg => ?_) fun f hf => ?_
  · rcases mem_foldl_dispatchWith hg with hg | hg
    · exact .inr ⟨id, entry, hentry, hg⟩
    · exact hdispatch g hg
  · have hfield : ∃ e, table.field? f = some e := by
      rcases List.mem_append.1 hf with hf | hf
      · have hsome := hoffsets f hf
        cases he : table.field? f with
        | none => simp [fieldOffset?, he] at hsome
        | some e => exact ⟨e, rfl⟩
      · obtain ⟨e, he, -⟩ := hfieldOf f hf
        exact ⟨e, he⟩
    obtain ⟨e, he⟩ := hfield
    exact isSome_fieldOffset?_assignOffsets hf he

/-- Numbering the fields of a struct agrees with the order of its fields. -/
theorem Laid.structs (hok : t.Ok) (h : t.Laid table) {entry : StructEntry}
    (hentry : t.struct? id = some entry) : t.Laid (table.assignOffsets entry.fields) := by
  refine h.assignOffsets (.struct hentry) fun f hf e he _ => ?_
  obtain ⟨e₀, he₀, howner⟩ := (hok id _ (struct?_eq_some_iff.1 hentry)).2 f hf
  obtain ⟨e', he', -, -, howner'⟩ := h.extend.later.field? he₀
  cases he.symm.trans he'
  exact howner'.trans howner

/-- Agreement with the order is kept by every layout. -/
theorem keptByLayout_laid (hok : t.Ok) : t.KeptByLayout t.Laid where
  dressed _ h := h.toDressed
  next _ _ _ h hentry hparent := h.next hok hentry hparent
  structs _ _ _ h hentry := h.structs hok hentry

/-! ## All classes and structs -/

/-- The numbers of symbols go up. -/
theorem idsWhere_eq (t : SymbolTable) (p : Symbol → Bool) :
    t.idsWhere p = (List.range t.size).filter fun k => (t.get? k).any p := by
  obtain ⟨symbols⟩ := t
  simp only [idsWhere, size, SymbolTable.get?]
  induction symbols using List.reverseRecOn with
  | nil => rfl
  | append_singleton symbols s ih =>
      have hfront : (List.range symbols.length).filter (fun k => ((symbols ++ [s])[k]?).any p) =
          (List.range symbols.length).filter (fun k => (symbols[k]?).any p) := by
        refine List.filter_congr fun k hk => ?_
        rw [List.getElem?_append_left (List.mem_range.1 hk)]
      rw [List.zipIdx_append, List.filter_append, List.map_append, ih, List.length_append,
        List.length_singleton, List.range_succ, List.filter_append, hfront]
      cases hp : p s <;> simp [hp]

/-- The literals are the numbers of the table that stand for a literal, in order. -/
theorem literalIds_eq (t : SymbolTable) :
    t.literalIds = (List.range t.size).filter fun k => (t.literal? k).isSome := by
  rw [literalIds, idsWhere_eq]
  refine List.filter_congr fun k _ => ?_
  cases h : t.get? k <;> simp [literal?, h]

/-- The numbers that satisfy a condition are those of symbols that do. -/
theorem mem_idsWhere {p : Symbol → Bool} :
    id ∈ t.idsWhere p ↔ ∃ s, t.get? id = some s ∧ p s = true := by
  simp [idsWhere, List.mem_zipIdx_iff_getElem?, SymbolTable.get?]

/-- The classes of the list are the classes of the table. -/
theorem mem_classIds : id ∈ t.classIds ↔ (t.class? id).isSome = true := by
  rw [classIds, mem_idsWhere, SymbolTable.class?]
  cases t.get? id <;> simp

/-- The root class is the first class. -/
theorem classIds_eq_cons {entry : ClassEntry} (h : t.class? rootClass = some entry) :
    ∃ rest, t.classIds = rootClass :: rest ∧ ∀ id ∈ rest, id ≠ rootClass := by
  obtain ⟨s, hs, hclass⟩ := Option.bind_eq_some_iff.1 h
  obtain ⟨n, hn⟩ : ∃ n, t.size = n + 1 :=
    Nat.exists_eq_succ_of_ne_zero (Nat.ne_of_gt (lt_size_of_get? hs))
  have hroot : (t.get? 0).any (fun s => s.class?.isSome) = true := by
    have hs' : t.get? 0 = some s := hs
    simp [hs', hclass]
  have heq : t.classIds = rootClass :: ((List.range n).map Nat.succ).filter
      fun k => (t.get? k).any fun s => s.class?.isSome := by
    rw [classIds, idsWhere_eq, hn, List.range_succ_eq_map, List.filter_cons, if_pos hroot]
    rfl
  refine ⟨_, heq, fun id hid => ?_⟩
  obtain ⟨k, -, rfl⟩ := List.mem_map.1 (List.mem_filter.1 hid).1
  exact Nat.succ_ne_zero k

/-- The structs of the list are the structs of the table. -/
theorem mem_structIds : id ∈ t.structIds ↔ (t.struct? id).isSome = true := by
  rw [structIds, mem_idsWhere, SymbolTable.struct?]
  cases t.get? id <;> simp

/-! ## Structs -/

/-- A number that was given stays. -/
theorem isSome_fieldOffset?_of_assignOffsets {fields : List SymbolId} {f : SymbolId}
    (h : (table.fieldOffset? f).isSome = true) :
    ((table.assignOffsets fields).fieldOffset? f).isSome = true := by
  simp only [fieldOffset?, SymbolTable.field?, get?_assignOffsets] at h ⊢
  cases hget : table.get? f with
  | none => simp [hget] at h
  | some s => cases s <;> simp_all [Symbol.field?, Symbol.placed]

/-- Numbering makes no field. -/
theorem isSome_field?_assignOffsets (fields : List SymbolId) (f : SymbolId) :
    ((table.assignOffsets fields).field? f).isSome = (table.field? f).isSome := by
  rw [SymbolTable.field?, SymbolTable.field?, get?_assignOffsets]
  cases table.get? f with
  | none => rfl
  | some s => cases s <;> rfl

/-- The fields of structs get their numbers. -/
theorem foldl_assignOffsets {I : SymbolTable → Prop} (hI : t.KeptByLayout I) (ids : List SymbolId)
    (h : I table) :
    let table' := ids.foldl (fun table id =>
      table.assignOffsets (((table.struct? id).map StructEntry.fields).getD [])) table
    I table' ∧ table.LaidFurther table' ∧
      (∀ f, (table.fieldOffset? f).isSome = true → (table'.fieldOffset? f).isSome = true) ∧
      ∀ id ∈ ids, ∀ entry, t.struct? id = some entry → ∀ f ∈ entry.fields,
        (table.field? f).isSome = true → (table'.fieldOffset? f).isSome = true := by
  induction ids generalizing table with
  | nil => exact ⟨h, fun _ hx => hx, fun _ hf => hf, by simp⟩
  | cons id rest ih =>
      have hdressed := hI.dressed table h
      cases hentry : t.struct? id with
      | none =>
          have hsame : table.assignOffsets (((table.struct? id).map StructEntry.fields).getD []) =
              table := by
            rw [hdressed.struct?, hentry]
            rfl
          obtain ⟨hlaid, hfurther, hkept, hnumbered⟩ := ih h
          simp only [List.foldl_cons, hsame]
          refine ⟨hlaid, hfurther, hkept, fun x hx e he => ?_⟩
          rcases List.mem_cons.1 hx with rfl | hx
          · cases hentry.symm.trans he
          · exact hnumbered x hx e he
      | some entry =>
          obtain ⟨hlaid, hfurther, hkept, hnumbered⟩ := ih (hI.structs table id entry h hentry)
          simp only [List.foldl_cons, hdressed.struct?, hentry, Option.map_some, Option.getD_some]
          refine ⟨hlaid, fun x hx => hfurther x (laidFurther_assignOffsets _ x hx),
            fun f hf => hkept f (isSome_fieldOffset?_of_assignOffsets hf),
              fun x hx e he f hf hfield => ?_⟩
          rcases List.mem_cons.1 hx with rfl | hx
          · cases hentry.symm.trans he
            obtain ⟨e', he'⟩ := Option.isSome_iff_exists.1 hfield
            exact hkept f (isSome_fieldOffset?_assignOffsets hf he')
          · exact hnumbered x hx e he f hf ((isSome_field?_assignOffsets _ f).trans hfield)

/-- **Layouts are found for all classes and structs**, whatever else is known of them. -/
theorem finalizeLayouts_kept {I : SymbolTable → Prop} (hI : t.KeptByLayout I)
    (hacyclic : t.Acyclic) (h : I t) :
    ∃ t', t.finalizeLayouts = (none, t') ∧ I t' ∧
      (∀ id, (t.class? id).isSome = true → (t'.layout? id).isSome = true) ∧
      ∀ id entry, t.struct? id = some entry → ∀ f ∈ entry.fields, (t.field? f).isSome = true →
        (t'.fieldOffset? f).isSome = true := by
  obtain ⟨table, heq, htable, -, hclasses⟩ := layOutAll_eq hI hacyclic t.classIds h
  obtain ⟨hlaid, hfurther, -, hstructs⟩ := foldl_assignOffsets hI table.structIds htable
  have hdressed := hI.dressed table htable
  refine ⟨table.layOutStructs, by simp [finalizeLayouts, heq], hlaid, fun id hid => ?_,
    fun id entry hentry f hf hfield => ?_⟩
  · exact hfurther id (hclasses id (mem_classIds.2 hid) hid)
  · refine hstructs id (mem_structIds.2 (by simp [hdressed.struct?, hentry])) entry hentry f hf ?_
    obtain ⟨e, he⟩ := Option.isSome_iff_exists.1 hfield
    obtain ⟨e', he', -⟩ := hdressed.extend.later.field? he
    simp [he']

/-- Everything has been laid out. -/
structure LaidOut (t t' : SymbolTable) : Prop where
  laid : t.Laid t'
  classes : ∀ id, (t.class? id).isSome = true → (t'.layout? id).isSome = true
  structs : ∀ id entry, t.struct? id = some entry → ∀ f ∈ entry.fields,
    (t'.fieldOffset? f).isSome = true

/-- **Layouts are found for all classes and structs.** -/
theorem finalizeLayouts_eq (hok : t.Ok) (hunlaid : t.Unlaid) (hacyclic : t.Acyclic) :
    ∃ t', t.finalizeLayouts = (none, t') ∧ t.LaidOut t' := by
  obtain ⟨t', heq, hlaid, hclasses, hstructs⟩ :=
    finalizeLayouts_kept (keptByLayout_laid hok) hacyclic hunlaid.laid
  refine ⟨t', heq, hlaid, hclasses, fun id entry hentry f hf => hstructs id entry hentry f hf ?_⟩
  obtain ⟨e, he, -⟩ := (hok id _ (struct?_eq_some_iff.1 hentry)).2 f hf
  simp [he]

/-- The order of a class has the fields that it declares. -/
theorem Order.own_mem {fields : List SymbolId} (h : t.Order id fields) {entry : ClassEntry}
    (hentry : t.class? id = some entry) {f : SymbolId} (hf : f ∈ entry.fields) : f ∈ fields := by
  cases h with
  | struct hstruct => simp [struct?_of_class? hentry] at hstruct
  | root hentry' => cases hentry.symm.trans hentry'; exact hf
  | child hentry' => cases hentry.symm.trans hentry'; exact List.mem_append_right _ hf

/-- The fields that a class stores are those of its layout. -/
theorem slots_of_layout? {layout : ClassLayout} (h : t.layout? id = some layout) :
    t.slots id = layout.fields := by
  obtain ⟨entry, hentry, hlayout⟩ := Option.bind_eq_some_iff.1 h
  have hs := SymbolTable.class?_eq_some_iff.1 hentry
  simp [slots, hs, hlayout]

/-- The slots of a struct are its fields. -/
theorem slots_of_struct? {entry : StructEntry} (h : t.struct? id = some entry) :
    t.slots id = entry.fields := by
  have hs := SymbolTable.struct?_eq_some_iff.1 h
  simp [slots, hs]

/-- A class that was laid out stores its fields in order. -/
theorem LaidOut.order (h : t.LaidOut t') (hid : (t.class? id).isSome = true) :
    t.Order id (t'.slots id) ∧ ∀ f ∈ t'.slots id, (t'.fieldOffset? f).isSome = true := by
  obtain ⟨layout, hlayout⟩ := Option.isSome_iff_exists.1 (h.classes id hid)
  obtain ⟨entry, hentry, hl⟩ := Option.bind_eq_some_iff.1 hlayout
  obtain ⟨horder, -, hoffsets⟩ := h.laid.layouts id entry layout hentry hl
  rw [slots_of_layout? hlayout]
  exact ⟨horder, hoffsets⟩

/-- Who inherits from a class is a class. -/
theorem Inherits.isClass {ancestor : SymbolId} (hi : t.Inherits id ancestor)
    (h : (t.class? ancestor).isSome = true) : (t.class? id).isSome = true := by
  rcases Relation.ReflTransGen.cases_head hi with rfl | ⟨parent, hparent, -⟩
  · exact h
  · obtain ⟨e, he, -⟩ := Option.bind_eq_some_iff.1 hparent
    simp [he]

/-- A field that a record stores stands at its number. -/
theorem LaidOut.slot (hok : t.Ok) (h : t.LaidOut t') (hstores : t.Stores record field)
    {entry : FieldEntry} (hentry : t'.field? field = some entry) :
    ∃ index, entry.offset = some index ∧ (t'.slots record)[index]? = some field := by
  -- The number is right in the record that declares the field.
  have hnumber : ∀ owner fields, t.FieldOf field owner → t.Order owner fields →
      (t'.fieldOffset? field).isSome = true →
      ∃ index, entry.offset = some index ∧ fields[index]? = some field := by
    intro owner fields hfield horder hoffset
    obtain ⟨index, hindex⟩ := Option.isSome_iff_exists.1 hoffset
    have hindex' : entry.offset = some index := by simpa [fieldOffset?, hentry] using hindex
    obtain ⟨fields', horder', hplace⟩ := h.laid.offsets field entry index hentry hindex'
    obtain ⟨entry₀, hentry₀, howner⟩ := hfield
    obtain ⟨entry₁, hentry₁, -, -, howner₁⟩ := h.laid.extend.later.field? hentry₀
    cases hentry.symm.trans hentry₁
    rw [howner₁, howner] at horder'
    exact ⟨index, hindex', by rw [← horder.unique horder', hplace]⟩
  rcases hstores with ⟨owner, e, hinherits, he, hmem⟩ | ⟨e, he, hmem⟩
  · have howner : (t.class? owner).isSome = true := by simp [he]
    obtain ⟨horder, -⟩ := h.order (SymbolTable.Inherits.isClass hinherits howner)
    obtain ⟨inherited, hinherited, hprefix⟩ := horder.isPrefix hinherits howner
    obtain ⟨horder', hoffsets⟩ := h.order howner
    have hsame : t'.slots owner = inherited := hinherited.unique horder'
    have hfield : t.FieldOf field owner := hok.class_fields he hmem
    obtain ⟨index, hindex, hplace⟩ := hnumber owner inherited hfield hinherited
      (hoffsets field (horder'.own_mem he hmem))
    obtain ⟨rest, hrest⟩ := hprefix
    refine ⟨index, hindex, ?_⟩
    rw [← hrest, List.getElem?_append_left (List.getElem?_eq_some_iff.1 hplace).1, hplace]
  · have hfield : t.FieldOf field record := by
      have hs := SymbolTable.struct?_eq_some_iff.1 he
      have hsok := hok record _ hs
      exact hsok.2 field hmem
    rw [slots_of_struct? ((h.laid.struct? record).trans he)]
    exact hnumber record e.fields hfield (.struct he) (h.structs record e he field hmem)

/-- **A field that a record stores has its number there.** -/
theorem LaidOut.fieldAt (hok : t.Ok) (h : t.LaidOut t') (hstores : t.Stores record field)
    {entry : FieldEntry} (hentry : t.field? field = some entry) :
    ∃ index ty, t'.FieldAt record field index ty ∧ t'.storageType entry.ty = .ok ty := by
  obtain ⟨entry', hentry', -, hty, howner⟩ := h.laid.extend.later.field? hentry
  have hstorable : entry.ty.Storable t := by
    have hs := SymbolTable.field?_eq_some_iff.1 hentry
    have hsok := hok field _ hs
    exact hsok
  obtain ⟨ty, hstorage, -⟩ := (hstorable.1.later h.laid.extend.later).storageType
  obtain ⟨index, hoffset, hslot⟩ := h.slot hok hstores hentry'
  exact ⟨index, ty, ⟨hslot, entry', hentry', hoffset, by rw [hty, hstorage]⟩, hstorage⟩

/-- What the generated code reads off a table in which everything has been laid out. -/
structure Placed (table : SymbolTable) : Prop where
  fields : ∀ record field entry, table.Stores record field → table.field? field = some entry →
    ∃ index ty, table.FieldAt record field index ty ∧ table.storageType entry.ty = .ok ty
  layouts : ∀ id entry, table.class? id = some entry → ∃ layout, entry.layout = some layout ∧
    (∀ g ∈ layout.dispatch, table.Callable g) ∧
    ∀ f ∈ layout.fields, (table.field? f).isSome = true

/-- In a table that is laid out every field has the number of its position. -/
theorem LaidOut.placed (hok : t.Ok) (h : t.LaidOut t') : t'.Placed where
  fields record field entry hstores hentry := by
    have hplace := h.fieldAt hok (h.laid.stores hstores) (h.laid.field? hentry)
    exact hplace
  layouts id entry hentry := by
    obtain ⟨layout, hlayout⟩ := Option.isSome_iff_exists.1
      (h.classes id ((h.laid.isClass_iff id).1 (by simp [hentry])))
    have hentry' : entry.layout = some layout := by simpa [layout?, hentry] using hlayout
    obtain ⟨-, hdispatch, hoffsets⟩ := h.laid.layouts id entry layout hentry hentry'
    refine ⟨layout, hentry', fun g hg => h.laid.extend.callable (hdispatch g hg), fun f hf => ?_⟩
    obtain ⟨index, hindex⟩ := Option.isSome_iff_exists.1 (hoffsets f hf)
    obtain ⟨field, hfield, -⟩ := Option.bind_eq_some_iff.1 hindex
    simp [hfield]

/-- Further variables and literals change nothing. -/
theorem AddsStorage.placed (hok : t.Ok) (h : t.AddsStorage t') (hplaced : t.Placed) :
    t'.Placed where
  fields record field entry hstores hentry := by
    rw [h.field?] at hentry
    obtain ⟨index, ty, ⟨hslot, entry', hentry', hoffset, hty⟩, hstorage⟩ :=
      hplaced.fields record field entry (h.stores hstores) hentry
    cases hentry.symm.trans hentry'
    have hstorable : entry.ty.Known t := by
      have hs := SymbolTable.field?_eq_some_iff.1 hentry
      have hsok := hok field _ hs
      exact hsok.1
    have hsame := hstorable.storageType_later h.extend.later
    refine ⟨index, ty, ⟨?_, entry, (h.field? _).trans hentry, hoffset, hsame.trans hty⟩,
      hsame.trans hstorage⟩
    have hlt : record < t.size := by
      refine Nat.not_le.1 fun hge => ?_
      simp [slots, get?_eq_none hge] at hslot
    rwa [slots, h.get? hlt]
  layouts id entry hentry := by
    obtain ⟨layout, hlayout, hdispatch, hfields⟩ :=
      hplaced.layouts id entry ((h.class? id).symm.trans hentry)
    refine ⟨layout, hlayout, fun g hg => h.extend.callable (hdispatch g hg), fun f hf => ?_⟩
    rw [h.field?]
    exact hfields f hf

end SymbolTable

end ClassLang
