import ClassLang.Proofs.Order.Pairing
import ClassLang.Proofs.Symbol.Arrangement

/-!
# Layouts in two orders

Classes and structs are laid out in the order of their numbers, ancestors first, so two tables with
the same symbols are laid out in different orders.  The layout of a class depends on the class and
its ancestors only, and the number of a field on the order of the fields in the record that declares
it.  Hence tables that agree still agree when they are laid out (`SymbolTable.Paired.furnished`).
-/

open List (Forall₂)

/-! ## Lists and optional values -/

section

variable {α β : Type} {R : α → β → Prop} {l : List α} {l' : List β} {o : Option α}
  {o' : Option β}

theorem Option.Rel.exists_right (h : Option.Rel R o o') {a : α} (ha : o = Option.some a) :
    ∃ b, o' = Option.some b ∧ R a b := by
  subst ha
  cases h with
  | some hab => exact ⟨_, rfl, hab⟩

theorem Option.Rel.exists_left (h : Option.Rel R o o') {b : β} (hb : o' = Option.some b) :
    ∃ a, o = Option.some a ∧ R a b := by
  subst hb
  cases h with
  | some hab => exact ⟨_, rfl, hab⟩

/-- Elements that are paired stand at the same places. -/
theorem List.Forall₂.getElem?_eq_some_iff (h : Forall₂ R l l') (hunique : Relator.BiUnique R)
    {a : α} {b : β} (hab : R a b) (i : Nat) : l'[i]? = some b ↔ l[i]? = some a := by
  induction h generalizing i with
  | nil => simp
  | @cons x y _ _ hxy _ ih =>
      cases i with
      | zero =>
          rw [List.getElem?_cons_zero, List.getElem?_cons_zero, Option.some.injEq,
            Option.some.injEq]
          exact Relator.eq_iff_eq hunique hxy hab
      | succ i =>
          rw [List.getElem?_cons_succ, List.getElem?_cons_succ]
          exact ih i

theorem List.Forall₂.set (h : Forall₂ R l l') {a : α} {b : β} (hab : R a b) (i : Nat) :
    Forall₂ R (l.set i a) (l'.set i b) := by
  induction h generalizing i with
  | nil => exact .nil
  | cons hxy hrest ih =>
      cases i with
      | zero => exact .cons hab hrest
      | succ i => exact .cons hxy (ih i)

theorem List.Forall₂.findIdx? {p : α → Bool} {q : β → Bool} (h : Forall₂ R l l')
    (hpq : ∀ a b, R a b → q b = p a) : l'.findIdx? q = l.findIdx? p := by
  induction h with
  | nil => rfl
  | cons hxy _ ih => simp only [List.findIdx?_cons, hpq _ _ hxy, ih]

end

namespace ClassLang

namespace SymbolTable

variable {hidden : SymbolId → Prop} {r : SymbolId → SymbolId → Prop}
  {t t' table table' : SymbolTable} {i j : SymbolId}

/-! ## Orders and layouts -/

section

variable (h : t.Paired hidden r t')

include h

/-- A function goes into the same slot. -/
theorem Paired.dispatchWith {slots slots' : List SymbolId} (hslots : Forall₂ r slots slots')
    (hij : r i j) : Forall₂ r (t.dispatchWith slots i) (t'.dispatchWith slots' j) := by
  have hfind : (slots'.findIdx? fun slot => t'.name slot == t'.name j) =
      slots.findIdx? fun slot => t.name slot == t.name i :=
    hslots.findIdx? fun a b hab => by rw [h.name hab, h.name hij]
  unfold SymbolTable.dispatchWith
  rw [hfind]
  split
  · exact hslots.set hij _
  · exact List.rel_append hslots (.cons hij .nil)

theorem Paired.extendLayout {entry entry' : ClassEntry} (he : entry.Paired r entry')
    {layout layout' : ClassLayout} (hlayout : layout.Paired r layout') :
    (t.extendLayout entry layout).Paired r (t'.extendLayout entry' layout') := by
  have hstep : Relator.LiftFun (Forall₂ r) (Relator.LiftFun r (Forall₂ r)) t.dispatchWith
      t'.dispatchWith := fun _ _ hslots _ _ hij => h.dispatchWith hslots hij
  exact ⟨List.rel_append hlayout.fields he.fields,
    List.rel_foldl hstep hlayout.dispatch he.functions⟩

variable (hshown : ∀ i, ¬ hidden i)

include hshown

/-- Classes without a parent are paired with classes without a parent. -/
theorem Paired.rootless {entry entry' : ClassEntry} (he : entry.Paired r entry')
    (hparent : ∀ parent ∈ entry.parent, t.class? parent = none) :
    ∀ parent ∈ entry'.parent, t'.class? parent = none := by
  intro p' hp'
  obtain ⟨p, hp, hpp⟩ := he.parent.exists_left hp'
  have hclass := h.class? hpp (hshown p)
  rw [hparent p hp] at hclass
  cases hclass' : t'.class? p' with
  | none => rfl
  | some e' =>
      rw [hclass'] at hclass
      cases hclass

/-- The fields of records that are paired have the same order. -/
theorem Paired.order {fields : List SymbolId} (hfields : t.Order i fields) (hij : r i j) :
    ∃ fields', t'.Order j fields' ∧ Forall₂ r fields fields' := by
  induction hfields generalizing j with
  | struct hentry =>
      obtain ⟨e', he', he⟩ := (h.struct? hij (hshown _)).exists_right hentry
      exact ⟨_, .struct he', he.fields⟩
  | root hentry hparent =>
      obtain ⟨e', he', he⟩ := (h.class? hij (hshown _)).exists_right hentry
      exact ⟨_, .root he' (h.rootless hshown he hparent), he.fields⟩
  | child hentry hparent hclass _ ih =>
      obtain ⟨e', he', he⟩ := (h.class? hij (hshown _)).exists_right hentry
      obtain ⟨p', hp', hpp⟩ := he.parent.exists_right hparent
      obtain ⟨fields', horder', hall⟩ := ih hpp
      exact ⟨_, .child he' hp' ((h.isSome_class? hpp).trans hclass) horder',
        List.rel_append hall he.fields⟩

/-- Classes that are paired get the same layout. -/
theorem Paired.layoutOf {layout : ClassLayout} (hlayout : t.LayoutOf i layout) (hij : r i j) :
    ∃ layout', t'.LayoutOf j layout' ∧ layout.Paired r layout' := by
  induction hlayout generalizing j with
  | first hentry hparent =>
      obtain ⟨e', he', he⟩ := (h.class? hij (hshown _)).exists_right hentry
      exact ⟨_, .first he' (h.rootless hshown he hparent), h.extendLayout he ⟨.nil, .nil⟩⟩
  | next hentry hparent _ ih =>
      obtain ⟨e', he', he⟩ := (h.class? hij (hshown _)).exists_right hentry
      obtain ⟨p', hp', hpp⟩ := he.parent.exists_right hparent
      obtain ⟨layout', hlayout', hall⟩ := ih hpp
      exact ⟨_, .next he' hp' hlayout', h.extendLayout he hall⟩

end

/-! ## Tables that are laid out -/

/-- What is known about a table when it is laid out. -/
structure Furnished (t table : SymbolTable) : Prop where
  ok : t.Ok
  acyclic : t.Acyclic
  arranged : t.Arranged table
  laidOut : t.LaidOut table

section

variable (h : t.Furnished table)

include h

/-- Records have an order, and nothing else has. -/
theorem Furnished.exists_order_iff (id : SymbolId) : (∃ fields, t.Order id fields) ↔
    (t.class? id).isSome = true ∨ (t.struct? id).isSome = true := by
  constructor
  · rintro ⟨fields, horder⟩
    cases horder with
    | struct hentry => exact .inr (by simp [hentry])
    | root hentry | child hentry => exact .inl (by simp [hentry])
  · rintro (hid | hid)
    · exact ⟨_, (h.laidOut.order hid).1⟩
    · obtain ⟨entry, hentry⟩ := Option.isSome_iff_exists.1 hid
      exact ⟨_, .struct hentry⟩

/-- **A field has the number of its place** in the order of the record that declares it. -/
theorem Furnished.fieldOffset?_eq_some_iff {f : SymbolId} {entry : FieldEntry}
    (hentry : table.field? f = some entry) {fields : List SymbolId}
    (horder : t.Order entry.owner fields) (k : Nat) :
    entry.offset = some k ↔ fields[k]? = some f := by
  constructor
  · intro hk
    obtain ⟨fields', horder', hplace⟩ := h.laidOut.laid.offsets f entry k hentry hk
    rwa [horder'.unique horder]
  · intro hplace
    have hoffset : table.fieldOffset? f = some k := by
      rcases (h.exists_order_iff entry.owner).1 ⟨fields, horder⟩ with hid | hid
      · obtain ⟨horder', -⟩ := h.laidOut.order hid
        obtain ⟨layout, hlayout⟩ := Option.isSome_iff_exists.1 (h.laidOut.classes _ hid)
        have hslots := slots_of_layout? hlayout
        have heq : fields = layout.fields := by rw [← hslots, horder.unique horder']
        have hthis := h.arranged.layouts _ _ hlayout
        obtain ⟨owner, e, hstored⟩ := hthis.field (heq ▸ List.mem_of_getElem? hplace)
        have hnodup := hthis.nodup_fields h.ok h.acyclic
        rw [← hslots] at heq hnodup
        exact h.laidOut.fieldOffset? h.ok (.inl ⟨owner, e, hstored⟩) hnodup (heq ▸ hplace)
      · obtain ⟨e, he⟩ := Option.isSome_iff_exists.1 hid
        have hslots := slots_of_struct? ((h.arranged.struct? _).trans he)
        have heq : fields = e.fields := (Order.struct he).unique horder
        have hstores := heq ▸ List.mem_of_getElem? hplace
        have hnodup := (h.ok _ _ (struct?_eq_some_iff.1 he)).1
        rw [← hslots] at heq hnodup
        exact h.laidOut.fieldOffset? h.ok (.inr ⟨e, he, hstores⟩) hnodup (heq ▸ hplace)
    simpa [fieldOffset?, hentry] using hoffset

/-- A class has the layout that it gets on top of its parent's. -/
theorem Furnished.layoutOf {entry : ClassEntry} (hentry : table.class? i = some entry) :
    ∃ layout, entry.layout = some layout ∧ t.LayoutOf i layout := by
  have hclass := (h.arranged.isClass_iff i).1 (by simp [hentry])
  obtain ⟨layout, hlayout⟩ := Option.isSome_iff_exists.1 (h.laidOut.classes i hclass)
  exact ⟨layout, by simpa [layout?, hentry] using hlayout, h.arranged.layouts i layout hlayout⟩

/-- Layouts change classes and fields only. -/
theorem Furnished.get? {s : Symbol} (hs : t.get? i = some s) :
    ∃ s', table.get? i = some s' ∧ s'.bare = s := by
  have hsame := h.arranged.same i
  rw [hs] at hsame
  exact Option.map_eq_some_iff.1 hsame

end

/-- A field has the same number in two tables. -/
theorem Paired.offset_eq (h : t.Paired hidden r t') (hunique : Relator.BiUnique r)
    (hshown : ∀ i, ¬ hidden i) (ht : t.Furnished table) (ht' : t'.Furnished table')
    {f f' : SymbolId} (hf : r f f') {entry entry' : FieldEntry}
    (hentry : table.field? f = some entry) (hentry' : table'.field? f' = some entry')
    (howner : r entry.owner entry'.owner) : entry'.offset = entry.offset := by
  refine Option.ext fun k => ?_
  by_cases horder : ∃ fields, t.Order entry.owner fields
  · obtain ⟨fields, horder⟩ := horder
    obtain ⟨fields', horder', hall⟩ := h.order hshown horder howner
    rw [ht'.fieldOffset?_eq_some_iff hentry' horder', ht.fieldOffset?_eq_some_iff hentry horder]
    exact hall.getElem?_eq_some_iff hunique hf k
  · -- A field that no record declares has no number.
    have horder' : ¬ ∃ fields, t'.Order entry'.owner fields := by
      rwa [ht'.exists_order_iff, h.isSome_class? howner,
        (h.struct? howner (hshown _)).isSome_eq, ← ht.exists_order_iff]
    constructor
    · intro hk
      obtain ⟨fields, hfields, -⟩ := ht'.laidOut.laid.offsets f' entry' k hentry' hk
      exact absurd ⟨fields, hfields⟩ horder'
    · intro hk
      obtain ⟨fields, hfields, -⟩ := ht.laidOut.laid.offsets f entry k hentry hk
      exact absurd ⟨fields, hfields⟩ horder

/-- **Tables that agree still agree when they are laid out.** -/
theorem Paired.furnished (h : t.Paired hidden r t') (hunique : Relator.BiUnique r)
    (hshown : ∀ i, ¬ hidden i) (ht : t.Furnished table) (ht' : t'.Furnished table') :
    table.Paired hidden r table' := by
  intro i j hij
  obtain ⟨s, s', hs, hs', hpaired⟩ := h.get? hij (hshown i)
  obtain ⟨d, hd, rfl⟩ := ht.get? hs
  obtain ⟨d', hd', rfl⟩ := ht'.get? hs'
  suffices hdressed : d.Paired r d' from ⟨d, d', hd, hd', hdressed.akin, fun _ => hdressed⟩
  cases d <;> cases d' <;> cases hpaired
  · next e e' he =>
    obtain ⟨layout, hlayout, hof⟩ := ht.layoutOf (class?_eq_some_iff.2 hd)
    obtain ⟨layout', hlayout', hof'⟩ := ht'.layoutOf (class?_eq_some_iff.2 hd')
    obtain ⟨layout'', hof'', hall⟩ := h.layoutOf hshown hof hij
    rw [hof'.unique hof''] at hall
    have hlayouts : Option.Rel (ClassLayout.Paired r) e.layout e'.layout := by
      rw [hlayout, hlayout']
      exact .some hall
    exact .classEntry ⟨he.name, he.parent, he.fields, he.functions, he.external, hlayouts⟩
  · exact .structEntry ‹_›
  · exact .function ‹_›
  · next e e' he =>
    exact .field ⟨he.name, he.ty, he.owner, h.offset_eq hunique hshown ht ht' hij
      (field?_eq_some_iff.2 hd) (field?_eq_some_iff.2 hd') he.owner⟩
  · exact .argument ‹_›
  · exact .localVariable ‹_›
  · exact .variadicMarker

end SymbolTable

end ClassLang
