import ClassLang.Proofs.Symbol.Growth

/-!
# Members, and tables that are complete

What a name finds in a class belongs to the class or to one it inherits from
(`hasMember_of_member?`).  Once all declarations have been read, a table only gets further
symbols, and classes and fields get their layout.  `SymbolTable.Extends` says that, and
inheritance, members and signatures stay what they are.
-/

namespace ClassLang

namespace SymbolTable

variable {t t' t'' : SymbolTable} {id record field : SymbolId}

/-- A member of a class or of one that it inherits from. -/
def HasMember (table : SymbolTable) (id member : SymbolId) : Prop :=
  ∃ owner entry, table.Inherits id owner ∧ table.class? owner = some entry ∧
    member ∈ entry.fields ++ entry.functions

/-- A field that the objects of a class or the values of a struct store. -/
def Stores (table : SymbolTable) (record field : SymbolId) : Prop :=
  (∃ owner entry, table.Inherits record owner ∧ table.class? owner = some entry ∧
    field ∈ entry.fields) ∨
  ∃ entry, table.struct? record = some entry ∧ field ∈ entry.fields

/-- Only classes that a class inherits from are among its ancestors. -/
theorem inherits_of_mem_ancestorsUpTo {fuel : Nat} {seen : List SymbolId} {ancestor : SymbolId}
    (h : ancestor ∈ t.ancestorsUpTo fuel seen id) : t.Inherits id ancestor := by
  induction fuel generalizing seen id with
  | zero => simp [ancestorsUpTo] at h
  | succ fuel ih =>
      simp only [ancestorsUpTo] at h
      split at h
      · simp at h
      · rcases List.mem_cons.1 h with rfl | h
        · exact .refl
        · split at h
          · next parent hparent => exact .head hparent (ih h)
          · simp at h

/-- What a name finds in a class is a member. -/
theorem hasMember_of_member? {name : String} {member : SymbolId}
    (h : t.member? id name = some member) : t.HasMember id member := by
  obtain ⟨owner, howner, hown⟩ := List.exists_of_findSome?_eq_some h
  obtain ⟨entry, hentry, hfind⟩ := Option.bind_eq_some_iff.1 hown
  exact ⟨owner, entry, inherits_of_mem_ancestorsUpTo howner, hentry,
    List.mem_of_find?_eq_some hfind⟩

/-- What a name finds in a struct is one of its fields. -/
theorem stores_of_structField? {name : String} (h : t.structField? id name = some field) :
    t.Stores id field := by
  obtain ⟨entry, hentry, hfind⟩ := Option.bind_eq_some_iff.1 h
  exact .inr ⟨entry, hentry, List.mem_of_find?_eq_some hfind⟩

/-- A member that is a field is stored. -/
theorem HasMember.stores (hok : t.Ok) {entry : FieldEntry} (hfield : t.field? field = some entry)
    (h : t.HasMember id field) : t.Stores id field := by
  obtain ⟨owner, e, hinherits, he, hmem⟩ := h
  refine .inl ⟨owner, e, hinherits, he, ?_⟩
  rcases List.mem_append.1 hmem with hmem | hmem
  · exact hmem
  · obtain ⟨f, hf, -⟩ := hok.class_functions he hmem
    cases (field?_eq_some_iff.1 hfield).symm.trans (function?_eq_some_iff.1 hf)

/-- A member that is a function belongs to a class that is inherited from, which lists it. -/
theorem HasMember.owner (hok : t.Ok) {entry : FunctionEntry}
    (hfunction : t.function? field = some entry) (h : t.HasMember id field) :
    ∃ owner, entry.owner = some owner ∧ t.Inherits id owner ∧ t.Callable field := by
  obtain ⟨owner, e, hinherits, he, hmem⟩ := h
  rcases List.mem_append.1 hmem with hmem | hmem
  · obtain ⟨f, hf, -⟩ := hok.class_fields he hmem
    cases (field?_eq_some_iff.1 hf).symm.trans (function?_eq_some_iff.1 hfunction)
  · obtain ⟨f, hf, howner⟩ := hok.class_functions he hmem
    rw [hfunction] at hf
    cases hf
    exact ⟨owner, howner, hinherits, .inr ⟨owner, _, he, hmem⟩⟩

end SymbolTable

/-- A symbol without what its layout says. -/
def Symbol.bare : Symbol → Symbol
  | .classEntry e => .classEntry { e with layout := none }
  | .field e => .field { e with offset := none }
  | s => s

/-- A class is bare if it has no layout. -/
theorem Symbol.bare_classEntry_iff {e : ClassEntry} :
    (Symbol.classEntry e).bare = .classEntry e ↔ e.layout = none := by
  cases e
  simp [bare, eq_comm]

/-- A field is bare if it has no number. -/
theorem Symbol.bare_field_iff {e : FieldEntry} :
    (Symbol.field e).bare = .field e ↔ e.offset = none := by
  cases e
  simp [bare, eq_comm]

/-- Layouts change nothing about what an item is. -/
theorem Symbol.isItem_bare {s : Symbol} : s.bare.IsItem ↔ s.IsItem := by
  cases s <;> rfl

/-- A symbol that differs by its layout only is a later state of the symbol. -/
theorem Symbol.later_of_bare_eq {s s' : Symbol} (h : s'.bare = s.bare) : s.Later s' := by
  cases s <;> cases s' <;> simp_all [bare, Later]

namespace SymbolTable

variable {t t' t'' : SymbolTable} {id record field : SymbolId}

/-- Nothing has been laid out. -/
def Unlaid (table : SymbolTable) : Prop := ∀ id s, table.get? id = some s → s.bare = s

/-- A table with further symbols, or with layouts. -/
def Extends (t t' : SymbolTable) : Prop :=
  ∀ id s, t.get? id = some s → ∃ s', t'.get? id = some s' ∧ s'.bare = s.bare

/-- A table extends itself. -/
theorem Extends.refl (t : SymbolTable) : t.Extends t := fun _ s h => ⟨s, h, rfl⟩

/-- Extensions are composed. -/
theorem Extends.trans (h : t.Extends t') (h' : t'.Extends t'') : t.Extends t'' := by
  intro id s hs
  obtain ⟨s₁, hs₁, hbare⟩ := h id s hs
  obtain ⟨s₂, hs₂, hbare'⟩ := h' id s₁ hs₁
  exact ⟨s₂, hs₂, hbare'.trans hbare⟩

/-- A table with one more symbol extends it. -/
theorem extends_add (t : SymbolTable) (s : Symbol) : t.Extends (t.add s) :=
  fun _ s₁ h => ⟨s₁, get?_add_of_some s h, rfl⟩

/-- An extension is a later state. -/
theorem Extends.later (h : t.Extends t') : t.Later t' := by
  intro id s hs
  obtain ⟨s', hs', hbare⟩ := h id s hs
  exact ⟨s', hs', Symbol.later_of_bare_eq hbare⟩

section

variable (h : t.Extends t')

include h

/-- An extension changes the entry of a class in its layout only. -/
theorem Extends.class? {e : ClassEntry} (he : t.class? id = some e) :
    ∃ e', t'.class? id = some e' ∧ e'.name = e.name ∧ e'.parent = e.parent ∧
      e'.fields = e.fields ∧ e'.functions = e.functions ∧ e'.external = e.external := by
  obtain ⟨s', hs', hbare⟩ := h id _ (class?_eq_some_iff.1 he)
  cases s' <;> simp only [Symbol.bare, reduceCtorEq, Symbol.classEntry.injEq] at hbare
  next e' =>
    refine ⟨e', class?_eq_some_iff.2 hs', ?_⟩
    simp only [ClassEntry.mk.injEq] at hbare
    simp only [hbare, and_self]

/-- An extension changes no struct. -/
theorem Extends.struct? {e : StructEntry} (he : t.struct? id = some e) :
    t'.struct? id = some e := by
  obtain ⟨s', hs', hbare⟩ := h id _ (struct?_eq_some_iff.1 he)
  cases s' <;> simp only [Symbol.bare, reduceCtorEq, Symbol.structEntry.injEq] at hbare
  exact struct?_eq_some_iff.2 (hbare ▸ hs')

/-- An extension changes no function. -/
theorem Extends.function? {e : FunctionEntry} (he : t.function? id = some e) :
    t'.function? id = some e := by
  obtain ⟨s', hs', hbare⟩ := h id _ (function?_eq_some_iff.1 he)
  cases s' <;> simp only [Symbol.bare, reduceCtorEq, Symbol.function.injEq] at hbare
  exact function?_eq_some_iff.2 (hbare ▸ hs')

/-- What may be called may be called in an extension. -/
theorem Extends.callable {function : SymbolId} (hcallable : t.Callable function) :
    t'.Callable function := by
  rcases hcallable with ⟨entry, hentry, howner⟩ | ⟨c, entry, hentry, hmem⟩
  · exact .inl ⟨entry, h.function? hentry, howner⟩
  · obtain ⟨entry', hentry', -, -, -, hfunctions, -⟩ := h.class? hentry
    exact .inr ⟨c, entry', hentry', hfunctions ▸ hmem⟩

/-- A variable that is stored is stored in an extension. -/
theorem Extends.storedVariable? {e : VariableEntry} (he : t.storedVariable? id = some e) :
    t'.storedVariable? id = some e := by
  obtain ⟨s, hs, hstored⟩ := Option.bind_eq_some_iff.1 he
  obtain ⟨s', hs', hbare⟩ := h id s hs
  cases s <;> simp only [Symbol.storedVariable?, reduceCtorEq, Option.some.injEq] at hstored <;>
    subst hstored <;>
    cases s' <;> simp_all [Symbol.bare, SymbolTable.storedVariable?, Symbol.storedVariable?]

/-- The type of a symbol stays in an extension. -/
theorem Extends.symbolType (hid : id < t.size) : t'.symbolType id = t.symbolType id := by
  obtain ⟨s, hs⟩ := Option.isSome_iff_exists.1 ((t.isSome_get?_iff id).2 hid)
  obtain ⟨s', hs', hbare⟩ := h id s hs
  cases s <;> cases s' <;> simp_all [Symbol.bare, SymbolTable.symbolType]

/-- The parent of a class stays in an extension. -/
theorem Extends.parent? {parent : SymbolId} (hparent : t.parent? id = some parent) :
    t'.parent? id = some parent := by
  obtain ⟨e, he, hp⟩ := Option.bind_eq_some_iff.1 hparent
  obtain ⟨e', he', -, hparent', -⟩ := h.class? he
  simp [SymbolTable.parent?, he', hparent', hp]

/-- Inheritance stays in an extension. -/
theorem Extends.inherits {ancestor : SymbolId} (hi : t.Inherits id ancestor) :
    t'.Inherits id ancestor :=
  Relation.ReflTransGen.mono (fun _ _ hparent => h.parent? hparent) _ _ hi

/-- What a record stores it stores in an extension. -/
theorem Extends.stores (hs : t.Stores record field) : t'.Stores record field := by
  rcases hs with ⟨owner, e, hinherits, he, hmem⟩ | ⟨e, he, hmem⟩
  · obtain ⟨e', he', -, -, hfields, -⟩ := h.class? he
    exact .inl ⟨owner, e', h.inherits hinherits, he', by rwa [hfields]⟩
  · exact .inr ⟨e, h.struct? he, hmem⟩

end

section

variable {t t' : SymbolTable} (h : t.Later t')

include h

/-- The arguments of a signature are declared alike in a later table. -/
theorem Later.declaredArguments {e : FunctionEntry} (hargs : ∀ a ∈ e.arguments, t.Listable a) :
    t'.declaredArguments e = t.declaredArguments e := by
  refine List.filter_congr fun a ha => ?_
  rcases hargs a ha with hmark | ⟨v, hv⟩
  · rw [hmark, h.variadicMarker hmark]
  · rw [hv, h.argument hv]

/-- Symbols keep their names. -/
theorem Later.name {id : SymbolId} (hid : id < t.size) : t'.name id = t.name id := by
  obtain ⟨s, hs⟩ := Option.isSome_iff_exists.1 ((t.isSome_get?_iff id).2 hid)
  obtain ⟨s', hs', hlater⟩ := h id s hs
  cases s <;> cases s' <;> simp_all [Symbol.Later, SymbolTable.name, Symbol.name]

end

/-- What is declared stays right in a table that has more. -/
theorem Ok.of_bare {s s' : Symbol} (hbare : s'.bare = s.bare) (hs : s.Ok t id) : s'.Ok t id := by
  cases s <;> cases s' <;> simp_all [Symbol.bare, Symbol.Ok]

end SymbolTable

/-- Known types keep their storage types. -/
theorem Ty.Known.storageType_later {t t' : SymbolTable} {ty : Ty} (h : ty.Known t)
    (hlater : t.Later t') : t'.storageType ty = t.storageType ty := by
  induction ty with
  | primitive p => cases p <;> rfl
  | pointer base ih => simp only [SymbolTable.storageType, ih h]
  | classType id =>
      obtain ⟨entry, hentry⟩ := Option.isSome_iff_exists.1 h
      have hs := SymbolTable.class?_eq_some_iff.1 hentry
      simp only [SymbolTable.storageType, hlater.name (SymbolTable.lt_size_of_get? hs)]
  | structType id =>
      obtain ⟨entry, hentry⟩ := Option.isSome_iff_exists.1 h
      have hs := SymbolTable.struct?_eq_some_iff.1 hentry
      simp only [SymbolTable.storageType, hlater.name (SymbolTable.lt_size_of_get? hs)]
  | array base size => exact h.elim
  | function id => exact h.elim
  | error => exact h.elim

/-! ## Variables and literals come last -/

/-- What only holds a value: a local variable or the storage of a string literal. -/
def Symbol.IsStorage : Symbol → Prop
  | .localVariable _ | .literal _ => True
  | _ => False

namespace SymbolTable

variable {t t' t'' : SymbolTable} {id : SymbolId}

/-- A table with further variables and literals, and nothing else. -/
def AddsStorage (t t' : SymbolTable) : Prop :=
  ∃ more, t'.symbols = t.symbols ++ more ∧ ∀ s ∈ more, s.IsStorage

/-- Nothing is added. -/
theorem AddsStorage.refl (t : SymbolTable) : t.AddsStorage t := ⟨[], by simp⟩

/-- Additions are composed. -/
theorem AddsStorage.trans (h : t.AddsStorage t') (h' : t'.AddsStorage t'') :
    t.AddsStorage t'' := by
  obtain ⟨more, heq, hall⟩ := h
  obtain ⟨more', heq', hall'⟩ := h'
  exact ⟨more ++ more', by simp [heq', heq], by simp_all [or_imp]⟩

/-- One more variable or literal is an addition. -/
theorem addsStorage_add (t : SymbolTable) {s : Symbol} (hs : s.IsStorage) :
    t.AddsStorage (t.add s) :=
  ⟨[s], rfl, by simpa using hs⟩

section

variable (h : t.AddsStorage t')

include h

/-- What was there stays as it is. -/
theorem AddsStorage.get? (hid : id < t.size) : t'.get? id = t.get? id := by
  obtain ⟨more, heq, -⟩ := h
  simpa [SymbolTable.get?, heq] using List.getElem?_append_left hid

/-- What is new only holds a value. -/
theorem AddsStorage.new (hid : t.size ≤ id) {s : Symbol} (hs : t'.get? id = some s) :
    s.IsStorage := by
  obtain ⟨more, heq, hall⟩ := h
  rw [SymbolTable.get?, heq, List.getElem?_append_right hid] at hs
  exact hall s (List.mem_of_getElem? hs)

/-- Added storage is an extension. -/
theorem AddsStorage.extend : t.Extends t' := fun _ s hs =>
  ⟨s, (h.get? (lt_size_of_get? hs)).trans hs, rfl⟩

/-- Items are not added. -/
theorem AddsStorage.item {s : Symbol} (hs : t'.get? id = some s) (hitem : s.IsItem) :
    t.get? id = some s := by
  rcases Nat.lt_or_ge id t.size with hlt | hge
  · exact (h.get? hlt).symm.trans hs
  · have hstorage := h.new hge hs
    cases s <;> simp_all [Symbol.IsStorage, Symbol.IsItem]

/-- Nothing is added that storage is not. -/
theorem AddsStorage.bind_get? {α : Type} {f : Symbol → Option α}
    (hf : ∀ s : Symbol, s.IsStorage → f s = none) (id : SymbolId) :
    (t'.get? id).bind f = (t.get? id).bind f := by
  rcases Nat.lt_or_ge id t.size with hlt | hge
  · rw [h.get? hlt]
  · rw [get?_eq_none hge]
    cases hs : t'.get? id with
    | none => rfl
    | some s => exact hf s (h.new hge hs)

/-- Added storage changes no class. -/
theorem AddsStorage.class? (id : SymbolId) : t'.class? id = t.class? id :=
  h.bind_get? (fun s hs => by cases s <;> simp_all [Symbol.IsStorage, Symbol.class?]) id

/-- Added storage changes no struct. -/
theorem AddsStorage.struct? (id : SymbolId) : t'.struct? id = t.struct? id :=
  h.bind_get? (fun s hs => by cases s <;> simp_all [Symbol.IsStorage, Symbol.struct?]) id

/-- Added storage changes no field. -/
theorem AddsStorage.field? (id : SymbolId) : t'.field? id = t.field? id :=
  h.bind_get? (fun s hs => by cases s <;> simp_all [Symbol.IsStorage, Symbol.field?]) id

/-- Added storage changes no function. -/
theorem AddsStorage.function? (id : SymbolId) : t'.function? id = t.function? id :=
  h.bind_get? (fun s hs => by cases s <;> simp_all [Symbol.IsStorage, Symbol.function?]) id

/-- Added storage changes no parent. -/
theorem AddsStorage.parent? (id : SymbolId) : t'.parent? id = t.parent? id := by
  rw [SymbolTable.parent?, SymbolTable.parent?, h.class?]

/-- No field is stored that was not stored before. -/
theorem AddsStorage.stores {record field : SymbolId} (hstores : t'.Stores record field) :
    t.Stores record field := by
  rcases hstores with ⟨owner, entry, hinherits, hentry, hmem⟩ | ⟨entry, hentry, hmem⟩
  · refine .inl ⟨owner, entry, ?_, (h.class? owner).symm.trans hentry, hmem⟩
    exact Relation.ReflTransGen.mono (fun a b hab => (h.parent? a).symm.trans hab) _ _ hinherits
  · exact .inr ⟨entry, (h.struct? record).symm.trans hentry, hmem⟩

/-- Added storage lays nothing out. -/
theorem AddsStorage.unlaid (hunlaid : t.Unlaid) : t'.Unlaid := by
  intro id s hs
  rcases Nat.lt_or_ge id t.size with hlt | hge
  · exact hunlaid id s ((h.get? hlt).symm.trans hs)
  · have hnew := h.new hge hs
    cases s <;> simp_all [Symbol.IsStorage, Symbol.bare]

end

end SymbolTable

end ClassLang
