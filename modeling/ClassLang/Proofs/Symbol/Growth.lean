import ClassLang.Proofs.Symbol.Records

/-!
# How a symbol table grows

A table only ever grows: symbols are added, and an entry that is there may learn more (a
class its members, a function its signature), but it never changes its kind, its name or
its owner.  `SymbolTable.Later` says so, and what the checks below ask of a table is kept
by every later one.

* `Ty.Known` : every name in a type stands for a class or a struct;
* `Symbol.Ok` : what an entry says about other symbols is true of them, and its types are
  known;
* `SymbolTable.Ok` : all entries are like that.
-/

namespace ClassLang

namespace Symbol

/-- A symbol may stand later for another one: kind, name and owner stay, and so does a
signature once it is known. -/
def Later : Symbol → Symbol → Prop
  | .classEntry e, .classEntry e' => e'.name = e.name ∧ e'.external = e.external
  | .structEntry e, .structEntry e' => e'.name = e.name
  | .function e, .function e' =>
    e'.name = e.name ∧ e'.linkName = e.linkName ∧ e'.owner = e.owner ∧ e'.traits = e.traits ∧
      (e.resolved = true → e' = e)
  | .field e, .field e' => e'.name = e.name ∧ e'.ty = e.ty ∧ e'.owner = e.owner
  | s, s' => s' = s

/-- A symbol may stand for itself. -/
theorem Later.refl (s : Symbol) : s.Later s := by
  cases s <;> simp [Later]

/-- What may stand later may stand still later. -/
theorem Later.trans {s s' s'' : Symbol} (h : s.Later s') (h' : s'.Later s'') : s.Later s'' := by
  cases s <;> cases s' <;> simp only [Later, reduceCtorEq] at h <;>
    cases s'' <;> simp only [Later, reduceCtorEq] at h' ⊢ <;> grind

/-- The symbols of top-level items. -/
def IsItem : Symbol → Prop
  | .classEntry _ | .structEntry _ => True
  | .function e => e.owner = none
  | _ => False

/-- A class, a struct or a function stays one, and nothing else becomes one. -/
theorem Later.isItem_iff {s s' : Symbol} (h : s.Later s') : s'.IsItem ↔ s.IsItem := by
  cases s <;> cases s' <;> simp_all [IsItem, Later]

/-- A class is an item. -/
theorem isItem_of_class? {s : Symbol} {e : ClassEntry} (h : s.class? = some e) : s.IsItem := by
  cases s <;> simp_all [class?, IsItem]

/-- A struct is an item. -/
theorem isItem_of_struct? {s : Symbol} {e : StructEntry} (h : s.struct? = some e) : s.IsItem := by
  cases s <;> simp_all [struct?, IsItem]

end Symbol

namespace SymbolTable

variable {t t' t'' : SymbolTable} {id : SymbolId}

/-- A table that may come later. -/
def Later (t t' : SymbolTable) : Prop :=
  ∀ id s, t.get? id = some s → ∃ s', t'.get? id = some s' ∧ s.Later s'

/-- A table may come behind itself. -/
theorem Later.refl (t : SymbolTable) : t.Later t := fun _ s h => ⟨s, h, .refl s⟩

/-- What may come later may come still later. -/
theorem Later.trans (h : t.Later t') (h' : t'.Later t'') : t.Later t'' := by
  intro id s hs
  obtain ⟨s₁, hs₁, hlater⟩ := h id s hs
  obtain ⟨s₂, hs₂, hlater'⟩ := h' id s₁ hs₁
  exact ⟨s₂, hs₂, hlater.trans hlater'⟩

/-- A number under which a symbol stands has been given out. -/
theorem lt_size_of_get? {s : Symbol} (h : t.get? id = some s) : id < t.size :=
  (t.isSome_get?_iff id).1 (by simp [h])

/-- Under a number that has not been given out there is no symbol. -/
theorem get?_eq_none (h : t.size ≤ id) : t.get? id = none := by
  simpa [get?, size] using h

/-- What stands under a number after a symbol was added. -/
theorem get?_add (t : SymbolTable) (s : Symbol) (id : SymbolId) :
    (t.add s).get? id = if id = t.size then some s else t.get? id := by
  rcases Nat.lt_trichotomy id t.size with h | h | h
  · rw [get?_add_of_lt t s h, if_neg (Nat.ne_of_lt h)]
  · rw [h, get?_add_size, if_pos rfl]
  · have hnone : t.get? id = none := by
      simpa [get?, size] using Nat.le_of_lt h
    have hnone' : (t.add s).get? id = none := by
      have hlen : (t.symbols ++ [s]).length ≤ id := by
        simpa [size, Nat.succ_le_iff] using h
      simpa [get?, add] using hlen
    rw [hnone', hnone, if_neg (Nat.ne_of_gt h)]

/-- A symbol that is added leaves the others where they are. -/
theorem get?_add_of_some (s : Symbol) {s₁ : Symbol} (h : t.get? id = some s₁) :
    (t.add s).get? id = some s₁ := by
  rw [get?_add_of_lt t s (lt_size_of_get? h), h]

/-- A table with one more symbol may come later. -/
theorem later_add (t : SymbolTable) (s : Symbol) : t.Later (t.add s) :=
  fun _ s₁ h => ⟨s₁, get?_add_of_some s h, .refl s₁⟩

/-- Changing one symbol gives a later table if that symbol may change so. -/
theorem later_modify {f : Symbol → Symbol} (h : ∀ s, t.get? id = some s → s.Later (f s)) :
    t.Later (t.modify id f) := by
  intro other s hs
  rw [get?_modify]
  by_cases heq : id = other
  · subst heq
    exact ⟨f s, by simp [hs], h s hs⟩
  · exact ⟨s, by simp [heq, hs], .refl s⟩

/-- A class with a parent may stand for one without. -/
theorem later_setParent (t : SymbolTable) (id parent : SymbolId) :
    t.Later (t.setParent id parent) :=
  later_modify fun s _ => by cases s <;> simp [Symbol.Later]

/-- One more field changes nothing else of its owner. -/
theorem later_pushField (t : SymbolTable) (owner field : SymbolId) :
    t.Later (t.pushField owner field) :=
  later_modify fun s _ => by cases s <;> simp [Symbol.Later]

/-- One more function changes nothing else of its class. -/
theorem later_pushFunction (t : SymbolTable) (id function : SymbolId) :
    t.Later (t.pushFunction id function) :=
  later_modify fun s _ => by cases s <;> simp [Symbol.Later]

/-- Another function for making objects changes nothing else of its class. -/
theorem later_replaceFunction (t : SymbolTable) (id old new : SymbolId) :
    t.Later (t.replaceFunction id old new) :=
  later_modify fun s _ => by cases s <;> simp [Symbol.Later]

/-- A function that gets its signature. -/
theorem later_sign {entry : FunctionEntry} (h : t.function? id = some entry)
    (hresolved : entry.resolved = false) (returnType : Ty) (arguments : List SymbolId) :
    t.Later (t.modify id fun _ =>
      .function { entry with returnType, arguments, resolved := true }) := by
  refine later_modify fun s hs => ?_
  have hfunction : s.function? = some entry := by simpa [function?, hs] using h
  cases s <;> simp_all [Symbol.function?, Symbol.Later]

section Lookups

variable (hlater : t.Later t')

include hlater

/-- A class stays a class, with its name. -/
theorem Later.class? {e : ClassEntry} (h : t.class? id = some e) :
    ∃ e', t'.class? id = some e' ∧ e'.name = e.name ∧ e'.external = e.external := by
  obtain ⟨s', hs', hl⟩ := hlater id _ (class?_eq_some_iff.1 h)
  cases s' <;> simp only [Symbol.Later, reduceCtorEq] at hl
  exact ⟨_, class?_eq_some_iff.2 hs', hl⟩

/-- A struct stays a struct, with its name. -/
theorem Later.struct? {e : StructEntry} (h : t.struct? id = some e) :
    ∃ e', t'.struct? id = some e' ∧ e'.name = e.name := by
  obtain ⟨s', hs', hl⟩ := hlater id _ (struct?_eq_some_iff.1 h)
  cases s' <;> simp only [Symbol.Later, reduceCtorEq] at hl
  exact ⟨_, struct?_eq_some_iff.2 hs', hl⟩

/-- A function stays a function; a signature that is known stays as well. -/
theorem Later.function? {e : FunctionEntry} (h : t.function? id = some e) :
    ∃ e', t'.function? id = some e' ∧ e'.name = e.name ∧ e'.linkName = e.linkName ∧
      e'.owner = e.owner ∧ e'.traits = e.traits ∧ (e.resolved = true → e' = e) := by
  obtain ⟨s', hs', hl⟩ := hlater id _ (function?_eq_some_iff.1 h)
  cases s' <;> simp only [Symbol.Later, reduceCtorEq] at hl
  exact ⟨_, function?_eq_some_iff.2 hs', hl⟩

/-- A field stays a field, with its type and its owner. -/
theorem Later.field? {e : FieldEntry} (h : t.field? id = some e) :
    ∃ e', t'.field? id = some e' ∧ e'.name = e.name ∧ e'.ty = e.ty ∧ e'.owner = e.owner := by
  obtain ⟨s', hs', hl⟩ := hlater id _ (field?_eq_some_iff.1 h)
  cases s' <;> simp only [Symbol.Later, reduceCtorEq] at hl
  exact ⟨_, field?_eq_some_iff.2 hs', hl⟩

/-- An argument stays as it is. -/
theorem Later.argument {e : VariableEntry} (h : t.get? id = some (.argument e)) :
    t'.get? id = some (.argument e) := by
  obtain ⟨s', hs', hl⟩ := hlater id _ h
  cases s' <;> simp_all [Symbol.Later]

/-- A variable of a body stays as it is. -/
theorem Later.localVariable {e : VariableEntry} (h : t.get? id = some (.localVariable e)) :
    t'.get? id = some (.localVariable e) := by
  obtain ⟨s', hs', hl⟩ := hlater id _ h
  cases s' <;> simp_all [Symbol.Later]

/-- The mark for further arguments stays as it is. -/
theorem Later.variadicMarker (h : t.get? id = some .variadicMarker) :
    t'.get? id = some .variadicMarker := by
  obtain ⟨s', hs', hl⟩ := hlater id _ h
  cases s' <;> simp_all [Symbol.Later]

/-- No symbol is taken away. -/
theorem Later.size_le : t.size ≤ t'.size := by
  refine Nat.not_lt.1 fun hlt => ?_
  obtain ⟨s, hs⟩ := Option.isSome_iff_exists.1 ((t.isSome_get?_iff t'.size).2 hlt)
  obtain ⟨s', hs', -⟩ := hlater t'.size s hs
  exact Nat.lt_irrefl _ (lt_size_of_get? hs')

end Lookups

end SymbolTable

/-! ## Known types -/

/-- Every name in the type stands for a class or a struct, and nothing in it could not be
resolved. -/
def Ty.Known (table : SymbolTable) : Ty → Prop
  | .primitive _ => True
  | .pointer base => base.Known table
  | .classType id => (table.class? id).isSome = true
  | .structType id => (table.struct? id).isSome = true
  | .array _ _ | .function _ | .error => False

namespace Ty

variable {t t' : SymbolTable} {ty a b : Ty}

/-- A type that is known stays known. -/
theorem Known.later (h : ty.Known t) (hlater : t.Later t') : ty.Known t' := by
  induction ty with
  | primitive p => trivial
  | pointer base ih => exact ih h
  | classType id =>
      obtain ⟨e, he⟩ := Option.isSome_iff_exists.1 h
      obtain ⟨e', he', -⟩ := hlater.class? he
      simp [Known, he']
  | structType id =>
      obtain ⟨e, he⟩ := Option.isSome_iff_exists.1 h
      obtain ⟨e', he', -⟩ := hlater.struct? he
      simp [Known, he']
  | array base size ih => exact h.elim
  | function id => exact h.elim
  | error => exact h.elim

/-- A type that is known is not the one that stands for an error. -/
theorem Known.isError (h : ty.Known t) : ty.isError = false := by
  cases ty <;> simp_all [Known, Ty.isError]

/-- A pointer is known if what it points to is. -/
theorem known_pointers (base : Ty) (depth : Nat) :
    (base.pointers depth).Known t ↔ base.Known t := by
  induction depth with
  | zero => rfl
  | succ depth ih => exact ih

/-- A known type has a storage type, and that is `void` only for `void`. -/
theorem Known.storageType (h : ty.Known t) :
    ∃ s, t.storageType ty = .ok s ∧ s.isVoid = ty.isVoid := by
  induction ty with
  | primitive p => cases p <;> exact ⟨_, rfl, rfl⟩
  | pointer base ih =>
      obtain ⟨s, hs, -⟩ := ih h
      exact ⟨.pointer s, by rw [SymbolTable.storageType, hs]; rfl, rfl⟩
  | classType id => exact ⟨_, rfl, rfl⟩
  | structType id => exact ⟨_, rfl, rfl⟩
  | array base size ih => exact h.elim
  | function id => exact h.elim
  | error => exact h.elim

/-- Between known types, only equal ones are assignable. -/
theorem Known.eq_of_isAssignableTo (ha : a.Known t) (hb : b.Known t)
    (h : a.isAssignableTo b = true) : a = b := by
  induction a generalizing b with
  | pointer base ih =>
      cases b with
      | pointer base' =>
          have heq : base = base' := ih ha hb (by simpa [isAssignableTo] using h)
          rw [heq]
      | error => exact hb.elim
      | _ => simp [isAssignableTo] at h
  | error => exact ha.elim
  | _ => cases b <;> simp_all [isAssignableTo, Known]

end Ty

/-! ## Entries that are right -/

namespace SymbolTable

variable {t t' : SymbolTable} {id : SymbolId}

/-- A field of a class or a struct. -/
def FieldOf (table : SymbolTable) (field owner : SymbolId) : Prop :=
  ∃ entry, table.field? field = some entry ∧ entry.owner = owner

/-- A function of a class. -/
def FunctionOf (table : SymbolTable) (function owner : SymbolId) : Prop :=
  ∃ entry, table.function? function = some entry ∧ entry.owner = some owner

/-- Something that a signature lists: an argument, or the mark for further ones. -/
def Listable (table : SymbolTable) (argument : SymbolId) : Prop :=
  table.get? argument = some .variadicMarker ∨
    ∃ entry, table.get? argument = some (.argument entry)

/-- How many string literals have a smaller number. -/
def literalsBefore (table : SymbolTable) (id : SymbolId) : Nat :=
  (List.range id).countP fun k => (table.literal? k).isSome

/-- A symbol that is there never becomes a literal, and never stops being one. -/
theorem Later.literalsBefore (hlater : t.Later t') (hid : id ≤ t.size) :
    t'.literalsBefore id = t.literalsBefore id := by
  refine List.countP_congr fun k hk => ?_
  have hlt : k < t.size := Nat.lt_of_lt_of_le (List.mem_range.1 hk) hid
  obtain ⟨s, hs⟩ := Option.isSome_iff_exists.1 ((t.isSome_get?_iff k).2 hlt)
  obtain ⟨s', hs', hsymbol⟩ := hlater k s hs
  cases s <;> cases s' <;> simp_all [literal?, Symbol.literal?, Symbol.Later]

/-- A field stays one of its owner. -/
theorem FieldOf.later {field owner : SymbolId} (h : t.FieldOf field owner)
    (hlater : t.Later t') : t'.FieldOf field owner := by
  obtain ⟨entry, hentry, howner⟩ := h
  obtain ⟨entry', hentry', -, -, howner'⟩ := hlater.field? hentry
  exact ⟨entry', hentry', howner'.trans howner⟩

/-- A function stays one of its class. -/
theorem FunctionOf.later {function owner : SymbolId} (h : t.FunctionOf function owner)
    (hlater : t.Later t') : t'.FunctionOf function owner := by
  obtain ⟨entry, hentry, howner⟩ := h
  obtain ⟨entry', hentry', -, -, howner', -⟩ := hlater.function? hentry
  exact ⟨entry', hentry', howner'.trans howner⟩

/-- What may be listed as an argument may be later. -/
theorem Listable.later {argument : SymbolId} (h : t.Listable argument)
    (hlater : t.Later t') : t'.Listable argument := by
  rcases h with h | ⟨entry, h⟩
  · exact .inl (hlater.variadicMarker h)
  · exact .inr ⟨entry, hlater.argument h⟩

/-- What may be listed as an argument has been given a number. -/
theorem Listable.lt_size {argument : SymbolId} (h : t.Listable argument) : argument < t.size := by
  rcases h with h | ⟨entry, h⟩ <;> exact lt_size_of_get? h

/-- A field has been given a number. -/
theorem FieldOf.lt_size {field owner : SymbolId} (h : t.FieldOf field owner) : field < t.size := by
  obtain ⟨entry, hentry, -⟩ := h
  exact lt_size_of_get? (field?_eq_some_iff.1 hentry)

end SymbolTable

/-- The type of a variable, a field or an argument: known, and not `void`. -/
def Ty.Storable (table : SymbolTable) (ty : Ty) : Prop := ty.Known table ∧ ty.isVoid = false

/-- What can be stored can be stored later. -/
theorem Ty.Storable.later {t t' : SymbolTable} {ty : Ty} (h : ty.Storable t)
    (hlater : t.Later t') : ty.Storable t' :=
  ⟨h.1.later hlater, h.2⟩

/-- What an entry says about other symbols is true, and its types are known.  The functions of
a class carry its name, and string literals are counted. -/
def Symbol.Ok (table : SymbolTable) (id : SymbolId) : Symbol → Prop
  | .classEntry e =>
    e.fields.Nodup ∧ (∀ f ∈ e.fields, table.FieldOf f id) ∧
      (∀ g ∈ e.functions, table.FunctionOf g id)
  | .structEntry e => e.fields.Nodup ∧ ∀ f ∈ e.fields, table.FieldOf f id
  | .function e =>
    (∀ c ∈ e.owner, ∃ entry, table.class? c = some entry ∧
        e.linkName = entry.name ++ "_" ++ e.name) ∧
      (e.resolved = true → e.returnType.Known table ∧ ∀ a ∈ e.arguments, table.Listable a)
  | .field e => e.ty.Storable table
  | .argument e | .localVariable e => e.ty.Storable table
  | .literal e => id < table.size ∧ e.index = table.literalsBefore id
  | .variadicMarker => True

/-- A symbol that is in order is so in a later table. -/
theorem Symbol.Ok.later {t t' : SymbolTable} {id : SymbolId} {s : Symbol} (h : s.Ok t id)
    (hlater : t.Later t') : s.Ok t' id := by
  cases s with
  | classEntry e =>
      obtain ⟨hnodup, hfields, hfunctions⟩ := h
      exact ⟨hnodup, fun f hf => (hfields f hf).later hlater,
        fun g hg => (hfunctions g hg).later hlater⟩
  | structEntry e =>
      obtain ⟨hnodup, hfields⟩ := h
      exact ⟨hnodup, fun f hf => (hfields f hf).later hlater⟩
  | function e =>
      obtain ⟨howner, hsignature⟩ := h
      refine ⟨fun c hc => ?_, fun hresolved => ?_⟩
      · obtain ⟨entry, hentry, hlink⟩ := howner c hc
        obtain ⟨entry', hentry', hname, -⟩ := hlater.class? hentry
        exact ⟨entry', hentry', hname ▸ hlink⟩
      · obtain ⟨hreturn, harguments⟩ := hsignature hresolved
        exact ⟨hreturn.later hlater, fun a ha => (harguments a ha).later hlater⟩
  | field e => exact Ty.Storable.later h hlater
  | argument e => exact Ty.Storable.later h hlater
  | localVariable e => exact Ty.Storable.later h hlater
  | literal e =>
      exact ⟨Nat.lt_of_lt_of_le h.1 hlater.size_le,
        h.2.trans (hlater.literalsBefore (Nat.le_of_lt h.1)).symm⟩
  | variadicMarker => trivial

namespace SymbolTable

variable {t : SymbolTable} {id : SymbolId}

/-- All entries of a table are right. -/
def Ok (table : SymbolTable) : Prop := ∀ id s, table.get? id = some s → s.Ok table id

/-- **The table that every analysis starts with is in order.** -/
theorem ok_initial : initial.Ok := by
  intro id s h
  have hlt : id < 5 := lt_size_of_get? h
  match id, hlt with
  | 0, _ =>
      simp only [initial, get?, List.getElem?_cons_zero, Option.some.injEq] at h
      subst h
      simp [Symbol.Ok, FieldOf, FunctionOf, field?, function?, get?, initial, Symbol.field?,
        Symbol.function?, rootFunction, FunctionEntry.memberOf, rootClass]
  | 1, _ =>
      simp only [initial, get?, List.getElem?_cons_succ, List.getElem?_cons_zero,
        Option.some.injEq] at h
      subst h
      exact ⟨trivial, rfl⟩
  | 2, _ =>
      simp only [initial, get?, List.getElem?_cons_succ, List.getElem?_cons_zero,
        Option.some.injEq] at h
      subst h
      exact ⟨trivial, rfl⟩
  | 3, _ | 4, _ =>
      simp only [initial, get?, List.getElem?_cons_succ, List.getElem?_cons_zero,
        Option.some.injEq] at h
      subst h
      refine ⟨?_, fun _ => ⟨trivial, fun _ ha => by cases ha⟩⟩
      rintro c ⟨⟩
      exact ⟨_, rfl, rfl⟩

/-- The fields of a class are fields that belong to it. -/
theorem Ok.class_fields (h : t.Ok) {entry : ClassEntry} (hentry : t.class? id = some entry)
    {field : SymbolId} (hfield : field ∈ entry.fields) : t.FieldOf field id := by
  have hs := SymbolTable.class?_eq_some_iff.1 hentry
  have hsok := h id _ hs
  exact hsok.2.1 field hfield

/-- The functions of a class are functions that belong to it. -/
theorem Ok.class_functions (h : t.Ok) {entry : ClassEntry} (hentry : t.class? id = some entry)
    {g : SymbolId} (hg : g ∈ entry.functions) : t.FunctionOf g id := by
  have hs := SymbolTable.class?_eq_some_iff.1 hentry
  have hsok := h id _ hs
  exact hsok.2.2 g hg

/-- A function of a class carries the name of the class. -/
theorem Ok.owner (h : t.Ok) {function : SymbolId} {entry : FunctionEntry}
    (hentry : t.function? function = some entry) {c : SymbolId} (hc : entry.owner = some c) :
    ∃ owner, t.class? c = some owner ∧ entry.linkName = owner.name ++ "_" ++ entry.name := by
  have hs := SymbolTable.function?_eq_some_iff.1 hentry
  have hsok := h function _ hs
  exact hsok.1 c hc

/-- What may be called is a function of the table. -/
theorem Ok.callable_function (h : t.Ok) {g : SymbolId} (hg : t.Callable g) :
    ∃ entry, t.function? g = some entry := by
  rcases hg with ⟨entry, hentry, -⟩ | ⟨c, e, he, hmem⟩
  · exact ⟨entry, hentry⟩
  · obtain ⟨entry, hentry, -⟩ := h.class_functions he hmem
    exact ⟨entry, hentry⟩

/-- A symbol that is right can be added. -/
theorem Ok.add (h : t.Ok) {s : Symbol} (hs : s.Ok (t.add s) t.size) : (t.add s).Ok := by
  intro id s₁ h₁
  rw [get?_add] at h₁
  split at h₁
  · next heq =>
      cases h₁
      rwa [heq]
  · exact (h id s₁ h₁).later (later_add t s)

/-- A symbol can be changed into one that is right. -/
theorem Ok.modify (h : t.Ok) {f : Symbol → Symbol} (hlater : t.Later (t.modify id f))
    (hf : ∀ s, t.get? id = some s → s.Ok t id → (f s).Ok (t.modify id f) id) :
    (t.modify id f).Ok := by
  intro other s hs
  rw [get?_modify] at hs
  split at hs
  · next heq =>
      subst heq
      obtain ⟨s₀, hs₀, rfl⟩ := Option.map_eq_some_iff.1 hs
      exact hf s₀ hs₀ (h id s₀ hs₀)
  · exact (h other s hs).later hlater

/-- A class may get a parent, as far as order is concerned. -/
theorem Ok.setParent (h : t.Ok) (id parent : SymbolId) : (t.setParent id parent).Ok := by
  refine h.modify (later_setParent t id parent) fun s _ hs => ?_
  have hs' := hs.later (later_setParent t id parent)
  cases s <;> exact hs'

/-- A class or a struct can get a new field of its own. -/
theorem Ok.pushField (h : t.Ok) {owner field : SymbolId} (hfield : t.FieldOf field owner)
    (hnew : ∀ s, t.get? owner = some s →
      field ∉ (match s with
        | .classEntry e => e.fields
        | .structEntry e => e.fields
        | _ => [])) : (t.pushField owner field).Ok := by
  refine h.modify (later_pushField t owner field) fun s hget hs => ?_
  have hs' := hs.later (later_pushField t owner field)
  have hfield' := hfield.later (later_pushField t owner field)
  have hnew' := hnew s hget
  -- The list of fields, whether it is that of a class or that of a struct.
  have hlonger : ∀ fields : List SymbolId, fields.Nodup → field ∉ fields →
      (∀ f ∈ fields, (t.pushField owner field).FieldOf f owner) →
      (fields ++ [field]).Nodup ∧
        ∀ f ∈ fields ++ [field], (t.pushField owner field).FieldOf f owner := by
    intro fields hnodup hfresh hfields
    refine ⟨List.nodup_append.2 ⟨hnodup, by simp, ?_⟩, fun f hf => ?_⟩
    · rintro a ha b hb rfl
      exact hfresh (List.mem_singleton.1 hb ▸ ha)
    · rcases List.mem_append.1 hf with hf | hf
      · exact hfields f hf
      · rw [List.mem_singleton.1 hf]
        exact hfield'
  cases s with
  | classEntry e =>
      obtain ⟨hnodup, hfields, hfunctions⟩ := hs'
      obtain ⟨hnodup', hfields'⟩ := hlonger e.fields hnodup hnew' hfields
      exact ⟨hnodup', hfields', hfunctions⟩
  | structEntry e =>
      obtain ⟨hnodup, hfields⟩ := hs'
      exact hlonger e.fields hnodup hnew' hfields
  | _ => exact hs'

/-- A class can get a function of its own. -/
theorem Ok.pushFunction (h : t.Ok) {function : SymbolId} (hfunction : t.FunctionOf function id) :
    (t.pushFunction id function).Ok := by
  refine h.modify (later_pushFunction t id function) fun s _ hs => ?_
  have hs' := hs.later (later_pushFunction t id function)
  cases s with
  | classEntry e =>
      obtain ⟨hnodup, hfields, hfunctions⟩ := hs'
      refine ⟨hnodup, hfields, fun g hg => ?_⟩
      rcases List.mem_append.1 hg with hg | hg
      · exact hfunctions g hg
      · rw [List.mem_singleton.1 hg]
        exact hfunction.later (later_pushFunction t id function)
  | _ => exact hs'

/-- What is listed behind a replacement is the new one or was listed before. -/
theorem mem_replaceFirst {old new a : SymbolId} {ids : List SymbolId}
    (h : a ∈ replaceFirst old new ids) : a = new ∨ a ∈ ids := by
  induction ids with
  | nil => exact absurd h (by simp [replaceFirst])
  | cons b rest ih =>
      simp only [replaceFirst] at h
      split at h
      · rcases List.mem_cons.1 h with h | h
        · exact .inl h
        · exact .inr (List.mem_cons_of_mem b h)
      · rcases List.mem_cons.1 h with h | h
        · exact .inr (by simp [h])
        · exact (ih h).imp id (List.mem_cons_of_mem b)

/-- **A function may take the place of another one** in its class. -/
theorem Ok.replaceFunction (h : t.Ok) {old new : SymbolId} (hnew : t.FunctionOf new id) :
    (t.replaceFunction id old new).Ok := by
  refine h.modify (later_replaceFunction t id old new) fun s _ hs => ?_
  have hs' := hs.later (later_replaceFunction t id old new)
  cases s with
  | classEntry e =>
      obtain ⟨hnodup, hfields, hfunctions⟩ := hs'
      refine ⟨hnodup, hfields, fun g hg => ?_⟩
      rcases mem_replaceFirst hg with rfl | hg
      · exact hnew.later (later_replaceFunction t id old g)
      · exact hfunctions g hg
  | _ => exact hs'

/-- A function can get a signature of known types. -/
theorem Ok.sign (h : t.Ok) {entry : FunctionEntry} (hentry : t.function? id = some entry)
    (hresolved : entry.resolved = false) {returnType : Ty} {arguments : List SymbolId}
    (hreturn : returnType.Known t) (harguments : ∀ a ∈ arguments, t.Listable a) :
    (t.modify id fun _ => .function { entry with returnType, arguments, resolved := true }).Ok := by
  have hlater := later_sign hentry hresolved returnType arguments
  refine h.modify hlater fun s hget hs => ?_
  have hfunction : s.function? = some entry := by simpa [SymbolTable.function?, hget] using hentry
  have hs' := hs.later hlater
  cases s <;> simp only [Symbol.function?, reduceCtorEq, Option.some.injEq] at hfunction
  subst hfunction
  exact ⟨hs'.1, fun _ => ⟨hreturn.later hlater, fun a ha => (harguments a ha).later hlater⟩⟩

end SymbolTable

end ClassLang
