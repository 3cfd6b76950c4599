import ClassLang.Proofs.Symbol.Records

/-!
# No class is its own ancestor

Parents are given to classes one after the other, and each time the new parent must not
inherit from the class already.  So inheritance never runs in a circle
(`SymbolTable.Acyclic.setParent`).  The check looks through the ancestors with a bounded
walk; `mem_ancestors` says that the bound, the number of symbols, is large enough.
-/

namespace ClassLang.SymbolTable

variable {t t' : SymbolTable} {id parent : SymbolId}

/-- The step from a class to its parent. -/
def Extending (table : SymbolTable) (id parent : SymbolId) : Prop :=
  table.parent? id = some parent

/-- No class inherits from itself. -/
def Acyclic (table : SymbolTable) : Prop :=
  ∀ id, ¬ Relation.TransGen table.Extending id id

theorem lt_size_of_parent? (h : t.parent? id = some parent) : id < t.size := by
  obtain ⟨entry, hentry, -⟩ := Option.bind_eq_some_iff.1 h
  exact (t.isSome_get?_iff id).1 (by simp [class?_eq_some_iff.1 hentry])

/-- Different numbers below a bound are at most as many as the bound. -/
theorem length_le_of_nodup {ids : List SymbolId} {bound : Nat} (hnodup : ids.Nodup)
    (hlt : ∀ id ∈ ids, id < bound) : ids.length ≤ bound := by
  have hsubset : ids ⊆ List.range bound := fun id hid => List.mem_range.2 (hlt id hid)
  simpa using hnodup.length_le_of_subset hsubset

/-- The classes on the way from a class up to one of its ancestors. -/
structure Climbing (table : SymbolTable) (below : List SymbolId) (id : SymbolId) : Prop where
  nodup : below.Nodup
  inherits : ∀ c ∈ below, Relation.TransGen table.Extending c id

theorem Climbing.nil (t : SymbolTable) (id : SymbolId) : t.Climbing [] id :=
  ⟨List.nodup_nil, by simp⟩

theorem Climbing.not_mem (h : t.Acyclic) {below : List SymbolId} (hbelow : t.Climbing below id) :
    id ∉ below :=
  fun hmem => h id (hbelow.inherits id hmem)

/-- One step further up. -/
theorem Climbing.cons (h : t.Acyclic) {below : List SymbolId} (hbelow : t.Climbing below id)
    (hparent : t.parent? id = some parent) : t.Climbing (id :: below) parent where
  nodup := List.nodup_cons.2 ⟨hbelow.not_mem h, hbelow.nodup⟩
  inherits c hc := by
    rcases List.mem_cons.1 hc with rfl | hc
    · exact .single hparent
    · exact (hbelow.inherits c hc).tail hparent

/-- There are fewer classes below a class than there are symbols. -/
theorem Climbing.length_le {below : List SymbolId} (hbelow : t.Climbing below id) :
    below.length ≤ t.size := by
  refine length_le_of_nodup hbelow.nodup fun c hc => ?_
  obtain ⟨parent, hparent, -⟩ := Relation.TransGen.head'_iff.1 (hbelow.inherits c hc)
  exact lt_size_of_parent? hparent

/-- **The walk finds every ancestor.** -/
theorem mem_ancestorsUpTo (h : t.Acyclic) {ancestor : SymbolId} (hi : t.Inherits id ancestor)
    {fuel : Nat} {seen : List SymbolId} (hseen : t.Climbing seen id)
    (hfuel : t.size + 1 ≤ fuel + seen.length) : ancestor ∈ t.ancestorsUpTo fuel seen id := by
  induction hi using Relation.ReflTransGen.head_induction_on generalizing fuel seen with
  | refl =>
      obtain ⟨fuel, rfl⟩ : ∃ n, fuel = n + 1 :=
        Nat.exists_eq_succ_of_ne_zero fun h0 => by have := hseen.length_le; omega
      simp [ancestorsUpTo, hseen.not_mem h]
  | @head id parent hparent _ ih =>
      obtain ⟨fuel, rfl⟩ : ∃ n, fuel = n + 1 :=
        Nat.exists_eq_succ_of_ne_zero fun h0 => by have := hseen.length_le; omega
      have hmem : ancestor ∈ t.ancestorsUpTo fuel (id :: seen) parent :=
        ih (hseen.cons h hparent) (by simp only [List.length_cons]; omega)
      simp [ancestorsUpTo, hseen.not_mem h, hparent, hmem]

theorem mem_ancestors (h : t.Acyclic) {ancestor : SymbolId} (hi : t.Inherits id ancestor) :
    ancestor ∈ t.ancestors id :=
  mem_ancestorsUpTo h hi (.nil t id) (by simp)

/-- What a walk without a circle has to find, a class that is not found is not an ancestor. -/
theorem not_inherits_of_isSubclassOf (h : t.Acyclic) {ancestor : SymbolId}
    (hnot : t.isSubclassOf id ancestor = false) : ¬ t.Inherits id ancestor := by
  intro hi
  have hmem := mem_ancestors h hi
  simp [isSubclassOf, hmem] at hnot

/-- A class that gets its parent. -/
theorem parent?_setParent (t : SymbolTable) (id parent other : SymbolId) :
    (t.setParent id parent).parent? other =
      if other = id ∧ (t.class? id).isSome = true then some parent else t.parent? other := by
  simp only [parent?, class?, setParent, modifyClass, get?_modify]
  by_cases heq : id = other
  · subst heq
    rcases Option.eq_none_or_eq_some (t.get? id) with hget | ⟨s, hget⟩
    · simp [hget]
    · cases s <;> simp [hget, Symbol.class?]
  · simp [heq, Ne.symm heq]

/-- A path in the new table is one in the old table, or goes through the new step. -/
theorem transGen_setParent {a b : SymbolId}
    (h : Relation.TransGen (t.setParent id parent).Extending a b) :
    Relation.TransGen t.Extending a b ∨ (t.Inherits a id ∧ t.Inherits parent b) := by
  have hstep : ∀ {x y}, (t.setParent id parent).Extending x y →
      (x = id ∧ y = parent) ∨ t.Extending x y := by
    intro x y hxy
    unfold Extending at hxy
    rw [parent?_setParent] at hxy
    split at hxy
    · next hx => exact .inl ⟨hx.1, by simpa using hxy.symm⟩
    · exact .inr hxy
  induction h with
  | single hab =>
      rcases hstep hab with ⟨rfl, rfl⟩ | hab
      · exact .inr ⟨.refl, .refl⟩
      · exact .inl (.single hab)
  | tail _ hbc ih =>
      rcases hstep hbc with ⟨rfl, rfl⟩ | hbc
      · rcases ih with ih | ⟨ha, -⟩
        · exact .inr ⟨ih.to_reflTransGen, .refl⟩
        · exact .inr ⟨ha, .refl⟩
      · rcases ih with ih | ⟨ha, hb⟩
        · exact .inl (ih.tail hbc)
        · exact .inr ⟨ha, hb.tail hbc⟩

/-- **A parent that does not inherit from the class closes no circle.** -/
theorem Acyclic.setParent (h : t.Acyclic) (hnot : ¬ t.Inherits parent id) :
    (t.setParent id parent).Acyclic := by
  intro x hx
  rcases transGen_setParent hx with hx | ⟨hto, hfrom⟩
  · exact h x hx
  · exact hnot (hfrom.trans hto)

/-- Tables in which classes have the same parents. -/
theorem Acyclic.congr (h : t.Acyclic) (hparent : ∀ id, t'.parent? id = t.parent? id) :
    t'.Acyclic := by
  have heq : t'.Extending = t.Extending := by
    funext id parent
    simp [Extending, hparent]
  intro id hid
  exact h id (heq ▸ hid)

/-- The walk does not depend on how far it may go, nor on what it has seen. -/
theorem ancestorsUpTo_eq (h : t.Acyclic) {fuel fuel' : Nat} {seen seen' : List SymbolId}
    (hseen : t.Climbing seen id) (hseen' : t.Climbing seen' id)
    (hfuel : t.size + 1 ≤ fuel + seen.length) (hfuel' : t.size + 1 ≤ fuel' + seen'.length) :
    t.ancestorsUpTo fuel seen id = t.ancestorsUpTo fuel' seen' id := by
  induction fuel generalizing fuel' seen seen' id with
  | zero =>
      have := hseen.length_le
      omega
  | succ fuel ih =>
      cases fuel' with
      | zero =>
          have := hseen'.length_le
          omega
      | succ fuel' =>
          have hnot : seen.contains id = false := by simpa using hseen.not_mem h
          have hnot' : seen'.contains id = false := by simpa using hseen'.not_mem h
          simp only [ancestorsUpTo, hnot, hnot']
          cases hparent : t.parent? id with
          | none => rfl
          | some parent =>
              have hlength : t.size + 1 ≤ fuel + (id :: seen).length := by
                rw [List.length_cons]
                omega
              have hlength' : t.size + 1 ≤ fuel' + (id :: seen').length := by
                rw [List.length_cons]
                omega
              simp only
              rw [ih (hseen.cons h hparent) (hseen'.cons h hparent) hlength hlength']

/-- The ancestors of a class are its parent and the ancestors of the parent. -/
theorem ancestors_eq (h : t.Acyclic) (id : SymbolId) :
    t.ancestors id = id :: match t.parent? id with
      | some parent => t.ancestors parent
      | none => [] := by
  rw [ancestors, ancestorsUpTo]
  simp only [List.contains_nil, Bool.false_eq_true, if_false]
  cases hparent : t.parent? id with
  | none => rfl
  | some parent =>
      simp only
      rw [ancestors, ancestorsUpTo_eq h ((Climbing.nil t id).cons h hparent) (.nil t parent)]
      · simp
      · simp

/-- The member that a name stands for in a class: its own, or else that of the nearest ancestor
that has one. -/
inductive NearestMember (table : SymbolTable) (name : String) : SymbolId → SymbolId → Prop
  | own {id member : SymbolId} (hown : table.ownMember? id name = some member) :
      table.NearestMember name id member
  | inherited {id parent member : SymbolId} (hown : table.ownMember? id name = none)
      (hparent : table.parent? id = some parent) (h : table.NearestMember name parent member) :
      table.NearestMember name id member

/-- **A class answers with the nearest member.** -/
theorem member?_eq_some_iff (h : t.Acyclic) {name : String} {member : SymbolId} :
    t.member? id name = some member ↔ t.NearestMember name id member := by
  constructor
  · intro hmember
    unfold member? at hmember
    generalize hwalk : t.ancestors id = walk at hmember
    induction walk generalizing id with
    | nil => cases hmember
    | cons first rest ih =>
        rw [ancestors_eq h, List.cons.injEq] at hwalk
        obtain ⟨rfl, hrest⟩ := hwalk
        rw [List.findSome?_cons] at hmember
        cases hown : t.ownMember? id name with
        | some own =>
            rw [hown] at hmember
            cases hmember
            exact .own hown
        | none =>
            rw [hown] at hmember
            cases hparent : t.parent? id with
            | none =>
                rw [hparent] at hrest
                cases hrest
                cases hmember
            | some parent =>
                rw [hparent] at hrest
                exact .inherited hown hparent (ih hrest hmember)
  · intro hnearest
    unfold member?
    induction hnearest with
    | own hown => rw [ancestors_eq h, List.findSome?_cons, hown]
    | inherited hown hparent _ ih =>
        rw [ancestors_eq h, List.findSome?_cons, hown, hparent]
        exact ih

/-- There is at most one nearest member. -/
theorem NearestMember.unique {name : String} {member member' : SymbolId}
    (h : t.NearestMember name id member) (h' : t.NearestMember name id member') :
    member = member' := by
  induction h with
  | own hown =>
      cases h' with
      | own hown' => exact Option.some.inj (hown.symm.trans hown')
      | inherited hown' => cases hown.symm.trans hown'
  | inherited hown hparent _ ih =>
      cases h' with
      | own hown' => cases hown.symm.trans hown'
      | inherited _ hparent' h' =>
          cases hparent.symm.trans hparent'
          exact ih h'

end ClassLang.SymbolTable
