import Mathlib.Data.List.Nodup
import Mathlib.Data.List.Pairwise
import ClassLang.Proofs.Order.InStep
import ClassLang.Proofs.Order.Trees
import ClassLang.Proofs.Resolve.Items
import ClassLang.Proofs.Syntax.Parse

/-!
# Scripts with the same items

Two scripts that consist of the same items in different orders, up to the numbers and places of
nodes.  As no two items have the same name, each item has one twin in the other script
(`Script.Twins`), and so has each node: the one at the same place of the twin
(`Script.Reordered.part`).
-/

open List (Forall₂)

/-- Two lists that are permutations of each other but for what `f` and `g` leave out can be
written as the two sides of one list of pairs, put in two orders. -/
theorem List.exists_pairs_of_perm_map {α β γ : Type} {f : α → γ} {g : β → γ} {l : List α}
    {l' : List β} (h : (l.map f).Perm (l'.map g)) : ∃ pairs pairs' : List (α × β),
      pairs.map Prod.fst = l ∧ pairs'.map Prod.snd = l' ∧ pairs'.Perm pairs ∧
      ∀ pair ∈ pairs, f pair.1 = g pair.2 := by
  induction l generalizing l' with
  | nil =>
      obtain rfl : l' = [] := by simpa using h.symm.eq_nil
      exact ⟨[], [], rfl, rfl, .refl _, by simp⟩
  | cons a l ih =>
      obtain ⟨b, hb, hab⟩ := List.mem_map.1 (h.subset (List.mem_cons_self ..))
      obtain ⟨first, rest, rfl⟩ := List.append_of_mem hb
      have hperm : (l.map f).Perm ((first ++ rest).map g) := by
        rw [List.map_append]
        refine List.Perm.cons_inv (a := f a) (h.trans ?_)
        rw [List.map_append, List.map_cons, hab]
        exact List.perm_middle
      obtain ⟨pairs, pairs', hpairs, hpairs', hsame, hall⟩ := ih hperm
      obtain ⟨first', rest', rfl, hfirst, hrest⟩ := List.map_eq_append_iff.1 hpairs'
      refine ⟨(a, b) :: pairs, first' ++ (a, b) :: rest', by simp [hpairs], by simp [hfirst, hrest],
        List.perm_middle.trans (hsame.cons _), ?_⟩
      intro pair hpair
      rcases List.mem_cons.1 hpair with rfl | hpair
      · exact hab.symm
      · exact hall pair hpair

/-- Lists of one length are related by standing at the same places. -/
theorem List.forall₂_mem_zip {α β : Type} {l : List α} {l' : List β} (h : l'.length = l.length) :
    Forall₂ (fun a b => (a, b) ∈ l.zip l') l l' :=
  List.forall₂_iff_zip.2 ⟨h.symm, fun hab => hab⟩

/-- A list of pairs pairs one to one if neither side has an element twice. -/
theorem List.biUnique_mem {α β : Type} {l : List (α × β)} (h : (l.map Prod.fst).Nodup)
    (h' : (l.map Prod.snd).Nodup) : Relator.BiUnique fun a b => (a, b) ∈ l :=
  ⟨fun _ _ _ hab hab' => congrArg Prod.fst (List.inj_on_of_nodup_map h' hab hab' rfl),
    fun _ _ _ hab hab' => congrArg Prod.snd (List.inj_on_of_nodup_map h hab hab' rfl)⟩

namespace ClassLang

/-- Two items of two scripts that differ in numbers and places only. -/
structure Script.Twins (script script' : Script) (item item' : Item) : Prop where
  mem : item ∈ script.items
  mem' : item' ∈ script'.items
  bare : item'.bare = item.bare

/-- Two scripts with the same items, of which no two have the same name or the name of the root
class. -/
structure Script.Reordered (script script' : Script) : Prop where
  proper : script.Proper
  proper' : script'.Proper
  items : (script.items.map Item.bare).Perm (script'.items.map Item.bare)
  names : (rootClassName :: script.items.map fun item => item.name.name).Nodup

/-- The name of an item is not lost with its places. -/
theorem Item.name_bare (item : Item) : item.bare.name.name = item.name.name := by
  cases item <;> rfl

namespace Script

variable {script script' : Script} {item item' other other' : Item}

/-- Twins have the same name. -/
theorem Twins.name (h : Twins script script' item item') : item'.name.name = item.name.name := by
  rw [← item'.name_bare, h.bare, item.name_bare]

/-- Being twins goes both ways. -/
theorem Twins.symm (h : Twins script script' item item') : Twins script' script item' item :=
  ⟨h.mem', h.mem, h.bare.symm⟩

/-- No node belongs to two items. -/
theorem Proper.item_eq (h : script.Proper) (hitem : item ∈ script.items)
    (hother : other ∈ script.items) {n : NodeId} (hn : n ∈ item.nodes) (hn' : n ∈ other.nodes) :
    item = other := by
  by_contra hne
  have hsymm : Std.Symm (Function.onFun List.Disjoint Item.nodes) :=
    ⟨fun _ _ hab _ hn hn' => hab hn' hn⟩
  have hapart := (List.nodup_flatMap.1 h.nodup).2
  exact hapart.forall hitem hother hne hn hn'

namespace Reordered

/-- The names of the one script are those of the other, in another order. -/
theorem perm_names (h : Reordered script script') :
    (script.items.map fun item => item.name.name).Perm
      (script'.items.map fun item => item.name.name) := by
  have hnames := h.items.map fun item => item.name.name
  simpa only [List.map_map, Function.comp_def, Item.name_bare] using hnames

/-- Being reordered goes both ways. -/
theorem symm (h : Reordered script script') : Reordered script' script :=
  ⟨h.proper', h.proper, h.items.symm, (h.perm_names.cons _).nodup_iff.1 h.names⟩

/-- Items of one name are one item. -/
theorem item_eq (h : Reordered script script') (hitem : item ∈ script.items)
    (hother : other ∈ script.items) (heq : item.name.name = other.name.name) : item = other :=
  List.inj_on_of_nodup_map (List.nodup_cons.1 h.names).2 hitem hother heq

/-- An item has one twin. -/
theorem twins_unique (h : Reordered script script') : Relator.BiUnique (Twins script script') :=
  ⟨fun _ _ _ hx hy => h.item_eq hx.mem hy.mem (hx.name.symm.trans hy.name),
    fun _ _ _ hx hy => h.symm.item_eq hx.mem' hy.mem' (hx.name.trans hy.name.symm)⟩

/-- The items of both scripts, taken in any orders, are one list of twins in two orders. -/
theorem exists_pairs (h : Reordered script script') {items items' : List Item}
    (hitems : items.Perm script.items) (hitems' : items'.Perm script'.items) :
    ∃ pairs pairs' : List (Item × Item), pairs.map Prod.fst = items ∧
      pairs'.map Prod.snd = items' ∧ pairs'.Perm pairs ∧
      ∀ pair ∈ pairs, Twins script script' pair.1 pair.2 := by
  have hperm : (items.map Item.bare).Perm (items'.map Item.bare) :=
    (hitems.map _).trans (h.items.trans (hitems'.map _).symm)
  obtain ⟨pairs, pairs', hpairs, hpairs', hsame, hall⟩ := List.exists_pairs_of_perm_map hperm
  refine ⟨pairs, pairs', hpairs, hpairs', hsame, fun pair hpair => ⟨?_, ?_, (hall pair hpair).symm⟩⟩
  · exact hitems.subset (hpairs ▸ List.mem_map_of_mem hpair)
  · exact hitems'.subset (hpairs' ▸ List.mem_map_of_mem (hsame.symm.subset hpair))

/-- Every item has a twin. -/
theorem exists_twin (h : Reordered script script') (hitem : item ∈ script.items) :
    ∃ item', Twins script script' item item' := by
  obtain ⟨item', hitem', hbare⟩ := List.mem_map.1 (h.items.subset (List.mem_map_of_mem hitem))
  exact ⟨item', hitem, hitem', hbare⟩

end Reordered

/-- The items of a name are twins. -/
theorem Reordered.named? (h : Reordered script script') (name : String) :
    Option.Rel (Twins script script') (Item.named? script.items name)
      (Item.named? script'.items name) := by
  cases hfind : Item.named? script.items name with
  | none =>
      have hnone : Item.named? script'.items name = none := by
        refine List.find?_eq_none.2 fun item' hitem' hname => ?_
        obtain ⟨item, htwins⟩ := h.symm.exists_twin hitem'
        refine List.find?_eq_none.1 hfind item htwins.mem' ?_
        rwa [htwins.name]
      rw [hnone]
      exact .none
  | some item =>
      have hitem := List.mem_of_find?_eq_some hfind
      have hname : item.name.name = name := by simpa using List.find?_some hfind
      obtain ⟨item', htwins⟩ := h.exists_twin hitem
      cases hfind' : Item.named? script'.items name with
      | none =>
          refine absurd ?_ (List.find?_eq_none.1 hfind' item' htwins.mem')
          simp [htwins.name, hname]
      | some other' =>
          have hother' := List.mem_of_find?_eq_some hfind'
          have hname' : other'.name.name = name := by simpa using List.find?_some hfind'
          refine .some ?_
          rwa [h.symm.item_eq hother' htwins.mem' (hname'.trans (htwins.name.trans hname).symm)]

/-! ## Nodes -/

/-- Two nodes at the same place of two items. -/
def NodesOf (items : Item × Item) (n n' : NodeId) : Prop :=
  (n, n') ∈ items.1.nodes.zip items.2.nodes

/-- Nodes at the same place are those of the two items. -/
theorem NodesOf.mem {items : Item × Item} {n n' : NodeId} (h : NodesOf items n n') :
    n ∈ items.1.nodes ∧ n' ∈ items.2.nodes :=
  List.of_mem_zip h

/-- Twins have nodes place by place. -/
theorem Twins.nodes (h : Twins script script' item item') :
    Forall₂ (NodesOf (item, item')) item.nodes item'.nodes :=
  List.forall₂_mem_zip (Item.length_nodes_eq h.bare)

/-- Twins have their own numbers at the same place. -/
theorem Twins.id (h : Twins script script' item item') :
    NodesOf (item, item') item.id item'.id := by
  have hnodes := h.nodes
  have hbare := h.bare
  cases item <;> cases item' <;> simp only [Item.bare, reduceCtorEq] at hbare <;>
    exact (List.forall₂_cons.1 hnodes).1

namespace Reordered

/-- Nodes of twins correspond one to one. -/
theorem nodes_unique (h : Reordered script script') :
    Relator.BiUnique fun n n' => ∃ items : Item × Item, Twins script script' items.1 items.2 ∧
      NodesOf items n n' := by
  have hitem : ∀ {a b : Item × Item} {n n' m m'}, Twins script script' a.1 a.2 →
      Twins script script' b.1 b.2 → NodesOf a n n' → NodesOf b m m' → (n = m ∨ n' = m') →
      a = b := by
    rintro ⟨a, a'⟩ ⟨b, b'⟩ n n' m m' ha hb hn hm (rfl | rfl)
    · obtain rfl := h.proper.item_eq ha.mem hb.mem hn.mem.1 hm.mem.1
      exact congrArg (Prod.mk a) (h.twins_unique.2 ha hb)
    · obtain rfl := h.proper'.item_eq ha.mem' hb.mem' hn.mem.2 hm.mem.2
      exact congrArg (Prod.mk · a') (h.twins_unique.1 ha hb)
  have hzip : ∀ {a : Item × Item}, Twins script script' a.1 a.2 →
      Relator.BiUnique (NodesOf a) := by
    intro a ha
    have hlength := Item.length_nodes_eq ha.bare
    have hnodup : ∀ {script : Script} {item : Item}, script.Proper → item ∈ script.items →
        item.nodes.Nodup := fun hproper hmem => (List.nodup_flatMap.1 hproper.nodup).1 _ hmem
    refine List.biUnique_mem ?_ ?_
    · rw [List.map_fst_zip (Nat.le_of_eq hlength.symm)]
      exact hnodup h.proper ha.mem
    · rw [List.map_snd_zip (Nat.le_of_eq hlength)]
      exact hnodup h.proper' ha.mem'
  constructor
  · rintro n m n' ⟨a, ha, hn⟩ ⟨b, hb, hm⟩
    obtain rfl := hitem ha hb hn hm (.inr rfl)
    exact (hzip ha).1 hn hm
  · rintro n n' m' ⟨a, ha, hn⟩ ⟨b, hb, hm⟩
    obtain rfl := hitem ha hb hn hm (.inl rfl)
    exact (hzip ha).2 hn hm

/-- What is compared of two scripts: everything. -/
def part (h : Reordered script script') : Part where
  nodes n n' := ∃ items : Item × Item, Twins script script' items.1 items.2 ∧ NodesOf items n n'
  hidden _ := False
  uniqueNodes := h.nodes_unique

/-- Twins are equal up to their nodes. -/
theorem paired (h : Reordered script script') (htwins : Twins script script' item item') :
    item.Paired h.part.nodes item' :=
  Item.paired_of_bare htwins.bare (htwins.nodes.imp fun _ _ hn => ⟨(item, item'), htwins, hn⟩)

end Reordered

end Script

end ClassLang
