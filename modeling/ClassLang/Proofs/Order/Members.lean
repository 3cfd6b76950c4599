import ClassLang.Proofs.Order.Declarations
import ClassLang.Proofs.Order.Outset
import ClassLang.Proofs.Order.Rounds

/-!
# Members in two orders

Structs, classes and functions are filled in one after the other.  An item changes its own entry
and its own nodes only (`Script.filledUpTo`), so two scripts with the same items agree when all of
them have had their turn (`Script.Reordered.paired_members`).
-/

open List (Forall₂)

namespace ClassLang

open Analysis

/-- Contexts that agree on a part agree on what lies in it. -/
theorem Context.Paired.restrict {part part' : Part} {m : Pairing} {c c' : Context}
    (h : Context.Paired part m c c') (hnodes : ∀ n n', part'.nodes n n' → part.nodes n n')
    (hhidden : ∀ i, part'.hidden i ↔ part.hidden i) : Context.Paired part' m c c' where
  table i j hij := by
    obtain ⟨s, s', hs, hs', hakin, hpaired⟩ := h.table i j hij
    exact ⟨s, s', hs, hs', hakin, fun hi => hpaired fun hi' => hi ((hhidden i).2 hi')⟩
  known i hi := h.known i ((hhidden i).1 hi)
  scopes := h.scopes
  descends := h.descends
  descends' := h.descends'
  symbol? n n' hn := (h.symbol? n n' (hnodes n n' hn)).imp fun i _ hij =>
    ⟨hij.1, fun hi => hij.2 ((hhidden i).1 hi)⟩
  type? n n' hn := h.type? n n' (hnodes n n' hn)
  scope? n n' hn := h.scope? n n' (hnodes n n' hn)
  clean := h.clean

/-- Steps that are given by parts of what they are taken for. -/
theorem Analysis.upTo_map {ι κ : Type} (f : κ → Analysis PUnit) (g : ι → κ) (all : List ι)
    (s : Context) (k : Nat) : upTo (fun a => f (g a)) all s k = upTo f (all.map g) s k := by
  have hforM : ∀ l : List ι, (l.map g).forM f = l.forM fun a => f (g a) := fun l => by
    induction l with
    | nil => rfl
    | cons a rest ih => exact congrArg (f (g a) >>= ·) (funext fun _ => ih)
  rw [upTo, upTo, ← List.map_take, hforM]

theorem Analysis.upTo_map_length {ι κ : Type} {f : κ → Analysis PUnit} {g : ι → κ} {all : List ι}
    {items : List κ} (hall : all.map g = items) (s : Context) :
    upTo (fun a => f (g a)) all s all.length = ((items.forM f).run s).2 := by
  subst hall
  rw [upTo_map, ← List.length_map g, upTo_length]

namespace Script

variable {script script' : Script} {ctx ctx' : Context}

/-- As long as nothing is reported, the first items are filled in and the others are not. -/
theorem filledUpTo (hproper : script.Proper) (houtline : Outline script.items ctx) {k : Nat}
    (hk : k ≤ script.fillOrder.length) (hclean : (upTo Item.fill script.fillOrder ctx k).Clean) :
    FilledUpTo ctx (script.fillOrder.take k) (script.fillOrder.drop k)
      (upTo Item.fill script.fillOrder ctx k) := by
  induction k with
  | zero =>
      rw [upTo_zero, List.take_zero, List.drop_zero]
      exact ⟨houtline.growing script.fillOrder_perm.symm.subset, .refl _ _ _ _, by simp⟩
  | succ k ih =>
      have hget : script.fillOrder[k]? = some script.fillOrder[k] := List.getElem?_eq_getElem hk
      have hmem : script.fillOrder[k] ∈ script.items :=
        script.fillOrder_perm.subset (List.getElem_mem hk)
      have hperm : (script.fillOrder.take k ++ script.fillOrder[k] ::
          script.fillOrder.drop (k + 1)).Perm script.items := by
        rw [← List.drop_eq_getElem_cons hk, List.take_append_drop]
        exact script.fillOrder_perm
      rw [upTo_succ hget] at hclean ⊢
      obtain ⟨hbefore, hstep⟩ :=
        (script.fillOrder[k]).does_fill (Script.item_nodup hproper hmem) _ _ _ rfl hclean
      have hfilled := ih (Nat.le_of_succ_le hk) hbefore
      rw [List.drop_eq_getElem_cons hk] at hfilled
      rw [List.take_add_one, hget, Option.toList_some]
      exact hfilled.step houtline hperm hproper.nodup hstep

/-- Filling in is a round over the items, each of which changes its own symbol and nodes. -/
theorem round_fill (hproper : script.Proper) (houtline : Outline script.items ctx) {ι : Type}
    {g : ι → Item} {all : List ι} (hall : all.map g = script.fillOrder) :
    Round (fun a => (g a).fill) all (fun a i => ctx.bindings.symbol? (g a).id = some i)
      (fun a n => n ∈ (g a).nodes) ctx where
  nodup := by
    have hids := ((script.fillOrder_perm.map Item.id).nodup_iff).2 (Script.ids_nodup hproper)
    exact (hall ▸ hids.of_map).of_map
  descends := houtline.ok.tree
  step := by
    intro k a hget hclean
    have hk : k < script.fillOrder.length := by
      rw [← hall, List.length_map]
      exact (List.getElem?_eq_some_iff.1 hget).1
    have hitem : script.fillOrder[k]? = some (g a) := by
      rw [← hall, List.getElem?_map, hget, Option.map_some]
    have hmem : g a ∈ script.items :=
      script.fillOrder_perm.subset (List.mem_of_getElem? hitem)
    simp only [upTo_map, hall] at hclean ⊢
    rw [upTo_succ hitem] at hclean ⊢
    obtain ⟨hbefore, hstep⟩ := (g a).does_fill (Script.item_nodup hproper hmem) _ _ _ rfl hclean
    have hfilled := filledUpTo hproper houtline (Nat.le_of_lt hk) hbefore
    have hdrop : script.fillOrder.drop k = g a :: script.fillOrder.drop (k + 1) := by
      rw [List.drop_eq_getElem_cons hk, (List.getElem?_eq_some_iff.1 hitem).2]
    rw [hdrop] at hfilled
    have hperm : (script.fillOrder.take k ++ g a :: script.fillOrder.drop (k + 1)).Perm
        script.items := by
      rw [← hdrop, List.take_append_drop]
      exact script.fillOrder_perm
    obtain ⟨id, s, hid, hgrowing, hid', hs, houtlines, hunopened⟩ :=
      hfilled.ready houtline hperm hproper.nodup
    obtain ⟨hgrowing', hfills, -⟩ := hstep _ id s hgrowing hid' hs houtlines hunopened
    refine ⟨hbefore, (Context.Spares.ofFills hfills hgrowing'.ok.tree).mono ?_ fun _ hn => hn⟩
    intro i hi
    rw [List.mem_singleton.1 hi]
    exact hid

namespace Reordered

/-- Pairs of twins that have a node in common are equal. -/
theorem pair_eq (h : Reordered script script') {a b : Item × Item}
    (ha : Twins script script' a.1 a.2) (hb : Twins script script' b.1 b.2)
    (hshared : (∃ n, n ∈ a.1.nodes ∧ n ∈ b.1.nodes) ∨ ∃ n, n ∈ a.2.nodes ∧ n ∈ b.2.nodes) :
    a = b := by
  rcases hshared with ⟨n, hn, hn'⟩ | ⟨n, hn, hn'⟩
  · have heq := h.proper.item_eq ha.mem hb.mem hn hn'
    exact Prod.ext heq (h.twins_unique.2 ha (heq ▸ hb))
  · have heq := h.proper'.item_eq ha.mem' hb.mem' hn hn'
    exact Prod.ext (h.twins_unique.1 ha (heq ▸ hb)) heq

variable (h : Reordered script script') {pairs pairs' : List (Item × Item)}
  (htwins : ∀ pair ∈ pairs, Twins script script' pair.1 pair.2)

include h htwins

theorem nodes_unique_of_pairs : Relator.BiUnique fun n n' => ∃ pair ∈ pairs, NodesOf pair n n' := by
  constructor
  · rintro n m n' ⟨a, ha, hn⟩ ⟨b, hb, hm⟩
    exact h.nodes_unique.1 ⟨a, htwins a ha, hn⟩ ⟨b, htwins b hb, hm⟩
  · rintro n n' m' ⟨a, ha, hn⟩ ⟨b, hb, hm⟩
    exact h.nodes_unique.2 ⟨a, htwins a ha, hn⟩ ⟨b, htwins b hb, hm⟩

/-- No node of a pair is a node of another pair. -/
theorem nodes_apart : ∀ a ∈ pairs, ∀ b ∈ pairs, b ≠ a → ∀ n n', NodesOf a n n' →
    n ∉ b.1.nodes ∧ n' ∉ b.2.nodes := by
  intro a ha b hb hne n n' hn
  obtain ⟨hmem, hmem'⟩ := hn.mem
  exact ⟨fun hn => hne (h.pair_eq (htwins b hb) (htwins a ha) (.inl ⟨n, hn, hmem⟩)),
    fun hn => hne (h.pair_eq (htwins b hb) (htwins a ha) (.inr ⟨n', hn, hmem'⟩))⟩

/-- How the scripts divide when their members are declared. -/
theorem division_members (ho : script.Outset ctx) (ho' : script'.Outset ctx') :
    Division pairs NodesOf (fun a i => ctx.bindings.symbol? a.1.id = some i)
      (fun a j => ctx'.bindings.symbol? a.2.id = some j) (fun a n => n ∈ a.1.nodes)
      (fun a n => n ∈ a.2.nodes) (h.outsetPairing ho ho') ctx ctx' where
  uniqueNodes := h.nodes_unique_of_pairs htwins
  apart := h.nodes_apart htwins
  owned a ha i j hij := by
    obtain ⟨x, -, hx, -⟩ := ho.symbol h.proper (htwins a ha).mem
    obtain ⟨y, -, hy, -⟩ := ho'.symbol h.proper' (htwins a ha).mem'
    have hxy : SameItem script script' ctx ctx' x y := .inr ⟨a.1, a.2, htwins a ha, hx, hy⟩
    rw [hx, hy, Option.some.injEq, Option.some.injEq]
    exact Relator.eq_iff_eq (h.sameItem_unique ho ho') hxy hij
  ownApart a ha b hb i hi hi' := by
    refine h.pair_eq (htwins a ha) (htwins b hb) (.inl ⟨a.1.id, a.1.id_mem_nodes, ?_⟩)
    rw [ho.item_eq h.proper (htwins a ha).mem (htwins b hb).mem hi hi']
    exact b.1.id_mem_nodes
  known a _ i hi := ho.unfilled.known _ i hi
  known' a _ j hj := ho'.unfilled.known _ j hj
  bound a ha b hb hne n n' i hn hi hi' := by
    refine hne (h.pair_eq (htwins b hb) (htwins a ha) (.inl ⟨n, ?_, hn.mem.1⟩))
    rw [ho.unfilled.apart _ _ _ hi hi']
    exact b.1.id_mem_nodes

omit htwins in
/-- **When all items are filled in, the scripts agree**, and if nothing was reported in one of
them, nothing was in the other. -/
theorem paired_members (ho : script.Outset ctx) (ho' : script'.Outset ctx')
    (hclean : ((script.fillOrder.forM Item.fill).run ctx).2.Clean) :
    ∃ m, h.outsetPairing ho ho' ≤ m ∧
      Context.Paired h.part m ((script.fillOrder.forM Item.fill).run ctx).2
        ((script'.fillOrder.forM Item.fill).run ctx').2 := by
  obtain ⟨pairs, pairs', hpairs, hpairs', hperm, htwins⟩ :=
    h.exists_pairs script.fillOrder_perm script'.fillOrder_perm
  have hmem : ∀ {item item'}, Twins script script' item item' → (item, item') ∈ pairs := by
    intro item item' hitem
    have hfirst : item ∈ pairs.map Prod.fst := hpairs ▸ script.fillOrder_perm.symm.subset hitem.mem
    obtain ⟨pair, hpair, rfl⟩ := List.mem_map.1 hfirst
    rwa [h.twins_unique.2 hitem (htwins pair hpair)]
  have hdivision := h.division_members htwins ho ho'
  have hrounds : Rounds pairs pairs' NodesOf (fun a i => ctx.bindings.symbol? a.1.id = some i)
      (fun a j => ctx'.bindings.symbol? a.2.id = some j) (fun a n => n ∈ a.1.nodes)
      (fun a n => n ∈ a.2.nodes) (h.outsetPairing ho ho') (fun a => a.1.fill) (fun a => a.2.fill)
      ctx ctx' :=
    { division := hdivision
      perm := hperm
      first := round_fill h.proper ho.outline hpairs
      second := round_fill h.proper' ho'.outline hpairs'
      inStep := fun a ha => Item.inStep_fill
        (Item.paired_of_bare (htwins a ha).bare (htwins a ha).nodes) ⟨rfl, rfl⟩
      paired := (h.paired_outset ho ho').restrict
        (fun n n' ⟨a, ha, hn⟩ => ⟨a, htwins a ha, hn⟩) fun _ => .rfl
      clean := by rwa [upTo_map_length hpairs] }
  obtain ⟨m, hle, hpaired⟩ := hrounds.paired_end
  rw [upTo_map_length hpairs, upTo_map_length hpairs'] at hpaired
  exact ⟨m, hle, hpaired.restrict (fun n n' ⟨a, ha, hn⟩ => ⟨a, hmem ha, hn⟩) fun _ => .rfl⟩

end Reordered

end Script

end ClassLang
