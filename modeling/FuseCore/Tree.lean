import FuseCore.Reachable

/-!
# The parent graph has no cycle (fuse.c:217-252, :442-476, :999-1038)

`get_path_name` walks from a node towards the root through `get_node(f, node->parent)`, and
stops at the root or at a detached node (`ParentLink`, fuse.c:366-372). Ids are unique, so a
node has at most one link and the walk is determined by where it starts. This module shows
that the walk never revisits a node and always stops, in every state reached while the kernel
never renames a node to itself or below itself (`DirOp.NoLoop`).

The invariant is that the reversed link relation is well founded (`Acyclic`). A step keeps
every link but the one `DirOp.Attaches` names (`DirOp.step_spec`): `find_node` links a new
node, to which no link leads, and `rename_node` links the node it moves to the new
directory, whose walk does not reach the node. Adding one such link keeps the relation well
founded (`WellFounded.relink`).
-/

namespace FuseCore

open Relation

/-! ## Adding one link to a well-founded graph -/

section Relink

variable {α : Type} {R S : α → α → Prop}

/-- Links out of one source `S` adds to `R` close no cycle when their targets do not lead back
to the source. -/
theorem WellFounded.relink {src : α → Prop} (hR : WellFounded (flip R))
    (hsrc : ∀ x x', src x → src x' → x = x')
    (hS : ∀ x y, S x y → R x y ∨ (src x ∧ ¬ ReflTransGen R y x)) : WellFounded (flip S) := by
  -- below a node that does not lead to the source, every link is an old one
  have hclean : ∀ z, (∀ p, src p → ¬ ReflTransGen R z p) → Acc (flip S) z := fun z => by
    induction hR.apply z with
    | intro z _ ih =>
      intro hz
      refine ⟨_, fun w hw => ?_⟩
      rcases hS z w hw with hzw | ⟨hz', -⟩
      · exact ih w hzw fun p hp hwp => hz p hp (.head hzw hwp)
      · exact absurd .refl (hz z hz')
  refine ⟨fun x => ?_⟩
  induction hR.apply x with
  | intro x _ ih =>
    refine ⟨_, fun w hw => ?_⟩
    rcases hS x w hw with hxw | ⟨hx, hwx⟩
    · exact ih w hxw
    · exact hclean w fun p hp hwp => hwx (by rw [hsrc x p hx hp]; exact hwp)

/-- From a node whose walks are finite, no link leads back to it. -/
theorem Acc.not_return {x y : α} (h : Acc (flip R) x) (hxy : R x y) : ¬ ReflTransGen R y x := by
  induction h generalizing y with
  | intro x _ ih =>
    intro hyx
    rcases hyx.cases_head with rfl | ⟨z, hyz, hzx⟩
    · exact ih _ hxy hxy .refl
    · exact ih y hxy hyz (hzx.tail hxy)

/-- Every node on a walk is reached from its start. -/
theorem reflTransGen_of_mem_chain {b : α} :
    ∀ {a : α} {l : List α}, List.Chain R a l → b ∈ a :: l → ReflTransGen R a b
  | _, [], _, hb => by rw [List.mem_singleton.1 hb]
  | _, _ :: _, hc, hb => by
    rcases List.mem_cons.1 hb with rfl | hb
    · exact .refl
    · obtain ⟨hac, hcl⟩ := List.chain_cons.1 hc
      exact .head hac (reflTransGen_of_mem_chain hcl hb)

end Relink

/-! ## The walk in a consistent directory -/

/-- Every walk along parent links is finite. -/
def Acyclic (f : Fuse) : Prop := WellFounded (flip (ParentLink f))

/-- `get_node` finds one node per id, so a node has at most one parent link. -/
theorem ParentLink.unique {f : Fuse} {x y y' : Ptr} (hI : IndexInv f) (h : ParentLink f x y)
    (h' : ParentLink f x y') : y = y' := by
  obtain ⟨n, m, hn, -, -, hm, e⟩ := h
  obtain ⟨n', m', hn', -, -, hm', e'⟩ := h'
  rw [hn, Option.some.injEq] at hn'; subst hn'
  exact hI.idUnique hm hm' (e.trans e'.symm)

/-- The walk stops only at the root or at a detached node: the parent of any other node is
live. -/
theorem Inv.parentLink {f : Fuse} {x : Ptr} {n : Node} (h : Inv f) (hx : f.heap x = some n)
    (hr : n.nodeid ≠ rootId) (ha : n.name.isSome) : ∃ y, ParentLink f x y := by
  obtain ⟨q, m, hq, e⟩ := h.refs.parentLive hx ha hr
  exact ⟨q, n, m, hx, hr, ha, hq, e⟩

/-- The walk from a node whose walks are finite visits distinct nodes and ends at the root or
at a detached node. -/
theorem Inv.walk {f : Fuse} (h : Inv f) {x : Ptr} (hx : Acc (flip (ParentLink f)) x) {n : Node}
    (hn : f.heap x = some n) :
    ∃ l, List.Chain (ParentLink f) x l ∧ (x :: l).Nodup ∧
      ∃ z m, (x :: l).getLast? = some z ∧ f.heap z = some m ∧ (m.nodeid = rootId ∨ m.name = none) := by
  induction hx generalizing n with
  | intro x hacc ih =>
    by_cases ht : n.nodeid = rootId ∨ n.name = none
    · exact ⟨[], .nil, List.nodup_singleton x, x, n, rfl, hn, ht⟩
    obtain ⟨y, hy⟩ := h.parentLink hn (fun e => ht (.inl e))
      (Option.ne_none_iff_isSome.1 fun e => ht (.inr e))
    obtain ⟨-, m, -, -, -, hm, -⟩ := id hy
    obtain ⟨l, hc, hnd, z, m', hz, hm', ht'⟩ := ih y hy hm
    refine ⟨y :: l, .cons hy hc, List.nodup_cons.2 ⟨fun hxl => ?_, hnd⟩, z, m', by simpa using hz,
      hm', ht'⟩
    exact Acc.not_return (Acc.intro x hacc) hy (reflTransGen_of_mem_chain hc hxl)

/-! ## Every step keeps the graph acyclic -/

theorem Acyclic.fuseNew (flags : Flags) : Acyclic (fuseNew flags) :=
  ⟨fun _ => ⟨_, fun _ ⟨_, _, hn, hr, _⟩ => by
    obtain ⟨-, rfl⟩ := fuseNew_heap_eq_some.1 hn; exact absurd rfl hr⟩⟩

/-- What the kernel guarantees of a RENAME besides `DirOp.Allowed` (fuse.c:999): it never moves
a node to itself or below itself, so the walk from the new directory does not reach the node
moved. -/
def DirOp.NoLoop : DirOp → Fuse → Prop
  | .rename olddir oldname newdir _ _ _, f => ∀ p, lookupNode f olddir oldname = some p →
    ∀ r m, f.heap r = some m → m.nodeid = newdir → ¬ ReflTransGen (ParentLink f) r p
  | _, _ => True

/-- The link a step adds closes no cycle. A new node is not live before, so no walk reaches it. -/
theorem DirOp.attaches_open {o : DirOp} {f : Fuse} {x y : Ptr} (h : Inv f) (hk : o.NoLoop f)
    (ha : o.Attaches f x y) : ¬ ReflTransGen (ParentLink f) y x := by
  cases o with
  | find =>
    obtain ⟨rfl, m, hm, -⟩ := ha
    intro hyx
    rcases hyx.cases_tail with rfl | ⟨z, -, -, m', -, -, -, hz, -⟩
    · rw [h.index.nextPtr_free] at hm; cases hm
    · rw [h.index.nextPtr_free] at hz; cases hz
  | rename =>
    obtain ⟨hp, m, hm, e⟩ := ha
    exact hk x hp y m hm e
  | _ => exact ha.elim

/-- A step adds links out of one node only. -/
theorem DirOp.attaches_source {o : DirOp} {f : Fuse} {x x' y y' : Ptr} (ha : o.Attaches f x y)
    (ha' : o.Attaches f x' y') : x = x' := by
  cases o with
  | find => exact ha.1.trans ha'.1.symm
  | rename => exact Option.some.inj (ha.1.symm.trans ha'.1)
  | _ => exact ha.elim

theorem Acyclic.step {o : DirOp} {f g : Fuse} (h : Inv f) (ht : Acyclic f) (ho : o.Allowed f)
    (hk : o.NoLoop f) (hrun : o.run f = .ok g) : Acyclic g := by
  have hl := (DirOp.run_inv h ho hrun).2.2.2.1
  refine @WellFounded.relink _ _ _ (fun x => ∃ y, o.Attaches f x y) ht
    (fun x x' ⟨_, hx⟩ ⟨_, hx'⟩ => DirOp.attaches_source hx hx') fun x y hxy => ?_
  rcases hl x y hxy with h1 | h2
  exacts [.inl h1, .inr ⟨⟨y, h2⟩, DirOp.attaches_open h hk h2⟩]

/-- The states reached while the kernel keeps its side of the protocol and never renames a
node to itself or below itself. -/
inductive TreeReachable : Fuse → Prop
  | init (flags : Flags) : TreeReachable (fuseNew flags)
  | step {f g : Fuse} (o : DirOp) : TreeReachable f → o.Allowed f → o.NoLoop f →
      o.run f = .ok g → TreeReachable g

theorem TreeReachable.reachable {f : Fuse} (hf : TreeReachable f) : Reachable f := by
  induction hf with
  | init flags => exact .init flags
  | step o _ ho _ hrun ih => exact .step o ih ho hrun

theorem TreeReachable.acyclic {f : Fuse} (hf : TreeReachable f) : Acyclic f := by
  induction hf with
  | init flags => exact .fuseNew flags
  | step o hf ho hk hrun ih => exact ih.step hf.reachable.inv ho hk hrun

/-- **The parent graph has no cycle.** In every state reached while the kernel never renames a
node to itself or below itself, a node has at most one parent link, and the walk along them
from any live node visits distinct nodes and ends at the root or at a detached node. -/
theorem parent_walk_acyclic {f : Fuse} (hf : TreeReachable f) :
    (∀ x y y', ParentLink f x y → ParentLink f x y' → y = y') ∧
    ∀ x n, f.heap x = some n →
      ∃ l, List.Chain (ParentLink f) x l ∧ (x :: l).Nodup ∧
        ∃ z m, (x :: l).getLast? = some z ∧ f.heap z = some m ∧
          (m.nodeid = rootId ∨ m.name = none) :=
  ⟨fun _ _ _ => ParentLink.unique hf.reachable.inv.index,
    fun x _ hn => hf.reachable.inv.walk (hf.acyclic.apply x) hn⟩

theorem treeReachable_dirAB : TreeReachable dirAB :=
  .step (.find rootId [98] 0 2 true true)
    (.step (.find rootId [97] 0 1 true true) (.init {})
      ⟨⟨0, rootNode, rfl, rfl, rootNode_not_forgotten⟩, by decide⟩ trivial rfl)
    ⟨⟨0, _, rfl, rfl, by decide⟩, by decide⟩ trivial rfl

/-- The walk from `b` in `dirAB` meets only `b` and the root. -/
theorem dirAB_walk_b {p : Ptr} (h : ReflTransGen (ParentLink dirAB) 2 p) : p = 2 ∨ p = 0 := by
  have hI := reachable_dirAB.inv.index
  induction h with
  | refl => exact .inl rfl
  | tail _ hl ih =>
    obtain ⟨n, m, hx, hr, -, hy, hm⟩ := hl
    rcases ih with rfl | rfl
    · exact .inr (hI.idUnique hy (rfl : dirAB.heap 0 = _) (by cases hx; exact hm))
    · cases hx; exact absurd rfl hr

theorem parent_walk_acyclic_moved : ∃ g, TreeReachable g ∧
    (DirOp.rename rootId [97] 3 [97] false true).run dirAB = .ok g ∧ (g.heap 1).map Node.parent = some 3 ∧
    ∃ l, List.Chain (ParentLink g) 1 l ∧ (1 :: l).Nodup := by
  have hI := reachable_dirAB.inv.index
  have hk : (DirOp.rename rootId [97] 3 [97] false true).NoLoop dirAB := by
    intro p hp r m hr hm hw
    cases hp
    obtain rfl := hI.idUnique hr (rfl : dirAB.heap 2 = _) hm
    rcases dirAB_walk_b hw with h | h <;> cases h
  have hg := TreeReachable.step (.rename rootId [97] 3 [97] false true) treeReachable_dirAB ⟨2, _, rfl, rfl, by decide⟩ hk rfl
  obtain ⟨l, hc, hnd, -⟩ := (parent_walk_acyclic hg).2 1 _ rfl
  exact ⟨_, hg, rfl, rfl, l, hc, hnd⟩

end FuseCore
