import FuseCore.Refcount

/-!
# `unhash_name` and `unref_node` under the invariants (fuse.c:217-271)

Every path that detaches a node goes through `unhash_name`, which drops the reference the node
held on its parent and may so destroy the parent; every path that ends a node's life goes
through `unref_node`. This module shows, once, that neither faults while the two invariants
hold, that both keep them, and what they change (`Unhashed`): the node is detached, counts
move, forgotten nodes may be destroyed, and nothing else is written. The operations of
`FuseCore.Directory` cite these lemmas and never unfold the two functions.
-/

namespace FuseCore

/-- The fields that neither the tables nor the counts write. -/
def Node.ident (n : Node) : Nat × Nat × Nat × Nat × Int × Bool :=
  (n.nodeid, n.generation, n.version, n.nlookup, n.openCount, n.isHidden)

theorem Node.Forgotten.of_ident {y y0 : Node} (h : y.ident = y0.ident) :
    y.Forgotten ↔ y0.Forgotten := by
  simp only [Node.ident, Prod.mk.injEq] at h
  simp [Node.Forgotten, h]

theorem Node.nodeid_of_ident {y y0 : Node} (h : y.ident = y0.ident) : y.nodeid = y0.nodeid := by
  simp only [Node.ident, Prod.mk.injEq] at h; exact h.1

theorem Node.openCount_of_ident {y y0 : Node} (h : y.ident = y0.ident) : y.openCount = y0.openCount := by
  simp only [Node.ident, Prod.mk.injEq] at h; exact h.2.2.2.2.1

@[simp] theorem Fuse.detach_heap (f : Fuse) (p : Ptr) (n : Node) (s : Name) :
    (f.detach p n s).heap = Function.update f.heap p (some { n with name := none, parent := 0 }) :=
  rfl

/-! ## What a dropped reference leaves -/

/-- Every node left by `dropRef` was there, with the same record up to its count. -/
theorem Fuse.dropRef_frame {f : Fuse} {q x : Ptr} {m y : Node} (hq : f.heap q = some m)
    (hx : (f.dropRef q m).heap x = some y) :
    ∃ y0, f.heap x = some y0 ∧ y.ident = y0.ident ∧ y.key = y0.key := by
  unfold Fuse.dropRef at hx
  split at hx
  · simp only [Fuse.freeNode_heap, Fuse.eraseId_heap, update_eq_some] at hx
    rcases hx with ⟨-, ⟨⟩⟩ | ⟨-, hx⟩
    exact ⟨y, hx, rfl, rfl⟩
  · simp only [Fuse.setNode_heap, update_eq_some] at hx
    rcases hx with ⟨rfl, ⟨⟩⟩ | ⟨-, hx⟩
    exacts [⟨m, hq, rfl, rfl⟩, ⟨y, hx, rfl, rfl⟩]

@[simp] theorem Fuse.dropRef_ctr (f : Fuse) (q : Ptr) (m : Node) : (f.dropRef q m).ctr = f.ctr := by
  unfold Fuse.dropRef; split <;> rfl

@[simp] theorem Fuse.dropRef_generation (f : Fuse) (q : Ptr) (m : Node) :
    (f.dropRef q m).generation = f.generation := by
  unfold Fuse.dropRef; split <;> rfl

/-- `dropRef` destroys only the node whose count was 1. -/
theorem Fuse.dropRef_keep {f : Fuse} {q x : Ptr} {m y0 : Node} (hx : f.heap x = some y0)
    (h : x = q → m.refctr ≠ 1) : ∃ y, (f.dropRef q m).heap x = some y := by
  unfold Fuse.dropRef
  by_cases hxq : x = q
  · subst hxq; rw [if_neg (h rfl)]; exact ⟨{ m with refctr := m.refctr - 1 }, by simp⟩
  · split <;> exact ⟨y0, by simp [hxq, hx]⟩

/-! ## `unhash_name` -/

/-- What `unhash_name` on `p` changes from `f` to `g`: `p` ends detached, counts move, and
nodes the kernel has forgotten may be destroyed. -/
structure Unhashed (f g : Fuse) (p : Ptr) : Prop where
  detached : ∃ m, g.heap p = some m ∧ m.name = none
  frame : ∀ {x y}, g.heap x = some y → ∃ y0, f.heap x = some y0 ∧ y.ident = y0.ident ∧
    (x = p → y.name = none) ∧ (x ≠ p → y.name = y0.name ∧ y.parent = y0.parent)
  keep : ∀ {x y0}, f.heap x = some y0 → ¬ y0.Forgotten → ∃ y, g.heap x = some y
  counters : g.ctr = f.ctr ∧ g.generation = f.generation

theorem Unhashed.refl {f : Fuse} {p : Ptr} {n : Node} (hp : f.heap p = some n)
    (hn : n.name = none) : Unhashed f f p where
  detached := ⟨n, hp, hn⟩
  frame {x y} hx := ⟨y, hx, rfl, fun e => by subst e; rw [hp] at hx; cases hx; exact hn,
    fun _ => ⟨rfl, rfl⟩⟩
  keep hx _ := ⟨_, hx⟩
  counters := ⟨rfl, rfl⟩

/-- A node the kernel still holds survives `unhash_name`, with the fields it had. -/
theorem Unhashed.live {f g : Fuse} {p x : Ptr} {y0 : Node} (hu : Unhashed f g p)
    (hx : f.heap x = some y0) (hy0 : ¬ y0.Forgotten) : ∃ y, g.heap x = some y ∧ y.ident = y0.ident := by
  obtain ⟨y, hy⟩ := hu.keep hx hy0
  obtain ⟨y1, hy1, hid, -⟩ := hu.frame hy
  rw [hx, Option.some.injEq] at hy1; subst hy1
  exact ⟨y, hy, hid⟩

/-- After `unhash_name` on `p`, a key that only `p` had is free. -/
theorem Unhashed.keyFree {f g : Fuse} {p : Ptr} {parent : Nat} {name : Name} (hu : Unhashed f g p)
    (hk : ∀ x y, f.heap x = some y → y.name = some name → y.parent = parent → x = p) :
    ∀ x y, g.heap x = some y → y.name = some name → y.parent ≠ parent := fun x y hx hy e => by
  obtain ⟨y0, hy0, -, hp, hnp⟩ := hu.frame hx
  by_cases hxp : x = p
  · rw [hp hxp] at hy; cases hy
  · obtain ⟨h1, h2⟩ := hnp hxp
    exact hxp (hk x y0 hy0 (h1 ▸ hy) (h2 ▸ e))

/-- The record of the parent once its child is detached, and what the invariant says of it. -/
theorem RefInv.detached_parent {f : Fuse} {d : Ptr → Int} {p q : Ptr} {n m0 : Node} {s : Name}
    (h : RefInv f d) (hp : f.heap p = some n) (hs : n.name = some s) (hq : f.heap q = some m0) :
    ∃ m, (f.detach p n s).heap q = some m ∧
      (m.Forgotten → m.name = none ∨ 1 < bump d q 1 q) ∧ (q = p → ¬ m.Forgotten ∨ 1 < d q + 1) := by
  by_cases hqp : q = p
  · subst hqp
    rw [hp, Option.some.injEq] at hq; subst hq
    refine ⟨{ n with name := none, parent := 0 }, by simp, fun _ => .inl rfl, fun _ => ?_⟩
    by_cases hf : n.Forgotten
    · rcases h.forgotten hp hf with hn | hn
      · simp [hs] at hn
      · right; omega
    · exact .inl hf
  · refine ⟨m0, by simp [hqp, hq], fun hf => ?_, fun e => absurd e hqp⟩
    rw [bump_same]
    exact (h.forgotten hq hf).imp id (by omega)

/-- **`unhash_name` on a non-root node never faults and keeps both invariants.** -/
theorem unhashName_spec {f : Fuse} {d : Ptr → Int} {p : Ptr} {n : Node} (hI : IndexInv f)
    (h : RefInv f d) (hp : f.heap p = some n) (hr : n.nodeid ≠ rootId) :
    ∃ g, unhashName f p = .ok g ∧ IndexInv g ∧ RefInv g d ∧ Unhashed f g p := by
  cases hs : n.name with
  | none => exact ⟨f, by simp [unhashName, Fuse.node, hp, hs], hI, h, .refl hp hs⟩
  | some s =>
    obtain ⟨q, m0, hq, hqm⟩ := h.parentLive hp (by simp [hs]) hr
    obtain ⟨m, hm, hforg, hself⟩ := h.detached_parent hp hs hq
    have hI1 := hI.detach hp hs
    have h1 := h.detach hI hp hs hr hq hqm
    have hd : 1 ≤ bump d q 1 q := by rw [bump_same]; have := h.defect q; omega
    have hone : m.refctr = 1 → m.name = none ∧ q ≠ p := fun h1' => by
      obtain ⟨hf, hn, hdq, -⟩ := h1.drop_last hm hd hforg h1'
      refine ⟨hn, fun e => ?_⟩
      rw [bump_same] at hdq
      rcases hself e with hf' | hlt
      exacts [hf' hf, by omega]
    have heq := unhashName_eq hp hs ((hI.nameMem _ p).2 ⟨n, s, hp, hr, hs, rfl⟩)
      ((getNodeNocheck_eq_some hI).2 ⟨m0, hq, hqm⟩) hm (h1.positive hm) hone
    have h2 := h1.dropRef hI1 hm hd hforg
    rw [bump_bump, show (1 : Int) + -1 = 0 by rfl, bump_zero] at h2
    refine ⟨_, heq, hI1.dropRef hm (fun e => (hone e).1), h2,
      ⟨?_, fun {x y} hx => ?_, fun {x y0} hx hf => ?_, by simp only [Fuse.dropRef_ctr, Fuse.dropRef_generation]; exact ⟨rfl, rfl⟩⟩⟩
    · obtain ⟨y, hy⟩ := Fuse.dropRef_keep
        (show (f.detach p n s).heap p = some { n with name := none, parent := 0 } by simp)
        (fun e => fun h1' => (hone h1').2 e.symm)
      obtain ⟨y0, hy0, hid, hk⟩ := Fuse.dropRef_frame hm hy
      simp only [Fuse.detach_heap, Function.update_same, Option.some.injEq] at hy0
      subst hy0
      exact ⟨y, hy, by simp only [Node.key, Prod.mk.injEq] at hk; exact hk.2.1⟩
    · obtain ⟨y0, hy0, hid, hk⟩ := Fuse.dropRef_frame hm hx
      simp only [Node.key, Prod.mk.injEq] at hk
      simp only [Fuse.detach_heap, update_eq_some] at hy0
      rcases hy0 with ⟨rfl, ⟨⟩⟩ | ⟨hxp, hy0⟩
      · exact ⟨n, hp, hid, fun _ => hk.2.1, fun e => absurd rfl e⟩
      · exact ⟨y0, hy0, hid, fun e => absurd e hxp, fun _ => hk.2⟩
    · have hx1 : (f.detach p n s).heap x = some (if x = p then { y0 with name := none, parent := 0 } else y0) := by
        by_cases hxp : x = p
        · subst hxp; rw [hp, Option.some.injEq] at hx; subst hx; simp
        · simp [hxp, hx]
      refine Fuse.dropRef_keep hx1 fun e h1' => hf ?_
      subst e
      obtain ⟨hf', -, -, -⟩ := h1.drop_last hm hd hforg h1'
      rw [hx1, Option.some.injEq] at hm
      subst hm
      split at hf'
      · exact (Node.Forgotten.of_ident rfl).1 hf'
      · exact hf'

/-! ## Parent links -/

/-- The link `get_path_name` follows out of node `x` (fuse.c:366-368): `x` is attached and not
the root, and `y` is the live node with `x`'s parent id. -/
def ParentLink (f : Fuse) (x y : Ptr) : Prop :=
  ∃ n m, f.heap x = some n ∧ n.nodeid ≠ rootId ∧ n.name.isSome ∧ f.heap y = some m ∧
    m.nodeid = n.parent

/-- Every parent link of `g` is one of `f`. -/
def Fuse.KeepsLinks (f g : Fuse) : Prop := ∀ x y, ParentLink g x y → ParentLink f x y

/-- A link of `g` is one of `f` when its source was there under the same key and its target
under the same id. -/
theorem ParentLink.of_frame {f g : Fuse} {x y : Ptr} (hl : ParentLink g x y)
    (hx : ∀ n, g.heap x = some n → n.name.isSome → ∃ n0, f.heap x = some n0 ∧ n.key = n0.key)
    (hy : ∀ m, g.heap y = some m → ∃ m0, f.heap y = some m0 ∧ m.nodeid = m0.nodeid) :
    ParentLink f x y := by
  obtain ⟨n, m, hn, hr, ha, hm, e⟩ := hl
  obtain ⟨n0, hn0, hk⟩ := hx n hn ha
  obtain ⟨m0, hm0, hmi⟩ := hy m hm
  obtain ⟨h1, h2, h3⟩ := Node.key_eq hk
  exact ⟨n0, m0, hn0, h1 ▸ hr, h2 ▸ ha, hm0, by rw [← hmi, e, h3]⟩

/-- So a step keeps the links when each node it leaves was there under the same id, and an
attached one under the same key. -/
theorem Fuse.KeepsLinks.of_frame {f g : Fuse}
    (h : ∀ {x y}, g.heap x = some y →
      ∃ y0, f.heap x = some y0 ∧ y.nodeid = y0.nodeid ∧ (y.name.isSome → y.key = y0.key)) :
    f.KeepsLinks g := fun _ _ hl =>
  hl.of_frame (fun _ hn ha => let ⟨n0, h0, _, hk⟩ := h hn; ⟨n0, h0, hk ha⟩)
    (fun _ hm => let ⟨m0, h0, hi, _⟩ := h hm; ⟨m0, h0, hi⟩)

theorem Fuse.KeepsLinks.refl (f : Fuse) : f.KeepsLinks f := fun _ _ h => h

theorem Fuse.KeepsLinks.trans {f g k : Fuse} (h1 : f.KeepsLinks g) (h2 : g.KeepsLinks k) :
    f.KeepsLinks k := fun x y h => h1 x y (h2 x y h)

theorem Fuse.KeepsLinks.setNode {f : Fuse} {p : Ptr} {n : Node} (hp : f.heap p = some n)
    (n' : Node) (hk : n'.key = n.key) : f.KeepsLinks (f.setNode p n') := .of_frame fun {x y} hx => by
  simp only [Fuse.setNode_heap, update_eq_some] at hx
  rcases hx with ⟨rfl, ⟨⟩⟩ | ⟨-, hx⟩
  exacts [⟨n, hp, (Node.key_eq hk).1, fun _ => hk⟩, ⟨y, hx, rfl, fun _ => rfl⟩]

theorem Fuse.KeepsLinks.dropRef {f : Fuse} {q : Ptr} {m : Node} (hq : f.heap q = some m) :
    f.KeepsLinks (f.dropRef q m) := .of_frame fun hx => by
  obtain ⟨y0, hy0, -, hk⟩ := Fuse.dropRef_frame hq hx
  exact ⟨y0, hy0, (Node.key_eq hk).1, fun _ => hk⟩

theorem Unhashed.keepsLinks {f g : Fuse} {p : Ptr} (hu : Unhashed f g p) : f.KeepsLinks g :=
  .of_frame fun {x y} hx => by
    obtain ⟨y0, hy0, hid, hp, hnp⟩ := hu.frame hx
    refine ⟨y0, hy0, Node.nodeid_of_ident hid, fun ha => ?_⟩
    have hxp : x ≠ p := fun e => by simp [hp e] at ha
    simp only [Node.key, Node.nodeid_of_ident hid, (hnp hxp).1, (hnp hxp).2]

/-- Writing a record with the same id at `p` keeps every link but the one out of `p`, which
leads to a node with the record's parent id. -/
theorem ParentLink.setNode {f : Fuse} {p x y : Ptr} {n n' : Node} (hp : f.heap p = some n)
    (hid : n'.nodeid = n.nodeid) (hl : ParentLink (f.setNode p n') x y) :
    ParentLink f x y ∨ (x = p ∧ ∃ m, f.heap y = some m ∧ m.nodeid = n'.parent) := by
  have hy : ∀ m, (f.setNode p n').heap y = some m → ∃ m0, f.heap y = some m0 ∧ m.nodeid = m0.nodeid :=
    fun m hm => by
      simp only [Fuse.setNode_heap, update_eq_some] at hm
      rcases hm with ⟨rfl, ⟨⟩⟩ | ⟨-, hm⟩
      exacts [⟨n, hp, hid⟩, ⟨m, hm, rfl⟩]
  by_cases hxp : x = p
  · subst hxp
    obtain ⟨n1, m, hn1, -, -, hm, e⟩ := hl
    simp only [Fuse.setNode_heap, Function.update_same, Option.some.injEq] at hn1
    subst hn1
    obtain ⟨m0, hm0, hmi⟩ := hy m hm
    exact .inr ⟨rfl, m0, hm0, hmi ▸ e⟩
  · exact .inl (hl.of_frame (fun n1 hn1 _ => ⟨n1, by simpa [hxp] using hn1, rfl⟩) hy)

end FuseCore
