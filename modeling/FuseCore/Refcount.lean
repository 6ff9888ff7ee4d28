import FuseCore.Index

/-!
# Reference counts (fuse.c:217-271, :296-476)

A node's `refctr` is the number of attached nodes whose parent it is, plus one while the
kernel has not forgotten it (`Node.selfRef`). `find_node` gives a new node its own reference
and one on its parent; `unhash_name` gives the parent's back; a FORGET that reaches zero
detaches the node and drops its own. `RefInv f d` is this equation up to a defect `d p`:
references node `p` still holds that the operation under way will drop. Every operation
starts and ends at `d = 0`; in between, the defect records the order in which the code
takes and drops references, so each step of the code has a lemma of its own.

The invariant also keeps what makes the aborts unreachable: live nodes have `refctr > 0`
(`unref_node`'s assertion), a node dropped to zero is detached (`delete_node`'s assertion),
and the parent of every attached non-root node is live (`get_node` in `unhash_name`).
-/

namespace FuseCore

/-- The node is attached under `id`. -/
def Node.childOf (n : Node) (id : Nat) : Bool := n.name.isSome && n.parent == id

/-- The number of attached nodes whose parent is `id`. -/
def children (f : Fuse) (id : Nat) : Nat :=
  (List.range f.nextPtr).countP fun p => (f.heap p).any (·.childOf id)

/-- The kernel has forgotten the node: `forget_node` brought `nlookup` to 0, or
`forget_node_old` cleared `version`. The root is never forgotten. -/
def Node.Forgotten (n : Node) : Prop := n.nodeid ≠ rootId ∧ (n.nlookup = 0 ∨ n.version = 0)

instance : DecidablePred Node.Forgotten := fun n =>
  inferInstanceAs (Decidable (n.nodeid ≠ rootId ∧ (n.nlookup = 0 ∨ n.version = 0)))

/-- The reference a node holds on itself until it is forgotten. -/
def Node.selfRef (n : Node) : Int := if n.Forgotten then 0 else 1

/-- Add `k` to the defect of `q`. -/
def bump (d : Ptr → Int) (q : Ptr) (k : Int) : Ptr → Int := Function.update d q (d q + k)

@[simp] theorem bump_same (d : Ptr → Int) (q : Ptr) (k : Int) : bump d q k q = d q + k := by
  simp [bump]

@[simp] theorem bump_ne (d : Ptr → Int) {p q : Ptr} (h : p ≠ q) (k : Int) : bump d q k p = d p := by
  simp [bump, h]

@[simp] theorem bump_bump (d : Ptr → Int) (q : Ptr) (k l : Int) :
    bump (bump d q k) q l = bump d q (k + l) := by
  funext x; by_cases hx : x = q
  · subst hx; simp; omega
  · simp [hx]

@[simp] theorem bump_zero (d : Ptr → Int) (q : Ptr) : bump d q 0 = d := by
  funext x; by_cases hx : x = q
  · subst hx; simp
  · simp [hx]

/-! ## Counting children -/

theorem countP_range_update {P Q : Nat → Bool} {j : Nat} (h : ∀ i, i ≠ j → Q i = P i) :
    ∀ N, j < N → ((List.range N).countP Q : Int) =
      (List.range N).countP P - (if P j then 1 else 0) + (if Q j then 1 else 0)
  | 0, hj => absurd hj (Nat.not_lt_zero j)
  | N + 1, hj => by
    rw [List.range_succ, List.countP_append, List.countP_append]
    by_cases hjN : j = N
    · subst hjN
      have hc : (List.range j).countP Q = (List.range j).countP P :=
        List.countP_congr fun i hi => by rw [h i (by simp at hi; omega)]
      simp only [hc, List.countP_cons, List.countP_nil]
      push_cast; split <;> split <;> omega
    · have ih := countP_range_update h N (by omega)
      simp only [List.countP_cons, List.countP_nil, h N (Ne.symm hjN)]
      push_cast; omega

theorem children_setNode_none {f : Fuse} {p : Ptr} (hp : f.heap p = none) (hb : p < f.nextPtr)
    (n' : Node) (id : Nat) :
    (children (f.setNode p n') id : Int) = children f id + (if n'.childOf id then 1 else 0) := by
  unfold children
  rw [countP_range_update (P := fun i => (f.heap i).any (·.childOf id)) (j := p)
    (fun i hi => by simp [hi]) _ (by simpa using hb)]
  simp [hp]

theorem children_setNode {f : Fuse} {p : Ptr} {n : Node} (hp : f.heap p = some n)
    (hb : p < f.nextPtr) (n' : Node) (id : Nat) :
    (children (f.setNode p n') id : Int) =
      children f id - (if n.childOf id then 1 else 0) + (if n'.childOf id then 1 else 0) := by
  unfold children
  rw [countP_range_update (P := fun i => (f.heap i).any (·.childOf id)) (j := p)
    (fun i hi => by simp [hi]) _ (by simpa using hb)]
  simp [hp]

theorem children_freeNode {f : Fuse} {p : Ptr} {n : Node} (hp : f.heap p = some n)
    (hn : n.name = none) (id : Nat) : children (f.freeNode p) id = children f id := by
  unfold children
  refine List.countP_congr fun i _ => ?_
  by_cases hi : i = p
  · subst hi; simp [hp, hn, Node.childOf]
  · simp [hi]

/-- `children` reads only the heap and `nextPtr`. -/
theorem children_congr {f g : Fuse} (hh : g.heap = f.heap) (hn : g.nextPtr = f.nextPtr) :
    children g = children f := by
  unfold children; rw [hh, hn]

/-- Moving `nextPtr` over an unused address changes no count. -/
theorem children_nextPtr {f : Fuse} (hp : f.heap f.nextPtr = none) (id : Nat) :
    children { f with nextPtr := f.nextPtr + 1 } id = children f id := by
  simp [children, List.range_succ, List.countP_append, hp]

/-- No attached node has a parent that is not live. -/
theorem children_eq_zero {f : Fuse} {id : Nat}
    (h : ∀ p n, f.heap p = some n → n.name.isSome → n.parent ≠ id) : children f id = 0 := by
  unfold children
  refine List.countP_eq_zero.2 fun p _ => ?_
  cases hp : f.heap p with
  | none => simp
  | some n => simpa [Node.childOf] using h p n hp

/-- An attached node below `nextPtr` is counted among its parent's children. -/
theorem children_pos {f : Fuse} {p : Ptr} {n : Node} (hp : f.heap p = some n)
    (hb : p < f.nextPtr) (ha : n.name.isSome) : 0 < children f n.parent := by
  unfold children
  exact List.countP_pos_iff.2 ⟨p, List.mem_range.2 hb, by simp [hp, Node.childOf, ha]⟩

/-! ## The invariant -/

/-- The reference-count invariant, up to the defect `d`. -/
structure RefInv (f : Fuse) (d : Ptr → Int) : Prop where
  count : ∀ {p n}, f.heap p = some n → n.refctr = children f n.nodeid + n.selfRef + d p
  defect : ∀ p, 0 ≤ d p
  positive : ∀ {p n}, f.heap p = some n → 0 < n.refctr
  forgotten : ∀ {p n}, f.heap p = some n → n.Forgotten → n.name = none ∨ 0 < d p
  parentLive : ∀ {p n}, f.heap p = some n → n.name.isSome → n.nodeid ≠ rootId →
    ∃ q m, f.heap q = some m ∧ m.nodeid = n.parent
  root : ∃ r n, f.heap r = some n ∧ n.nodeid = rootId ∧ n.name = some [47] ∧ n.parent = 0

theorem selfRef_nonneg (n : Node) : 0 ≤ n.selfRef := by
  unfold Node.selfRef; split <;> omega

theorem selfRef_le_one (n : Node) : n.selfRef ≤ 1 := by
  unfold Node.selfRef; split <;> omega

theorem selfRef_eq_zero {n : Node} : n.selfRef = 0 ↔ n.Forgotten := by
  unfold Node.selfRef; split <;> simp_all

theorem Node.Forgotten.ne_root {n : Node} (h : n.Forgotten) : n.nodeid ≠ rootId := h.1

theorem Node.key_eq {n n' : Node} (hk : n'.key = n.key) :
    n'.nodeid = n.nodeid ∧ n'.name = n.name ∧ n'.parent = n.parent := by
  simpa [Node.key] using hk

theorem Node.childOf_of_key {n n' : Node} (hk : n'.key = n.key) (id : Nat) :
    n'.childOf id = n.childOf id := by
  obtain ⟨-, h2, h3⟩ := Node.key_eq hk
  simp [Node.childOf, h2, h3]

/-- A write that keeps the node's key and keeps it live. The defect absorbs the change of
`refctr` and of the node's own reference. -/
theorem RefInv.setNode {f : Fuse} {d : Ptr → Int} {p : Ptr} {n : Node} (hI : IndexInv f)
    (h : RefInv f d) (hp : f.heap p = some n) (n' : Node) (hk : n'.key = n.key) (hpos : 0 < n'.refctr)
    (hd : 0 ≤ d p + ((n'.refctr - n.refctr) + (n.selfRef - n'.selfRef)))
    (hforg : n'.Forgotten →
      n'.name = none ∨ 0 < d p + ((n'.refctr - n.refctr) + (n.selfRef - n'.selfRef))) :
    RefInv (f.setNode p n') (bump d p ((n'.refctr - n.refctr) + (n.selfRef - n'.selfRef))) := by
  obtain ⟨hk1, hk2, hk3⟩ := Node.key_eq hk
  have hc : ∀ id, children (f.setNode p n') id = children f id := fun id => by
    have := children_setNode hp (hI.bounded hp) n' id
    rw [Node.childOf_of_key hk] at this
    omega
  refine ⟨fun {x m} hx => ?_, fun x => ?_, fun {x m} hx => ?_, fun {x m} hx => ?_,
    fun {x m} hx ha hr => ?_, ?_⟩
  · rw [hc]
    simp only [Fuse.setNode_heap, update_eq_some] at hx
    rcases hx with ⟨rfl, ⟨⟩⟩ | ⟨hxp, hx⟩
    · have := h.count hp
      rw [hk1]; simp only [bump_same]; omega
    · rw [h.count hx, bump_ne _ hxp]
  · by_cases hxp : x = p
    · subst hxp; simpa using hd
    · simpa [bump_ne _ hxp] using h.defect x
  · simp only [Fuse.setNode_heap, update_eq_some] at hx
    rcases hx with ⟨rfl, ⟨⟩⟩ | ⟨-, hx⟩
    exacts [hpos, h.positive hx]
  · simp only [Fuse.setNode_heap, update_eq_some] at hx
    rcases hx with ⟨rfl, ⟨⟩⟩ | ⟨hxp, hx⟩
    · simpa using hforg
    · simpa [bump_ne _ hxp] using h.forgotten hx
  · have live : ∀ {q m}, f.heap q = some m → ∃ m', (f.setNode p n').heap q = some m' ∧
        m'.nodeid = m.nodeid := fun {q m} hq => by
      by_cases hqp : q = p
      · subst hqp; rw [hp, Option.some.injEq] at hq; subst hq; exact ⟨n', by simp, hk1⟩
      · exact ⟨m, by simp [hqp, hq], rfl⟩
    simp only [Fuse.setNode_heap, update_eq_some] at hx
    rcases hx with ⟨rfl, ⟨⟩⟩ | ⟨-, hx⟩
    · obtain ⟨q, m, hq, hqm⟩ := h.parentLive hp (hk2 ▸ ha) (hk1 ▸ hr)
      obtain ⟨m', hq', hm'⟩ := live hq
      exact ⟨q, m', hq', by rw [hm', hqm, hk3]⟩
    · obtain ⟨q, m, hq, hqm⟩ := h.parentLive hx ha hr
      obtain ⟨m', hq', hm'⟩ := live hq
      exact ⟨q, m', hq', hm'.trans hqm⟩
  · obtain ⟨r, m, hr, h1, h2, h3⟩ := h.root
    by_cases hrp : r = p
    · subst hrp; rw [hp, Option.some.injEq] at hr; subst hr
      exact ⟨r, n', by simp, hk1 ▸ h1, hk2 ▸ h2, hk3 ▸ h3⟩
    · exact ⟨r, m, by simp [hrp, hr], h1, h2, h3⟩

/-- A node live in `f` stays live, with its id, after a write through a pointer. -/
theorem live_setNode {f : Fuse} {p q : Ptr} {n m : Node} (hp : f.heap p = some n) (n' : Node)
    (hk : n'.nodeid = n.nodeid) (hq : f.heap q = some m) :
    ∃ m', (f.setNode p n').heap q = some m' ∧ m'.nodeid = m.nodeid := by
  by_cases hqp : q = p
  · subst hqp; rw [hp, Option.some.injEq] at hq; subst hq; exact ⟨n', by simp, hk⟩
  · exact ⟨m, by simp [hqp, hq], rfl⟩

theorem children_detach {f : Fuse} {p : Ptr} {n : Node} {s : Name} (hI : IndexInv f)
    (hp : f.heap p = some n) (hs : n.name = some s) (id : Nat) :
    (children (f.detach p n s) id : Int) = children f id - (if id = n.parent then 1 else 0) := by
  have h1 := children_setNode (f := f.eraseName (nameHash n.parent s) p) hp (hI.bounded hp)
    { n with name := none, parent := 0 } id
  have h2 : children (f.eraseName (nameHash n.parent s) p) id = children f id :=
    congrFun (children_congr rfl rfl) id
  rw [Fuse.detach, h1, h2]
  by_cases hid : id = n.parent
  · subst hid; simp [Node.childOf, hs]
  · simp [Node.childOf, hs, Ne.symm hid, hid]

/-- Detaching `p` from its parent `q`: `q` keeps its reference until it is dropped. -/
theorem RefInv.detach {f : Fuse} {d : Ptr → Int} {p q : Ptr} {n m : Node} {s : Name}
    (hI : IndexInv f) (h : RefInv f d) (hp : f.heap p = some n) (hs : n.name = some s)
    (hr : n.nodeid ≠ rootId) (hq : f.heap q = some m) (hqm : m.nodeid = n.parent) :
    RefInv (f.detach p n s) (bump d q 1) := by
  have hparent : ∀ {x y}, f.heap x = some y → y.nodeid = n.parent → x = q :=
    fun hx hy => hI.idUnique hx hq (hy.trans hqm.symm)
  have heap' : ∀ {x y}, (f.detach p n s).heap x = some y ↔
      (x = p ∧ { n with name := none, parent := 0 } = y) ∨ (x ≠ p ∧ f.heap x = some y) := by
    intro x y
    simp only [Fuse.detach, Fuse.setNode_heap, Fuse.eraseName_heap, update_eq_some, Option.some.injEq]
  refine ⟨fun {x y} hx => ?_, fun x => ?_, fun {x y} hx => ?_, fun {x y} hx => ?_,
    fun {x y} hx ha hr' => ?_, ?_⟩
  · rw [children_detach hI hp hs]
    rcases heap'.1 hx with ⟨rfl, rfl⟩ | ⟨hxp, hx⟩
    · have hc := h.count hp
      have hself : ({ n with name := none, parent := 0 } : Node).selfRef = n.selfRef := rfl
      dsimp only
      rw [hself]
      by_cases he : n.nodeid = n.parent
      · obtain rfl := hparent hp he
        rw [if_pos he, bump_same]; omega
      · have hpq : x ≠ q := fun e => he (by subst e; rw [hp, Option.some.injEq] at hq; subst hq; exact hqm)
        rw [if_neg he, bump_ne _ hpq]; omega
    · have hc := h.count hx
      by_cases he : y.nodeid = n.parent
      · obtain rfl := hparent hx he
        rw [if_pos he, bump_same]; omega
      · have hxq : x ≠ q := fun e => he (by subst e; rw [hx, Option.some.injEq] at hq; subst hq; exact hqm)
        rw [if_neg he, bump_ne _ hxq]; omega
  · by_cases hxq : x = q
    · subst hxq; have := h.defect x; simp; omega
    · simpa [bump_ne _ hxq] using h.defect x
  · rcases heap'.1 hx with ⟨rfl, rfl⟩ | ⟨-, hx⟩
    exacts [show 0 < n.refctr from h.positive hp, h.positive hx]
  · rcases heap'.1 hx with ⟨rfl, rfl⟩ | ⟨-, hx⟩
    · intro; left; rfl
    · intro hf
      by_cases hxq : x = q
      · subst hxq; have := h.defect x; right; simp; omega
      · simpa [bump_ne _ hxq] using h.forgotten hx hf
  · rcases heap'.1 hx with ⟨rfl, rfl⟩ | ⟨-, hx⟩
    · simp at ha
    obtain ⟨r, z, hz, hzid⟩ := h.parentLive hx ha hr'
    by_cases hrp : r = p
    · subst hrp; rw [hp, Option.some.injEq] at hz; subst hz
      exact ⟨r, _, heap'.2 (.inl ⟨rfl, rfl⟩), hzid⟩
    · exact ⟨r, z, heap'.2 (.inr ⟨hrp, hz⟩), hzid⟩
  · obtain ⟨r, z, hz, h1, h2, h3⟩ := h.root
    have hrp : r ≠ p := fun e => hr (by subst e; rw [hp, Option.some.injEq] at hz; subst hz; exact h1)
    exact ⟨r, z, heap'.2 (.inr ⟨hrp, hz⟩), h1, h2, h3⟩

/-- A node whose count reaches zero when one of its defect references is dropped is forgotten,
detached and childless. -/
theorem RefInv.drop_last {f : Fuse} {d : Ptr → Int} {q : Ptr} {m : Node} (h : RefInv f d)
    (hq : f.heap q = some m) (hd : 1 ≤ d q) (hforg : m.Forgotten → m.name = none ∨ 1 < d q)
    (h1 : m.refctr = 1) : m.Forgotten ∧ m.name = none ∧ d q = 1 ∧ children f m.nodeid = 0 := by
  have hc := h.count hq
  have := selfRef_nonneg m
  have hs : m.selfRef = 0 := by omega
  have hf := selfRef_eq_zero.1 hs
  refine ⟨hf, ?_, by omega, by omega⟩
  rcases hforg hf with hn | hn
  exacts [hn, by omega]

/-- Dropping one of the references the defect records (`unref_node`). -/
theorem RefInv.dropRef {f : Fuse} {d : Ptr → Int} {q : Ptr} {m : Node} (hI : IndexInv f)
    (h : RefInv f d) (hq : f.heap q = some m) (hd : 1 ≤ d q)
    (hforg : m.Forgotten → m.name = none ∨ 1 < d q) :
    RefInv (f.dropRef q m) (bump d q (-1)) := by
  unfold Fuse.dropRef
  split
  · rename_i h1
    obtain ⟨hf, hn, hdq, hch⟩ := h.drop_last hq hd hforg h1
    have hc : ∀ id, children ((f.eraseId (m.nodeid % idTableSize) q).freeNode q) id = children f id :=
      fun id => (children_freeNode (f := f.eraseId _ q) hq hn id).trans (congrFun (children_congr rfl rfl) id)
    have heap' : ∀ {x y}, ((f.eraseId (m.nodeid % idTableSize) q).freeNode q).heap x = some y ↔
        x ≠ q ∧ f.heap x = some y := by
      intro x y; simp only [Fuse.freeNode_heap, Fuse.eraseId_heap, update_eq_some]; simp
    refine ⟨fun {x y} hx => ?_, fun x => ?_, fun {x y} hx => ?_, fun {x y} hx => ?_,
      fun {x y} hx ha hr => ?_, ?_⟩
    · obtain ⟨hxq, hx⟩ := heap'.1 hx
      rw [hc, bump_ne _ hxq]; exact h.count hx
    · by_cases hxq : x = q
      · subst hxq; simp; omega
      · simpa [bump_ne _ hxq] using h.defect x
    · exact h.positive (heap'.1 hx).2
    · obtain ⟨hxq, hx⟩ := heap'.1 hx
      simpa [bump_ne _ hxq] using h.forgotten hx
    · obtain ⟨hxq, hfx⟩ := heap'.1 hx
      obtain ⟨r, z, hz, hzid⟩ := h.parentLive hfx ha hr
      have hrq : r ≠ q := by
        rintro rfl
        rw [hq, Option.some.injEq] at hz; subst hz
        have := children_pos hfx (hI.bounded hfx) ha
        rw [← hzid] at this; omega
      exact ⟨r, z, heap'.2 ⟨hrq, hz⟩, hzid⟩
    · obtain ⟨r, z, hz, h1, h2, h3⟩ := h.root
      have hrq : r ≠ q := by
        rintro rfl; rw [hq, Option.some.injEq] at hz; subst hz; exact hf.ne_root h1
      exact ⟨r, z, heap'.2 ⟨hrq, hz⟩, h1, h2, h3⟩
  · rename_i h1
    have hpos := h.positive hq
    have hself : ({ m with refctr := m.refctr - 1 } : Node).selfRef = m.selfRef := rfl
    have hk : m.refctr - 1 - m.refctr + (m.selfRef - m.selfRef) = -1 := by omega
    have := h.setNode hI hq { m with refctr := m.refctr - 1 } rfl (by dsimp only; omega)
      (by rw [hself, hk]; omega) (fun hf => by rw [hself, hk]; exact (hforg hf).imp id (by omega))
    rwa [hself, hk] at this

/-- Only the heap and the counts of children matter. -/
theorem RefInv.congr {f g : Fuse} {d : Ptr → Int} (h : RefInv f d) (hh : g.heap = f.heap)
    (hc : children g = children f) : RefInv g d where
  count hp := by rw [hc]; exact h.count (hh ▸ hp)
  defect := h.defect
  positive hp := h.positive (hh ▸ hp)
  forgotten hp := h.forgotten (hh ▸ hp)
  parentLive hp := by rw [hh]; exact h.parentLive (hh ▸ hp)
  root := hh ▸ h.root

/-- Taking a reference on `q`: the defect records it until it is handed to a child. -/
theorem RefInv.incRef {f : Fuse} {d : Ptr → Int} {q : Ptr} {m : Node} (hI : IndexInv f)
    (h : RefInv f d) (hq : f.heap q = some m) : RefInv (f.incRef q m) (bump d q 1) := by
  have hself : ({ m with refctr := m.refctr + 1 } : Node).selfRef = m.selfRef := rfl
  have hk : m.refctr + 1 - m.refctr + (m.selfRef - m.selfRef) = 1 := by omega
  have := h.setNode hI hq { m with refctr := m.refctr + 1 } rfl
    (by have := h.positive hq; dsimp only; omega) (by rw [hself, hk]; have := h.defect q; omega)
    (fun _ => by rw [hself, hk]; have := h.defect q; omega)
  rwa [hself, hk] at this

theorem children_attach {f : Fuse} {p : Ptr} {n : Node} {parent : Nat} {name : Name}
    (hI : IndexInv f) (hp : f.heap p = some n) (hn : n.name = none) (id : Nat) :
    (children (f.attach p n parent name) id : Int) = children f id + (if id = parent then 1 else 0) := by
  have h1 := children_setNode hp (hI.bounded hp) { n with name := some name, parent := parent } id
  have h2 : children (f.attach p n parent name) = children (f.setNode p
      { n with name := some name, parent := parent }) := children_congr rfl rfl
  rw [h2, h1]
  by_cases hid : id = parent
  · subst hid; simp [Node.childOf, hn]
  · simp [Node.childOf, hn, Ne.symm hid, hid]

/-- Attaching the detached node `p` under `q`: the reference `q` took for it leaves the
defect. -/
theorem RefInv.attach {f : Fuse} {d : Ptr → Int} {p q : Ptr} {n m : Node} {parent : Nat}
    {name : Name} (hI : IndexInv f) (h : RefInv f d) (hp : f.heap p = some n) (hn : n.name = none)
    (hq : f.heap q = some m) (hqm : m.nodeid = parent) (hd : 1 ≤ d q)
    (hforgq : m.Forgotten → m.name = none ∨ 1 < d q)
    (hforg : n.Forgotten → 0 < bump d q (-1) p) :
    RefInv (f.attach p n parent name) (bump d q (-1)) := by
  have hpar : ∀ {x y}, f.heap x = some y → (y.nodeid = parent ↔ x = q) := fun {x y} hx =>
    ⟨fun hy => hI.idUnique hx hq (hy.trans hqm.symm),
     by rintro rfl; rw [hq, Option.some.injEq] at hx; subst hx; exact hqm⟩
  have heap' : ∀ {x y}, (f.attach p n parent name).heap x = some y ↔
      (x = p ∧ { n with name := some name, parent := parent } = y) ∨ (x ≠ p ∧ f.heap x = some y) := by
    intro x y
    simp only [Fuse.attach, Fuse.pushName_heap, Fuse.setNode_heap, update_eq_some, Option.some.injEq]
  refine ⟨fun {x y} hx => ?_, fun x => ?_, fun {x y} hx => ?_, fun {x y} hx => ?_,
    fun {x y} hx ha hr => ?_, ?_⟩
  · rw [children_attach hI hp hn]
    rcases heap'.1 hx with ⟨rfl, rfl⟩ | ⟨hxp, hx⟩
    · have hc := h.count hp
      have hself : ({ n with name := some name, parent := parent } : Node).selfRef = n.selfRef := rfl
      dsimp only; rw [hself]
      by_cases hxq : x = q
      · subst hxq; rw [if_pos ((hpar hp).2 rfl), bump_same]; omega
      · rw [if_neg (fun e => hxq ((hpar hp).1 e)), bump_ne _ hxq]; omega
    · have hc := h.count hx
      by_cases hxq : x = q
      · subst hxq; rw [if_pos ((hpar hx).2 rfl), bump_same]; omega
      · rw [if_neg (fun e => hxq ((hpar hx).1 e)), bump_ne _ hxq]; omega
  · by_cases hxq : x = q
    · subst hxq; simp; omega
    · simpa [bump_ne _ hxq] using h.defect x
  · rcases heap'.1 hx with ⟨rfl, rfl⟩ | ⟨-, hx⟩
    exacts [show 0 < n.refctr from h.positive hp, h.positive hx]
  · rcases heap'.1 hx with ⟨rfl, rfl⟩ | ⟨hxp, hx⟩
    · exact fun hf => .inr (hforg hf)
    · intro hf
      by_cases hxq : x = q
      · subst hxq; rw [hq, Option.some.injEq] at hx; subst hx
        rw [bump_same]; exact (hforgq hf).imp id (by omega)
      · simpa [bump_ne _ hxq] using h.forgotten hx hf
  · have live : ∀ {z w}, f.heap z = some w →
        ∃ w', (f.attach p n parent name).heap z = some w' ∧ w'.nodeid = w.nodeid := fun {z w} hz => by
      obtain ⟨w', hw, hw'⟩ := live_setNode hp { n with name := some name, parent := parent } rfl hz
      exact ⟨w', hw, hw'⟩
    rcases heap'.1 hx with ⟨rfl, rfl⟩ | ⟨-, hx⟩
    · obtain ⟨w', hw, hw'⟩ := live hq
      exact ⟨q, w', hw, hw'.trans hqm⟩
    · obtain ⟨z, w, hz, hzid⟩ := h.parentLive hx ha hr
      obtain ⟨w', hw, hw'⟩ := live hz
      exact ⟨z, w', hw, hw'.trans hzid⟩
  · obtain ⟨r, z, hz, h1, h2, h3⟩ := h.root
    have hrp : r ≠ p := by rintro rfl; rw [hp, Option.some.injEq] at hz; subst hz; simp [hn] at h2
    exact ⟨r, z, heap'.2 (.inr ⟨hrp, hz⟩), h1, h2, h3⟩

/-- Inserting a detached node with no children at an unused address: its references are all
pending. -/
theorem RefInv.insertNode {f : Fuse} {d : Ptr → Int} {p : Ptr} {n : Node} (h : RefInv f d)
    (hp : f.heap p = none) (hb : p < f.nextPtr) (hn : n.name = none)
    (hc : children f n.nodeid = 0) (hpos : 0 < n.refctr) (hdp : d p = 0) :
    RefInv (f.insertNode p n) (bump d p (n.refctr - n.selfRef)) := by
  have hch : ∀ id, children (f.insertNode p n) id = children f id := fun id => by
    have h1 := children_setNode_none hp hb n id
    have h2 : children (f.insertNode p n) = children (f.setNode p n) := children_congr rfl rfl
    simp [Node.childOf, hn] at h1; rw [h2]; omega
  have heap' : ∀ {x y}, (f.insertNode p n).heap x = some y ↔
      (x = p ∧ n = y) ∨ (x ≠ p ∧ f.heap x = some y) := by
    intro x y
    simp only [Fuse.insertNode, Fuse.pushId_heap, Fuse.setNode_heap, update_eq_some, Option.some.injEq]
  have hs1 := selfRef_le_one n
  refine ⟨fun {x y} hx => ?_, fun x => ?_, fun {x y} hx => ?_, fun {x y} hx => ?_,
    fun {x y} hx ha hr => ?_, ?_⟩
  · rw [hch]
    rcases heap'.1 hx with ⟨rfl, rfl⟩ | ⟨hxp, hx⟩
    · rw [hc, bump_same]; omega
    · rw [bump_ne _ hxp]; exact h.count hx
  · by_cases hxp : x = p
    · subst hxp; simp; omega
    · simpa [bump_ne _ hxp] using h.defect x
  · rcases heap'.1 hx with ⟨rfl, rfl⟩ | ⟨-, hx⟩
    exacts [hpos, h.positive hx]
  · rcases heap'.1 hx with ⟨rfl, rfl⟩ | ⟨hxp, hx⟩
    · exact fun _ => .inl hn
    · simpa [bump_ne _ hxp] using h.forgotten hx
  · rcases heap'.1 hx with ⟨rfl, rfl⟩ | ⟨-, hx⟩
    · simp [hn] at ha
    obtain ⟨z, w, hz, hzid⟩ := h.parentLive hx ha hr
    have hzp : z ≠ p := by rintro rfl; simp [hp] at hz
    exact ⟨z, w, heap'.2 (.inr ⟨hzp, hz⟩), hzid⟩
  · obtain ⟨r, z, hz, h1, h2, h3⟩ := h.root
    have hrp : r ≠ p := by rintro rfl; simp [hp] at hz
    exact ⟨r, z, heap'.2 (.inr ⟨hrp, hz⟩), h1, h2, h3⟩

end FuseCore
