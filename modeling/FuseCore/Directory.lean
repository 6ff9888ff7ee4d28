import FuseCore.Unhash
import FuseCore.Ops

/-!
# The operations of the directory keep its invariant (fuse.c:296-476)

`Inv` is the invariant at rest, between two operations: `IndexInv` and `RefInv` with no
pending reference. For each operation this module computes what it does (`findNode_hit`,
`findNode_fresh`, …) and proves that, under what the kernel guarantees, it does not fault and
keeps `Inv`. The kernel's side is `Held`: the node with that id is live and not forgotten.

Besides the invariant, each lemma says which nodes survive: operations other than `find_node`
create none (`Fuse.Shrinks`), and `find_node` destroys none (`Fuse.Grows`); and which parent
links they add: the forgets and `remove_node` none (`Fuse.KeepsLinks`), `find_node` and
`rename_node` the one out of the node they attach (`Fuse.Relinks`).
-/

namespace FuseCore

/-- The directory's invariant at rest: the tables index the heap, and every count is exact. -/
structure Inv (f : Fuse) : Prop where
  index : IndexInv f
  refs : RefInv f fun _ => 0

/-- The kernel holds the node with this id: it is live and not forgotten. -/
def Held (f : Fuse) (id : Nat) : Prop := ∃ p n, f.heap p = some n ∧ n.nodeid = id ∧ ¬ n.Forgotten

/-- No node is created from `f` to `g`: every node live in `g` was live in `f`, under the
same id; and the id counter did not move. -/
structure Fuse.Shrinks (f g : Fuse) : Prop where
  live : ∀ x y, g.heap x = some y → ∃ y0, f.heap x = some y0 ∧ y.nodeid = y0.nodeid
  ctr : g.ctr = f.ctr
  generation : g.generation = f.generation

/-- Every node live in `f` is live in `g`, under the same id. -/
def Fuse.Grows (f g : Fuse) : Prop :=
  ∀ x y0, f.heap x = some y0 → ∃ y, g.heap x = some y ∧ y.nodeid = y0.nodeid

/-- What a step does to identifiers. A node it creates sits at the first unused address; and
either the counters did not move and no node was created, or `next_id` ran from them and a
node created carries the id and the generation it issued. -/
structure Fuse.Issues (f g : Fuse) : Prop where
  fresh : ∀ x y, g.heap x = some y → f.heap x = none → x = f.nextPtr
  counter : (g.ctr = f.ctr ∧ g.generation = f.generation ∧ g.heap f.nextPtr = none) ∨
    (nextIdLoop f (2 ^ nodeidBits) f.ctr f.generation = some (g.ctr, g.generation) ∧
      ∀ n, g.heap f.nextPtr = some n → n.nodeid = g.ctr ∧ n.generation = g.generation % 2 ^ 32)

/-- The parent links of `g` are those of `f`, but links out of a node `src` accepts, which lead
to a node live in `f` under the id `dir`. -/
def Fuse.Relinks (f g : Fuse) (src : Ptr → Prop) (dir : Nat) : Prop :=
  ∀ x y, ParentLink g x y → ParentLink f x y ∨ (src x ∧ ∃ m, f.heap y = some m ∧ m.nodeid = dir)

theorem Fuse.KeepsLinks.relinks {f g : Fuse} (h : f.KeepsLinks g) (src : Ptr → Prop) (dir : Nat) :
    f.Relinks g src dir := fun x y hl => .inl (h x y hl)

/-- A step that creates no node and keeps the links, then one that relinks. -/
theorem Fuse.Relinks.of_shrinks {f g k : Fuse} {src : Ptr → Prop} {dir : Nat} (hs : f.Shrinks g)
    (hl : f.KeepsLinks g) (h : g.Relinks k src dir) : f.Relinks k src dir := fun x y hxy => by
  rcases h x y hxy with h1 | ⟨hx, m, hm, e⟩
  · exact .inl (hl x y h1)
  · obtain ⟨m0, hm0, e0⟩ := hs.live y m hm
    exact .inr ⟨hx, m0, hm0, e0 ▸ e⟩

theorem Fuse.Relinks.keepsLinks {f g k : Fuse} {src : Ptr → Prop} {dir : Nat} (h : f.Relinks g src dir)
    (hl : g.KeepsLinks k) : f.Relinks k src dir := fun x y hxy => h x y (hl x y hxy)

theorem Fuse.Relinks.mono {f g : Fuse} {src src' : Ptr → Prop} {dir : Nat} (h : f.Relinks g src dir)
    (hs : ∀ x, src x → src' x) : f.Relinks g src' dir := fun x y hxy =>
  (h x y hxy).imp_right fun ⟨hx, hy⟩ => ⟨hs x hx, hy⟩

theorem Fuse.Shrinks.refl (f : Fuse) : f.Shrinks f := ⟨fun _ _ hx => ⟨_, hx, rfl⟩, rfl, rfl⟩

theorem Fuse.Shrinks.trans {f g k : Fuse} (h1 : f.Shrinks g) (h2 : g.Shrinks k) : f.Shrinks k where
  live x y hx := by
    obtain ⟨y1, h1', e1⟩ := h2.live x y hx
    obtain ⟨y0, h0, e0⟩ := h1.live x y1 h1'
    exact ⟨y0, h0, e1.trans e0⟩
  ctr := h2.ctr.trans h1.ctr
  generation := h2.generation.trans h1.generation

theorem Unhashed.shrinks {f g : Fuse} {p : Ptr} (h : Unhashed f g p) : f.Shrinks g where
  live _ _ hx := by
    obtain ⟨y0, hy0, hid, -⟩ := h.frame hx
    exact ⟨y0, hy0, Node.nodeid_of_ident hid⟩
  ctr := h.counters.1
  generation := h.counters.2

theorem Fuse.Shrinks.setNode {f : Fuse} {p : Ptr} {n : Node} (hp : f.heap p = some n) (n' : Node)
    (hk : n'.nodeid = n.nodeid) : f.Shrinks (f.setNode p n') where
  live x y hx := by
    simp only [Fuse.setNode_heap, update_eq_some] at hx
    rcases hx with ⟨rfl, ⟨⟩⟩ | ⟨-, hx⟩
    exacts [⟨n, hp, hk⟩, ⟨y, hx, rfl⟩]
  ctr := rfl
  generation := rfl

theorem Fuse.Shrinks.dropRef {f : Fuse} {q : Ptr} {m : Node} (hq : f.heap q = some m) :
    f.Shrinks (f.dropRef q m) where
  live _ _ hx := by
    obtain ⟨y0, hy0, hid, -⟩ := Fuse.dropRef_frame hq hx
    exact ⟨y0, hy0, Node.nodeid_of_ident hid⟩
  ctr := by simp
  generation := by simp

theorem Fuse.Shrinks.issues {f g : Fuse} (hI : IndexInv f) (h : f.Shrinks g) : f.Issues g where
  fresh x y hx hfx := by obtain ⟨y0, hy0, -⟩ := h.live x y hx; rw [hfx] at hy0; cases hy0
  counter := .inl ⟨h.ctr, h.generation, by
    cases hg : g.heap f.nextPtr with
    | none => rfl
    | some y =>
      obtain ⟨y0, hy0, -⟩ := h.live _ _ hg
      exact absurd (hI.bounded hy0) (Nat.lt_irrefl _)⟩

/-! ## Open counts -/

/-- No node is created and no open count written from `f` to `g`: a node of `g` was in `f`
with the same id and count; and a node of `f` the kernel holds is still held in `g`, at its
address, unless the step forgets lookups of an id `E` names. -/
structure Fuse.KeepsOpen (f g : Fuse) (E : Nat → Prop) : Prop where
  back : ∀ {x y}, g.heap x = some y →
    ∃ y0, f.heap x = some y0 ∧ y.nodeid = y0.nodeid ∧ y.openCount = y0.openCount
  held : ∀ {x y0}, f.heap x = some y0 → ¬ y0.Forgotten → ¬ E y0.nodeid →
    ∃ y, g.heap x = some y ∧ ¬ y.Forgotten ∧ y.nodeid = y0.nodeid ∧ y.openCount = y0.openCount

theorem Fuse.KeepsOpen.refl (f : Fuse) (E : Nat → Prop) : f.KeepsOpen f E :=
  ⟨fun hx => ⟨_, hx, rfl, rfl⟩, fun hx hf _ => ⟨_, hx, hf, rfl, rfl⟩⟩

/-- Every node of `g` is new with nothing open, or was in `f` with the same count. -/
def Fuse.OpensNone (f g : Fuse) : Prop :=
  ∀ {x y}, g.heap x = some y → y.openCount = 0 ∨ ∃ y0, f.heap x = some y0 ∧ y.openCount = y0.openCount

theorem Fuse.KeepsOpen.opensNone {f g : Fuse} {E : Nat → Prop} (h : f.KeepsOpen g E) :
    f.OpensNone g := fun hx => let ⟨y0, hy0, _, e⟩ := h.back hx; .inr ⟨y0, hy0, e⟩

theorem Fuse.KeepsOpen.of_heap {f g : Fuse} (h : g.heap = f.heap) (E : Nat → Prop) :
    f.KeepsOpen g E :=
  ⟨fun hx => ⟨_, h ▸ hx, rfl, rfl⟩, fun hx hf _ => ⟨_, h ▸ hx, hf, rfl, rfl⟩⟩

theorem Fuse.KeepsOpen.trans {f g k : Fuse} {E : Nat → Prop} (h1 : f.KeepsOpen g E)
    (h2 : g.KeepsOpen k E) : f.KeepsOpen k E where
  back hx := by
    obtain ⟨y1, hy1, i1, e1⟩ := h2.back hx
    obtain ⟨y0, hy0, i0, e0⟩ := h1.back hy1
    exact ⟨y0, hy0, i1.trans i0, e1.trans e0⟩
  held hx hf hE := by
    obtain ⟨y1, hy1, hf1, hid1, ho1⟩ := h1.held hx hf hE
    obtain ⟨y, hy, hf2, hid2, ho2⟩ := h2.held hy1 hf1 (hid1 ▸ hE)
    exact ⟨y, hy, hf2, hid2.trans hid1, ho2.trans ho1⟩

/-- Writing one record that keeps the node's id and count, and keeps it held unless its id is
in `E`. -/
theorem Fuse.KeepsOpen.write {f g : Fuse} {p : Ptr} {n n' : Node} {E : Nat → Prop}
    (hg : g.heap = Function.update f.heap p (some n')) (hp : f.heap p = some n)
    (hid : n'.nodeid = n.nodeid) (ho : n'.openCount = n.openCount)
    (hf : ¬ n.Forgotten → ¬ E n.nodeid → ¬ n'.Forgotten) : f.KeepsOpen g E where
  back hx := by
    rw [hg, update_eq_some] at hx
    rcases hx with ⟨rfl, ⟨⟩⟩ | ⟨-, hx⟩
    exacts [⟨n, hp, hid, ho⟩, ⟨_, hx, rfl, rfl⟩]
  held {x y0} hx hf0 hE := by
    rw [hg]
    by_cases hxp : x = p
    · subst hxp; rw [hp, Option.some.injEq] at hx; subst hx
      exact ⟨n', by simp, hf hf0 hE, hid, ho⟩
    · exact ⟨y0, by simp [hxp, hx], hf0, rfl, rfl⟩

theorem Fuse.KeepsOpen.setNode {f : Fuse} {p : Ptr} {n : Node} {E : Nat → Prop}
    (hp : f.heap p = some n) (n' : Node) (hid : n'.nodeid = n.nodeid) (ho : n'.openCount = n.openCount)
    (hf : ¬ n.Forgotten → ¬ E n.nodeid → ¬ n'.Forgotten) : f.KeepsOpen (f.setNode p n') E :=
  .write rfl hp hid ho hf

theorem Unhashed.keepsOpen {f g : Fuse} {p : Ptr} (h : Unhashed f g p) (E : Nat → Prop) :
    f.KeepsOpen g E where
  back hx := by
    obtain ⟨y0, hy0, hid, -⟩ := h.frame hx
    exact ⟨y0, hy0, Node.nodeid_of_ident hid, Node.openCount_of_ident hid⟩
  held hx hf _ := by
    obtain ⟨y, hy, hid⟩ := h.live hx hf
    exact ⟨y, hy, (Node.Forgotten.of_ident hid).not.2 hf, Node.nodeid_of_ident hid,
      Node.openCount_of_ident hid⟩

/-- Dropping the last reference of a forgotten node. -/
theorem Fuse.KeepsOpen.dropRef {f : Fuse} {q : Ptr} {m : Node} {E : Nat → Prop}
    (hq : f.heap q = some m) (hm : m.Forgotten) : f.KeepsOpen (f.dropRef q m) E where
  back hx := by
    obtain ⟨y0, hy0, hid, -⟩ := Fuse.dropRef_frame hq hx
    exact ⟨y0, hy0, Node.nodeid_of_ident hid, Node.openCount_of_ident hid⟩
  held {x y0} hx hf _ := by
    have hxq : x ≠ q := fun e => by subst e; rw [hq, Option.some.injEq] at hx; subst hx; exact hf hm
    obtain ⟨y, hy⟩ := Fuse.dropRef_keep hx fun e => absurd e hxq
    obtain ⟨y1, hy1, hid, -⟩ := Fuse.dropRef_frame hq hy
    rw [hx, Option.some.injEq] at hy1; subst hy1
    exact ⟨y, hy, (Node.Forgotten.of_ident hid).not.2 hf, Node.nodeid_of_ident hid,
      Node.openCount_of_ident hid⟩

/-! ## Names -/

/-- The address of the node with id `id`. -/
def Fuse.IdAt (f : Fuse) (id : Nat) (x : Ptr) : Prop := ∃ n, f.heap x = some n ∧ n.nodeid = id

/-- No node gains a key from `f` to `g`, and a named node the kernel holds keeps its key
unless `D` names its address: a named node of `g` has its key in `f`, and a named node of `f`
that is not forgotten, at an address `D` does not name, is in `g` with its key. -/
structure Fuse.KeepsNames (f g : Fuse) (D : Ptr → Prop) : Prop where
  back : ∀ {x y}, g.heap x = some y → y.name.isSome → ∃ y0, f.heap x = some y0 ∧ y0.key = y.key
  fwd : ∀ {x y0}, f.heap x = some y0 → y0.name.isSome → ¬ y0.Forgotten → ¬ D x →
    ∃ y, g.heap x = some y ∧ y.key = y0.key ∧ ¬ y.Forgotten

section KeepsNames
variable {f g k : Fuse} {D : Ptr → Prop}

theorem Fuse.KeepsNames.of_heap (h : g.heap = f.heap) (D : Ptr → Prop) : f.KeepsNames g D :=
  ⟨fun hx _ => ⟨_, h ▸ hx, rfl⟩, fun hx _ hf _ => ⟨_, h ▸ hx, rfl, hf⟩⟩

theorem Fuse.KeepsNames.refl (f : Fuse) (D : Ptr → Prop) : f.KeepsNames f D := .of_heap rfl D

theorem Fuse.KeepsNames.trans (h1 : f.KeepsNames g D) (h2 : g.KeepsNames k D) : f.KeepsNames k D where
  back hx hn := by
    obtain ⟨y1, hy1, e1⟩ := h2.back hx hn
    obtain ⟨y0, hy0, e0⟩ := h1.back hy1 ((Node.key_eq e1).2.1 ▸ hn)
    exact ⟨y0, hy0, e0.trans e1⟩
  fwd hx hn hf hD := by
    obtain ⟨y1, hy1, e1, hf1⟩ := h1.fwd hx hn hf hD
    obtain ⟨y, hy, e, hf2⟩ := h2.fwd hy1 ((Node.key_eq e1).2.1 ▸ hn) hf1 hD
    exact ⟨y, hy, e.trans e1, hf2⟩

theorem Fuse.KeepsNames.mono {D' : Ptr → Prop} (h : f.KeepsNames g D) (hD : ∀ x, D x → D' x) :
    f.KeepsNames g D' :=
  ⟨h.back, fun hx hn hf hD' => h.fwd hx hn hf fun e => hD' (hD _ e)⟩

/-- Writing one record that keeps its key, and keeps it held unless `D` names it. -/
theorem Fuse.KeepsNames.setNode {p : Ptr} {n : Node} (hp : f.heap p = some n) (n' : Node)
    (hk : n'.key = n.key) (hf : ¬ n.Forgotten → ¬ D p → ¬ n'.Forgotten) :
    f.KeepsNames (f.setNode p n') D where
  back hx _ := by
    simp only [Fuse.setNode_heap, update_eq_some] at hx
    rcases hx with ⟨rfl, ⟨⟩⟩ | ⟨-, hx⟩
    exacts [⟨n, hp, hk.symm⟩, ⟨_, hx, rfl⟩]
  fwd {x y0} hx _ hf0 hD := by
    by_cases hxp : x = p
    · subst hxp; rw [hp, Option.some.injEq] at hx; subst hx
      exact ⟨n', by simp, hk, hf hf0 hD⟩
    · exact ⟨y0, by simp [hxp, hx], rfl, hf0⟩

theorem Unhashed.keepsNames {p : Ptr} (hu : Unhashed f g p) (hD : D p) : f.KeepsNames g D where
  back {x y} hx hn := by
    obtain ⟨y0, hy0, hid, hp, hnp⟩ := hu.frame hx
    have hxp : x ≠ p := fun e => by simp [hp e] at hn
    obtain ⟨e1, e2⟩ := hnp hxp
    exact ⟨y0, hy0, by simp [Node.key, Node.nodeid_of_ident hid, e1, e2]⟩
  fwd {x y0} hx _ hf hDx := by
    have hxp : x ≠ p := fun e => hDx (e ▸ hD)
    obtain ⟨y, hy, hid⟩ := hu.live hx hf
    obtain ⟨y1, hy1, -, -, hnp⟩ := hu.frame hy
    rw [hx, Option.some.injEq] at hy1; subst hy1
    obtain ⟨e1, e2⟩ := hnp hxp
    exact ⟨y, hy, by simp [Node.key, Node.nodeid_of_ident hid, e1, e2],
      (Node.Forgotten.of_ident hid).not.2 hf⟩

theorem Fuse.KeepsNames.dropRef {q : Ptr} {m : Node} (hq : f.heap q = some m) (hD : D q) :
    f.KeepsNames (f.dropRef q m) D where
  back hx _ := by
    obtain ⟨y0, hy0, -, hk⟩ := Fuse.dropRef_frame hq hx
    exact ⟨y0, hy0, hk.symm⟩
  fwd {x y0} hx _ hf hDx := by
    obtain ⟨y, hy⟩ := Fuse.dropRef_keep hx fun e => absurd (e ▸ hD) hDx
    obtain ⟨y1, hy1, hid, hk⟩ := Fuse.dropRef_frame hq hy
    rw [hx, Option.some.injEq] at hy1; subst hy1
    exact ⟨y, hy, hk, (Node.Forgotten.of_ident hid).not.2 hf⟩

/-- Every node of `g` but the one at `p` was in `f` with its key. -/
def Fuse.KeysBut (f g : Fuse) (p : Ptr) : Prop :=
  ∀ {z y}, g.heap z = some y → z ≠ p → ∃ y0, f.heap z = some y0 ∧ y0.key = y.key

theorem Unhashed.keysBut {p : Ptr} (hu : Unhashed f g p) : f.KeysBut g p := fun hz hzp => by
  obtain ⟨y0, hy0, hid, -, hnp⟩ := hu.frame hz
  obtain ⟨e1, e2⟩ := hnp hzp
  exact ⟨y0, hy0, by simp [Node.key, Node.nodeid_of_ident hid, e1, e2]⟩

/-- A key that has no node keeps having none. -/
theorem Fuse.KeepsNames.lookupNode_none (hf : IndexInv f) (hg : IndexInv g) (h : f.KeepsNames g D)
    {parent : Nat} {name : Name} (hl : lookupNode f parent name = none) :
    lookupNode g parent name = none := by
  refine (lookupNode_eq_none hg).2 fun x y hx hr hpar hs => ?_
  obtain ⟨y0, hy0, e⟩ := h.back hx (by simp [hs])
  obtain ⟨e1, e2, e3⟩ := Node.key_eq e
  exact (lookupNode_eq_none hf).1 hl x y0 hy0 (e1 ▸ hr) (e3 ▸ hpar) (e2 ▸ hs)

/-- What the tail of a forget leaves of the directory: every node of `g` was in `f` with its
identity (id, lookups, version, open count), and every node of `f` the kernel holds is in
`g` under its key. -/
structure Fuse.KeepsIdent (f g : Fuse) : Prop where
  back : ∀ {x y}, g.heap x = some y → ∃ y0, f.heap x = some y0 ∧ y.ident = y0.ident
  held : ∀ {x y0}, f.heap x = some y0 → ¬ y0.Forgotten → ∃ y, g.heap x = some y ∧ y.key = y0.key

theorem Fuse.KeepsIdent.refl (f : Fuse) : f.KeepsIdent f :=
  ⟨fun hx => ⟨_, hx, rfl⟩, fun hx _ => ⟨_, hx, rfl⟩⟩

theorem Fuse.KeepsIdent.trans (h1 : f.KeepsIdent g) (h2 : g.KeepsIdent k) : f.KeepsIdent k where
  back hx := by
    obtain ⟨y1, hy1, e1⟩ := h2.back hx
    obtain ⟨y0, hy0, e0⟩ := h1.back hy1
    exact ⟨y0, hy0, e1.trans e0⟩
  held hx hf := by
    obtain ⟨y1, hy1, e1⟩ := h1.held hx hf
    obtain ⟨y0, hy0, i1⟩ := h1.back hy1
    rw [hx, Option.some.injEq] at hy0; subst hy0
    obtain ⟨y, hy, e⟩ := h2.held hy1 ((Node.Forgotten.of_ident i1).not.2 hf)
    exact ⟨y, hy, e.trans e1⟩

/-- `unhash_name` of a forgotten node moves no other node's key. -/
theorem Unhashed.keepsIdent {p : Ptr} (hu : Unhashed f g p) (hp : ∀ n, f.heap p = some n → n.Forgotten) :
    f.KeepsIdent g where
  back hx := let ⟨y0, hy0, hid, _⟩ := hu.frame hx; ⟨y0, hy0, hid⟩
  held {x y0} hx hf := by
    have hxp : x ≠ p := fun e => hf (hp y0 (e ▸ hx))
    obtain ⟨y, hy, hid⟩ := hu.live hx hf
    obtain ⟨y1, hy1, -, -, hnp⟩ := hu.frame hy
    rw [hx, Option.some.injEq] at hy1; subst hy1
    obtain ⟨e1, e2⟩ := hnp hxp
    exact ⟨y, hy, by simp [Node.key, Node.nodeid_of_ident hid, e1, e2]⟩

theorem Fuse.KeepsIdent.dropRef {q : Ptr} {m : Node} (hq : f.heap q = some m) (hm : m.Forgotten) :
    f.KeepsIdent (f.dropRef q m) where
  back hx := let ⟨y0, hy0, hid, _⟩ := Fuse.dropRef_frame hq hx; ⟨y0, hy0, hid⟩
  held {x y0} hx hf := by
    have hxq : x ≠ q := fun e => by subst e; rw [hq, Option.some.injEq] at hx; subst hx; exact hf hm
    obtain ⟨y, hy⟩ := Fuse.dropRef_keep hx fun e => absurd e hxq
    obtain ⟨y1, hy1, -, hk⟩ := Fuse.dropRef_frame hq hy
    rw [hx, Option.some.injEq] at hy1; subst hy1
    exact ⟨y, hy, hk⟩

end KeepsNames

/-! ## Small facts at rest -/

theorem Inv.not_forgotten {f : Fuse} {p : Ptr} {n : Node} (h : Inv f) (hp : f.heap p = some n)
    (ha : n.name.isSome) : ¬ n.Forgotten := fun hf => by
  rcases h.refs.forgotten hp hf with hn | hn
  · simp [hn] at ha
  · exact Int.lt_irrefl 0 hn

/-- A key's node keeps it unless `D` names its address. -/
theorem Fuse.KeepsNames.lookupNode_some {f g : Fuse} {D : Ptr → Prop} (hf : Inv f) (hg : IndexInv g)
    (h : f.KeepsNames g D) {parent : Nat} {name : Name} {x : Ptr}
    (hl : lookupNode f parent name = some x) (hD : ¬ D x) : lookupNode g parent name = some x := by
  obtain ⟨n, hp, hr, hpar, hs⟩ := (lookupNode_eq_some hf.index).1 hl
  obtain ⟨y, hy, e, -⟩ := h.fwd hp (by simp [hs]) (hf.not_forgotten hp (by simp [hs])) hD
  obtain ⟨e1, e2, e3⟩ := Node.key_eq e
  exact (lookupNode_eq_some hg).2 ⟨y, hy, e1 ▸ hr, e3 ▸ hpar, e2 ▸ hs⟩

theorem Held.unique {f : Fuse} {id : Nat} {p : Ptr} {n : Node} (hI : IndexInv f) (h : Held f id)
    (hp : f.heap p = some n) (hn : n.nodeid = id) : ¬ n.Forgotten := by
  obtain ⟨q, m, hq, hm, hf⟩ := h
  obtain rfl := hI.idUnique hp hq (hn.trans hm.symm)
  rw [hp, Option.some.injEq] at hq; subst hq; exact hf

theorem Held.ne_zero {f : Fuse} {id : Nat} (hI : IndexInv f) (h : Held f id) : id ≠ 0 := by
  obtain ⟨q, m, hq, rfl, -⟩ := h; exact hI.nonzero hq

/-- A write that keeps a node's key, count and whether it is forgotten keeps `Inv`. -/
theorem Inv.setNode {f : Fuse} {p : Ptr} {n : Node} (h : Inv f) (hp : f.heap p = some n) (n' : Node)
    (hk : n'.key = n.key) (hr : n'.refctr = n.refctr) (hf : n'.Forgotten ↔ n.Forgotten) :
    Inv (f.setNode p n') := by
  have hs : n.selfRef = n'.selfRef := by simp only [Node.selfRef, hf]
  have := h.refs.setNode h.index hp n' hk (hr ▸ h.refs.positive hp)
    (by rw [hr, hs]; omega) (fun hf' => by
      rcases h.refs.forgotten hp (hf.1 hf') with hn | hn
      · exact .inl ((Node.key_eq hk).2.1.trans hn)
      · exact absurd hn (Int.lt_irrefl 0))
  rw [hr, hs, show n.refctr - n.refctr + (n'.selfRef - n'.selfRef) = 0 by omega, bump_zero] at this
  exact ⟨h.index.of_sameIndex (SameIndex.setNode hp n' hk), this⟩

/-- Moving the allocator and the id counter keeps `Inv`. -/
theorem Inv.grow {f : Fuse} (h : Inv f) (c g : Nat) :
    Inv { f with nextPtr := f.nextPtr + 1, ctr := c, generation := g } := by
  have hnone : f.heap f.nextPtr = none := by
    cases hp : f.heap f.nextPtr with
    | none => rfl
    | some n => exact absurd (h.index.bounded hp) (Nat.lt_irrefl _)
  refine ⟨h.index.of_sameIndex ⟨rfl, rfl, Nat.le_succ _, fun _ => rfl⟩, h.refs.congr rfl ?_⟩
  funext id
  exact children_nextPtr (f := f) hnone id

/-- An id no live node has is the parent of no attached node. -/
theorem Inv.children_eq_zero {f : Fuse} {id : Nat} (h : Inv f) (hid : id ≠ 0)
    (hfresh : ∀ q m, f.heap q = some m → m.nodeid ≠ id) : children f id = 0 := by
  refine FuseCore.children_eq_zero fun x y hx ha e => ?_
  by_cases hr : y.nodeid = rootId
  · obtain ⟨r, z, hz, h1, -, h3⟩ := h.refs.root
    obtain rfl := h.index.idUnique hx hz (hr.trans h1.symm)
    rw [hz, Option.some.injEq] at hx; subst hx
    exact hid (e.symm.trans h3)
  · obtain ⟨q, m, hq, hqm⟩ := h.refs.parentLive hx ha hr
    exact hfresh q m hq (hqm.trans e)

/-- The node with the root's id is the root `fuse_new_common` built. -/
theorem Inv.root_eq {f : Fuse} {x : Ptr} {y : Node} (h : Inv f) (hx : f.heap x = some y)
    (hr : y.nodeid = rootId) : y.name = some [47] ∧ y.parent = 0 := by
  obtain ⟨r, z, hz, h1, h2, h3⟩ := h.refs.root
  obtain rfl := h.index.idUnique hx hz (hr.trans h1.symm)
  rw [hz, Option.some.injEq] at hx; subst hx
  exact ⟨h2, h3⟩

/-- A key `lookup_node` misses under a live directory is the key of no node. -/
theorem Inv.key_free {f : Fuse} {parent : Nat} {name : Name} (h : Inv f)
    (hl : lookupNode f parent name = none) (hpar : parent ≠ 0) :
    ∀ x y, f.heap x = some y → y.name = some name → y.parent ≠ parent := fun x y hx hy e => by
  by_cases hr : y.nodeid = rootId
  · exact hpar (e.symm.trans (h.root_eq hx hr).2)
  · exact (lookupNode_eq_none h.index).1 hl x y hx hr e hy

/-! ## `find_node` -/

/-- The record `find_node` builds for a new node before hashing it (fuse.c:315-321): the
zeros of `calloc`, one reference, the id `next_id` issued and the generation. -/
def newNode (id gen : Nat) : Node :=
  { (default : Node) with
    refctr := 1, nodeid := id, openCount := 0, isHidden := false, generation := gen % 2 ^ 32 }

/-- A lookup that hits refreshes the node it found. -/
theorem findNode_hit {f : Fuse} {parent : Nat} {name : Name} {p : Ptr} {n : Node}
    (hl : lookupNode f parent name = some p) (hp : f.heap p = some n) (ino version : Nat)
    (callocOk strdupOk : Bool) :
    findNode f parent name ino version callocOk strdupOk =
      .ok (some (p, if f.flags.useIno then ino else n.nodeid),
        f.setNode p { n with version := version, nlookup := n.nlookup + 1 }) := by
  simp [findNode, hl, Fuse.node, hp, refreshNode]

theorem findNode_nomem {f : Fuse} {parent : Nat} {name : Name}
    (hl : lookupNode f parent name = none) (ino version : Nat) (strdupOk : Bool) :
    findNode f parent name ino version false strdupOk = .ok (none, f) := by
  simp [findNode, hl]

/-- The id probe does not see a write at the first unused address. -/
theorem getNodeNocheck_fresh {f : Fuse} (hI : IndexInv f) (v : Option Node) (a : Ptr)
    (b : Nat → List Ptr) (c g h k : Nat) (fl : Flags) (id : Nat) :
    getNodeNocheck ⟨Function.update f.heap f.nextPtr v, a, b, f.idTable, c, g, h, k, fl⟩ id =
      getNodeNocheck f id :=
  getNodeNocheck_congr (f := f) (g := ⟨Function.update f.heap f.nextPtr v, a, b, f.idTable, c, g, h, k, fl⟩)
    rfl (fun b x hx => by
      obtain ⟨m, hm, -⟩ := (hI.idMem b x).1 hx
      simp [Nat.ne_of_lt (hI.bounded hm)]) id

/-- So `next_id`, run with the new node allocated, issues what it would issue before. -/
theorem nextIdLoop_calloc {f : Fuse} (hI : IndexInv f) :
    nextIdLoop ⟨Function.update f.heap f.nextPtr (some { (default : Node) with refctr := 1 }),
      f.nextPtr + 1, f.nameTable, f.idTable, f.ctr, f.generation, f.hidectr, f.major, f.flags⟩
      (2 ^ nodeidBits) f.ctr f.generation = nextIdLoop f (2 ^ nodeidBits) f.ctr f.generation :=
  nextIdLoop_congr (getNodeNocheck_fresh hI _ _ _ _ _ _ _ _) _ _ _

theorem findNode_hang {f : Fuse} {parent : Nat} {name : Name} (hI : IndexInv f)
    (hl : lookupNode f parent name = none)
    (hid : nextIdLoop f (2 ^ nodeidBits) f.ctr f.generation = none) (ino version : Nat)
    (strdupOk : Bool) :
    findNode f parent name ino version true strdupOk = .error .nextIdHangs := by
  have := nextIdLoop_calloc hI
  simp [findNode, hl, Fuse.calloc, Fuse.node, nextId, Fuse.setNode, this, hid]

/-- A failed `strdup` frees the new node: only the counters and the allocator moved. -/
theorem findNode_nostr {f : Fuse} {parent : Nat} {name : Name} {id g : Nat} (hI : IndexInv f)
    (hl : lookupNode f parent name = none)
    (hid : nextIdLoop f (2 ^ nodeidBits) f.ctr f.generation = some (id, g)) (ino version : Nat) :
    findNode f parent name ino version true false =
      .ok (none, { f with nextPtr := f.nextPtr + 1, ctr := id, generation := g }) := by
  have := nextIdLoop_calloc hI
  have hnone : f.heap f.nextPtr = none := by
    cases hp : f.heap f.nextPtr with
    | none => rfl
    | some n => exact absurd (hI.bounded hp) (Nat.lt_irrefl _)
  simp [findNode, hl, Fuse.calloc, Fuse.node, nextId, Fuse.setNode, this, hid, hashName,
    Fuse.freeNode, ← hnone]

/-- The state `find_node` leaves when it creates a node at the first unused address: the
allocator and the counters moved, the node inserted with the id `next_id` issued, a reference
taken on the parent `q`, the node attached and its lookup counted. -/
def freshState (f : Fuse) (parent : Nat) (name : Name) (q : Ptr) (m : Node) (id g version : Nat) :
    Fuse :=
  ((({ f with nextPtr := f.nextPtr + 1, ctr := id, generation := g }.insertNode f.nextPtr
    (newNode id g)).incRef q m).attach f.nextPtr (newNode id g) parent name).setNode f.nextPtr
    { newNode id g with name := some name, parent := parent, version := version, nlookup := 1 }

/-- **What `find_node` does for a new key:** allocate and insert the node, take a reference
on the parent, attach the node, count the lookup. -/
theorem findNode_fresh {f : Fuse} {parent : Nat} {name : Name} {q : Ptr} {m : Node} {id g : Nat}
    (hI : IndexInv f) (hl : lookupNode f parent name = none)
    (hq : getNodeNocheck f parent = some q) (hm : f.heap q = some m)
    (hid : nextIdLoop f (2 ^ nodeidBits) f.ctr f.generation = some (id, g)) (ino version : Nat) :
    findNode f parent name ino version true true =
      .ok (some (f.nextPtr, if f.flags.useIno then ino else id),
        freshState f parent name q m id g version) := by
  have hpq : f.nextPtr ≠ q := Nat.ne_of_gt (hI.bounded hm)
  simp [findNode, hl, Fuse.calloc, Fuse.node, nextId, Fuse.setNode, nextIdLoop_calloc hI, hid,
    hashName, getNode, getNodeNocheck_fresh hI, hq, hm, hpq, Ne.symm hpq, hashId, refreshNode, freshState,
    Fuse.insertNode, Fuse.incRef, Fuse.attach, Fuse.pushId, Fuse.pushName, newNode,
    Function.update_comm hpq]
  rfl

/-- Counting one more lookup of a node the kernel can name keeps `Inv`. -/
theorem Inv.refresh {f : Fuse} {p : Ptr} {n : Node} {version : Nat} (h : Inv f)
    (hp : f.heap p = some n) (hn : ¬ n.Forgotten) (hv : version ≠ 0) :
    Inv (f.setNode p { n with version := version, nlookup := n.nlookup + 1 }) :=
  h.setNode hp _ rfl rfl ⟨fun hf => hf.2.elim (fun e => absurd e (Nat.succ_ne_zero _)) (fun e => absurd e hv),
    fun hf => absurd hf hn⟩

theorem Fuse.Grows.setNode {f : Fuse} {p : Ptr} {n : Node} (hp : f.heap p = some n) (n' : Node)
    (hk : n'.nodeid = n.nodeid) : f.Grows (f.setNode p n') := fun x y0 hx => by
  by_cases hxp : x = p
  · subst hxp; rw [hp, Option.some.injEq] at hx; subst hx; exact ⟨n', by simp, hk⟩
  · exact ⟨y0, by simp [hxp, hx], rfl⟩

/-- **A new node keeps `Inv`**: its own reference is pending from its insertion until the lookup
is counted, the parent's from `hash_name`'s increment until the node is attached. -/
theorem Inv.findFresh {f : Fuse} {parent : Nat} {name : Name} {q : Ptr} {m : Node} {id g : Nat}
    {version : Nat} (h : Inv f) (hpar : Held f parent) (hl : lookupNode f parent name = none)
    (hv : version ≠ 0) (hq : getNodeNocheck f parent = some q) (hm : f.heap q = some m)
    (hid : nextIdLoop f (2 ^ nodeidBits) f.ctr f.generation = some (id, g)) :
    Inv (freshState f parent name q m id g version) ∧ f.Grows (freshState f parent name q m id g version) := by
  unfold freshState
  obtain ⟨hid0, hnone⟩ := nextIdLoop_fresh hid
  have hfresh : ∀ x y, f.heap x = some y → y.nodeid ≠ id := fun x y hx e =>
    (getNodeNocheck_eq_none h.index).1 hnone x y hx e
  have hqm : m.nodeid = parent := by
    obtain ⟨m', hm', e⟩ := (getNodeNocheck_eq_some h.index).1 hq
    rw [hm, Option.some.injEq] at hm'; subst hm'; exact e
  have hmf : ¬ m.Forgotten := hpar.unique h.index hm hqm
  have hpq : f.nextPtr ≠ q := Nat.ne_of_gt (h.index.bounded hm)
  have hnr : id ≠ rootId := fun e => by
    obtain ⟨r, z, hz, h1, -⟩ := h.refs.root; exact hfresh r z hz (h1.trans e.symm)
  have hnf : (newNode id g).Forgotten := ⟨hnr, .inl rfl⟩
  -- the allocator moves and the node is inserted, with its own reference pending
  have h0 := h.grow id g
  set f0 := { f with nextPtr := f.nextPtr + 1, ctr := id, generation := g }
  have hp0 : f0.heap f.nextPtr = none := by
    cases hp : f.heap f.nextPtr with
    | none => rfl
    | some n => exact absurd (h.index.bounded hp) (Nat.lt_irrefl _)
  have hb0 : f.nextPtr < f0.nextPtr := Nat.lt_succ_self _
  have I1 := h0.index.insertNode (n := newNode id g) hp0 hb0 rfl hid0 hfresh
  have R1 := h0.refs.insertNode (n := newNode id g) hp0 hb0 rfl (h0.children_eq_zero hid0 hfresh)
    (show (0 : Int) < 1 by decide) rfl
  rw [show (newNode id g).refctr - (newNode id g).selfRef = 1 by
    simp only [Node.selfRef, if_pos hnf]; rfl] at R1
  -- `hash_name` takes the parent's reference
  set f1 := f0.insertNode f.nextPtr (newNode id g)
  have hq1 : f1.heap q = some m := by simp [f1, Fuse.insertNode, Ne.symm hpq, hm, f0]
  have R2 := R1.incRef I1 hq1
  have I2 := I1.of_sameIndex (SameIndex.setNode hq1 { m with refctr := m.refctr + 1 } rfl)
  -- and attaches the node, which hands that reference to it
  set f2 := f1.incRef q m
  have hp2 : f2.heap f.nextPtr = some (newNode id g) := by simp [f2, f1, Fuse.incRef, Fuse.insertNode, hpq]
  have hq2 : f2.heap q = some { m with refctr := m.refctr + 1 } := by simp [f2, Fuse.incRef]
  have R3 : RefInv (f2.attach f.nextPtr (newNode id g) parent name) _ :=
    R2.attach I2 hp2 rfl hq2 hqm (by simp [bump_ne _ (Ne.symm hpq)])
    (fun hf => absurd hf hmf) (fun _ => by simp [hpq])
  rw [bump_bump, show (1 : Int) + -1 = 0 by rfl, bump_zero] at R3
  have hfree : ∀ x y, f2.heap x = some y → y.name = some name → y.parent ≠ parent := by
    intro x y hx
    simp only [f2, f1, f0, Fuse.incRef, Fuse.insertNode, Fuse.pushId_heap, Fuse.setNode_heap,
      update_eq_some] at hx
    rcases hx with ⟨-, ⟨⟩⟩ | ⟨-, ⟨-, ⟨⟩⟩ | ⟨-, hx⟩⟩
    · exact h.key_free hl (hpar.ne_zero h.index) q m hm
    · simp [newNode]
    · exact h.key_free hl (hpar.ne_zero h.index) x y hx
  have I3 := I2.attach hp2 rfl hnr hfree
  -- counting the lookup settles the node's own reference
  set f3 := f2.attach f.nextPtr (newNode id g) parent name
  have hp3 : f3.heap f.nextPtr = some { newNode id g with name := some name, parent := parent } := by
    simp [f3, Fuse.attach]
  have hs3 : ({ newNode id g with name := some name, parent := parent } : Node).selfRef = 0 :=
    selfRef_eq_zero.2 hnf
  have hs4 : ({ newNode id g with
      name := some name, parent := parent, version := version, nlookup := 1 } : Node).selfRef = 1 := by
    simp only [Node.selfRef, Node.Forgotten, hv]; simp
  have R4 := R3.setNode I3 hp3 { newNode id g with
    name := some name, parent := parent, version := version, nlookup := 1 } rfl (show (0 : Int) < 1 by decide)
    (by rw [hs3, hs4]; simp) (fun hf => absurd (selfRef_eq_zero.2 hf) (by rw [hs4]; decide))
  rw [hs3, hs4, bump_bump] at R4
  refine ⟨⟨I3.of_sameIndex (SameIndex.setNode hp3 _ rfl), ?_⟩, fun x y0 hx => ?_⟩
  · convert R4 using 1
    funext x; by_cases hx : x = f.nextPtr
    · subst hx; simp
    · simp [hx]
  · have hxp : x ≠ f.nextPtr := Nat.ne_of_lt (h.index.bounded hx)
    by_cases hxq : x = q
    · subst hxq; rw [hm, Option.some.injEq] at hx; subst hx
      exact ⟨{ m with refctr := m.refctr + 1 },
        by simp [f3, f2, f1, f0, Fuse.attach, Fuse.incRef, Fuse.insertNode, hxp], rfl⟩
    · exact ⟨y0, by simp [f3, f2, f1, f0, Fuse.attach, Fuse.incRef, Fuse.insertNode, hxp, hxq, hx], rfl⟩

/-- A node `find_node` creates carries what `next_id` issued. -/
theorem Fuse.Issues.freshState {f : Fuse} {parent : Nat} {name : Name} {q : Ptr} {m : Node}
    {id g : Nat} (version : Nat) (hm : f.heap q = some m)
    (hid : nextIdLoop f (2 ^ nodeidBits) f.ctr f.generation = some (id, g)) :
    f.Issues (freshState f parent name q m id g version) where
  fresh x y hx hfx := by
    by_contra hxp
    have hxq : x ≠ q := fun e => by subst e; rw [hm] at hfx; cases hfx
    simp [FuseCore.freshState, Fuse.attach, Fuse.incRef, Fuse.insertNode, hxp, hxq, hfx] at hx
  counter := .inr ⟨hid, fun n hn => by
    simp only [FuseCore.freshState, Fuse.setNode_heap, Function.update_same,
      Option.some.injEq] at hn
    subst hn; exact ⟨rfl, rfl⟩⟩

/-- The nodes of the state `find_node` leaves for a new key: the new node at the first unused
address, the parent with one more reference, and the others as they were. -/
theorem freshState_heap {f : Fuse} {parent : Nat} {name : Name} {q : Ptr} {m : Node}
    {id g version : Nat} (hpq : f.nextPtr ≠ q) (x : Ptr) :
    (freshState f parent name q m id g version).heap x =
      if x = f.nextPtr then
        some { newNode id g with name := some name, parent := parent, version := version, nlookup := 1 }
      else Function.update f.heap q (some { m with refctr := m.refctr + 1 }) x := by
  by_cases hx : x = f.nextPtr
  · subst hx; simp [freshState]
  · by_cases hxq : x = q
    · subst hxq; simp [freshState, Fuse.attach, Fuse.incRef, Fuse.insertNode, hx]
    · simp [freshState, Fuse.attach, Fuse.incRef, Fuse.insertNode, hx, hxq]

/-- A new node has nothing open, and every other node keeps its count. -/
theorem Fuse.OpensNone.freshState {f : Fuse} {parent : Nat} {name : Name} {q : Ptr} {m : Node}
    {id g version : Nat} (hI : IndexInv f) (hm : f.heap q = some m) :
    f.OpensNone (freshState f parent name q m id g version) := fun {x y} hx => by
  rw [freshState_heap (Nat.ne_of_gt (hI.bounded hm))] at hx
  split at hx
  · cases hx; exact .inl rfl
  · rw [update_eq_some] at hx
    rcases hx with ⟨rfl, ⟨⟩⟩ | ⟨-, hx⟩
    exacts [.inr ⟨m, hm, rfl⟩, .inr ⟨y, hx, rfl⟩]

theorem freshState_nameTable {f : Fuse} {parent : Nat} {name : Name} {q : Ptr} {m : Node}
    {id g version : Nat} : (freshState f parent name q m id g version).nameTable =
      Function.update f.nameTable (nameHash parent name) (f.nextPtr :: f.nameTable (nameHash parent name)) := by
  simp [freshState, Fuse.attach, Fuse.incRef, Fuse.insertNode]

theorem freshState_idTable {f : Fuse} {parent : Nat} {name : Name} {q : Ptr} {m : Node}
    {id g version : Nat} : (freshState f parent name q m id g version).idTable =
      Function.update f.idTable (id % idTableSize) (f.nextPtr :: f.idTable (id % idTableSize)) := by
  simp [freshState, Fuse.attach, Fuse.incRef, Fuse.insertNode, newNode]

/-- A new node adds one parent link, its own: no attached node had its fresh id as parent. -/
theorem freshState_relinks {f : Fuse} {parent : Nat} {name : Name} {q : Ptr} {m : Node}
    {id g version : Nat} (h : Inv f) (hm : f.heap q = some m) (hqm : m.nodeid = parent)
    (hfresh : ∀ x y, f.heap x = some y → y.nodeid ≠ id) :
    f.Relinks (freshState f parent name q m id g version) (· = f.nextPtr) parent := by
  have hpq : f.nextPtr ≠ q := Nat.ne_of_gt (h.index.bounded hm)
  have hold : ∀ {x y}, (freshState f parent name q m id g version).heap x = some y →
      x ≠ f.nextPtr → ∃ y0, f.heap x = some y0 ∧ y.key = y0.key := fun {x y} hx hxn => by
    rw [freshState_heap hpq, if_neg hxn, update_eq_some] at hx
    rcases hx with ⟨rfl, ⟨⟩⟩ | ⟨-, hx⟩
    exacts [⟨m, hm, rfl⟩, ⟨y, hx, rfl⟩]
  have hnew := @freshState_heap f parent name q m id g version hpq f.nextPtr
  rw [if_pos rfl] at hnew
  intro x y ⟨n, z, hn, hr, ha, hz, e⟩
  -- the target is an old node: the fresh id is the parent of no attached node
  have hy : y ≠ f.nextPtr := by
    rintro rfl
    rw [hnew, Option.some.injEq] at hz
    subst hz
    by_cases hxn : x = f.nextPtr
    · subst hxn; rw [hnew, Option.some.injEq] at hn; subst hn
      exact hfresh q m hm (hqm.trans e.symm)
    · obtain ⟨n0, hn0, hk⟩ := hold hn hxn
      obtain ⟨h1, h2, h3⟩ := Node.key_eq hk
      obtain ⟨r, z0, hr0, e0⟩ := h.refs.parentLive hn0 (h2 ▸ ha) (h1 ▸ hr)
      exact hfresh r z0 hr0 (e0.trans (h3.symm.trans e.symm))
  obtain ⟨z0, hz0, hzk⟩ := hold hz hy
  by_cases hxn : x = f.nextPtr
  · subst hxn; rw [hnew, Option.some.injEq] at hn; subst hn
    exact .inr ⟨rfl, z0, hz0, (Node.key_eq hzk).1.symm.trans e⟩
  · exact .inl (ParentLink.of_frame ⟨n, z, hn, hr, ha, hz, e⟩ (fun _ hn' _ => hold hn' hxn)
      fun _ hm' => let ⟨m0, h0, hk⟩ := hold hm' hy; ⟨m0, h0, (Node.key_eq hk).1⟩)

/-- **`find_node` never faults and keeps `Inv`** when the kernel holds the parent and the
request's `unique` is nonzero, unless `next_id` finds every id taken. -/
theorem findNode_spec {f : Fuse} {parent : Nat} {name : Name} {ino version : Nat}
    {callocOk strdupOk : Bool} (h : Inv f) (hpar : Held f parent) (hv : version ≠ 0) :
    findNode f parent name ino version callocOk strdupOk = .error .nextIdHangs ∨
      ∃ r g, findNode f parent name ino version callocOk strdupOk = .ok (r, g) ∧ Inv g ∧
        f.Grows g ∧ f.Issues g ∧ f.Relinks g (· = f.nextPtr) parent ∧ f.OpensNone g := by
  cases hl : lookupNode f parent name with
  | some p =>
    obtain ⟨n, hp, -, -, hn⟩ := (lookupNode_eq_some h.index).1 hl
    exact .inr ⟨_, _, findNode_hit hl hp ino version callocOk strdupOk,
      h.refresh hp (h.not_forgotten hp (by simp [hn])) hv, .setNode hp _ rfl,
      (Fuse.Shrinks.setNode hp { n with version := version, nlookup := n.nlookup + 1 } rfl).issues
        h.index,
      (Fuse.KeepsLinks.setNode hp { n with version := version, nlookup := n.nlookup + 1 } rfl).relinks _ _,
      (@Fuse.KeepsOpen.setNode f p n (fun _ => False) hp
        { n with version := version, nlookup := n.nlookup + 1 } rfl rfl fun _ _ hf =>
        hf.2.elim (Nat.succ_ne_zero _) hv).opensNone⟩
  | none =>
  cases callocOk with
  | false =>
    exact .inr ⟨_, _, findNode_nomem hl ino version strdupOk, h, fun x y0 hx => ⟨y0, hx, rfl⟩,
      (Fuse.Shrinks.refl f).issues h.index, (Fuse.KeepsLinks.refl f).relinks _ _,
      (Fuse.KeepsOpen.refl f fun _ => False).opensNone⟩
  | true =>
  cases hid : nextIdLoop f (2 ^ nodeidBits) f.ctr f.generation with
  | none => exact .inl (findNode_hang h.index hl hid ino version strdupOk)
  | some c =>
  obtain ⟨id, g⟩ := c
  cases strdupOk with
  | false =>
    have hnone : f.heap f.nextPtr = none := by
      cases hp : f.heap f.nextPtr with
      | none => rfl
      | some n => exact absurd (h.index.bounded hp) (Nat.lt_irrefl _)
    exact .inr ⟨_, _, findNode_nostr h.index hl hid ino version, h.grow id g,
      fun x y0 hx => ⟨y0, hx, rfl⟩, ⟨fun x y hx hfx => absurd hx (by simp [hfx]),
        .inr ⟨hid, fun n hn => absurd hn (by simp [hnone])⟩⟩, fun x y hxy => .inl hxy,
      (Fuse.KeepsOpen.of_heap rfl fun _ => False).opensNone⟩
  | true =>
    obtain ⟨q, m, hm, hqm, hmf⟩ := hpar
    have hq : getNodeNocheck f parent = some q := (getNodeNocheck_eq_some h.index).2 ⟨m, hm, hqm⟩
    obtain ⟨-, hnone⟩ := nextIdLoop_fresh hid
    exact .inr ⟨_, _, findNode_fresh h.index hl hq hm hid ino version,
      (h.findFresh ⟨q, m, hm, hqm, hmf⟩ hl hv hq hm hid).1,
      (h.findFresh ⟨q, m, hm, hqm, hmf⟩ hl hv hq hm hid).2, .freshState version hm hid,
      freshState_relinks h hm hqm fun x y hx e => (getNodeNocheck_eq_none h.index).1 hnone x y hx e,
      Fuse.OpensNone.freshState h.index hm⟩

/-! ## The forgets -/

/-- The tail of both forgets: detach the node the kernel has just forgotten, then drop the
reference it held on itself. -/
theorem forgetTail_spec {f : Fuse} {p : Ptr} {n : Node} (hI : IndexInv f)
    (h : RefInv f (bump (fun _ => 0) p 1)) (hp : f.heap p = some n) (hr : n.nodeid ≠ rootId)
    (hn : n.Forgotten) :
    ∃ g, (unhashName f p >>= fun f => unrefNode f p) = .ok g ∧ Inv g ∧ f.Shrinks g ∧
      f.KeepsLinks g ∧ (∀ E, f.KeepsOpen g E) ∧ f.KeepsNames g (· = p) ∧ f.KeepsIdent g := by
  obtain ⟨g, hg, hIg, hRg, hu⟩ := unhashName_spec hI h hp hr
  obtain ⟨m, hm, hmn⟩ := hu.detached
  have h2 := hRg.dropRef hIg hm (by simp) (fun _ => .inl hmn)
  rw [bump_bump, show (1 : Int) + -1 = 0 by rfl, bump_zero] at h2
  obtain ⟨n0, hn0, hid, -⟩ := hu.frame hm
  rw [hp, Option.some.injEq] at hn0; subst hn0
  refine ⟨g.dropRef p m, ?_, ⟨hIg.dropRef hm (fun _ => hmn), h2⟩, hu.shrinks.trans (Fuse.Shrinks.dropRef hm),
    hu.keepsLinks.trans (.dropRef hm),
    fun E => (hu.keepsOpen E).trans (.dropRef hm ((Node.Forgotten.of_ident hid).2 hn)),
    (hu.keepsNames (D := (· = p)) rfl).trans (.dropRef hm rfl),
    (hu.keepsIdent fun _ e => Option.some.inj (hp.symm.trans e) ▸ hn).trans
      (.dropRef hm ((Node.Forgotten.of_ident hid).2 hn))⟩
  rw [hg, ok_bind, unrefNode_eq hm (hRg.positive hm) (fun _ => hmn)]

/-- Marking a held node forgotten leaves its own reference pending. -/
theorem Inv.forgetMark {f : Fuse} {p : Ptr} {n : Node} (h : Inv f) (hp : f.heap p = some n)
    (n' : Node) (hk : n'.key = n.key) (hr : n'.refctr = n.refctr) (hn : ¬ n.Forgotten) (hn' : n'.Forgotten) :
    IndexInv (f.setNode p n') ∧ RefInv (f.setNode p n') (bump (fun _ => 0) p 1) := by
  have hs : n.selfRef = 1 := by simp [Node.selfRef, hn]
  have hs' : n'.selfRef = 0 := selfRef_eq_zero.2 hn'
  have := h.refs.setNode h.index hp n' hk (hr ▸ h.refs.positive hp) (by simp [hr, hs, hs'])
    (fun _ => .inr (by simp [hr, hs, hs']))
  rw [hr, hs, hs', show n.refctr - n.refctr + (1 - 0) = 1 by omega] at this
  exact ⟨h.index.of_sameIndex (SameIndex.setNode hp n' hk), this⟩

/-- **`forget_node` never faults and keeps `Inv`** when the kernel forgets at most `nlookup`
lookups of a node it holds. -/
theorem forgetNode_spec {f : Fuse} {id c : Nat} (h : Inv f) (hheld : Held f id)
    (hle : id ≠ rootId → ∀ p n, f.heap p = some n → n.nodeid = id → c ≤ n.nlookup) :
    ∃ g, forgetNode f id c = .ok g ∧ Inv g ∧ f.Shrinks g ∧ f.KeepsLinks g ∧
      f.KeepsOpen g (· = id) ∧ f.KeepsNames g (f.IdAt id) ∧
      ∀ p n, f.heap p = some n → n.nodeid = id → id ≠ rootId →
        (f.setNode p { n with nlookup := n.nlookup - c }).KeepsIdent g := by
  by_cases hroot : id = rootId
  · exact ⟨f, by simp [forgetNode, hroot], h, .refl f, .refl f, .refl f _, .refl f _,
      fun _ _ _ _ hr => absurd hroot hr⟩
  obtain ⟨p, n, hp, rfl, hn⟩ := hheld
  -- the node with this id is the one at `p`
  have hone : ∀ {p' n'}, f.heap p' = some n' → n'.nodeid = n.nodeid → p' = p ∧ n' = n :=
    fun hp' e => by
      obtain rfl := h.index.idUnique hp' hp e
      exact ⟨rfl, Option.some.inj (hp'.symm.trans hp)⟩
  have hc' := hle hroot p n hp rfl
  have hget : getNode f n.nodeid = .ok p :=
    getNode_eq_ok.2 ((getNodeNocheck_eq_some h.index).2 ⟨n, hp, rfl⟩)
  have hlt : ¬ n.nlookup < c := by omega
  by_cases h0 : n.nlookup - c = 0
  · have hn' : ({ n with nlookup := n.nlookup - c } : Node).Forgotten := ⟨hroot, .inl h0⟩
    obtain ⟨hI1, hR1⟩ := h.forgetMark hp { n with nlookup := n.nlookup - c } rfl rfl hn hn'
    obtain ⟨g, hg, hInv, hs, hls, ho, hk, hki⟩ :=
      forgetTail_spec (n := { n with nlookup := n.nlookup - c }) hI1 hR1 (by simp) hroot hn'
    exact ⟨g, by simpa [forgetNode, hroot, hget, Fuse.node, hp, hlt, h0] using hg, hInv,
      (Fuse.Shrinks.setNode hp { n with nlookup := n.nlookup - c } rfl).trans hs,
      (Fuse.KeepsLinks.setNode hp { n with nlookup := n.nlookup - c } rfl).trans hls,
      (@Fuse.KeepsOpen.setNode f p n (· = n.nodeid) hp { n with nlookup := n.nlookup - c } rfl rfl
        fun _ hE => absurd rfl hE).trans (ho _),
      ((Fuse.KeepsNames.setNode (D := (· = p)) hp { n with nlookup := n.nlookup - c } rfl fun _ hD => absurd rfl hD).trans
        hk).mono fun x e => ⟨n, e ▸ hp, rfl⟩,
      fun _ _ hp' e _ => by obtain ⟨rfl, rfl⟩ := hone hp' e; exact hki⟩
  · refine ⟨_, by simp [forgetNode, hroot, hget, Fuse.node, hp, hlt, h0],
      h.setNode hp { n with nlookup := n.nlookup - c } rfl rfl
        ⟨fun hf => ?_, fun hf => absurd hf hn⟩, Fuse.Shrinks.setNode hp _ rfl, .setNode hp _ rfl,
      @Fuse.KeepsOpen.setNode f p n (· = n.nodeid) hp _ rfl rfl fun _ hE => absurd rfl hE,
      .setNode hp _ rfl fun _ hD => absurd ⟨n, hp, rfl⟩ hD,
      fun _ _ hp' e _ => by obtain ⟨rfl, rfl⟩ := hone hp' e; exact .refl _⟩
    rcases hf.2 with e | e
    · exact absurd e h0
    · exact absurd ⟨hroot, .inr e⟩ hn

/-- **`forget_node_old` never faults and keeps `Inv`** for a node the kernel holds. -/
theorem forgetNodeOld_spec {f : Fuse} {id version : Nat} (h : Inv f) (hheld : Held f id) :
    ∃ g, forgetNodeOld f id version = .ok g ∧ Inv g ∧ f.Shrinks g ∧ f.KeepsLinks g ∧
      f.KeepsOpen g (· = id) ∧ f.KeepsNames g (f.IdAt id) := by
  obtain ⟨p, n, hp, rfl, hn⟩ := hheld
  have hget : getNodeNocheck f n.nodeid = some p := (getNodeNocheck_eq_some h.index).2 ⟨n, hp, rfl⟩
  by_cases hv : n.version = version ∧ n.nodeid ≠ rootId
  · have hn' : ({ n with version := 0 } : Node).Forgotten := ⟨hv.2, .inr rfl⟩
    obtain ⟨hI1, hR1⟩ := h.forgetMark hp { n with version := 0 } rfl rfl hn hn'
    obtain ⟨g, hg, hInv, hs, hls, ho, hk, -⟩ :=
      forgetTail_spec (n := { n with version := 0 }) hI1 hR1 (by simp) hv.2 hn'
    exact ⟨g, by simpa [forgetNodeOld, hget, Fuse.node, hp, hv] using hg, hInv,
      (Fuse.Shrinks.setNode hp { n with version := 0 } rfl).trans hs,
      (Fuse.KeepsLinks.setNode hp { n with version := 0 } rfl).trans hls,
      (@Fuse.KeepsOpen.setNode f p n (· = n.nodeid) hp { n with version := 0 } rfl rfl
        fun _ hE => absurd rfl hE).trans (ho _),
      ((Fuse.KeepsNames.setNode (D := (· = p)) hp { n with version := 0 } rfl fun _ hD => absurd rfl hD).trans hk).mono
        fun x e => ⟨n, e ▸ hp, rfl⟩⟩
  · exact ⟨f, by simp [forgetNodeOld, hget, Fuse.node, hp, hv], h, .refl f, .refl f, .refl f _,
      .refl f _⟩

/-- `cancel_lookup` is one of the two forgets, by the negotiated major. -/
theorem cancelLookup_spec {f : Fuse} {id version : Nat} (h : Inv f) (hheld : Held f id) :
    ∃ g, cancelLookup f id version = .ok g ∧ Inv g ∧ f.Shrinks g ∧ f.KeepsLinks g ∧
      f.KeepsOpen g (· = id) ∧ f.KeepsNames g (f.IdAt id) := by
  unfold cancelLookup
  split
  · exact forgetNodeOld_spec h hheld
  · obtain ⟨g, hg, hi, hs, hl, ho, hk, -⟩ := forgetNode_spec h hheld fun hr p n hp e =>
      Nat.pos_of_ne_zero fun h0 => hheld.unique h.index hp e ⟨e ▸ hr, .inl h0⟩
    exact ⟨g, hg, hi, hs, hl, ho, hk⟩

/-! ## `remove_node` and `rename_node` -/

/-- **`remove_node` never faults and keeps `Inv`.** -/
theorem removeNode_spec {f : Fuse} {dir : Nat} {name : Name} (h : Inv f) :
    ∃ g, removeNode f dir name = .ok g ∧ Inv g ∧ f.Shrinks g ∧ f.KeepsLinks g ∧
      ∀ E, f.KeepsOpen g E := by
  cases hl : lookupNode f dir name with
  | none => exact ⟨f, by simp [removeNode, hl], h, .refl f, .refl f, .refl f⟩
  | some p =>
    obtain ⟨n, hp, hr, -⟩ := (lookupNode_eq_some h.index).1 hl
    obtain ⟨g, hg, hI, hR, hu⟩ := unhashName_spec h.index h.refs hp hr
    exact ⟨g, by simp [removeNode, hl, hg], ⟨hI, hR⟩, hu.shrinks, hu.keepsLinks, hu.keepsOpen⟩

/-- Writing back a node's own record changes nothing. -/
theorem Fuse.setNode_self {f : Fuse} {p : Ptr} {n : Node} (hp : f.heap p = some n) :
    f.setNode p n = f := by
  ext : 1 <;> simp [← hp]

/-- **`hash_name` of a detached node the kernel holds, under a free key of a directory it
holds, never faults and keeps `Inv`.** -/
theorem hashName_spec {f : Fuse} {p : Ptr} {n : Node} {parent : Nat} {name : Name} (h : Inv f)
    (hp : f.heap p = some n) (hn : n.name = none) (hr : n.nodeid ≠ rootId) (hnf : ¬ n.Forgotten)
    (hpar : Held f parent)
    (hfree : ∀ x y, f.heap x = some y → y.name = some name → y.parent ≠ parent) :
    ∃ g, hashName f p parent name true = .ok (0, g) ∧ Inv g ∧ f.Shrinks g ∧
      f.Relinks g (· = p) parent ∧ (∀ E, f.KeepsOpen g E) ∧ f.KeysBut g p ∧
      ∃ n', g.heap p = some n' ∧ n'.ident = n.ident ∧ n'.name = some name ∧ n'.parent = parent := by
  obtain ⟨q, m, hq, hqm, hmf⟩ := hpar
  have hgq : getNodeNocheck f parent = some q := (getNodeNocheck_eq_some h.index).2 ⟨m, hq, hqm⟩
  obtain ⟨n', hn', hn'n, hid'⟩ : ∃ n', (f.incRef q m).heap p = some n' ∧ n'.name = none ∧
      n'.ident = n.ident := by
    by_cases hqp : q = p
    · subst hqp; rw [hp, Option.some.injEq] at hq; subst hq
      exact ⟨{ n with refctr := n.refctr + 1 }, by simp [Fuse.incRef], hn, rfl⟩
    · exact ⟨n, by simp [Fuse.incRef, Ne.symm hqp, hp], hn, rfl⟩
  have hI1 := h.index.of_sameIndex (SameIndex.setNode hq { m with refctr := m.refctr + 1 } rfl)
  have hR1 := h.refs.incRef h.index hq
  have hq1 : (f.incRef q m).heap q = some { m with refctr := m.refctr + 1 } := by simp [Fuse.incRef]
  have hR2 : RefInv ((f.incRef q m).attach p n' parent name) _ :=
    hR1.attach hI1 hn' hn'n hq1 hqm (by simp) (fun hf => absurd hf hmf)
    (fun hf => absurd ((Node.Forgotten.of_ident hid').1 hf) hnf)
  rw [bump_bump, show (1 : Int) + -1 = 0 by rfl, bump_zero] at hR2
  have hfree1 : ∀ x y, (f.incRef q m).heap x = some y → y.name = some name → y.parent ≠ parent := by
    intro x y hx
    simp only [Fuse.incRef, Fuse.setNode_heap, update_eq_some] at hx
    rcases hx with ⟨-, ⟨⟩⟩ | ⟨-, hx⟩
    exacts [hfree q m hq, hfree x y hx]
  have hs1 := Fuse.Shrinks.setNode hq { m with refctr := m.refctr + 1 } rfl
  have hkb : f.KeysBut ((f.incRef q m).attach p n' parent name) p := fun {z y} hz hzp => by
    simp only [Fuse.attach, Fuse.pushName_heap, Fuse.setNode_heap, Fuse.incRef, update_eq_some] at hz
    rcases hz with ⟨rfl, ⟨⟩⟩ | ⟨-, ⟨rfl, ⟨⟩⟩ | ⟨-, hz⟩⟩
    exacts [absurd rfl hzp, ⟨m, hq, rfl⟩, ⟨y, hz, rfl⟩]
  refine ⟨_, hashName_eq hp hgq hq hn', ⟨hI1.attach hn' hn'n ((Node.nodeid_of_ident hid') ▸ hr) hfree1,
    hR2⟩, ⟨fun x y hx => ?_, rfl, rfl⟩, fun x y hxy => ?_,
    fun E => (Fuse.KeepsOpen.setNode hq { m with refctr := m.refctr + 1 } rfl rfl fun h _ => h).trans
      (.write rfl hn' rfl rfl fun h _ => h), hkb,
    { n' with name := some name, parent := parent }, by simp [Fuse.attach], hid', rfl, rfl⟩
  swap
  · -- `hash_name` links the node to its parent and keeps every other link
    have hxy' : ParentLink ((f.incRef q m).setNode p { n' with name := some name, parent := parent }) x y :=
      hxy
    rcases ParentLink.setNode hn' (by rfl) hxy' with h1 | ⟨rfl, m1, hm1, e⟩
    · exact .inl (Fuse.KeepsLinks.setNode hq { m with refctr := m.refctr + 1 } rfl x y h1)
    · obtain ⟨m0, hm0, e0⟩ := hs1.live y m1 hm1
      exact .inr ⟨rfl, m0, hm0, by rw [← e0]; exact e⟩
  simp only [Fuse.attach, Fuse.pushName_heap, Fuse.setNode_heap, Fuse.incRef, update_eq_some] at hx
  rcases hx with ⟨rfl, ⟨⟩⟩ | ⟨-, ⟨rfl, ⟨⟩⟩ | ⟨-, hx⟩⟩
  · exact hs1.live x n' hn'
  · exact ⟨m, hq, rfl⟩
  · exact ⟨y, hx, rfl⟩

/-- **`rename_node` never faults and keeps `Inv`** when the kernel holds the target
directory. -/
theorem renameNode_spec {f : Fuse} {olddir newdir : Nat} {oldname newname : Name}
    {hide strdupOk : Bool} (h : Inv f) (hnew : Held f newdir) :
    ∃ r g, renameNode f olddir oldname newdir newname hide strdupOk = .ok (r, g) ∧ Inv g ∧
      f.Shrinks g ∧ f.Relinks g (fun x => lookupNode f olddir oldname = some x) newdir ∧
      ∀ E, f.KeepsOpen g E := by
  cases hl : lookupNode f olddir oldname with
  | none => exact ⟨0, f, by simp [renameNode, hl], h, .refl f, (Fuse.KeepsLinks.refl f).relinks _ _, .refl f⟩
  | some p =>
  obtain ⟨n, hp, hr, -, hn⟩ := (lookupNode_eq_some h.index).1 hl
  have hnf : ¬ n.Forgotten := h.not_forgotten hp (by simp [hn])
  by_cases hb : hide = true ∧ (lookupNode f newdir newname).isSome = true
  · exact ⟨-EBUSY, f, by simp [renameNode, hl, hb], h, .refl f, (Fuse.KeepsLinks.refl f).relinks _ _,
      .refl f⟩
  -- the node at the target, if any, is detached first
  obtain ⟨g1, hg1, h1, hs1, hl1, ho1, hp1, hfree1⟩ : ∃ g1,
      (lookupNode f newdir newname = none ∧ g1 = f ∨
        ∃ q, lookupNode f newdir newname = some q ∧ unhashName f q = .ok g1) ∧ Inv g1 ∧
      f.Shrinks g1 ∧ f.KeepsLinks g1 ∧ (∀ E, f.KeepsOpen g1 E) ∧
      (∀ x y0, f.heap x = some y0 → ¬ y0.Forgotten → ∃ y, g1.heap x = some y ∧ y.ident = y0.ident) ∧
      (∀ x y, g1.heap x = some y → y.name = some newname → y.parent ≠ newdir) := by
    cases hq : lookupNode f newdir newname with
    | none =>
      exact ⟨f, .inl ⟨rfl, rfl⟩, h, .refl f, .refl f, .refl f, fun x y0 hx _ => ⟨y0, hx, rfl⟩,
        h.key_free hq (hnew.ne_zero h.index)⟩
    | some q =>
      obtain ⟨m, hm, hmr, hmp, hmn⟩ := (lookupNode_eq_some h.index).1 hq
      obtain ⟨g1, hg1, hI, hR, hu⟩ := unhashName_spec h.index h.refs hm hmr
      refine ⟨g1, .inr ⟨q, rfl, hg1⟩, ⟨hI, hR⟩, hu.shrinks, hu.keepsLinks, hu.keepsOpen,
        fun x y0 hx hf => hu.live hx hf,
        hu.keyFree fun x y hx hy e => ?_⟩
      by_cases hyr : y.nodeid = rootId
      · exact absurd (e.symm.trans (h.root_eq hx hyr).2) (hnew.ne_zero h.index)
      · exact h.index.keyUnique hx hm (by simp [hy]) (hy.trans hmn.symm) (e.trans hmp.symm)
  -- then the node itself
  obtain ⟨n1, hn1, hid1⟩ := hp1 p n hp hnf
  obtain ⟨g2, hg2, hI2, hR2, hu2⟩ :=
    unhashName_spec h1.index h1.refs hn1 ((Node.nodeid_of_ident hid1).trans_ne hr)
  obtain ⟨n2, hn2, hn2n⟩ := hu2.detached
  obtain ⟨n1', hn1', hid2, -⟩ := hu2.frame hn2
  rw [hn1, Option.some.injEq] at hn1'; subst hn1'
  have hfree2 := hu2.keyFree fun x y hx hy e => absurd e (hfree1 x y hx hy)
  have hs2 := hs1.trans hu2.shrinks
  have hl2 := hl1.trans hu2.keepsLinks
  have ho2 : ∀ E, f.KeepsOpen g2 E := fun E => (ho1 E).trans (hu2.keepsOpen E)
  have hsrc : ∀ x, x = p → some p = some x := fun _ e => e ▸ rfl
  cases strdupOk with
  | false =>
    refine ⟨-ENOMEM, g2, ?_, ⟨hI2, hR2⟩, hs2, hl2.relinks _ _, ho2⟩
    have hrec : ({ n2 with name := none } : Node) = n2 := by cases n2; simp_all
    rcases hg1 with ⟨hq, rfl⟩ | ⟨q, hq, hq1⟩
    · simp [renameNode, hl, hq, hg2, hashName_eq_fail hn2, hrec, Fuse.setNode_self hn2]
    · have hh : hide = false := by simpa [hq] using hb
      simp [renameNode, hl, hq, hq1, hg2, hashName_eq_fail hn2, hrec, hh, Fuse.setNode_self hn2]
  | true =>
  obtain ⟨q0, m0, hq0, hm0, hmf0⟩ := hnew
  obtain ⟨m1, hm1, hidm1⟩ := hp1 q0 m0 hq0 hmf0
  obtain ⟨m2, hm2, hidm2⟩ := hu2.live hm1 ((Node.Forgotten.of_ident hidm1).not.2 hmf0)
  have hid := hid2.trans hid1
  obtain ⟨g3, hg3, h3, hs3, hr3, ho3, -, n3, hn3, hid3, -⟩ := hashName_spec ⟨hI2, hR2⟩ hn2 hn2n
    ((Node.nodeid_of_ident hid).trans_ne hr) ((Node.Forgotten.of_ident hid).not.2 hnf)
    ⟨q0, m2, hm2, (Node.nodeid_of_ident (hidm2.trans hidm1)).trans hm0,
      (Node.Forgotten.of_ident (hidm2.trans hidm1)).not.2 hmf0⟩ hfree2
  cases hide with
  | false =>
    refine ⟨0, g3, ?_, h3, hs2.trans hs3, (hr3.of_shrinks hs2 hl2).mono hsrc,
      fun E => (ho2 E).trans (ho3 E)⟩
    rcases hg1 with ⟨hq, rfl⟩ | ⟨q, hq, hq1⟩
    · simp [renameNode, hl, hq, hg2, hg3]
    · simp [renameNode, hl, hq, hq1, hg2, hg3]
  | true =>
    refine ⟨0, g3.setNode p { n3 with isHidden := true }, ?_,
      h3.setNode hn3 _ rfl rfl Iff.rfl, hs2.trans (hs3.trans (.setNode hn3 _ rfl)),
      ((hr3.of_shrinks hs2 hl2).keepsLinks (.setNode hn3 { n3 with isHidden := true } rfl)).mono hsrc,
      fun E => ((ho2 E).trans (ho3 E)).trans
        (.setNode hn3 { n3 with isHidden := true } rfl rfl fun h _ => h)⟩
    rcases hg1 with ⟨hq, rfl⟩ | ⟨q, hq, -⟩
    · simp [renameNode, hl, hq, hg2, hg3, Fuse.node, hn3]
    · simp [hq] at hb

end FuseCore
