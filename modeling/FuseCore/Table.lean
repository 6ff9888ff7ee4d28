import FuseCore.Node

/-!
# The hash tables: `get_node`, `hash_id`, `hash_name`, `unref_node`, `next_id` (fuse.c:156-294)

Every live node is on the chain of bucket `nodeid % id_table_size`; every attached non-root
node also on the chain of bucket `name_hash(parent, name)`. A probe walks one chain and
returns its first match; unlinking removes the first occurrence of the pointer
(`List.erase`); linking pushes at the head.

`unhash_name` detaches a node and drops the reference it held on its parent, which may
destroy the parent (`unref_node` → `delete_node`). It drops that reference *before* it clears
the node's name, so a node whose parent is itself would be deleted while still named; the
invariants of `Refcount.lean` show this never happens.
-/

namespace FuseCore

/-! ## Chains -/

namespace Fuse

/-- Unlink the first occurrence of `p` from name bucket `b`. -/
def eraseName (f : Fuse) (b : Nat) (p : Ptr) : Fuse :=
  { f with nameTable := Function.update f.nameTable b ((f.nameTable b).erase p) }

/-- Unlink the first occurrence of `p` from id bucket `b`. -/
def eraseId (f : Fuse) (b : Nat) (p : Ptr) : Fuse :=
  { f with idTable := Function.update f.idTable b ((f.idTable b).erase p) }

/-- Push `p` on name bucket `b`. -/
def pushName (f : Fuse) (b : Nat) (p : Ptr) : Fuse :=
  { f with nameTable := Function.update f.nameTable b (p :: f.nameTable b) }

/-- Push `p` on id bucket `b`. -/
def pushId (f : Fuse) (b : Nat) (p : Ptr) : Fuse :=
  { f with idTable := Function.update f.idTable b (p :: f.idTable b) }

section Frame
variable (f : Fuse) (b : Nat) (p : Ptr)
@[simp] theorem eraseName_nameTable :
    (f.eraseName b p).nameTable = Function.update f.nameTable b ((f.nameTable b).erase p) := rfl
@[simp] theorem pushName_nameTable :
    (f.pushName b p).nameTable = Function.update f.nameTable b (p :: f.nameTable b) := rfl
@[simp] theorem eraseId_idTable :
    (f.eraseId b p).idTable = Function.update f.idTable b ((f.idTable b).erase p) := rfl
@[simp] theorem pushId_idTable : (f.pushId b p).idTable = Function.update f.idTable b (p :: f.idTable b) := rfl
@[simp] theorem eraseName_heap : (f.eraseName b p).heap = f.heap := rfl
@[simp] theorem eraseName_idTable : (f.eraseName b p).idTable = f.idTable := rfl
@[simp] theorem eraseName_nextPtr : (f.eraseName b p).nextPtr = f.nextPtr := rfl
@[simp] theorem pushName_heap : (f.pushName b p).heap = f.heap := rfl
@[simp] theorem pushName_idTable : (f.pushName b p).idTable = f.idTable := rfl
@[simp] theorem pushName_nextPtr : (f.pushName b p).nextPtr = f.nextPtr := rfl
@[simp] theorem eraseId_heap : (f.eraseId b p).heap = f.heap := rfl
@[simp] theorem eraseId_nameTable : (f.eraseId b p).nameTable = f.nameTable := rfl
@[simp] theorem eraseId_nextPtr : (f.eraseId b p).nextPtr = f.nextPtr := rfl
@[simp] theorem pushId_heap : (f.pushId b p).heap = f.heap := rfl
@[simp] theorem pushId_nameTable : (f.pushId b p).nameTable = f.nameTable := rfl
@[simp] theorem pushId_nextPtr : (f.pushId b p).nextPtr = f.nextPtr := rfl
end Frame

end Fuse

/-! ## The C functions -/

/-- Find a live node by id, `get_node_nocheck` (fuse.c:156). -/
def getNodeNocheck (f : Fuse) (nodeid : Nat) : Option Ptr :=
  (f.idTable (nodeid % idTableSize)).find? fun p => (f.heap p).any (·.nodeid == nodeid)

/-- Find a node the kernel named, `get_node` (fuse.c:168): absence aborts. -/
def getNode (f : Fuse) (nodeid : Nat) : Except Fault Ptr :=
  match getNodeNocheck f nodeid with
  | some p => .ok p
  | none => .error (.nodeNotFound nodeid)

/-- Unlink a node from its id chain, `unhash_id` (fuse.c:185). -/
def unhashId (f : Fuse) (p : Ptr) : Except Fault Fuse := do
  let n ← f.node p
  let b := n.nodeid % idTableSize
  pure (f.eraseId b p)

/-- Push a node on its id chain, `hash_id` (fuse.c:196). -/
def hashId (f : Fuse) (p : Ptr) : Except Fault Fuse := do
  let n ← f.node p
  let b := n.nodeid % idTableSize
  pure (f.pushId b p)

/-- Destroy a node, `delete_node` (fuse.c:253): it must already be detached. -/
def deleteNode (f : Fuse) (p : Ptr) : Except Fault Fuse := do
  let n ← f.node p
  if n.name.isSome then throw .deleteNode
  let f ← unhashId f p
  pure (f.freeNode p)

/-- Drop one reference, `unref_node` (fuse.c:264); the last one destroys the node. -/
def unrefNode (f : Fuse) (p : Ptr) : Except Fault Fuse := do
  let n ← f.node p
  if n.refctr ≤ 0 then throw .unrefNode
  let f := f.setNode p { n with refctr := n.refctr - 1 }
  if n.refctr - 1 = 0 then deleteNode f p else pure f

/-- Detach a node from the name index, `unhash_name` (fuse.c:217). -/
def unhashName (f : Fuse) (p : Ptr) : Except Fault Fuse := do
  let n ← f.node p
  match n.name with
  | none => pure f
  | some s =>
    let b := nameHash n.parent s
    if p ∈ f.nameTable b then
      let f := f.eraseName b p
      let q ← getNode f n.parent
      let f ← unrefNode f q
      let m ← f.node p
      pure (f.setNode p { m with name := none, parent := 0 })
    else throw (.unhashName n.nodeid)

/-- Attach a node under `(parent, name)`, `hash_name` (fuse.c:239). `strdupOk` says whether
`strdup` succeeds; if not, `name` is left NULL and the result is `-1`. -/
def hashName (f : Fuse) (p : Ptr) (parent : Nat) (name : Name) (strdupOk : Bool) :
    Except Fault (Int × Fuse) := do
  let b := nameHash parent name
  let n ← f.node p
  if !strdupOk then return (-1, f.setNode p { n with name := none })
  let f := f.setNode p { n with name := some name }
  let q ← getNode f parent
  let m ← f.node q
  let f := f.setNode q { m with refctr := m.refctr + 1 }
  let n ← f.node p
  let f := f.setNode p { n with parent := parent }
  pure (0, f.pushName b p)

/-- The loop of `next_id` (fuse.c:273) from counter `ctr` and generation `gen`, for at most
`fuel` passes: increment, count a wrap, and retry while the id is 0 or taken. -/
def nextIdLoop (f : Fuse) : Nat → Nat → Nat → Option (Nat × Nat)
  | 0, _, _ => none
  | fuel + 1, ctr, gen =>
    let ctr := (ctr + 1) % 2 ^ nodeidBits
    let gen := if ctr = 0 then gen + 1 else gen
    if ctr = 0 ∨ (getNodeNocheck f ctr).isSome then nextIdLoop f fuel ctr gen
    else some (ctr, gen)

/-- Issue a fresh node id, `next_id`. The loop does not change the tables, so after
`2 ^ 64` passes the counter is back at its start and the loop runs forever. -/
def nextId (f : Fuse) : Except Fault (Nat × Fuse) :=
  match nextIdLoop f (2 ^ nodeidBits) f.ctr f.generation with
  | some (ctr, gen) => .ok (ctr, { f with ctr := ctr, generation := gen })
  | none => .error .nextIdHangs

/-- Find an attached node by key, `lookup_node` (fuse.c:283). -/
def lookupNode (f : Fuse) (parent : Nat) (name : Name) : Option Ptr :=
  (f.nameTable (nameHash parent name)).find? fun p =>
    (f.heap p).any fun n => n.parent == parent && n.name == some name

/-! ## What the table functions do when they do not fault -/

namespace Fuse

/-- Detach node `p` (record `n`, name `s`): the net effect of `unhash_name` on `p`. -/
def detach (f : Fuse) (p : Ptr) (n : Node) (s : Name) : Fuse :=
  (f.eraseName (nameHash n.parent s) p).setNode p { n with name := none, parent := 0 }

/-- Attach node `p` (record `n`) under `(parent, name)`: `hash_name` without the parent's
reference. -/
def attach (f : Fuse) (p : Ptr) (n : Node) (parent : Nat) (name : Name) : Fuse :=
  (f.setNode p { n with name := some name, parent := parent }).pushName (nameHash parent name) p

/-- Take one more reference on node `q` (record `m`). -/
def incRef (f : Fuse) (q : Ptr) (m : Node) : Fuse :=
  f.setNode q { m with refctr := m.refctr + 1 }

/-- Store a new node `n` at `p` and push it on its id chain. -/
def insertNode (f : Fuse) (p : Ptr) (n : Node) : Fuse :=
  (f.setNode p n).pushId (n.nodeid % idTableSize) p

/-- Drop one reference on node `q` (record `m`): `unref_node`, destroying it at zero. -/
def dropRef (f : Fuse) (q : Ptr) (m : Node) : Fuse :=
  if m.refctr = 1 then (f.eraseId (m.nodeid % idTableSize) q).freeNode q
  else f.setNode q { m with refctr := m.refctr - 1 }

end Fuse

@[simp] theorem getNodeNocheck_eraseName (f : Fuse) (b : Nat) (p : Ptr) (id : Nat) :
    getNodeNocheck (f.eraseName b p) id = getNodeNocheck f id := rfl

theorem getNode_eq_ok {f : Fuse} {id : Nat} {q : Ptr} :
    getNode f id = .ok q ↔ getNodeNocheck f id = some q := by
  unfold getNode; split <;> simp_all

/-- What `get_node_nocheck` returns is a live node with that id, in any state. -/
theorem getNodeNocheck_some {f : Fuse} {id : Nat} {p : Ptr} (h : getNodeNocheck f id = some p) :
    ∃ n, f.heap p = some n ∧ n.nodeid = id := by
  have hp := List.find?_some h
  cases hh : f.heap p with
  | none => simp [hh] at hp
  | some n => exact ⟨n, rfl, by simpa [hh] using hp⟩

theorem unhashId_eq {f : Fuse} {p : Ptr} {n : Node} (hp : f.heap p = some n) :
    unhashId f p = .ok (f.eraseId (n.nodeid % idTableSize) p) := by
  simp [unhashId, Fuse.node, hp]

theorem unrefNode_eq {f : Fuse} {q : Ptr} {m : Node} (hq : f.heap q = some m) (hpos : 0 < m.refctr)
    (hone : m.refctr = 1 → m.name = none) : unrefNode f q = .ok (f.dropRef q m) := by
  by_cases h1 : m.refctr = 1
  · simp [unrefNode, Fuse.node, hq, deleteNode, h1, hone h1, Fuse.dropRef, unhashId_eq]
    simp [Fuse.freeNode, Fuse.setNode, Fuse.eraseId]
  · have h2 : ¬ m.refctr - 1 = 0 := by omega
    have h3 : ¬ m.refctr ≤ 0 := by omega
    simp [unrefNode, Fuse.node, hq, h1, h2, h3, Fuse.dropRef]

theorem Fuse.setNode_setNode (f : Fuse) (p : Ptr) (n n' : Node) :
    (f.setNode p n).setNode p n' = f.setNode p n' := by
  ext : 1 <;> simp

theorem Fuse.dropRef_setNode {f : Fuse} {p q : Ptr} (h : q ≠ p) (y m : Node) :
    (f.setNode p y).dropRef q m = (f.dropRef q m).setNode p y := by
  unfold Fuse.dropRef
  split <;> ext : 1 <;> first | rfl | simp [Function.update_comm h]

theorem Fuse.dropRef_heap_ne {f : Fuse} {p q : Ptr} (h : p ≠ q) (m : Node) :
    (f.dropRef q m).heap p = f.heap p := by
  unfold Fuse.dropRef; split <;> simp [h]

theorem Fuse.dropRef_of_one {f : Fuse} {q : Ptr} {m : Node} (h : m.refctr = 1) :
    f.dropRef q m = (f.eraseId (m.nodeid % idTableSize) q).freeNode q := if_pos h

theorem Fuse.dropRef_of_ne {f : Fuse} {q : Ptr} {m : Node} (h : m.refctr ≠ 1) :
    f.dropRef q m = f.setNode q { m with refctr := m.refctr - 1 } := if_neg h

@[simp] theorem Fuse.dropRef_nameTable (f : Fuse) (q : Ptr) (m : Node) :
    (f.dropRef q m).nameTable = f.nameTable := by
  unfold Fuse.dropRef; split <;> rfl

theorem unhashName_eq {f : Fuse} {p q : Ptr} {n m : Node} {s : Name}
    (hp : f.heap p = some n) (hs : n.name = some s) (hmem : p ∈ f.nameTable (nameHash n.parent s))
    (hq : getNodeNocheck f n.parent = some q) (hm : (f.detach p n s).heap q = some m)
    (hpos : 0 < m.refctr) (hone : m.refctr = 1 → m.name = none ∧ q ≠ p) :
    unhashName f p = .ok ((f.detach p n s).dropRef q m) := by
  simp only [unhashName, Fuse.node, hp, hs, hmem, getNode, getNodeNocheck_eraseName, hq, ok_bind,
    if_true]
  by_cases hqp : q = p
  · subst hqp
    have hm' : m = { n with name := none, parent := 0 } := by simp [Fuse.detach] at hm; exact hm.symm
    subst hm'
    have h1 : n.refctr ≠ 1 := fun h => (hone h).2 rfl
    rw [unrefNode_eq (m := n) (by simpa using hp) hpos (fun h => absurd h h1)]
    simp [Fuse.dropRef, h1, Fuse.detach, Fuse.setNode_setNode]
  · have hm' : f.heap q = some m := by simpa [Fuse.detach, hqp] using hm
    rw [unrefNode_eq (by simpa using hm') hpos (fun h => (hone h).1)]
    simp [Fuse.dropRef_heap_ne (Ne.symm hqp), hp, Fuse.detach, Fuse.dropRef_setNode hqp]

theorem getNodeNocheck_setNode {f : Fuse} {p : Ptr} {n n' : Node} (hp : f.heap p = some n)
    (h : n'.nodeid = n.nodeid) (id : Nat) : getNodeNocheck (f.setNode p n') id = getNodeNocheck f id := by
  unfold getNodeNocheck
  congr 1
  funext r
  by_cases hr : r = p <;> simp [hr, hp, h]

/-- **What `hash_name` does when `strdup` succeeds:** a reference on the parent, then the
key and the chain link. -/
theorem hashName_eq {f : Fuse} {p q : Ptr} {n m n' : Node} {parent : Nat} {name : Name}
    (hp : f.heap p = some n) (hq : getNodeNocheck f parent = some q) (hm : f.heap q = some m)
    (hn : (f.incRef q m).heap p = some n') :
    hashName f p parent name true = .ok (0, (f.incRef q m).attach p n' parent name) := by
  simp only [hashName, Fuse.node, hp, getNode, getNodeNocheck_setNode hp, hq, ok_bind]
  by_cases hqp : q = p
  · subst hqp
    rw [hp, Option.some.injEq] at hm; subst hm
    simp only [Fuse.incRef, Fuse.setNode_heap, Function.update_same, Option.some.injEq] at hn
    subst hn
    simp
    ext : 1 <;> first | rfl | simp [Fuse.attach, Fuse.incRef]
  · simp only [Fuse.incRef, Fuse.setNode_heap, Function.update_noteq (Ne.symm hqp), hp,
      Option.some.injEq] at hn
    subst hn
    simp [hqp, Ne.symm hqp, hm]
    ext : 1 <;> first | rfl | simp [Fuse.attach, Fuse.incRef, Function.update_comm hqp]

theorem hashName_eq_fail {f : Fuse} {p : Ptr} {n : Node} {parent : Nat} {name : Name}
    (hp : f.heap p = some n) :
    hashName f p parent name false = .ok (-1, f.setNode p { n with name := none }) := by
  simp [hashName, Fuse.node, hp]

theorem find?_congr_mem {α : Type} {p q : α → Bool} :
    ∀ {l : List α}, (∀ x ∈ l, p x = q x) → l.find? p = l.find? q
  | [], _ => rfl
  | a :: l, h => by
    simp only [List.find?_cons, h a (List.mem_cons_self a l),
      find?_congr_mem fun x hx => h x (List.mem_cons_of_mem a hx)]

/-- The id probe reads the id chains and the nodes on them, nothing else. -/
theorem getNodeNocheck_congr {f g : Fuse} (hid : g.idTable = f.idTable)
    (hh : ∀ b x, x ∈ f.idTable b → g.heap x = f.heap x) (id : Nat) :
    getNodeNocheck g id = getNodeNocheck f id := by
  unfold getNodeNocheck; rw [hid]; exact find?_congr_mem fun x hx => by rw [hh _ x hx]

/-- The loop of `next_id` reads the state only through the id probe. -/
theorem nextIdLoop_congr {f g : Fuse} (h : ∀ id, getNodeNocheck g id = getNodeNocheck f id) :
    ∀ fuel c gen, nextIdLoop g fuel c gen = nextIdLoop f fuel c gen
  | 0, _, _ => rfl
  | fuel + 1, c, gen => by simp only [nextIdLoop, h, nextIdLoop_congr h fuel]

/-- What `next_id` returns is nonzero and not the id of a node in the id table. -/
theorem nextIdLoop_fresh {f : Fuse} :
    ∀ {fuel c g c' g' : Nat}, nextIdLoop f fuel c g = some (c', g') →
      c' ≠ 0 ∧ getNodeNocheck f c' = none
  | 0, _, _, _, _, h => by simp [nextIdLoop] at h
  | fuel + 1, c, g, c', g', h => by
    simp only [nextIdLoop] at h
    split at h
    · exact nextIdLoop_fresh h
    · rename_i hc
      simp only [Option.some.injEq, Prod.mk.injEq] at h
      obtain ⟨rfl, -⟩ := h
      simp only [not_or, Option.isSome_iff_ne_none, ne_eq, not_not] at hc
      exact hc

end FuseCore
