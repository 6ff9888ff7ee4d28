import FuseCore.Directory

/-!
# Every reachable directory is consistent (fuse.c:296-476, :2164-2220)

`DirOp` lists the operations that run under `f->lock` and write the directory, with what the
environment decides as arguments (allocation failures, the request's `unique`, the names).
`init` is the part of INIT (`do_init`, fuse.c:1537) that matters here: it sets the
negotiated major, which only `cancel_lookup` reads. `DirOp.Allowed` is the kernel's side of
the protocol, and `Reachable` is every state `fuse_new_common` leads to through allowed
operations.

`DirOp.step_spec` is the one step lemma: an allowed operation either waits forever in
`next_id` or ends normally, keeps `Inv`, either creates no node or destroys none, adds no
parent link but the one `DirOp.Attaches` names, and writes no open count. The
claims about whole runs are read off `Inv` by induction over `Reachable`.
-/

namespace FuseCore

/-- The operations of the directory. -/
inductive DirOp where
  | init (major : Nat)
  | find (parent : Nat) (name : Name) (ino version : Nat) (callocOk strdupOk : Bool)
  | forget (nodeid nlookup : Nat)
  | forgetOld (nodeid version : Nat)
  | cancel (nodeid version : Nat)
  | remove (dir : Nat) (name : Name)
  | rename (olddir : Nat) (oldname : Name) (newdir : Nat) (newname : Name) (hide strdupOk : Bool)
  deriving DecidableEq, Repr

/-- The state an operation leaves; what it returns to its caller is dropped. -/
def DirOp.run : DirOp → Fuse → Except Fault Fuse
  | .init major, f => .ok { f with major := major }
  | .find parent name ino version callocOk strdupOk, f =>
    (·.2) <$> findNode f parent name ino version callocOk strdupOk
  | .forget nodeid nlookup, f => forgetNode f nodeid nlookup
  | .forgetOld nodeid version, f => forgetNodeOld f nodeid version
  | .cancel nodeid version, f => cancelLookup f nodeid version
  | .remove dir name, f => removeNode f dir name
  | .rename olddir oldname newdir newname hide strdupOk, f =>
    (·.2) <$> renameNode f olddir oldname newdir newname hide strdupOk

/-- What the kernel guarantees: a node a request acts on is one it holds, a request's
`unique` is nonzero, and a FORGET drops at most the lookups it was given. -/
def DirOp.Allowed : DirOp → Fuse → Prop
  | .init _, _ => True
  | .find parent _ _ version _ _, f => Held f parent ∧ version ≠ 0
  | .forget nodeid nlookup, f => Held f nodeid ∧
    (nodeid ≠ rootId → ∀ p n, f.heap p = some n → n.nodeid = nodeid → nlookup ≤ n.nlookup)
  | .forgetOld nodeid _, f => Held f nodeid
  | .cancel nodeid _, f => Held f nodeid
  | .remove _ _, _ => True
  | .rename _ _ newdir _ _ _, f => Held f newdir

/-- The parent link an operation may add: `find_node`'s new node under its parent, and the
node `rename_node` moves under the new directory. -/
def DirOp.Attaches : DirOp → Fuse → Ptr → Ptr → Prop
  | .find parent _ _ _ _ _, f, x, y => x = f.nextPtr ∧ ∃ m, f.heap y = some m ∧ m.nodeid = parent
  | .rename olddir oldname newdir _ _ _, f, x, y =>
    lookupNode f olddir oldname = some x ∧ ∃ m, f.heap y = some m ∧ m.nodeid = newdir
  | _, _, _, _ => False

/-- The ids whose lookups an operation may forget: the node it forgets or cancels. -/
def DirOp.Forgets : DirOp → Nat → Prop
  | .forget nodeid _, i | .forgetOld nodeid _, i | .cancel nodeid _, i => i = nodeid
  | _, _ => False

/-- The states of the directory a run of `fuse_new_common` and allowed operations reaches. -/
inductive Reachable : Fuse → Prop
  | init (flags : Flags) : Reachable (fuseNew flags)
  | step {f g : Fuse} (o : DirOp) : Reachable f → o.Allowed f → o.run f = .ok g → Reachable g

/-! ## The initial state -/

theorem fuseNew_heap_eq_some {flags : Flags} {p : Ptr} {n : Node} :
    (fuseNew flags).heap p = some n ↔ p = 0 ∧ n = rootNode := by
  simp only [fuseNew, update_eq_some]
  constructor
  · rintro (⟨rfl, h⟩ | ⟨-, h⟩)
    exacts [⟨rfl, (Option.some.inj h).symm⟩, absurd h (by simp)]
  · rintro ⟨rfl, rfl⟩; exact .inl ⟨rfl, rfl⟩

theorem children_fuseNew {flags : Flags} {id : Nat} (hid : id ≠ 0) :
    children (fuseNew flags) id = 0 :=
  children_eq_zero fun p n hp _ e => by
    obtain ⟨rfl, rfl⟩ := fuseNew_heap_eq_some.1 hp
    exact hid e.symm

theorem rootNode_not_forgotten : ¬ rootNode.Forgotten := fun h => h.1 rfl

/-- **`fuse_new_common` starts consistent.** -/
theorem Inv.fuseNew (flags : Flags) : Inv (fuseNew flags) where
  index := {
    bounded := fun hp => by obtain ⟨rfl, -⟩ := fuseNew_heap_eq_some.1 hp; exact Nat.one_pos
    nonzero := fun hp => by obtain ⟨-, rfl⟩ := fuseNew_heap_eq_some.1 hp; decide
    idUnique := fun hp hq _ => by
      rw [(fuseNew_heap_eq_some.1 hp).1, (fuseNew_heap_eq_some.1 hq).1]
    idNodup := fun b => by
      simp only [FuseCore.fuseNew, Function.update_apply]; split <;> simp
    idMem := fun b p => by
      constructor
      · intro hp
        simp only [FuseCore.fuseNew, Function.update_apply] at hp
        split at hp
        · rename_i hb; subst hb
          rw [List.mem_singleton.1 hp]
          exact ⟨rootNode, fuseNew_heap_eq_some.2 ⟨rfl, rfl⟩, rfl⟩
        · exact absurd hp (List.not_mem_nil p)
      · rintro ⟨n, hp, rfl⟩
        obtain ⟨rfl, rfl⟩ := fuseNew_heap_eq_some.1 hp
        simp [FuseCore.fuseNew, rootNode]
    nameNodup := fun _ => List.nodup_nil
    nameMem := fun _ p => ⟨fun h => absurd h (List.not_mem_nil p), fun ⟨_, _, hp, h, _⟩ => by
      obtain ⟨-, rfl⟩ := fuseNew_heap_eq_some.1 hp; exact absurd rfl h⟩
    keyUnique := fun hp hq _ _ _ => by
      rw [(fuseNew_heap_eq_some.1 hp).1, (fuseNew_heap_eq_some.1 hq).1] }
  refs := {
    count := fun hp => by
      obtain ⟨-, rfl⟩ := fuseNew_heap_eq_some.1 hp
      rw [children_fuseNew (by decide)]
      simp only [Node.selfRef, if_neg rootNode_not_forgotten]; rfl
    defect := fun _ => le_refl 0
    positive := fun hp => by obtain ⟨-, rfl⟩ := fuseNew_heap_eq_some.1 hp; decide
    forgotten := fun hp hf => by
      obtain ⟨-, rfl⟩ := fuseNew_heap_eq_some.1 hp; exact absurd hf rootNode_not_forgotten
    parentLive := fun hp _ hr => by obtain ⟨-, rfl⟩ := fuseNew_heap_eq_some.1 hp; exact absurd rfl hr
    root := ⟨0, rootNode, fuseNew_heap_eq_some.2 ⟨rfl, rfl⟩, rfl, rfl, rfl⟩ }

/-! ## One step, and every run -/

theorem Inv.setMajor {f : Fuse} (h : Inv f) (major : Nat) : Inv { f with major := major } :=
  ⟨h.index.of_sameIndex ⟨rfl, rfl, le_refl _, fun _ => rfl⟩, h.refs.congr rfl rfl⟩

/-- **An allowed operation never aborts**: it ends normally, or waits forever in `next_id`;
it keeps `Inv`; and it creates no node or destroys none. -/
theorem DirOp.step_spec {o : DirOp} {f : Fuse} (h : Inv f) (ho : o.Allowed f) :
    o.run f = .error .nextIdHangs ∨
      ∃ g, o.run f = .ok g ∧ Inv g ∧ (f.Shrinks g ∨ f.Grows g) ∧ f.Issues g ∧
        (∀ x y, ParentLink g x y → ParentLink f x y ∨ o.Attaches f x y) ∧ f.OpensNone g := by
  cases o with
  | init major =>
    have hs : f.Shrinks { f with major := major } := ⟨fun _ y hx => ⟨y, hx, rfl⟩, rfl, rfl⟩
    exact .inr ⟨_, rfl, h.setMajor major, .inl hs, hs.issues h.index, fun _ _ hl => .inl hl,
      (Fuse.KeepsOpen.of_heap (by rfl) fun _ => False).opensNone⟩
  | find parent name ino version callocOk strdupOk =>
    rcases @findNode_spec f parent name ino version callocOk strdupOk h ho.1 ho.2 with
      he | ⟨r, g, hg, hi, hgr, hiss, hl, ho⟩
    · exact .inl (by simp [DirOp.run, he])
    · exact .inr ⟨g, by simp [DirOp.run, hg], hi, .inr hgr, hiss, hl, ho⟩
  | forget nodeid nlookup =>
    obtain ⟨g, hg, hi, hs, hl, hk, -, -⟩ := forgetNode_spec h ho.1 ho.2
    exact .inr ⟨g, hg, hi, .inl hs, hs.issues h.index, fun x y h => .inl (hl x y h), hk.opensNone⟩
  | forgetOld nodeid version =>
    obtain ⟨g, hg, hi, hs, hl, hk, -⟩ := @forgetNodeOld_spec f nodeid version h ho
    exact .inr ⟨g, hg, hi, .inl hs, hs.issues h.index, fun x y h => .inl (hl x y h), hk.opensNone⟩
  | cancel nodeid version =>
    obtain ⟨g, hg, hi, hs, hl, hk, -⟩ := @cancelLookup_spec f nodeid version h ho
    exact .inr ⟨g, hg, hi, .inl hs, hs.issues h.index, fun x y h => .inl (hl x y h), hk.opensNone⟩
  | remove dir name =>
    obtain ⟨g, hg, hi, hs, hl, hk⟩ := @removeNode_spec f dir name h
    exact .inr ⟨g, hg, hi, .inl hs, hs.issues h.index, fun x y h => .inl (hl x y h), (hk fun _ => False).opensNone⟩
  | rename olddir oldname newdir newname hide strdupOk =>
    obtain ⟨r, g, hg, hi, hs, hl, hk⟩ :=
      @renameNode_spec f olddir newdir oldname newname hide strdupOk h ho
    exact .inr ⟨g, by simp [DirOp.run, hg], hi, .inl hs, hs.issues h.index, hl, (hk fun _ => False).opensNone⟩

theorem DirOp.run_inv {o : DirOp} {f g : Fuse} (h : Inv f) (ho : o.Allowed f)
    (hrun : o.run f = .ok g) : Inv g ∧ (f.Shrinks g ∨ f.Grows g) ∧ f.Issues g ∧
      (∀ x y, ParentLink g x y → ParentLink f x y ∨ o.Attaches f x y) ∧ f.OpensNone g := by
  rcases DirOp.step_spec h ho with he | ⟨g', hg', hi, hs, hiss, hl, hk⟩
  · rw [he] at hrun; cases hrun
  · rw [hg'] at hrun; cases hrun; exact ⟨hi, hs, hiss, hl, hk⟩

theorem Reachable.inv {f : Fuse} (hf : Reachable f) : Inv f := by
  induction hf with
  | init flags => exact Inv.fuseNew flags
  | step o _ ho hrun ih => exact (DirOp.run_inv ih ho hrun).1

/-- In every reachable state no node is open: only OPEN and RELEASE write the counts. -/
theorem Reachable.openCount_eq_zero {f : Fuse} (hf : Reachable f) :
    ∀ {p n}, f.heap p = some n → n.openCount = 0 := by
  induction hf with
  | init flags =>
    intro p n hp; obtain ⟨-, rfl⟩ := fuseNew_heap_eq_some.1 hp; rfl
  | step o hr ho hrun ih =>
    intro p n hp
    rcases (DirOp.run_inv hr.inv ho hrun).2.2.2.2 hp with h0 | ⟨y0, hy0, e⟩
    exacts [h0, e.trans (ih hy0)]

/-- A node an operation destroys is not the root, leaves no attached child and is on no
chain. -/
theorem destroyed_spec {f g : Fuse} {p : Ptr} {n : Node} (hf : Inv f) (hg : Inv g)
    (hs : f.Shrinks g ∨ f.Grows g) (hp : f.heap p = some n) (hgp : g.heap p = none) :
    n.nodeid ≠ rootId ∧ children g n.nodeid = 0 ∧ ∀ b, p ∉ g.idTable b ∧ p ∉ g.nameTable b := by
  have hgone : ∀ x y, g.heap x = some y → y.nodeid ≠ n.nodeid := fun x y hx e => by
    rcases hs with hs | hs
    · obtain ⟨y0, hy0, e0⟩ := hs.live x y hx
      obtain rfl := hf.index.idUnique hy0 hp (e0.symm.trans e)
      rw [hgp] at hx; cases hx
    · obtain ⟨y, hy, -⟩ := hs p n hp
      rw [hgp] at hy; cases hy
  refine ⟨fun e => ?_, hg.children_eq_zero (hf.index.nonzero hp) hgone, fun b => ⟨fun hm => ?_, fun hm => ?_⟩⟩
  · obtain ⟨r, z, hz, h1, -⟩ := hg.refs.root
    exact hgone r z hz (h1.trans e.symm)
  · obtain ⟨m, hm, -⟩ := (hg.index.idMem b p).1 hm; rw [hgp] at hm; cases hm
  · obtain ⟨m, -, hm, -⟩ := (hg.index.nameMem b p).1 hm; rw [hgp] at hm; cases hm

/-- The directory with one file, `a`, under the root: the root and one LOOKUP. -/
def dirA : Fuse :=
  match (DirOp.find rootId [97] 0 1 true true).run (fuseNew {}) with
  | .ok g => g
  | .error _ => fuseNew {}

theorem reachable_dirA : Reachable dirA :=
  .step (.find rootId [97] 0 1 true true) (.init {})
    ⟨⟨0, rootNode, rfl, rfl, rootNode_not_forgotten⟩, by decide⟩ rfl

/-- `dirA` with a directory `b` made under the root: node 3, at address 2. -/
def dirAB : Fuse :=
  match (DirOp.find rootId [98] 0 2 true true).run dirA with
  | .ok g => g
  | .error _ => dirA

theorem reachable_dirAB : Reachable dirAB :=
  .step (.find rootId [98] 0 2 true true) reachable_dirA ⟨⟨0, _, rfl, rfl, by decide⟩, by decide⟩ rfl

/-! ## The reference counts -/

/-- **The reference counts are exact, and the directory never aborts.** In every reachable
state a live node's count is the number of attached nodes below it, plus one unless the
kernel has forgotten it, so at least 1; a forgotten node is detached; the parent of an
attached node is live; the root is there. Every allowed operation ends normally or waits
in `next_id`, and a node it destroys is not the root, leaves no child and is on no chain. -/
theorem refcount_invariant {f : Fuse} (hf : Reachable f) :
    (∀ p n, f.heap p = some n →
      n.refctr = children f n.nodeid + (if n.Forgotten then 0 else 1) ∧ 1 ≤ n.refctr) ∧
    (∀ p n, f.heap p = some n → n.Forgotten → n.name = none) ∧
    (∀ p n, f.heap p = some n → n.name.isSome → n.nodeid ≠ rootId →
      ∃ q m, f.heap q = some m ∧ m.nodeid = n.parent) ∧
    (∃ r n, f.heap r = some n ∧ n.nodeid = rootId ∧ n.name = some [47] ∧ n.parent = 0) ∧
    ∀ o : DirOp, o.Allowed f → (o.run f = .error .nextIdHangs ∨ ∃ g, o.run f = .ok g) ∧
      ∀ g, o.run f = .ok g → ∀ p n, f.heap p = some n → g.heap p = none →
        n.nodeid ≠ rootId ∧ children g n.nodeid = 0 ∧ ∀ b, p ∉ g.idTable b ∧ p ∉ g.nameTable b := by
  have h := hf.inv
  refine ⟨fun p n hp => ⟨by simpa [Node.selfRef] using h.refs.count hp,
    by have := h.refs.positive hp; omega⟩, fun p n hp hfg => ?_, fun p n hp => h.refs.parentLive hp,
    h.refs.root, fun o ho => ⟨?_, fun g hrun p n hp hgp => ?_⟩⟩
  · rcases h.refs.forgotten hp hfg with hn | hn
    exacts [hn, absurd hn (Int.lt_irrefl 0)]
  · rcases DirOp.step_spec h ho with he | ⟨g, hg, -⟩
    exacts [.inl he, .inr ⟨g, hg⟩]
  · obtain ⟨hg, hs, -⟩ := DirOp.run_inv h ho hrun
    exact destroyed_spec h hg hs hp hgp

theorem refcount_invariant_dirA : Reachable dirA ∧ (dirA.heap 0).map Node.refctr = some 2 ∧
    ∀ p n, dirA.heap p = some n →
      n.refctr = children dirA n.nodeid + (if n.Forgotten then 0 else 1) ∧ 1 ≤ n.refctr :=
  ⟨reachable_dirA, rfl, (refcount_invariant reachable_dirA).1⟩

/-! ## The indices -/

/-- **The tables index the directory exactly.** In every reachable state attached nodes have
distinct keys; an attached non-root node is linked once, in the name bucket of its key, and a
detached node in none; a live node is linked once, in the id bucket of its id; ids are
distinct. So `lookup_node` finds the attached node with the key asked for, for every parent
id a request can name, and `get_node_nocheck` the live node with the id asked for. -/
theorem index_consistent {f : Fuse} (hf : Reachable f) :
    (∀ p q n m, f.heap p = some n → f.heap q = some m → n.name.isSome →
      n.name = m.name → n.parent = m.parent → p = q) ∧
    (∀ p n s b, f.heap p = some n → n.nodeid ≠ rootId → n.name = some s →
      (f.nameTable b).count p = if b = nameHash n.parent s then 1 else 0) ∧
    (∀ p n b, f.heap p = some n → n.name = none → p ∉ f.nameTable b) ∧
    (∀ p n b, f.heap p = some n →
      (f.idTable b).count p = if b = n.nodeid % idTableSize then 1 else 0) ∧
    (∀ p q n m, f.heap p = some n → f.heap q = some m → n.nodeid = m.nodeid → p = q) ∧
    (∀ parent name q, parent ≠ 0 → (lookupNode f parent name = some q ↔
      ∃ n, f.heap q = some n ∧ n.parent = parent ∧ n.name = some name)) ∧
    (∀ id q, getNodeNocheck f id = some q ↔ ∃ n, f.heap q = some n ∧ n.nodeid = id) := by
  have h := hf.inv
  refine ⟨fun p q n m => h.index.keyUnique, fun p n s b hp hr hs => count_nameTable h.index hp hr hs b,
    fun p n b hp hn => h.index.not_mem_name hp hn b, fun p n b hp => count_idTable h.index hp b,
    fun p q n m => h.index.idUnique, fun parent name q h0 => ?_,
    fun id q => getNodeNocheck_eq_some h.index⟩
  rw [lookupNode_eq_some h.index]
  constructor
  · rintro ⟨n, hq, -, hpar, hn⟩; exact ⟨n, hq, hpar, hn⟩
  · rintro ⟨n, hq, hpar, hn⟩
    refine ⟨n, hq, fun hr => h0 ?_, hpar, hn⟩
    rw [← hpar, (h.root_eq hq hr).2]

theorem index_consistent_dirA : Reachable dirA ∧ lookupNode dirA rootId [97] = some 1 ∧
    ∀ parent name q, parent ≠ 0 → (lookupNode dirA parent name = some q ↔
      ∃ n, dirA.heap q = some n ∧ n.parent = parent ∧ n.name = some name) :=
  ⟨reachable_dirA, rfl, (index_consistent reachable_dirA).2.2.2.2.2.1⟩

/-- The root is attached under the key `(0, "/")` (fuse.c:2206-2217), but `fuse_new_common`
never hashes its name, so `lookup_node(f, 0, "/")` finds nothing. -/
theorem lookupNode_root_key : Reachable dirA ∧
    (∃ n, dirA.heap 0 = some n ∧ n.parent = 0 ∧ n.name = some [47]) ∧ lookupNode dirA 0 [47] = none :=
  ⟨reachable_dirA, ⟨_, rfl, rfl, rfl⟩, rfl⟩

end FuseCore
