import FuseCore.Reachable

/-!
# Interrupted replies (fuse.c:508-535, :635-705, :1077-1129)

A reply the kernel no longer waits for, because the request was interrupted, fails with
`ENOENT` (`send_reply_raw`, fuse.c:525). The handlers of LOOKUP, MKNOD, MKDIR, SYMLINK and
LINK then call `cancel_lookup` on the node `find_node` counted (`lookupReply`), and OPEN calls
the user's release instead of counting the open (`openReply`).

From a reachable state, under the modern protocol, and under the legacy one when the request
created its node, the cancelled request leaves the directory as it found it up to the nodes'
versions (`Fuse.SameDir`); the counters of `next_id` and the allocator may have moved
(`lookup_rollback`, stated with the OPEN handler in `FuseCore.LoopSafety`). Under the legacy protocol a request that found an existing node detaches it:
`find_node` stored the request's `unique` as the node's version, and `forget_node_old`
matches it (`lookupReply_legacy_hit`, `lookup_rollback_legacy`).
-/

namespace FuseCore

/-- The directory part of `do_lookup` (fuse.c:667) once `getattr` has succeeded, which
`do_mknod`, `do_mkdir`, `do_symlink` and `do_link` share after their own callback:
`lookup_path`'s `find_node` with the request's `unique` as version, then, when the reply's
write returned `res2 = -ENOENT`, `cancel_lookup` of the node found. A failed `find_node` is
replied as `-ENOMEM`, and nothing is cancelled. -/
def lookupReply (f : Fuse) (parent : Nat) (name : Name) (ino unique : Nat)
    (callocOk strdupOk : Bool) (res2 : Int) : Except Fault Fuse := do
  let (r, f) ← findNode f parent name ino unique callocOk strdupOk
  match r with
  | none => pure f
  | some (p, _) =>
    let n ← f.node p
    if res2 = -ENOENT then cancelLookup f n.nodeid unique else pure f

/-- The part of `do_open` (fuse.c:1103-1120) after the user's open succeeded, under
`f->lock`: the reply, whose write returned `res2`; on `-ENOENT` the user's release if the
filesystem has one, otherwise one more open of the node. Returns how many times the user's
release ran. -/
def openReply (f : Fuse) (nodeid : Nat) (hasRelease : Bool) (res2 : Int) :
    Except Fault (Nat × Fuse) :=
  if res2 = -ENOENT then pure (if hasRelease then 1 else 0, f)
  else do
    let p ← getNode f nodeid
    let n ← f.node p
    pure (0, f.setNode p { n with openCount := n.openCount + 1 })

/-- A node record without its `version`, the field a LOOKUP stores its `unique` in. -/
def Node.unversioned (n : Node) : Node := { n with version := 0 }

/-- Two states hold the same directory up to the nodes' versions: the same chains in both
tables, and at every address the same node record but for `version`. -/
structure Fuse.SameDir (f g : Fuse) : Prop where
  nameTable : g.nameTable = f.nameTable
  idTable : g.idTable = f.idTable
  heap : ∀ p, (g.heap p).map Node.unversioned = (f.heap p).map Node.unversioned

theorem Fuse.SameDir.refl (f : Fuse) : f.SameDir f := ⟨rfl, rfl, fun _ => rfl⟩

theorem Fuse.SameDir.setVersion {f : Fuse} {p : Ptr} {n : Node} (hp : f.heap p = some n) (v : Nat) :
    f.SameDir (f.setNode p { n with version := v }) :=
  ⟨rfl, rfl, fun x => by by_cases hx : x = p <;> simp [hx, hp, Node.unversioned]⟩

/-! ## A node the request created -/

/-- Detaching and dropping the node `find_node` has just created, under either protocol,
gives the parent its reference back and leaves the directory `find_node` started from. -/
theorem freshState_cancelTail {f : Fuse} {parent : Nat} {name : Name} {q : Ptr} {m : Node}
    {id g unique : Nat} (h : Inv f) (hpar : Held f parent) (hl : lookupNode f parent name = none)
    (hv : unique ≠ 0) (hq : getNodeNocheck f parent = some q) (hm : f.heap q = some m)
    (hid : nextIdLoop f (2 ^ nodeidBits) f.ctr f.generation = some (id, g)) (N2 : Node)
    (hk : N2.key = (id, some name, parent)) (hr : N2.refctr = 1) :
    ∃ g', (unhashName ((freshState f parent name q m id g unique).setNode f.nextPtr N2) f.nextPtr >>=
      fun f' => unrefNode f' f.nextPtr) = .ok g' ∧ f.SameDir g' := by
  set fs := freshState f parent name q m id g unique
  have hfs := (h.findFresh hpar hl hv hq hm hid).1
  have hpq : f.nextPtr ≠ q := Nat.ne_of_gt (h.index.bounded hm)
  have hqm : m.nodeid = parent := by
    obtain ⟨m', hm', e⟩ := (getNodeNocheck_eq_some h.index).1 hq
    rw [hm, Option.some.injEq] at hm'; subst hm'; exact e
  obtain ⟨hk1, hk2, hk3⟩ : N2.nodeid = id ∧ N2.name = some name ∧ N2.parent = parent := by
    simpa [Node.key] using hk
  have hnew : fs.heap f.nextPtr = some { newNode id g with
      name := some name, parent := parent, version := unique, nlookup := 1 } := by
    rw [freshState_heap hpq, if_pos rfl]
  have hI2 := hfs.index.of_sameIndex (SameIndex.setNode hnew N2 (by simp [Node.key, hk1, hk2, hk3, newNode]))
  obtain ⟨-, hnone⟩ := nextIdLoop_fresh hid
  have hnr : id ≠ rootId := fun e => by
    obtain ⟨r, z, hz, h1, -⟩ := h.refs.root
    exact (getNodeNocheck_eq_none h.index).1 hnone r z hz (h1.trans e.symm)
  have hpos := h.refs.positive hm
  have hq1 : fs.heap q = some { m with refctr := m.refctr + 1 } := by
    rw [freshState_heap hpq, if_neg (Ne.symm hpq)]; simp
  -- `unhash_name` detaches the node and gives the parent its reference back
  have hp2 : (fs.setNode f.nextPtr N2).heap f.nextPtr = some N2 := by simp
  have hm3 : ((fs.setNode f.nextPtr N2).detach f.nextPtr N2 name).heap q =
      some { m with refctr := m.refctr + 1 } := by simp [Fuse.detach, Ne.symm hpq, hq1]
  rw [unhashName_eq hp2 hk2 ((hI2.nameMem _ _).2 ⟨N2, name, hp2, hk1 ▸ hnr, hk2, rfl⟩)
    ((getNodeNocheck_eq_some hI2).2 ⟨{ m with refctr := m.refctr + 1 }, by simp [Ne.symm hpq, hq1],
      hqm.trans hk3.symm⟩) hm3 (show 0 < m.refctr + 1 by omega)
    (fun e => absurd (show m.refctr + 1 = 1 from e) (by omega)), ok_bind]
  -- and `unref_node` destroys it
  have hp3 : (((fs.setNode f.nextPtr N2).detach f.nextPtr N2 name).dropRef q
      { m with refctr := m.refctr + 1 }).heap f.nextPtr = some { N2 with name := none, parent := 0 } := by
    rw [Fuse.dropRef_heap_ne hpq]; simp
  rw [unrefNode_eq hp3 (by simp [hr]) fun _ => rfl]
  rw [Fuse.dropRef_of_one (by simpa using hr), Fuse.dropRef_of_ne (show m.refctr + 1 ≠ 1 by omega)]
  refine ⟨_, rfl, ⟨?_, ?_, fun x => ?_⟩⟩
  · simp [Fuse.detach, fs, freshState_nameTable, hk3]
  · simp [hk1, Fuse.detach, fs, freshState_idTable]
  · by_cases hx : x = f.nextPtr
    · subst hx; simp [h.index.nextPtr_free]
    · by_cases hxq : x = q
      · subst hxq; simp [hx, Fuse.detach, hm, Node.unversioned]
      · simp [hx, hxq, Fuse.detach, fs, freshState_heap hpq]

/-- A LOOKUP that creates its node and whose reply is interrupted ends where it started. -/
theorem lookupReply_fresh {f : Fuse} {parent : Nat} {name : Name} {ino unique : Nat}
    (h : Inv f) (hpar : Held f parent) (hl : lookupNode f parent name = none) (hv : unique ≠ 0) :
    lookupReply f parent name ino unique true true (-ENOENT) = .error .nextIdHangs ∨
      ∃ g, lookupReply f parent name ino unique true true (-ENOENT) = .ok g ∧ f.SameDir g := by
  cases hid : nextIdLoop f (2 ^ nodeidBits) f.ctr f.generation with
  | none => exact .inl (by simp [lookupReply, findNode_hang h.index hl hid])
  | some c =>
  obtain ⟨id, g⟩ := c
  have ⟨q, m, hm, hqm, _⟩ := hpar
  have hq : getNodeNocheck f parent = some q := (getNodeNocheck_eq_some h.index).2 ⟨m, hm, hqm⟩
  have hpq : f.nextPtr ≠ q := Nat.ne_of_gt (h.index.bounded hm)
  have hfs := (h.findFresh hpar hl hv hq hm hid).1
  have hnew := @freshState_heap f parent name q m id g unique hpq f.nextPtr
  rw [if_pos rfl] at hnew
  have hget : getNodeNocheck (freshState f parent name q m id g unique) id = some f.nextPtr :=
    (getNodeNocheck_eq_some hfs.index).2 ⟨_, hnew, rfl⟩
  obtain ⟨-, hnone⟩ := nextIdLoop_fresh hid
  have hnr : id ≠ rootId := fun e => by
    obtain ⟨r, z, hz, h1, -⟩ := h.refs.root
    exact (getNodeNocheck_eq_none h.index).1 hnone r z hz (h1.trans e.symm)
  have hmaj : (freshState f parent name q m id g unique).major = f.major := rfl
  right
  by_cases h6 : f.major ≤ 6
  · obtain ⟨g', hg', hs⟩ := freshState_cancelTail h hpar hl hv hq hm hid { newNode id g with
      name := some name, parent := parent, version := 0, nlookup := 1 } rfl rfl
    refine ⟨g', ?_, hs⟩
    simp [lookupReply, findNode_fresh h.index hl hq hm hid, Fuse.node, hnew, cancelLookup, hmaj, h6,
      forgetNodeOld, hget, hnr, show (newNode id g).nodeid = id from rfl]
    exact hg'
  · obtain ⟨g', hg', hs⟩ := freshState_cancelTail h hpar hl hv hq hm hid { newNode id g with
      name := some name, parent := parent, version := unique, nlookup := 0 } rfl rfl
    refine ⟨g', ?_, hs⟩
    simp [lookupReply, findNode_fresh h.index hl hq hm hid, Fuse.node, hnew, cancelLookup, hmaj, h6,
      forgetNode, getNode, hget, hnr, show (newNode id g).nodeid = id from rfl]
    exact hg'

/-! ## A node the request found -/

/-- Under the modern protocol `cancel_lookup` takes back the one lookup `find_node` counted:
only the version the request stored stays. -/
theorem lookupReply_hit {f : Fuse} {parent : Nat} {name : Name} {ino unique : Nat}
    {callocOk strdupOk : Bool} {p : Ptr} (h : Inv f) (hl : lookupNode f parent name = some p)
    (h7 : 7 ≤ f.major) : ∃ n, f.heap p = some n ∧
      lookupReply f parent name ino unique callocOk strdupOk (-ENOENT) =
        .ok (f.setNode p { n with version := unique }) := by
  obtain ⟨n, hp, hr, -, hn⟩ := (lookupNode_eq_some h.index).1 hl
  have hnl : n.nlookup ≠ 0 := fun e => h.not_forgotten hp (by simp [hn]) ⟨hr, .inl e⟩
  have hget : getNodeNocheck (f.setNode p { n with version := unique, nlookup := n.nlookup + 1 })
      n.nodeid = some p := by
    rw [getNodeNocheck_setNode hp (by rfl)]; exact (getNodeNocheck_eq_some h.index).2 ⟨n, hp, rfl⟩
  refine ⟨n, hp, ?_⟩
  simp [lookupReply, findNode_hit hl hp, Fuse.node, cancelLookup, show ¬ f.major ≤ 6 by omega,
    forgetNode, hr, getNode, hget, hnl, Fuse.setNode_setNode]

/-- Under the legacy protocol a cancelled LOOKUP of an attached node detaches it:
`find_node` stored the request's `unique` as the version, and `forget_node_old` matches it. -/
theorem lookupReply_legacy_hit {f : Fuse} {parent : Nat} {name : Name} {ino unique : Nat}
    {callocOk strdupOk : Bool} {p : Ptr} (h : Inv f) (hl : lookupNode f parent name = some p)
    (hv : unique ≠ 0) (h6 : f.major ≤ 6) :
    ∃ g, lookupReply f parent name ino unique callocOk strdupOk (-ENOENT) = .ok g ∧
      ∀ n, g.heap p = some n → n.name = none := by
  obtain ⟨n, hp, hr, -, hn⟩ := (lookupNode_eq_some h.index).1 hl
  have hnf := h.not_forgotten hp (by simp [hn])
  have h1 := h.refresh hp hnf hv
  have hp1 : (f.setNode p { n with version := unique, nlookup := n.nlookup + 1 }).heap p =
      some { n with version := unique, nlookup := n.nlookup + 1 } := by simp
  have hget : getNodeNocheck (f.setNode p { n with version := unique, nlookup := n.nlookup + 1 })
      n.nodeid = some p := by
    rw [getNodeNocheck_setNode hp (by rfl)]; exact (getNodeNocheck_eq_some h.index).2 ⟨n, hp, rfl⟩
  -- `forget_node_old` matches the version just stored and marks the node forgotten
  obtain ⟨hI2, hR2⟩ := h1.forgetMark hp1 { n with version := 0, nlookup := n.nlookup + 1 } rfl rfl
    (fun hf => hf.2.elim (fun e => Nat.succ_ne_zero _ e) hv) ⟨hr, .inr rfl⟩
  obtain ⟨g2, hg2, hIg, hRg, hu⟩ :=
    @unhashName_spec _ _ p { n with version := 0, nlookup := n.nlookup + 1 } hI2 hR2 (by simp) hr
  obtain ⟨m, hm, hmn⟩ := hu.detached
  rw [Fuse.setNode_setNode] at hg2
  refine ⟨g2.dropRef p m, ?_, fun n' hn' => ?_⟩
  · simp [lookupReply, findNode_hit hl hp, Fuse.node, cancelLookup, h6, forgetNodeOld, hget, hr,
      Fuse.setNode_setNode, hg2, unrefNode_eq hm (hRg.positive hm) fun _ => hmn]
  · unfold Fuse.dropRef at hn'
    split at hn'
    · simp at hn'
    · simp only [Fuse.setNode_heap, Function.update_same, Option.some.injEq] at hn'
      rw [← hn']; exact hmn

/-! ## The rollback -/

theorem lookup_rollback_legacy :
    ∃ f g, Reachable f ∧ Held f rootId ∧ f.major = 5 ∧
      lookupReply f rootId [97] 0 7 true true (-ENOENT) = .ok g ∧ ¬ f.SameDir g := by
  have h0 : Reachable { fuseNew {} with major := 5 } := .step (.init 5) (.init {}) trivial rfl
  have hroot : { fuseNew {} with major := 5 }.heap 0 = some rootNode := rfl
  have hfresh := findNode_fresh h0.inv.index (show lookupNode _ 1 [97] = none by decide)
    (show getNodeNocheck _ 1 = some 0 by decide) hroot
    (show nextIdLoop _ (2 ^ nodeidBits) 0 0 = some (2, 0) by decide) 0 5
  have h1 : Reachable (freshState { fuseNew {} with major := 5 } 1 [97] 0 rootNode 2 0 5) :=
    .step (.find 1 [97] 0 5 true true) h0 ⟨⟨0, rootNode, hroot, rfl, rootNode_not_forgotten⟩, by decide⟩
      (by simp [DirOp.run, hfresh])
  obtain ⟨g, hg, hgp⟩ := @lookupReply_legacy_hit _ 1 [97] 0 7 true true 1 h1.inv (by decide)
    (by decide) (by decide)
  refine ⟨_, g, h1, ⟨0, { rootNode with refctr := 2 }, by decide, rfl, fun hf => hf.1 rfl⟩, rfl, hg,
    fun hs => ?_⟩
  have e := hs.heap 1
  cases hg1 : g.heap 1 with
  | none => rw [hg1] at e; exact absurd e (by decide)
  | some n =>
    rw [hg1] at e
    have := congrArg (Option.map Node.name) e
    simp [Node.unversioned, hgp n hg1] at this
    exact absurd this (by decide)

end FuseCore
