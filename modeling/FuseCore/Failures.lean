import FuseCore.Handlers

/-!
# Failed directory operations (fuse.c:239-252, :296-335, :442-476)

`find_node` returns NULL when `calloc` or `strdup` fails; `rename_node` returns `-EBUSY` when
the hidden name it is asked for is taken, and `-ENOMEM` when `strdup` fails in `hash_name`.

The first two leave the directory as it was: both tables and every node record are unchanged,
and only `ctr`, `generation` and the allocator may have moved
(`failures_keep_directory`). The third does not. `rename_node` unhashes the node at the
target, if any, and then the source, before `hash_name` fails, so the source is left
detached, and its old parent has lost the reference the name held
(`rename_nomem_detaches`).
-/

namespace FuseCore

/-- A new key under a parent no live node has: `hash_name` aborts in `get_node`. -/
theorem findNode_orphan {f : Fuse} {parent : Nat} {name : Name} {id g : Nat} (hI : IndexInv f)
    (hl : lookupNode f parent name = none) (hq : getNodeNocheck f parent = none)
    (hid : nextIdLoop f (2 ^ nodeidBits) f.ctr f.generation = some (id, g)) (ino version : Nat) :
    findNode f parent name ino version true true = .error (.nodeNotFound parent) := by
  simp [findNode, hl, Fuse.calloc, Fuse.node, nextId, Fuse.setNode, nextIdLoop_calloc hI, hid,
    hashName, getNode, getNodeNocheck_fresh hI, hq]

/-- `find_node` returns NULL only when `calloc` or `strdup` failed, and then only the counters
and the allocator moved. -/
theorem findNode_none {f : Fuse} {parent : Nat} {name : Name} {ino version : Nat}
    {callocOk strdupOk : Bool} {g : Fuse} (hI : IndexInv f)
    (h : findNode f parent name ino version callocOk strdupOk = .ok (none, g)) :
    ∃ a c gen, g = { f with nextPtr := a, ctr := c, generation := gen } := by
  cases hl : lookupNode f parent name with
  | some p =>
    obtain ⟨n, hp, -⟩ := (lookupNode_eq_some hI).1 hl
    rw [findNode_hit hl hp] at h
    cases h
  | none =>
    cases callocOk with
    | false =>
      rw [findNode_nomem hl] at h
      cases h
      exact ⟨_, _, _, rfl⟩
    | true =>
      cases hid : nextIdLoop f (2 ^ nodeidBits) f.ctr f.generation with
      | none => rw [findNode_hang hI hl hid] at h; cases h
      | some r =>
        obtain ⟨id, gen⟩ := r
        cases strdupOk with
        | false =>
          rw [findNode_nostr hI hl hid] at h
          cases h
          exact ⟨_, _, _, rfl⟩
        | true =>
          cases hq : getNodeNocheck f parent with
          | none => rw [findNode_orphan hI hl hq hid] at h; cases h
          | some q =>
            obtain ⟨m, hm, -⟩ := getNodeNocheck_some hq
            rw [findNode_fresh hI hl hq hm hid] at h
            cases h

/-- `rename_node` returns `-EBUSY` only before it writes anything. -/
theorem renameNode_busy {f g : Fuse} {olddir newdir : Nat} {oldname newname : Name}
    {hide strdupOk : Bool}
    (h : renameNode f olddir oldname newdir newname hide strdupOk = .ok (- EBUSY, g)) : g = f := by
  unfold renameNode at h
  cases hl : lookupNode f olddir oldname with
  | none => simp [hl, pure, Except.pure, EBUSY] at h
  | some p =>
    simp only [hl] at h
    by_cases hb : hide = true ∧ (lookupNode f newdir newname).isSome = true
    · rw [if_pos hb] at h; cases h; rfl
    · -- every later exit returns 0 or `-ENOMEM`
      rw [if_neg hb] at h
      simp only [bind, Except.bind, pure, Except.pure] at h
      repeat' split at h
      all_goals simp [EBUSY, ENOMEM] at h

/-- **A NULL `find_node` and an `-EBUSY` rename change nothing.** In every reachable state,
when `find_node` returns NULL the result differs from the state only in `ctr`, `generation`
and the allocator, so both tables and every node's record are as before; when
`rename_node` returns `-EBUSY` the state is exactly as before. -/
theorem failures_keep_directory {f : Fuse} (hf : Reachable f) :
    (∀ parent name ino version callocOk strdupOk g,
      findNode f parent name ino version callocOk strdupOk = .ok (none, g) →
      ∃ a c gen, g = { f with nextPtr := a, ctr := c, generation := gen }) ∧
    (∀ olddir oldname newdir newname hide strdupOk g,
      renameNode f olddir oldname newdir newname hide strdupOk = .ok (- EBUSY, g) → g = f) :=
  ⟨fun _ _ _ _ _ _ _ h => findNode_none hf.inv.index h, fun _ _ _ _ _ _ _ h => renameNode_busy h⟩

theorem failures_keep_directory_dirAB :
    Reachable dirAB ∧ lookupNode dirAB rootId [97] = some 1 ∧ lookupNode dirAB rootId [98] = some 2 ∧
      (∃ g, findNode dirAB rootId [99] 0 3 true false = .ok (none, g) ∧
        ∃ a c gen, g = { dirAB with nextPtr := a, ctr := c, generation := gen }) ∧
      ∃ g, renameNode dirAB rootId [97] rootId [98] true true = .ok (- EBUSY, g) ∧ g = dirAB :=
  have h := failures_keep_directory reachable_dirAB
  ⟨reachable_dirAB, rfl, rfl, ⟨_, rfl, h.1 rootId [99] 0 3 true false _ rfl⟩, _, rfl,
    h.2 rootId [97] rootId [98] true true _ rfl⟩

/-- **A failed `strdup` in a rename detaches the source.** In the directory holding the file
"a", renaming it to "b" when `strdup` fails returns `-ENOMEM` with node "a" left without a
name, found under neither name, and the root's reference count down by one. -/
theorem rename_nomem_detaches :
    Reachable dirA ∧ (dirA.heap 1).map Node.name = some (some [97]) ∧
      (dirA.heap 0).map Node.refctr = some 2 ∧
    ∃ g, renameNode dirA rootId [97] rootId [98] false false = .ok (- ENOMEM, g) ∧
      (g.heap 1).map Node.name = some none ∧ (g.heap 0).map Node.refctr = some 1 ∧
      lookupNode g rootId [97] = none ∧ lookupNode g rootId [98] = none :=
  ⟨reachable_dirA, rfl, rfl, _, rfl, rfl, rfl, rfl, rfl⟩

end FuseCore
