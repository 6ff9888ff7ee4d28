import FuseCore.Table

/-!
# Operations of the node directory (fuse.c:296-476, :2164-2220)

`find_node` creates or refreshes the node of a key, `forget_node`/`forget_node_old` drop the
kernel's lookups, `remove_node` and `rename_node` follow UNLINK, RMDIR and RENAME. Each runs
under `f->lock`, so each is one atomic transition of the directory. What the environment
decides is an argument: whether `calloc` and `strdup` succeed, the request's `unique` (used
as the version), the negotiated major.

`Reachable` is every state `fuse_new_common` can lead to through these operations, when the
kernel keeps its side of the protocol (`DirOp.Allowed`): a node it names is live and not
forgotten, a FORGET count is between 1 and `nlookup`, a request's `unique` is nonzero, and
a rename target directory is live.
-/

namespace FuseCore

/-- Record one more kernel lookup, the common tail of `find_node` (fuse.c:330). -/
def refreshNode (f : Fuse) (p : Ptr) (version : Nat) : Except Fault Fuse := do
  let n ← f.node p
  pure (f.setNode p { n with version := version, nlookup := n.nlookup + 1 })

/-- Create or refresh the node of `(parent, name)`, `find_node` (fuse.c:296). Returns the
node and the `ino` the reply's attributes get (`nodeid` unless `use_ino`), or NULL when
`calloc` or `strdup` fails. -/
def findNode (f : Fuse) (parent : Nat) (name : Name) (ino version : Nat)
    (callocOk strdupOk : Bool) : Except Fault (Option (Ptr × Nat) × Fuse) := do
  match lookupNode f parent name with
  | some p =>
    let n ← f.node p
    let f ← refreshNode f p version
    pure (some (p, if f.flags.useIno then ino else n.nodeid), f)
  | none =>
    if !callocOk then return (none, f)
    let (p, f) := f.calloc
    let n ← f.node p
    let f := f.setNode p { n with refctr := 1 }
    let (id, f) ← nextId f
    let n ← f.node p
    let f := f.setNode p
      { n with nodeid := id, openCount := 0, isHidden := false, generation := f.generation % 2 ^ 32 }
    let (r, f) ← hashName f p parent name strdupOk
    if r = -1 then return (none, f.freeNode p)
    let f ← hashId f p
    let f ← refreshNode f p version
    pure (some (p, if f.flags.useIno then ino else id), f)

/-- Drop `nlookup` kernel lookups, `forget_node` (fuse.c:393): at zero the node is detached
and its own reference dropped. The root is never forgotten. -/
def forgetNode (f : Fuse) (nodeid nlookup : Nat) : Except Fault Fuse := do
  if nodeid = rootId then return f
  let p ← getNode f nodeid
  let n ← f.node p
  if n.nlookup < nlookup then throw .forgetNode
  let f := f.setNode p { n with nlookup := n.nlookup - nlookup }
  if n.nlookup - nlookup = 0 then
    let f ← unhashName f p
    unrefNode f p
  else pure f

/-- The legacy FORGET, `forget_node_old` (fuse.c:409): forget the node only if `version` is
the one its last lookup left. -/
def forgetNodeOld (f : Fuse) (nodeid version : Nat) : Except Fault Fuse := do
  match getNodeNocheck f nodeid with
  | none => pure f
  | some p =>
    let n ← f.node p
    if n.version = version ∧ nodeid ≠ rootId then
      let f := f.setNode p { n with version := 0 }
      let f ← unhashName f p
      unrefNode f p
    else pure f

/-- Undo a lookup whose reply the kernel did not take, `cancel_lookup` (fuse.c:422). -/
def cancelLookup (f : Fuse) (nodeid version : Nat) : Except Fault Fuse :=
  if f.major ≤ 6 then forgetNodeOld f nodeid version else forgetNode f nodeid 1

/-- Detach the node of `(dir, name)` if there is one, `remove_node` (fuse.c:431). -/
def removeNode (f : Fuse) (dir : Nat) (name : Name) : Except Fault Fuse :=
  match lookupNode f dir name with
  | some p => unhashName f p
  | none => pure f

/-- Re-key a node, `rename_node` (fuse.c:442). A node already at the target is detached,
unless `hide` is asked for: then the rename fails with `-EBUSY`. A failing `strdup` leaves
the source detached and returns `-ENOMEM`. -/
def renameNode (f : Fuse) (olddir : Nat) (oldname : Name) (newdir : Nat) (newname : Name)
    (hide strdupOk : Bool) : Except Fault (Int × Fuse) := do
  let newnode := lookupNode f newdir newname
  let some p := lookupNode f olddir oldname | return (0, f)
  if hide ∧ newnode.isSome then return (-EBUSY, f)
  let f ← match newnode with
    | some q => unhashName f q
    | none => pure f
  let f ← unhashName f p
  let (r, f) ← hashName f p newdir newname strdupOk
  if r = -1 then return (-ENOMEM, f)
  if hide then
    let n ← f.node p
    return (0, f.setNode p { n with isHidden := true })
  pure (0, f)

/-- The root node `fuse_new_common` builds (fuse.c:2205-2215): name "/", parent 0, one
reference and one lookup. -/
def rootNode : Node :=
  { nodeid := rootId, generation := 0, refctr := 1, parent := 0, name := some [47],
    version := 0, nlookup := 1, openCount := 0, isHidden := false }

/-- The directory `fuse_new_common` returns when its allocations succeed: the root alone,
at the first address, in the id table only. -/
def fuseNew (flags : Flags) : Fuse :=
  { heap := Function.update (fun _ => none) 0 (some rootNode), nextPtr := 1,
    nameTable := fun _ => [], idTable := Function.update (fun _ => []) (rootId % idTableSize) [0],
    ctr := 0, generation := 0, hidectr := 0, major := 0, flags := flags }

end FuseCore
