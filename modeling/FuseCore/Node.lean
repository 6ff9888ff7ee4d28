import Mathlib.Logic.Function.Basic
import Mathlib.Data.List.Basic
import Mathlib.Algebra.Order.Ring.Nat

/-!
# The node directory's state: `struct node` and `struct fuse` (fuse.c:58-70, :2164-2220)

A node is a heap object: the two hash tables hold *pointers*, and two table entries name the
same node exactly when they hold the same pointer. So the heap is a partial map from
addresses to `Node` records, and `calloc` hands out the next unused address. The chain links
`name_next`/`id_next` are the bucket lists `nameTable b`/`idTable b`, head first.

Counters are `Nat`s. `ctr` is a `nodeid_t` and wraps at `2 ^ 64` where `next_id` increments
it. `generation` counts the wraps of `ctr`; a node keeps it in an `unsigned int`, so it is
stored modulo `2 ^ 32`. `nlookup` and `version` are `uint64_t` and never wrap here: that
would take `2 ^ 64` requests. `refctr` and `open_count` are `int` and may go negative, which
is what the assertions in `unref_node` and `do_release` guard.

Reading or writing through a pointer to a freed node is undefined in C; the model reports it
as the fault `useAfterFree`, next to the aborts and failed assertions of the source.
-/

namespace FuseCore

/-- A C string as the kernel passes it: its bytes, without the terminating NUL. -/
abbrev Name := List UInt8

/-- The root's id, `FUSE_ROOT_ID`. -/
def rootId : Nat := 1

/-- Both tables get 14057 buckets in `fuse_new_common` (fuse.c:2180, :2188). -/
def nameTableSize : Nat := 14057

def idTableSize : Nat := 14057

/-- The width of `nodeid_t`, an `unsigned long`: 64 bits. -/
def nodeidBits : Nat := 64

/-- The errno values the core returns (Linux numbering). -/
def ENOENT : Int := 2
def EIO : Int := 5
def ENOMEM : Int := 12
def EACCES : Int := 13
def EBUSY : Int := 16
def ERANGE : Int := 34
def ENOSYS : Int := 38
def EPROTO : Int := 71

/-! ## Computations in `Except` -/

section Except
variable {ε α β : Type}

@[simp] theorem ok_bind (a : α) (g : α → Except ε β) : (Except.ok a >>= g) = g a := rfl
@[simp] theorem error_bind (e : ε) (g : α → Except ε β) : (Except.error e >>= g) = .error e := rfl
@[simp] theorem pure_eq_ok (a : α) : (pure a : Except ε α) = .ok a := rfl
@[simp] theorem throw_eq_error (e : ε) : (throw e : Except ε α) = .error e := rfl
@[simp] theorem map_ok (g : α → β) (a : α) : (g <$> (Except.ok a : Except ε α)) = .ok (g a) := rfl

end Except

/-- What stops the process: the `abort()`s and `assert`s of the source, a `next_id` that
never returns, and a use of freed memory. -/
inductive Fault where
  /-- The abort in `get_node`: "fuse internal error: node %lu not found" (fuse.c:171). -/
  | nodeNotFound (nodeid : Nat)
  /-- The abort in `unhash_name`: "unable to unhash node" (fuse.c:233). -/
  | unhashName (nodeid : Nat)
  /-- The assertion `node->refctr > 0` in `unref_node` (fuse.c:266). -/
  | unrefNode
  /-- The assertion `!node->name` in `delete_node` (fuse.c:259). -/
  | deleteNode
  /-- The assertion `node->nlookup >= nlookup` in `forget_node` (fuse.c:400). -/
  | forgetNode
  /-- The assertion `node->open_count > 0` in `do_release` (fuse.c:1170). -/
  | release
  /-- The loop of `next_id` never ends: every nonzero id is taken. -/
  | nextIdHangs
  /-- The inner loop of `hidden_name` never ends: every hidden name of the node is taken. -/
  | hiddenNameHangs
  /-- A freed node is read or written. -/
  | useAfterFree
  deriving DecidableEq, Repr

/-- The record of `struct node` (fuse.c:58) without its chain links. -/
structure Node where
  nodeid : Nat
  generation : Nat
  refctr : Int
  parent : Nat
  name : Option Name
  version : Nat
  nlookup : Nat
  openCount : Int
  isHidden : Bool
  deriving DecidableEq, Repr, Inhabited

/-- A heap address. -/
abbrev Ptr := Nat

/-- The library options (`FUSE_HARD_REMOVE` … `FUSE_READDIR_INO`, fuse.c:30-41); `debug`
only prints and is left out. -/
structure Flags where
  hardRemove : Bool := false
  useIno : Bool := false
  allowRoot : Bool := false
  readdirIno : Bool := false
  deriving DecidableEq, Repr

/-- The fields of `struct fuse` the core reads and writes, with the node heap. -/
@[ext] structure Fuse where
  heap : Ptr → Option Node
  nextPtr : Ptr
  nameTable : Nat → List Ptr
  idTable : Nat → List Ptr
  ctr : Nat
  generation : Nat
  hidectr : Nat
  major : Nat
  flags : Flags

namespace Fuse

/-- Read through a node pointer. -/
def node (f : Fuse) (p : Ptr) : Except Fault Node :=
  match f.heap p with
  | some n => .ok n
  | none => .error .useAfterFree

/-- Write a node record through a pointer. -/
def setNode (f : Fuse) (p : Ptr) (n : Node) : Fuse :=
  { f with heap := Function.update f.heap p (some n) }

/-- Release a node's memory, `free(node)`. -/
def freeNode (f : Fuse) (p : Ptr) : Fuse :=
  { f with heap := Function.update f.heap p none }

/-- Allocate a zeroed node at the next unused address, `calloc(1, sizeof(struct node))`. -/
def calloc (f : Fuse) : Ptr × Fuse :=
  (f.nextPtr, { f with heap := Function.update f.heap f.nextPtr (some default),
                       nextPtr := f.nextPtr + 1 })

@[simp] theorem node_eq_ok {f : Fuse} {p : Ptr} {n : Node} : f.node p = .ok n ↔ f.heap p = some n := by
  unfold node; split <;> simp_all


@[simp] theorem setNode_heap (f : Fuse) (p : Ptr) (n : Node) :
    (f.setNode p n).heap = Function.update f.heap p (some n) := rfl
@[simp] theorem freeNode_heap (f : Fuse) (p : Ptr) :
    (f.freeNode p).heap = Function.update f.heap p none := rfl

section Frame
variable (f : Fuse) (p : Ptr) (n : Node)
@[simp] theorem setNode_nextPtr : (f.setNode p n).nextPtr = f.nextPtr := rfl
@[simp] theorem setNode_nameTable : (f.setNode p n).nameTable = f.nameTable := rfl
@[simp] theorem setNode_idTable : (f.setNode p n).idTable = f.idTable := rfl
@[simp] theorem setNode_ctr : (f.setNode p n).ctr = f.ctr := rfl
@[simp] theorem setNode_generation : (f.setNode p n).generation = f.generation := rfl
@[simp] theorem setNode_hidectr : (f.setNode p n).hidectr = f.hidectr := rfl
@[simp] theorem setNode_major : (f.setNode p n).major = f.major := rfl
@[simp] theorem setNode_flags : (f.setNode p n).flags = f.flags := rfl
@[simp] theorem freeNode_nextPtr : (f.freeNode p).nextPtr = f.nextPtr := rfl
@[simp] theorem freeNode_nameTable : (f.freeNode p).nameTable = f.nameTable := rfl
@[simp] theorem freeNode_idTable : (f.freeNode p).idTable = f.idTable := rfl
@[simp] theorem freeNode_ctr : (f.freeNode p).ctr = f.ctr := rfl
@[simp] theorem freeNode_generation : (f.freeNode p).generation = f.generation := rfl
@[simp] theorem freeNode_hidectr : (f.freeNode p).hidectr = f.hidectr := rfl
@[simp] theorem freeNode_major : (f.freeNode p).major = f.major := rfl
@[simp] theorem freeNode_flags : (f.freeNode p).flags = f.flags := rfl
end Frame

end Fuse

/-! ## `name_hash` (fuse.c:206) -/

/-- A `char` of a name promoted to `unsigned int`. `char` is signed on the x86 targets FUSE
was built for, so bytes from 128 up are sign-extended. -/
def charToUInt (c : UInt8) : Nat :=
  if c.toNat < 128 then c.toNat else c.toNat + (2 ^ 32 - 256)

/-- The bucket of a key, `name_hash`: `hash = (hash << 5) - hash + c` in `unsigned int`,
started from the first character; then `hash + parent` in `unsigned long`, modulo the table
size. -/
def nameHash (parent : Nat) (name : Name) : Nat :=
  let hash := match name with
    | [] => 0
    | c :: cs =>
      if charToUInt c = 0 then 0
      else cs.foldl (fun h d => (h * 31 + charToUInt d) % 2 ^ 32) (charToUInt c)
  ((hash + parent) % 2 ^ nodeidBits) % nameTableSize

end FuseCore
