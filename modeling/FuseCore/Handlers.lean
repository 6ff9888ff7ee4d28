import FuseCore.Reachable

/-!
# The worker threads: OPEN, RELEASE, UNLINK and FORGET (fuse.c:343-384, :562-633, :913-941, :1077-1197, :2051-2056)

`fuse_loop_mt` hands each request to a worker thread; FORGET is handled by the reader itself,
inline. The handlers share the directory under two locks: `f->lock`, a mutex that every
directory operation and every read of a node takes, and `tree_lock`, a read-write lock that
UNLINK holds for writing across its whole run and OPEN and RELEASE hold for reading across
the part that uses paths.

A thread's handler is cut into steps at its lock operations: a block under `f->lock` is one
step, and so is a call of the user's filesystem. Only `do_open` holds `f->lock` from one step
to the next: it writes the reply and counts the new open file under the lock
(`Phase.openSent`). `Phase` says where a thread is, with what its handler has computed so far;
`Sys.runThread` is the step of a thread in a phase; `Step` adds the kernel, which sends OPEN
and UNLINK only for nodes it holds, and RELEASE and FORGET only for what it was given.

The kernel's side keeps the open files it holds per node (`Sys.handles`); the run's
bookkeeping counts the OPEN replies the kernel took, those whose write failed with an error
other than `ENOENT`, and the RELEASEs counted down (`delivered`, `failed`, `released`). The
user's filesystem is seen through what its callbacks return, chosen by the environment at
each step, and through the paths its `unlink` is called with (`Sys.unlinks`).

RELEASE decides under `f->lock` whether to unlink a hidden file and acts on it later, under
`tree_lock`, without looking again. Two schedules show what that allows: a RELEASE that counts
down before `hide_node` leaves a hidden file nobody unlinks (`hidden_file_left_behind`), and
an OPEN that completes in between has its file unlinked under it
(`unlink_under_open_handle`).
-/

namespace FuseCore

/-! ## Paths, `get_path_name` (fuse.c:335-384) -/

/-- `FUSE_MAX_PATH` (fuse.c:43). -/
def fuseMaxPath : Nat := 4096

/-- A path as `get_path_name` returns it: its bytes, without the terminating NUL. -/
abbrev Path := List UInt8

/-- `add_name` (fuse.c:335): put `"/" ++ name` in front of the `used` bytes built so far,
unless that reaches the start of the buffer. -/
def addName (used : Nat) (s : Path) (name : Name) : Option (Nat × Path) :=
  if fuseMaxPath - 1 ≤ used + name.length then none
  else some (used + name.length + 1, 47 :: (name ++ s))

/-- The loop of `get_path_name` (fuse.c:362-374), under `f->lock`: from the node with id
`nodeid` up to the root, a NULL path at a detached node or when the path is too long. Each
round adds at least one byte, so `add_name` ends the loop within `FUSE_MAX_PATH` rounds:
`fuel` is that bound. -/
def pathWalk (f : Fuse) : Nat → Nat → Nat × Path → Except Fault (Option Path)
  | 0, _, _ => pure none
  | fuel + 1, nodeid, (used, s) => do
    let p ← getNode f nodeid
    let n ← f.node p
    if n.nodeid = rootId then pure (some s) else
    match n.name with
    | none => pure none
    | some name =>
      match addName used s name with
      | none => pure none
      | some acc => pathWalk f fuel n.parent acc

/-- `get_path_name` (fuse.c:352): the path of `name` in the directory `nodeid`, or of the
node itself when there is no name; `none` for NULL. `strdupOk` says whether the `strdup` of the
path built, or of `"/"`, succeeds (fuse.c:383-385). -/
def getPathName (f : Fuse) (nodeid : Nat) (name : Option Name) (strdupOk : Bool) :
    Except Fault (Option Path) :=
  match name.elim (some (0, [])) (addName 0 []) with
  | none => pure none
  | some acc => do
    let r ← pathWalk f fuseMaxPath nodeid acc
    pure (if strdupOk then r.map fun s => if s = [] then [47] else s else none)

/-- `get_path` (fuse.c:388). -/
def getPath (f : Fuse) (nodeid : Nat) (strdupOk : Bool) : Except Fault (Option Path) :=
  getPathName f nodeid none strdupOk

/-! ## What the handlers compute under `f->lock` -/

/-- `is_open` (fuse.c:562): whether the node at `(dir, name)` has an open file. -/
def isOpen (f : Fuse) (dir : Nat) (name : Name) : Bool :=
  match (lookupNode f dir name).bind f.heap with
  | some n => decide (0 < n.openCount)
  | none => false

/-- A hex digit as `%x` prints it. -/
def hexDigit (d : Nat) : UInt8 := if d < 10 then (48 + d).toUInt8 else (87 + d).toUInt8

/-- `%08x` of an `unsigned int`. -/
def hex8 (x : Nat) : List UInt8 := (List.range 8).reverse.map fun i => hexDigit (x / 16 ^ i % 16)

/-- `".fuse_hidden%08x%08x"` of the node's id, cast to `unsigned int`, and the counter
(fuse.c:596). -/
def hiddenName (nodeid ctr : Nat) : Name :=
  [46, 102, 117, 115, 101, 95, 104, 105, 100, 100, 101, 110] ++ hex8 (nodeid % 2 ^ 32) ++ hex8 ctr

/-- The inner loop of `hidden_name` (fuse.c:594-599): step `hidectr`, an `unsigned int`,
until the node's hidden name is free in `dir`. It can only try the `2 ^ 32` values of the
counter: `fuel` is that bound. Returns the counter and the name. -/
def hiddenNameLoop (f : Fuse) (dir nodeid : Nat) : Nat → Nat → Option (Nat × Name)
  | 0, _ => none
  | fuel + 1, ctr =>
    let ctr := (ctr + 1) % 2 ^ 32
    if (lookupNode f dir (hiddenName nodeid ctr)).isSome then hiddenNameLoop f dir nodeid fuel ctr
    else some (ctr, hiddenName nodeid ctr)

/-- The block of `hidden_name` under `f->lock` (fuse.c:588-600): nothing when `(dir, oldname)`
has no node any more, else a free hidden name for it. -/
def hiddenProbe (f : Fuse) (dir : Nat) (oldname : Name) : Except Fault (Option (Name × Fuse)) :=
  match lookupNode f dir oldname with
  | none => pure none
  | some p => do
    let n ← f.node p
    match hiddenNameLoop f dir n.nodeid (2 ^ 32) f.hidectr with
    | none => throw .hiddenNameHangs
    | some (ctr, name) => pure (some (name, { f with hidectr := ctr }))

/-- `do_open` once the kernel may have the reply (fuse.c:1112-1113): one more open file. -/
def openIncrement (f : Fuse) (nodeid : Nat) : Except Fault Fuse := do
  let p ← getNode f nodeid
  let n ← f.node p
  pure (f.setNode p { n with openCount := n.openCount + 1 })

/-- The block of `do_release` under `f->lock` (fuse.c:1166-1172): the assertion, one open
file less, and whether the node is a hidden file no longer open. -/
def releaseCount (f : Fuse) (nodeid : Nat) : Except Fault (Bool × Fuse) := do
  let p ← getNode f nodeid
  let n ← f.node p
  if n.openCount ≤ 0 then throw .release
  pure (n.isHidden && n.openCount - 1 == 0, f.setNode p { n with openCount := n.openCount - 1 })

/-- The directory operation of a FORGET, `do_forget` (fuse.c:680): the legacy forget, which
matches a version, up to major 6, else `forget_node`. -/
def forgetOp (major nodeid nlookup : Nat) : DirOp :=
  if major ≤ 6 then .forgetOld nodeid nlookup else .forget nodeid nlookup

/-! ## Threads and the system -/

/-- Which of the user's operations the filesystem defines. -/
structure UserOps where
  hasOpen : Bool
  hasUnlink : Bool
  hasRename : Bool
  hasGetattr : Bool
  deriving DecidableEq, Repr

/-- Where a worker thread is in its handler, with what the handler has computed so far. -/
inductive Phase where
  /-- OPEN of a node: `tree_lock` is to be read-locked (fuse.c:1088). -/
  | openStart (nodeid : Nat)
  /-- `get_path` and the user's open are next (fuse.c:1089-1098). -/
  | openLocked (nodeid : Nat)
  /-- The user's open returned `res`. -/
  | openCalled (nodeid : Nat) (res : Int)
  /-- Holding `f->lock`, the reply written; the write returned `res2` (fuse.c:1108-1114). -/
  | openSent (nodeid : Nat) (res2 : Int)
  /-- The read lock is to be released (fuse.c:1119-1121). -/
  | openDone
  /-- RELEASE of a node: its count is to be dropped under `f->lock` (fuse.c:1166). -/
  | releaseStart (nodeid : Nat)
  /-- Counted down; `tree_lock` is to be read-locked (fuse.c:1174). -/
  | releaseCounted (nodeid : Nat) (unlinkHidden : Bool)
  /-- `get_path` and the user's release are next (fuse.c:1175-1185). -/
  | releaseLocked (nodeid : Nat) (unlinkHidden : Bool)
  /-- The hidden file is to be unlinked if asked, then the lock released (fuse.c:1187-1194). -/
  | releasePath (nodeid : Nat) (unlinkHidden : Bool) (path : Option Path)
  /-- UNLINK of `name` in a directory: `tree_lock` is to be write-locked (fuse.c:919). -/
  | unlinkStart (dir : Nat) (name : Name)
  /-- `get_path_name` is next (fuse.c:920). -/
  | unlinkLocked (dir : Nat) (name : Name)
  /-- `is_open` is next, unless `hard_remove` (fuse.c:927). -/
  | unlinkPath (dir : Nat) (name : Name) (path : Path)
  /-- The user's unlink is next (fuse.c:930). -/
  | unlinkCall (dir : Nat) (name : Name) (path : Path)
  /-- `remove_node` is next (fuse.c:932). -/
  | unlinkRemove (dir : Nat) (name : Name)
  /-- `hidden_name`'s block under `f->lock` is next, with `failctr` rounds left (fuse.c:587). -/
  | hideProbe (dir : Nat) (name : Name) (path : Path) (failctr : Nat)
  /-- `get_path_name` of the hidden name and the user's getattr are next (fuse.c:602-606). -/
  | hideCheck (dir : Nat) (name : Name) (path : Path) (failctr : Nat) (newname : Name)
  /-- The user's rename to the hidden path is next (fuse.c:626). -/
  | hideRename (dir : Nat) (name : Name) (path newpath : Path) (newname : Name)
  /-- `rename_node` with `hide` is next (fuse.c:628). -/
  | hideNode (dir : Nat) (name : Name) (newname : Name)
  /-- `tree_lock` is to be released and the reply sent (fuse.c:939-940). -/
  | unlinkReply (res : Int)
  /-- The request is answered. -/
  | finished
  deriving DecidableEq, Repr

/-- The node a thread's request names and that its handler still reads: the node of OPEN and
RELEASE, the directory of UNLINK. The kernel holds it until the reply. -/
def Phase.names : Phase → Option Nat
  | .openStart i | .openLocked i | .openCalled i _ | .openSent i _ => some i
  | .releaseStart i | .releaseCounted i _ | .releaseLocked i _ | .releasePath i _ _ => some i
  | .unlinkStart d _ | .unlinkLocked d _ | .unlinkPath d _ _ | .unlinkCall d _ _
  | .unlinkRemove d _ | .hideProbe d _ _ _ | .hideCheck d _ _ _ _ | .hideRename d _ _ _ _
  | .hideNode d _ _ => some d
  | .openDone | .unlinkReply _ | .finished => none

/-- The entry an UNLINK is about, until `remove_node` or `rename_node` has run on it. -/
def Phase.victim : Phase → Option (Nat × Name)
  | .unlinkStart d name | .unlinkLocked d name | .unlinkPath d name _ | .unlinkCall d name _
  | .unlinkRemove d name | .hideProbe d name _ _ | .hideCheck d name _ _ _
  | .hideRename d name _ _ _ | .hideNode d name _ => some (d, name)
  | _ => none

/-- The process and the kernel's side of it. -/
structure Sys where
  dir : Fuse
  /-- The thread holding `f->lock` from one step to the next. -/
  lock : Option Nat
  /-- `tree_lock`: the number of readers, and the writer. -/
  readers : Nat
  writer : Option Nat
  threads : List Phase
  /-- The open files the kernel holds, per node. -/
  handles : Nat → Nat
  /-- The paths the user's unlink was called with, in order. -/
  unlinks : List Path
  /-- Whether the process aborted. -/
  crashed : Bool
  /-- OPEN replies the kernel took, per node. -/
  delivered : Nat → Nat
  /-- OPEN replies whose write failed with an error other than `ENOENT`, per node. -/
  failed : Nat → Nat
  /-- RELEASEs counted down, per node. -/
  released : Nat → Nat

/-- One more at `i`. -/
def incr (h : Nat → Nat) (i : Nat) : Nat → Nat := Function.update h i (h i + 1)

/-- The process on a directory, before any request. -/
def Sys.start (f : Fuse) : Sys :=
  ⟨f, none, 0, none, [], fun _ => 0, [], false, fun _ => 0, fun _ => 0, fun _ => 0⟩

/-- Thread `k` moves to phase `ph`. -/
def Sys.setPhase (s : Sys) (k : Nat) (ph : Phase) : Sys := { s with threads := s.threads.set k ph }

/-- The process aborts. -/
def Sys.crash (s : Sys) : Sys := { s with crashed := true }

/-- The kernel's side of an OPEN reply whose write returned `res2`: the kernel holds one more
open file when it took the reply; the run counts that, or a write that failed with an error
other than `ENOENT`. -/
def Sys.reply (s : Sys) (i : Nat) (res2 : Int) : Sys :=
  if res2 = 0 then { s with handles := incr s.handles i, delivered := incr s.delivered i }
  else if res2 = -ENOENT then s
  else { s with failed := incr s.failed i }

/-- Whether the kernel still holds node `i` for the process: it has open files on it, or a
request naming it is not answered yet. -/
def Sys.Busy (s : Sys) (i : Nat) : Prop := 0 < s.handles i ∨ ∃ ph ∈ s.threads, ph.names = some i

/-- Whether node `i` is at the entry an UNLINK in progress is about. The kernel looked it up to
send the request and holds it until the reply. -/
def Sys.Unlinking (s : Sys) (i : Nat) : Prop :=
  ∃ ph ∈ s.threads, ∃ d name x, ph.victim = some (d, name) ∧ lookupNode s.dir d name = some x ∧
    s.dir.IdAt i x

/-- The next step of thread `k`, in phase `ph`; `none` while it waits for a lock. `res` is what
the user's callback, or the write of the reply, returns at this step, and `allocOk` whether
the `strdup` the step makes succeeds: the one that ends `get_path_name`, or `hash_name`'s in
`rename_node`. A step that faults aborts the process; a loop that never ends takes no step. -/
def Sys.runThread (ops : UserOps) (s : Sys) (k : Nat) (res : Int) (allocOk : Bool) :
    Phase → Option Sys
  | .openStart i =>
    if s.writer.isSome then none
    else some { s.setPhase k (.openLocked i) with readers := s.readers + 1 }
  | .openLocked i =>
    if s.lock.isSome then none else
    some <| match getPath s.dir i allocOk with
      | .error _ => s.crash
      | .ok none => s.setPhase k (.openCalled i (-ENOENT))
      | .ok (some _) => s.setPhase k (.openCalled i (if ops.hasOpen then res else -ENOSYS))
  | .openCalled i r =>
    if r = 0 then
      if s.lock.isSome then none
      else some ({ s.setPhase k (.openSent i res) with lock := some k }.reply i res)
    else some (s.setPhase k .openDone)
  | .openSent i r2 =>
    if r2 = -ENOENT then some { s.setPhase k .openDone with lock := none } else
    some <| match openIncrement s.dir i with
      | .ok g => { s.setPhase k .openDone with lock := none, dir := g }
      | .error _ => s.crash
  | .openDone => some { s.setPhase k .finished with readers := s.readers - 1 }
  | .releaseStart i =>
    if s.lock.isSome then none else
    some <| match releaseCount s.dir i with
      | .ok (uh, g) => { s.setPhase k (.releaseCounted i uh) with dir := g, released := incr s.released i }
      | .error _ => s.crash
  | .releaseCounted i uh =>
    if s.writer.isSome then none
    else some { s.setPhase k (.releaseLocked i uh) with readers := s.readers + 1 }
  | .releaseLocked i uh =>
    if s.lock.isSome then none else
    some <| match getPath s.dir i allocOk with
      | .error _ => s.crash
      | .ok path => s.setPhase k (.releasePath i uh path)
  | .releasePath _ uh path =>
    some { s.setPhase k .finished with
      readers := s.readers - 1
      unlinks := if uh then s.unlinks ++ path.toList else s.unlinks }
  | .unlinkStart d name =>
    if s.writer.isSome ∨ s.readers ≠ 0 then none
    else some { s.setPhase k (.unlinkLocked d name) with writer := some k }
  | .unlinkLocked d name =>
    if s.lock.isSome then none else
    some <| match getPathName s.dir d (some name) allocOk with
      | .error _ => s.crash
      | .ok none => s.setPhase k (.unlinkReply (-ENOENT))
      | .ok (some path) =>
        s.setPhase k (if ops.hasUnlink then .unlinkPath d name path else .unlinkReply (-ENOSYS))
  | .unlinkPath d name path =>
    if s.dir.flags.hardRemove then some (s.setPhase k (.unlinkCall d name path)) else
    if s.lock.isSome then none else
    some (s.setPhase k (if isOpen s.dir d name then
      (if ops.hasRename then .hideProbe d name path 10 else .unlinkReply (-EBUSY))
      else .unlinkCall d name path))
  | .unlinkCall d name path =>
    some { s.setPhase k (if res = 0 then .unlinkRemove d name else .unlinkReply res) with
      unlinks := s.unlinks ++ [path] }
  | .unlinkRemove d name =>
    if s.lock.isSome then none else
    some <| match removeNode s.dir d name with
      | .ok g => { s.setPhase k (.unlinkReply 0) with dir := g }
      | .error _ => s.crash
  | .hideProbe d name path failctr =>
    if !ops.hasGetattr then some (s.setPhase k (.unlinkReply (-EBUSY))) else
    if s.lock.isSome then none else
    match hiddenProbe s.dir d name with
      | .error .hiddenNameHangs => none
      | .error _ => some s.crash
      | .ok none => some (s.setPhase k (.unlinkReply (-EBUSY)))
      | .ok (some (newname, g)) => some { s.setPhase k (.hideCheck d name path failctr newname) with dir := g }
  | .hideCheck d name path failctr newname =>
    if s.lock.isSome then none else
    some <| match getPathName s.dir d (some newname) allocOk with
      | .error _ => s.crash
      | .ok none => s.setPhase k (.unlinkReply (-EBUSY))
      | .ok (some newpath) =>
        s.setPhase k (if res ≠ 0 then .hideRename d name path newpath newname
          else if failctr ≤ 1 then .unlinkReply (-EBUSY) else .hideProbe d name path (failctr - 1))
  | .hideRename d name _ _ newname =>
    some (s.setPhase k (if res = 0 then .hideNode d name newname else .unlinkReply (-EBUSY)))
  | .hideNode d name newname =>
    if s.lock.isSome then none else
    some <| match renameNode s.dir d name d newname true allocOk with
      | .ok (err, g) => { s.setPhase k (.unlinkReply err) with dir := g }
      | .error _ => s.crash
  | .unlinkReply _ => some { s.setPhase k .finished with writer := none }
  | .finished => none

/-- One step of the process or the kernel. The kernel sends OPEN and UNLINK for nodes it
holds, RELEASE for an open file it holds, and FORGET, which the reader handles inline under
`f->lock`, only for what it was given and for no node it still holds for the process: none
with an open file, none a request names, and not the one an UNLINK is about. -/
inductive Step (ops : UserOps) : Sys → Sys → Prop
  | openReq {s : Sys} {i : Nat} : s.crashed = false → Held s.dir i →
      Step ops s { s with threads := s.threads ++ [.openStart i] }
  | releaseReq {s : Sys} {i : Nat} : s.crashed = false → 0 < s.handles i →
      Step ops s { s with
        handles := Function.update s.handles i (s.handles i - 1)
        threads := s.threads ++ [.releaseStart i] }
  | unlinkReq {s : Sys} {d : Nat} {name : Name} : s.crashed = false → Held s.dir d →
      Step ops s { s with threads := s.threads ++ [.unlinkStart d name] }
  | forget {s : Sys} {i c : Nat} : s.crashed = false → s.lock = none → ¬ s.Busy i →
      ¬ s.Unlinking i → (forgetOp s.dir.major i c).Allowed s.dir →
      Step ops s (match (forgetOp s.dir.major i c).run s.dir with
        | .ok g => { s with dir := g }
        | .error _ => s.crash)
  | thread {s s' : Sys} {k : Nat} {ph : Phase} {res : Int} {allocOk : Bool} : s.crashed = false →
      s.threads[k]? = some ph → s.runThread ops k res allocOk ph = some s' → Step ops s s'

/-- The states a process reaches from a directory that the directory operations built, with
nothing open. -/
inductive SysReachable (ops : UserOps) : Sys → Prop
  | start {f : Fuse} : Reachable f → SysReachable ops (Sys.start f)
  | step {s s' : Sys} : SysReachable ops s → Step ops s s' → SysReachable ops s'

/-! ## RELEASE racing UNLINK and OPEN -/

/-- A RELEASE counts the last open file of `a` down after UNLINK's `is_open` found it open and
before `hide_node` marks it hidden: `a` ends hidden with nothing open, every request
answered, and the user's unlink never called. -/
theorem hidden_file_left_behind :
    ∃ s, SysReachable ⟨true, true, true, true⟩ s ∧ s.threads = [.finished, .finished, .finished] ∧
      s.unlinks = [] ∧ ∃ p n, s.dir.heap p = some n ∧ n.isHidden = true ∧ n.openCount = 0 := by
  have h0 : SysReachable ⟨true, true, true, true⟩ (Sys.start dirA) := .start reachable_dirA
  -- OPEN of `a`, to the end
  have h1 := h0.step (@Step.openReq _ _ 2 rfl ⟨1, _, rfl, rfl, fun h => absurd h.2 (by decide)⟩)
  have h2 := h1.step (@Step.thread _ _ _ 0 _ 0 true rfl rfl rfl)
  have h3 := h2.step (@Step.thread _ _ _ 0 _ 0 true rfl rfl rfl)
  have h4 := h3.step (@Step.thread _ _ _ 0 _ 0 true rfl rfl rfl)
  have h5 := h4.step (@Step.thread _ _ _ 0 _ 0 true rfl rfl rfl)
  have h6 := h5.step (@Step.thread _ _ _ 0 _ 0 true rfl rfl rfl)
  -- UNLINK of `a`: open, so to be hidden; up to the rename
  have h7 := h6.step (@Step.unlinkReq _ _ rootId [97] rfl ⟨0, _, rfl, rfl, fun h => h.1 rfl⟩)
  have h8 := h7.step (@Step.thread _ _ _ 1 _ 0 true rfl rfl rfl)
  have h9 := h8.step (@Step.thread _ _ _ 1 _ 0 true rfl rfl rfl)
  have h10 := h9.step (@Step.thread _ _ _ 1 _ 0 true rfl rfl rfl)
  have h11 := h10.step (@Step.thread _ _ _ 1 _ 0 true rfl rfl rfl)
  have h12 := h11.step (@Step.thread _ _ _ 1 _ (-ENOENT) true rfl rfl rfl)
  have h13 := h12.step (@Step.thread _ _ _ 1 _ 0 true rfl rfl rfl)
  -- RELEASE of `a` counts down before `hide_node`
  have h14 := h13.step (@Step.releaseReq _ _ 2 rfl (by decide))
  have h15 := h14.step (@Step.thread _ _ _ 2 _ 0 true rfl rfl rfl)
  have h16 := h15.step (@Step.thread _ _ _ 1 _ 0 true rfl rfl rfl)
  have h17 := h16.step (@Step.thread _ _ _ 1 _ 0 true rfl rfl rfl)
  have h18 := h17.step (@Step.thread _ _ _ 2 _ 0 true rfl rfl rfl)
  have h19 := h18.step (@Step.thread _ _ _ 2 _ 0 true rfl rfl rfl)
  have h20 := h19.step (@Step.thread _ _ _ 2 _ 0 true rfl rfl rfl)
  exact ⟨_, h20, rfl, rfl, 1, _, rfl, rfl, rfl⟩
/-- `a` is open and hidden. A RELEASE counts it down to zero and decides to unlink it; before
it takes `tree_lock`, an OPEN of the hidden file completes; the RELEASE then calls the user's
unlink on the path of a node the kernel holds an open file of. -/
theorem unlink_under_open_handle :
    ∃ s path, SysReachable ⟨true, true, true, true⟩ s ∧ s.unlinks = [path] ∧
      getPath s.dir 2 true = .ok (some path) ∧ s.handles 2 = 1 ∧ s.delivered 2 = 2 ∧ s.released 2 = 1 := by
  have h0 : SysReachable ⟨true, true, true, true⟩ (Sys.start dirA) := .start reachable_dirA
  have h1 := h0.step (@Step.openReq _ _ 2 rfl ⟨1, _, rfl, rfl, fun h => absurd h.2 (by decide)⟩)
  have h2 := h1.step (@Step.thread _ _ _ 0 _ 0 true rfl rfl rfl)
  have h3 := h2.step (@Step.thread _ _ _ 0 _ 0 true rfl rfl rfl)
  have h4 := h3.step (@Step.thread _ _ _ 0 _ 0 true rfl rfl rfl)
  have h5 := h4.step (@Step.thread _ _ _ 0 _ 0 true rfl rfl rfl)
  have h6 := h5.step (@Step.thread _ _ _ 0 _ 0 true rfl rfl rfl)
  have h7 := h6.step (@Step.unlinkReq _ _ rootId [97] rfl ⟨0, _, rfl, rfl, fun h => h.1 rfl⟩)
  have h8 := h7.step (@Step.thread _ _ _ 1 _ 0 true rfl rfl rfl)
  have h9 := h8.step (@Step.thread _ _ _ 1 _ 0 true rfl rfl rfl)
  have h10 := h9.step (@Step.thread _ _ _ 1 _ 0 true rfl rfl rfl)
  have h11 := h10.step (@Step.thread _ _ _ 1 _ 0 true rfl rfl rfl)
  have h12 := h11.step (@Step.thread _ _ _ 1 _ (-ENOENT) true rfl rfl rfl)
  have h13 := h12.step (@Step.thread _ _ _ 1 _ 0 true rfl rfl rfl)
  have h14 := h13.step (@Step.thread _ _ _ 1 _ 0 true rfl rfl rfl)
  have h15 := h14.step (@Step.thread _ _ _ 1 _ 0 true rfl rfl rfl)
  -- RELEASE counts the hidden file down to zero, then a second OPEN of it completes
  have h16 := h15.step (@Step.releaseReq _ _ 2 rfl (by decide))
  have h17 := h16.step (@Step.thread _ _ _ 2 _ 0 true rfl rfl rfl)
  have h18 := h17.step (@Step.openReq _ _ 2 rfl ⟨1, _, rfl, rfl, fun h => absurd h.2 (by decide)⟩)
  have h19 := h18.step (@Step.thread _ _ _ 3 _ 0 true rfl rfl rfl)
  have h20 := h19.step (@Step.thread _ _ _ 3 _ 0 true rfl rfl rfl)
  have h21 := h20.step (@Step.thread _ _ _ 3 _ 0 true rfl rfl rfl)
  have h22 := h21.step (@Step.thread _ _ _ 3 _ 0 true rfl rfl rfl)
  have h23 := h22.step (@Step.thread _ _ _ 3 _ 0 true rfl rfl rfl)
  -- the RELEASE goes on and unlinks the hidden file
  have h24 := h23.step (@Step.thread _ _ _ 2 _ 0 true rfl rfl rfl)
  have h25 := h24.step (@Step.thread _ _ _ 2 _ 0 true rfl rfl rfl)
  have h26 := h25.step (@Step.thread _ _ _ 2 _ 0 true rfl rfl rfl)
  exact ⟨_, _, h26, rfl, rfl, rfl, rfl, rfl⟩
end FuseCore
