import FuseCore.Reply
import FuseCore.Lookup

/-!
# The request loop (fuse.c:574-705, :851-1197, :1537-1575, :1582-1840, :1847-2080)

`fuse_loop` reads one request at a time and answers it before it reads the next. FORGET is
handled by `fuse_read_cmd` itself (fuse.c:2051); `fuse_process_cmd` answers every other request
with `-EPROTO` until INIT has been seen, refuses with `-EACCES` the requests of a user other
than the owner and root under `allow_root`, but for the few `Request.anyUser` names, and then
calls the request's handler. A handler runs to its end before the next request is read, so
here one request is one step (`processCmd`), made of the handler's directory operations in
the order the source makes them:

* the LOOKUP class, `do_lookup`, `do_mknod`, `do_mkdir`, `do_symlink` and `do_link`: the
  user's callback, then `lookup_path`'s `find_node`, the reply, and `cancel_lookup` when its
  write fails with `ENOENT` (`entryReply`);
* UNLINK and RENAME, which hide an open target (`hideNode`, with the rounds of
  `hidden_name`) unless `hard_remove`, and RMDIR;
* OPEN and RELEASE, which count the open files of a node, RELEASE unlinking a hidden file
  whose last one it closes; FORGET; and INIT, which negotiates the protocol's major;
* OPENDIR, which under `readdir_ino` keeps the node's address in the handle, and READDIR,
  which then reads the node through it; RELEASEDIR and FSYNCDIR;
* the requests that only read a node's path (`Query`), seen through their `get_path`.

The user's callbacks, the writes of the replies and the allocations are the environment's
answers (`Answers`). The kernel's side is the open files it holds (`Loop.handles`) and the
directory handles (`Loop.dirs`); the user's filesystem is seen through the paths its unlink is called with (`Loop.unlinks`).
`FUSE_KERNEL_VERSION`, from a header outside the sources, is the parameter `kver`.
-/

namespace FuseCore

/-! ## Requests -/

/-- The requests whose handlers only read the directory: all but STATFS compute the path of
the node the request names with `get_path`; the user's callback and the reply do the rest. -/
inductive Query where
  | getattr | setattr | readlink | flush | read | write | statfs | fsync
  | setxattr | getxattr | listxattr | removexattr
  deriving DecidableEq, Repr

/-- Whether the handler reads the node's path: every one but `do_statfs` (fuse.c:1318). -/
def Query.readsPath : Query → Bool
  | .statfs => false
  | _ => true

/-- A request as `fuse_read_cmd` reads it, by opcode, with the arguments the handlers read. -/
inductive Request where
  | init (padding major : Nat)
  | forget (nodeid nlookup : Nat)
  | lookup (parent : Nat) (name : Name)
  | mknod (parent : Nat) (name : Name)
  | mkdir (parent : Nat) (name : Name)
  | symlink (parent : Nat) (name : Name)
  | link (oldnodeid parent : Nat) (name : Name)
  | unlink (dir : Nat) (name : Name)
  | rmdir (dir : Nat) (name : Name)
  | rename (olddir : Nat) (oldname : Name) (newdir : Nat) (newname : Name)
  | openFile (nodeid : Nat)
  | release (nodeid : Nat)
  | opendir (nodeid : Nat)
  /-- READDIR, RELEASEDIR and FSYNCDIR name the node and the handle `fh` OPENDIR replied. -/
  | readdir (nodeid fh : Nat)
  | releasedir (nodeid fh : Nat)
  | fsyncdir (nodeid fh : Nat)
  | query (q : Query) (nodeid : Nat)
  /-- An opcode the switch does not know: `-ENOSYS`. -/
  | unknown
  deriving DecidableEq, Repr

/-- Whether the request is INIT. -/
def Request.isInit : Request → Bool
  | .init _ _ => true
  | _ => false

/-- The requests `allow_root` lets through from any user (fuse.c:1864-1867): INIT, READ,
WRITE, FSYNC, RELEASE, READDIR, FSYNCDIR and RELEASEDIR. -/
def Request.anyUser : Request → Bool
  | .init _ _ | .release _ | .readdir _ _ | .fsyncdir _ _ | .releasedir _ _ => true
  | .query .read _ | .query .write _ | .query .fsync _ => true
  | _ => false

/-- The fields of `struct fuse_in_header` the core reads besides the opcode and node. -/
structure InHeader where
  unique : Nat
  uid : Nat
  deriving DecidableEq, Repr

/-- Which of the user's operations the filesystem defines, for the loop's handlers. -/
structure LoopOps extends UserOps where
  hasMknod : Bool
  hasMkdir : Bool
  hasSymlink : Bool
  hasLink : Bool
  hasRmdir : Bool
  hasRelease : Bool
  hasOpendir : Bool
  hasReleasedir : Bool
  deriving DecidableEq, Repr

/-- The operations of the example filesystem, `xmp_oper` (example/fusexmp_fh.c:321-350): it
defines every callback the handlers test. -/
def xmpOper : LoopOps := ⟨⟨true, true, true, true⟩, true, true, true, true, true, true, true, true⟩

/-- What the environment answers while a request is handled. -/
structure Answers where
  /-- What the user's callback for the request returns. -/
  res : Int
  /-- What the user's getattr returns in `lookup_path`, and the inode number it reports. -/
  getattr : Int
  ino : Nat
  /-- What the user's getattr returns on the hidden name in the round of `hidden_name` that
  has `k` rounds left. -/
  probe : Nat → Int
  /-- What the user's rename to the hidden name returns in `hide_node`. -/
  hideRes : Int
  /-- What the write of the reply returns. -/
  write : Int
  /-- Whether `find_node`'s `calloc`, or `do_opendir`'s `malloc`, and `hash_name`'s `strdup`
  succeed. -/
  callocOk : Bool
  strdupOk : Bool
  /-- Whether `strdup` succeeds in the `rename_node` of `hide_node`. -/
  hideStrdupOk : Bool
  /-- Whether READDIR fills the handle and the user's listing hands the filler an entry. -/
  fills : Bool
  /-- Whether the `strdup` that ends `get_path_name` succeeds for the paths the request asks
  for. When a later one of them fails, the request ends as when the first does: `-ENOENT`, with
  nothing changed. -/
  pathOk : Bool
  /-- Whether it succeeds for the hidden name's path in the round of `hidden_name` that has `k`
  rounds left. -/
  probePathOk : Nat → Bool

/-! ## The handlers -/

/-- `lookup_path` (fuse.c:635) once the user's callback succeeded, the reply, and
`cancel_lookup` when its write failed with `ENOENT` (fuse.c:687-690): the tail the LOOKUP-class
handlers share. Returns the reply's error. -/
def entryReply (f : Fuse) (parent : Nat) (name : Name) (unique : Nat) (a : Answers) :
    Except Fault (Int × Fuse) :=
  if a.getattr ≠ 0 then pure (a.getattr, f) else do
  let (r, f) ← findNode f parent name a.ino unique a.callocOk a.strdupOk
  match r with
  | none => pure (-ENOMEM, f)
  | some (p, _) =>
    let n ← f.node p
    if a.write = -ENOENT then (0, ·) <$> cancelLookup f n.nodeid unique else pure (0, f)

/-- `do_lookup` (fuse.c:667). -/
def doLookup (ops : LoopOps) (f : Fuse) (parent : Nat) (name : Name) (unique : Nat) (a : Answers) :
    Except Fault (Int × Fuse) := do
  match ← getPathName f parent (some name) a.pathOk with
  | none => pure (-ENOENT, f)
  | some _ => if ops.hasGetattr then entryReply f parent name unique a else pure (-ENOSYS, f)

/-- `do_mknod`, `do_mkdir` and `do_symlink` (fuse.c:851, :882, :968), by whether the
filesystem has the callback: the callback, then `lookup_path` when it succeeded. -/
def doCreate (hasOp : Bool) (ops : LoopOps) (f : Fuse) (parent : Nat) (name : Name) (unique : Nat)
    (a : Answers) : Except Fault (Int × Fuse) := do
  match ← getPathName f parent (some name) a.pathOk with
  | none => pure (-ENOENT, f)
  | some _ =>
    if hasOp && ops.hasGetattr then
      if a.res = 0 then entryReply f parent name unique a else pure (a.res, f)
    else pure (-ENOSYS, f)

/-- `do_mknod` (fuse.c:851). -/
def doMknod (ops : LoopOps) : Fuse → Nat → Name → Nat → Answers → Except Fault (Int × Fuse) :=
  doCreate ops.hasMknod ops

/-- `do_mkdir` (fuse.c:882). -/
def doMkdir (ops : LoopOps) : Fuse → Nat → Name → Nat → Answers → Except Fault (Int × Fuse) :=
  doCreate ops.hasMkdir ops

/-- `do_symlink` (fuse.c:968). -/
def doSymlink (ops : LoopOps) : Fuse → Nat → Name → Nat → Answers → Except Fault (Int × Fuse) :=
  doCreate ops.hasSymlink ops

/-- `do_link` (fuse.c:1040): the path of the node linked to first, then as `do_mknod` with
the user's link. -/
def doLink (ops : LoopOps) (f : Fuse) (oldnodeid parent : Nat) (name : Name) (unique : Nat)
    (a : Answers) : Except Fault (Int × Fuse) := do
  match ← getPath f oldnodeid a.pathOk with
  | none => pure (-ENOENT, f)
  | some _ => doCreate ops.hasLink ops f parent name unique a

/-- The rounds of `hidden_name` (fuse.c:587-611), `failctr` of them left: pick a free hidden
name under `f->lock`, build its path, and keep it when the user's getattr finds no such file
(`probe failctr` is what it returns; `pathOk failctr` whether the path's `strdup` succeeds).
NULL when the node is gone, when the path cannot be built, or after the last round. -/
def hiddenNameRounds (dir : Nat) (oldname : Name) (probe : Nat → Int) (pathOk : Nat → Bool) :
    Nat → Fuse → Except Fault (Option (Path × Name) × Fuse)
  | 0, f => pure (none, f)
  | failctr + 1, f => do
    match ← hiddenProbe f dir oldname with
    | none => pure (none, f)
    | some (newname, f) =>
      match ← getPathName f dir (some newname) (pathOk (failctr + 1)) with
      | none => pure (none, f)
      | some newpath =>
        if probe (failctr + 1) ≠ 0 then pure (some (newpath, newname), f)
        else hiddenNameRounds dir oldname probe pathOk failctr f

/-- `hide_node` (fuse.c:616): move the open file at `(dir, oldname)` to a hidden name, in the
user's filesystem and then in the directory; `-EBUSY` unless all of it succeeds. `hidden_name`
gives up at once without a getattr (fuse.c:584). -/
def hideNode (ops : LoopOps) (f : Fuse) (dir : Nat) (oldname : Name) (a : Answers) :
    Except Fault (Int × Fuse) :=
  if ops.hasRename && ops.hasUnlink then do
    let (r, f) ← if ops.hasGetattr then hiddenNameRounds dir oldname a.probe a.probePathOk 10 f
      else pure (none, f)
    match r with
    | none => pure (-EBUSY, f)
    | some (_, newname) =>
      if a.hideRes = 0 then renameNode f dir oldname dir newname true a.hideStrdupOk
      else pure (-EBUSY, f)
  else pure (-EBUSY, f)

/-- `do_unlink` (fuse.c:913): an open file is hidden unless `hard_remove`; any other is
unlinked by the user and then removed. Returns the reply's error and the paths the user's
unlink was called with. -/
def doUnlink (ops : LoopOps) (f : Fuse) (dir : Nat) (name : Name) (a : Answers) :
    Except Fault (Int × Fuse × List Path) := do
  match ← getPathName f dir (some name) a.pathOk with
  | none => pure (-ENOENT, f, [])
  | some path =>
    if !ops.hasUnlink then pure (-ENOSYS, f, []) else
    if !f.flags.hardRemove && isOpen f dir name then do
      let (r, g) ← hideNode ops f dir name a
      pure (r, g, [])
    else if a.res = 0 then do
      let g ← removeNode f dir name
      pure (0, g, [path])
    else pure (a.res, f, [path])

/-- `do_rmdir` (fuse.c:943). -/
def doRmdir (ops : LoopOps) (f : Fuse) (dir : Nat) (name : Name) (a : Answers) :
    Except Fault (Int × Fuse) := do
  match ← getPathName f dir (some name) a.pathOk with
  | none => pure (-ENOENT, f)
  | some _ =>
    if !ops.hasRmdir then pure (-ENOSYS, f) else
    if a.res = 0 then (0, ·) <$> removeNode f dir name else pure (a.res, f)

/-- `do_rename` (fuse.c:999): an open target is hidden first unless `hard_remove`; then the
user's rename, then `rename_node`. -/
def doRename (ops : LoopOps) (f : Fuse) (olddir : Nat) (oldname : Name) (newdir : Nat)
    (newname : Name) (a : Answers) : Except Fault (Int × Fuse) := do
  match ← getPathName f olddir (some oldname) a.pathOk with
  | none => pure (-ENOENT, f)
  | some _ =>
  match ← getPathName f newdir (some newname) a.pathOk with
  | none => pure (-ENOENT, f)
  | some _ =>
  if !ops.hasRename then pure (-ENOSYS, f) else
  let (res, f) ← if !f.flags.hardRemove && isOpen f newdir newname then hideNode ops f newdir newname a
    else pure (0, f)
  if res ≠ 0 then pure (res, f) else
  if a.res ≠ 0 then pure (a.res, f) else
  renameNode f olddir oldname newdir newname false a.strdupOk

/-- `do_open` (fuse.c:1077): the user's open, then, under `f->lock`, the reply and the count
(`openReply`). Returns the reply's error and how many times the user's release ran. -/
def doOpen (ops : LoopOps) (f : Fuse) (nodeid : Nat) (a : Answers) : Except Fault (Int × Nat × Fuse) := do
  match ← getPath f nodeid a.pathOk with
  | none => pure (-ENOENT, 0, f)
  | some _ =>
    let res := if ops.hasOpen then a.res else -ENOSYS
    if res ≠ 0 then pure (res, 0, f) else do
      let (k, g) ← openReply f nodeid ops.hasRelease a.write
      pure (0, k, g)

/-- How a run of the loop stops: a fault of the directory code, or a call through the NULL
pointer of a callback the filesystem does not define. -/
inductive LoopFault where
  | fault (e : Fault)
  | nullCallback
  /-- A read of `dh->node->nodeid` with `dh->node` NULL (fuse.c:1661). -/
  | nullNode
  deriving DecidableEq, Repr

/-- `do_release` (fuse.c:1157): count the file down, then the user's release, then the
user's unlink, through `f->op.unlink` unchecked, of a hidden file whose last open file this
was, when it still has a path. Returns the paths unlinked. -/
def doRelease (ops : LoopOps) (f : Fuse) (nodeid : Nat) (pathOk : Bool) :
    Except LoopFault (Fuse × List Path) := do
  let (uh, f) ← (releaseCount f nodeid).mapError .fault
  let path ← (getPath f nodeid pathOk).mapError .fault
  match uh, path with
  | true, some path => if ops.hasUnlink then pure (f, [path]) else throw .nullCallback
  | _, _ => pure (f, [])

/-- `do_opendir` (fuse.c:1582) once its `malloc` succeeded: under `readdir_ino` the node, by
`get_node` under `f->lock`, kept in `dh->node`; then the user's opendir on the path, when the
filesystem has one. Returns the reply's error and `dh->node`. When the reply's write fails with
`ENOENT` the handle is released and freed again, with the path already built (fuse.c:1625). -/
def doOpendir (ops : LoopOps) (f : Fuse) (nodeid : Nat) (a : Answers) : Except Fault (Int × Option Ptr) := do
  if !a.callocOk then return (-ENOMEM, none)
  let node ← if f.flags.readdirIno then some <$> getNode f nodeid else pure none
  if ops.hasOpendir then
    match ← getPath f nodeid a.pathOk with
    | none => pure (-ENOENT, node)
    | some _ => pure (a.res, node)
  else pure (0, node)

/-- A directory handle the kernel holds: the node it opened and `dh->node`. -/
structure DirOpen where
  nodeid : Nat
  node : Option Ptr
  deriving DecidableEq, Repr

/-- `do_readdir` (fuse.c:1761) as far as it reads the process: when it fills the handle and
the user's listing hands the filler an entry (`fills`), `readdir_fill`'s `get_path`, and, with
the path found, `fill_dir_common`'s `lookup_node(f, dh->node->nodeid, name)` under
`readdir_ino` without `use_ino` (fuse.c:1656-1666). The listing itself is `doReaddir`'s. -/
def doReaddirNode (f : Fuse) (nodeid : Nat) (d : DirOpen) (fills pathOk : Bool) :
    Except LoopFault Unit := do
  if !fills then return ()
  let path ← (getPath f nodeid pathOk).mapError .fault
  if path.isSome && f.flags.readdirIno && !f.flags.useIno then
    match d.node with
    | some p => (fun _ => ()) <$> (f.node p).mapError .fault
    | none => throw .nullNode

/-- `do_releasedir` and `do_fsyncdir` (fuse.c:1792, :1817) on the directory: the path, for
the user's releasedir when the filesystem has one, and always for fsyncdir. -/
def doDirPath (hasOp : Bool) (f : Fuse) (nodeid : Nat) (pathOk : Bool) : Except Fault Unit :=
  if hasOp then (fun _ => ()) <$> getPath f nodeid pathOk else pure ()

/-- The directory side of a request that only reads: its `get_path`. -/
def doQuery (q : Query) (f : Fuse) (nodeid : Nat) (pathOk : Bool) : Except Fault (Int × Fuse) :=
  if q.readsPath then (fun _ => (0, f)) <$> getPath f nodeid pathOk else pure (0, f)

/-- The major `do_init` negotiates (fuse.c:1541-1564): a kernel that sends 5 in the header's
padding speaks 5; 5 and 6 are kept, anything else gets `FUSE_KERNEL_VERSION`. -/
def initMajor (kver padding major : Nat) : Nat :=
  let major := if padding = 5 then padding else major
  if major = 5 then 5 else if major = 6 then 6 else kver

/-! ## The loop -/

/-- The process and the kernel's side of it between two requests. -/
structure Loop where
  dir : Fuse
  /-- `f->got_init`. -/
  gotInit : Bool
  /-- `f->owner`, the user that created the filesystem (fuse.c:2199). -/
  owner : Nat
  /-- The open files the kernel holds, per node. -/
  handles : Nat → Nat
  /-- The paths the user's unlink was called with, in order. -/
  unlinks : List Path
  /-- The directory handles the kernel holds, by the address `do_opendir`'s `malloc` gave. -/
  dirs : Nat → Option DirOpen
  /-- An address `malloc` has not given out. -/
  nextFh : Nat

/-- The process `fuse_new_common` returns, before any request. -/
def Loop.start (flags : Flags) (owner : Nat) : Loop :=
  ⟨fuseNew flags, false, owner, fun _ => 0, [], fun _ => none, 1⟩

/-- The handle the kernel passes: `get_dirhandle(arg->fh)`, read or freed. -/
def Loop.dirHandle (s : Loop) (fh : Nat) : Except LoopFault DirOpen :=
  match s.dirs fh with
  | some d => .ok d
  | none => .error (.fault .useAfterFree)

/-- A handler's directory, or its fault. -/
def Loop.withDir (s : Loop) : Except Fault (Int × Fuse) → Except LoopFault Loop
  | .ok (_, g) => .ok { s with dir := g }
  | .error e => .error (.fault e)

/-- The switch of `fuse_process_cmd` (fuse.c:1879-1995). The kernel holds one more open file
when it took an OPEN reply, and one less once it sent the RELEASE. FORGET never gets here: it
is the default case. -/
def dispatch (ops : LoopOps) (kver : Nat) (s : Loop) (hdr : InHeader) (a : Answers) :
    Request → Except LoopFault Loop
  | .init padding major =>
    .ok { s with gotInit := true, dir := { s.dir with major := initMajor kver padding major } }
  | .forget _ _ | .unknown => .ok s
  | .lookup parent name => s.withDir (doLookup ops s.dir parent name hdr.unique a)
  | .mknod parent name => s.withDir (doMknod ops s.dir parent name hdr.unique a)
  | .mkdir parent name => s.withDir (doMkdir ops s.dir parent name hdr.unique a)
  | .symlink parent name => s.withDir (doSymlink ops s.dir parent name hdr.unique a)
  | .link oldnodeid parent name => s.withDir (doLink ops s.dir oldnodeid parent name hdr.unique a)
  | .unlink dir name =>
    match doUnlink ops s.dir dir name a with
    | .ok (_, g, paths) => .ok { s with dir := g, unlinks := s.unlinks ++ paths }
    | .error e => .error (.fault e)
  | .rmdir dir name => s.withDir (doRmdir ops s.dir dir name a)
  | .rename olddir oldname newdir newname =>
    s.withDir (doRename ops s.dir olddir oldname newdir newname a)
  | .openFile nodeid =>
    match doOpen ops s.dir nodeid a with
    | .ok (res, _, g) => .ok { s with
        dir := g
        handles := if res = 0 ∧ a.write = 0 then incr s.handles nodeid else s.handles }
    | .error e => .error (.fault e)
  | .release nodeid => do
    let (g, paths) ← doRelease ops s.dir nodeid a.pathOk
    pure { s with
      dir := g
      handles := Function.update s.handles nodeid (s.handles nodeid - 1)
      unlinks := s.unlinks ++ paths }
  | .opendir nodeid =>
    match doOpendir ops s.dir nodeid a with
    | .ok (res, node) => .ok (if res = 0 ∧ a.write = 0 then
        { s with dirs := Function.update s.dirs s.nextFh (some ⟨nodeid, node⟩), nextFh := s.nextFh + 1 }
        else s)
    | .error e => .error (.fault e)
  | .readdir nodeid fh => do
    let d ← s.dirHandle fh
    doReaddirNode s.dir nodeid d a.fills a.pathOk
    pure s
  | .releasedir nodeid fh => do
    let _ ← s.dirHandle fh
    (doDirPath ops.hasReleasedir s.dir nodeid a.pathOk).mapError .fault
    pure { s with dirs := Function.update s.dirs fh none }
  | .fsyncdir nodeid fh => do
    let _ ← s.dirHandle fh
    (doDirPath true s.dir nodeid a.pathOk).mapError .fault
    pure s
  | .query q nodeid => s.withDir (doQuery q s.dir nodeid a.pathOk)

/-- One request through `fuse_read_cmd` and `fuse_process_cmd` (fuse.c:2006-2059,
:1847-1999): FORGET at once, then the two refusals, then the handler. -/
def processCmd (ops : LoopOps) (kver : Nat) (s : Loop) (hdr : InHeader) (r : Request) (a : Answers) :
    Except LoopFault Loop :=
  match r with
  | .forget nodeid nlookup =>
    match (forgetOp s.dir.major nodeid nlookup).run s.dir with
    | .ok g => .ok { s with dir := g }
    | .error e => .error (.fault e)
  | r =>
    if s.gotInit = false ∧ r.isInit = false then .ok s
    else if s.dir.flags.allowRoot = true ∧ hdr.uid ≠ s.owner ∧ hdr.uid ≠ 0 ∧ r.anyUser = false then .ok s
    else dispatch ops kver s hdr a r

/-- What the kernel guarantees of a request: it names nodes it holds, with a nonzero
`unique`; it releases only an open file it holds, and uses only a directory handle it holds,
on its node; it forgets only lookups it was given, and no node it has open; and it speaks
protocol 7 or later. -/
def Request.Allowed (kver : Nat) (s : Loop) (hdr : InHeader) : Request → Prop
  | .init padding major => 7 ≤ initMajor kver padding major
  | .forget nodeid nlookup => (forgetOp s.dir.major nodeid nlookup).Allowed s.dir ∧ s.handles nodeid = 0 ∧
    ∀ fh d, s.dirs fh = some d → d.nodeid ≠ nodeid
  | .lookup parent _ | .mknod parent _ | .mkdir parent _ | .symlink parent _ =>
    Held s.dir parent ∧ hdr.unique ≠ 0
  | .link oldnodeid parent _ => Held s.dir oldnodeid ∧ Held s.dir parent ∧ hdr.unique ≠ 0
  | .unlink dir _ | .rmdir dir _ => Held s.dir dir
  | .rename olddir _ newdir _ => Held s.dir olddir ∧ Held s.dir newdir
  | .openFile nodeid | .opendir nodeid | .query _ nodeid => Held s.dir nodeid
  | .readdir nodeid fh | .releasedir nodeid fh | .fsyncdir nodeid fh =>
    ∃ d, s.dirs fh = some d ∧ d.nodeid = nodeid
  | .release nodeid => 0 < s.handles nodeid
  | .unknown => True

/-- The states a run of `fuse_loop` reaches from `fuse_new_common`, the kernel keeping its
guarantees. -/
inductive LoopReachable (ops : LoopOps) (kver : Nat) : Loop → Prop
  | start (flags : Flags) (owner : Nat) : LoopReachable ops kver (Loop.start flags owner)
  | step {s s' : Loop} {hdr : InHeader} {r : Request} {a : Answers} : LoopReachable ops kver s →
      r.Allowed kver s hdr → processCmd ops kver s hdr r a = .ok s' → LoopReachable ops kver s'

/-! ## `fuse_loop` -/

/-- `EINTR`. -/
def EINTR : Int := 4

/-- What one `read` of the device gives `fuse_read_cmd` (fuse.c:2006), or a `fuse_exit` from
outside the handlers between two reads, as the signal handlers of the library's users make. -/
inductive DevRead where
  /-- A request, and what the environment answers while it is handled. -/
  | request (hdr : InHeader) (r : Request) (a : Answers)
  /-- `read` returns -1 with `errno`. -/
  | failed (errno : Int)
  /-- Fewer bytes than a header (fuse.c:2042). -/
  | short
  /-- The `malloc` of the command or of its buffer fails (fuse.c:2013-2022). -/
  | nomem
  /-- `fuse_exit` from a signal handler. -/
  | exit

/-- Whether the read ends the loop: `fuse_read_cmd` calls `fuse_exit` on a failed read but
for `EINTR` and `ENOENT` (fuse.c:2028-2038), and on a short read. -/
def DevRead.stops : DevRead → Bool
  | .failed errno => !(errno = EINTR || errno = ENOENT)
  | .short | .exit => true
  | .request _ _ _ | .nomem => false

/-- `fuse_loop` (fuse.c:2061) over the reads it makes: each request read is handled, a read
that gives no command is retried, and the turn after `fuse_exit` leaves the loop, clearing
`exited`, which only `fuse_exit` and `fuse_loop` write. `none` while it still runs when the
reads run out. -/
def fuseLoop (ops : LoopOps) (kver : Nat) : Loop → List DevRead → Except LoopFault (Option Loop)
  | _, [] => .ok none
  | s, .request hdr r a :: rds => do fuseLoop ops kver (← processCmd ops kver s hdr r a) rds
  | s, .failed errno :: rds =>
    if errno = EINTR ∨ errno = ENOENT then fuseLoop ops kver s rds else .ok (some s)
  | s, .short :: _ | s, .exit :: _ => .ok (some s)
  | s, .nomem :: rds => fuseLoop ops kver s rds

/-- The kernel keeps its guarantees along the reads `fuse_loop` makes from `s`: each request
is allowed in the state it meets, as far as the loop goes. -/
def Kept (ops : LoopOps) (kver : Nat) : Loop → List DevRead → Prop
  | _, [] => True
  | s, .request hdr r a :: rds =>
    r.Allowed kver s hdr ∧ ∀ s', processCmd ops kver s hdr r a = .ok s' → Kept ops kver s' rds
  | s, .failed errno :: rds => (errno = EINTR ∨ errno = ENOENT) → Kept ops kver s rds
  | _, .short :: _ | _, .exit :: _ => True
  | s, .nomem :: rds => Kept ops kver s rds

/-! ## The gate -/

/-- Every request but FORGET goes through the two refusals of `fuse_process_cmd` first. -/
theorem processCmd_gate {ops : LoopOps} {kver : Nat} {s : Loop} {hdr : InHeader} {r : Request}
    (a : Answers) (hf : ∀ i c, r ≠ .forget i c) : processCmd ops kver s hdr r a =
      if s.gotInit = false ∧ r.isInit = false then .ok s
      else if s.dir.flags.allowRoot = true ∧ hdr.uid ≠ s.owner ∧ hdr.uid ≠ 0 ∧ r.anyUser = false then .ok s
      else dispatch ops kver s hdr a r := by
  cases r <;> first | exact absurd rfl (hf _ _) | rfl

end FuseCore
