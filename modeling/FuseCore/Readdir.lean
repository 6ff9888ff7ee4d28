import FuseCore.Ops

/-!
# Directory listings: `fill_dir_common`, `readdir_fill`, `do_readdir` (fuse.c:1646-1790)

A directory handle caches one listing. `readdir_fill` resets it and runs the user's listing,
which hands entries to the filler until the filler returns nonzero; `fill_dir_common`
appends one record per entry. `do_readdir` fills only when the handle is not `filled`, then
replies a slice of the cached bytes.

Under major 6 and later a user readdir may pass each entry's offset (offset mode). The filler
then clears `filled` at every entry, so that the next READDIR fills again from its own offset,
and stops once the records would pass the request's size. While every listing hands over at
least one entry, each reply is therefore the longest prefix of its own listing that fits
(`readdir_offset_history_free`). A listing that hands the filler no entry clears nothing:
the handle stays `filled` with no bytes, and every later READDIR on it, a rewind to offset 0
included, replies nothing (`readdirRun_after_empty`, `readdir_rewind_empty`).

Whatever sequence of calls a user's listing makes, the filler lays the records of the entries
it takes end to end, each at a multiple of 8, and an offset-less record's `off` field is the
start of the next one, so a READDIR at that offset goes on at a record boundary
(`dirent_encoding`). That holds while the records stay below `2 ^ 32` bytes: nothing bounds
an offset-less listing, and `len`, an `unsigned`, wraps (`dirent_len_wraps`).

The dirent layout comes from `fuse_kernel.h`, which src/ does not contain: its constants and
the bytes of a record's header are the parameter `Abi`.
-/

namespace FuseCore

/-- The constants and the record header of `fuse_kernel.h` and `fuse_kernel_compat5.h`, which
src/ does not contain. `header compat5 ino off namelen type` is the bytes of a record before
its name: `struct fuse_dirent_compat5` has no `off`. -/
structure Abi where
  /-- `FUSE_NAME_OFFSET`. -/
  nameOffset : Nat
  /-- `FUSE_NAME_OFFSET_COMPAT5`. -/
  nameOffsetCompat5 : Nat
  /-- `FUSE_NAME_MAX`. -/
  nameMax : Nat
  header : Bool → Nat → Nat → Nat → Nat → List UInt8
  header_length : ∀ c ino off namelen type,
    (header c ino off namelen type).length = if c then nameOffsetCompat5 else nameOffset

/-- Modelled from the spec: `FUSE_DIRENT_ALIGN` of `fuse_kernel.h`, which src/ does not
contain; the spec says each dirent is aligned to an 8-byte boundary. -/
def direntAlign (x : Nat) : Nat := (x + 7) / 8 * 8

/-- `FUSE_DIRENT_ALIGN (entlen)`: the bytes one record of `name` takes (fuse.c:1675-1677). -/
def direntSize (abi : Abi) (compat5 : Bool) (name : Name) : Nat :=
  direntAlign ((if compat5 then abi.nameOffsetCompat5 else abi.nameOffset) + min name.length abi.nameMax)

/-- The bytes of one record (fuse.c:1686-1707): the header, the first `namelen` bytes of the
name, and zero padding up to the alignment. -/
def direntBytes (abi : Abi) (compat5 : Bool) (name : Name) (type ino off : Nat) : List UInt8 :=
  let namelen := min name.length abi.nameMax
  let entlen := (if compat5 then abi.nameOffsetCompat5 else abi.nameOffset) + namelen
  abi.header compat5 ino off namelen type ++ name.take namelen ++
    List.replicate (direntAlign entlen - entlen) 0

/-- The inode number a record carries (fuse.c:1656-1666): the filler's own under `use_ino`;
else, under `readdir_ino`, the id of the node the directory has under that name, if any; else
`(ino_t) -1`. -/
def direntIno (f : Fuse) (dir : Nat) (name : Name) (ino : Nat) : Nat :=
  if f.flags.useIno then ino
  else if f.flags.readdirIno then ((lookupNode f dir name).bind f.heap).elim (2 ^ 64 - 1) Node.nodeid
  else 2 ^ 64 - 1

/-- The fields of `struct fuse_dirhandle` (fuse.c:73) that READDIR reads and writes; `len`
and `needlen` are `unsigned`. -/
structure DirHandle where
  contents : List UInt8
  len : Nat
  needlen : Nat
  filled : Bool
  error : Int
  deriving DecidableEq, Repr

/-- The handle `do_opendir` allocates (fuse.c:1591-1596): zeroed, no contents, not filled. -/
def DirHandle.opened : DirHandle := ⟨[], 0, 0, false, 0⟩

/-- The listing a handle holds: its buffer up to `len`. -/
def DirHandle.bytes (dh : DirHandle) : List UInt8 := dh.contents.take dh.len

/-- What a user's readdir hands the filler: a name, the mode and inode number of the `stat`
it passes, if any, and the offset of the next entry (0 for none). -/
structure Entry where
  name : Name
  stat : Option (Nat × Nat)
  off : Nat
  deriving DecidableEq, Repr

/-- `fill_dir`'s type: the file-type bits of the mode, 0 without a `stat` (fuse.c:1717). -/
def Entry.type (e : Entry) : Nat := e.stat.elim 0 fun s => (s.1 &&& 0o170000) >>> 12

/-- `fill_dir`'s inode number: the `stat`'s, `(ino_t) -1` without one (fuse.c:1718). -/
def Entry.ino (e : Entry) : Nat := e.stat.elim (2 ^ 64 - 1) Prod.snd

/-- Append one record, `fill_dir_common` (fuse.c:1646); the result says whether it returns
nonzero. `alloc n` says whether `realloc` can grow the buffer to `n` bytes. -/
def fillDirCommon (abi : Abi) (f : Fuse) (dir : Nat) (alloc : Nat → Bool) (dh : DirHandle)
    (name : Name) (type ino off : Nat) : DirHandle × Bool :=
  if name.length = 0 then ({ dh with error := - EIO }, true) else
  let newlen := (dh.len + direntSize abi (f.major = 5) name) % 2 ^ 32
  let dh := if off ≠ 0 ∧ f.major ≠ 5 then { dh with filled := false } else dh
  if off ≠ 0 ∧ f.major ≠ 5 ∧ newlen > dh.needlen then (dh, true) else
  if !alloc newlen then ({ dh with error := -ENOMEM }, true) else
  ({ dh with
    contents := dh.contents.take dh.len ++ direntBytes abi (f.major = 5) name type
      (direntIno f dir name ino) (if off ≠ 0 then off else newlen)
    len := newlen }, false)

/-- The filler a user's readdir gets, `fill_dir` (fuse.c:1714). -/
def fillDir (abi : Abi) (f : Fuse) (dir : Nat) (alloc : Nat → Bool) (dh : DirHandle) (e : Entry) :
    DirHandle × Bool :=
  fillDirCommon abi f dir alloc dh e.name e.type e.ino e.off

/-- The filler a user's getdir gets, `fill_dir_old` (fuse.c:1721), for a name, type and inode
number: no offset, and it returns the handle's error. -/
def fillDirOld (abi : Abi) (f : Fuse) (dir : Nat) (alloc : Nat → Bool) (dh : DirHandle)
    (e : Name × Nat × Nat) : DirHandle × Bool :=
  let dh := (fillDirCommon abi f dir alloc dh e.1 e.2.1 e.2.2 0).1
  (dh, dh.error ≠ 0)

/-- The entries a listing hands the filler, until the filler returns nonzero. -/
def fillEntries {α : Type} (fill : DirHandle → α → DirHandle × Bool) : DirHandle → List α → DirHandle
  | dh, [] => dh
  | dh, e :: es =>
    match fill dh e with
    | (dh, true) => dh
    | (dh, false) => fillEntries fill dh es

/-- The user's listing operation: `readdir` from an offset, or the older `getdir`, each as the
entries it hands the filler and what it returns; or neither. -/
inductive Lister where
  | readdir (list : Nat → List Entry × Int)
  | getdir (list : List (Name × Nat × Nat) × Int)
  | none

/-- Reset the handle and run the user's listing, `readdir_fill` (fuse.c:1729). `pathOk` says
whether `get_path` finds the directory. -/
def readdirFill (abi : Abi) (f : Fuse) (dir : Nat) (alloc : Nat → Bool) (pathOk : Bool) (ops : Lister)
    (offset size : Nat) (dh : DirHandle) : Int × DirHandle :=
  if !pathOk then (-ENOENT, dh) else
  let dh := { dh with len := 0, error := 0, needlen := size, filled := true }
  let (err, dh) := match ops with
    | .readdir list =>
      let (es, ret) := list (if f.major = 5 then 0 else offset)
      (ret, fillEntries (fillDir abi f dir alloc) dh es)
    | .getdir (es, ret) => (ret, fillEntries (fillDirOld abi f dir alloc) dh es)
    | .none => (-ENOSYS, dh)
  let err := if err = 0 then dh.error else err
  (err, if err = 0 then dh else { dh with filled := false })

/-- READDIR on a handle, `do_readdir` (fuse.c:1761): the reply's error and bytes, and the
handle after. -/
def doReaddir (abi : Abi) (f : Fuse) (dir : Nat) (alloc : Nat → Bool) (pathOk : Bool) (ops : Lister)
    (offset size : Nat) (dh : DirHandle) : (Int × List UInt8) × DirHandle :=
  let (err, dh) := if dh.filled then (0, dh) else readdirFill abi f dir alloc pathOk ops offset size dh
  if err ≠ 0 then ((err, []), dh)
  else if dh.filled then
    if offset < dh.len then
      ((0, (dh.contents.drop offset).take (if offset + size > dh.len then dh.len - offset else size)), dh)
    else ((0, []), dh)
  else ((0, dh.bytes), dh)

/-- READDIR requests, each an offset and a size, on one handle in turn: the replies, and the
handle after. -/
def readdirRun (abi : Abi) (f : Fuse) (dir : Nat) (alloc : Nat → Bool) (pathOk : Bool) (ops : Lister) :
    List (Nat × Nat) → DirHandle → List (Int × List UInt8) × DirHandle
  | [], dh => ([], dh)
  | (offset, size) :: reqs, dh =>
    let r := doReaddir abi f dir alloc pathOk ops offset size dh
    let rest := readdirRun abi f dir alloc pathOk ops reqs r.2
    (r.1 :: rest.1, rest.2)

/-! ## The records of a listing -/

/-- Any sequence of calls of `fill_dir` on one handle, whatever each returns: a user's readdir
need not stop when the filler returns nonzero. -/
def fillCalls (abi : Abi) (f : Fuse) (dir : Nat) (alloc : Nat → Bool) : DirHandle → List Entry → DirHandle
  | dh, [] => dh
  | dh, e :: es => fillCalls abi f dir alloc (fillDir abi f dir alloc dh e).1 es

/-- The handle after `readdir_fill` resets it for a request of `size` bytes (fuse.c:1739-1742)
and the user's listing calls the filler on `es`. -/
def listingHandle (abi : Abi) (f : Fuse) (dir : Nat) (alloc : Nat → Bool) (size : Nat) (dh : DirHandle)
    (es : List Entry) : DirHandle :=
  fillCalls abi f dir alloc { dh with len := 0, error := 0, needlen := size, filled := true } es

/-- A record of a listing: the entry it encodes and the byte at which it starts. -/
structure Dirent where
  entry : Entry
  start : Nat
  deriving DecidableEq, Repr

namespace Dirent
variable (abi : Abi) (f : Fuse)

/-- The bytes the record takes. -/
def size (d : Dirent) : Nat := direntSize abi (f.major = 5) d.entry.name

/-- The value of the record's `off` field: the entry's own offset, and without one the start
of the record after it. -/
def off (d : Dirent) : Nat := if d.entry.off ≠ 0 then d.entry.off else d.start + d.size abi f

/-- The record: the header of the negotiated layout, the name cut at `FUSE_NAME_MAX`, and zero
padding. -/
def bytes (dir : Nat) (d : Dirent) : List UInt8 :=
  direntBytes abi (f.major = 5) d.entry.name d.entry.type (direntIno f dir d.entry.name d.entry.ino)
    (d.off abi f)

end Dirent

/-- The layout of a listing: the records of the entries a filler takes, laid end to end from
byte `pos`, each at the start the bytes before it leave. An entry is refused when its name is
empty, in offset mode when its record would end past `needlen`, and when the buffer cannot
grow to hold its record. -/
def listingRecords (abi : Abi) (f : Fuse) (alloc : Nat → Bool) (needlen : Nat) :
    Nat → List Entry → List Dirent
  | _, [] => []
  | pos, e :: es =>
    if e.name = [] ∨ (e.off ≠ 0 ∧ f.major ≠ 5 ∧ needlen < pos + direntSize abi (f.major = 5) e.name) ∨
        alloc (pos + direntSize abi (f.major = 5) e.name) = false then
      listingRecords abi f alloc needlen pos es
    else ⟨e, pos⟩ :: listingRecords abi f alloc needlen (pos + direntSize abi (f.major = 5) e.name) es

/-- The error a listing leaves on a handle whose error was `err`: that of the last entry that
fails, `-EIO` for an empty name and `-ENOMEM` for a record the buffer cannot grow to. -/
def listingError (abi : Abi) (f : Fuse) (alloc : Nat → Bool) (needlen : Nat) :
    Nat → List Entry → Int → Int
  | _, [], err => err
  | pos, e :: es, err =>
    if e.name = [] then listingError abi f alloc needlen pos es (- EIO)
    else if e.off ≠ 0 ∧ f.major ≠ 5 ∧ needlen < pos + direntSize abi (f.major = 5) e.name then
      listingError abi f alloc needlen pos es err
    else if alloc (pos + direntSize abi (f.major = 5) e.name) = false then
      listingError abi f alloc needlen pos es (-ENOMEM)
    else listingError abi f alloc needlen (pos + direntSize abi (f.major = 5) e.name) es err

/-! ## Offset mode -/

/-- The record `fill_dir` appends for an entry that carries its own offset, under major 6 and
later. -/
def entryBytes (abi : Abi) (f : Fuse) (dir : Nat) (e : Entry) : List UInt8 :=
  direntBytes abi false e.name e.type (direntIno f dir e.name e.ino) e.off

/-- The records of the longest prefix of a listing whose records fit in `size` bytes, what an
offset-mode READDIR is meant to reply. -/
def longestFit : Nat → List (List UInt8) → List UInt8
  | _, [] => []
  | size, r :: rs => if r.length ≤ size then r ++ longestFit (size - r.length) rs else []

/-- What an offset-mode READDIR is meant to reply when the buffer may fail to grow, with `used`
bytes already taken: the records of the longest prefix that fits in `size` bytes, or `-ENOMEM`
and no bytes when the buffer cannot grow to hold one of them. -/
def fitReply (alloc : Nat → Bool) (size : Nat) : Nat → List (List UInt8) → Int × List UInt8
  | _, [] => (0, [])
  | used, r :: rs =>
    if size < used + r.length then (0, [])
    else if alloc (used + r.length) then
      let rest := fitReply alloc size (used + r.length) rs
      if rest.1 = 0 then (0, r ++ rest.2) else rest
    else (-ENOMEM, [])

theorem le_direntAlign (x : Nat) : x ≤ direntAlign x := by unfold direntAlign; omega

theorem direntAlign_le (x : Nat) : direntAlign x ≤ x + 7 := by unfold direntAlign; omega

@[simp] theorem direntBytes_length (abi : Abi) (compat5 : Bool) (name : Name) (type ino off : Nat) :
    (direntBytes abi compat5 name type ino off).length = direntSize abi compat5 name := by
  have hm : min (min name.length abi.nameMax) name.length = min name.length abi.nameMax := by omega
  simp only [direntBytes, direntSize, List.length_append, abi.header_length, List.length_take,
    List.length_replicate, hm]
  generalize (if compat5 = true then abi.nameOffsetCompat5 else abi.nameOffset) = o
  have := le_direntAlign (o + min name.length abi.nameMax)
  omega

/-- Appending a record after the first `len` bytes. -/
theorem DirHandle.bytes_of {dh dh' : DirHandle} {r : List UInt8}
    (hc : dh'.contents = dh.contents.take dh.len ++ r) (hlen : dh'.len = dh.len + r.length)
    (hl : dh.len ≤ dh.contents.length) : dh'.bytes = dh.bytes ++ r := by
  simp only [DirHandle.bytes, hc, hlen]
  rw [List.take_append_eq_append_take, List.take_of_length_le (by simp [hl]),
    List.length_take_of_le hl, Nat.add_sub_cancel_left, List.take_length]

/-- With every `realloc` succeeding, the reply is the longest prefix that fits. -/
theorem fitReply_of_alloc {alloc : Nat → Bool} (ha : ∀ n, alloc n = true) {size : Nat} :
    ∀ (used : Nat) (rs : List (List UInt8)), used ≤ size →
      fitReply alloc size used rs = (0, longestFit (size - used) rs)
  | _, [], _ => rfl
  | used, r :: rs, hu => by
    unfold fitReply longestFit
    by_cases h : size < used + r.length
    · rw [if_pos h, if_neg (by omega)]
    · rw [if_neg h, if_pos (ha _), fitReply_of_alloc ha (used + r.length) rs (by omega), Nat.sub_sub]
      simp [if_pos (show r.length ≤ size - used by omega)]

/-- A listing that hands the filler nothing leaves the handle `filled`, with no bytes. -/
theorem readdirFill_empty (abi : Abi) (f : Fuse) (dir : Nat) (alloc : Nat → Bool)
    (list : Nat → List Entry × Int) (offset size : Nat) (dh : DirHandle)
    (h : list (if f.major = 5 then 0 else offset) = ([], 0)) :
    readdirFill abi f dir alloc true (.readdir list) offset size dh =
      (0, { dh with len := 0, error := 0, needlen := size, filled := true }) := by
  simp [readdirFill, h, fillEntries]

/-- A `filled` handle with no bytes replies nothing to every READDIR, and stays as it is. -/
theorem doReaddir_stuck (abi : Abi) (f : Fuse) (dir : Nat) (alloc : Nat → Bool) (pathOk : Bool)
    (ops : Lister) (offset size : Nat) {dh : DirHandle} (hf : dh.filled = true) (hl : dh.len = 0) :
    doReaddir abi f dir alloc pathOk ops offset size dh = ((0, []), dh) := by
  simp [doReaddir, hf, hl]

/-- A `filled` handle with no bytes replies nothing to a whole run of READDIRs. -/
theorem readdirRun_stuck (abi : Abi) (f : Fuse) (dir : Nat) (alloc : Nat → Bool) (pathOk : Bool)
    (ops : Lister) {dh : DirHandle} (hf : dh.filled = true) (hl : dh.len = 0) :
    ∀ reqs : List (Nat × Nat),
      readdirRun abi f dir alloc pathOk ops reqs dh = (reqs.map fun _ => (0, []), dh)
  | [] => rfl
  | (o, s) :: reqs => by
    simp [readdirRun, doReaddir_stuck abi f dir alloc pathOk ops o s hf hl,
      readdirRun_stuck abi f dir alloc pathOk ops hf hl reqs]

/-- After a READDIR whose listing hands over nothing, every later READDIR on the handle
replies nothing, whatever the listing hands over by then. -/
theorem readdirRun_after_empty {abi : Abi} {f : Fuse} {dir : Nat} {alloc : Nat → Bool}
    {list : Nat → List Entry × Int} {offset size : Nat} {dh : DirHandle} (hfill : dh.filled = false)
    (h : list (if f.major = 5 then 0 else offset) = ([], 0)) (ops : Lister) (reqs : List (Nat × Nat)) :
    (readdirRun abi f dir alloc true ops reqs
      (doReaddir abi f dir alloc true (.readdir list) offset size dh).2).1 = reqs.map fun _ => (0, []) := by
  have hd : (doReaddir abi f dir alloc true (.readdir list) offset size dh).2 =
      { dh with len := 0, error := 0, needlen := size, filled := true } := by
    simp [doReaddir, hfill, readdirFill_empty abi f dir alloc list offset size dh h]
  rw [hd, readdirRun_stuck abi f dir alloc true ops rfl rfl]

/-- **A rewind after an empty fill replies nothing.** In offset mode, READDIR at the end of a
one-entry directory fills the handle with nothing and leaves it `filled`; READDIR at offset 0
then replies nothing, whatever `realloc` would answer, where the longest prefix of the listing
from 0 that fits is the entry's record. -/
theorem readdir_rewind_empty (abi : Abi) (hmax : 0 < abi.nameMax) (h : abi.nameOffset + 8 < 2 ^ 32)
    (alloc : Nat → Bool) :
    (readdirRun abi { fuseNew {} with major := 7 } rootId alloc true
        (.readdir fun o => (if o = 0 then [⟨[97], none, 1⟩] else [], 0))
        [(1, abi.nameOffset + 8), (0, abi.nameOffset + 8)] .opened).1 = [(0, []), (0, [])] ∧
    longestFit (abi.nameOffset + 8)
      ([⟨[97], none, 1⟩].map (entryBytes abi { fuseNew {} with major := 7 } rootId)) ≠ [] := by
  constructor
  · rw [readdirRun, readdirRun_after_empty rfl (by decide)]
    simp [doReaddir, DirHandle.opened, readdirFill, fillEntries]
  · have hlen : (entryBytes abi { fuseNew {} with major := 7 } rootId ⟨[97], none, 1⟩).length =
        direntAlign (abi.nameOffset + 1) := by
      simp [entryBytes, direntSize, Nat.min_eq_left hmax]
    have h1 := le_direntAlign (abi.nameOffset + 1)
    have h2 := direntAlign_le (abi.nameOffset + 1)
    rw [List.map_singleton, longestFit, if_pos (by rw [hlen]; omega), longestFit, List.append_nil]
    exact List.ne_nil_of_length_pos (by rw [hlen]; omega)

theorem readdir_rewind_empty_abi :
    (readdirRun ⟨24, 16, 1024, fun c _ _ _ _ => List.replicate (if c then 16 else 24) 0, by simp⟩
        { fuseNew {} with major := 7 } rootId (fun _ => true) true
        (.readdir fun o => (if o = 0 then [⟨[97], none, 1⟩] else [], 0)) [(1, 32), (0, 32)] .opened).1 =
      [(0, []), (0, [])] :=
  (readdir_rewind_empty ⟨24, 16, 1024, fun c _ _ _ _ => List.replicate (if c then 16 else 24) 0, by simp⟩
    (by decide) (by decide) (fun _ => true)).1

/-! ## Any sequence of filler calls -/

theorem direntSize_dvd (abi : Abi) (compat5 : Bool) (name : Name) : 8 ∣ direntSize abi compat5 name :=
  Nat.dvd_mul_left _ _

theorem Dirent.bytes_length (abi : Abi) (f : Fuse) (dir : Nat) (d : Dirent) :
    (d.bytes abi f dir).length = d.size abi f :=
  direntBytes_length ..

section Step
variable {abi : Abi} {f : Fuse} {dir : Nat} {alloc : Nat → Bool} {dh : DirHandle} {e : Entry}

/-- An empty name appends nothing and sets the error. -/
theorem fillDir_empty (h : e.name = []) :
    (fillDir abi f dir alloc dh e).1 = { dh with error := - EIO } := by
  simp [fillDir, fillDirCommon, h]

/-- In offset mode, a record that would end past `needlen` is refused. -/
theorem fillDir_refused (hn : e.name ≠ []) (hw : dh.len + direntSize abi (f.major = 5) e.name < 2 ^ 32)
    (hr : e.off ≠ 0 ∧ f.major ≠ 5 ∧ dh.needlen < dh.len + direntSize abi (f.major = 5) e.name) :
    (fillDir abi f dir alloc dh e).1 = { dh with filled := false } := by
  have : ¬ e.name.length = 0 := by simpa using hn
  simp only [fillDir, fillDirCommon, this, Nat.mod_eq_of_lt hw, if_false]
  have h5 := hr.2.1
  simp only [h5, decide_False] at hr
  simp [hr]

/-- A record the buffer cannot grow to is not appended, and sets `-ENOMEM`. -/
theorem fillDir_nomem (hn : e.name ≠ []) (hw : dh.len + direntSize abi (f.major = 5) e.name < 2 ^ 32)
    (hr : ¬ (e.off ≠ 0 ∧ f.major ≠ 5 ∧ dh.needlen < dh.len + direntSize abi (f.major = 5) e.name))
    (ha : alloc (dh.len + direntSize abi (f.major = 5) e.name) = false) :
    (fillDir abi f dir alloc dh e).1.contents = dh.contents ∧ (fillDir abi f dir alloc dh e).1.len = dh.len ∧
    (fillDir abi f dir alloc dh e).1.error = -ENOMEM ∧
    (fillDir abi f dir alloc dh e).1.needlen = dh.needlen := by
  have : ¬ e.name.length = 0 := by simpa using hn
  simp only [fillDir, fillDirCommon, this, Nat.mod_eq_of_lt hw, if_false, ha]
  by_cases ho : e.off ≠ 0 ∧ f.major ≠ 5
  · have hc : ¬ dh.needlen < dh.len + direntSize abi false e.name := fun h =>
      hr ⟨ho.1, ho.2, by simpa [ho.2] using h⟩
    simp [ho, hc]
  · simp [ho, hr]

/-- Any other entry's record is appended at `len`, its `off` field the entry's own offset or
the new length. -/
theorem fillDir_accepted (hn : e.name ≠ []) (hw : dh.len + direntSize abi (f.major = 5) e.name < 2 ^ 32)
    (hr : ¬ (e.off ≠ 0 ∧ f.major ≠ 5 ∧ dh.needlen < dh.len + direntSize abi (f.major = 5) e.name))
    (ha : alloc (dh.len + direntSize abi (f.major = 5) e.name) = true) :
    (fillDir abi f dir alloc dh e).1.contents = dh.contents.take dh.len ++ Dirent.bytes abi f dir ⟨e, dh.len⟩ ∧
    (fillDir abi f dir alloc dh e).1.len = dh.len + direntSize abi (f.major = 5) e.name ∧
    (fillDir abi f dir alloc dh e).1.error = dh.error ∧
    (fillDir abi f dir alloc dh e).1.needlen = dh.needlen := by
  have : ¬ e.name.length = 0 := by simpa using hn
  simp only [fillDir, fillDirCommon, this, Nat.mod_eq_of_lt hw, if_false, ha]
  by_cases ho : e.off ≠ 0 ∧ f.major ≠ 5
  · have hc : ¬ dh.needlen < dh.len + direntSize abi false e.name := fun h =>
      hr ⟨ho.1, ho.2, by simpa [ho.2] using h⟩
    simp [ho, hc, Dirent.bytes, Dirent.off, Dirent.size, ho.2]
  · simp [ho, hr, Dirent.bytes, Dirent.off, Dirent.size]

end Step

/-- **Any sequence of filler calls appends the records of the entries it takes.** While the
records of all calls together stay below `2 ^ 32` bytes, the handle's bytes grow by the
records `listingRecords` lays out from `len`, in call order; `len` grows by their size; the
error is the last failing call's, as `listingError` says. -/
theorem fillCalls_records {abi : Abi} {f : Fuse} {dir : Nat} {alloc : Nat → Bool} :
    ∀ (es : List Entry) (dh : DirHandle), dh.len ≤ dh.contents.length →
      dh.len + (es.map fun e => direntSize abi (f.major = 5) e.name).sum < 2 ^ 32 →
      (fillCalls abi f dir alloc dh es).bytes = dh.bytes ++
          ((listingRecords abi f alloc dh.needlen dh.len es).map (Dirent.bytes abi f dir)).flatten ∧
        (fillCalls abi f dir alloc dh es).len =
          dh.len + ((listingRecords abi f alloc dh.needlen dh.len es).map (Dirent.size abi f)).sum ∧
        (fillCalls abi f dir alloc dh es).error = listingError abi f alloc dh.needlen dh.len es dh.error ∧
        (fillCalls abi f dir alloc dh es).len ≤ (fillCalls abi f dir alloc dh es).contents.length
  | [], dh, hl, _ => by simp [fillCalls, listingRecords, listingError, hl]
  | e :: es, dh, hl, hw => by
    simp only [List.map_cons, List.sum_cons] at hw
    have ih := @fillCalls_records abi f dir alloc es
    have hw1 : dh.len + direntSize abi (f.major = 5) e.name < 2 ^ 32 := by omega
    by_cases hn : e.name = []
    · obtain ⟨h1, h2, h3, h4⟩ := ih { dh with error := - EIO } hl (by simp only; omega)
      simp only [fillCalls, fillDir_empty hn, listingRecords, listingError, hn, true_or, if_true]
        at h1 h2 h3 h4 ⊢
      exact ⟨h1, h2, h3, h4⟩
    by_cases hr : e.off ≠ 0 ∧ f.major ≠ 5 ∧ dh.needlen < dh.len + direntSize abi (f.major = 5) e.name
    · obtain ⟨h1, h2, h3, h4⟩ := ih { dh with filled := false } hl (by simp only; omega)
      rw [fillCalls, fillDir_refused hn hw1 hr, listingRecords, if_pos (Or.inr (Or.inl hr)), listingError,
        if_neg hn, if_pos hr]
      exact ⟨h1, h2, h3, h4⟩
    cases ha : alloc (dh.len + direntSize abi (f.major = 5) e.name)
    · obtain ⟨hc, hlen, herr, hneed⟩ := @fillDir_nomem abi f dir alloc dh e hn hw1 hr ha
      have hb : (fillDir abi f dir alloc dh e).1.bytes = dh.bytes := by simp [DirHandle.bytes, hc, hlen]
      obtain ⟨h1, h2, h3, h4⟩ := ih _ (by rw [hc, hlen]; exact hl) (by rw [hlen]; omega)
      simp only [hlen, hneed, herr, hb] at h1 h2 h3
      rw [fillCalls, listingRecords, if_pos (Or.inr (Or.inr ha)), listingError, if_neg hn, if_neg hr,
        if_pos ha]
      exact ⟨h1, h2, h3, h4⟩
    · obtain ⟨hc, hlen, herr, hneed⟩ := @fillDir_accepted abi f dir alloc dh e hn hw1 hr ha
      have hl1 : (fillDir abi f dir alloc dh e).1.len ≤ (fillDir abi f dir alloc dh e).1.contents.length := by
        simp [hc, hlen, List.length_take_of_le hl, Dirent.bytes_length, Dirent.size]
      obtain ⟨h1, h2, h3, h4⟩ := ih _ hl1 (by rw [hlen]; omega)
      simp only [hlen, hneed, herr] at h1 h2 h3
      have hb := DirHandle.bytes_of hc (by rw [hlen, Dirent.bytes_length]; rfl) hl
      rw [fillCalls, listingRecords, if_neg (by simp [hn, hr, ha]), listingError, if_neg hn, if_neg hr,
        if_neg (by simp [ha])]
      simp only [List.map_cons, List.flatten_cons, List.sum_cons, h1, h2, h3, hb, List.append_assoc]
      exact ⟨trivial, by simp only [Dirent.size]; omega, trivial, by rw [← h2]; exact h4⟩

/-- With every `realloc` succeeding, the only failing calls are those with an empty name. -/
theorem listingError_of_alloc {abi : Abi} {f : Fuse} {alloc : Nat → Bool} (ha : ∀ n, alloc n = true)
    {needlen : Nat} : ∀ (pos : Nat) (es : List Entry) (err : Int),
      listingError abi f alloc needlen pos es err = if ∃ e ∈ es, e.name = [] then - EIO else err
  | _, [], _ => by simp [listingError]
  | pos, e :: es, err => by
    unfold listingError
    by_cases hn : e.name = []
    · rw [if_pos hn, listingError_of_alloc ha,
        if_pos (⟨e, List.mem_cons_self _ _, hn⟩ : ∃ x ∈ e :: es, x.name = [])]
      split_ifs <;> rfl
    have hex : (∃ x ∈ e :: es, x.name = []) ↔ ∃ x ∈ es, x.name = [] := by simp [hn]
    rw [if_neg hn, if_congr hex rfl rfl]
    split_ifs <;> simp_all [listingError_of_alloc ha]

/-- Each record taken starts where the records before it end. -/
theorem listingRecords_start {abi : Abi} {f : Fuse} {alloc : Nat → Bool} {needlen : Nat} :
    ∀ {pos : Nat} {es : List Entry} {pre : List Dirent} {d : Dirent} {rest : List Dirent},
      listingRecords abi f alloc needlen pos es = pre ++ d :: rest →
      d.start = pos + (pre.map (Dirent.size abi f)).sum
  | _, [], pre, _, _, h => by simp [listingRecords] at h
  | pos, e :: es, pre, d, rest, h => by
    unfold listingRecords at h
    split_ifs at h
    · exact listingRecords_start h
    · cases pre with
      | nil => cases h; simp
      | cons d0 pre =>
        obtain ⟨rfl, h'⟩ := List.cons.inj h
        rw [listingRecords_start h']
        simp only [List.map_cons, List.sum_cons, Dirent.size]
        omega

/-- Records are padded to multiples of 8, so every record starts at one. -/
theorem dvd_sum_size (abi : Abi) (f : Fuse) (l : List Dirent) : 8 ∣ (l.map (Dirent.size abi f)).sum := by
  induction l with
  | nil => exact Nat.dvd_zero 8
  | cons d l ih => simpa using Nat.dvd_add (direntSize_dvd ..) ih

theorem length_flatten_bytes (abi : Abi) (f : Fuse) (dir : Nat) (l : List Dirent) :
    ((l.map (Dirent.bytes abi f dir)).flatten).length = (l.map (Dirent.size abi f)).sum := by
  simp [List.length_flatten, Function.comp_def, Dirent.bytes_length]

/-- A READDIR on a `filled` handle replies the slice of its bytes at the offset, cut at the
size. -/
theorem doReaddir_filled (abi : Abi) (f : Fuse) (dir : Nat) (alloc : Nat → Bool) (pathOk : Bool)
    (ops : Lister) (offset size : Nat) {dh : DirHandle} (hf : dh.filled = true) :
    (doReaddir abi f dir alloc pathOk ops offset size dh).1 = (0, (dh.bytes.drop offset).take size) := by
  simp only [doReaddir, hf, if_true, ne_eq, not_true_eq_false, if_false, DirHandle.bytes]
  split
  · rw [List.drop_take, List.take_take]
    have : (if offset + size > dh.len then dh.len - offset else size) = min size (dh.len - offset) := by
      split <;> omega
    rw [this]
  · rw [List.drop_eq_nil_of_le (by simp; omega), List.take_nil]

/-- **The dirent encoding.** After `readdir_fill` resets a handle, any sequence of `fill_dir`
calls whose records take fewer than `2 ^ 32` bytes in all leaves in the handle exactly the
records of the entries it took, in call order, `len` their total size, and the error of the
last call that failed: `-EIO` for an empty name, `-ENOMEM` for a record the buffer could not
grow to; when `realloc` never fails, the error is `-EIO` exactly when a name was empty. Each
record starts at a multiple of 8, where the records before it end, and is padded to a multiple
of 8. A record without its own offset carries in its `off` field the start of the next record:
a READDIR of a `filled` handle at that offset replies the records after it, from their first
byte. -/
theorem dirent_encoding (abi : Abi) (f : Fuse) (dir : Nat) (alloc : Nat → Bool) (size : Nat)
    (dh : DirHandle) (es : List Entry)
    (hfit : (es.map fun e => direntSize abi (f.major = 5) e.name).sum < 2 ^ 32) :
    (listingHandle abi f dir alloc size dh es).bytes =
        ((listingRecords abi f alloc size 0 es).map (Dirent.bytes abi f dir)).flatten ∧
      (listingHandle abi f dir alloc size dh es).len =
        ((listingRecords abi f alloc size 0 es).map (Dirent.size abi f)).sum ∧
      (listingHandle abi f dir alloc size dh es).error = listingError abi f alloc size 0 es 0 ∧
      ((∀ n, alloc n = true) →
        (listingHandle abi f dir alloc size dh es).error = if ∃ e ∈ es, e.name = [] then - EIO else 0) ∧
      ∀ pre d rest, listingRecords abi f alloc size 0 es = pre ++ d :: rest →
        d.start = (pre.map (Dirent.size abi f)).sum ∧ 8 ∣ d.start ∧ 8 ∣ d.size abi f ∧
        (listingHandle abi f dir alloc size dh es).bytes.drop d.start =
          ((d :: rest).map (Dirent.bytes abi f dir)).flatten ∧
        (d.entry.off = 0 → d.off abi f = d.start + d.size abi f ∧
          ∀ pathOk ops s, (listingHandle abi f dir alloc size dh es).filled = true →
            (doReaddir abi f dir alloc pathOk ops (d.off abi f) s
              (listingHandle abi f dir alloc size dh es)).1 =
              (0, ((rest.map (Dirent.bytes abi f dir)).flatten).take s)) := by
  obtain ⟨h1, h2, h3, -⟩ := @fillCalls_records abi f dir alloc es
    { dh with len := 0, error := 0, needlen := size, filled := true } (Nat.zero_le _) (by simpa using hfit)
  simp only [Nat.zero_add] at h2 h3
  replace h1 : (listingHandle abi f dir alloc size dh es).bytes =
      ((listingRecords abi f alloc size 0 es).map (Dirent.bytes abi f dir)).flatten := h1
  refine ⟨h1, h2, h3, fun ha => h3.trans (listingError_of_alloc ha 0 es 0), fun pre d rest hrec => ?_⟩
  have hs : d.start = (pre.map (Dirent.size abi f)).sum := by simpa using listingRecords_start hrec
  have hdrop : (listingHandle abi f dir alloc size dh es).bytes.drop d.start =
      ((d :: rest).map (Dirent.bytes abi f dir)).flatten := by
    rw [h1, hrec, List.map_append, List.flatten_append, hs]
    exact List.drop_left' (length_flatten_bytes abi f dir pre)
  refine ⟨hs, hs ▸ dvd_sum_size abi f pre, direntSize_dvd .., hdrop,
    fun h0 => ⟨by simp [Dirent.off, h0], fun pathOk ops s hf => ?_⟩⟩
  rw [doReaddir_filled abi f dir alloc pathOk ops _ s hf, show d.off abi f = d.start + d.size abi f by
    simp [Dirent.off, h0], ← List.drop_drop, hdrop, List.map_cons, List.flatten_cons,
    List.drop_left' (Dirent.bytes_length abi f dir d)]

theorem dirent_encoding_nomem :
    ([⟨[97], none, 0⟩, ⟨[98], none, 0⟩].map fun e : Entry =>
        direntSize ⟨24, 16, 1024, fun c _ _ _ _ => List.replicate (if c then 16 else 24) 0, by simp⟩
          ({ fuseNew {} with major := 7 }.major = 5) e.name).sum < 2 ^ 32 ∧
    (listingHandle ⟨24, 16, 1024, fun c _ _ _ _ => List.replicate (if c then 16 else 24) 0, by simp⟩
        { fuseNew {} with major := 7 } rootId (fun n => decide (n ≤ 32)) 4096 .opened
        [⟨[97], none, 0⟩, ⟨[98], none, 0⟩]).error =
      listingError ⟨24, 16, 1024, fun c _ _ _ _ => List.replicate (if c then 16 else 24) 0, by simp⟩
        { fuseNew {} with major := 7 } (fun n => decide (n ≤ 32)) 4096 0 [⟨[97], none, 0⟩, ⟨[98], none, 0⟩] 0 ∧
    listingError ⟨24, 16, 1024, fun c _ _ _ _ => List.replicate (if c then 16 else 24) 0, by simp⟩
        { fuseNew {} with major := 7 } (fun n => decide (n ≤ 32)) 4096 0 [⟨[97], none, 0⟩, ⟨[98], none, 0⟩] 0 =
      -ENOMEM :=
  ⟨by decide, (dirent_encoding _ _ rootId _ 4096 .opened _ (by decide)).2.2.1, by decide⟩
/-! ## Offset-less listings past `2 ^ 32` bytes -/

theorem sum_map_replicate {α : Type} (g : α → Nat) (a : α) :
    ∀ n, ((List.replicate n a).map g).sum = n * g a
  | 0 => by simp
  | n + 1 => by
    simp only [List.replicate_succ, List.map_cons, List.sum_cons, sum_map_replicate g a n, Nat.succ_mul]
    omega

/-- Offset-less entries with a name are all taken. -/
theorem listingRecords_replicate {abi : Abi} {f : Fuse} {needlen : Nat} {e : Entry} (hn : e.name ≠ [])
    (h0 : e.off = 0) : ∀ n pos, ((listingRecords abi f (fun _ => true) needlen pos (List.replicate n e)).map
      (Dirent.size abi f)).sum = n * direntSize abi (f.major = 5) e.name
  | 0, _ => by simp [listingRecords]
  | n + 1, pos => by
    rw [List.replicate_succ, listingRecords, if_neg (by simp [hn, h0])]
    simp only [List.map_cons, List.sum_cons, Dirent.size, listingRecords_replicate hn h0 n, Nat.succ_mul]
    omega

/-- `n` offset-less entries with a name fill `n` records, while that stays below `2 ^ 32`
bytes and every `realloc` succeeds. -/
theorem listingHandle_replicate_len {abi : Abi} {f : Fuse} {dir size : Nat} {dh : DirHandle}
    {e : Entry} (hn : e.name ≠ []) (h0 : e.off = 0) (n : Nat)
    (hw : n * direntSize abi (f.major = 5) e.name < 2 ^ 32) :
    (listingHandle abi f dir (fun _ => true) size dh (List.replicate n e)).len =
      n * direntSize abi (f.major = 5) e.name := by
  have := (@fillCalls_records abi f dir (fun _ => true) (List.replicate n e)
    { dh with len := 0, error := 0, needlen := size, filled := true } (Nat.zero_le _)
    (by rw [sum_map_replicate]; simpa using hw)).2.1
  rw [listingRecords_replicate hn h0] at this
  simpa [listingHandle] using this

/-- A record whose end reaches `2 ^ 32` is still taken, with `len` wrapped to 0, when
`realloc` to 0 bytes succeeds. -/
theorem fillDir_wraps {abi : Abi} {f : Fuse} {dir : Nat} {alloc : Nat → Bool} {dh : DirHandle}
    {e : Entry} (hn : e.name ≠ []) (h0 : e.off = 0) (hw : dh.len + direntSize abi (f.major = 5) e.name = 2 ^ 32)
    (ha : alloc 0 = true) :
    (fillDir abi f dir alloc dh e).1.len = 0 ∧ (fillDir abi f dir alloc dh e).2 = false := by
  have : ¬ e.name.length = 0 := by simpa using hn
  simp [fillDir, fillDirCommon, this, hw, h0, ha]

/-- **`len` wraps.** Nothing bounds an offset-less listing: after `2 ^ 27 - 1` entries named
"a" under the layout with `FUSE_NAME_OFFSET` 24, `len` is `2 ^ 32 - 32`, and the next entry's
32-byte record is taken with `newlen = len + entsize` wrapped to 0: the buffer is reallocated
to 0 bytes while the record is written at `contents + len`. -/
theorem dirent_len_wraps :
    (listingHandle ⟨24, 16, 1024, fun c _ _ _ _ => List.replicate (if c then 16 else 24) 0, by simp⟩
        { fuseNew {} with major := 7 } rootId (fun _ => true) 4096 .opened (List.replicate (2 ^ 27 - 1) ⟨[97], none, 0⟩)).len +
        direntSize ⟨24, 16, 1024, fun c _ _ _ _ => List.replicate (if c then 16 else 24) 0, by simp⟩ false [97] =
      2 ^ 32 ∧
    (fillDir ⟨24, 16, 1024, fun c _ _ _ _ => List.replicate (if c then 16 else 24) 0, by simp⟩
        { fuseNew {} with major := 7 } rootId (fun _ => true)
        (listingHandle ⟨24, 16, 1024, fun c _ _ _ _ => List.replicate (if c then 16 else 24) 0, by simp⟩
          { fuseNew {} with major := 7 } rootId (fun _ => true) 4096 .opened (List.replicate (2 ^ 27 - 1) ⟨[97], none, 0⟩))
        ⟨[97], none, 0⟩).1.len = 0 ∧
    (fillDir ⟨24, 16, 1024, fun c _ _ _ _ => List.replicate (if c then 16 else 24) 0, by simp⟩
        { fuseNew {} with major := 7 } rootId (fun _ => true)
        (listingHandle ⟨24, 16, 1024, fun c _ _ _ _ => List.replicate (if c then 16 else 24) 0, by simp⟩
          { fuseNew {} with major := 7 } rootId (fun _ => true) 4096 .opened (List.replicate (2 ^ 27 - 1) ⟨[97], none, 0⟩))
        ⟨[97], none, 0⟩).2 = false := by
  have hlen := @listingHandle_replicate_len ⟨24, 16, 1024, fun c _ _ _ _ =>
      List.replicate (if c then 16 else 24) 0, by simp⟩ { fuseNew {} with major := 7 } rootId 4096 .opened
    ⟨[97], none, 0⟩ (by decide) rfl (2 ^ 27 - 1) (by decide)
  have hw : (listingHandle ⟨24, 16, 1024, fun c _ _ _ _ => List.replicate (if c then 16 else 24) 0, by simp⟩
      { fuseNew {} with major := 7 } rootId (fun _ => true) 4096 .opened (List.replicate (2 ^ 27 - 1) ⟨[97], none, 0⟩)).len +
      direntSize ⟨24, 16, 1024, fun c _ _ _ _ => List.replicate (if c then 16 else 24) 0, by simp⟩
        ({ fuseNew {} with major := 7 }.major = 5) (⟨[97], none, 0⟩ : Entry).name = 2 ^ 32 := by
    rw [hlen]; decide
  exact ⟨by rw [hlen]; decide, fillDir_wraps (by decide) rfl hw rfl⟩

end FuseCore
