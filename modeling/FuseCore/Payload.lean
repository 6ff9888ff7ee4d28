import FuseCore.Readdir
import Mathlib.Data.List.OfFn

/-!
# Reply payloads (fuse.c:537-560, :831-849, :1199-1247, :1412-1493, :1761-1790)

`send_reply` sends the header and, when the error is 0 and the size is not, `argsize` bytes
from the pointer it is given; an error outside `(-1000, 0]` goes out as `-ERANGE`. The
handlers here pass a pointer into a buffer they own: `Payload` records the buffer's size,
where the payload starts in it and how many bytes `send_reply` takes, and the reply stays
inside its buffer when it ends before the buffer does (`Payload.Inside`).

READ and the reading forms of GETXATTR and LISTXATTR take the user's result as the payload
size, checked only for its sign: a result above the requested size reads past the buffer,
and no `-ERANGE` is sent (`doRead_inside_iff`, `xattrRead_inside_iff`,
`reply_overruns_buffer`). READLINK and, when the user's readdir keeps to one offset mode,
READDIR stay inside (`readlink_readdir_inside`).
-/

namespace FuseCore

/-- What `send_reply` sends after the header: the error, and `size` bytes taken from `start`
on in a buffer of `buffer` bytes. -/
structure Payload where
  error : Int
  buffer : Nat
  start : Nat
  size : Nat
  deriving DecidableEq, Repr

/-- The payload ends before its buffer does. -/
def Payload.Inside (r : Payload) : Prop := r.start + r.size ≤ r.buffer

instance (r : Payload) : Decidable r.Inside := inferInstanceAs (Decidable (r.start + r.size ≤ r.buffer))

/-- `send_reply` (fuse.c:539) of `argsize` bytes from `start` in a buffer of `buffer` bytes. -/
def sendReply (error : Int) (buffer start argsize : Nat) : Payload :=
  let error := if error ≤ -1000 ∨ error > 0 then - ERANGE else error
  ⟨error, buffer, start, if argsize ≠ 0 ∧ error = 0 then argsize else 0⟩

section SendReply
variable (error : Int) (buffer start argsize : Nat)

@[simp] theorem sendReply_buffer : (sendReply error buffer start argsize).buffer = buffer := rfl

@[simp] theorem sendReply_start : (sendReply error buffer start argsize).start = start := rfl

/-- With error 0 the whole size goes out. -/
@[simp] theorem sendReply_ok_size : (sendReply 0 buffer start argsize).size = argsize := by
  simp only [sendReply]; split <;> simp_all

@[simp] theorem sendReply_size_zero : (sendReply error buffer start 0).size = 0 := by
  simp [sendReply]

theorem sendReply_size_le : (sendReply error buffer start argsize).size ≤ argsize := by
  simp only [sendReply]; split_ifs <;> omega

end SendReply

/-! ## READ, GETXATTR, LISTXATTR -/

/-- READ, `do_read` (fuse.c:1199): a buffer of `arg->size` bytes, the user's read on the path
(`-ENOENT` without a path, `-ENOSYS` without a read operation), and its result as the payload
size when it is not negative. -/
def doRead (size : Nat) (mallocOk pathOk hasRead : Bool) (res : Int) : Payload :=
  if !mallocOk then sendReply (- ENOMEM) 0 0 0 else
  let res := if !pathOk then - ENOENT else if !hasRead then - ENOSYS else res
  if 0 ≤ res then sendReply 0 size 0 res.toNat else sendReply res size 0 0

/-- The reading form of GETXATTR and LISTXATTR, for a nonzero size: a buffer of `size` bytes,
the user's operation on the path, and its result as the payload size when it is positive. -/
def xattrRead (size : Nat) (mallocOk pathOk hasOp : Bool) (res : Int) : Payload :=
  if !mallocOk then sendReply (- ENOMEM) 0 0 0 else
  let res := if !pathOk then - ENOENT else if !hasOp then - ENOSYS else res
  if 0 < res then sendReply 0 size 0 res.toNat else sendReply res size 0 0

/-- `do_getxattr_read` (fuse.c:1412), with `common_getxattr`. -/
def doGetxattrRead (size : Nat) (mallocOk pathOk hasGetxattr : Bool) (res : Int) : Payload :=
  xattrRead size mallocOk pathOk hasGetxattr res

/-- `do_listxattr_read` (fuse.c:1476), with `common_listxattr`. -/
def doListxattrRead (size : Nat) (mallocOk pathOk hasListxattr : Bool) (res : Int) : Payload :=
  xattrRead size mallocOk pathOk hasListxattr res

/-- A READ reply stays inside its buffer exactly when the user's read returns at most the
size asked for. -/
theorem doRead_inside_iff (size : Nat) (res : Int) :
    (doRead size true true true res).Inside ↔ res ≤ size := by
  simp only [doRead, Bool.not_true, Bool.false_eq_true, if_false]
  by_cases h : 0 ≤ res
  · simp only [h, if_true, Payload.Inside, sendReply_start, sendReply_buffer, sendReply_ok_size]
    omega
  · simp only [h, if_false, Payload.Inside, sendReply_start, sendReply_buffer, sendReply_size_zero]
    omega

/-- A reading GETXATTR or LISTXATTR reply stays inside its buffer exactly when the user's
operation returns at most the size asked for; a larger result goes out with error 0, never
as `-ERANGE`. -/
theorem xattrRead_inside_iff (size : Nat) (res : Int) :
    ((xattrRead size true true true res).Inside ↔ res ≤ size) ∧
      (0 < res → (xattrRead size true true true res).error = 0) := by
  simp only [xattrRead, Bool.not_true, Bool.false_eq_true, if_false]
  by_cases h : 0 < res
  · simp only [h, if_true, Payload.Inside, sendReply_start, sendReply_buffer, sendReply_ok_size]
    exact ⟨by omega, fun _ => by simp [sendReply]⟩
  · simp only [h, if_false, Payload.Inside, sendReply_start, sendReply_buffer, sendReply_size_zero]
    exact ⟨by omega, False.elim⟩

/-- **READ and the reading xattr requests send past their buffer.** A READ of 4096 bytes
whose user read returns 8192 sends 8192 bytes from its 4096-byte buffer; a GETXATTR or
LISTXATTR of 16 bytes whose user operation returns 32 sends 32 bytes from its 16-byte buffer,
with error 0 and no `-ERANGE`. -/
theorem reply_overruns_buffer :
    (doRead 4096 true true true 8192).size = 8192 ∧ ¬ (doRead 4096 true true true 8192).Inside ∧
    (doGetxattrRead 16 true true true 32).error = 0 ∧ (doGetxattrRead 16 true true true 32).size = 32 ∧
      ¬ (doGetxattrRead 16 true true true 32).Inside ∧
    (doListxattrRead 16 true true true 32).error = 0 ∧ (doListxattrRead 16 true true true 32).size = 32 ∧
      ¬ (doListxattrRead 16 true true true 32).Inside := by
  have hr := (doRead_inside_iff 4096 8192).not.2 (by decide)
  obtain ⟨hx, he⟩ := xattrRead_inside_iff 16 32
  have hx := hx.not.2 (by decide)
  exact ⟨rfl, hr, he (by decide), rfl, hx, he (by decide), rfl, hx⟩

/-! ## READDIR -/

/-- A listing keeps to one offset mode: each call of the user's readdir hands over entries
that all carry an offset or none of which does; under protocol 5 offsets are ignored. A
getdir passes no offsets. -/
def Lister.SingleOffsetMode (f : Fuse) : Lister → Prop
  | .readdir list => f.major = 5 ∨ ∀ o, (∀ e ∈ (list o).1, e.off = 0) ∨ ∀ e ∈ (list o).1, e.off ≠ 0
  | .getdir _ => True
  | .none => True

/-- What every call of a filler keeps, a whole listing keeps. -/
theorem fillEntries_inv {α : Type} {fill : DirHandle → α → DirHandle × Bool} (P : DirHandle → Prop) :
    ∀ (es : List α) (dh : DirHandle), (∀ dh, ∀ e ∈ es, P dh → P (fill dh e).1) → P dh →
      P (fillEntries fill dh es)
  | [], _, _, h => h
  | e :: es, dh, hs, h => by
    have h1 := hs dh e (List.mem_cons_self _ _) h
    cases hr : fill dh e with
    | mk dh' b =>
      rw [hr] at h1
      cases b with
      | true => simpa only [fillEntries, hr] using h1
      | false =>
        simpa only [fillEntries, hr] using
          fillEntries_inv P es dh' (fun d e he => hs d e (List.mem_cons_of_mem _ he)) h1

section FillDirCommon
variable {abi : Abi} {f : Fuse} {dir : Nat} {alloc : Nat → Bool} {dh : DirHandle} {name : Name}
  {type ino off : Nat}

/-- A record without an offset, or any record under protocol 5, leaves `filled` alone. -/
theorem fillDirCommon_filled (h : off = 0 ∨ f.major = 5) :
    (fillDirCommon abi f dir alloc dh name type ino off).1.filled = dh.filled := by
  have h' : ¬ (off ≠ 0 ∧ f.major ≠ 5) := by omega
  simp only [fillDirCommon, h', if_false]
  split_ifs <;> rfl

theorem fillDirCommon_needlen :
    (fillDirCommon abi f dir alloc dh name type ino off).1.needlen = dh.needlen := by
  simp only [fillDirCommon]
  split_ifs <;> rfl

/-- A record with an offset, outside protocol 5, is appended only if `len` stays within
`needlen`. -/
theorem fillDirCommon_len_le (h : off ≠ 0 ∧ f.major ≠ 5) (hl : dh.len ≤ dh.needlen) :
    (fillDirCommon abi f dir alloc dh name type ino off).1.len ≤ dh.needlen := by
  simp only [fillDirCommon, h, if_true]
  split_ifs <;> dsimp only at * <;> omega

end FillDirCommon

/-- What every call of the filler keeps, from the handle `readdir_fill` resets, holds of the
handle it ends with when it returns 0. -/
theorem readdirFill_inv {abi : Abi} {f : Fuse} {dir : Nat} {alloc : Nat → Bool} {pathOk : Bool} {ops : Lister}
    {offset size : Nat} {dh : DirHandle} (P : DirHandle → Prop)
    (hr : P { dh with len := 0, error := 0, needlen := size, filled := true })
    (hd : ∀ list, ops = .readdir list → ∀ d, ∀ e ∈ (list (if f.major = 5 then 0 else offset)).1,
      P d → P (fillDir abi f dir alloc d e).1)
    (hg : ∀ es ret, ops = .getdir (es, ret) → ∀ d, ∀ e ∈ es, P d → P (fillDirOld abi f dir alloc d e).1)
    (h0 : (readdirFill abi f dir alloc pathOk ops offset size dh).1 = 0) :
    P (readdirFill abi f dir alloc pathOk ops offset size dh).2 := by
  cases pathOk with
  | false => simp only [readdirFill, Bool.not_false, if_true] at h0; exact absurd h0 (by decide)
  | true =>
    cases ops with
    | readdir list =>
      have := fillEntries_inv P _ _ (hd list rfl) hr
      simp only [readdirFill, Bool.not_true, Bool.false_eq_true, if_false] at h0 ⊢
      generalize list (if f.major = 5 then 0 else offset) = r at this h0 ⊢
      generalize fillEntries _ _ r.1 = d at this h0 ⊢
      split_ifs at h0 ⊢ with hret
      exacts [this, absurd h0 hret]
    | getdir l =>
      have := fillEntries_inv P _ _ (hg l.1 l.2 rfl) hr
      simp only [readdirFill, Bool.not_true, Bool.false_eq_true, if_false] at h0 ⊢
      generalize fillEntries _ _ l.1 = d at this h0 ⊢
      split_ifs at h0 ⊢ with hret
      exacts [this, absurd h0 hret]
    | none =>
      simp only [readdirFill, Bool.not_true, Bool.false_eq_true, if_false] at h0
      exact absurd h0 (by decide)

/-- In one offset mode, a listing that `readdir_fill` ends without error leaves the handle
`filled`, or holding at most the size asked for. -/
theorem readdirFill_bounded {abi : Abi} {f : Fuse} {dir : Nat} {alloc : Nat → Bool} {pathOk : Bool}
    {ops : Lister}
    {offset size : Nat} {dh : DirHandle} (hm : ops.SingleOffsetMode f)
    (h0 : (readdirFill abi f dir alloc pathOk ops offset size dh).1 = 0) :
    (readdirFill abi f dir alloc pathOk ops offset size dh).2.filled = true ∨
      (readdirFill abi f dir alloc pathOk ops offset size dh).2.len ≤ size := by
  -- without offsets `filled` stays set; with them `len` stays within `needlen`, the size
  have keep : (∀ list, ops = .readdir list →
      ∀ d, ∀ e ∈ (list (if f.major = 5 then 0 else offset)).1, e.off = 0 ∨ f.major = 5) →
      (readdirFill abi f dir alloc pathOk ops offset size dh).2.filled = true :=
    fun ho => readdirFill_inv (fun d => d.filled = true) rfl
      (fun list hl d e he hd => (fillDirCommon_filled (ho list hl d e he)).trans hd)
      (fun _ _ _ d _ _ hd => (fillDirCommon_filled (Or.inl rfl)).trans hd) h0
  cases ops with
  | readdir list =>
    rcases hm with h5 | hm
    · exact .inl (keep fun _ _ _ _ _ => .inr h5)
    · rcases hm (if f.major = 5 then 0 else offset) with h | h
      · exact .inl (keep fun _ hl _ e he => .inl (h e (Lister.readdir.inj hl ▸ he)))
      · by_cases h5 : f.major = 5
        · exact .inl (keep fun _ _ _ _ _ => .inr h5)
        refine .inr (readdirFill_inv (fun d => d.len ≤ size ∧ d.needlen = size) ⟨Nat.zero_le _, rfl⟩
          ?_ (fun _ _ hl => by cases hl) h0).1
        rintro _ ⟨⟩ d e he ⟨hl, hn⟩
        exact ⟨hn ▸ fillDirCommon_len_le ⟨h e he, h5⟩ (hn ▸ hl), fillDirCommon_needlen.trans hn⟩
  | getdir _ => exact .inl (keep fun _ hl => by cases hl)
  | none => exact .inl (keep fun _ hl => by cases hl)

/-- The slice a `filled` handle replies at an offset below `len`. -/
theorem DirHandle.slice (d : DirHandle) {offset : Nat} (size : Nat) (h : offset < d.len) :
    (d.contents.drop offset).take (if offset + size > d.len then d.len - offset else size) =
        (d.bytes.drop offset).take (if offset + size > d.len then d.len - offset else size) ∧
      offset + (if offset + size > d.len then d.len - offset else size) ≤ d.len ∧
      (if offset + size > d.len then d.len - offset else size) ≤ size := by
  refine ⟨?_, by split <;> omega, by split <;> omega⟩
  rw [DirHandle.bytes, List.drop_take, List.take_take, Nat.min_eq_left (by split <;> omega)]

/-- READDIR's reply is a slice of the handle's bytes: from `o`, `k` bytes, ending by `len`. -/
theorem doReaddir_slice {abi : Abi} {f : Fuse} {dir : Nat} {alloc : Nat → Bool} {pathOk : Bool}
    {ops : Lister}
    {offset size : Nat} {dh : DirHandle} (hm : ops.SingleOffsetMode f) :
    ∃ o k, (doReaddir abi f dir alloc pathOk ops offset size dh).1.2 =
        ((doReaddir abi f dir alloc pathOk ops offset size dh).2.bytes.drop o).take k ∧
      o + k ≤ (doReaddir abi f dir alloc pathOk ops offset size dh).2.len ∧ k ≤ size := by
  have hfill := @readdirFill_bounded abi f dir alloc pathOk ops offset size dh hm
  unfold doReaddir
  cases hf : dh.filled with
  | true =>
    simp only [if_true, ne_eq, not_true_eq_false, if_false, hf]
    split
    · exact ⟨offset, _, dh.slice size ‹_›⟩
    · exact ⟨0, 0, rfl, by omega, by omega⟩
  | false =>
    simp only [Bool.false_eq_true, if_false]
    generalize readdirFill abi f dir alloc pathOk ops offset size dh = r at hfill
    obtain ⟨err, d⟩ := r
    dsimp only at hfill ⊢
    by_cases h0 : err = 0
    · simp only [h0, ne_eq, not_true_eq_false, if_false, true_implies] at hfill ⊢
      cases hd : d.filled with
      | true =>
        simp only [if_true]
        split
        · exact ⟨offset, _, d.slice size ‹_›⟩
        · exact ⟨0, 0, rfl, by omega, by omega⟩
      | false =>
        simp only [hd, Bool.false_eq_true, false_or, if_false] at hfill ⊢
        exact ⟨0, d.len, by simp [DirHandle.bytes], by omega, hfill⟩
    · simp only [h0, ne_eq, not_false_eq_true, if_true]
      exact ⟨0, 0, rfl, by omega, by omega⟩

/-! ## READLINK -/

/-- READLINK, `do_readlink` (fuse.c:831): the user's readlink writes into a buffer of
`PATH_MAX + 1` bytes, `link` after the call; its last byte is then set to 0, and with result
0 the payload is the string in it, up to its first 0 byte. -/
def doReadlink (pathMax : Nat) (pathOk hasReadlink : Bool) (res : Int)
    (link : Fin (pathMax + 1) → UInt8) : Payload :=
  let res := if !pathOk then - ENOENT else if !hasReadlink then - ENOSYS else res
  let link := (List.ofFn link).set pathMax 0
  sendReply res (pathMax + 1) 0 (if res = 0 then (link.takeWhile (· != 0)).length else 0)

/-- A string cut by a 0 at index `n` is at most `n` bytes long. -/
theorem length_takeWhile_set_zero : ∀ (l : List UInt8) (n : Nat), n < l.length →
    ((l.set n 0).takeWhile (· != 0)).length ≤ n
  | [], _, h => absurd h (Nat.not_lt_zero _)
  | _ :: _, 0, _ => by simp
  | a :: l, n + 1, h => by
    simp only [List.set_cons_succ, List.takeWhile_cons]
    split
    · simpa using length_takeWhile_set_zero l n (by simpa using h)
    · simp

/-- READLINK sends at most `PATH_MAX` bytes, whatever the user's readlink wrote. -/
theorem doReadlink_size (pathMax : Nat) (pathOk hasReadlink : Bool) (res : Int)
    (link : Fin (pathMax + 1) → UInt8) : (doReadlink pathMax pathOk hasReadlink res link).size ≤ pathMax := by
  have := length_takeWhile_set_zero (List.ofFn link) pathMax (by rw [List.length_ofFn]; omega)
  unfold doReadlink
  refine le_trans (sendReply_size_le ..) ?_
  split_ifs <;> omega

theorem doReadlink_inside (pathMax : Nat) (pathOk hasReadlink : Bool) (res : Int)
    (link : Fin (pathMax + 1) → UInt8) : (doReadlink pathMax pathOk hasReadlink res link).Inside := by
  have := doReadlink_size pathMax pathOk hasReadlink res link
  simp only [Payload.Inside, doReadlink, sendReply_start, sendReply_buffer] at this ⊢
  omega

/-! ## What stays inside -/

/-- **READDIR and READLINK stay inside their buffers.** When the user's readdir keeps to one
offset mode, a READDIR reply is a slice of the handle's bytes that ends by `len` and has at
most the size asked for, whatever the handle held before. A READLINK reply stays inside its
buffer of `PATH_MAX + 1` bytes and has at most `PATH_MAX` of them, whatever the user's
readlink wrote there. Both hold whatever `realloc` answers while the handle is filled. -/
theorem readlink_readdir_inside :
    (∀ abi f dir alloc pathOk (ops : Lister) offset size dh, ops.SingleOffsetMode f →
      ∃ o k, (doReaddir abi f dir alloc pathOk ops offset size dh).1.2 =
          ((doReaddir abi f dir alloc pathOk ops offset size dh).2.bytes.drop o).take k ∧
        o + k ≤ (doReaddir abi f dir alloc pathOk ops offset size dh).2.len ∧ k ≤ size) ∧
    ∀ pathMax pathOk hasReadlink res (link : Fin (pathMax + 1) → UInt8),
      (doReadlink pathMax pathOk hasReadlink res link).Inside ∧
        (doReadlink pathMax pathOk hasReadlink res link).size ≤ pathMax :=
  ⟨fun _ _ _ _ _ _ _ _ _ hm => doReaddir_slice hm,
    fun _ _ _ _ _ => ⟨doReadlink_inside .., doReadlink_size ..⟩⟩

theorem readlink_readdir_inside_offset :
    Lister.SingleOffsetMode { fuseNew {} with major := 7 } (.readdir fun _ => ([⟨[97], none, 1⟩], 0)) ∧
    ∃ o k, (doReaddir ⟨24, 16, 1024, fun c _ _ _ _ => List.replicate (if c then 16 else 24) 0, by simp⟩
        { fuseNew {} with major := 7 } rootId (fun _ => true) true (.readdir fun _ => ([⟨[97], none, 1⟩], 0)) 0 4096
        .opened).1.2 = ((doReaddir ⟨24, 16, 1024, fun c _ _ _ _ => List.replicate (if c then 16 else 24) 0, by simp⟩
        { fuseNew {} with major := 7 } rootId (fun _ => true) true (.readdir fun _ => ([⟨[97], none, 1⟩], 0)) 0 4096
        .opened).2.bytes.drop o).take k ∧ o + k ≤ (doReaddir ⟨24, 16, 1024, fun c _ _ _ _ => List.replicate (if c then 16 else 24) 0, by simp⟩
        { fuseNew {} with major := 7 } rootId (fun _ => true) true (.readdir fun _ => ([⟨[97], none, 1⟩], 0)) 0 4096
        .opened).2.len ∧ k ≤ 4096 :=
  have hm : Lister.SingleOffsetMode { fuseNew {} with major := 7 }
      (.readdir fun _ => ([⟨[97], none, 1⟩], 0)) := .inr fun _ => .inr (by simp)
  ⟨hm, readlink_readdir_inside.1 _ _ _ _ _ _ _ _ _ hm⟩

end FuseCore
