import FuseCore.Ops

/-!
# The library's options (fuse.c:2108-2149, :2151-2233)

`fuse_new_common` takes the library's options as one string, `"opt1,opt2,..."`, and
`parse_lib_opts` splits it with `strsep(&s, ",")` on a copy from `strdup`: each piece between
commas, empty pieces included, is compared with the five option names, and a known one sets
its flag in the zeroed `f->flags`; any other piece is only warned about. `fuse_is_lib_option`
answers, for one option, whether it is one of the library's, so that a caller can split its
options between the library and the kernel.

`parseLibOpts_flags`: the flags `parse_lib_opts` sets are exactly those whose names occur
among the pieces, whatever their order, repetitions and the unknown pieces; a failing `strdup`
makes `fuse_new_common` fail. `isLibOption_agrees`: `fuse_is_lib_option` accepts exactly the
options `parse_lib_opts` acts on.
-/

namespace FuseCore

/-! ## Option names -/

/-- `"debug"`. -/
def optDebug : List UInt8 := [100, 101, 98, 117, 103]
/-- `"hard_remove"`. -/
def optHardRemove : List UInt8 := [104, 97, 114, 100, 95, 114, 101, 109, 111, 118, 101]
/-- `"use_ino"`. -/
def optUseIno : List UInt8 := [117, 115, 101, 95, 105, 110, 111]
/-- `"allow_root"`. -/
def optAllowRoot : List UInt8 := [97, 108, 108, 111, 119, 95, 114, 111, 111, 116]
/-- `"readdir_ino"`. -/
def optReaddirIno : List UInt8 := [114, 101, 97, 100, 100, 105, 114, 95, 105, 110, 111]

/-! ## `fuse_is_lib_option` and `parse_lib_opts` -/

/-- `fuse_is_lib_option` (fuse.c:2108): one of the five names, compared with `strcmp`. -/
def isLibOption (opt : List UInt8) : Bool :=
  opt = optDebug || opt = optHardRemove || opt = optUseIno || opt = optAllowRoot ||
    opt = optReaddirIno

/-- The flags `parse_lib_opts` writes: `FUSE_DEBUG`, which only prints, and the rest. -/
structure LibFlags where
  debug : Bool
  flags : Flags
  deriving DecidableEq, Repr

/-- One piece of the option string, `f->flags |= ...` for a known name (fuse.c:2131-2142);
any other piece leaves the flags as they are. -/
def setLibOpt (fl : LibFlags) (opt : List UInt8) : LibFlags :=
  if opt = optDebug then { fl with debug := true }
  else if opt = optHardRemove then { fl with flags.hardRemove := true }
  else if opt = optUseIno then { fl with flags.useIno := true }
  else if opt = optAllowRoot then { fl with flags.allowRoot := true }
  else if opt = optReaddirIno then { fl with flags.readdirIno := true }
  else fl

/-- `parse_lib_opts` (fuse.c:2120) on the flags `fl`: nothing without options; `-1` (`none`)
when `strdup` fails; otherwise each piece `strsep(&s, ",")` returns in turn, which are the
pieces between commas. -/
def parseLibOpts (fl : LibFlags) (opts : Option (List UInt8)) (strdupOk : Bool) : Option LibFlags :=
  match opts with
  | none => some fl
  | some s => if strdupOk then some ((s.splitOn 44).foldl setLibOpt fl) else none

/-- The zeroed flags of the `calloc`ed `struct fuse`. -/
def LibFlags.zero : LibFlags := ⟨false, {}⟩

/-- `fuse_new_common` (fuse.c:2151): `none` for NULL, when an allocation fails (`allocOk`, the
`struct fuse`, the two tables, the root and its name) or when `parse_lib_opts` fails;
otherwise the directory with the root alone and the flags the options set. -/
def fuseNewCommon (opts : Option (List UInt8)) (strdupOk allocOk : Bool) : Option (Bool × Fuse) :=
  if allocOk then (parseLibOpts .zero opts strdupOk).map fun fl => (fl.debug, fuseNew fl.flags)
  else none

/-! ## What the options set -/

/-- The flags a list of pieces sets on top of `fl`: each one whose name is among them. -/
def LibFlags.withNames (fl : LibFlags) (l : List (List UInt8)) : LibFlags :=
  ⟨fl.debug || decide (optDebug ∈ l),
    ⟨fl.flags.hardRemove || decide (optHardRemove ∈ l), fl.flags.useIno || decide (optUseIno ∈ l),
      fl.flags.allowRoot || decide (optAllowRoot ∈ l), fl.flags.readdirIno || decide (optReaddirIno ∈ l)⟩⟩

@[simp] theorem LibFlags.withNames_nil (fl : LibFlags) : fl.withNames [] = fl := by
  simp [LibFlags.withNames]

/-- One piece, then the rest. -/
theorem LibFlags.withNames_cons (fl : LibFlags) (o : List UInt8) (l : List (List UInt8)) :
    fl.withNames (o :: l) = (setLibOpt fl o).withNames l := by
  unfold setLibOpt
  split_ifs with h1 h2 h3 h4 h5 <;> first
    | subst o; simp [LibFlags.withNames, optDebug, optHardRemove, optUseIno, optAllowRoot, optReaddirIno]
    | simp [LibFlags.withNames, Ne.symm h1, Ne.symm h2, Ne.symm h3, Ne.symm h4, Ne.symm h5]

/-- The loop over the pieces sets the flags of the names among them. -/
theorem foldl_setLibOpt (l : List (List UInt8)) (fl : LibFlags) :
    l.foldl setLibOpt fl = fl.withNames l := by
  induction l generalizing fl with
  | nil => simp
  | cons o l ih => rw [List.foldl_cons, ih, LibFlags.withNames_cons]

/-- **`parse_lib_opts` sets exactly the flags named in the option string.** Whatever the
string, a flag ends up set iff it was set before or its name is one of the pieces between the
commas: the order of the pieces, their repetitions and the unknown ones do not matter. Without
a string nothing changes, and a failing `strdup` fails the parse and `fuse_new_common`. -/
theorem parseLibOpts_flags (fl : LibFlags) (s : List UInt8) :
    parseLibOpts fl (some s) true = some (fl.withNames (s.splitOn 44)) ∧
      parseLibOpts fl none true = some fl ∧
      parseLibOpts fl (some s) false = none ∧ fuseNewCommon (some s) false true = none := by
  simp [parseLibOpts, fuseNewCommon, foldl_setLibOpt]

/-- **Options joined with commas come back one by one.** For options none of which contains
a comma, `fuse_new_common` on the string `"opt1,...,optn"` builds the directory of
`fuse_new` with exactly the flags named among them. -/
theorem fuseNewCommon_join (ls : List (List UInt8)) (hc : ∀ o ∈ ls, (44 : UInt8) ∉ o)
    (hne : ls ≠ []) :
    fuseNewCommon (some ([44].intercalate ls)) true true =
      some ((LibFlags.zero.withNames ls).debug, fuseNew (LibFlags.zero.withNames ls).flags) := by
  simp [fuseNewCommon, parseLibOpts, foldl_setLibOpt, List.splitOn_intercalate ls 44 hc hne]

theorem fuseNewCommon_join_two :
    (∀ o ∈ [optHardRemove, optAllowRoot], (44 : UInt8) ∉ o) ∧ [optHardRemove, optAllowRoot] ≠ [] ∧
      fuseNewCommon (some ([44].intercalate [optHardRemove, optAllowRoot])) true true =
        some (false, fuseNew ⟨true, false, true, false⟩) :=
  ⟨by decide, by decide, (fuseNewCommon_join _ (by decide) (by decide)).trans rfl⟩

/-- **`fuse_is_lib_option` agrees with `parse_lib_opts`**: it refuses an option exactly when
`parse_lib_opts` leaves every flag as it was on that piece. -/
theorem isLibOption_agrees (o : List UInt8) :
    isLibOption o = false ↔ ∀ fl, setLibOpt fl o = fl := by
  unfold isLibOption
  constructor
  · intro h fl
    simp only [Bool.or_eq_false_iff, decide_eq_false_iff_not] at h
    simp [setLibOpt, h]
  · intro h
    by_contra hb
    simp only [Bool.not_eq_false, Bool.or_eq_true, decide_eq_true_eq] at hb
    rcases hb with (((e | e) | e) | e) | e <;> subst e <;> exact absurd (h .zero) (by decide)

end FuseCore
