import FuseCore.Handlers

/-!
# Paths: the walk of `get_path_name` (fuse.c:337-391)

`get_path_name` builds a path right to left in a buffer of `FUSE_MAX_PATH` bytes: the
optional leaf name first, then the name of each node on the way up to the root, each behind a
slash. `add_name` moves the write pointer left by the name's length and fails when that
reaches the start of the buffer; then it writes the slash. The loop stops at the root, at a
detached node (NULL), when `add_name` fails, or in `get_node`'s abort on an id no live node
has. The path built is then copied by `strdup`, which may fail (NULL).

`WalkEnds` is that loop as the source has it, without fuel: how it stops, after how many calls
of `get_node`. Main theorems:

* `pathWalk_terminates`: from any state, cycles in the parent links included, the loop stops
  after at most `FUSE_MAX_PATH - used` calls of `get_node`, and the fuelled model returns what
  the loop returns. The measure is the write position, not the depth of the tree. Off the
  reachable states the walk may end in `get_node`'s abort (`pathWalk_aborts`).
* `path_reconstruction`: in every reachable state, `get_path_name` returns a string exactly
  when the parent chain is attached up to the root, the path fits in 4095 bytes and the final
  `strdup` succeeds, and the string is the names from the root down, each behind a slash; so a
  node's path is its parent's path, a slash and its name.
* `getPathName_no_abort`: in every reachable state, the walk from a live node never reaches
  `get_node`'s abort.
-/

namespace FuseCore

/-! ## One round of the loop -/

section Round
variable {f : Fuse} {fuel nodeid used : Nat} {s : Path} {p : Ptr} {n : Node}

/-- `get_node` aborts when no live node has the id. -/
theorem pathWalk_abort (hp : getNodeNocheck f nodeid = none) (acc : Nat × Path) :
    pathWalk f (fuel + 1) nodeid acc = .error (.nodeNotFound nodeid) := by
  obtain ⟨used, s⟩ := acc
  simp [pathWalk, getNode, hp]

/-- One round at the node `get_node` finds. -/
theorem pathWalk_succ (hp : getNodeNocheck f nodeid = some p) (hn : f.heap p = some n) :
    pathWalk f (fuel + 1) nodeid (used, s) =
      if n.nodeid = rootId then .ok (some s) else
      match n.name with
      | none => .ok none
      | some name =>
        match addName used s name with
        | none => .ok none
        | some acc => pathWalk f fuel n.parent acc := by
  simp only [pathWalk, getNode, hp, Fuse.node, bind, Except.bind, hn]
  rfl

/-- `add_name` succeeds exactly while the bytes, with the slash, stay inside the buffer. -/
theorem addName_eq_some {name : Name} {acc : Nat × Path} :
    addName used s name = some acc ↔
      used + name.length + 1 < fuseMaxPath ∧ acc = (used + name.length + 1, 47 :: (name ++ s)) := by
  unfold addName
  split
  · simp only [reduceCtorEq, false_iff, not_and]
    intro; omega
  · constructor
    · rintro ⟨⟩; exact ⟨by omega, rfl⟩
    · rintro ⟨-, rfl⟩; rfl

end Round

/-! ## The loop without fuel -/

/-- How the loop of `get_path_name` ends from the node `nodeid`, with `(used, s)` built so
far, after `k` calls of `get_node`. -/
inductive WalkEnds (f : Fuse) : Nat → Nat × Path → Nat → Except Fault (Option Path) → Prop
  /-- `get_node` aborts on an id no live node has. -/
  | abort {nodeid acc} : getNodeNocheck f nodeid = none →
      WalkEnds f nodeid acc 1 (.error (.nodeNotFound nodeid))
  /-- The loop reaches the root. -/
  | root {nodeid p n used s} : getNodeNocheck f nodeid = some p → f.heap p = some n →
      n.nodeid = rootId → WalkEnds f nodeid (used, s) 1 (.ok (some s))
  /-- A detached node: the path is NULL. -/
  | detached {nodeid p n acc} : getNodeNocheck f nodeid = some p → f.heap p = some n →
      n.nodeid ≠ rootId → n.name = none → WalkEnds f nodeid acc 1 (.ok none)
  /-- `add_name` reaches the start of the buffer: the path is too long. -/
  | tooLong {nodeid p n name used s} : getNodeNocheck f nodeid = some p → f.heap p = some n →
      n.nodeid ≠ rootId → n.name = some name → addName used s name = none →
      WalkEnds f nodeid (used, s) 1 (.ok none)
  /-- One more name, and on to the parent. -/
  | next {nodeid p n name used s acc k r} : getNodeNocheck f nodeid = some p →
      f.heap p = some n → n.nodeid ≠ rootId → n.name = some name → addName used s name = some acc →
      WalkEnds f n.parent acc k r → WalkEnds f nodeid (used, s) (k + 1) r

/-- The fuelled model returns what the loop returns, given fuel for every call of `get_node`. -/
theorem WalkEnds.pathWalk {f : Fuse} {nodeid k : Nat} {acc : Nat × Path}
    {r : Except Fault (Option Path)} (h : WalkEnds f nodeid acc k r) :
    ∀ fuel, k ≤ fuel → pathWalk f fuel nodeid acc = r := by
  induction h with
  | abort hp =>
    rintro (_ | fuel) hk
    · omega
    exact pathWalk_abort hp _
  | root hp hn hr =>
    rintro (_ | fuel) hk
    · omega
    simp [pathWalk_succ hp hn, hr]
  | detached hp hn hr hs =>
    rintro (_ | fuel) hk
    · omega
    simp [pathWalk_succ hp hn, hr, hs]
  | tooLong hp hn hr hs ha =>
    rintro (_ | fuel) hk
    · omega
    simp [pathWalk_succ hp hn, hr, hs, ha]
  | next hp hn hr hs ha _ ih =>
    rintro (_ | fuel) hk
    · omega
    simp only [pathWalk_succ hp hn, hr, hs, ha, if_false]
    exact ih fuel (by omega)

/-- Each call of `get_node` but the last adds at least one byte, so from `used` bytes the loop
stops within `FUSE_MAX_PATH - used` calls, whatever the parent links: the fuelled model, given
that much fuel, returns the result of a run of the loop that stops in time. -/
theorem walkEnds_of_fuel {f : Fuse} :
    ∀ (fuel nodeid used : Nat) (s : Path), used < fuseMaxPath → fuseMaxPath - used ≤ fuel →
      ∃ k, k ≤ fuseMaxPath - used ∧ WalkEnds f nodeid (used, s) k (pathWalk f fuel nodeid (used, s))
  | 0, _, _, _, hu, hf => absurd hf (by omega)
  | fuel + 1, nodeid, used, s, hu, hf => by
    cases hp : getNodeNocheck f nodeid with
    | none => exact ⟨1, by omega, pathWalk_abort hp _ ▸ .abort hp⟩
    | some p =>
      obtain ⟨n, hn, -⟩ := getNodeNocheck_some hp
      rw [pathWalk_succ hp hn]
      by_cases hr : n.nodeid = rootId
      · rw [if_pos hr]; exact ⟨1, by omega, .root hp hn hr⟩
      rw [if_neg hr]
      split
      · next hs => exact ⟨1, by omega, .detached hp hn hr hs⟩
      · next name hs =>
        split
        · next ha => exact ⟨1, by omega, .tooLong hp hn hr hs ha⟩
        · next acc ha =>
          obtain ⟨hlt, rfl⟩ := addName_eq_some.1 ha
          obtain ⟨k, hk, hw⟩ := walkEnds_of_fuel fuel n.parent (used + name.length + 1)
            (47 :: (name ++ s)) (by omega) (by omega)
          exact ⟨k + 1, by omega, .next hp hn hr hs ha hw⟩

/-- **The walk terminates.** From any state, with parent links that may form a cycle, the
loop of `get_path_name` started with `used < FUSE_MAX_PATH` bytes stops after at most
`FUSE_MAX_PATH - used` calls of `get_node`: at the root, at a detached node, when the path is
too long, or in `get_node`'s abort. The fuelled model returns that result for any fuel that
covers those calls. -/
theorem pathWalk_terminates (f : Fuse) (nodeid used : Nat) (s : Path) (hu : used < fuseMaxPath) :
    ∃ k r, k ≤ fuseMaxPath - used ∧ WalkEnds f nodeid (used, s) k r ∧
      ∀ fuel, k ≤ fuel → pathWalk f fuel nodeid (used, s) = r := by
  obtain ⟨k, hk, hw⟩ := walkEnds_of_fuel _ nodeid used s hu le_rfl
  exact ⟨k, _, hk, hw, hw.pathWalk⟩

/-- `dirA` with `a` made its own parent: its parent links form a cycle. -/
def dirALoop : Fuse :=
  { dirA with heap := Function.update dirA.heap 1 ((dirA.heap 1).map fun n => { n with parent := 2 }) }

theorem pathWalk_terminates_cycle : 0 < fuseMaxPath ∧ ∃ k r, k ≤ fuseMaxPath - 0 ∧
    WalkEnds dirALoop 2 (0, []) k r ∧ ∀ fuel, k ≤ fuel → pathWalk dirALoop fuel 2 (0, []) = r :=
  ⟨by decide, pathWalk_terminates dirALoop 2 0 [] (by decide)⟩

/-- The fourth ending: with the root freed under `a`, the walk from `a` calls `get_node` on the
root's id, which no live node has, and aborts. -/
theorem pathWalk_aborts :
    pathWalk { dirA with heap := Function.update dirA.heap 0 none } fuseMaxPath 2 (0, []) =
      .error (.nodeNotFound rootId) := rfl

/-! ## The path of a node -/

/-- The bytes of the path through `names`, each name behind a slash. -/
def joinPath (names : List Name) : Path := (names.map (47 :: ·)).flatten

@[simp] theorem joinPath_nil : joinPath [] = [] := rfl

@[simp] theorem joinPath_append (l l' : List Name) : joinPath (l ++ l') = joinPath l ++ joinPath l' := by
  simp [joinPath]

@[simp] theorem joinPath_singleton (name : Name) : joinPath [name] = 47 :: name := by
  simp [joinPath]

theorem joinPath_eq_nil {l : List Name} : joinPath l = [] ↔ l = [] := by
  cases l <;> simp [joinPath]

/-- Every name adds at least its slash. -/
theorem length_le_joinPath (l : List Name) : l.length ≤ (joinPath l).length := by
  induction l with
  | nil => rfl
  | cons name l ih => simp only [List.length_cons, joinPath, List.map_cons, List.flatten_cons,
      List.length_append] at ih ⊢; omega

/-- `names` are the names on the parent chain from just below the root down to the node
`nodeid`: every node on the chain is live and attached, and the chain ends at the root. -/
inductive NamesTo (f : Fuse) : Nat → List Name → Prop
  | root {p n} : f.heap p = some n → n.nodeid = rootId → NamesTo f rootId []
  | child {p n name names} : f.heap p = some n → n.nodeid ≠ rootId → n.name = some name →
      NamesTo f n.parent names → NamesTo f n.nodeid (names ++ [name])

/-- A chain of names ends at its node: the root's is empty, any other node's ends in its own
name after its parent's chain. -/
theorem NamesTo.cases_on_node {f : Fuse} {nodeid : Nat} {names : List Name}
    (h : NamesTo f nodeid names) :
    (nodeid = rootId ∧ names = []) ∨ ∃ p n name names', f.heap p = some n ∧ n.nodeid = nodeid ∧
      n.nodeid ≠ rootId ∧ n.name = some name ∧ NamesTo f n.parent names' ∧ names = names' ++ [name] := by
  cases h with
  | root => exact .inl ⟨rfl, rfl⟩
  | child hn hr hs h' => exact .inr ⟨_, _, _, _, hn, rfl, hr, hs, h', rfl⟩

theorem NamesTo.eq_nil_iff {f : Fuse} {nodeid : Nat} {names : List Name} (h : NamesTo f nodeid names) :
    names = [] ↔ nodeid = rootId := by
  rcases h.cases_on_node with ⟨rfl, rfl⟩ | ⟨p, n, name, names', -, rfl, hr, -, -, rfl⟩
  · simp
  · simp [hr]

/-- What the loop returns as a path is the chain of names above its start, and it fits. -/
theorem WalkEnds.namesTo {f : Fuse} {nodeid k : Nat} {acc : Nat × Path} {r : Except Fault (Option Path)}
    (h : WalkEnds f nodeid acc k r) :
    ∀ path, r = .ok (some path) → acc.1 < fuseMaxPath → ∃ names, NamesTo f nodeid names ∧
      acc.1 + (joinPath names).length < fuseMaxPath ∧ path = joinPath names ++ acc.2 := by
  induction h with
  | abort => rintro _ ⟨⟩
  | detached => rintro _ ⟨⟩
  | tooLong => rintro _ ⟨⟩
  | root hp hn hr =>
    rintro path ⟨⟩ hu
    obtain ⟨n', hn', rfl⟩ := getNodeNocheck_some hp
    rw [hn, Option.some.injEq] at hn'
    exact ⟨[], hn' ▸ hr ▸ .root hn hr, by simpa using hu, rfl⟩
  | next hp hn hr hs ha _ ih =>
    rintro path rfl hu
    obtain ⟨hlt, rfl⟩ := addName_eq_some.1 ha
    obtain ⟨names, hnames, hfit, rfl⟩ := ih path rfl hlt
    obtain ⟨n', hn', rfl⟩ := getNodeNocheck_some hp
    rw [hn, Option.some.injEq] at hn'; subst hn'
    refine ⟨names ++ [_], .child hn hr hs hnames, ?_, by simp⟩
    simp only [joinPath_append, joinPath_singleton, List.length_append, List.length_cons] at hfit ⊢
    omega

/-- In a consistent directory, a chain of names that fits is what the loop returns. -/
theorem NamesTo.walkEnds {f : Fuse} (hI : IndexInv f) {nodeid : Nat} {names : List Name}
    (h : NamesTo f nodeid names) : ∀ used s, used + (joinPath names).length < fuseMaxPath →
      WalkEnds f nodeid (used, s) (names.length + 1) (.ok (some (joinPath names ++ s))) := by
  induction h with
  | root hn hr => exact fun used s _ => .root ((getNodeNocheck_eq_some hI).2 ⟨_, hn, hr⟩) hn hr
  | @child p n name names hn hr hs _ ih =>
    intro used s hfit
    simp only [joinPath_append, joinPath_singleton, List.length_append, List.length_cons] at hfit
    have ha : addName used s name = some (used + name.length + 1, 47 :: (name ++ s)) :=
      addName_eq_some.2 ⟨by omega, rfl⟩
    simpa using WalkEnds.next ((getNodeNocheck_eq_some hI).2 ⟨_, hn, rfl⟩) hn hr hs ha
      (ih _ (47 :: (name ++ s)) (by omega))

/-- With `used < FUSE_MAX_PATH` bytes built, the walk returns a path exactly for a chain of
names that fits. -/
theorem pathWalk_eq_some {f : Fuse} (hI : IndexInv f) {nodeid used : Nat} {s r : Path}
    (hu : used < fuseMaxPath) :
    pathWalk f fuseMaxPath nodeid (used, s) = .ok (some r) ↔
      ∃ names, NamesTo f nodeid names ∧ used + (joinPath names).length < fuseMaxPath ∧
        r = joinPath names ++ s := by
  constructor
  · intro h
    obtain ⟨k, -, hw⟩ := walkEnds_of_fuel fuseMaxPath nodeid used s hu (Nat.sub_le _ _)
    exact hw.namesTo r h hu
  · rintro ⟨names, hn, hfit, rfl⟩
    have := length_le_joinPath names
    exact (hn.walkEnds hI used s hfit).pathWalk _ (by omega)

/-- The leaf name is the first `add_name`: it fits when its slash and bytes do. -/
theorem leaf_addName (leaf : Option Name) :
    leaf.elim (some (0, [])) (addName 0 []) =
      if (joinPath leaf.toList).length < fuseMaxPath then
        some ((joinPath leaf.toList).length, joinPath leaf.toList) else none := by
  cases leaf with
  | none => rfl
  | some name =>
    simp only [Option.elim, addName, Option.toList_some, joinPath_singleton, List.length_cons,
      List.append_nil, Nat.zero_add]
    split_ifs <;> first | rfl | omega

/-- **`get_path_name` as a chain of names.** In a consistent directory, `get_path_name`
returns a path exactly when the chain of names from the node up to the root exists and, with
the leaf, fits in `FUSE_MAX_PATH - 1` bytes, and the final `strdup` succeeds; the path is
`"/"` when there are no names. -/
theorem getPathName_eq_some {f : Fuse} (hI : IndexInv f) {nodeid : Nat} {leaf : Option Name}
    {strdupOk : Bool} {path : Path} :
    getPathName f nodeid leaf strdupOk = .ok (some path) ↔ strdupOk = true ∧
      ∃ names, NamesTo f nodeid names ∧ (joinPath (names ++ leaf.toList)).length < fuseMaxPath ∧
        path = if names ++ leaf.toList = [] then [47] else joinPath (names ++ leaf.toList) := by
  have hb : ∀ (x : Except Fault (Option Path)) (g : Path → Path) b,
      (x >>= fun r => pure (if strdupOk then r.map g else none)) = .ok (some b) ↔
        strdupOk = true ∧ ∃ a, x = .ok (some a) ∧ g a = b := by
    intro x g b
    cases strdupOk <;> rcases x with _ | _ | _ <;> simp [bind, Except.bind, pure, Except.pure]
  rw [getPathName, leaf_addName]
  by_cases hl : (joinPath leaf.toList).length < fuseMaxPath
  · rw [if_pos hl]
    simp only [hb, pathWalk_eq_some hI hl]
    refine and_congr_right fun _ => ⟨?_, ?_⟩
    · rintro ⟨_, ⟨names, hn, hfit, rfl⟩, rfl⟩
      refine ⟨names, hn, by simpa [Nat.add_comm] using hfit, ?_⟩
      simp only [← joinPath_append, joinPath_eq_nil]
    · rintro ⟨names, hn, hfit, rfl⟩
      refine ⟨_, ⟨names, hn, by simpa [Nat.add_comm] using hfit, rfl⟩, ?_⟩
      simp only [← joinPath_append, joinPath_eq_nil]
  · rw [if_neg hl]
    simp only [pure, Except.pure, Except.ok.injEq, reduceCtorEq, false_iff, not_and, not_exists]
    intro _ names _ hfit
    simp only [joinPath_append, List.length_append] at hfit
    omega

/-- In a consistent directory, a loop started at a live node never reaches `get_node`'s
abort: every attached non-root node holds its parent alive. -/
theorem WalkEnds.ok_of_live {f : Fuse} (h : Inv f) {nodeid k : Nat} {acc : Nat × Path}
    {r : Except Fault (Option Path)} (hw : WalkEnds f nodeid acc k r) :
    (∃ p n, f.heap p = some n ∧ n.nodeid = nodeid) → ∃ o, r = .ok o := by
  induction hw with
  | abort hp =>
    rintro ⟨p, n, hn, rfl⟩
    exact absurd rfl ((getNodeNocheck_eq_none h.index).1 hp p n hn)
  | root | detached | tooLong => exact fun _ => ⟨_, rfl⟩
  | next _ hn hr hs _ _ ih => exact fun _ => ih (h.refs.parentLive hn (by simp [hs]) hr)

/-- In a consistent directory, `get_path_name` from a live node returns normally. -/
theorem getPathName_ok_of_live {f : Fuse} (h : Inv f) {nodeid : Nat}
    (hl : ∃ p n, f.heap p = some n ∧ n.nodeid = nodeid) (leaf : Option Name) (strdupOk : Bool) :
    ∃ o, getPathName f nodeid leaf strdupOk = .ok o := by
  rw [getPathName]
  split
  · exact ⟨_, rfl⟩
  · rename_i acc hacc
    have hu : acc.1 < fuseMaxPath := by
      rw [leaf_addName] at hacc
      split_ifs at hacc with hfit
      cases hacc; exact hfit
    obtain ⟨k, -, hw⟩ := walkEnds_of_fuel fuseMaxPath nodeid acc.1 acc.2 hu (Nat.sub_le _ _)
    obtain ⟨o, ho⟩ := hw.ok_of_live h hl
    exact ⟨_, by rw [ho]; rfl⟩

/-- **`get_path_name` does not abort on a live node.** In every reachable state, the walk
from a node that is live ends at the root, at a detached node or at a path too long, never
in `get_node`'s abort. -/
theorem getPathName_no_abort {f : Fuse} (hf : Reachable f) {nodeid : Nat}
    (hl : ∃ p n, f.heap p = some n ∧ n.nodeid = nodeid) (leaf : Option Name) (strdupOk : Bool) :
    ∃ o, getPathName f nodeid leaf strdupOk = .ok o :=
  getPathName_ok_of_live hf.inv hl leaf strdupOk

theorem getPathName_no_abort_a : Reachable dirA ∧ (∃ p n, dirA.heap p = some n ∧ n.nodeid = 2) ∧
    ∃ o, getPathName dirA 2 (some [98]) true = .ok o :=
  ⟨reachable_dirA, ⟨1, _, rfl, rfl⟩, getPathName_no_abort reachable_dirA ⟨1, _, rfl, rfl⟩ (some [98]) true⟩

/-- **Path reconstruction.** In every reachable state, `get_path_name(id, leaf)` returns a
string exactly when the parent chain from `id` is attached all the way to the root, the path,
leaf included, has at most 4095 bytes, and the `strdup` of the result succeeds; the string is
the names from just below the root down to `id`, then the leaf, each behind a slash, or `"/"`
when there are none. So the path of an attached non-root node is its parent's path, a slash
and its name, the root's path counting as the empty prefix. -/
theorem path_reconstruction {f : Fuse} (hf : Reachable f) :
    (∀ nodeid leaf strdupOk path, getPathName f nodeid leaf strdupOk = .ok (some path) ↔
      strdupOk = true ∧ ∃ names, NamesTo f nodeid names ∧
        (joinPath (names ++ leaf.toList)).length < fuseMaxPath ∧
        path = if names ++ leaf.toList = [] then [47] else joinPath (names ++ leaf.toList)) ∧
    (∀ p n name path, f.heap p = some n → n.nodeid ≠ rootId → n.name = some name →
      getPath f n.nodeid true = .ok (some path) →
      ∃ q, getPath f n.parent true = .ok (some q) ∧
        path = (if n.parent = rootId then [] else q) ++ 47 :: name) := by
  have hI := hf.inv.index
  refine ⟨fun _ _ _ _ => getPathName_eq_some hI, fun p n name path hn hr hs h => ?_⟩
  obtain ⟨-, names, hnames, hfit, rfl⟩ := (getPathName_eq_some hI).1 h
  rcases hnames.cases_on_node with ⟨hr', -⟩ | ⟨p', n', name', names', hn', e, -, hs', hpar, rfl⟩
  · exact absurd hr' hr
  obtain rfl := hI.idUnique hn' hn e
  rw [hn, Option.some.injEq] at hn'; subst hn'
  rw [hs, Option.some.injEq] at hs'; subst hs'
  simp only [List.append_nil, joinPath_append, joinPath_singleton, List.length_append,
    List.length_cons] at hfit ⊢
  refine ⟨_, (getPathName_eq_some hI).2 ⟨rfl, names', hpar, by simpa using (by omega : _ < fuseMaxPath),
    rfl⟩, ?_⟩
  by_cases hpr : n.parent = rootId
  · simp [hpr, (hpar.eq_nil_iff).2 hpr]
  · simp [hpr, mt (hpar.eq_nil_iff).1 hpr]

/-- The chain of names of `a` in `dirA`: `a` under the root. -/
theorem namesTo_a : NamesTo dirA 2 [[97]] := by
  obtain ⟨n, hn, hid, hpar, hs⟩ : ∃ n, dirA.heap 1 = some n ∧ n.nodeid = 2 ∧ n.parent = rootId ∧
      n.name = some [97] := ⟨_, rfl, rfl, rfl, rfl⟩
  have hroot : NamesTo dirA n.parent [] := hpar ▸ .root (p := 0) rfl rfl
  have := NamesTo.child hn (by rw [hid]; decide) hs hroot
  rwa [hid] at this

theorem path_of_a : Reachable dirA ∧ getPath dirA 2 true = .ok (some [47, 97]) :=
  ⟨reachable_dirA, ((path_reconstruction reachable_dirA).1 2 none true _).2
    ⟨rfl, _, namesTo_a, by decide, rfl⟩⟩

/-- When the final `strdup` fails, `get_path_name` returns NULL for a node whose chain is
attached up to the root and whose path fits. -/
theorem path_strdup_fails : Reachable dirA ∧ NamesTo dirA 2 [[97]] ∧
    (joinPath [[97]]).length < fuseMaxPath ∧ getPath dirA 2 false = .ok none :=
  ⟨reachable_dirA, namesTo_a, by decide, rfl⟩

end FuseCore
