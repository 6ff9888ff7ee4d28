import FuseCore.LoopSafety

/-!
# Tearing the directory down (fuse.c:2258-2290)

`fuse_destroy` walks `id_table` bucket by bucket, each chain to its end, and for every hidden
node asks `get_path` for its path and hands it to `f->op.unlink`, with no check that the
operation is there, so that the files `hide_node` renamed away are removed when the file system
goes; a second walk frees every node.

`fuseDestroy_unlinks_hidden`: from every state the request loop reaches, the first walk visits
each node once, in the order of the table (`idChains`), never reads freed memory, never hits
`get_node`'s abort and never calls a NULL `unlink`; whatever each `get_path`'s `strdup`
answers, it unlinks exactly the paths of the hidden nodes that have one.

`fuseDestroy_frees_nodes`: from the same states, the second walk saves `node->id_next` and
frees the node, never reading one it has freed, so it frees each node once and leaves none
allocated.
-/

namespace FuseCore

/-- The first loop of `fuse_destroy` (fuse.c:2261-2273) along the nodes `ps`: for a hidden
node, `get_path` and, when there is a path, `f->op.unlink(path)`. `pathOk p` is whether the
`strdup` that ends `get_path` succeeds for the node at `p`. Returns the paths unlinked, in
order. -/
def unlinkHidden (ops : LoopOps) (f : Fuse) (pathOk : Ptr → Bool) :
    List Ptr → Except LoopFault (List Path)
  | [] => pure []
  | p :: ps => do
    let n ← (f.node p).mapError .fault
    let u ← if n.isHidden then do
        match ← (getPath f n.nodeid (pathOk p)).mapError .fault with
        | some path => if ops.hasUnlink then pure [path] else throw .nullCallback
        | none => pure []
      else pure []
    let us ← unlinkHidden ops f pathOk ps
    pure (u ++ us)

/-- The chains of `id_table` one after another, in the order of `fuse_destroy`'s loops
`for (i = 0; i < f->id_table_size; i++)` and `node = node->id_next`. -/
def idChains (f : Fuse) : List Ptr := (List.range idTableSize).flatMap f.idTable

/-- `fuse_destroy` (fuse.c:2258) up to the frees: the paths its first walk unlinks. -/
def fuseDestroy (ops : LoopOps) (f : Fuse) (pathOk : Ptr → Bool) : Except LoopFault (List Path) :=
  unlinkHidden ops f pathOk (idChains f)

/-- The second loop of `fuse_destroy` (fuse.c:2274-2282) along the nodes `ps`: read
`node->id_next` into `next`, then `free_node(node)`, which reads `node->name` before it frees
the node. -/
def freeChains : Fuse → List Ptr → Except Fault Fuse
  | f, [] => pure f
  | f, p :: ps => do
    let _ ← f.node p
    freeChains (f.freeNode p) ps

/-- The path `fuse_destroy` unlinks for the node at `p`: the one `get_path` gives a hidden
node, if any. -/
def hiddenPath (f : Fuse) (pathOk : Ptr → Bool) (p : Ptr) : Option Path :=
  match f.heap p with
  | some n => if n.isHidden then (getPath f n.nodeid (pathOk p)).toOption.join else none
  | none => none

/-! ## The walk over the id table -/

section Walk
variable {f : Fuse} (h : IndexInv f)
include h

/-- Each node sits in one chain, once. -/
theorem idChains_nodup : (idChains f).Nodup := by
  refine List.nodup_flatMap.2 ⟨fun i _ => h.idNodup i, (List.nodup_range _).imp ?_⟩
  intro i j hij p hi hj
  obtain ⟨n, hn, rfl⟩ := (h.idMem _ p).1 hi
  obtain ⟨m, hm, rfl⟩ := (h.idMem _ p).1 hj
  exact hij (by rw [hn] at hm; cases hm; rfl)

/-- The chains hold exactly the live nodes. -/
theorem mem_idChains {p : Ptr} : p ∈ idChains f ↔ (f.heap p).isSome := by
  simp only [idChains, List.mem_flatMap, List.mem_range, h.idMem, Option.isSome_iff_exists]
  constructor
  · rintro ⟨_, -, n, hn, -⟩
    exact ⟨n, hn⟩
  · rintro ⟨n, hn⟩
    exact ⟨_, Nat.mod_lt _ (by decide), n, hn, rfl⟩

end Walk

/-- Freeing distinct live nodes one after another never meets a freed one, and frees exactly
them. -/
theorem freeChains_eq : ∀ {f : Fuse} {ps : List Ptr}, ps.Nodup → (∀ p ∈ ps, (f.heap p).isSome) →
    freeChains f ps = .ok { f with heap := fun q => if q ∈ ps then none else f.heap q }
  | f, [], _, _ => by simp [freeChains]
  | f, p :: ps, hd, hl => by
    obtain ⟨n, hn⟩ := Option.isSome_iff_exists.1 (hl p (.head _))
    obtain ⟨hp, hd⟩ := List.nodup_cons.1 hd
    have hrest : ∀ q ∈ ps, ((f.freeNode p).heap q).isSome := fun q hq => by
      rw [Fuse.freeNode_heap, Function.update_noteq (ne_of_mem_of_not_mem hq hp)]
      exact hl q (.tail _ hq)
    simp only [freeChains, Fuse.node, hn, ok_bind, freeChains_eq hd hrest]
    congr 2
    funext q
    by_cases hq : q = p
    · simp [hq]
    · simp [hq]

/-- Along live nodes of a consistent directory in which only an operation table with
`unlink` hides nodes, the walk unlinks the path of each hidden node that has one. -/
theorem unlinkHidden_eq {ops : LoopOps} {f : Fuse} (h : Inv f) (pathOk : Ptr → Bool)
    (hu : ∀ x n, f.heap x = some n → n.isHidden = true → ops.hasUnlink = true) :
    ∀ ps : List Ptr, (∀ p ∈ ps, (f.heap p).isSome) →
      unlinkHidden ops f pathOk ps = .ok (ps.filterMap (hiddenPath f pathOk))
  | [], _ => rfl
  | p :: ps, hl => by
    obtain ⟨n, hn⟩ := Option.isSome_iff_exists.1 (hl p (.head _))
    have hrest := unlinkHidden_eq h pathOk hu ps fun q hq => hl q (.tail _ hq)
    obtain ⟨o, ho⟩ : ∃ o, getPath f n.nodeid (pathOk p) = .ok o :=
      getPathName_ok_of_live h ⟨p, n, hn, rfl⟩ none _
    cases hh : n.isHidden
    · simp [unlinkHidden, Fuse.node, hn, hh, hrest, hiddenPath]
    · cases o with
      | none => simp [unlinkHidden, Fuse.node, hn, hh, hrest, hiddenPath, ho, Except.toOption]
      | some q =>
        simp [unlinkHidden, Fuse.node, hn, hh, hrest, hiddenPath, ho, Except.toOption, hu p n hn hh]

/-- **`fuse_destroy` unlinks each hidden file once and never calls a NULL `unlink`.** In
every state the request loop reaches, and whatever each `get_path`'s `strdup` answers, its
walk of the id table visits every live node exactly once, does not fault, and unlinks, in
the order of the table, exactly the paths of the hidden nodes that have one. -/
theorem fuseDestroy_unlinks_hidden {ops : LoopOps} {kver : Nat} {s : Loop}
    (hs : LoopReachable ops kver s) (pathOk : Ptr → Bool) :
    (idChains s.dir).Nodup ∧ (∀ p, p ∈ idChains s.dir ↔ (s.dir.heap p).isSome) ∧
      fuseDestroy ops s.dir pathOk = .ok ((idChains s.dir).filterMap (hiddenPath s.dir pathOk)) := by
  have hI := hs.loopInv
  exact ⟨idChains_nodup hI.dir.index, fun _ => mem_idChains hI.dir.index,
    unlinkHidden_eq hI.dir pathOk hI.hidden _ fun _ => (mem_idChains hI.dir.index).1⟩

theorem fuseDestroy_unlinks_hidden_run :
    LoopReachable xmpOper 7 hidingLoop ∧ (∃ p n, hidingLoop.dir.heap p = some n ∧ n.isHidden = true) ∧
      (idChains hidingLoop.dir).Nodup ∧ (∀ p, p ∈ idChains hidingLoop.dir ↔ (hidingLoop.dir.heap p).isSome) ∧
      fuseDestroy xmpOper hidingLoop.dir (fun _ => true) =
        .ok ((idChains hidingLoop.dir).filterMap (hiddenPath hidingLoop.dir fun _ => true)) :=
  ⟨hidingLoop_reachable, ⟨1, _, rfl, rfl⟩, fuseDestroy_unlinks_hidden hidingLoop_reachable _⟩

/-- **`fuse_destroy` frees every node once.** In every state the request loop reaches, the
second walk of the id table never reads a node it has already freed, so it frees none twice,
and it leaves no node allocated; nothing else of the directory changes. -/
theorem fuseDestroy_frees_nodes {ops : LoopOps} {kver : Nat} {s : Loop}
    (hs : LoopReachable ops kver s) :
    freeChains s.dir (idChains s.dir) = .ok { s.dir with heap := fun _ => none } := by
  have h := hs.loopInv.dir.index
  have hnone : (fun q => if q ∈ idChains s.dir then none else s.dir.heap q) = fun _ => none :=
    funext fun q => by cases hq : s.dir.heap q <;> simp [mem_idChains h, hq]
  rw [← hnone]
  exact freeChains_eq (idChains_nodup h) fun _ => (mem_idChains h).1

theorem fuseDestroy_frees_nodes_run :
    LoopReachable xmpOper 7 hidingLoop ∧ (∃ p n, hidingLoop.dir.heap p = some n ∧ n.isHidden = true) ∧
      freeChains hidingLoop.dir (idChains hidingLoop.dir) = .ok { hidingLoop.dir with heap := fun _ => none } :=
  ⟨hidingLoop_reachable, ⟨1, _, rfl, rfl⟩, fuseDestroy_frees_nodes hidingLoop_reachable⟩

end FuseCore
