import FuseCore.Path
import FuseCore.OpenCount
import FuseCore.Failures

/-!
# Lookup counts over every interleaving (fuse.c:296-335, :393-429, :635-705, :2051-2056)

Worker threads answer LOOKUP-class requests (`do_lookup`, and `do_mknod`, `do_mkdir`,
`do_symlink`, `do_link`, which share its tail): `get_path_name` and the user's callback,
`find_node` under `f->lock`, which counts a lookup of the node and stores the request's
`unique` as its version, the write of the reply, and `cancel_lookup` when that write fails
with `ENOENT`. The reader handles FORGET inline (`fuse_read_cmd`, fuse.c:2052). Each of
`find_node`, `forget_node`, `forget_node_old` and `cancel_lookup` runs under `f->lock`, so
each is one step; `tree_lock` only excludes writers, and no writer runs here.

The kernel (`LookupStep`) sends LOOKUP in a directory it holds, with the next request number
as `unique`, and FORGET only for what it was given: under the modern protocol at most the
lookups it took, under the legacy one (`major ≤ 6`) the version of the last reply it took.
It does not forget a directory a request in flight looks a name up in.

`LookupInv`, for `major ≥ 7`, says that a node's `nlookup` is the replies the kernel took
and has not forgotten (`refs`: a delivered reply adds one, FORGET takes its count), plus the
lookups in flight (`owed`: from `find_node` to the delivery or the cancel), plus the replies
whose write failed with an error other than `ENOENT` (`lost`: counted by `find_node`, never
forgotten by anyone). Each transition has its own preservation lemma, and `LookupInv.step`
collects them. So a node the kernel holds is never forgotten by the process, and once
nothing is in flight `nlookup` is `refs + lost` (`lookup_protocol`). Under the legacy
protocol the version is all that ties a FORGET or a cancel to a lookup, and a cancelled
lookup that ran `find_node` after a delivered one frees the node the kernel holds; a lost
reply keeps `nlookup` above what the kernel holds (`lookup_protocol_breaks`).
-/

namespace FuseCore

/-! ## The negotiated major stays -/

theorem bind_eq_ok {ε α β : Type} {x : Except ε α} {g : α → Except ε β} {b : β} :
    x >>= g = .ok b ↔ ∃ a, x = .ok a ∧ g a = .ok b := by
  cases x <;> simp

section Major
variable {f g : Fuse} {p : Ptr}

theorem unhashId_major (h : unhashId f p = .ok g) : g.major = f.major := by
  obtain ⟨_, -, h⟩ := bind_eq_ok.1 h
  cases h; rfl

theorem deleteNode_major (h : deleteNode f p = .ok g) : g.major = f.major := by
  obtain ⟨n, -, h⟩ := bind_eq_ok.1 h
  by_cases hn : n.name.isSome
  · simp [hn] at h
  · simp only [hn, Bool.false_eq_true, if_false, pure_eq_ok, ok_bind] at h
    obtain ⟨g', hg', h⟩ := bind_eq_ok.1 h
    cases h; exact (Fuse.freeNode_major _ _).trans (unhashId_major hg')

theorem unrefNode_major (h : unrefNode f p = .ok g) : g.major = f.major := by
  obtain ⟨n, -, h⟩ := bind_eq_ok.1 h
  by_cases h0 : n.refctr ≤ 0
  · simp [h0] at h
  · simp only [h0, if_false, pure_eq_ok, ok_bind] at h
    split at h
    · exact (deleteNode_major h).trans rfl
    · cases h; rfl

theorem unhashName_major (h : unhashName f p = .ok g) : g.major = f.major := by
  obtain ⟨n, -, h⟩ := bind_eq_ok.1 h
  split at h
  · cases h; rfl
  · dsimp only at h
    split at h
    · obtain ⟨q, -, h⟩ := bind_eq_ok.1 h
      obtain ⟨g1, hg1, h⟩ := bind_eq_ok.1 h
      obtain ⟨m, -, h⟩ := bind_eq_ok.1 h
      cases h; exact (unrefNode_major hg1).trans rfl
    · simp at h

theorem forgetNode_major {i c : Nat} (h : forgetNode f i c = .ok g) : g.major = f.major := by
  by_cases hr : i = rootId
  · simp only [forgetNode, hr, if_true, pure_eq_ok] at h; cases h; rfl
  simp only [forgetNode, hr, if_false, pure_eq_ok, ok_bind] at h
  obtain ⟨q, -, h⟩ := bind_eq_ok.1 h
  obtain ⟨n, -, h⟩ := bind_eq_ok.1 h
  by_cases hc : n.nlookup < c
  · simp [hc] at h
  simp only [hc, if_false, pure_eq_ok, ok_bind] at h
  split at h
  · obtain ⟨g1, hg1, h⟩ := bind_eq_ok.1 h
    exact (unrefNode_major h).trans ((unhashName_major hg1).trans rfl)
  · cases h; rfl

end Major

/-! ## What `find_node` does -/

/-- **What `find_node` can do**: fail and leave every node where it was; refresh the node of
the key; or create one under a new id and attach it. -/
theorem findNode_cases {f g : Fuse} {parent : Nat} {name : Name} {ino version : Nat}
    {callocOk strdupOk : Bool} {r : Option (Ptr × Nat)} (hI : IndexInv f)
    (h : findNode f parent name ino version callocOk strdupOk = .ok (r, g)) :
    (r = none ∧ g.heap = f.heap ∧ g.major = f.major ∧ g.flags = f.flags) ∨
    (∃ p n, r = some (p, if f.flags.useIno then ino else n.nodeid) ∧
      lookupNode f parent name = some p ∧ f.heap p = some n ∧
      g = f.setNode p { n with version := version, nlookup := n.nlookup + 1 }) ∨
    (∃ q m id gen, lookupNode f parent name = none ∧ getNodeNocheck f parent = some q ∧
      f.heap q = some m ∧ nextIdLoop f (2 ^ nodeidBits) f.ctr f.generation = some (id, gen) ∧
      r = some (f.nextPtr, if f.flags.useIno then ino else id) ∧
      g = freshState f parent name q m id gen version) := by
  cases hl : lookupNode f parent name with
  | some p =>
    obtain ⟨n, hp, -⟩ := (lookupNode_eq_some hI).1 hl
    rw [findNode_hit hl hp, Except.ok.injEq, Prod.mk.injEq] at h
    obtain ⟨rfl, rfl⟩ := h
    exact .inr (.inl ⟨p, n, rfl, rfl, hp, rfl⟩)
  | none =>
    cases callocOk with
    | false =>
      rw [findNode_nomem hl, Except.ok.injEq, Prod.mk.injEq] at h
      obtain ⟨rfl, rfl⟩ := h
      exact .inl ⟨rfl, rfl, rfl, rfl⟩
    | true =>
      cases hid : nextIdLoop f (2 ^ nodeidBits) f.ctr f.generation with
      | none => rw [findNode_hang hI hl hid] at h; cases h
      | some r =>
        obtain ⟨id, gen⟩ := r
        cases strdupOk with
        | false =>
          rw [findNode_nostr hI hl hid, Except.ok.injEq, Prod.mk.injEq] at h
          obtain ⟨rfl, rfl⟩ := h
          exact .inl ⟨rfl, rfl, rfl, rfl⟩
        | true =>
          cases hq : getNodeNocheck f parent with
          | none => rw [findNode_orphan hI hl hq hid] at h; cases h
          | some q =>
            obtain ⟨m, hm, -⟩ := getNodeNocheck_some hq
            rw [findNode_fresh hI hl hq hm hid, Except.ok.injEq, Prod.mk.injEq] at h
            obtain ⟨rfl, rfl⟩ := h
            exact .inr (.inr ⟨q, m, id, gen, rfl, rfl, hm, rfl, rfl, rfl⟩)

/-! ## Lookup counts of a directory -/

theorem Node.lookups_of_ident {y y0 : Node} (h : y.ident = y0.ident) :
    y.nlookup = y0.nlookup ∧ y.version = y0.version := by
  simp only [Node.ident, Prod.mk.injEq] at h
  exact ⟨h.2.2.2.1, h.2.2.1⟩

/-- The lookups the kernel may still forget, per id, are `t`: every node but the root counts
`t` of its id in `nlookup` and carries a request's version, every id `t` counts is a node's,
the root's is not counted, and every node the kernel holds is attached. -/
structure Fuse.Lookups (f : Fuse) (t : Nat → Nat) : Prop where
  count : ∀ {p n}, f.heap p = some n → n.nodeid ≠ rootId → n.nlookup = t n.nodeid
  live : ∀ {i}, 0 < t i → ∃ p n, f.heap p = some n ∧ n.nodeid = i
  root : t rootId = 0
  version : ∀ {p n}, f.heap p = some n → n.nodeid ≠ rootId → n.version ≠ 0
  attached : ∀ {p n}, f.heap p = some n → ¬ n.Forgotten → n.name.isSome

section Lookups
variable {f g : Fuse} {t : Nat → Nat}

theorem Fuse.Lookups.not_forgotten (h : f.Lookups t) {p : Ptr} {n : Node} (hp : f.heap p = some n)
    (ht : 0 < t n.nodeid) : ¬ n.Forgotten := fun hf => by
  rcases hf.2 with h0 | h0
  · rw [h.count hp hf.1] at h0; omega
  · exact h.version hp hf.1 h0

theorem Fuse.Lookups.held (h : f.Lookups t) {i : Nat} (ht : 0 < t i) : Held f i := by
  obtain ⟨p, n, hp, rfl⟩ := h.live ht
  exact ⟨p, n, hp, rfl, h.not_forgotten hp ht⟩

/-- An id no node has is not counted. -/
theorem Fuse.Lookups.eq_zero (h : f.Lookups t) {i : Nat} (hi : ∀ p n, f.heap p = some n → n.nodeid ≠ i) :
    t i = 0 :=
  Nat.eq_zero_of_not_pos fun ht => let ⟨p, n, hp, e⟩ := h.live ht; hi p n hp e

theorem Fuse.Lookups.of_heap (h : f.Lookups t) (e : g.heap = f.heap) : g.Lookups t where
  count hp := h.count (e ▸ hp)
  live ht := e ▸ h.live ht
  root := h.root
  version hp := h.version (e ▸ hp)
  attached hp := h.attached (e ▸ hp)

/-- `find_node` refreshes the node of a key: one more lookup of its id. -/
theorem Fuse.Lookups.hit (hI : IndexInv f) (h : f.Lookups t) {p : Ptr} {n : Node} {version : Nat}
    (hp : f.heap p = some n) (hr : n.nodeid ≠ rootId) (hs : n.name.isSome) (hv : version ≠ 0) :
    (f.setNode p { n with version := version, nlookup := n.nlookup + 1 }).Lookups (incr t n.nodeid) where
  count {x y} hx hy := by
    rw [incr_apply]
    simp only [Fuse.setNode_heap, update_eq_some] at hx
    rcases hx with ⟨rfl, ⟨⟩⟩ | ⟨hxp, hx⟩
    · simp [h.count hp hr]
    · rw [if_neg fun e => hxp (hI.idUnique hx hp e), h.count hx hy]; rfl
  live {i} ht := by
    rw [incr_apply] at ht
    by_cases e : i = n.nodeid
    · exact ⟨p, { n with version := version, nlookup := n.nlookup + 1 }, by simp, e.symm⟩
    · obtain ⟨x, y, hx, rfl⟩ := h.live (by simpa [e] using ht)
      by_cases hxp : x = p
      · subst hxp; rw [hp, Option.some.injEq] at hx; subst hx; exact absurd rfl e
      · exact ⟨x, y, by simp [hxp, hx], rfl⟩
  root := by rw [incr_apply, if_neg (Ne.symm hr), h.root]
  version {x y} hx hy := by
    simp only [Fuse.setNode_heap, update_eq_some] at hx
    rcases hx with ⟨rfl, ⟨⟩⟩ | ⟨-, hx⟩
    exacts [hv, h.version hx hy]
  attached {x y} hx hy := by
    simp only [Fuse.setNode_heap, update_eq_some] at hx
    rcases hx with ⟨rfl, ⟨⟩⟩ | ⟨-, hx⟩
    exacts [hs, h.attached hx hy]

/-- `find_node` creates a node under a new id: its first lookup. -/
theorem Fuse.Lookups.fresh (h0 : Inv f) (h : f.Lookups t) {parent : Nat} {name : Name} {q : Ptr}
    {m : Node} {id gen version : Nat} (hm : f.heap q = some m)
    (hid : nextIdLoop f (2 ^ nodeidBits) f.ctr f.generation = some (id, gen)) (hv : version ≠ 0) :
    id ≠ rootId ∧ (freshState f parent name q m id gen version).Lookups (incr t id) := by
  have hpq : f.nextPtr ≠ q := Nat.ne_of_gt (h0.index.bounded hm)
  have hnew : ∀ p n, f.heap p = some n → n.nodeid ≠ id :=
    (getNodeNocheck_eq_none h0.index).1 (nextIdLoop_fresh hid).2
  have hr : id ≠ rootId := fun e => by
    obtain ⟨r, z, hz, hzr, -⟩ := h0.refs.root
    exact hnew r z hz (hzr.trans e.symm)
  have ht : t id = 0 := h.eq_zero hnew
  have hfree : f.heap f.nextPtr = none := by
    cases hp : f.heap f.nextPtr with
    | none => rfl
    | some n => exact absurd (h0.index.bounded hp) (Nat.lt_irrefl _)
  -- a node of the new state: the new one, or one of `f` with its id, lookups and version
  have hcases : ∀ {x y}, (freshState f parent name q m id gen version).heap x = some y →
      (y.nodeid = id ∧ y.nlookup = 1 ∧ y.version = version ∧ y.name = some name) ∨
      (∃ y0, f.heap x = some y0 ∧ y.ident = y0.ident ∧ y.name = y0.name) := by
    intro x y hx
    rw [freshState_heap hpq] at hx
    split at hx
    · cases hx; exact .inl ⟨rfl, rfl, rfl, rfl⟩
    · rw [update_eq_some] at hx
      rcases hx with ⟨rfl, ⟨⟩⟩ | ⟨-, hx⟩
      exacts [.inr ⟨m, hm, rfl, rfl⟩, .inr ⟨y, hx, rfl, rfl⟩]
  refine ⟨hr, ⟨fun {x y} hx hy => ?_, fun {i} hi => ?_, ?_, fun {x y} hx hy => ?_,
    fun {x y} hx hy => ?_⟩⟩
  · rw [incr_apply]
    rcases hcases hx with ⟨e, e1, -⟩ | ⟨y0, hy0, hid, -⟩
    · rw [e1, e, ht, if_pos rfl]
    · have e := Node.nodeid_of_ident hid
      rw [(Node.lookups_of_ident hid).1, e, h.count hy0 (e ▸ hy),
        if_neg fun h' => hnew _ _ hy0 h']; rfl
  · rw [incr_apply] at hi
    by_cases e : i = id
    · exact ⟨f.nextPtr, _, by rw [freshState_heap hpq, if_pos rfl], by simp [newNode, e]⟩
    · obtain ⟨x, y, hx, rfl⟩ := h.live (by simpa [e] using hi)
      have hxp : x ≠ f.nextPtr := fun e => by rw [e, hfree] at hx; cases hx
      by_cases hxq : x = q
      · subst hxq; rw [hm, Option.some.injEq] at hx; subst hx
        exact ⟨x, { m with refctr := m.refctr + 1 }, by rw [freshState_heap hpq, if_neg hxp]; simp, rfl⟩
      · exact ⟨x, y, by rw [freshState_heap hpq, if_neg hxp]; simp [hxq, hx], rfl⟩
  · rw [incr_apply, if_neg (Ne.symm hr), h.root]
  · rcases hcases hx with ⟨-, -, e, -⟩ | ⟨y0, hy0, hid, -⟩
    · exact e ▸ hv
    · rw [(Node.lookups_of_ident hid).2]
      exact h.version hy0 (Node.nodeid_of_ident hid ▸ hy)
  · rcases hcases hx with ⟨-, -, -, e⟩ | ⟨y0, hy0, hid, hn⟩
    · simp [e]
    · exact hn ▸ h.attached hy0 ((Node.Forgotten.of_ident hid).not.1 hy)

/-- A node keeps being held when fewer lookups are forgotten than it counts. -/
theorem Fuse.Lookups.not_forgotten_sub (h : f.Lookups t) {p : Ptr} {n : Node} {c : Nat}
    (hp : f.heap p = some n) (hr : n.nodeid ≠ rootId) (ht : 0 < t n.nodeid - c) :
    ¬ ({ n with nlookup := n.nlookup - c } : Node).Forgotten := fun hf => by
  rcases hf.2 with h0 | h0
  · simp only [h.count hp hr] at h0; omega
  · exact h.version hp hr h0

/-- A forget of `c` lookups of the node at `p` keeps every node whose id stays counted under
its key. -/
theorem Fuse.Lookups.forget_keeps (hI : IndexInv f) (h : f.Lookups t) {p : Ptr} {n : Node} {c : Nat}
    (hp : f.heap p = some n) (hr : n.nodeid ≠ rootId)
    (hk : (f.setNode p { n with nlookup := n.nlookup - c }).KeepsIdent g) {x : Ptr} {y0 : Node}
    (hx : f.heap x = some y0) (ht : 0 < Function.update t n.nodeid (t n.nodeid - c) y0.nodeid) :
    ∃ y, g.heap x = some y ∧ y.key = y0.key := by
  by_cases hxp : x = p
  · rw [hxp, hp, Option.some.injEq] at hx; subst hx hxp
    rw [Function.update_same] at ht
    have hp1 : (f.setNode x { n with nlookup := n.nlookup - c }).heap x =
        some { n with nlookup := n.nlookup - c } := by simp
    obtain ⟨y, hy, ek⟩ := hk.held hp1 (h.not_forgotten_sub hp hr ht)
    exact ⟨y, hy, ek⟩
  · rw [Function.update_noteq fun e => hxp (hI.idUnique hx hp e)] at ht
    exact hk.held (by simp [hxp, hx]) (h.not_forgotten hx ht)

/-- `forget_node` drops `c` lookups of the node at `p`, whose id is counted at least `c`
times: the count of that id drops by `c`. -/
theorem Fuse.Lookups.forget (hI : IndexInv f) (h : f.Lookups t) {p : Ptr} {n : Node} {c : Nat}
    (hp : f.heap p = some n) (hr : n.nodeid ≠ rootId)
    (hk : (f.setNode p { n with nlookup := n.nlookup - c }).KeepsIdent g) :
    g.Lookups (Function.update t n.nodeid (t n.nodeid - c)) := by
  -- the node of the written state at `x`: the new record at `p`, or `f`'s
  have hf1 : ∀ {x y0}, (f.setNode p { n with nlookup := n.nlookup - c }).heap x = some y0 →
      (x = p ∧ y0 = { n with nlookup := n.nlookup - c }) ∨ (x ≠ p ∧ f.heap x = some y0) := by
    intro x y0 hx
    simp only [Fuse.setNode_heap, update_eq_some] at hx
    rcases hx with ⟨rfl, e⟩ | ⟨hxp, hx⟩
    exacts [.inl ⟨rfl, (Option.some.inj e).symm⟩, .inr ⟨hxp, hx⟩]
  have hother : ∀ {x y0}, x ≠ p → f.heap x = some y0 → y0.nodeid ≠ n.nodeid :=
    fun hxp hx e => hxp (hI.idUnique hx hp e)
  refine ⟨fun {x y} hx hy => ?_, fun {i} hi => ?_, ?_, fun {x y} hx hy => ?_, fun {x y} hx hy => ?_⟩
  · obtain ⟨y0, hy0, hid⟩ := hk.back hx
    rw [(Node.lookups_of_ident hid).1, Node.nodeid_of_ident hid]
    rcases hf1 hy0 with ⟨-, rfl⟩ | ⟨hxp, hy0⟩
    · simp [h.count hp hr]
    · rw [Function.update_noteq (hother hxp hy0), h.count hy0 (Node.nodeid_of_ident hid ▸ hy)]
  · -- a counted id has a node in `f`, which the forget keeps under its key
    obtain ⟨x, y0, hx, rfl⟩ : ∃ x y0, f.heap x = some y0 ∧ y0.nodeid = i := by
      by_cases e : i = n.nodeid
      · exact ⟨p, n, hp, e.symm⟩
      · exact h.live (by rwa [Function.update_noteq e] at hi)
    obtain ⟨y, hy, ek⟩ := h.forget_keeps hI hp hr hk hx hi
    exact ⟨x, y, hy, (Node.key_eq ek).1⟩
  · rw [Function.update_noteq (Ne.symm hr), h.root]
  · obtain ⟨y0, hy0, hid⟩ := hk.back hx
    rw [(Node.lookups_of_ident hid).2]
    rcases hf1 hy0 with ⟨-, rfl⟩ | ⟨-, hy0⟩
    · exact h.version (n := n) hp hr
    · exact h.version hy0 (Node.nodeid_of_ident hid ▸ hy)
  · obtain ⟨y0, hy0, hid⟩ := hk.back hx
    have hy0f := (Node.Forgotten.of_ident hid).not.1 hy
    obtain ⟨y', hy', ek⟩ := hk.held hy0 hy0f
    rw [hx, Option.some.injEq] at hy'; subst hy'
    rw [(Node.key_eq ek).2.1]
    rcases hf1 hy0 with ⟨-, rfl⟩ | ⟨-, hy0⟩
    · exact h.attached (n := n) hp fun hf => hy0f ⟨hf.1, by
        rcases hf.2 with h0 | h0
        · exact .inl (by simp [h0])
        · exact .inr h0⟩
    · exact h.attached hy0 hy0f


end Lookups

/-! ## The process and the kernel -/

/-- Where a worker answering a LOOKUP-class request is. `unique` is the request's, which
`find_node` stores as the node's version. -/
inductive LookupPhase where
  /-- The request is read: `get_path_name`, the user's callback and `find_node` are next
  (fuse.c:673-684, :635-659). -/
  | start (parent : Nat) (name : Name) (unique : Nat)
  /-- `find_node` counted a lookup of node `nodeid`; the reply is to be written (fuse.c:686). -/
  | found (nodeid unique : Nat)
  /-- The write failed with `ENOENT`; `cancel_lookup` is next (fuse.c:687-688). -/
  | cancelling (nodeid unique : Nat)
  /-- The request is answered. -/
  | done
  deriving DecidableEq, Repr

/-- The directory a request in flight looks a name up in. -/
def LookupPhase.dir : LookupPhase → Option Nat
  | .start parent _ _ => some parent
  | _ => none

/-- Whether a thread holds a lookup of node `i` that `find_node` counted and that is neither
delivered nor cancelled yet. -/
def LookupPhase.owes (i : Nat) : LookupPhase → Bool
  | .found j _ | .cancelling j _ => j == i
  | _ => false

/-- The process answering LOOKUP-class requests and FORGET, and the kernel's side of it. -/
structure LookupSys where
  dir : Fuse
  threads : List LookupPhase
  /-- The kernel's request counter: each request gets the next value as its `unique`. -/
  reqctr : Nat
  /-- Lookup replies the kernel took and has not forgotten, per node id. -/
  refs : Nat → Nat
  /-- The `unique` of the last reply the kernel took for a node id: what a legacy FORGET
  sends. -/
  version : Nat → Nat
  /-- Lookup replies whose write failed with an error other than `ENOENT`, per node id. -/
  lost : Nat → Nat
  /-- Whether the process aborted. -/
  crashed : Bool

/-- The process once INIT negotiated `major`, before any other request. -/
def LookupSys.start (major : Nat) (flags : Flags) : LookupSys :=
  ⟨{ fuseNew flags with major := major }, [], 0, fun _ => 0, fun _ => 0, fun _ => 0, false⟩

/-- Thread `k` moves to phase `ph`. -/
def LookupSys.setPhase (s : LookupSys) (k : Nat) (ph : LookupPhase) : LookupSys :=
  { s with threads := s.threads.set k ph }

/-- The process aborts. -/
def LookupSys.crash (s : LookupSys) : LookupSys := { s with crashed := true }

/-- Lookups of node `i` that `find_node` counted and that are still in flight. -/
def LookupSys.owed (s : LookupSys) (i : Nat) : Nat := s.threads.countP (LookupPhase.owes i)

/-- What `nlookup` should count for node `i`: the kernel's references, the lookups in
flight, and the replies lost on the way. -/
def LookupSys.counted (s : LookupSys) (i : Nat) : Nat := s.refs i + s.owed i + s.lost i

/-- Whether the kernel holds node `i`: the root for the whole mount, any other node while it
has a lookup of it that it has not forgotten. -/
def LookupSys.Holds (s : LookupSys) (i : Nat) : Prop := i = rootId ∨ 0 < s.refs i

/-- The next step of thread `k` in phase `ph`; `none` while `next_id` loops. `res` is what the
user's callback, or the write of the reply, returns at this step, `ino` the inode number the
callback reported, `pathOk` whether the `strdup` ending `get_path_name` succeeds, and `callocOk`
and `strdupOk` whether the allocations of `find_node` succeed. -/
def LookupSys.runThread (s : LookupSys) (k : Nat) (res : Int) (ino : Nat) (pathOk callocOk strdupOk : Bool) :
    LookupPhase → Option LookupSys
  | .start parent name unique =>
    match getPathName s.dir parent (some name) pathOk with
    | .error _ => some s.crash
    | .ok none => some (s.setPhase k .done)
    | .ok (some _) =>
      if res ≠ 0 then some (s.setPhase k .done) else
      match findNode s.dir parent name ino unique callocOk strdupOk with
      | .error .nextIdHangs => none
      | .error _ => some s.crash
      | .ok (none, g) => some { s.setPhase k .done with dir := g }
      | .ok (some (p, _), g) =>
        some <| match g.node p with
          | .ok n => { s.setPhase k (.found n.nodeid unique) with dir := g }
          | .error _ => s.crash
  | .found i unique =>
    some <| if res = 0 then
        { s.setPhase k .done with refs := incr s.refs i, version := Function.update s.version i unique }
      else if res = -ENOENT then s.setPhase k (.cancelling i unique)
      else { s.setPhase k .done with lost := incr s.lost i }
  | .cancelling i unique =>
    some <| match cancelLookup s.dir i unique with
      | .ok g => { s.setPhase k .done with dir := g }
      | .error _ => s.crash
  | .done => none

/-- What the FORGET the kernel sends for node `i`, dropping `c` of its lookups, carries: the
count under the modern protocol, the version of the last reply it took under the legacy one. -/
def LookupSys.forgetArg (s : LookupSys) (i c : Nat) : Nat := if s.dir.major ≤ 6 then s.version i else c

/-- The kernel's references after that FORGET: a legacy one drops them all. -/
def LookupSys.forgetRefs (s : LookupSys) (i c : Nat) : Nat → Nat :=
  Function.update s.refs i (if s.dir.major ≤ 6 then 0 else s.refs i - c)

/-- The kernel sends a LOOKUP-class request for `name` in directory `parent`, under the next
`unique`; a worker picks it up. -/
def LookupSys.request (s : LookupSys) (parent : Nat) (name : Name) : LookupSys :=
  { s with threads := s.threads ++ [.start parent name (s.reqctr + 1)], reqctr := s.reqctr + 1 }

/-- The kernel sends FORGET for `c` of the lookups of node `i` it took, and the reader handles
it inline (fuse.c:2051-2056, :693-705); `forget_node` takes `f->lock`. -/
def LookupSys.forget (s : LookupSys) (i c : Nat) : LookupSys :=
  match (forgetOp s.dir.major i (s.forgetArg i c)).run s.dir with
  | .ok g => { s with dir := g, refs := s.forgetRefs i c }
  | .error _ => s.crash

/-- One step of the process or the kernel. The kernel sends LOOKUP in a directory it holds,
and FORGET for lookups it took, of no directory a request in flight looks a name up in. -/
inductive LookupStep : LookupSys → LookupSys → Prop
  | lookup {s : LookupSys} {parent : Nat} {name : Name} : s.crashed = false → s.Holds parent →
      LookupStep s (s.request parent name)
  | forget {s : LookupSys} {i c : Nat} : s.crashed = false → 0 < c → c ≤ s.refs i →
      (∀ ph ∈ s.threads, ph.dir ≠ some i) → LookupStep s (s.forget i c)
  | thread {s s' : LookupSys} {k : Nat} {ph : LookupPhase} {res : Int} {ino : Nat}
      {pathOk callocOk strdupOk : Bool} : s.crashed = false → s.threads[k]? = some ph →
      s.runThread k res ino pathOk callocOk strdupOk ph = some s' → LookupStep s s'

/-- The states the process reaches once INIT negotiated `major`. -/
inductive LookupReachable (major : Nat) : LookupSys → Prop
  | start (flags : Flags) : LookupReachable major (LookupSys.start major flags)
  | step {s s' : LookupSys} : LookupReachable major s → LookupStep s s' → LookupReachable major s'

/-! ## The invariant under the modern protocol -/

/-- What holds in every state the process reaches once INIT negotiated a major of at least 7:
the directory is one the directory operations reach, every node's `nlookup` is what the
kernel holds of it plus what is in flight plus what was lost (`Fuse.Lookups`), and every
request in flight looks a name up in a directory the kernel holds, under a nonzero
`unique`. -/
structure LookupInv (s : LookupSys) : Prop where
  dir : Reachable s.dir
  major : 7 ≤ s.dir.major
  crashed : s.crashed = false
  lookups : s.dir.Lookups s.counted
  parents : ∀ ph ∈ s.threads, ∀ d, ph.dir = some d → s.Holds d
  unique : ∀ {parent name u}, LookupPhase.start parent name u ∈ s.threads → u ≠ 0

/-- Every node of `s` whose id the kernel holds in `s'` is at the same address under the same
key in `s'`: the step neither unhashed nor freed it. -/
def LookupSys.KeepsHeld (s s' : LookupSys) : Prop :=
  ∀ x n, s.dir.heap x = some n → 0 < s'.refs n.nodeid →
    ∃ n', s'.dir.heap x = some n' ∧ n'.key = n.key

section Inv
variable {s s' : LookupSys} {k : Nat} {ph ph' : LookupPhase}

/-- Moving thread `k` from `ph` to `ph'` changes what is in flight by what the two owe. -/
theorem LookupSys.owed_setPhase (hk : s.threads[k]? = some ph) (ph' : LookupPhase) (i : Nat) :
    (s.setPhase k ph').owed i + (if ph.owes i then 1 else 0) =
      s.owed i + (if ph'.owes i then 1 else 0) :=
  countP_set _ hk ph'

theorem LookupSys.KeepsHeld.of_heap (e : s'.dir.heap = s.dir.heap) : s.KeepsHeld s' :=
  fun _ _ hx _ => ⟨_, e ▸ hx, rfl⟩

/-- A step that keeps every node under its key keeps those the kernel holds. -/
theorem LookupSys.KeepsHeld.of_keys
    (hk : ∀ {x n}, s.dir.heap x = some n → ∃ n', s'.dir.heap x = some n' ∧ n'.key = n.key) :
    s.KeepsHeld s' :=
  fun _ _ hx _ => hk hx

theorem LookupSys.refs_le_counted (s : LookupSys) (i : Nat) : s.refs i ≤ s.counted i := by
  unfold LookupSys.counted; omega

/-- A directory the kernel holds is live and not forgotten. -/
theorem LookupInv.held (h : LookupInv s) {d : Nat} (hd : s.Holds d) : Held s.dir d := by
  rcases hd with rfl | hd
  · obtain ⟨r, n, hr, e, -⟩ := h.dir.inv.refs.root
    exact ⟨r, n, hr, e, fun hf => hf.1 e⟩
  · exact h.lookups.held (Nat.lt_of_lt_of_le hd (s.refs_le_counted d))

/-- Thread `k` moves to a phase that looks nothing up, the kernel's references only grow, and
the directory stays reachable under the same `major` with the counts it should have. -/
theorem LookupInv.next (h : LookupInv s) (ht : s'.threads = s.threads.set k ph')
    (hd : ph'.dir = none) (hc : s'.crashed = false) (hg : Reachable s'.dir)
    (hm : s'.dir.major = s.dir.major) (hr : ∀ d, s.refs d ≤ s'.refs d)
    (hL : s'.dir.Lookups s'.counted) : LookupInv s' where
  dir := hg
  major := hm ▸ h.major
  crashed := hc
  lookups := hL
  parents q hq d hqd := by
    rw [ht] at hq
    rcases List.mem_or_eq_of_mem_set hq with hq | rfl
    · rcases h.parents q hq d hqd with e | e
      exacts [.inl e, .inr (Nat.lt_of_lt_of_le e (hr d))]
    · rw [hd] at hqd; cases hqd
  unique hq := by
    rw [ht] at hq
    rcases List.mem_or_eq_of_mem_set hq with hq | e
    · exact h.unique hq
    · rw [← e] at hd; cases hd

/-- A request ends with nothing counted for it. -/
theorem LookupInv.quiet (h : LookupInv s) (hk : s.threads[k]? = some ph)
    (hph : ∀ i, ph.owes i = false) :
    LookupInv (s.setPhase k .done) ∧ s.KeepsHeld (s.setPhase k .done) := by
  have hc : (s.setPhase k .done).counted = s.counted := funext fun i => by
    have := LookupSys.owed_setPhase hk .done i
    rw [hph] at this
    simp only [LookupSys.counted, LookupSys.setPhase, LookupPhase.owes, Bool.false_eq_true,
      if_false] at this ⊢; omega
  exact ⟨h.next rfl rfl h.crashed h.dir rfl (fun _ => le_rfl) (hc ▸ h.lookups),
    LookupSys.KeepsHeld.of_heap rfl⟩

/-- The process once INIT negotiated a major of at least 7 keeps the invariant. -/
theorem LookupInv.start {major : Nat} (h7 : 7 ≤ major) (flags : Flags) :
    LookupInv (LookupSys.start major flags) := by
  have hroot : ∀ {x n}, (LookupSys.start major flags).dir.heap x = some n → n = rootNode := by
    intro x n hx
    simp only [LookupSys.start, fuseNew, update_eq_some] at hx
    rcases hx with ⟨-, ⟨⟩⟩ | ⟨-, ⟨⟩⟩
    rfl
  refine ⟨.step (.init major) (.init flags) trivial rfl, h7, rfl, ⟨fun hx hr => ?_, fun hi => ?_,
    rfl, fun hx hr => ?_, fun hx _ => ?_⟩, fun _ h => (nomatch h), fun h => (nomatch h)⟩
  · exact absurd (congrArg Node.nodeid (hroot hx)) hr
  · exact absurd hi (Nat.lt_irrefl 0)
  · exact absurd (congrArg Node.nodeid (hroot hx)) hr
  · rw [hroot hx]; rfl

/-- The kernel sends a request in a directory it holds. -/
theorem LookupInv.request (h : LookupInv s) {parent : Nat} {name : Name} (hp : s.Holds parent) :
    LookupInv (s.request parent name) where
  dir := h.dir
  major := h.major
  crashed := h.crashed
  lookups := by
    convert h.lookups using 1
    funext j
    simp [LookupSys.request, LookupSys.counted, LookupSys.owed, LookupPhase.owes]
  parents q hq d hqd := by
    rcases List.mem_append.1 hq with hq | hq
    · exact h.parents q hq d hqd
    · rw [List.mem_singleton.1 hq] at hqd; cases hqd; exact hp
  unique hq := by
    rcases List.mem_append.1 hq with hq | hq
    · exact h.unique hq
    · cases List.mem_singleton.1 hq; exact Nat.succ_ne_zero _

/-- `forget_node(i, c)` for at most the lookups counted of node `i`, of which there are some,
returns a reachable directory under the same major whose count at `i` dropped by `c`, and
keeps every node whose id stays counted under its key. -/
theorem LookupInv.forgetNode_ok (h : LookupInv s) {i c : Nat} (hpos : 0 < s.counted i)
    (hc : c ≤ s.counted i) :
    ∃ g, forgetNode s.dir i c = .ok g ∧ Reachable g ∧ g.major = s.dir.major ∧
      g.Lookups (Function.update s.counted i (s.counted i - c)) ∧
      ∀ x n, s.dir.heap x = some n → 0 < Function.update s.counted i (s.counted i - c) n.nodeid →
        ∃ n', g.heap x = some n' ∧ n'.key = n.key := by
  obtain ⟨p, n, hp, rfl⟩ := h.lookups.live hpos
  have hroot : n.nodeid ≠ rootId := fun e => by
    rw [e, h.lookups.root] at hpos; exact Nat.lt_irrefl 0 hpos
  have hheld := h.lookups.held hpos
  have hle : n.nodeid ≠ rootId → ∀ p' n', s.dir.heap p' = some n' → n'.nodeid = n.nodeid →
      c ≤ n'.nlookup := fun hr p' n' hp' e => by rw [h.lookups.count hp' (e ▸ hr), e]; exact hc
  obtain ⟨g, hg, -, -, -, -, -, hki⟩ := forgetNode_spec h.dir.inv hheld hle
  have hI := h.dir.inv.index
  exact ⟨g, hg, .step (.forget n.nodeid c) h.dir ⟨hheld, hle⟩ hg, forgetNode_major hg,
    h.lookups.forget hI hp hroot (hki p n hp rfl hroot),
    fun _ _ hx => h.lookups.forget_keeps hI hp hroot (hki p n hp rfl hroot) hx⟩

/-- The kernel forgets `c` of the lookups of node `i` it took, of no directory a request in
flight looks a name up in: under the modern protocol the reader calls `forget_node(i, c)`,
which drops exactly those. -/
theorem LookupInv.forget (h : LookupInv s) {i c : Nat} (hc0 : 0 < c) (hc : c ≤ s.refs i)
    (hd : ∀ ph ∈ s.threads, ph.dir ≠ some i) :
    LookupInv (s.forget i c) ∧ s.KeepsHeld (s.forget i c) := by
  have hmaj : ¬ s.dir.major ≤ 6 := by have := h.major; omega
  obtain ⟨g, hg, hR, hm, hL, hK⟩ := h.forgetNode_ok
    (Nat.lt_of_lt_of_le (Nat.lt_of_lt_of_le hc0 hc) (s.refs_le_counted i))
    (le_trans hc (s.refs_le_counted i))
  have hs : s.forget i c = { s with dir := g, refs := Function.update s.refs i (s.refs i - c) } := by
    simp only [LookupSys.forget, forgetOp, LookupSys.forgetArg, LookupSys.forgetRefs, hmaj,
      if_false, DirOp.run, hg]
  have hcnt : (s.forget i c).counted = Function.update s.counted i (s.counted i - c) :=
    funext fun j => by
      rw [hs]
      by_cases e : j = i
      · subst e; simp only [LookupSys.counted, LookupSys.owed, Function.update_same]; omega
      · simp only [LookupSys.counted, LookupSys.owed, Function.update_noteq e]
  refine ⟨?_, fun x n hx hx0 => by
    rw [hs]; exact hK x n hx (hcnt ▸ Nat.lt_of_lt_of_le hx0 (LookupSys.refs_le_counted _ _))⟩
  rw [← hcnt] at hL
  rw [hs] at hL ⊢
  refine ⟨hR, hm ▸ h.major, h.crashed, hL,
    fun q hq d hqd => (h.parents q hq d hqd).imp id fun e => ?_, h.unique⟩
  show 0 < Function.update s.refs i _ d
  rwa [Function.update_noteq fun (ed : d = i) => hd q hq (ed ▸ hqd)]

/-- A request starts: `get_path_name` returns, and when the user's callback succeeds
`find_node` counts a lookup of the node it finds or creates. -/
theorem LookupInv.begin (h : LookupInv s) {parent : Nat} {name : Name} {u : Nat} {res : Int}
    {ino : Nat} {pathOk callocOk strdupOk : Bool} (hk : s.threads[k]? = some (.start parent name u))
    (hr : s.runThread k res ino pathOk callocOk strdupOk (.start parent name u) = some s') :
    LookupInv s' ∧ s.KeepsHeld s' := by
  have hmem := List.getElem?_mem hk
  have hheld : Held s.dir parent := h.held (h.parents _ hmem parent rfl)
  have hu : u ≠ 0 := h.unique hmem
  obtain ⟨o, ho⟩ := getPathName_ok_of_live h.dir.inv
    (let ⟨p, n, hn, e, _⟩ := hheld; ⟨p, n, hn, e⟩) (some name) pathOk
  simp only [LookupSys.runThread, ho] at hr
  rcases o with _ | _
  · cases hr; exact h.quiet hk fun _ => rfl
  by_cases hres : res ≠ 0
  · rw [if_pos hres] at hr; cases hr; exact h.quiet hk fun _ => rfl
  rw [if_neg hres] at hr
  rcases findNode_spec h.dir.inv hheld hu with hf | ⟨r, g, hf, -⟩
  · rw [hf] at hr; cases hr
  rw [hf] at hr
  have hg : Reachable g := .step (.find parent name ino u callocOk strdupOk) h.dir ⟨hheld, hu⟩
    (by rw [DirOp.run, hf]; rfl)
  have hI := h.dir.inv.index
  rcases findNode_cases hI hf with ⟨rfl, he, hm, -⟩ | ⟨p, n, rfl, hl, hp, rfl⟩ |
    ⟨q, m, id, gen, -, -, hm, hid, rfl, rfl⟩
  · -- no node: nothing is counted
    cases hr
    exact ⟨h.next rfl rfl h.crashed hg hm (fun _ => le_rfl)
      ((h.quiet hk fun _ => rfl).1.lookups.of_heap he), LookupSys.KeepsHeld.of_heap he⟩
  · -- an existing node: one more lookup of it in flight
    simp only [Fuse.node, Fuse.setNode_heap, Function.update_same] at hr
    cases hr
    obtain ⟨n', hp', hroot, -, hname⟩ := (lookupNode_eq_some hI).1 hl
    rw [hp, Option.some.injEq] at hp'; subst hp'
    refine ⟨h.next rfl rfl h.crashed hg rfl (fun _ => le_rfl) ?_, LookupSys.KeepsHeld.of_keys ?_⟩
    · convert h.lookups.hit hI hp hroot (by rw [hname]; rfl) hu using 1
      funext j
      have := LookupSys.owed_setPhase hk (.found n.nodeid u) j
      simp only [LookupSys.counted, LookupSys.owed, LookupSys.setPhase, LookupPhase.owes,
        incr_apply, beq_iff_eq, Bool.false_eq_true, if_false] at this ⊢
      split_ifs at this ⊢ <;> omega
    intro x y hx
    by_cases hxp : x = p
    · subst hxp; rw [hp, Option.some.injEq] at hx; subst hx
      exact ⟨{ n with version := u, nlookup := n.nlookup + 1 }, by simp, rfl⟩
    · exact ⟨y, by simp [hxp, hx], rfl⟩
  · -- a new node, with one lookup in flight
    have hpq : s.dir.nextPtr ≠ q := Nat.ne_of_gt (hI.bounded hm)
    simp only [Fuse.node, freshState_heap hpq, if_true, newNode] at hr
    cases hr
    obtain ⟨hroot, hL⟩ := h.lookups.fresh h.dir.inv hm hid hu
    refine ⟨h.next rfl rfl h.crashed hg rfl (fun _ => le_rfl) ?_, LookupSys.KeepsHeld.of_keys ?_⟩
    · convert hL using 1
      funext j
      have := LookupSys.owed_setPhase hk (.found id u) j
      simp only [LookupSys.counted, LookupSys.owed, LookupSys.setPhase, LookupPhase.owes,
        incr_apply, beq_iff_eq, Bool.false_eq_true, if_false] at this ⊢
      split_ifs at this ⊢ <;> omega
    intro x y hx
    have hxn : x ≠ s.dir.nextPtr := fun e => by rw [e, hI.nextPtr_free] at hx; cases hx
    rw [freshState_heap hpq, if_neg hxn]
    by_cases hxq : x = q
    · subst hxq; rw [hm, Option.some.injEq] at hx; subst hx
      exact ⟨{ m with refctr := m.refctr + 1 }, by simp, rfl⟩
    · exact ⟨y, by simp [hxq, hx], rfl⟩

/-- The reply of a counted lookup is written: the kernel takes it, or the write fails with
`ENOENT` and the lookup waits to be cancelled, or the write fails otherwise and the lookup is
lost; in each case it stays counted. -/
theorem LookupInv.reply (h : LookupInv s) {i u : Nat} {res : Int} {ino : Nat}
    {pathOk callocOk strdupOk : Bool} (hk : s.threads[k]? = some (.found i u))
    (hr : s.runThread k res ino pathOk callocOk strdupOk (.found i u) = some s') :
    LookupInv s' ∧ s.KeepsHeld s' := by
  simp only [LookupSys.runThread, Option.some.injEq] at hr
  subst hr
  have hown := LookupSys.owed_setPhase hk
  split_ifs with h0 h1
  · -- delivered: the kernel's references take over the lookup in flight
    refine ⟨h.next rfl rfl h.crashed h.dir rfl (fun d => ?_) ?_, LookupSys.KeepsHeld.of_heap rfl⟩
    · show s.refs d ≤ incr s.refs i d
      rw [incr_apply]; omega
    convert h.lookups using 1
    funext j
    have := hown .done j
    simp only [LookupSys.counted, LookupSys.owed, LookupSys.setPhase, LookupPhase.owes,
      incr_apply, beq_iff_eq, Bool.false_eq_true, if_false] at this ⊢
    split_ifs at this ⊢ <;> omega
  · -- the write failed with ENOENT: the lookup stays in flight, to be cancelled
    refine ⟨h.next rfl rfl h.crashed h.dir rfl (fun _ => le_rfl) ?_, LookupSys.KeepsHeld.of_heap rfl⟩
    convert h.lookups using 1
    funext j
    have := hown (.cancelling i u) j
    simp only [LookupSys.counted, LookupSys.owed, LookupSys.setPhase, LookupPhase.owes] at this ⊢
    omega
  · -- the write failed otherwise: the lookup is lost, and stays counted
    refine ⟨h.next rfl rfl h.crashed h.dir rfl (fun _ => le_rfl) ?_, LookupSys.KeepsHeld.of_heap rfl⟩
    convert h.lookups using 1
    funext j
    have := hown .done j
    simp only [LookupSys.counted, LookupSys.owed, LookupSys.setPhase, LookupPhase.owes,
      incr_apply, beq_iff_eq, Bool.false_eq_true, if_false] at this ⊢
    split_ifs at this ⊢ <;> omega

/-- A reply that failed with `ENOENT` is cancelled: under the modern protocol `cancel_lookup`
calls `forget_node` for the one lookup `find_node` counted. -/
theorem LookupInv.cancel (h : LookupInv s) {i u : Nat} {res : Int} {ino : Nat}
    {pathOk callocOk strdupOk : Bool} (hk : s.threads[k]? = some (.cancelling i u))
    (hr : s.runThread k res ino pathOk callocOk strdupOk (.cancelling i u) = some s') :
    LookupInv s' ∧ s.KeepsHeld s' := by
  have hown := LookupSys.owed_setPhase hk .done
  have hpos : 0 < s.counted i := by
    have := hown i
    simp only [LookupPhase.owes, beq_self_eq_true, if_true, Bool.false_eq_true, if_false] at this
    unfold LookupSys.counted; omega
  obtain ⟨g, hg, hR, hm, hL, hK⟩ := h.forgetNode_ok hpos hpos
  have hcancel : cancelLookup s.dir i u = forgetNode s.dir i 1 := if_neg (by have := h.major; omega)
  simp only [LookupSys.runThread, hcancel, hg, Option.some.injEq] at hr
  subst hr
  have hcnt : LookupSys.counted { s.setPhase k .done with dir := g } =
      Function.update s.counted i (s.counted i - 1) := funext fun j => by
    have := hown j
    by_cases e : j = i
    · subst e
      simp only [LookupSys.counted, LookupSys.owed, LookupSys.setPhase, LookupPhase.owes,
        Function.update_same, beq_self_eq_true, if_true, Bool.false_eq_true, if_false] at this ⊢
      omega
    · simp only [LookupSys.counted, LookupSys.owed, LookupSys.setPhase, LookupPhase.owes,
        Function.update_noteq e, beq_iff_eq, Bool.false_eq_true, if_false, Ne.symm e] at this ⊢
      omega
  exact ⟨h.next rfl rfl h.crashed hR hm (fun _ => le_rfl) (hcnt ▸ hL),
    fun x n hx hx0 => hK x n hx (hcnt ▸ Nat.lt_of_lt_of_le hx0 (LookupSys.refs_le_counted _ _))⟩

/-- Every step keeps the invariant and every node the kernel holds afterwards. -/
theorem LookupInv.step (h : LookupInv s) (hs : LookupStep s s') :
    LookupInv s' ∧ s.KeepsHeld s' := by
  cases hs with
  | lookup _ hp => exact ⟨h.request hp, LookupSys.KeepsHeld.of_heap rfl⟩
  | forget _ hc0 hc hd => exact h.forget hc0 hc hd
  | @thread _ k ph _ _ _ _ _ _ hk hr =>
    cases ph with
    | start => exact h.begin hk hr
    | found => exact h.reply hk hr
    | cancelling => exact h.cancel hk hr
    | done => cases hr

/-- The invariant holds in every state the process reaches under the modern protocol. -/
theorem LookupReachable.lookupInv {major : Nat} (h7 : 7 ≤ major) (hs : LookupReachable major s) :
    LookupInv s := by
  induction hs with
  | start flags => exact LookupInv.start h7 flags
  | step _ hst ih => exact (ih.step hst).1

end Inv

/-! ## Lookup counts over every interleaving -/

/-- **Lookup counts over every interleaving.** Once INIT negotiated a major of at least 7,
in every state the process reaches it has not aborted and every node the kernel holds is
live and not forgotten; once no request is in flight, every node's `nlookup` is the number
of lookups the kernel took and has not forgotten plus the replies whose write failed with an
error other than `ENOENT`; and no step unhashes or frees a node the kernel still holds after
it. -/
theorem lookup_protocol {major : Nat} {s : LookupSys} (hs : LookupReachable major s)
    (h7 : 7 ≤ major) :
    s.crashed = false ∧ (∀ i, 0 < s.refs i → Held s.dir i) ∧
    ((∀ ph ∈ s.threads, ph = .done) → ∀ p n, s.dir.heap p = some n → n.nodeid ≠ rootId →
      n.nlookup = s.refs n.nodeid + s.lost n.nodeid) ∧
    ∀ s', LookupStep s s' → ∀ x n, s.dir.heap x = some n → 0 < s'.refs n.nodeid →
      ∃ n', s'.dir.heap x = some n' ∧ n'.key = n.key ∧ n'.name.isSome ∧ ¬ n'.Forgotten := by
  have h := hs.lookupInv h7
  refine ⟨h.crashed, fun i hi => h.held (.inr hi), fun hd p n hp hr => ?_,
    fun s' hst x n hx hpos => ?_⟩
  · have h0 : s.owed n.nodeid = 0 :=
      List.countP_eq_zero.2 fun ph hph => by simp [hd ph hph, LookupPhase.owes]
    rw [h.lookups.count hp hr, LookupSys.counted, h0, Nat.add_zero]
  · obtain ⟨h', hk⟩ := h.step hst
    obtain ⟨n', hx', ek⟩ := hk x n hx hpos
    have hnf := h'.lookups.not_forgotten hx'
      ((Node.key_eq ek).1 ▸ Nat.lt_of_lt_of_le hpos (s'.refs_le_counted _))
    exact ⟨n', hx', ek, h'.lookups.attached hx' hnf, hnf⟩

theorem lookup_protocol_delivered :
    ∃ s, LookupReachable 7 s ∧ s.threads = [.done] ∧ s.refs 2 = 1 ∧ 7 ≤ 7 ∧ s.crashed = false ∧
      (∀ i, 0 < s.refs i → Held s.dir i) ∧
      ∀ p n, s.dir.heap p = some n → n.nodeid ≠ rootId → n.nlookup = s.refs n.nodeid + s.lost n.nodeid := by
  have h0 : LookupReachable 7 (LookupSys.start 7 {}) := .start {}
  have h1 := h0.step (@LookupStep.lookup _ rootId [97] rfl (.inl rfl))
  have h2 := h1.step (@LookupStep.thread _ _ 0 _ 0 0 true true true rfl rfl rfl)
  have h3 := h2.step (@LookupStep.thread _ _ 0 _ 0 0 true true true rfl rfl rfl)
  obtain ⟨hc, hh, hn, -⟩ := lookup_protocol h3 le_rfl
  exact ⟨_, h3, rfl, rfl, le_rfl, hc, hh,
    hn fun ph hph => List.eq_of_mem_singleton (show ph ∈ [LookupPhase.done] from hph)⟩

/-- **The legacy protocol frees a node the kernel holds, and a lost reply stays counted.**
Under major 5, two LOOKUPs of `a` in the root run `find_node` one after the other, the first
creating node 2; the first reply is delivered, the second's write fails with `ENOENT`, and its
`cancel_lookup` calls `forget_node_old` with its own `unique`, which the second `find_node`
stored as the version: the node is unhashed and freed while the kernel holds the first
lookup. Under major 7, a LOOKUP whose reply write fails with `EIO` leaves node 2 with
`nlookup` 1 once nothing is in flight, where the kernel holds none. -/
theorem lookup_protocol_breaks :
    (∃ s s' n, LookupReachable 5 s ∧ LookupStep s s' ∧ s.dir.heap 1 = some n ∧
      s'.refs n.nodeid = 1 ∧ s'.dir.heap 1 = none) ∧
    (∃ s p n, LookupReachable 7 s ∧ s.threads = [.done] ∧ s.dir.heap p = some n ∧
      n.nodeid ≠ rootId ∧ n.nlookup = 1 ∧ s.refs n.nodeid = 0) := by
  constructor
  · have h0 : LookupReachable 5 (LookupSys.start 5 {}) := .start {}
    have h1 := h0.step (@LookupStep.lookup _ rootId [97] rfl (.inl rfl))
    have h2 := h1.step (@LookupStep.lookup _ rootId [97] rfl (.inl rfl))
    have h3 := h2.step (@LookupStep.thread _ _ 0 _ 0 0 true true true rfl rfl rfl)
    have h4 := h3.step (@LookupStep.thread _ _ 1 _ 0 0 true true true rfl rfl rfl)
    have h5 := h4.step (@LookupStep.thread _ _ 0 _ 0 0 true true true rfl rfl rfl)
    have h6 := h5.step (@LookupStep.thread _ _ 1 _ (-ENOENT) 0 true true true rfl rfl rfl)
    exact ⟨_, _, _, h6, @LookupStep.thread _ _ 1 _ 0 0 true true true rfl rfl rfl, rfl, rfl, rfl⟩
  · have h0 : LookupReachable 7 (LookupSys.start 7 {}) := .start {}
    have h1 := h0.step (@LookupStep.lookup _ rootId [97] rfl (.inl rfl))
    have h2 := h1.step (@LookupStep.thread _ _ 0 _ 0 0 true true true rfl rfl rfl)
    have h3 := h2.step (@LookupStep.thread _ _ 0 _ (- EIO) 0 true true true rfl rfl rfl)
    exact ⟨_, 1, _, h3, rfl, rfl, by decide, rfl, rfl⟩

end FuseCore
