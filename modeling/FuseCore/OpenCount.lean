import FuseCore.Handlers

/-!
# Open counts over every interleaving (fuse.c:508-535, :1077-1129, :1157-1174)

`do_open` writes its reply and counts the new open file while it holds `f->lock`
(`Phase.openSent`); `do_release` checks its assertion and counts one down under the same lock.
A reply write that fails with `ENOENT` counts nothing; any other outcome counts the open,
whether the kernel took the reply (`Sys.delivered`) or not (`Sys.failed`). The kernel
releases only what it took.

`OpenInv` holds in every state the process reaches (`SysReachable.openInv`):

* a node's count, plus the replies for it sent and not yet counted (`Sys.owed`), plus the
  RELEASEs counted, is the replies the kernel took plus the failed writes;
* the replies the kernel took are its open files, plus the RELEASEs it sent that are not yet
  counted (`Sys.pending`), plus those counted;
* `f->lock` is held across steps exactly by a thread that has sent an OPEN reply;
* a node a request names, or that the kernel has open, is held;
* no count is negative.

`runThread_cases` says once what a thread's step can do; the step lemma reads only it.
-/

namespace FuseCore

/-! ## Counting threads -/

/-- Whether a thread has sent an OPEN reply for node `i` that it has still to count. -/
def Phase.owes (i : Nat) : Phase → Bool
  | .openSent j r => j == i && r != -ENOENT
  | _ => false

/-- Whether a thread is a RELEASE of node `i` not yet counted. -/
def Phase.releases (i : Nat) : Phase → Bool
  | .releaseStart j => j == i
  | _ => false

/-- Whether a thread holds `f->lock` across steps: it has sent an OPEN reply. -/
def Phase.isSent : Phase → Bool
  | .openSent _ _ => true
  | _ => false

/-- Whether a phase is one the counts read. -/
def Phase.counts : Phase → Bool
  | .openSent _ _ | .releaseStart _ => true
  | _ => false

/-- OPEN replies for node `i` sent and not yet counted. -/
def Sys.owed (s : Sys) (i : Nat) : Nat := s.threads.countP (Phase.owes i)

/-- RELEASEs of node `i` the kernel sent that are not yet counted. -/
def Sys.pending (s : Sys) (i : Nat) : Nat := s.threads.countP (Phase.releases i)

section Phases
variable {ph : Phase} (h : ph.counts = false)
include h

theorem Phase.owes_of_counts (i : Nat) : ph.owes i = false := by
  cases ph <;> first | rfl | cases h

theorem Phase.releases_of_counts (i : Nat) : ph.releases i = false := by
  cases ph <;> first | rfl | cases h

theorem Phase.isSent_of_counts : ph.isSent = false := by
  cases ph <;> first | rfl | cases h

end Phases

/-- Changing one element changes a count by what the two elements contribute. -/
theorem countP_set {α : Type} (p : α → Bool) :
    ∀ {l : List α} {k : Nat} {a : α}, l[k]? = some a → ∀ b : α,
      (l.set k b).countP p + (if p a then 1 else 0) = l.countP p + (if p b then 1 else 0)
  | x :: l, 0, a, h, b => by
    simp only [List.getElem?_cons_zero, Option.some.injEq] at h; subst h
    simp only [List.set_cons_zero, List.countP_cons]; omega
  | x :: l, k + 1, a, h, b => by
    have := countP_set p (l := l) (by simpa using h) b
    simp only [List.set_cons_succ, List.countP_cons]; omega

theorem any_isSent_set {l : List Phase} {k : Nat} {a b : Phase} (hk : l[k]? = some a)
    (ha : a.isSent = false) (hb : b.isSent = false) (j : Nat) :
    (l.set k b)[j]?.any Phase.isSent = l[j]?.any Phase.isSent := by
  rw [List.getElem?_set]
  split_ifs with e
  · subst e; simp [hk, ha, hb]
  · subst e; simp [hk, ha]
  · rfl

theorem any_isSent_append {l : List Phase} {b : Phase} (hb : b.isSent = false) (j : Nat) :
    (l ++ [b])[j]?.any Phase.isSent = l[j]?.any Phase.isSent := by
  rcases Nat.lt_or_ge j l.length with hj | hj
  · rw [List.getElem?_append_left hj]
  · rw [List.getElem?_append_right hj, List.getElem?_eq_none hj]
    cases j - l.length <;> simp [hb]

theorem any_isSent_set_eq {l : List Phase} {k : Nat} {a : Phase} (hk : l[k]? = some a) (b : Phase)
    (j : Nat) : (l.set k b)[j]?.any Phase.isSent = if k = j then b.isSent else l[j]?.any Phase.isSent := by
  have : k < l.length := (List.getElem?_eq_some_iff.1 hk).1
  rw [List.getElem?_set]
  split_ifs <;> simp_all

/-! ## What the handlers write in the directory -/

theorem Held.setNode {f : Fuse} {i : Nat} {p : Ptr} {n n' : Node} (hi : Held f i)
    (hp : f.heap p = some n) (hid : n'.nodeid = n.nodeid) (hf : n'.Forgotten ↔ n.Forgotten) :
    Held (f.setNode p n') i := by
  obtain ⟨q, m, hq, rfl, hm⟩ := hi
  by_cases hqp : q = p
  · subst hqp; rw [hp, Option.some.injEq] at hq; subst hq
    exact ⟨q, n', by simp, hid, hf.not.2 hm⟩
  · exact ⟨q, m, by simp [hqp, hq], rfl, hm⟩

theorem Fuse.KeepsOpen.held_of {f g : Fuse} {E : Nat → Prop} (h : f.KeepsOpen g E) {i : Nat}
    (hi : Held f i) (hE : ¬ E i) : Held g i := by
  obtain ⟨p, n, hp, rfl, hf⟩ := hi
  obtain ⟨y, hy, hyf, hid, -⟩ := h.held hp hf hE
  exact ⟨p, y, hy, hid, hyf⟩

theorem Held.getNode {f : Fuse} {i : Nat} (hI : IndexInv f) (hi : Held f i) :
    ∃ p n, getNodeNocheck f i = some p ∧ f.heap p = some n ∧ n.nodeid = i := by
  obtain ⟨p, n, hp, rfl, -⟩ := hi
  exact ⟨p, n, (getNodeNocheck_eq_some hI).2 ⟨n, hp, rfl⟩, hp, rfl⟩

theorem getNodeNocheck_nodeid {f : Fuse} {i : Nat} {p : Ptr} {n : Node} (hI : IndexInv f)
    (hp : getNodeNocheck f i = some p) (hn : f.heap p = some n) : n.nodeid = i := by
  obtain ⟨n', hn', e⟩ := (getNodeNocheck_eq_some hI).1 hp
  rw [hn, Option.some.injEq] at hn'; exact hn' ▸ e

/-- A new count in the node at `p`: every other node keeps its own, and has another id. -/
theorem setCount_cases {f : Fuse} {p x : Ptr} {n y : Node} {c : Int} (hI : IndexInv f)
    (hp : f.heap p = some n) (hx : (f.setNode p { n with openCount := c }).heap x = some y) :
    (y.nodeid = n.nodeid ∧ y.openCount = c) ∨ (y.nodeid ≠ n.nodeid ∧ f.heap x = some y) := by
  simp only [Fuse.setNode_heap, update_eq_some] at hx
  rcases hx with ⟨-, ⟨⟩⟩ | ⟨hxp, hx⟩
  · exact .inl ⟨rfl, rfl⟩
  · exact .inr ⟨fun e => hxp (hI.idUnique hx hp e), hx⟩

theorem incr_apply (h : Nat → Nat) (i j : Nat) : incr h i j = h j + if j = i then 1 else 0 := by
  by_cases e : j = i
  · subst e; simp [incr]
  · simp [incr, e]

/-- What the reply of OPEN changes on the kernel's side, field by field. -/
theorem Sys.reply_eq (s : Sys) (i : Nat) (r : Int) : s.reply i r =
    { s with handles := fun j => s.handles j + if r = 0 ∧ j = i then 1 else 0
             delivered := fun j => s.delivered j + if r = 0 ∧ j = i then 1 else 0
             failed := fun j => s.failed j + if r ≠ 0 ∧ r ≠ -ENOENT ∧ j = i then 1 else 0 } := by
  unfold Sys.reply
  split_ifs with h0 h1
  · subst h0; congr <;> funext j <;> simp [incr_apply]
  · simp [h0, h1, ENOENT]
  · congr <;> funext j <;> simp [incr_apply, h0, h1]

/-- The node `do_open` counts up is the one `get_node` finds. -/
theorem openIncrement_eq {f g : Fuse} {i : Nat} (h : openIncrement f i = .ok g) :
    ∃ p n, getNodeNocheck f i = some p ∧ f.heap p = some n ∧
      g = f.setNode p { n with openCount := n.openCount + 1 } := by
  cases hp : getNodeNocheck f i with
  | none => simp [openIncrement, getNode, hp] at h
  | some p =>
    cases hn : f.heap p with
    | none => simp [openIncrement, getNode, hp, Fuse.node, hn] at h
    | some n =>
      simp [openIncrement, getNode, hp, Fuse.node, hn] at h
      exact ⟨p, n, rfl, hn, h.symm⟩

/-- `do_release` counts down only a positive count: the assertion. -/
theorem releaseCount_eq {f g : Fuse} {i : Nat} {uh : Bool} (h : releaseCount f i = .ok (uh, g)) :
    ∃ p n, getNodeNocheck f i = some p ∧ f.heap p = some n ∧ 0 < n.openCount ∧
      g = f.setNode p { n with openCount := n.openCount - 1 } := by
  cases hp : getNodeNocheck f i with
  | none => simp [releaseCount, getNode, hp] at h
  | some p =>
    cases hn : f.heap p with
    | none => simp [releaseCount, getNode, hp, Fuse.node, hn] at h
    | some n =>
      by_cases hpos : n.openCount ≤ 0
      · simp [releaseCount, getNode, hp, Fuse.node, hn, hpos] at h
      · simp [releaseCount, getNode, hp, Fuse.node, hn, hpos] at h
        exact ⟨p, n, rfl, hn, by omega, h.2.symm⟩

theorem releaseCount_of_pos {f : Fuse} {i : Nat} {p : Ptr} {n : Node}
    (hp : getNodeNocheck f i = some p) (hn : f.heap p = some n) (hpos : 0 < n.openCount) :
    ∃ uh g, releaseCount f i = .ok (uh, g) := by
  have : ¬ n.openCount ≤ 0 := by omega
  exact ⟨_, _, by simp [releaseCount, getNode, hp, Fuse.node, hn, this]; exact ⟨rfl, rfl⟩⟩

/-- The name `hidden_name`'s loop returns is free in the directory. -/
theorem hiddenNameLoop_free {f : Fuse} {dir nodeid : Nat} :
    ∀ {fuel ctr c name}, hiddenNameLoop f dir nodeid fuel ctr = some (c, name) →
      lookupNode f dir name = none
  | 0, _, _, _, h => nomatch h
  | fuel + 1, ctr, c, name, h => by
    simp only [hiddenNameLoop] at h
    split at h
    · exact hiddenNameLoop_free h
    · simp only [Option.some.injEq, Prod.mk.injEq] at h
      obtain ⟨-, rfl⟩ := h
      exact Option.not_isSome_iff_eq_none.1 ‹_›

/-- `hidden_name`'s block under `f->lock` found a node at the entry, picked a name free in the
directory, and moved only `hidectr`. -/
theorem hiddenProbe_some {f g : Fuse} {d : Nat} {name newname : Name}
    (h : hiddenProbe f d name = .ok (some (newname, g))) :
    (lookupNode f d name).isSome ∧ lookupNode f d newname = none ∧ ∃ c, g = { f with hidectr := c } := by
  unfold hiddenProbe at h
  split at h
  · cases h
  · rename_i p hp
    cases hn : f.heap p with
    | none => simp [Fuse.node, hn, bind, Except.bind] at h
    | some n =>
      simp only [Fuse.node, hn, bind, Except.bind] at h
      split at h
      · cases h
      · rename_i hl
        cases h
        exact ⟨by simp [hp], hiddenNameLoop_free hl, _, rfl⟩

theorem Inv.setHidectr {f : Fuse} (h : Inv f) (c : Nat) : Inv { f with hidectr := c } :=
  ⟨h.index.of_sameIndex ⟨rfl, rfl, le_refl _, fun _ => rfl⟩, h.refs.congr rfl rfl⟩

/-- A FORGET keeps every node but the one it forgets held, with its key, and writes no count. -/
theorem forgetOp_spec {f : Fuse} {major i c : Nat} (h : Inv f) (ho : (forgetOp major i c).Allowed f) :
    ∃ g, (forgetOp major i c).run f = .ok g ∧ Inv g ∧ f.KeepsOpen g (· = i) ∧
      f.KeepsNames g (f.IdAt i) := by
  unfold forgetOp at *
  split
  · rename_i hm; rw [if_pos hm] at ho
    obtain ⟨g, hg, hi, -, -, hk⟩ := forgetNodeOld_spec h ho
    exact ⟨g, hg, hi, hk⟩
  · rename_i hm; rw [if_neg hm] at ho
    obtain ⟨g, hg, hi, -, -, ho, hk, -⟩ := forgetNode_spec h ho.1 ho.2
    exact ⟨g, hg, hi, ho, hk⟩

/-! ## The invariant -/

/-- What holds in every state the process reaches (see the module doc). -/
structure OpenInv (s : Sys) : Prop where
  dir : Inv s.dir
  lock : ∀ k, s.lock = some k ↔ s.threads[k]?.any Phase.isSent = true
  busy : ∀ i, s.Busy i → Held s.dir i
  count : ∀ {p n}, s.dir.heap p = some n →
    n.openCount + s.owed n.nodeid + s.released n.nodeid = s.delivered n.nodeid + s.failed n.nodeid
  kernel : ∀ i, s.delivered i = s.released i + s.handles i + s.pending i
  nonneg : ∀ {p n}, s.dir.heap p = some n → 0 ≤ n.openCount

variable {ops : UserOps} {s s' : Sys} {k : Nat} {ph ph' : Phase}

theorem OpenInv.start {f : Fuse} (hf : Reachable f) : OpenInv (Sys.start f) where
  dir := hf.inv
  lock _ := by simp [Sys.start]
  busy _ hb := by rcases hb with hb | ⟨_, hb, -⟩ <;> simp [Sys.start] at hb
  count hp := by simp [Sys.start, Sys.owed, hf.openCount_eq_zero hp]
  kernel _ := by simp [Sys.start, Sys.pending]
  nonneg hp := (hf.openCount_eq_zero hp).ge

theorem OpenInv.held_of_thread (h : OpenInv s) (hk : s.threads[k]? = some ph) {i : Nat}
    (hn : ph.names = some i) : Held s.dir i :=
  h.busy i (.inr ⟨ph, List.mem_iff_getElem?.2 ⟨k, hk⟩, hn⟩)

theorem OpenInv.not_sent (h : OpenInv s) (hl : s.lock = none) (j : Nat) :
    s.threads[j]?.any Phase.isSent = false := by
  simpa [hl] using (h.lock j).not

theorem OpenInv.owed_eq_zero (h : OpenInv s) (hl : s.lock = none) (i : Nat) : s.owed i = 0 := by
  refine List.countP_eq_zero.2 fun ph hm ho => ?_
  obtain ⟨j, hj⟩ := List.mem_iff_getElem?.1 hm
  have := h.not_sent hl j
  rw [hj] at this
  cases ph <;> simp_all [Phase.owes, Phase.isSent]

/-- **The assertion of `do_release` holds**: a RELEASE that takes `f->lock` finds its node with
a positive count. -/
theorem OpenInv.releaseCount_ok (h : OpenInv s) (hk : s.threads[k]? = some (.releaseStart i))
    (hl : s.lock = none) : ∃ uh g, releaseCount s.dir i = .ok (uh, g) := by
  obtain ⟨p, n, hp, hn, rfl⟩ := (h.held_of_thread hk rfl).getNode h.dir.index
  have hpend : 0 < s.pending n.nodeid :=
    List.countP_pos_iff.2 ⟨_, List.mem_iff_getElem?.2 ⟨k, hk⟩, by simp [Phase.releases]⟩
  have := h.count hn
  have := h.kernel n.nodeid
  rw [h.owed_eq_zero hl] at *
  exact releaseCount_of_pos hp hn (by omega)

theorem OpenInv.crash (h : OpenInv s) : OpenInv s.crash :=
  ⟨h.dir, h.lock, h.busy, h.count, h.kernel, h.nonneg⟩

theorem Sys.Busy.of_set {j : Nat} (hb : s'.Busy j) (hk : s.threads[k]? = some ph)
    (hth : s'.threads = s.threads.set k ph') (hnm : ∀ i, ph'.names = some i → ph.names = some i)
    (hh : ∀ j, 0 < s'.handles j → s.Busy j) : s.Busy j := by
  rcases hb with hb | ⟨q, hq, hqn⟩
  · exact hh j hb
  · rw [hth] at hq
    rcases List.mem_or_eq_of_mem_set hq with hq | rfl
    exacts [.inr ⟨q, hq, hqn⟩, .inr ⟨ph, List.mem_iff_getElem?.2 ⟨k, hk⟩, hnm j hqn⟩]

/-- The directory changes under a step that keeps every count and every node held but those
`E` names, which no request names and the kernel has not open. -/
theorem OpenInv.of_dir {g : Fuse} {E : Nat → Prop} (h : OpenInv s) (hg : Inv g)
    (hk : s.dir.KeepsOpen g E) (hE : ∀ i, s.Busy i → ¬ E i) : OpenInv { s with dir := g } where
  dir := hg
  lock := h.lock
  busy i hb := hk.held_of (h.busy i hb) (hE i hb)
  count hp := by
    obtain ⟨y0, hy0, hid, ho⟩ := hk.back hp
    rw [hid, ho]; exact h.count hy0
  kernel := h.kernel
  nonneg hp := by obtain ⟨y0, hy0, -, ho⟩ := hk.back hp; rw [ho]; exact h.nonneg hy0

/-- The kernel sends a request: a new thread, and the open files it gives up for a RELEASE. -/
theorem OpenInv.request {i : Nat} {hd : Nat → Nat} (h : OpenInv s) (hn : ph.names = some i)
    (hheld : Held s.dir i) (hs : ph.isSent = false) (ho : ∀ j, ph.owes j = false)
    (hhd : ∀ j, hd j + (if ph.releases j then 1 else 0) = s.handles j) :
    OpenInv { s with threads := s.threads ++ [ph], handles := hd } where
  dir := h.dir
  lock j := by rw [h.lock]; exact (any_isSent_append hs j).symm ▸ Iff.rfl
  busy j hb := by
    rcases hb with hb | ⟨q, hq, hqn⟩
    · exact h.busy j (.inl (by have := hhd j; simp only at hb; omega))
    · rcases List.mem_append.1 hq with hq | hq
      · exact h.busy j (.inr ⟨q, hq, hqn⟩)
      · rw [List.mem_singleton.1 hq, hn, Option.some.injEq] at hqn; exact hqn ▸ hheld
  count hp := by
    have := h.count hp
    simpa [Sys.owed, ho] using this
  kernel j := by
    have := h.kernel j; have := hhd j
    simp only [Sys.pending, List.countP_append, List.countP_singleton] at *
    omega
  nonneg := h.nonneg

/-- Thread `k` moves from `ph` to `ph'` and nothing the counts read changes: the directory
keeps every node's id and count and every held node held, neither phase counts, and the new
phase names what the old one did, or nothing. -/
structure Sys.Quiet (s s' : Sys) (k : Nat) (ph ph' : Phase) : Prop where
  dir : Inv s'.dir
  keeps : s.dir.KeepsOpen s'.dir fun _ => False
  eq : s' = { s with dir := s'.dir, threads := s.threads.set k ph', readers := s'.readers,
                     writer := s'.writer, unlinks := s'.unlinks }
  old : ph.counts = false
  new : ph'.counts = false
  names : ∀ i, ph'.names = some i → ph.names = some i

theorem Sys.Quiet.write {g : Fuse} {r : Nat} {w : Option Nat} {u : List Path} (hg : Inv g)
    (hk : s.dir.KeepsOpen g fun _ => False) (ho : ph.counts = false) (hn : ph'.counts = false)
    (hnm : ∀ i, ph'.names = some i → ph.names = some i) :
    s.Quiet { s with dir := g, threads := s.threads.set k ph', readers := r, writer := w, unlinks := u }
      k ph ph' :=
  ⟨hg, hk, rfl, ho, hn, hnm⟩

theorem OpenInv.quiet (h : OpenInv s) (hk : s.threads[k]? = some ph) (hq : s.Quiet s' k ph ph') :
    OpenInv s' := by
  have hth : s'.threads = s.threads.set k ph' := by rw [hq.eq]
  have ho : ∀ i, s'.owed i = s.owed i := fun i => by
    have := countP_set (Phase.owes i) hk ph'
    rw [Phase.owes_of_counts hq.old, Phase.owes_of_counts hq.new] at this
    simpa [Sys.owed, hth] using this
  have hr : ∀ i, s'.pending i = s.pending i := fun i => by
    have := countP_set (Phase.releases i) hk ph'
    rw [Phase.releases_of_counts hq.old, Phase.releases_of_counts hq.new] at this
    simpa [Sys.pending, hth] using this
  have hc : s'.delivered = s.delivered ∧ s'.failed = s.failed ∧ s'.released = s.released ∧
      s'.handles = s.handles ∧ s'.lock = s.lock := by rw [hq.eq]; exact ⟨rfl, rfl, rfl, rfl, rfl⟩
  obtain ⟨hd, hf, hrel, hh, hl⟩ := hc
  have hb : ∀ i, s'.Busy i → s.Busy i := fun i hb =>
    Sys.Busy.of_set hb hk hth hq.names fun j hj => .inl (hh ▸ hj)
  refine ⟨hq.dir, fun j => ?_, fun i hi => hq.keeps.held_of (h.busy i (hb i hi)) id,
    fun hp => ?_, fun i => ?_, fun hp => ?_⟩
  · rw [hl, hth, h.lock,
      any_isSent_set hk (Phase.isSent_of_counts hq.old) (Phase.isSent_of_counts hq.new)]
  · obtain ⟨y0, hy0, hid, hoc⟩ := hq.keeps.back hp
    rw [ho, hd, hf, hrel, hid, hoc]; exact h.count hy0
  · rw [hr, hd, hrel, hh]; exact h.kernel i
  · obtain ⟨y0, hy0, -, hoc⟩ := hq.keeps.back hp; rw [hoc]; exact h.nonneg hy0

/-! ## The three steps under `f->lock` that count -/

/-- **`do_open` takes `f->lock` and writes its reply**: the kernel may take it, or not. -/
theorem OpenInv.openSend {i : Nat} {res : Int} (h : OpenInv s)
    (hk : s.threads[k]? = some (.openCalled i 0)) (hl : s.lock = none) :
    OpenInv (({ s with lock := some k, threads := s.threads.set k (.openSent i res) }).reply i res) := by
  have ho : ∀ j, (s.threads.set k (.openSent i res)).countP (Phase.owes j) =
      s.owed j + if j = i ∧ res ≠ -ENOENT then 1 else 0 := fun j => by
    have := countP_set (Phase.owes j) hk (.openSent i res)
    simp only [Phase.owes, Bool.false_eq_true, if_false, Nat.add_zero] at this
    rw [this]; unfold Sys.owed
    by_cases e : j = i
    · subst e; by_cases hr : res = -ENOENT <;> simp [hr]
    · simp [e, Ne.symm e]
  have hr : ∀ j, (s.threads.set k (.openSent i res)).countP (Phase.releases j) = s.pending j :=
    fun j => by simpa [Phase.releases] using countP_set (Phase.releases j) hk (.openSent i res)
  rw [Sys.reply_eq]
  refine ⟨h.dir, fun j => ?_,
    fun j hb => h.busy j (Sys.Busy.of_set hb hk rfl (fun _ => id) fun j hj => ?_),
    fun {p n} hp => ?_, fun j => ?_, h.nonneg⟩
  · show some k = some j ↔ _
    rw [any_isSent_set_eq hk]
    by_cases e : k = j
    · simp [e, Phase.isSent]
    · simp [e, h.not_sent hl j]
  · by_cases e : res = 0 ∧ j = i
    · rw [e.2]; exact .inr ⟨_, List.mem_iff_getElem?.2 ⟨k, hk⟩, rfl⟩
    · exact .inl (by simpa [e] using hj)
  · have := h.count hp
    show n.openCount + ((s.threads.set k _).countP _ : Int) + _ = _
    rw [ho]
    -- a reply counted later is one the kernel took or one whose write failed
    have hsplit : (if n.nodeid = i ∧ res ≠ -ENOENT then 1 else 0) =
        (if res = 0 ∧ n.nodeid = i then 1 else 0) +
          (if res ≠ 0 ∧ res ≠ -ENOENT ∧ n.nodeid = i then 1 else 0) := by
      by_cases e : n.nodeid = i <;> by_cases h0 : res = 0 <;> simp [e, h0, ENOENT]
    dsimp only
    rw [hsplit]; push_cast; omega
  · show _ = _ + _ + (s.threads.set k _).countP _
    rw [hr]; have := h.kernel j
    by_cases e : res = 0 ∧ j = i
    · obtain ⟨h0, rfl⟩ := e; simp [h0]; omega
    · simp [e]; omega

/-- **`do_open` counts the open file and drops `f->lock`**; a write that failed with
`ENOENT` counts nothing. -/
theorem OpenInv.openCount {i : Nat} {r : Int} {g : Fuse} (h : OpenInv s)
    (hk : s.threads[k]? = some (.openSent i r))
    (hg : r = -ENOENT ∧ g = s.dir ∨ r ≠ -ENOENT ∧ openIncrement s.dir i = .ok g) :
    OpenInv { s with lock := none, dir := g, threads := s.threads.set k .openDone } := by
  have hlk : s.lock = some k := (h.lock k).2 (by simp [hk, Phase.isSent])
  have ho : ∀ j, (s.threads.set k .openDone).countP (Phase.owes j) +
      (if j = i ∧ r ≠ -ENOENT then 1 else 0) = s.owed j := fun j => by
    have := countP_set (Phase.owes j) hk .openDone
    simp only [Phase.owes, Bool.false_eq_true, if_false, Nat.add_zero] at this
    rw [Sys.owed, ← this]
    by_cases e : j = i
    · subst e; by_cases hr : r = -ENOENT <;> simp [hr]
    · simp [e, Ne.symm e]
  have hr : ∀ j, (s.threads.set k .openDone).countP (Phase.releases j) = s.pending j :=
    fun j => by simpa [Phase.releases] using countP_set (Phase.releases j) hk .openDone
  have hlock : ∀ j, (none : Option Nat) = some j ↔
      (s.threads.set k .openDone)[j]?.any Phase.isSent = true := fun j => by
    rw [any_isSent_set_eq hk]
    by_cases e : k = j
    · simp [e, Phase.isSent]
    · simpa [e, hlk] using (h.lock j).not
  have hbusy : ∀ j, Sys.Busy { s with lock := none, dir := g, threads := s.threads.set k .openDone } j →
      s.Busy j := fun j hb => Sys.Busy.of_set hb hk rfl (fun _ h => nomatch h) fun _ hj => .inl hj
  rcases hg with ⟨hr0, rfl⟩ | ⟨hr0, hg⟩
  · refine ⟨h.dir, hlock, fun j hb => h.busy j (hbusy j hb), fun {p n} hp => ?_, fun j => ?_, h.nonneg⟩
    · have := ho n.nodeid
      simp only [hr0, ne_eq, not_true_eq_false, and_false, if_false, Nat.add_zero] at this
      show n.openCount + ((s.threads.set k _).countP _ : Int) + _ = _
      rw [this]; exact h.count hp
    · show _ = _ + _ + (s.threads.set k _).countP _
      rw [hr]; exact h.kernel j
  · obtain ⟨p, n, hp, hn, rfl⟩ := openIncrement_eq hg
    have hid := getNodeNocheck_nodeid h.dir.index hp hn
    refine ⟨h.dir.setNode hn _ rfl rfl Iff.rfl, hlock,
      fun j hb => (h.busy j (hbusy j hb)).setNode hn rfl Iff.rfl, fun {x y} hx => ?_, fun j => ?_,
      fun {x y} hx => ?_⟩
    · show y.openCount + ((s.threads.set k _).countP _ : Int) + _ = _
      have := ho y.nodeid
      rcases setCount_cases h.dir.index hn hx with ⟨hy, hoc⟩ | ⟨hy, hx⟩
      · have h1 := h.count hn
        simp only [hy, hid, hoc, hr0, ne_eq, not_false_eq_true, and_self, if_true] at this h1 ⊢
        omega
      · have := h.count hx
        simp only [hid ▸ hy, false_and, if_false, Nat.add_zero] at *
        omega
    · show _ = _ + _ + (s.threads.set k _).countP _
      rw [hr]; exact h.kernel j
    · rcases setCount_cases h.dir.index hn hx with ⟨-, hoc⟩ | ⟨-, hx⟩
      · rw [hoc]; have := h.nonneg hn; omega
      · exact h.nonneg hx

/-- **`do_release` counts one down under `f->lock`**, its assertion checked. -/
theorem OpenInv.release {i : Nat} {uh : Bool} {g : Fuse} (h : OpenInv s)
    (hk : s.threads[k]? = some (.releaseStart i)) (hg : releaseCount s.dir i = .ok (uh, g)) :
    OpenInv { s with dir := g, threads := s.threads.set k (.releaseCounted i uh),
                     released := incr s.released i } := by
  obtain ⟨p, n, hp, hn, hpos, rfl⟩ := releaseCount_eq hg
  have hid := getNodeNocheck_nodeid h.dir.index hp hn
  have ho : ∀ j, (s.threads.set k (.releaseCounted i uh)).countP (Phase.owes j) = s.owed j :=
    fun j => by simpa [Phase.owes] using countP_set (Phase.owes j) hk (.releaseCounted i uh)
  have hr : ∀ j, (s.threads.set k (.releaseCounted i uh)).countP (Phase.releases j) +
      (if j = i then 1 else 0) = s.pending j := fun j => by
    have := countP_set (Phase.releases j) hk (.releaseCounted i uh)
    simp only [Phase.releases, Bool.false_eq_true, if_false, Nat.add_zero] at this
    rw [Sys.pending, ← this]
    by_cases e : j = i
    · subst e; simp
    · simp [e, Ne.symm e]
  refine ⟨h.dir.setNode hn _ rfl rfl Iff.rfl, fun j => ?_,
    fun j hb => (h.busy j (Sys.Busy.of_set hb hk rfl (fun _ => id) fun _ hj => .inl hj)).setNode hn
      rfl Iff.rfl, fun {x y} hx => ?_, fun j => ?_, fun {x y} hx => ?_⟩
  · show s.lock = some j ↔ _
    rw [h.lock, any_isSent_set_eq hk]
    by_cases e : k = j
    · subst e; simp [hk, Phase.isSent]
    · simp [e]
  · show y.openCount + ((s.threads.set k _).countP _ : Int) + (incr s.released i y.nodeid : Nat) = _
    rw [ho, incr_apply]
    rcases setCount_cases h.dir.index hn hx with ⟨hy, hoc⟩ | ⟨hy, hx⟩
    · have := h.count hn
      rw [hy, hid, hoc] at *; simp only [if_true]; push_cast; omega
    · have := h.count hx
      simp only [hid ▸ hy, if_false, Nat.add_zero]; exact this
  · show s.delivered j = incr s.released i j + s.handles j + (s.threads.set k _).countP _
    have := hr j; have := h.kernel j
    rw [incr_apply]; split_ifs at * <;> omega
  · rcases setCount_cases h.dir.index hn hx with ⟨-, hoc⟩ | ⟨-, hx⟩
    · rw [hoc]; omega
    · exact h.nonneg hx

/-! ## Every step keeps the invariant -/

/-- **What a thread's step can do**: abort the process; move on without touching what the
counts read; or one of the three steps under `f->lock` that do: `do_open` writing its reply,
`do_open` counting it, `do_release` counting down. -/
theorem runThread_cases {res : Int} {allocOk : Bool} (h : Inv s.dir)
    (hheld : ∀ d, ph.names = some d → Held s.dir d)
    (hrun : s.runThread ops k res allocOk ph = some s') :
    s' = s.crash ∨ (∃ ph', s.Quiet s' k ph ph') ∨
      (∃ i, ph = .openCalled i 0 ∧ s.lock = none ∧
        s' = ({ s with lock := some k, threads := s.threads.set k (.openSent i res) }).reply i res) ∨
      (∃ i r g, ph = .openSent i r ∧
        (r = -ENOENT ∧ g = s.dir ∨ r ≠ -ENOENT ∧ openIncrement s.dir i = .ok g) ∧
        s' = { s with lock := none, dir := g, threads := s.threads.set k .openDone }) ∨
      (∃ i uh g, ph = .releaseStart i ∧ s.lock = none ∧ releaseCount s.dir i = .ok (uh, g) ∧
        s' = { s with dir := g, threads := s.threads.set k (.releaseCounted i uh),
                      released := incr s.released i }) := by
  have keep := Fuse.KeepsOpen.refl s.dir fun _ => False
  cases ph with
  | openStart i =>
    simp only [Sys.runThread] at hrun
    split at hrun <;> cases hrun
    exact .inr (.inl ⟨.openLocked i, .write h keep rfl rfl (fun _ => id)⟩)
  | openLocked i =>
    simp only [Sys.runThread] at hrun
    split at hrun <;> cases hrun
    split
    · exact .inl rfl
    · exact .inr (.inl ⟨.openCalled i _, .write h keep rfl rfl (fun _ => id)⟩)
    · exact .inr (.inl ⟨.openCalled i _, .write h keep rfl rfl (fun _ => id)⟩)
  | openCalled i r =>
    simp only [Sys.runThread] at hrun
    split at hrun
    next hr =>
      subst hr
      split at hrun
      next => cases hrun
      next hl => cases hrun; exact .inr (.inr (.inl ⟨i, rfl, by simpa using hl, rfl⟩))
    next => cases hrun; exact .inr (.inl ⟨.openDone, .write h keep rfl rfl (fun _ h => nomatch h)⟩)
  | openSent i r =>
    simp only [Sys.runThread] at hrun
    split at hrun
    next hr => cases hrun; exact .inr (.inr (.inr (.inl ⟨i, r, s.dir, rfl, .inl ⟨hr, rfl⟩, rfl⟩)))
    next hr =>
      cases hrun
      split
      next g hg => exact .inr (.inr (.inr (.inl ⟨i, r, g, rfl, .inr ⟨hr, hg⟩, rfl⟩)))
      next => exact .inl rfl
  | openDone =>
    simp only [Sys.runThread] at hrun
    cases hrun
    exact .inr (.inl ⟨.finished, .write h keep rfl rfl (fun _ h => nomatch h)⟩)
  | releaseStart i =>
    simp only [Sys.runThread] at hrun
    split at hrun
    next => cases hrun
    next hl =>
      cases hrun
      split
      next uh g hg => exact .inr (.inr (.inr (.inr ⟨i, uh, g, rfl, by simpa using hl, hg, rfl⟩)))
      next => exact .inl rfl
  | releaseCounted i uh =>
    simp only [Sys.runThread] at hrun
    split at hrun <;> cases hrun
    exact .inr (.inl ⟨.releaseLocked i uh, .write h keep rfl rfl (fun _ => id)⟩)
  | releaseLocked i uh =>
    simp only [Sys.runThread] at hrun
    split at hrun <;> cases hrun
    split
    · exact .inl rfl
    · exact .inr (.inl ⟨.releasePath i uh _, .write h keep rfl rfl (fun _ => id)⟩)
  | releasePath i uh path =>
    simp only [Sys.runThread] at hrun
    cases hrun
    exact .inr (.inl ⟨.finished, .write h keep rfl rfl (fun _ h => nomatch h)⟩)
  | unlinkStart d name =>
    simp only [Sys.runThread] at hrun
    split at hrun <;> cases hrun
    exact .inr (.inl ⟨.unlinkLocked d name, .write h keep rfl rfl (fun _ => id)⟩)
  | unlinkLocked d name =>
    simp only [Sys.runThread] at hrun
    split at hrun <;> cases hrun
    split
    · exact .inl rfl
    · exact .inr (.inl ⟨_, .write h keep rfl rfl (fun _ h => nomatch h)⟩)
    · split
      · exact .inr (.inl ⟨_, .write h keep rfl rfl (fun _ => id)⟩)
      · exact .inr (.inl ⟨_, .write h keep rfl rfl (fun _ h => nomatch h)⟩)
  | unlinkPath d name path =>
    simp only [Sys.runThread] at hrun
    split at hrun
    · cases hrun; exact .inr (.inl ⟨_, .write h keep rfl rfl (fun _ => id)⟩)
    · split at hrun <;> cases hrun
      split
      · split
        · exact .inr (.inl ⟨_, .write h keep rfl rfl (fun _ => id)⟩)
        · exact .inr (.inl ⟨_, .write h keep rfl rfl (fun _ h => nomatch h)⟩)
      · exact .inr (.inl ⟨_, .write h keep rfl rfl (fun _ => id)⟩)
  | unlinkCall d name path =>
    simp only [Sys.runThread] at hrun
    cases hrun
    split
    · exact .inr (.inl ⟨_, .write h keep rfl rfl (fun _ => id)⟩)
    · exact .inr (.inl ⟨_, .write h keep rfl rfl (fun _ h => nomatch h)⟩)
  | unlinkRemove d name =>
    simp only [Sys.runThread] at hrun
    split at hrun <;> cases hrun
    split
    next g hg =>
      obtain ⟨g', hg', hi, -, -, hk⟩ := @removeNode_spec s.dir d name h
      rw [hg', Except.ok.injEq] at hg; subst hg
      exact .inr (.inl ⟨_, .write hi (hk _) rfl rfl (fun _ h => nomatch h)⟩)
    next => exact .inl rfl
  | hideProbe d name path failctr =>
    simp only [Sys.runThread] at hrun
    split at hrun
    · cases hrun; exact .inr (.inl ⟨_, .write h keep rfl rfl (fun _ h => nomatch h)⟩)
    · split at hrun
      · cases hrun
      · split at hrun
        · cases hrun
        · cases hrun; exact .inl rfl
        · cases hrun; exact .inr (.inl ⟨_, .write h keep rfl rfl (fun _ h => nomatch h)⟩)
        next newname g hg =>
          cases hrun
          obtain ⟨-, -, c, rfl⟩ := hiddenProbe_some hg
          exact .inr (.inl ⟨_, .write (h.setHidectr c) (.of_heap (by rfl) _) rfl rfl (fun _ => id)⟩)
  | hideCheck d name path failctr newname =>
    simp only [Sys.runThread] at hrun
    split at hrun <;> cases hrun
    split
    · exact .inl rfl
    · exact .inr (.inl ⟨_, .write h keep rfl rfl (fun _ h => nomatch h)⟩)
    · split
      · exact .inr (.inl ⟨_, .write h keep rfl rfl (fun _ => id)⟩)
      · split
        · exact .inr (.inl ⟨_, .write h keep rfl rfl (fun _ h => nomatch h)⟩)
        · exact .inr (.inl ⟨_, .write h keep rfl rfl (fun _ => id)⟩)
  | hideRename d name path newpath newname =>
    simp only [Sys.runThread] at hrun
    cases hrun
    split
    · exact .inr (.inl ⟨_, .write h keep rfl rfl (fun _ => id)⟩)
    · exact .inr (.inl ⟨_, .write h keep rfl rfl (fun _ h => nomatch h)⟩)
  | hideNode d name newname =>
    simp only [Sys.runThread] at hrun
    split at hrun <;> cases hrun
    split
    next err g hg =>
      obtain ⟨r, g', hg', hi, -, -, hk⟩ := @renameNode_spec s.dir d d name newname true allocOk h
        (hheld d rfl)
      rw [hg', Except.ok.injEq, Prod.mk.injEq] at hg; obtain ⟨-, rfl⟩ := hg
      exact .inr (.inl ⟨_, .write hi (hk _) rfl rfl (fun _ h => nomatch h)⟩)
    next => exact .inl rfl
  | unlinkReply r =>
    simp only [Sys.runThread] at hrun
    cases hrun
    exact .inr (.inl ⟨.finished, .write h keep rfl rfl (fun _ h => nomatch h)⟩)
  | finished => simp [Sys.runThread] at hrun

/-- **Every step keeps the invariant.** -/
theorem OpenInv.step (h : OpenInv s) (hst : Step ops s s') : OpenInv s' := by
  cases hst with
  | openReq _ hheld => exact h.request rfl hheld rfl (fun _ => rfl) fun _ => rfl
  | @releaseReq i _ hpos =>
    refine h.request rfl (h.busy i (.inl hpos)) rfl (fun _ => rfl) fun j => ?_
    by_cases e : j = i
    · subst e; simp [Phase.releases]; omega
    · simp [Phase.releases, e, Ne.symm e]
  | unlinkReq _ hheld => exact h.request rfl hheld rfl (fun _ => rfl) fun _ => rfl
  | forget _ _ hb _ ho =>
    obtain ⟨g, hg, hi, hk, -⟩ := forgetOp_spec h.dir ho
    rw [hg]
    exact h.of_dir hi hk fun j hj e => hb (e ▸ hj)
  | thread _ hk hrun =>
    rcases runThread_cases h.dir (fun _ hd => h.held_of_thread hk hd) hrun with
      rfl | ⟨_, hq⟩ | ⟨i, rfl, hl, rfl⟩ | ⟨i, r, g, rfl, hg, rfl⟩ | ⟨i, uh, g, rfl, -, hg, rfl⟩
    · exact h.crash
    · exact h.quiet hk hq
    · exact h.openSend hk hl
    · exact h.openCount hk hg
    · exact h.release hk hg

theorem SysReachable.openInv (hs : SysReachable ops s) : OpenInv s := by
  induction hs with
  | start hf => exact .start hf
  | step _ hst ih => exact ih.step hst

/-! ## Open counts -/

/-- **Open counts are exact over every interleaving.** In every state the process reaches from
a directory with nothing open, while no thread holds `f->lock`, a node's `open_count` is the
OPEN replies the kernel took for it, plus the replies whose write failed with an error other
than `ENOENT`, minus the RELEASEs counted for it; no count is ever negative; and a RELEASE
that takes `f->lock` finds its node with a positive count, so the assertion of `do_release`
never fails. -/
theorem open_count_accounting (hs : SysReachable ops s) :
    (s.lock = none → ∀ p n, s.dir.heap p = some n →
      n.openCount + s.released n.nodeid = s.delivered n.nodeid + s.failed n.nodeid) ∧
    (∀ p n, s.dir.heap p = some n → 0 ≤ n.openCount) ∧
    (∀ k i : Nat, s.threads[k]? = some (.releaseStart i) → s.lock = none →
      ∃ uh g, releaseCount s.dir i = .ok (uh, g)) := by
  have h := hs.openInv
  refine ⟨fun hl p n hp => ?_, fun p n hp => h.nonneg hp, fun k i hk hl => h.releaseCount_ok hk hl⟩
  have := h.count hp
  rw [h.owed_eq_zero hl] at this
  simpa using this

theorem open_count_accounting_delivered :
    ∃ s, SysReachable ⟨true, false, false, false⟩ s ∧ s.lock = none ∧ s.delivered rootId = 1 ∧
      (∀ p n, s.dir.heap p = some n →
        n.openCount + s.released n.nodeid = s.delivered n.nodeid + s.failed n.nodeid) ∧
      ∀ p n, s.dir.heap p = some n → 0 ≤ n.openCount := by
  have h0 : SysReachable ⟨true, false, false, false⟩ (Sys.start (fuseNew {})) := .start (.init {})
  have h1 := h0.step (.openReq rfl ⟨0, rootNode, rfl, rfl, rootNode_not_forgotten⟩)
  have h2 := h1.step (@Step.thread _ _ _ 0 _ 0 true rfl rfl rfl)
  have h3 := h2.step (@Step.thread _ _ _ 0 _ 0 true rfl rfl rfl)
  have h4 := h3.step (@Step.thread _ _ _ 0 _ 0 true rfl rfl rfl)
  have h5 := h4.step (@Step.thread _ _ _ 0 _ 0 true rfl rfl rfl)
  have h6 := h5.step (@Step.thread _ _ _ 0 _ 0 true rfl rfl rfl)
  obtain ⟨hc, hn, -⟩ := open_count_accounting h6
  exact ⟨_, h6, rfl, rfl, hc rfl, hn⟩

/-- An OPEN of the root whose reply write fails with `EIO`: the kernel never took the reply and
holds no open file, yet the root counts one that no RELEASE will count down. -/
theorem open_count_failed_write :
    ∃ s, SysReachable ⟨true, false, false, false⟩ s ∧ s.lock = none ∧ s.threads = [.finished] ∧
      ∃ p n, s.dir.heap p = some n ∧ n.openCount = 1 ∧ s.delivered n.nodeid = 0 ∧
        s.released n.nodeid = 0 ∧ s.handles n.nodeid = 0 :=
  ⟨_, .step (.step (.step (.step (.step (.step (.start (.init {}))
      (.openReq rfl ⟨0, rootNode, rfl, rfl, rootNode_not_forgotten⟩))
      (@Step.thread _ _ _ 0 _ 0 true rfl rfl rfl))
      (@Step.thread _ _ _ 0 _ 0 true rfl rfl rfl))
      (@Step.thread _ _ _ 0 _ (- EIO) true rfl rfl rfl))
      (@Step.thread _ _ _ 0 _ 0 true rfl rfl rfl))
      (@Step.thread _ _ _ 0 _ 0 true rfl rfl rfl),
    rfl, rfl, 0, _, rfl, rfl, rfl, rfl, rfl⟩

end FuseCore
