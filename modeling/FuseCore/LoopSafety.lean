import FuseCore.Loop

/-!
# Every run of the request loop (fuse.c:393-476, :574-705, :851-1197, :1847-2080)

`LoopInv` holds in every state `fuse_loop` reaches (`LoopReachable.loopInv`):

* the directory's invariant at rest, `Inv`;
* a node the kernel has open files on is held, with an open count no smaller than the
  number of those files, and no count is negative;
* a hidden node exists only when the filesystem defines `unlink`: `hide_node` is the only
  code that marks a node hidden, and it runs only then;
* once INIT is seen the negotiated major is 7 or more;
* a directory handle the kernel holds is on a node it holds, and under `readdir_ino` the
  address `do_opendir` kept in it is that node's.

So no request the kernel sends faults: every handler returns, or runs one of the two loops
that end only when their counters are exhausted (`next_id`, `hidden_name`), and no
`f->op.unlink` call goes through a NULL pointer (`loop_never_aborts`).

What a handler may do to the directory is said once per directory operation, as a frame
(`Fuse.HidesIf`: no node newly hidden unless the operation hides; `Fuse.Steady`: the
invariant, the nodes the kernel holds, the open counts); each handler's lemma composes the
frames of the operations it calls, and the step lemma reads only those.

An OPEN whose reply the kernel did not take leaves the directory as it was and runs the user's
release once (`doOpen_interrupted`); with the lookup side of `FuseCore.Reply` this gives
`lookup_rollback`. `hidingLoop` is the process after INIT, a LOOKUP, an OPEN and an UNLINK
that hides the open file, reached step by step from `processCmd`.
-/

namespace FuseCore

/-! ## Returning or hanging -/

/-- A computation that returns a value satisfying `P`, or stops with an error `E` accepts. -/
def Post {ε α : Type} (x : Except ε α) (E : ε → Prop) (P : α → Prop) : Prop :=
  match x with
  | .ok a => P a
  | .error e => E e

/-- The loops of `next_id` and `hidden_name`, which end only when every id or every hidden
name is taken. -/
def Fault.Hangs (e : Fault) : Prop := e = .nextIdHangs ∨ e = .hiddenNameHangs

/-- A hang of the directory code; a NULL callback is not one. -/
def LoopFault.Hangs : LoopFault → Prop
  | .fault e => e.Hangs
  | .nullCallback | .nullNode => False

section Post
variable {ε α β : Type} {E : ε → Prop} {P Q : α → Prop}

@[simp] theorem post_ok (a : α) : Post (Except.ok a : Except ε α) E P ↔ P a := Iff.rfl
@[simp] theorem post_error (e : ε) : Post (Except.error e : Except ε α) E P ↔ E e := Iff.rfl
@[simp] theorem post_pure (a : α) : Post (pure a : Except ε α) E P ↔ P a := Iff.rfl
@[simp] theorem mapError_ok {ε' : Type} (g : ε → ε') (a : α) :
    Except.mapError g (Except.ok a : Except ε α) = .ok a := rfl

theorem Post.mono {x : Except ε α} (h : Post x E P) (hPQ : ∀ a, P a → Q a) : Post x E Q := by
  cases x with
  | ok a => exact hPQ a h
  | error e => exact h

theorem Post.bind {x : Except ε α} {g : α → Except ε β} {R : β → Prop}
    (h : Post x E fun a => Post (g a) E R) : Post (x >>= g) E R := by
  cases x with
  | ok a => exact h
  | error e => exact h

theorem Post.map {x : Except ε α} {g : α → β} {R : β → Prop} (h : Post x E fun a => R (g a)) :
    Post (g <$> x) E R := by
  cases x with
  | ok a => exact h
  | error e => exact h

end Post

/-! ## Which operations hide a node -/

/-- From `f` to `g` no node is newly marked hidden, unless `H`, and the negotiated major and
the options stay. -/
structure Fuse.HidesIf (f g : Fuse) (H : Prop) : Prop where
  hidden : ∀ {x y}, g.heap x = some y → y.isHidden = true →
    (∃ y0, f.heap x = some y0 ∧ y0.isHidden = true) ∨ H
  major : g.major = f.major
  flags : g.flags = f.flags

section HidesIf
variable {f g k : Fuse} {p : Ptr} {H H' : Prop}

theorem Fuse.HidesIf.of_heap (hh : g.heap = f.heap) (hm : g.major = f.major) (hf : g.flags = f.flags) :
    f.HidesIf g H :=
  ⟨fun {_ y} hx hy => .inl ⟨y, hh ▸ hx, hy⟩, hm, hf⟩

theorem Fuse.HidesIf.refl (f : Fuse) (H : Prop) : f.HidesIf f H := .of_heap rfl rfl rfl

theorem Fuse.HidesIf.trans (h1 : f.HidesIf g H) (h2 : g.HidesIf k H) : f.HidesIf k H :=
  ⟨fun hx hy => (h2.hidden hx hy).elim (fun ⟨_, hy1, e1⟩ => h1.hidden hy1 e1) .inr,
    h2.major.trans h1.major, h2.flags.trans h1.flags⟩

theorem Fuse.HidesIf.mono (h : f.HidesIf g H) (hH : H → H') : f.HidesIf g H' :=
  ⟨fun hx hy => (h.hidden hx hy).imp_right hH, h.major, h.flags⟩

/-- Writing a record that keeps its mark. -/
theorem Fuse.HidesIf.setNode {n : Node} (hp : f.heap p = some n) (n' : Node)
    (e : n'.isHidden = n.isHidden) : f.HidesIf (f.setNode p n') H where
  hidden {x y} hx hy := by
    simp only [Fuse.setNode_heap, update_eq_some] at hx
    rcases hx with ⟨rfl, ⟨⟩⟩ | ⟨-, hx⟩
    exacts [.inl ⟨n, hp, e ▸ hy⟩, .inl ⟨y, hx, hy⟩]
  major := rfl
  flags := rfl

theorem Fuse.HidesIf.freeNode (f : Fuse) (p : Ptr) : f.HidesIf (f.freeNode p) H where
  hidden {x y} hx hy := by
    simp only [Fuse.freeNode_heap, update_eq_some] at hx
    rcases hx with ⟨-, ⟨⟩⟩ | ⟨-, hx⟩
    exact .inl ⟨y, hx, hy⟩
  major := rfl
  flags := rfl

/-- The write after reading the record at `p`. -/
theorem Fuse.HidesIf.setRead {n n' : Node} (hp : f.node p = .ok n) (e : n'.isHidden = n.isHidden) :
    f.HidesIf (f.setNode p n') H := .setNode (Fuse.node_eq_ok.1 hp) n' e

theorem unhashId_hidesIf (h : unhashId f p = .ok g) : f.HidesIf g H := by
  obtain ⟨_, -, h⟩ := bind_eq_ok.1 h
  cases h; exact .of_heap rfl rfl rfl

theorem deleteNode_hidesIf (h : deleteNode f p = .ok g) : f.HidesIf g H := by
  obtain ⟨n, -, h⟩ := bind_eq_ok.1 h
  by_cases hn : n.name.isSome
  · simp [hn] at h
  · simp only [hn, Bool.false_eq_true, if_false, pure_eq_ok, ok_bind] at h
    obtain ⟨g', hg', h⟩ := bind_eq_ok.1 h
    cases h; exact (unhashId_hidesIf hg').trans (.freeNode _ _)

theorem unrefNode_hidesIf (h : unrefNode f p = .ok g) : f.HidesIf g H := by
  obtain ⟨n, hn, h⟩ := bind_eq_ok.1 h
  by_cases h0 : n.refctr ≤ 0
  · simp [h0] at h
  · simp only [h0, if_false, pure_eq_ok, ok_bind] at h
    have h1 : f.HidesIf (f.setNode p { n with refctr := n.refctr - 1 }) H := .setRead hn (by rfl)
    split at h
    · exact h1.trans (deleteNode_hidesIf h)
    · cases h; exact h1

theorem unhashName_hidesIf (h : unhashName f p = .ok g) : f.HidesIf g H := by
  obtain ⟨n, -, h⟩ := bind_eq_ok.1 h
  split at h
  · cases h; exact .refl f H
  · dsimp only at h
    split at h
    · obtain ⟨q, -, h⟩ := bind_eq_ok.1 h
      obtain ⟨g1, hg1, h⟩ := bind_eq_ok.1 h
      obtain ⟨m, hm, h⟩ := bind_eq_ok.1 h
      cases h
      exact .trans (.trans (.of_heap (g := f.eraseName _ p) rfl rfl rfl) (unrefNode_hidesIf hg1))
        (.setRead hm (by rfl))
    · simp at h

theorem forgetNode_hidesIf {i c : Nat} (h : forgetNode f i c = .ok g) : f.HidesIf g H := by
  by_cases hr : i = rootId
  · simp only [forgetNode, hr, if_true, pure_eq_ok] at h; cases h; exact .refl f H
  simp only [forgetNode, hr, if_false, pure_eq_ok, ok_bind] at h
  obtain ⟨q, -, h⟩ := bind_eq_ok.1 h
  obtain ⟨n, hn, h⟩ := bind_eq_ok.1 h
  by_cases hc : n.nlookup < c
  · simp [hc] at h
  simp only [hc, if_false, pure_eq_ok, ok_bind] at h
  have h1 : f.HidesIf (f.setNode q { n with nlookup := n.nlookup - c }) H := .setRead hn (by rfl)
  split at h
  · obtain ⟨g1, hg1, h⟩ := bind_eq_ok.1 h
    exact h1.trans ((unhashName_hidesIf hg1).trans (unrefNode_hidesIf h))
  · cases h; exact h1

theorem forgetNodeOld_hidesIf {i v : Nat} (h : forgetNodeOld f i v = .ok g) : f.HidesIf g H := by
  unfold forgetNodeOld at h
  split at h
  · cases h; exact .refl f H
  · obtain ⟨n, hn, h⟩ := bind_eq_ok.1 h
    split at h
    · obtain ⟨g1, hg1, h⟩ := bind_eq_ok.1 h
      exact (Fuse.HidesIf.setRead hn (by rfl)).trans ((unhashName_hidesIf hg1).trans (unrefNode_hidesIf h))
    · cases h; exact .refl f H

theorem forgetOp_hidesIf {major i c : Nat} (h : (forgetOp major i c).run f = .ok g) : f.HidesIf g H := by
  unfold forgetOp at h
  split at h
  · exact forgetNodeOld_hidesIf h
  · exact forgetNode_hidesIf h

theorem cancelLookup_hidesIf {i v : Nat} (h : cancelLookup f i v = .ok g) : f.HidesIf g H := by
  unfold cancelLookup at h
  split at h
  · exact forgetNodeOld_hidesIf h
  · exact forgetNode_hidesIf h

theorem removeNode_hidesIf {d : Nat} {name : Name} (h : removeNode f d name = .ok g) : f.HidesIf g H := by
  unfold removeNode at h
  split at h
  · exact unhashName_hidesIf h
  · cases h; exact .refl f H

theorem hashName_hidesIf {parent : Nat} {name : Name} {s : Bool} {r : Int}
    (h : hashName f p parent name s = .ok (r, g)) : f.HidesIf g H := by
  obtain ⟨n, hn, h⟩ := bind_eq_ok.1 h
  cases s with
  | false => simp only [Bool.not_false, if_true] at h; cases h; exact .setRead hn (by rfl)
  | true =>
    simp only [Bool.not_true, Bool.false_eq_true, if_false, pure_eq_ok, ok_bind] at h
    obtain ⟨q, -, h⟩ := bind_eq_ok.1 h
    obtain ⟨m, hm, h⟩ := bind_eq_ok.1 h
    obtain ⟨n1, hn1, h⟩ := bind_eq_ok.1 h
    cases h
    exact ((Fuse.HidesIf.setRead hn (by rfl)).trans (.setRead hm (by rfl))).trans
      ((Fuse.HidesIf.setRead hn1 (by rfl)).trans (.of_heap rfl rfl rfl))

/-- `rename_node` marks a node hidden only when asked to. -/
theorem renameNode_hidesIf {olddir newdir : Nat} {oldname newname : Name} {hide s : Bool} {r : Int}
    (h : renameNode f olddir oldname newdir newname hide s = .ok (r, g)) : f.HidesIf g (hide = true) := by
  cases hl : lookupNode f olddir oldname with
  | none => simp [renameNode, hl] at h; obtain ⟨-, rfl⟩ := h; exact .refl f _
  | some p =>
  -- once the target is free: `unhash_name` and `hash_name` of the node, and the mark
  have tail : ∀ f1, f.HidesIf f1 (hide = true) → (do
      let f ← unhashName f1 p
      let d ← hashName f p newdir newname s
      if d.1 = -1 then Except.ok (-ENOMEM, d.2)
      else if hide = true then do
        let n ← d.2.node p
        Except.ok (0, d.2.setNode p { n with isHidden := true })
      else Except.ok (0, d.2)) = .ok (r, g) → f.HidesIf g (hide = true) := by
    intro f1 h1 h
    obtain ⟨f2, h2, h⟩ := bind_eq_ok.1 h
    obtain ⟨⟨r3, f3⟩, h3, h⟩ := bind_eq_ok.1 h
    have h3' := h1.trans ((unhashName_hidesIf h2).trans (hashName_hidesIf h3))
    dsimp only at h
    split_ifs at h with hr hh
    · cases h; exact h3'
    · obtain ⟨n, -, h⟩ := bind_eq_ok.1 h
      cases h; exact h3'.trans ⟨fun _ _ => .inr hh, rfl, rfl⟩
    · cases h; exact h3'
  cases hq : lookupNode f newdir newname with
  | none =>
    simp only [renameNode, hl, hq, Option.isSome_none, Bool.false_eq_true, and_false, if_false,
      pure_eq_ok, ok_bind] at h
    exact tail f (.refl f _) h
  | some q =>
    by_cases hb : hide = true
    · simp [renameNode, hl, hq, hb] at h; obtain ⟨-, rfl⟩ := h; exact .refl f _
    · simp only [renameNode, hl, hq, hb, false_and, if_false, pure_eq_ok, ok_bind] at h
      obtain ⟨f1, h1, h⟩ := bind_eq_ok.1 h
      exact tail f1 (unhashName_hidesIf h1) (by simpa [hb] using h)

end HidesIf

/-! ## What a handler leaves of the directory -/

/-- What a handler leaves of the directory, unless it forgets an id `E` names or hides a node
when `H`: the invariant at rest; every node of `f` the kernel holds still held at its address,
with its id and open count; no open count written; and no node newly hidden. -/
structure Fuse.Steady (f g : Fuse) (E : Nat → Prop) (H : Prop) : Prop where
  inv : Inv g
  held : ∀ {x y0}, f.heap x = some y0 → ¬ y0.Forgotten → ¬ E y0.nodeid →
    ∃ y, g.heap x = some y ∧ ¬ y.Forgotten ∧ y.nodeid = y0.nodeid ∧ y.openCount = y0.openCount
  opens : ∀ x y, g.heap x = some y → y.openCount = 0 ∨ ∃ y0, f.heap x = some y0 ∧ y.openCount = y0.openCount
  hides : f.HidesIf g H

section Steady
variable {f g k : Fuse} {E E' : Nat → Prop} {H H' : Prop}

theorem Fuse.Steady.of_keepsOpen (hg : Inv g) (ho : f.KeepsOpen g E) (hh : f.HidesIf g H) :
    f.Steady g E H :=
  ⟨hg, ho.held, fun _ _ hx => ho.opensNone hx, hh⟩

theorem Fuse.Steady.refl (h : Inv f) : f.Steady f E H := .of_keepsOpen h (.refl f E) (.refl f H)

theorem Fuse.Steady.trans (h1 : f.Steady g E H) (h2 : g.Steady k E H) : f.Steady k E H where
  inv := h2.inv
  held hx hf hE := by
    obtain ⟨y1, hy1, hf1, i1, o1⟩ := h1.held hx hf hE
    obtain ⟨y, hy, hf2, i2, o2⟩ := h2.held hy1 hf1 (i1 ▸ hE)
    exact ⟨y, hy, hf2, i2.trans i1, o2.trans o1⟩
  opens x y hx := (h2.opens x y hx).elim .inl fun ⟨_, hy1, e1⟩ =>
    (h1.opens x _ hy1).elim (fun e => .inl (e1.trans e)) fun ⟨y0, hy0, e0⟩ => .inr ⟨y0, hy0, e1.trans e0⟩
  hides := h1.hides.trans h2.hides

theorem Fuse.Steady.mono (h : f.Steady g E H) (hE : ∀ i, E i → E' i) (hH : H → H') :
    f.Steady g E' H' :=
  ⟨h.inv, fun hx hf hE' => h.held hx hf fun e => hE' (hE _ e), h.opens, h.hides.mono hH⟩

/-- Forgetting an id no node of `f` has loses nothing the kernel holds. -/
theorem Fuse.Steady.unforget (h : f.Steady g E H) (hE : ∀ x y, f.heap x = some y → ¬ E y.nodeid) :
    f.Steady g E' H :=
  ⟨h.inv, fun hx hf _ => h.held hx hf (hE _ _ hx), h.opens, h.hides⟩

theorem Fuse.Steady.held_of (h : f.Steady g E H) {i : Nat} (hi : Held f i) (hE : ¬ E i) : Held g i := by
  obtain ⟨x, y0, hx, rfl, hf⟩ := hi
  obtain ⟨y, hy, hf', e, -⟩ := h.held hx hf hE
  exact ⟨x, y, hy, e, hf'⟩

theorem Fuse.Steady.setHidectr (h : Inv f) (c : Nat) : f.Steady { f with hidectr := c } E H :=
  .of_keepsOpen (h.setHidectr c) (.of_heap (f := f) (g := { f with hidectr := c }) rfl E)
    (.of_heap (f := f) (g := { f with hidectr := c }) rfl rfl rfl)

/-- A node the kernel holds is live. -/
theorem Held.live {i : Nat} (h : Held f i) : ∃ p n, f.heap p = some n ∧ n.nodeid = i :=
  let ⟨p, n, hp, e, _⟩ := h; ⟨p, n, hp, e⟩

end Steady

/-! ## The handlers, one lemma each -/

section Handlers
variable {f : Fuse} {E : Nat → Prop} {H : Prop}

/-- The block of `hidden_name` under `f->lock` changes only `hidectr`, or hangs. -/
theorem hiddenProbe_spec {dir : Nat} {name : Name} (hI : IndexInv f) :
    Post (hiddenProbe f dir name) Fault.Hangs
      fun r => ∀ nn g, r = some (nn, g) → ∃ c, g = { f with hidectr := c } := by
  unfold hiddenProbe
  split
  · simp
  · rename_i p hp
    obtain ⟨n, hn, -⟩ := (lookupNode_eq_some hI).1 hp
    rw [Fuse.node_eq_ok.2 hn, ok_bind]
    split
    · show Fault.Hangs _; exact .inr rfl
    · simp

/-- **The rounds of `hidden_name` change only `hidectr`**, or hang in the inner loop. -/
theorem hiddenNameRounds_spec {dir : Nat} {name : Name} (probe : Nat → Int) (pathOk : Nat → Bool) :
    ∀ (k : Nat) {f : Fuse}, Inv f → (∃ p n, f.heap p = some n ∧ n.nodeid = dir) →
      Post (hiddenNameRounds dir name probe pathOk k f) Fault.Hangs
        fun rg => ∃ c, rg.2 = { f with hidectr := c }
  | 0, f, _, _ => ⟨f.hidectr, rfl⟩
  | k + 1, f, h, hd => by
    rw [hiddenNameRounds]
    refine Post.bind ((hiddenProbe_spec h.index).mono fun r hr => ?_)
    rcases r with _ | ⟨nn, g⟩
    · exact ⟨f.hidectr, rfl⟩
    obtain ⟨c, rfl⟩ := hr nn g rfl
    obtain ⟨o, ho⟩ := getPathName_ok_of_live (h.setHidectr c) hd (some nn) (pathOk (k + 1))
    show Post (getPathName _ dir (some nn) _ >>= _) _ _
    rw [ho, ok_bind]
    rcases o with _ | newpath
    · exact ⟨c, rfl⟩
    · show Post (if probe (k + 1) ≠ 0 then _ else _) _ _
      split_ifs
      · exact ⟨c, rfl⟩
      · exact (hiddenNameRounds_spec probe pathOk k (h.setHidectr c) hd).mono fun _ ⟨c', e⟩ => ⟨c', e⟩

/-- Writing the record of a node the kernel holds, keeping its id, count and mark, and keeping
it held. -/
theorem Fuse.Steady.setNode {p : Ptr} {n n' : Node} (h' : Inv (f.setNode p n')) (hp : f.heap p = some n)
    (hid : n'.nodeid = n.nodeid) (ho : n'.openCount = n.openCount) (hh : n'.isHidden = n.isHidden)
    (hf : ¬ n.Forgotten → ¬ n'.Forgotten) : f.Steady (f.setNode p n') E H :=
  .of_keepsOpen h' (.setNode hp n' hid ho fun h1 _ => hf h1) (.setNode hp n' hh)

/-- What `find_node` leaves for a new key: the nodes of `f` where they were, the parent with
one more reference, and the new node, neither open nor hidden. -/
theorem Fuse.Steady.freshState {parent : Nat} {name : Name} {q : Ptr} {m : Node} {id gen unique : Nat}
    (hI : IndexInv f) (hg : Inv (freshState f parent name q m id gen unique)) (hm : f.heap q = some m)
    (hop : f.OpensNone (freshState f parent name q m id gen unique)) :
    f.Steady (freshState f parent name q m id gen unique) E H := by
  have hpq : f.nextPtr ≠ q := Nat.ne_of_gt (hI.bounded hm)
  refine ⟨hg, fun {x y0} hx hf _ => ?_, fun x y hx => hop hx, ⟨fun {x y} hx hy => ?_, rfl, rfl⟩⟩
  · have hxn : x ≠ f.nextPtr := fun e => by rw [e, hI.nextPtr_free] at hx; cases hx
    rw [freshState_heap hpq, if_neg hxn]
    by_cases hxq : x = q
    · subst hxq; rw [hm, Option.some.injEq] at hx; subst hx
      exact ⟨{ m with refctr := m.refctr + 1 }, by simp, hf, rfl, rfl⟩
    · exact ⟨y0, by simp [hxq, hx], hf, rfl, rfl⟩
  · rw [freshState_heap hpq] at hx
    split_ifs at hx with hxn
    · cases hx; cases hy
    · by_cases hxq : x = q
      · subst hxq; simp only [Function.update_same, Option.some.injEq] at hx; subst hx
        exact .inl ⟨m, hm, hy⟩
      · rw [Function.update_noteq hxq] at hx; exact .inl ⟨y, hx, hy⟩

/-- **The tail of the LOOKUP class**, under the modern protocol, in a directory the kernel
holds: `find_node`, the reply, and the cancel of an interrupted reply keep every node the
kernel holds, or hang in `next_id`. -/
theorem entryReply_spec {parent : Nat} {name : Name} {unique : Nat} (h : Inv f) (hpar : Held f parent)
    (hv : unique ≠ 0) (h7 : 7 ≤ f.major) (a : Answers) :
    Post (entryReply f parent name unique a) Fault.Hangs fun rg => f.Steady rg.2 (fun _ => False) H := by
  unfold entryReply
  by_cases hg : a.getattr ≠ 0
  · rw [if_pos hg]; exact .refl h
  rw [if_neg hg]
  rcases @findNode_spec f parent name a.ino unique a.callocOk a.strdupOk h hpar hv with
    he | ⟨r, g, hfind, hgi, -, -, -, hop⟩
  · rw [he]; exact .inl rfl
  rw [hfind, ok_bind]
  rcases findNode_cases h.index hfind with ⟨rfl, hh, hm, hfl⟩ | ⟨p, n, rfl, hl, hp, rfl⟩ |
    ⟨q, m, id, gen, hl, hq, hm, hid, rfl, rfl⟩
  · exact .of_keepsOpen hgi (.of_heap hh _) (.of_heap hh hm hfl)
  · -- a node of the key: refreshed, and the cancel takes the lookup back
    obtain ⟨n0, hp0, hr, -, hn⟩ := (lookupNode_eq_some h.index).1 hl
    rw [hp, Option.some.injEq] at hp0; subst hp0
    have hnf : ¬ n.Forgotten := h.not_forgotten hp (by simp [hn])
    have hnl : n.nlookup ≠ 0 := fun e => hnf ⟨hr, .inl e⟩
    simp only [Fuse.node, Fuse.setNode_heap, Function.update_same, ok_bind]
    by_cases hw : a.write = -ENOENT
    · rw [if_pos hw]
      obtain ⟨n', hp', he⟩ := @lookupReply_hit f parent name a.ino unique a.callocOk a.strdupOk p h hl h7
      rw [hp, Option.some.injEq] at hp'; subst hp'
      simp only [lookupReply, findNode_hit hl hp, ok_bind, Fuse.node, Fuse.setNode_heap,
        Function.update_same, if_true] at he
      rw [he]
      exact .setNode (h.setNode hp _ rfl rfl (iff_of_false (fun hf => hf.2.elim hnl hv) hnf)) hp rfl rfl rfl
        fun _ hf => hf.2.elim hnl hv
    · rw [if_neg hw]
      exact .setNode hgi hp rfl rfl rfl fun _ hf => hf.2.elim (Nat.succ_ne_zero _) hv
  · -- a new node: the cancel destroys it, and no node the kernel holds has its id
    obtain ⟨-, hnone⟩ := nextIdLoop_fresh hid
    have hfree : ∀ x y, f.heap x = some y → y.nodeid ≠ id := (getNodeNocheck_eq_none h.index).1 hnone
    have hnr : id ≠ rootId := fun e => by
      obtain ⟨r, z, hz, h1, -⟩ := h.refs.root; exact hfree r z hz (h1.trans e.symm)
    have hpq : f.nextPtr ≠ q := Nat.ne_of_gt (h.index.bounded hm)
    have hnew := @freshState_heap f parent name q m id gen unique hpq f.nextPtr
    rw [if_pos rfl] at hnew
    have hs : ∀ E, f.Steady (freshState f parent name q m id gen unique) E H := fun _ =>
      .freshState h.index hgi hm hop
    dsimp only
    rw [Fuse.node_eq_ok.2 hnew, ok_bind]
    by_cases hw : a.write = -ENOENT
    · rw [if_pos hw]
      obtain ⟨g2, hg2, hI2, -, -, ho2, -⟩ := @cancelLookup_spec _ id unique hgi
        ⟨f.nextPtr, _, hnew, rfl, fun hf => hf.2.elim (fun e => absurd e one_ne_zero) hv⟩
      show Post ((0, ·) <$> cancelLookup _ id unique) _ _
      rw [hg2]
      exact ((hs _).trans (.of_keepsOpen hI2 ho2 (cancelLookup_hidesIf hg2))).unforget hfree
    · rw [if_neg hw]; exact hs _

section Handlers2
variable {ops : LoopOps} {f : Fuse} {unique : Nat} {name : Name} {H : Prop}

theorem doLookup_spec {parent : Nat} (h : Inv f) (hpar : Held f parent) (hv : unique ≠ 0)
    (h7 : 7 ≤ f.major) (a : Answers) :
    Post (doLookup ops f parent name unique a) Fault.Hangs fun rg => f.Steady rg.2 (fun _ => False) H := by
  obtain ⟨o, ho⟩ := getPathName_ok_of_live h hpar.live (some name) a.pathOk
  rw [doLookup, ho, ok_bind]
  rcases o with _ | _
  · exact .refl h
  · dsimp only; split_ifs
    exacts [entryReply_spec h hpar hv h7 a, .refl h]

theorem doCreate_spec {hasOp : Bool} {parent : Nat} (h : Inv f) (hpar : Held f parent)
    (hv : unique ≠ 0) (h7 : 7 ≤ f.major) (a : Answers) :
    Post (doCreate hasOp ops f parent name unique a) Fault.Hangs
      fun rg => f.Steady rg.2 (fun _ => False) H := by
  obtain ⟨o, ho⟩ := getPathName_ok_of_live h hpar.live (some name) a.pathOk
  rw [doCreate, ho, ok_bind]
  rcases o with _ | _
  · exact .refl h
  · dsimp only; split_ifs
    exacts [entryReply_spec h hpar hv h7 a, .refl h, .refl h]

theorem doLink_spec {oldnodeid parent : Nat} (h : Inv f) (hold : Held f oldnodeid) (hpar : Held f parent)
    (hv : unique ≠ 0) (h7 : 7 ≤ f.major) (a : Answers) :
    Post (doLink ops f oldnodeid parent name unique a) Fault.Hangs
      fun rg => f.Steady rg.2 (fun _ => False) H := by
  obtain ⟨o, ho⟩ := getPathName_ok_of_live h hold.live none a.pathOk
  rw [doLink, getPath, ho, ok_bind]
  rcases o with _ | _
  · exact .refl h
  · exact doCreate_spec h hpar hv h7 a

/-- **`hide_node` keeps every node the kernel holds**, in a directory it holds, and marks a
node hidden only when the filesystem has `unlink`. -/
theorem hideNode_spec {dir : Nat} (h : Inv f) (hd : Held f dir) (a : Answers) :
    Post (hideNode ops f dir name a) Fault.Hangs
      fun rg => f.Steady rg.2 (fun _ => False) (ops.hasUnlink = true) := by
  unfold hideNode
  by_cases hops : (ops.hasRename && ops.hasUnlink) = true
  · have hu : ops.hasUnlink = true := by simp only [Bool.and_eq_true] at hops; exact hops.2
    rw [if_pos hops]
    dsimp only
    by_cases hga : ops.hasGetattr = true
    · rw [if_pos hga]
      refine Post.bind ((hiddenNameRounds_spec a.probe a.probePathOk 10 h hd.live).mono
        fun ⟨r, g⟩ ⟨c, hc⟩ => ?_)
      dsimp only at hc; subst hc
      have hs : f.Steady { f with hidectr := c } (fun _ => False) (ops.hasUnlink = true) :=
        .setHidectr h c
      rcases r with _ | ⟨_, newname⟩
      · exact hs
      · show Post (if a.hideRes = 0 then _ else _) _ _
        split_ifs
        · obtain ⟨r2, g2, hg2, hI2, -, -, ho2⟩ :=
            @renameNode_spec _ dir dir name newname true a.hideStrdupOk (h.setHidectr c) hd
          rw [hg2]
          exact hs.trans (.of_keepsOpen hI2 (ho2 _) ((renameNode_hidesIf hg2).mono fun _ => hu))
        · exact hs
    · rw [if_neg hga]; exact .refl h
  · rw [if_neg hops]; exact .refl h

/-- UNLINK hides an open file or removes the node, and keeps every node the kernel holds. -/
theorem doUnlink_spec {dir : Nat} (h : Inv f) (hd : Held f dir) (a : Answers) :
    Post (doUnlink ops f dir name a) Fault.Hangs
      fun rgp => f.Steady rgp.2.1 (fun _ => False) (ops.hasUnlink = true) := by
  obtain ⟨o, ho⟩ := getPathName_ok_of_live h hd.live (some name) a.pathOk
  rw [doUnlink, ho, ok_bind]
  rcases o with _ | path
  · exact .refl h
  dsimp only
  split_ifs
  · exact .refl h
  · exact Post.bind ((hideNode_spec h hd a).mono fun _ hs => hs)
  · obtain ⟨g, hg, hI, -, -, ho⟩ := @removeNode_spec f dir name h
    rw [hg, ok_bind]; exact .of_keepsOpen hI (ho _) (removeNode_hidesIf hg)
  · exact .refl h

theorem doRmdir_spec {dir : Nat} (h : Inv f) (hd : Held f dir) (a : Answers) :
    Post (doRmdir ops f dir name a) Fault.Hangs fun rg => f.Steady rg.2 (fun _ => False) H := by
  obtain ⟨o, ho⟩ := getPathName_ok_of_live h hd.live (some name) a.pathOk
  rw [doRmdir, ho, ok_bind]
  rcases o with _ | _
  · exact .refl h
  dsimp only
  split_ifs
  · exact .refl h
  · obtain ⟨g, hg, hI, -, -, ho⟩ := @removeNode_spec f dir name h
    rw [hg]; exact .of_keepsOpen hI (ho _) (removeNode_hidesIf hg)
  · exact .refl h

/-- RENAME hides an open target, then renames, and keeps every node the kernel holds. -/
theorem doRename_spec {olddir newdir : Nat} {oldname newname : Name} (h : Inv f)
    (hold : Held f olddir) (hnew : Held f newdir) (a : Answers) :
    Post (doRename ops f olddir oldname newdir newname a) Fault.Hangs
      fun rg => f.Steady rg.2 (fun _ => False) (ops.hasUnlink = true) := by
  obtain ⟨o1, ho1⟩ := getPathName_ok_of_live h hold.live (some oldname) a.pathOk
  obtain ⟨o2, ho2⟩ := getPathName_ok_of_live h hnew.live (some newname) a.pathOk
  rw [doRename, ho1, ok_bind]
  rcases o1 with _ | _
  · exact .refl h
  dsimp only
  rw [ho2, ok_bind]
  rcases o2 with _ | _
  · exact .refl h
  dsimp only
  by_cases hr : (!ops.hasRename) = true
  · rw [if_pos hr]; exact .refl h
  rw [if_neg hr]
  -- once the target is out of the way: the user's rename, then `rename_node`
  have tail : ∀ g, f.Steady g (fun _ => False) (ops.hasUnlink = true) → ∀ res : Int,
      Post (if res ≠ 0 then pure (res, g) else if a.res ≠ 0 then pure (a.res, g)
        else renameNode g olddir oldname newdir newname false a.strdupOk) Fault.Hangs
        fun rg => f.Steady rg.2 (fun _ => False) (ops.hasUnlink = true) := by
    intro g hs res
    split_ifs
    · exact hs
    · exact hs
    · obtain ⟨r2, g2, hg2, hI2, -, -, ho2⟩ :=
        @renameNode_spec g olddir newdir oldname newname false a.strdupOk hs.inv (hs.held_of hnew id)
      rw [hg2]
      exact hs.trans (.of_keepsOpen hI2 (ho2 _) ((renameNode_hidesIf hg2).mono fun e => absurd e (by decide)))
  by_cases hh : (!f.flags.hardRemove && isOpen f newdir newname) = true
  · rw [if_pos hh]; exact Post.bind ((hideNode_spec h hnew a).mono fun ⟨res, g⟩ hs => tail g hs res)
  · rw [if_neg hh]; exact tail f (.refl h) 0

theorem doQuery_spec {q : Query} {i : Nat} (h : Inv f) (hi : Held f i) (pathOk : Bool) :
    Post (doQuery q f i pathOk) Fault.Hangs fun rg => f.Steady rg.2 (fun _ => False) H := by
  unfold doQuery
  split_ifs
  · obtain ⟨o, ho⟩ := getPathName_ok_of_live h hi.live none pathOk
    rw [getPath, ho]; exact .refl h
  · exact .refl h

end Handlers2

end Handlers

/-! ## The invariant of the loop -/

/-- The node of a directory handle is held, and `dh->node` is its address, set whenever
`readdir_ino` is. -/
def DirOpen.Valid (f : Fuse) (d : DirOpen) : Prop :=
  ∃ x n, f.heap x = some n ∧ n.nodeid = d.nodeid ∧ ¬ n.Forgotten ∧
    (∀ p, d.node = some p → p = x) ∧ (d.node = none → f.flags.readdirIno = false)

section DirOpen
variable {f g : Fuse} {d : DirOpen}

/-- A handler's frame keeps a handle valid unless it forgets the handle's node. -/
theorem DirOpen.Valid.steady {E : Nat → Prop} {H : Prop} (hd : d.Valid f) (hg : f.Steady g E H)
    (hE : ¬ E d.nodeid) : d.Valid g := by
  obtain ⟨x, n, hx, e, hf, hp, hn⟩ := hd
  obtain ⟨y, hy, hf', e', -⟩ := hg.held hx hf (e ▸ hE)
  exact ⟨x, y, hy, e'.trans e, hf', hp, fun h => hg.hides.flags ▸ hn h⟩

/-- Writing a record that keeps the id and the lookups keeps a handle valid. -/
theorem DirOpen.Valid.setNode {p : Ptr} {n n' : Node} (hd : d.Valid f) (hp : f.heap p = some n)
    (hid : n'.nodeid = n.nodeid) (hf : n'.Forgotten ↔ n.Forgotten) : d.Valid (f.setNode p n') := by
  obtain ⟨x, m, hx, e, hmf, hpt, hn⟩ := hd
  by_cases hxp : x = p
  · subst hxp; rw [hp, Option.some.injEq] at hx; subst hx
    exact ⟨x, n', by simp, hid.trans e, hf.not.2 hmf, hpt, hn⟩
  · exact ⟨x, m, by simp [hxp, hx], e, hmf, hpt, hn⟩

end DirOpen

/-- What holds between two requests in every run of the loop (see the module doc). -/
structure LoopInv (ops : LoopOps) (s : Loop) : Prop where
  dir : Inv s.dir
  opens : ∀ i, 0 < s.handles i → ∃ x n, s.dir.heap x = some n ∧ n.nodeid = i ∧ ¬ n.Forgotten ∧
    (s.handles i : Int) ≤ n.openCount
  nonneg : ∀ x n, s.dir.heap x = some n → 0 ≤ n.openCount
  hidden : ∀ x n, s.dir.heap x = some n → n.isHidden = true → ops.hasUnlink = true
  major : s.gotInit = true → 7 ≤ s.dir.major
  dirs : ∀ fh d, s.dirs fh = some d → d.Valid s.dir

section LoopInv
variable {ops : LoopOps} {kver : Nat} {s s' : Loop} {hdr : InHeader} {r : Request}

theorem LoopInv.start (flags : Flags) (owner : Nat) : LoopInv ops (Loop.start flags owner) where
  dir := Inv.fuseNew flags
  opens _ h := absurd h (Nat.lt_irrefl 0)
  nonneg _ _ hx := by obtain ⟨-, rfl⟩ := fuseNew_heap_eq_some.1 hx; decide
  hidden _ _ hx hy := by obtain ⟨-, rfl⟩ := fuseNew_heap_eq_some.1 hx; cases hy
  major h := by cases h
  dirs _ _ h := nomatch h

/-- A node's open count covers the files the kernel has open on it. -/
theorem LoopInv.handles_le (hs : LoopInv ops s) {x : Ptr} {n : Node} (hx : s.dir.heap x = some n) :
    (s.handles n.nodeid : Int) ≤ n.openCount := by
  rcases Nat.eq_zero_or_pos (s.handles n.nodeid) with h0 | hpos
  · rw [h0]; exact hs.nonneg x n hx
  · obtain ⟨z, m, hz, e, -, hle⟩ := hs.opens _ hpos
    obtain rfl := hs.dir.index.idUnique hz hx e
    rw [hx, Option.some.injEq] at hz; subst hz; exact hle

/-- **A request whose directory work is `Steady` keeps the invariant**, when it forgets no id
the kernel has open and hides only with `unlink`. -/
theorem LoopInv.of_steady {t : Loop} {E : Nat → Prop} (hs : LoopInv ops s)
    (hg : s.dir.Steady t.dir E (ops.hasUnlink = true)) (hE : ∀ i, E i → s.handles i = 0)
    (hE' : ∀ i, E i → ∀ fh d, s.dirs fh = some d → d.nodeid ≠ i)
    (hh : t.handles = s.handles) (hd : t.dirs = s.dirs) (hi : t.gotInit = s.gotInit) : LoopInv ops t where
  dir := hg.inv
  opens i hpos := by
    rw [hh] at hpos ⊢
    obtain ⟨x, n, hx, rfl, hf, hle⟩ := hs.opens _ hpos
    obtain ⟨y, hy, hf', e, o⟩ := hg.held hx hf fun hE' => absurd (hE _ hE') (Nat.pos_iff_ne_zero.1 hpos)
    exact ⟨x, y, hy, e, hf', by rw [o]; exact hle⟩
  nonneg x n hx := (hg.opens x n hx).elim (fun e => by rw [e])
    fun ⟨_, hy0, e⟩ => by rw [e]; exact hs.nonneg _ _ hy0
  hidden x n hx hn := (hg.hides.hidden hx hn).elim (fun ⟨_, hy0, e⟩ => hs.hidden _ _ hy0 e) id
  major h := hg.hides.major ▸ hs.major (hi ▸ h)
  dirs fh d h := by
    rw [hd] at h; exact (hs.dirs fh d h).steady hg fun e => hE' _ e fh d h rfl

/-- A new open count `c` at the node of `i`, covering the kernel's files on it, and the
kernel's files changed only on `i`. -/
theorem LoopInv.setCount {t : Loop} (hs : LoopInv ops s) {x : Ptr} {n : Node} (hx : s.dir.heap x = some n)
    (hf : ¬ n.Forgotten) {c : Int} (hc : 0 ≤ c) (hd : t.dir = s.dir.setNode x { n with openCount := c })
    (hk : (t.handles n.nodeid : Int) ≤ c) (hk' : ∀ j, j ≠ n.nodeid → t.handles j = s.handles j)
    (hdirs : t.dirs = s.dirs) (hi : t.gotInit = s.gotInit) : LoopInv ops t where
  dir := hd ▸ hs.dir.setNode hx _ rfl rfl Iff.rfl
  opens j hpos := by
    rw [hd]
    by_cases hj : j = n.nodeid
    · subst hj; exact ⟨x, { n with openCount := c }, by simp, rfl, hf, hk⟩
    · obtain ⟨z, m, hz, rfl, hmf, hle⟩ := hs.opens _ (hk' _ hj ▸ hpos)
      have hzx : z ≠ x := fun e => hj (by rw [e, hx, Option.some.injEq] at hz; rw [hz])
      exact ⟨z, m, by simp [hzx, hz], rfl, hmf, hk' _ hj ▸ hle⟩
  nonneg z m hz := by
    rw [hd] at hz
    simp only [Fuse.setNode_heap, update_eq_some] at hz
    rcases hz with ⟨-, ⟨⟩⟩ | ⟨-, hz⟩
    exacts [hc, hs.nonneg z m hz]
  hidden z m hz hm := by
    rw [hd] at hz
    simp only [Fuse.setNode_heap, update_eq_some] at hz
    rcases hz with ⟨rfl, ⟨⟩⟩ | ⟨-, hz⟩
    exacts [hs.hidden _ _ hx hm, hs.hidden z m hz hm]
  major h := by rw [hd]; exact hs.major (hi ▸ h)
  dirs fh d h := by
    rw [hdirs] at h; rw [hd]; exact (hs.dirs fh d h).setNode hx rfl Iff.rfl

/-- A handler whose directory work is `Steady` keeps the invariant. -/
theorem LoopInv.withDir (hs : LoopInv ops s) {x : Except Fault (Int × Fuse)}
    (hx : Post x Fault.Hangs fun rg => s.dir.Steady rg.2 (fun _ => False) (ops.hasUnlink = true)) :
    Post (s.withDir x) LoopFault.Hangs (LoopInv ops) := by
  cases x with
  | ok rg =>
    exact hs.of_steady (t := { s with dir := rg.2 }) hx (fun _ => False.elim) (fun _ => False.elim) rfl rfl rfl
  | error e => exact hx

/-- OPEN either counts one more open file at the node, or leaves the directory as it was
with no reply the kernel took. -/
theorem doOpen_spec {f : Fuse} {x : Ptr} {n : Node} (h : Inv f) (hx : f.heap x = some n) (a : Answers) :
    Post (doOpen ops f n.nodeid a) Fault.Hangs fun rg =>
      (rg.2.2 = f ∧ ¬ (rg.1 = 0 ∧ a.write = 0)) ∨
        rg.2.2 = f.setNode x { n with openCount := n.openCount + 1 } := by
  have hget := (getNodeNocheck_eq_some h.index).2 ⟨n, hx, rfl⟩
  obtain ⟨o, ho⟩ := getPathName_ok_of_live h ⟨x, n, hx, rfl⟩ none a.pathOk
  rw [doOpen, getPath, ho, ok_bind]
  rcases o with _ | _
  · exact .inl ⟨rfl, fun e => by simp [ENOENT] at e⟩
  dsimp only
  by_cases hres : (if ops.hasOpen = true then a.res else -ENOSYS) ≠ 0
  · rw [if_pos hres]; exact .inl ⟨rfl, fun e => hres e.1⟩
  rw [if_neg hres]
  by_cases hw : a.write = -ENOENT
  · simp only [openReply, if_pos hw, pure_eq_ok, ok_bind]
    exact .inl ⟨rfl, fun e => by rw [e.2] at hw; simp [ENOENT] at hw⟩
  · simp [openReply, hw, getNode, hget, Fuse.node, hx]

/-- An OPEN whose reply the kernel did not take leaves the directory as it was, and runs the
user's release once when the user's open succeeded and the filesystem has a release. -/
theorem doOpen_interrupted {f : Fuse} {x : Ptr} {n : Node} (h : Inv f) (hx : f.heap x = some n)
    {a : Answers} (hw : a.write = -ENOENT) :
    ∃ r, doOpen ops f n.nodeid a = .ok (r, if r = 0 ∧ ops.hasRelease = true then 1 else 0, f) := by
  obtain ⟨o, ho⟩ := getPathName_ok_of_live h ⟨x, n, hx, rfl⟩ none a.pathOk
  rw [doOpen, getPath, ho, ok_bind]
  rcases o with _ | _
  · exact ⟨-ENOENT, by simp [ENOENT]⟩
  dsimp only
  generalize (if ops.hasOpen = true then a.res else -ENOSYS) = res
  by_cases hres : res = 0
  · subst hres; exact ⟨0, by simp [openReply, hw]⟩
  · exact ⟨res, by simp [hres]⟩

theorem LoopInv.openFile (hs : LoopInv ops s) {i : Nat} (hi : Held s.dir i) (a : Answers) :
    Post (dispatch ops kver s hdr a (.openFile i)) LoopFault.Hangs (LoopInv ops) := by
  obtain ⟨x, n, hx, rfl, hf⟩ := hi
  have ho : Post (doOpen ops s.dir n.nodeid a) _ _ := doOpen_spec hs.dir hx a
  simp only [dispatch]
  revert ho
  cases doOpen ops s.dir n.nodeid a with
  | error e => exact id
  | ok rg =>
    rintro (⟨e, hk⟩ | e)
    · have : { s with dir := rg.2.2, handles := if rg.1 = 0 ∧ a.write = 0 then incr s.handles n.nodeid
          else s.handles } = s := by rw [e, if_neg hk]
      show LoopInv ops _
      rw [this]; exact hs
    · refine hs.setCount hx hf (by have := hs.nonneg x n hx; omega) e ?_ (fun j hj => ?_) rfl rfl
      · have := hs.handles_le hx
        split_ifs <;> simp [incr_apply] <;> omega
      · split_ifs <;> simp [incr_apply, hj]

/-- RELEASE of a file the kernel has open: the assertion holds, the count goes down with the
kernel's, and the unlink of a hidden file goes to a callback the filesystem has. -/
theorem LoopInv.release (hs : LoopInv ops s) {i : Nat} (hpos : 0 < s.handles i) (a : Answers) :
    Post (dispatch ops kver s hdr a (.release i)) LoopFault.Hangs (LoopInv ops) := by
  obtain ⟨x, n, hx, rfl, hf, hle⟩ := hs.opens _ hpos
  have hget := (getNodeNocheck_eq_some hs.dir.index).2 ⟨n, hx, rfl⟩
  have hc : ¬ n.openCount ≤ 0 := by omega
  have hI := hs.dir.setNode hx { n with openCount := n.openCount - 1 } rfl rfl Iff.rfl
  obtain ⟨o, ho⟩ : ∃ o, getPathName (s.dir.setNode x { n with openCount := n.openCount - 1 }) n.nodeid
      none a.pathOk = .ok o :=
    getPathName_ok_of_live hI ⟨x, { n with openCount := n.openCount - 1 }, by simp, rfl⟩ none a.pathOk
  -- whatever is unlinked, the counts went down together
  have hinv : ∀ u, LoopInv ops { s with
      dir := s.dir.setNode x { n with openCount := n.openCount - 1 }
      handles := Function.update s.handles n.nodeid (s.handles n.nodeid - 1)
      unlinks := u } :=
    fun _ => hs.setCount hx hf (by omega) rfl (by simp; omega) (fun j hj => by simp [hj]) rfl rfl
  -- the handler returns, whether it unlinks a hidden file or not
  have hrc : releaseCount s.dir n.nodeid = .ok (n.isHidden && n.openCount - 1 == 0,
      s.dir.setNode x { n with openCount := n.openCount - 1 }) := by
    simp only [releaseCount, getNode, hget, Fuse.node, hx, hc, ok_bind, if_false, pure_eq_ok]
  obtain ⟨u, hu⟩ : ∃ u, doRelease ops s.dir n.nodeid a.pathOk =
      .ok (s.dir.setNode x { n with openCount := n.openCount - 1 }, u) := by
    simp only [doRelease, hrc, mapError_ok, ok_bind, getPath, ho]
    cases hb : (n.isHidden && n.openCount - 1 == 0)
    · exact ⟨[], rfl⟩
    · have hun := hs.hidden x n hx (by simp only [Bool.and_eq_true] at hb; exact hb.1)
      cases o
      · exact ⟨[], rfl⟩
      · exact ⟨_, if_pos hun⟩
  simp only [dispatch, hu, ok_bind]
  exact hinv _

/-- OPENDIR on a node the kernel holds finds it, and keeps its address when `readdir_ino` is
set. -/
theorem doOpendir_spec {f : Fuse} {x : Ptr} {n : Node} (h : Inv f) (hx : f.heap x = some n) (a : Answers) :
    ∃ res node, doOpendir ops f n.nodeid a = .ok (res, node) ∧ (∀ p, node = some p → p = x) ∧
      (node = none → f.flags.readdirIno = false ∨ res ≠ 0) := by
  have hget : getNode f n.nodeid = .ok x := by
    simp [getNode, (getNodeNocheck_eq_some h.index).2 ⟨n, hx, rfl⟩]
  obtain ⟨o, ho⟩ : ∃ o, getPath f n.nodeid a.pathOk = .ok o :=
    getPathName_ok_of_live h ⟨x, n, hx, rfl⟩ none a.pathOk
  cases hc : a.callocOk
  · exact ⟨-ENOMEM, none, by simp [doOpendir, hc], nofun, fun _ => .inr (by decide)⟩
  -- the reply's error: the user's opendir on the path, when the filesystem has one
  have hres : ∀ node, (if ops.hasOpendir then do
      match ← getPath f n.nodeid a.pathOk with
      | none => pure (-ENOENT, node)
      | some _ => pure (a.res, node)
    else pure (0, node) : Except Fault (Int × Option Ptr)) =
      .ok (if ops.hasOpendir then o.elim (-ENOENT) fun _ => a.res else 0, node) := by
    intro node; cases ops.hasOpendir <;> cases o <;> simp [ho]
  cases hr : f.flags.readdirIno
  · exact ⟨_, none, by simp only [doOpendir, hc, hr]; exact hres none, nofun, fun _ => .inl rfl⟩
  · exact ⟨_, some x, by simp only [doOpendir, hc, hr, hget]; exact hres _,
      fun _ e => (Option.some.inj e).symm, nofun⟩

theorem LoopInv.opendir (hs : LoopInv ops s) {i : Nat} (hi : Held s.dir i) (a : Answers) :
    Post (dispatch ops kver s hdr a (.opendir i)) LoopFault.Hangs (LoopInv ops) := by
  obtain ⟨x, n, hx, rfl, hf⟩ := hi
  obtain ⟨res, node, hd, hpt, hnone⟩ := @doOpendir_spec ops _ _ _ hs.dir hx a
  simp only [dispatch, hd]
  split_ifs with h0
  · refine ⟨hs.dir, hs.opens, hs.nonneg, hs.hidden, hs.major, fun fh d hfh => ?_⟩
    by_cases e : fh = s.nextFh
    · subst e
      simp only [Function.update_same, Option.some.injEq] at hfh; subst hfh
      exact ⟨x, n, hx, rfl, hf, hpt, fun e => (hnone e).resolve_right (not_not.2 h0.1)⟩
    · exact hs.dirs fh d (by simpa [e] using hfh)
  · exact hs

/-- The reads of READDIR, RELEASEDIR and FSYNCDIR on a valid handle return. -/
theorem doReaddirNode_ok {f : Fuse} {d : DirOpen} (h : Inv f) (hd : d.Valid f) (fills pathOk : Bool) :
    doReaddirNode f d.nodeid d fills pathOk = .ok () := by
  obtain ⟨x, n, hx, e, -, hpt, hnone⟩ := hd
  obtain ⟨o, ho⟩ : ∃ o, getPath f d.nodeid pathOk = .ok o := getPathName_ok_of_live h ⟨x, n, hx, e⟩ none pathOk
  cases fills
  · rfl
  cases hn : d.node with
  | none => cases hr : f.flags.readdirIno <;> simp_all [doReaddirNode]
  | some p => obtain rfl := hpt p hn; simp [doReaddirNode, ho, hn, Fuse.node, hx]

theorem doDirPath_ok {f : Fuse} {d : DirOpen} (h : Inv f) (hd : d.Valid f) (hasOp pathOk : Bool) :
    doDirPath hasOp f d.nodeid pathOk = .ok () := by
  obtain ⟨x, n, hx, e, -⟩ := hd
  obtain ⟨o, ho⟩ : ∃ o, getPath f d.nodeid pathOk = .ok o := getPathName_ok_of_live h ⟨x, n, hx, e⟩ none pathOk
  cases hasOp <;> simp [doDirPath, ho]

theorem LoopInv.readdir (hs : LoopInv ops s) {i fh : Nat} (hr : ∃ d, s.dirs fh = some d ∧ d.nodeid = i)
    (a : Answers) : Post (dispatch ops kver s hdr a (.readdir i fh)) LoopFault.Hangs (LoopInv ops) := by
  obtain ⟨d, hd, rfl⟩ := hr
  simp only [dispatch, Loop.dirHandle, hd, ok_bind, doReaddirNode_ok hs.dir (hs.dirs fh d hd)]
  exact hs

theorem LoopInv.fsyncdir (hs : LoopInv ops s) {i fh : Nat} (hr : ∃ d, s.dirs fh = some d ∧ d.nodeid = i)
    (a : Answers) : Post (dispatch ops kver s hdr a (.fsyncdir i fh)) LoopFault.Hangs (LoopInv ops) := by
  obtain ⟨d, hd, rfl⟩ := hr
  simp only [dispatch, Loop.dirHandle, hd, ok_bind, doDirPath_ok hs.dir (hs.dirs fh d hd), mapError_ok]
  exact hs

/-- RELEASEDIR frees the handle, which the kernel gives up. -/
theorem LoopInv.releasedir (hs : LoopInv ops s) {i fh : Nat} (hr : ∃ d, s.dirs fh = some d ∧ d.nodeid = i)
    (a : Answers) : Post (dispatch ops kver s hdr a (.releasedir i fh)) LoopFault.Hangs (LoopInv ops) := by
  obtain ⟨d, hd, rfl⟩ := hr
  simp only [dispatch, Loop.dirHandle, hd, ok_bind, doDirPath_ok hs.dir (hs.dirs fh d hd), mapError_ok]
  refine ⟨hs.dir, hs.opens, hs.nonneg, hs.hidden, hs.major, fun fh' d' h => ?_⟩
  by_cases e : fh' = fh
  · subst e; simp at h
  · exact hs.dirs fh' d' (by simpa [e] using h)

/-- INIT negotiates a major of 7 or more. -/
theorem LoopInv.init (hs : LoopInv ops s) {padding major : Nat} (h7 : 7 ≤ initMajor kver padding major)
    (a : Answers) : Post (dispatch ops kver s hdr a (.init padding major)) LoopFault.Hangs (LoopInv ops) :=
  ⟨hs.dir.setMajor _, hs.opens, hs.nonneg, hs.hidden, fun _ => h7, hs.dirs⟩

/-- **Each handler keeps the invariant**, once `fuse_process_cmd` has let its request through. -/
theorem LoopInv.dispatch (hs : LoopInv ops s) (hr : r.Allowed kver s hdr)
    (hg : s.gotInit = true ∨ r.isInit = true) (a : Answers) :
    Post (dispatch ops kver s hdr a r) LoopFault.Hangs (LoopInv ops) := by
  have h7 : r.isInit = false → 7 ≤ s.dir.major := fun hi => hs.major (hg.resolve_right (by simp [hi]))
  cases r with
  | init padding major => exact hs.init hr a
  | forget _ _ | unknown => exact hs
  | lookup parent name => exact hs.withDir (doLookup_spec hs.dir hr.1 hr.2 (h7 rfl) a)
  | mknod parent name => exact hs.withDir (doCreate_spec hs.dir hr.1 hr.2 (h7 rfl) a)
  | mkdir parent name => exact hs.withDir (doCreate_spec hs.dir hr.1 hr.2 (h7 rfl) a)
  | symlink parent name => exact hs.withDir (doCreate_spec hs.dir hr.1 hr.2 (h7 rfl) a)
  | link oldnodeid parent name => exact hs.withDir (doLink_spec hs.dir hr.1 hr.2.1 hr.2.2 (h7 rfl) a)
  | rmdir dir name => exact hs.withDir (doRmdir_spec hs.dir hr a)
  | rename olddir oldname newdir newname => exact hs.withDir (doRename_spec hs.dir hr.1 hr.2 a)
  | query q nodeid => exact hs.withDir (doQuery_spec hs.dir hr a.pathOk)
  | openFile nodeid => exact hs.openFile hr a
  | opendir nodeid => exact hs.opendir hr a
  | readdir nodeid fh => exact hs.readdir hr a
  | releasedir nodeid fh => exact hs.releasedir hr a
  | fsyncdir nodeid fh => exact hs.fsyncdir hr a
  | release nodeid => exact hs.release hr a
  | unlink dir name =>
    have hu : Post (doUnlink ops s.dir dir name a) Fault.Hangs
        fun rgp => s.dir.Steady rgp.2.1 (fun _ => False) (ops.hasUnlink = true) := doUnlink_spec hs.dir hr a
    simp only [Loop.withDir, FuseCore.dispatch]
    revert hu
    cases doUnlink ops s.dir dir name a with
    | error e => exact id
    | ok rgp =>
      obtain ⟨-, g, paths⟩ := rgp
      exact fun hu => hs.of_steady (t := { s with dir := g, unlinks := s.unlinks ++ paths }) hu
        (fun _ => False.elim) (fun _ => False.elim) rfl rfl rfl

/-- **One request keeps the invariant**: FORGET, the two refusals, and each handler. -/
theorem LoopInv.step (hs : LoopInv ops s) (hr : r.Allowed kver s hdr) (a : Answers) :
    Post (processCmd ops kver s hdr r a) LoopFault.Hangs (LoopInv ops) := by
  by_cases hf : ∃ i c, r = .forget i c
  · obtain ⟨i, c, rfl⟩ := hf
    obtain ⟨g, hg, hI, ho, -⟩ := forgetOp_spec hs.dir hr.1
    simp only [processCmd, hg]
    exact hs.of_steady (t := { s with dir := g }) (.of_keepsOpen hI ho (forgetOp_hidesIf hg))
      (fun _ e => e ▸ hr.2.1) (fun _ e => e ▸ hr.2.2) rfl rfl rfl
  push_neg at hf
  rw [processCmd_gate a hf]
  split_ifs with h1 h2
  · exact hs
  · exact hs
  · refine hs.dispatch hr ?_ a
    cases hgi : s.gotInit
    · exact .inr (by simpa [hgi] using h1)
    · exact .inl rfl

end LoopInv

/-- The run lemma: the invariant holds in every state a run of the loop reaches. -/
theorem LoopReachable.loopInv {ops : LoopOps} {kver : Nat} {s : Loop} (hs : LoopReachable ops kver s) :
    LoopInv ops s := by
  induction hs with
  | start flags owner => exact .start flags owner
  | @step s s' hdr r a _ hr hp ih =>
    have := ih.step hr a
    rw [hp] at this
    exact this

/-- **No request the kernel sends aborts the process.** From every state a run of `fuse_loop`
reaches, with a kernel that keeps its guarantees and speaks protocol 7 or later, a request is
handled to its end, and the invariant holds after it; or it runs the loop of `next_id` or of
`hidden_name`, which end only when every id, or every hidden name of the node, is taken. No
handler aborts in `get_node` or `unhash_name`, fails an assertion, reads freed memory, or
calls `f->op.unlink` when the filesystem has none. -/
theorem loop_never_aborts {ops : LoopOps} {kver : Nat} {s : Loop} {hdr : InHeader} {r : Request}
    (hs : LoopReachable ops kver s) (hr : r.Allowed kver s hdr) (a : Answers) :
    (∀ e, processCmd ops kver s hdr r a = .error e → e = .fault .nextIdHangs ∨ e = .fault .hiddenNameHangs) ∧
      ∀ s', processCmd ops kver s hdr r a = .ok s' → LoopInv ops s' := by
  have h := hs.loopInv.step hr a
  constructor
  · intro e he
    rw [he] at h
    cases e with
    | fault e => rcases h with rfl | rfl <;> simp
    | nullCallback | nullNode => exact h.elim
  · intro s' hs'
    rw [hs'] at h
    exact h

/-- **A run of `fuse_loop` never aborts, and ends exactly at `fuse_exit`.** From every state
the loop reaches, along any reads for which the kernel keeps its guarantees, `fuse_loop`
handles every request it reads to its end, each time in a state the loop reaches, or hangs in
`next_id` or `hidden_name`. It returns iff one of the reads is a failure other than `EINTR`
and `ENOENT`, a short read or a `fuse_exit`; interrupted reads and failed allocations are
retried. -/
theorem fuseLoop_runs {ops : LoopOps} {kver : Nat} {s : Loop} {rds : List DevRead}
    (hs : LoopReachable ops kver s) (hk : Kept ops kver s rds) :
    Post (fuseLoop ops kver s rds) LoopFault.Hangs
      fun o => (o.isSome ↔ ∃ rd ∈ rds, rd.stops) ∧ ∀ s', o = some s' → LoopReachable ops kver s' := by
  induction rds generalizing s with
  | nil => simp [fuseLoop]
  | cons rd rds ih =>
    -- a read that does not stop the loop leaves the rest of the run to say when it stops
    have next : ∀ {s'}, LoopReachable ops kver s' → Kept ops kver s' rds → rd.stops = false →
        Post (fuseLoop ops kver s' rds) LoopFault.Hangs
          fun o => (o.isSome ↔ ∃ x ∈ rd :: rds, x.stops) ∧ ∀ s', o = some s' → LoopReachable ops kver s' :=
      fun hs' hk' hrd => (ih hs' hk').mono fun o ⟨ho, hr⟩ =>
        ⟨by simpa only [List.mem_cons, exists_eq_or_imp, hrd, Bool.false_eq_true, false_or] using ho, hr⟩
    -- a read that stops it returns the state it meets
    have stop : rd.stops = true →
        Post (.ok (some s) : Except LoopFault (Option Loop)) LoopFault.Hangs
          fun o => (o.isSome ↔ ∃ x ∈ rd :: rds, x.stops) ∧ ∀ s', o = some s' → LoopReachable ops kver s' :=
      fun hrd => ⟨by simp [hrd], fun _ e => by cases e; exact hs⟩
    cases rd with
    | request hdr r a =>
      obtain ⟨hr, hk⟩ := hk
      have h := hs.loopInv.step hr a
      simp only [fuseLoop]
      revert h
      cases hp : processCmd ops kver s hdr r a with
      | error e => exact id
      | ok s' => exact fun _ => next (.step hs hr hp) (hk s' hp) rfl
    | failed errno =>
      by_cases he : errno = EINTR ∨ errno = ENOENT
      · simp only [fuseLoop, if_pos he]
        exact next hs (hk he) (by simp only [DevRead.stops]; rcases he with e | e <;> simp [e])
      · simp only [fuseLoop, if_neg he]
        exact stop (by simp only [not_or] at he; simp [DevRead.stops, he])
    | short | exit => exact stop rfl
    | nomem => exact next hs hk rfl

theorem fuseLoop_runs_start :
    LoopReachable xmpOper 7 (Loop.start {} 0) ∧
      Kept xmpOper 7 (Loop.start {} 0)
        [.request ⟨1, 0⟩ (.init 0 7) ⟨0, 0, 0, fun _ => 1, 0, 0, true, true, true, true, true, fun _ => true⟩, .failed EINTR, .exit] ∧
      Post (fuseLoop xmpOper 7 (Loop.start {} 0)
          [.request ⟨1, 0⟩ (.init 0 7) ⟨0, 0, 0, fun _ => 1, 0, 0, true, true, true, true, true, fun _ => true⟩, .failed EINTR, .exit])
        LoopFault.Hangs fun o =>
          (o.isSome ↔ ∃ rd ∈ [.request ⟨1, 0⟩ (.init 0 7) ⟨0, 0, 0, fun _ => 1, 0, 0, true, true, true, true, true, fun _ => true⟩,
            .failed EINTR, .exit], DevRead.stops rd) ∧ ∀ s', o = some s' → LoopReachable xmpOper 7 s' :=
  have hk : Kept xmpOper 7 (Loop.start {} 0)
      [.request ⟨1, 0⟩ (.init 0 7) ⟨0, 0, 0, fun _ => 1, 0, 0, true, true, true, true, true, fun _ => true⟩, .failed EINTR, .exit] :=
    ⟨show 7 ≤ initMajor 7 0 7 by decide, fun _ _ _ => trivial⟩
  ⟨.start {} 0, hk, fuseLoop_runs (.start {} 0) hk⟩

/-! ## A run that hides an open file -/

/-- Answers under which every allocation, path and write succeeds and the user's callbacks
return 0; the first hidden name `hidden_name` probes is free. -/
def okAnswers : Answers := ⟨0, 0, 0, fun _ => -ENOENT, 0, 0, true, true, true, true, true, fun _ => true⟩

/-- INIT, a LOOKUP of `a` in the root, an OPEN of it, and an UNLINK of `a` while it is open,
which `hide_node` turns into a rename to a hidden name; then `fuse_exit`. -/
def hidingReads : List DevRead :=
  [.request ⟨1, 0⟩ (.init 0 7) okAnswers, .request ⟨2, 0⟩ (.lookup rootId [97]) okAnswers,
    .request ⟨3, 0⟩ (.openFile 2) okAnswers, .request ⟨4, 0⟩ (.unlink rootId [97]) okAnswers, .exit]

/-- The process `fuse_loop` leaves after `hidingReads`. -/
def hidingLoop : Loop :=
  match fuseLoop xmpOper 7 (Loop.start {} 0) hidingReads with
  | .ok (some s) => s
  | _ => Loop.start {} 0

theorem hidingLoop_reachable : LoopReachable xmpOper 7 hidingLoop := by
  have h0 : LoopReachable xmpOper 7 (Loop.start {} 0) := .start {} 0
  have h1 := @LoopReachable.step _ _ _ _ ⟨1, 0⟩ (.init 0 7) okAnswers h0
    (show 7 ≤ initMajor 7 0 7 by decide) rfl
  have h2 := @LoopReachable.step _ _ _ _ ⟨2, 0⟩ (.lookup rootId [97]) okAnswers h1
    ⟨⟨0, _, rfl, rfl, by decide⟩, by decide⟩ rfl
  have h3 := @LoopReachable.step _ _ _ _ ⟨3, 0⟩ (.openFile 2) okAnswers h2 ⟨1, _, rfl, rfl, by decide⟩ rfl
  exact @LoopReachable.step _ _ _ _ ⟨4, 0⟩ (.unlink rootId [97]) okAnswers h3 ⟨0, _, rfl, rfl, by decide⟩ rfl

theorem loop_never_aborts_release :
    LoopReachable xmpOper 7 hidingLoop ∧ (∃ p n, hidingLoop.dir.heap p = some n ∧ n.isHidden = true) ∧
      Request.Allowed 7 hidingLoop ⟨5, 0⟩ (.release 2) ∧
      (∀ e, processCmd xmpOper 7 hidingLoop ⟨5, 0⟩ (.release 2) okAnswers = .error e →
        e = .fault .nextIdHangs ∨ e = .fault .hiddenNameHangs) ∧
      ∀ s', processCmd xmpOper 7 hidingLoop ⟨5, 0⟩ (.release 2) okAnswers = .ok s' → LoopInv xmpOper s' :=
  have hr : Request.Allowed 7 hidingLoop ⟨5, 0⟩ (.release 2) := show 0 < hidingLoop.handles 2 by decide
  ⟨hidingLoop_reachable, ⟨1, _, rfl, rfl⟩, hr, loop_never_aborts hidingLoop_reachable hr okAnswers⟩

/-- The answers of `okAnswers`, but the reply's write fails with `ENOENT`: the kernel did not
take the reply. -/
def lostReply : Answers := { okAnswers with write := -ENOENT }

/-! ## Interrupted replies -/

/-- **An interrupted reply is undone, but for a legacy lookup that found its node.** From a
reachable state, a lookup-class request whose callbacks succeeded and whose reply is
interrupted either waits forever in `next_id` or leaves the same directory up to versions,
under the modern protocol, and under the legacy one when it created its node. An OPEN of a
live node whose reply is interrupted leaves the directory as it was, so every open count, and
runs the user's release once when the user's open succeeded and the filesystem has one. -/
theorem lookup_rollback {f : Fuse} (hf : Reachable f) {parent : Nat} {name : Name} {ino unique : Nat}
    {callocOk strdupOk : Bool} (hpar : Held f parent) (hv : unique ≠ 0)
    (hnew : 7 ≤ f.major ∨ lookupNode f parent name = none) :
    (lookupReply f parent name ino unique callocOk strdupOk (-ENOENT) = .error .nextIdHangs ∨
      ∃ g, lookupReply f parent name ino unique callocOk strdupOk (-ENOENT) = .ok g ∧ f.SameDir g) ∧
    ∀ (ops : LoopOps) (a : Answers) (nodeid : Nat), (∃ p n, f.heap p = some n ∧ n.nodeid = nodeid) →
      a.write = -ENOENT →
      ∃ r, doOpen ops f nodeid a = .ok (r, if r = 0 ∧ ops.hasRelease = true then 1 else 0, f) := by
  have h := hf.inv
  refine ⟨?_, fun ops a _ ⟨p, n, hp, hn⟩ hw => hn ▸ doOpen_interrupted h hp hw⟩
  cases hl : lookupNode f parent name with
  | some p =>
    obtain ⟨n, hp, he⟩ := @lookupReply_hit f parent name ino unique callocOk strdupOk p h hl
      (hnew.resolve_right (by simp [hl]))
    exact .inr ⟨_, he, .setVersion hp unique⟩
  | none =>
    cases callocOk with
    | false => exact .inr ⟨f, by simp [lookupReply, findNode_nomem hl], .refl f⟩
    | true =>
    cases strdupOk with
    | true => exact lookupReply_fresh h hpar hl hv
    | false =>
      cases hid : nextIdLoop f (2 ^ nodeidBits) f.ctr f.generation with
      | none => exact .inl (by simp [lookupReply, findNode_hang h.index hl hid])
      | some c =>
        obtain ⟨nid, gen⟩ := c
        exact .inr ⟨{ f with nextPtr := f.nextPtr + 1, ctr := nid, generation := gen },
          by simp [lookupReply, findNode_nostr h.index hl hid], ⟨rfl, rfl, fun _ => rfl⟩⟩

theorem lookup_rollback_dirA : Reachable dirA ∧ Held dirA rootId ∧ lookupNode dirA rootId [98] = none ∧
    (∃ g, lookupReply dirA rootId [98] 0 7 true true (-ENOENT) = .ok g ∧ dirA.SameDir g) ∧
    doOpen xmpOper dirA 2 lostReply = .ok (0, 1, dirA) ∧
    ∃ r, doOpen xmpOper dirA 2 lostReply = .ok (r, if r = 0 ∧ xmpOper.hasRelease = true then 1 else 0, dirA) :=
  have hpar : Held dirA rootId := ⟨0, _, rfl, rfl, by decide⟩
  have h := @lookup_rollback dirA reachable_dirA rootId [98] 0 7 true true hpar (by decide) (.inr rfl)
  have hl : ∃ g, lookupReply dirA rootId [98] 0 7 true true (-ENOENT) = .ok g := ⟨_, rfl⟩
  ⟨reachable_dirA, hpar, rfl, h.1.resolve_left (fun e => by obtain ⟨g, hg⟩ := hl; rw [hg] at e; cases e),
    rfl, h.2 xmpOper lostReply 2 ⟨1, _, rfl, rfl⟩ rfl⟩

end FuseCore
