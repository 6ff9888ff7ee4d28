import FuseCore.OpenCount

/-!
# Hiding an open file, over every interleaving (fuse.c:442-476, :574-633, :913-941)

`do_unlink` of a name whose node is open hides the node instead of unlinking it. Under
`f->lock`, `hidden_name` picks a name `.fuse_hiddenXXXXXXXXYYYYYYYY` that is free in the
directory; it then drops the lock, asks the user's getattr whether the name exists, calls the
user's rename, and only then takes the lock again for `rename_node(dir, name, dir, hidden, 1)`.
Other threads run in between. What keeps the picked name free and the node at `(dir, name)` is
`tree_lock`: UNLINK holds it for writing from before `hidden_name` to after `rename_node`, and
only a thread that holds it renames or removes a name (`Phase.writes`). FORGET, handled inline
by the reader, takes no lock; but the kernel holds the node an UNLINK is about until the reply
(`Sys.Unlinking`), and a FORGET of another node leaves every other key where it was
(`Fuse.KeepsNames`).

`HideInv` holds in every state the process reaches (`SysReachable.hideInv`): a thread in a
writer phase is the writer, and a thread between `hidden_name` and `rename_node`
(`Phase.hiding`) has a node at its entry and none at its hidden name. So `rename_node` finds
both as `hidden_name` left them (`hide_wins_race`). With `strdup` succeeding the node moves to
the hidden name, marked hidden; with it failing, `rename_node` returns `-ENOMEM` and leaves
the node under neither name (`hide_nomem_detaches`), the defect of `rename_nomem_detaches`.

`runThread_hide` says once what a thread's step does to the writer and to the keys; the step
lemma reads only it.
-/

namespace FuseCore

/-! ## Writers and hiders -/

/-- Whether a thread holds `tree_lock` for writing: UNLINK, from taking it to its reply. -/
def Phase.writes : Phase → Bool
  | .unlinkLocked _ _ | .unlinkPath _ _ _ | .unlinkCall _ _ _ | .unlinkRemove _ _
  | .hideProbe _ _ _ _ | .hideCheck _ _ _ _ _ | .hideRename _ _ _ _ _ | .hideNode _ _ _
  | .unlinkReply _ => true
  | _ => false

/-- The entry a hiding UNLINK moves and the hidden name it picked, from `hidden_name` to
`rename_node`. -/
def Phase.hiding : Phase → Option (Nat × Name × Name)
  | .hideCheck d name _ _ newname | .hideRename d name _ _ newname | .hideNode d name newname =>
    some (d, name, newname)
  | _ => none

/-- A hiding thread holds the write lock, and its entry is the one its UNLINK is about. -/
theorem Phase.hiding_spec {ph : Phase} {d : Nat} {name newname : Name}
    (h : ph.hiding = some (d, name, newname)) : ph.writes = true ∧ ph.victim = some (d, name) := by
  cases ph <;> simp only [Phase.hiding, Option.some.injEq, Prod.mk.injEq, reduceCtorEq] at h <;>
    obtain ⟨rfl, rfl, rfl⟩ := h <;> exact ⟨rfl, rfl⟩

/-- One thread's slot is set: every other slot keeps its phase. -/
theorem getElem?_set_some {l : List Phase} {k j : Nat} {b q : Phase} (h : (l.set k b)[j]? = some q) :
    (j = k ∧ q = b) ∨ (j ≠ k ∧ l[j]? = some q) := by
  rw [List.getElem?_set] at h
  split_ifs at h with e
  · exact .inl ⟨e.symm, (Option.some.inj h).symm⟩
  · exact .inr ⟨Ne.symm e, h⟩

/-- A request adds one thread after the others. -/
theorem getElem?_append_some {l : List Phase} {k : Nat} {b q : Phase} (h : (l ++ [b])[k]? = some q) :
    l[k]? = some q ∨ q = b := by
  rcases Nat.lt_or_ge k l.length with hk | hk
  · exact .inl (by rwa [List.getElem?_append_left hk] at h)
  · rw [List.getElem?_append_right hk] at h
    exact .inr (List.mem_singleton.1 (List.mem_iff_getElem?.2 ⟨_, h⟩))

@[simp] theorem Sys.reply_threads (s : Sys) (i : Nat) (r : Int) : (s.reply i r).threads = s.threads := by
  rw [Sys.reply_eq]

@[simp] theorem Sys.reply_writer (s : Sys) (i : Nat) (r : Int) : (s.reply i r).writer = s.writer := by
  rw [Sys.reply_eq]

@[simp] theorem Sys.reply_dir (s : Sys) (i : Nat) (r : Int) : (s.reply i r).dir = s.dir := by
  rw [Sys.reply_eq]

/-- A count written back keeps every key. -/
theorem Fuse.KeepsNames.setCount {f : Fuse} {p : Ptr} {n : Node} (hp : f.heap p = some n) (c : Int)
    (D : Ptr → Prop) : f.KeepsNames (f.setNode p { n with openCount := c }) D :=
  .setNode hp _ rfl fun hf _ => hf

/-! ## What a thread's step does to the writer and the keys -/

section Step
variable {ops : UserOps} {s s' : Sys} {k : Nat} {ph : Phase} {res : Int} {allocOk : Bool}

/-- Thread `k` moves from `ph` to `ph'`, keeping the writer and every key; the new phase writes
only if the old one did, and hides only what the old one hid. -/
structure Sys.Calm (s s' : Sys) (k : Nat) (ph ph' : Phase) : Prop where
  threads : s'.threads = s.threads.set k ph'
  writer : s'.writer = s.writer
  writes : ph'.writes = true → ph.writes = true
  hides : ph'.hiding = none ∨ ph'.hiding = ph.hiding
  keeps : s.dir.KeepsNames s'.dir fun _ => False

theorem Sys.Calm.write {ph' : Phase} {g : Fuse} {l : Option Nat} {r : Nat} {u : List Path}
    (hk : s.dir.KeepsNames g fun _ => False) (hw : ph'.writes = true → ph.writes = true)
    (hh : ph'.hiding = none ∨ ph'.hiding = ph.hiding) :
    s.Calm { s with dir := g, threads := s.threads.set k ph', lock := l, readers := r, unlinks := u }
      k ph ph' :=
  ⟨rfl, rfl, hw, hh, hk⟩

/-- **What a thread's step can do to the writer and the keys**: abort the process; take the
write lock, which nobody holds (UNLINK starting); release it (UNLINK's reply); pick a free
hidden name for the node at the entry (`hidden_name`); rename or remove under the write lock,
into a phase that hides nothing; or keep the writer and every key (`Sys.Calm`). -/
theorem runThread_hide (hrun : s.runThread ops k res allocOk ph = some s') :
    s' = s.crash ∨
    (∃ d name, ph = .unlinkStart d name ∧ s.writer = none ∧
      s' = { s.setPhase k (.unlinkLocked d name) with writer := some k }) ∨
    (∃ r, ph = .unlinkReply r ∧ s' = { s.setPhase k .finished with writer := none }) ∨
    (∃ d name path fc newname c, ph = .hideProbe d name path fc ∧ (lookupNode s.dir d name).isSome ∧
      lookupNode s.dir d newname = none ∧
      s' = { s.setPhase k (.hideCheck d name path fc newname) with dir := { s.dir with hidectr := c } }) ∨
    (∃ ph', s'.threads = s.threads.set k ph' ∧ s'.writer = s.writer ∧ ph.writes = true ∧
      ph'.hiding = none) ∨
    (∃ ph', s.Calm s' k ph ph') := by
  have keep := Fuse.KeepsNames.refl s.dir fun _ => False
  cases ph with
  | openStart i =>
    simp only [Sys.runThread] at hrun
    split at hrun <;> cases hrun
    exact .inr (.inr (.inr (.inr (.inr ⟨_, .write keep (fun h => nomatch h) (.inl rfl)⟩))))
  | openLocked i =>
    simp only [Sys.runThread] at hrun
    split at hrun <;> cases hrun
    split
    · exact .inl rfl
    all_goals exact .inr (.inr (.inr (.inr (.inr ⟨_, .write keep (fun h => nomatch h) (.inl rfl)⟩))))
  | openCalled i r =>
    simp only [Sys.runThread] at hrun
    split at hrun
    · split at hrun <;> cases hrun
      exact .inr (.inr (.inr (.inr (.inr ⟨.openSent i res, ⟨by simp [Sys.setPhase], by simp [Sys.setPhase],
        (fun h => nomatch h), .inl rfl, by simpa [Sys.setPhase] using keep⟩⟩))))
    · cases hrun
      exact .inr (.inr (.inr (.inr (.inr ⟨_, .write keep (fun h => nomatch h) (.inl rfl)⟩))))
  | openSent i r =>
    simp only [Sys.runThread] at hrun
    split at hrun
    · cases hrun
      exact .inr (.inr (.inr (.inr (.inr ⟨_, .write keep (fun h => nomatch h) (.inl rfl)⟩))))
    · cases hrun
      split
      next g hg =>
        obtain ⟨p, n, -, hn, rfl⟩ := openIncrement_eq hg
        exact .inr (.inr (.inr (.inr (.inr ⟨_, .write (.setCount hn _ _) (fun h => nomatch h) (.inl rfl)⟩))))
      next => exact .inl rfl
  | openDone =>
    simp only [Sys.runThread] at hrun
    cases hrun
    exact .inr (.inr (.inr (.inr (.inr ⟨_, .write keep (fun h => nomatch h) (.inl rfl)⟩))))
  | releaseStart i =>
    simp only [Sys.runThread] at hrun
    split at hrun
    · cases hrun
    · cases hrun
      split
      next uh g hg =>
        obtain ⟨p, n, -, hn, -, rfl⟩ := releaseCount_eq hg
        exact .inr (.inr (.inr (.inr (.inr ⟨.releaseCounted i uh, ⟨rfl, rfl, (fun h => nomatch h), .inl rfl,
          .setCount hn _ _⟩⟩))))
      next => exact .inl rfl
  | releaseCounted i uh =>
    simp only [Sys.runThread] at hrun
    split at hrun <;> cases hrun
    exact .inr (.inr (.inr (.inr (.inr ⟨_, .write keep (fun h => nomatch h) (.inl rfl)⟩))))
  | releaseLocked i uh =>
    simp only [Sys.runThread] at hrun
    split at hrun <;> cases hrun
    split
    · exact .inl rfl
    · exact .inr (.inr (.inr (.inr (.inr ⟨_, .write keep (fun h => nomatch h) (.inl rfl)⟩))))
  | releasePath i uh path =>
    simp only [Sys.runThread] at hrun
    cases hrun
    exact .inr (.inr (.inr (.inr (.inr ⟨_, .write keep (fun h => nomatch h) (.inl rfl)⟩))))
  | unlinkStart d name =>
    simp only [Sys.runThread] at hrun
    split at hrun
    · cases hrun
    · rename_i hw
      cases hrun
      exact .inr (.inl ⟨d, name, rfl, Option.not_isSome_iff_eq_none.1 fun e => hw (.inl e), rfl⟩)
  | unlinkLocked d name =>
    simp only [Sys.runThread] at hrun
    split at hrun <;> cases hrun
    split
    · exact .inl rfl
    · exact .inr (.inr (.inr (.inr (.inr ⟨_, .write keep (fun _ => rfl) (.inl rfl)⟩))))
    · exact .inr (.inr (.inr (.inr (.inr ⟨_, .write keep (fun _ => rfl) (.inl (by split <;> rfl))⟩))))
  | unlinkPath d name path =>
    simp only [Sys.runThread] at hrun
    split at hrun
    · cases hrun
      exact .inr (.inr (.inr (.inr (.inr ⟨_, .write keep (fun _ => rfl) (.inl rfl)⟩))))
    · split at hrun <;> cases hrun
      exact .inr (.inr (.inr (.inr (.inr ⟨_, .write keep (fun _ => rfl) (.inl (by split_ifs <;> rfl))⟩))))
  | unlinkCall d name path =>
    simp only [Sys.runThread] at hrun
    cases hrun
    exact .inr (.inr (.inr (.inr (.inr ⟨_, .write keep (fun _ => rfl) (.inl (by split <;> rfl))⟩))))
  | unlinkRemove d name =>
    simp only [Sys.runThread] at hrun
    split at hrun <;> cases hrun
    split
    · exact .inr (.inr (.inr (.inr (.inl ⟨_, rfl, rfl, rfl, rfl⟩))))
    · exact .inl rfl
  | hideProbe d name path fc =>
    simp only [Sys.runThread] at hrun
    split at hrun
    · cases hrun
      exact .inr (.inr (.inr (.inr (.inr ⟨_, .write keep (fun _ => rfl) (.inl rfl)⟩))))
    · split at hrun
      · cases hrun
      · split at hrun
        · cases hrun
        · cases hrun; exact .inl rfl
        · cases hrun
          exact .inr (.inr (.inr (.inr (.inr ⟨_, .write keep (fun _ => rfl) (.inl rfl)⟩))))
        next newname g hg =>
          cases hrun
          obtain ⟨hl, hfree, c, rfl⟩ := hiddenProbe_some hg
          exact .inr (.inr (.inr (.inl ⟨d, name, path, fc, newname, c, rfl, hl, hfree, rfl⟩)))
  | hideCheck d name path fc newname =>
    simp only [Sys.runThread] at hrun
    split at hrun <;> cases hrun
    split
    · exact .inl rfl
    · exact .inr (.inr (.inr (.inr (.inr ⟨_, .write keep (fun _ => rfl) (.inl rfl)⟩))))
    · exact .inr (.inr (.inr (.inr (.inr ⟨_, .write keep (fun _ => rfl) (by split_ifs <;> simp [Phase.hiding])⟩))))
  | hideRename d name path newpath newname =>
    simp only [Sys.runThread] at hrun
    cases hrun
    exact .inr (.inr (.inr (.inr (.inr ⟨_, .write keep (fun _ => rfl) (by split <;> simp [Phase.hiding])⟩))))
  | hideNode d name newname =>
    simp only [Sys.runThread] at hrun
    split at hrun <;> cases hrun
    split
    · exact .inr (.inr (.inr (.inr (.inl ⟨_, rfl, rfl, rfl, rfl⟩))))
    · exact .inl rfl
  | unlinkReply r =>
    simp only [Sys.runThread] at hrun
    cases hrun
    exact .inr (.inr (.inl ⟨r, rfl, rfl⟩))
  | finished => simp [Sys.runThread] at hrun

end Step

/-! ## The invariant -/

/-- What holds in every state the process reaches, besides `OpenInv`: a thread in a writer
phase is the writer, and a thread between `hidden_name` and `rename_node` has a node at its
entry and none at its hidden name. -/
structure HideInv (s : Sys) extends OpenInv s : Prop where
  writer : ∀ {k : Nat} {ph : Phase}, s.threads[k]? = some ph → ph.writes = true → s.writer = some k
  hidden : ∀ {k : Nat} {ph : Phase} {d : Nat} {name newname : Name}, s.threads[k]? = some ph →
    ph.hiding = some (d, name, newname) →
    (lookupNode s.dir d name).isSome ∧ lookupNode s.dir d newname = none

/-- An entry whose node `D` does not name keeps it, and a free key stays free. -/
theorem Fuse.KeepsNames.entries {f g : Fuse} {D : Ptr → Prop} (hf : Inv f) (hg : IndexInv g)
    (hk : f.KeepsNames g D) {d : Nat} {name newname : Name}
    (h : (lookupNode f d name).isSome ∧ lookupNode f d newname = none)
    (hD : ∀ x, lookupNode f d name = some x → ¬ D x) :
    (lookupNode g d name).isSome ∧ lookupNode g d newname = none := by
  obtain ⟨x, hx⟩ := Option.isSome_iff_exists.1 h.1
  exact ⟨by rw [hk.lookupNode_some hf hg hx (hD x hx)]; rfl, hk.lookupNode_none hf.index hg h.2⟩

section Steps
variable {ops : UserOps} {s s' : Sys} {k : Nat} {ph ph' : Phase}

theorem HideInv.start {f : Fuse} (hf : Reachable f) : HideInv (Sys.start f) :=
  { OpenInv.start hf with
    writer := fun hk => by simp [Sys.start] at hk
    hidden := fun hk => by simp [Sys.start] at hk }

theorem HideInv.crash (h : HideInv s) : HideInv s.crash :=
  { h.toOpenInv.crash with writer := h.writer, hidden := h.hidden }

/-- The kernel sends a request: a new thread that neither writes nor hides. -/
theorem HideInv.request (h : HideInv s) (ho : OpenInv s') {b : Phase}
    (hth : s'.threads = s.threads ++ [b]) (hw : s'.writer = s.writer) (hd : s'.dir = s.dir)
    (hb : b.writes = false) (hbh : b.hiding = none) : HideInv s' := by
  refine { ho with writer := fun hj hq => ?_, hidden := fun hj hq => ?_ }
  · rw [hth] at hj
    rcases getElem?_append_some hj with hj | rfl
    · rw [hw]; exact h.writer hj hq
    · rw [hb] at hq; cases hq
  · rw [hth] at hj
    rcases getElem?_append_some hj with hj | rfl
    · rw [hd]; exact h.hidden hj hq
    · rw [hbh] at hq; cases hq

/-- A FORGET of a node no UNLINK is about. -/
theorem HideInv.forget {g : Fuse} {i : Nat} (h : HideInv s) (ho : OpenInv { s with dir := g })
    (hk : s.dir.KeepsNames g (s.dir.IdAt i)) (hu : ¬ s.Unlinking i) : HideInv { s with dir := g } :=
  { ho with
    writer := h.writer
    hidden := fun {j q d name _} hj hq => hk.entries h.dir ho.dir.index (h.hidden hj hq)
      fun x hx hD => hu ⟨q, List.mem_iff_getElem?.2 ⟨j, hj⟩, d, name, x, (Phase.hiding_spec hq).2, hx, hD⟩ }

/-- UNLINK takes the write lock, which no thread held. -/
theorem HideInv.takeWriter {d : Nat} {name : Name} (h : HideInv s)
    (ho : OpenInv { s.setPhase k (.unlinkLocked d name) with writer := some k }) (hw : s.writer = none) :
    HideInv { s.setPhase k (.unlinkLocked d name) with writer := some k } := by
  have quiet : ∀ {j : Nat} {q : Phase}, s.threads[j]? = some q → q.writes = false := fun {_ q} hq => by
    cases e : q.writes
    · rfl
    · have := h.writer hq e; rw [hw] at this; cases this
  refine { ho with writer := fun hj hq => ?_, hidden := fun hj hq => ?_ }
  · rcases getElem?_set_some hj with ⟨rfl, -⟩ | ⟨-, hj⟩
    · rfl
    · rw [quiet hj] at hq; cases hq
  · rcases getElem?_set_some hj with ⟨-, rfl⟩ | ⟨-, hj⟩
    · cases hq
    · have := quiet hj; rw [(Phase.hiding_spec hq).1] at this; cases this

/-- UNLINK replies and releases the write lock: no thread writes any more. -/
theorem HideInv.dropWriter {r : Int} (h : HideInv s)
    (ho : OpenInv { s.setPhase k .finished with writer := none }) (hk : s.threads[k]? = some (.unlinkReply r)) :
    HideInv { s.setPhase k .finished with writer := none } := by
  have only : ∀ {j : Nat} {q : Phase}, s.threads[j]? = some q → q.writes = true → j = k := fun hq e =>
    Option.some.inj ((h.writer hq e).symm.trans (h.writer hk rfl))
  refine { ho with writer := fun hj hq => ?_, hidden := fun hj hq => ?_ }
  · rcases getElem?_set_some hj with ⟨-, rfl⟩ | ⟨hne, hj⟩
    · cases hq
    · exact absurd (only hj hq) hne
  · rcases getElem?_set_some hj with ⟨-, rfl⟩ | ⟨hne, hj⟩
    · cases hq
    · exact absurd (only hj (Phase.hiding_spec hq).1) hne

/-- `hidden_name` picks a free name for the node at the entry. -/
theorem HideInv.pick {d fc c : Nat} {name newname : Name} {path : Path} (h : HideInv s)
    (ho : OpenInv { s.setPhase k (.hideCheck d name path fc newname) with dir := { s.dir with hidectr := c } })
    (hk : s.threads[k]? = some (.hideProbe d name path fc)) (hl : (lookupNode s.dir d name).isSome)
    (hfree : lookupNode s.dir d newname = none) :
    HideInv { s.setPhase k (.hideCheck d name path fc newname) with dir := { s.dir with hidectr := c } } := by
  refine { ho with writer := fun hj hq => ?_, hidden := fun hj hq => ?_ }
  · rcases getElem?_set_some hj with ⟨rfl, -⟩ | ⟨-, hj⟩
    · exact h.writer hk rfl
    · exact h.writer hj hq
  · rcases getElem?_set_some hj with ⟨-, rfl⟩ | ⟨-, hj⟩
    · simp only [Phase.hiding, Option.some.injEq, Prod.mk.injEq] at hq
      obtain ⟨rfl, rfl, rfl⟩ := hq
      exact ⟨hl, hfree⟩
    · exact h.hidden hj hq

/-- The writer renames or removes a name, into a phase that hides nothing: no other thread is
between `hidden_name` and `rename_node`. -/
theorem HideInv.rename (h : HideInv s) (ho : OpenInv s') (hk : s.threads[k]? = some ph)
    (hth : s'.threads = s.threads.set k ph') (hw : s'.writer = s.writer) (hph : ph.writes = true)
    (hh : ph'.hiding = none) : HideInv s' := by
  have hwk : s.writer = some k := h.writer hk hph
  refine { ho with writer := fun hj hq => ?_, hidden := fun hj hq => ?_ }
  · rw [hth] at hj; rw [hw]
    rcases getElem?_set_some hj with ⟨rfl, -⟩ | ⟨-, hj⟩
    · exact hwk
    · exact h.writer hj hq
  · rw [hth] at hj
    rcases getElem?_set_some hj with ⟨-, rfl⟩ | ⟨hne, hj⟩
    · rw [hh] at hq; cases hq
    · exact absurd (Option.some.inj ((h.writer hj (Phase.hiding_spec hq).1).symm.trans hwk)) hne

theorem HideInv.calm (h : HideInv s) (ho : OpenInv s') (hk : s.threads[k]? = some ph)
    (hc : s.Calm s' k ph ph') : HideInv s' := by
  refine { ho with writer := fun hj hq => ?_, hidden := fun hj hq => ?_ }
  · rw [hc.threads] at hj; rw [hc.writer]
    rcases getElem?_set_some hj with ⟨rfl, rfl⟩ | ⟨-, hj⟩
    · exact h.writer hk (hc.writes hq)
    · exact h.writer hj hq
  · rw [hc.threads] at hj
    refine hc.keeps.entries h.dir ho.dir.index ?_ fun _ _ e => e
    rcases getElem?_set_some hj with ⟨rfl, rfl⟩ | ⟨-, hj⟩
    · rcases hc.hides with e | e
      · rw [e] at hq; cases hq
      · exact h.hidden hk (e ▸ hq)
    · exact h.hidden hj hq

/-- **Every step keeps the invariant.** -/
theorem HideInv.step (h : HideInv s) (hst : Step ops s s') : HideInv s' := by
  have ho := h.toOpenInv.step hst
  cases hst with
  | openReq => exact h.request ho rfl rfl rfl rfl rfl
  | releaseReq => exact h.request ho rfl rfl rfl rfl rfl
  | unlinkReq => exact h.request ho rfl rfl rfl rfl rfl
  | forget _ _ _ hu ha =>
    obtain ⟨g, hg, -, -, hk⟩ := forgetOp_spec h.dir ha
    rw [hg] at ho ⊢
    exact h.forget ho hk hu
  | thread _ hk hrun =>
    rcases runThread_hide hrun with rfl | ⟨d, name, rfl, hw, rfl⟩ | ⟨r, rfl, rfl⟩ |
      ⟨d, name, path, fc, newname, c, rfl, hl, hfree, rfl⟩ | ⟨ph', hth, hw, hph, hh⟩ | ⟨ph', hc⟩
    · exact h.crash
    · exact h.takeWriter ho hw
    · exact h.dropWriter ho hk
    · exact h.pick ho hk hl hfree
    · exact h.rename ho hk hth hw hph hh
    · exact h.calm ho hk hc

theorem SysReachable.hideInv (hs : SysReachable ops s) : HideInv s := by
  induction hs with
  | start hf => exact .start hf
  | step _ hst ih => exact ih.step hst

end Steps

/-! ## `rename_node` onto the hidden name -/

/-- `rename_node` with `hide`, from an entry that has a node onto a name of the same directory
that has none, in a directory the kernel holds. With `strdup` succeeding it returns 0 with the
node, the same one, at the new name, marked hidden, and the old name free; with `strdup`
failing it returns `-ENOMEM` with both names free. -/
theorem renameNode_hide {f : Fuse} {d : Nat} {name newname : Name} {x : Ptr} {n : Node} (h : Inv f)
    (hd : Held f d) (hx : lookupNode f d name = some x) (hn : f.heap x = some n)
    (hfree : lookupNode f d newname = none) :
    (∃ g m, renameNode f d name d newname true true = .ok (0, g) ∧ g.heap x = some m ∧
      m.nodeid = n.nodeid ∧ m.isHidden = true ∧ lookupNode g d newname = some x ∧
      lookupNode g d name = none) ∧
    ∃ g, renameNode f d name d newname true false = .ok (-ENOMEM, g) ∧
      lookupNode g d name = none ∧ lookupNode g d newname = none := by
  obtain ⟨n0, hn0, hr, hpar, hs⟩ := (lookupNode_eq_some h.index).1 hx
  rw [hn, Option.some.injEq] at hn0; subst hn0
  obtain ⟨g2, hg2, hI2, hR2, hu⟩ := unhashName_spec h.index h.refs hn hr
  obtain ⟨n2, hn2, hn2n⟩ := hu.detached
  obtain ⟨n0, hn0, hid2, -⟩ := hu.frame hn2
  rw [hn, Option.some.injEq] at hn0; subst hn0
  -- once the node is detached, neither key has a node
  have hname2 : ∀ z y, g2.heap z = some y → y.name = some name → y.parent ≠ d :=
    hu.keyFree fun z y hz hy e => h.index.keyUnique hz hn (by simp [hy]) (hy.trans hs.symm) (e.trans hpar.symm)
  have hnew2 : ∀ z y, g2.heap z = some y → y.name = some newname → y.parent ≠ d :=
    hu.keyFree fun z y hz hy e => absurd e (h.key_free hfree (hd.ne_zero h.index) z y hz hy)
  have hrec : ({ n2 with name := none } : Node) = n2 := by cases n2; simp_all
  refine ⟨?_, g2, by simp [renameNode, hx, hfree, hg2, hashName_eq_fail hn2, hrec, Fuse.setNode_self hn2],
    (lookupNode_eq_none hI2).2 fun z y hz _ hp hs => hname2 z y hz hs hp,
    (lookupNode_eq_none hI2).2 fun z y hz _ hp hs => hnew2 z y hz hs hp⟩
  -- `hash_name` attaches it under the new name, and `rename_node` marks it hidden
  obtain ⟨q0, m0, hq0, hm0, hmf0⟩ := hd
  obtain ⟨m2, hm2, hidm2⟩ := hu.live hq0 hmf0
  have hnf : ¬ n.Forgotten := h.not_forgotten hn (by simp [hs])
  obtain ⟨g3, hg3, h3, -, -, -, hkb, n3, hn3, hid3, hname3, hpar3⟩ := hashName_spec ⟨hI2, hR2⟩ hn2 hn2n
    ((Node.nodeid_of_ident hid2).trans_ne hr) ((Node.Forgotten.of_ident hid2).not.2 hnf)
    ⟨q0, m2, hm2, (Node.nodeid_of_ident hidm2).trans hm0, (Node.Forgotten.of_ident hidm2).not.2 hmf0⟩ hnew2
  have hid : n3.nodeid = n.nodeid := (Node.nodeid_of_ident hid3).trans (Node.nodeid_of_ident hid2)
  have hI : IndexInv (g3.setNode x { n3 with isHidden := true }) := (h3.setNode hn3 { n3 with isHidden := true } rfl rfl Iff.rfl).index
  refine ⟨_, { n3 with isHidden := true }, by simp [renameNode, hx, hfree, hg2, hg3, Fuse.node, hn3],
    by simp, hid, rfl,
    (lookupNode_eq_some hI).2 ⟨{ n3 with isHidden := true }, by simp, hid ▸ hr, hpar3, hname3⟩,
    (lookupNode_eq_none hI).2 fun z y hz _ hp hs' => ?_⟩
  by_cases hzx : z = x
  · subst hzx
    simp only [Fuse.setNode_heap, Function.update_same, Option.some.injEq] at hz; subst hz
    rw [Option.some.inj (hname3.symm.trans hs'), hx] at hfree
    cases hfree
  · simp only [Fuse.setNode_heap, Function.update_noteq hzx] at hz
    obtain ⟨y0, hy0, e⟩ := hkb hz hzx
    obtain ⟨-, e2, e3⟩ := Node.key_eq e
    exact hname2 z y0 hy0 (e2.trans hs') (e3.trans hp)

/-! ## Hiding cannot lose its race -/

/-- A thread at `rename_node` finds a node at its entry and none at its hidden name. -/
theorem HideInv.hideNode {s : Sys} {k d : Nat} {name newname : Name} (h : HideInv s)
    (hk : s.threads[k]? = some (.hideNode d name newname)) :
    ∃ x n, lookupNode s.dir d name = some x ∧ s.dir.heap x = some n ∧
      lookupNode s.dir d newname = none := by
  obtain ⟨hl, hfree⟩ := h.hidden hk rfl
  obtain ⟨x, hx⟩ := Option.isSome_iff_exists.1 hl
  obtain ⟨n, hn, -⟩ := (lookupNode_eq_some h.dir.index).1 hx
  exact ⟨x, n, hx, hn, hfree⟩

/-- **Hiding cannot lose its race.** In every state the process reaches from a directory the
directory operations built, an UNLINK that comes to `rename_node(dir, name, dir, hidden, 1)`,
after `hidden_name` picked `hidden` and the user's rename succeeded, finds a node at
`(dir, name)` and none at `(dir, hidden)`, whatever the other threads and the kernel did in
between. So the rename neither returns `-EBUSY` nor returns 0 without moving the node: with
`strdup` succeeding it returns 0 with the same node at `(dir, hidden)`, marked hidden, and
`(dir, name)` free; with `strdup` failing it returns `-ENOMEM`, and the node is under neither
name. -/
theorem hide_wins_race {ops : UserOps} {s : Sys} {k d : Nat} {name newname : Name}
    (hs : SysReachable ops s) (hk : s.threads[k]? = some (.hideNode d name newname)) :
    ∃ x n, lookupNode s.dir d name = some x ∧ s.dir.heap x = some n ∧
      lookupNode s.dir d newname = none ∧
      (∃ g m, renameNode s.dir d name d newname true true = .ok (0, g) ∧ g.heap x = some m ∧
        m.nodeid = n.nodeid ∧ m.isHidden = true ∧ lookupNode g d newname = some x ∧
        lookupNode g d name = none) ∧
      ∃ g, renameNode s.dir d name d newname true false = .ok (-ENOMEM, g) ∧
        lookupNode g d name = none ∧ lookupNode g d newname = none := by
  have h := hs.hideInv
  obtain ⟨x, n, hx, hn, hfree⟩ := h.hideNode hk
  exact ⟨x, n, hx, hn, hfree, renameNode_hide h.dir (h.held_of_thread hk rfl) hx hn hfree⟩

/-- In `dirA`, an OPEN of `a` runs to its end; then an UNLINK of `a` finds it open, picks a
hidden name that the user's getattr does not find, and the user's rename succeeds: the UNLINK
is at `rename_node`, and the kernel holds the open file. -/
theorem dirA_hiding : ∃ s newname, SysReachable ⟨true, true, true, true⟩ s ∧
    s.threads[1]? = some (.hideNode rootId [97] newname) ∧ s.lock = none ∧ s.crashed = false ∧
    s.handles 2 = 1 := by
  have h0 : SysReachable ⟨true, true, true, true⟩ (Sys.start dirA) := .start reachable_dirA
  have h1 := h0.step (@Step.openReq _ _ 2 rfl ⟨1, _, rfl, rfl, fun h => absurd h.2 (by decide)⟩)
  have h2 := h1.step (@Step.thread _ _ _ 0 _ 0 true rfl rfl rfl)
  have h3 := h2.step (@Step.thread _ _ _ 0 _ 0 true rfl rfl rfl)
  have h4 := h3.step (@Step.thread _ _ _ 0 _ 0 true rfl rfl rfl)
  have h5 := h4.step (@Step.thread _ _ _ 0 _ 0 true rfl rfl rfl)
  have h6 := h5.step (@Step.thread _ _ _ 0 _ 0 true rfl rfl rfl)
  have h7 := h6.step (@Step.unlinkReq _ _ rootId [97] rfl ⟨0, _, rfl, rfl, fun h => h.1 rfl⟩)
  have h8 := h7.step (@Step.thread _ _ _ 1 _ 0 true rfl rfl rfl)
  have h9 := h8.step (@Step.thread _ _ _ 1 _ 0 true rfl rfl rfl)
  have h10 := h9.step (@Step.thread _ _ _ 1 _ 0 true rfl rfl rfl)
  have h11 := h10.step (@Step.thread _ _ _ 1 _ 0 true rfl rfl rfl)
  have h12 := h11.step (@Step.thread _ _ _ 1 _ (-ENOENT) true rfl rfl rfl)
  have h13 := h12.step (@Step.thread _ _ _ 1 _ 0 true rfl rfl rfl)
  exact ⟨_, _, h13, rfl, rfl, rfl, rfl⟩

/-- **A failed `strdup` at the end of hiding loses the open file.** In the run of
`dirA_hiding`, `strdup` fails in `hash_name` at `rename_node`: the UNLINK replies `-ENOMEM`,
and `a`, which the kernel still has open, is under neither its name nor the hidden one. -/
theorem hide_nomem_detaches : ∃ s s' newname, SysReachable ⟨true, true, true, true⟩ s ∧
    Step ⟨true, true, true, true⟩ s s' ∧ s.threads[1]? = some (.hideNode rootId [97] newname) ∧
    s'.threads[1]? = some (.unlinkReply (-ENOMEM)) ∧ s'.handles 2 = 1 ∧
    lookupNode s'.dir rootId [97] = none ∧ lookupNode s'.dir rootId newname = none := by
  obtain ⟨s, newname, hs, hk, hl, hc, hh⟩ := dirA_hiding
  have h := hs.hideInv
  obtain ⟨x, n, hx, hn, hfree⟩ := h.hideNode hk
  obtain ⟨-, g, hg, h1, h2⟩ := renameNode_hide h.dir (h.held_of_thread hk rfl) hx hn hfree
  refine ⟨s, { s.setPhase 1 (.unlinkReply (-ENOMEM)) with dir := g }, newname, hs,
    @Step.thread _ _ _ 1 _ 0 false hc hk (by simp [Sys.runThread, hl, hg]), hk, ?_, hh, h1, h2⟩
  simp [Sys.setPhase, List.getElem?_set, (List.getElem?_eq_some_iff.1 hk).1]

end FuseCore
