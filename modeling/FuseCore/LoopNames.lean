import FuseCore.LoopSafety
import FuseCore.Names

/-!
# What each request does to the names (fuse.c:574-705, :851-1197, :1847-1999)

`Request.NameEffect` says, request by request, what a request may change of the names
`lookup_node` resolves (`Fuse.names`): a LOOKUP, MKNOD, MKDIR, SYMLINK or LINK adds at most its
own name, under an id no name has; an UNLINK erases its name or, for a file still open, moves
it to the hidden name `hide_node` builds from the node's id, in the same directory; an RMDIR
erases its name; a RENAME first moves an open target to a hidden name, then renames as
`rename_node` does; a FORGET erases at most the name of the node it forgets. No other request
changes a name: INIT, OPEN, RELEASE, the directory handles and the queries only read the
names or write open counts.

`loop_names`: from every state a run of the loop reaches, a request the kernel may send
changes the names by its effect. A lookup-class request whose reply the kernel did not take is
undone under the protocol every loop past INIT speaks (`lookupReply_undone`), so its effect
depends on what the reply's write returned. Each effect is at most two steps
of `DirOp.NameStep` (`NameReach.effect`), so the loop refines the map of names over whole runs
(`loop_names_reach`).
-/

namespace FuseCore

/-! ## The effects -/

namespace NameMap

/-- A lookup-class request: the names stay, or the missing name is added under an id no name
has. -/
def Adds (v : NameMap) (parent : Nat) (name : Name) (w : NameMap) : Prop :=
  w = v ∨ v parent name = none ∧ ∃ i, (∀ d s, v d s ≠ some i) ∧ w = v.insert parent name i

/-- A lookup-class request whose reply's write returned `write`: when the kernel did not take
the reply (`-ENOENT`), the lookup is cancelled and the names stay; otherwise as `Adds`. -/
def Replies (v : NameMap) (parent : Nat) (name : Name) (write : Int) (w : NameMap) : Prop :=
  if write = -ENOENT then w = v else v.Adds parent name w

theorem Replies.refl (v : NameMap) (parent : Nat) (name : Name) (write : Int) :
    v.Replies parent name write v := by
  unfold Replies; split_ifs <;> first | rfl | exact .inl rfl

/-- `hide_node` of `(dir, name)`: the names stay, or the name is renamed, as `rename_node`
with `hide` renames, to a hidden name of the same directory built from its id. -/
def Hides (v : NameMap) (dir : Nat) (name : Name) (w : NameMap) : Prop :=
  w = v ∨ ∃ i c b, v dir name = some i ∧ w = v.rename dir name dir (hiddenName i c) true b

end NameMap

/-- What a request may do to the names, when the environment answers `a`. A lookup-class
request whose reply the kernel did not take (`a.write = -ENOENT`) is cancelled, and leaves the
names as they were. -/
def Request.NameEffect (a : Answers) : Request → NameMap → NameMap → Prop
  | .lookup parent name, v, w | .mknod parent name, v, w | .mkdir parent name, v, w
  | .symlink parent name, v, w | .link _ parent name, v, w => v.Replies parent name a.write w
  | .unlink dir name, v, w => v.Hides dir name w ∨ w = v.erase dir name
  | .rmdir dir name, v, w => w = v ∨ w = v.erase dir name
  | .rename olddir oldname newdir newname, v, w => ∃ u, v.Hides newdir newname u ∧
      (w = u ∨ ∃ b, w = u.rename olddir oldname newdir newname false b)
  | .forget nodeid _, v, w => w = v ∨ ∃ d s, v d s = some nodeid ∧ w = v.erase d s
  | _, v, w => w = v

/-- Every request may leave the names as they are. -/
theorem Request.NameEffect.refl (a : Answers) (r : Request) (v : NameMap) : r.NameEffect a v v := by
  cases r <;> first
    | exact NameMap.Replies.refl _ _ _ _
    | exact .inl rfl
    | exact ⟨v, .inl rfl, .inl rfl⟩
    | exact .inl (.inl rfl)
    | rfl

theorem DirOp.NameStep.adds {parent : Nat} {name : Name} {ino version : Nat} {callocOk strdupOk : Bool}
    {v w : NameMap} (hs : (DirOp.find parent name ino version callocOk strdupOk).NameStep v w) :
    v.Adds parent name w := by
  cases hs with
  | findKeep => exact .inl rfl
  | findNew hn hi => exact .inr ⟨hn, _, hi, rfl⟩
  | forget ho => exact ho.elim

/-! ## The effects stay among the maps the directory reaches -/

section Reach
variable {v w : NameMap}

theorem NameReach.adds {parent : Nat} {name : Name} (hv : NameReach v) (h : v.Adds parent name w) :
    NameReach w := by
  rcases h with rfl | ⟨hn, i, hi, rfl⟩
  · exact hv
  · exact .step (.find parent name 0 1 true true) hv (.findNew hn hi)

theorem NameReach.replies {parent : Nat} {name : Name} {write : Int} (hv : NameReach v)
    (h : v.Replies parent name write w) : NameReach w := by
  unfold NameMap.Replies at h
  split_ifs at h
  · exact h ▸ hv
  · exact hv.adds h

theorem NameReach.hides {dir : Nat} {name : Name} (hv : NameReach v) (h : v.Hides dir name w) :
    NameReach w := by
  rcases h with rfl | ⟨i, c, b, -, rfl⟩
  · exact hv
  · exact .step _ hv .rename

/-- Each request changes the names as a few operations of the directory would: its effect is
at most two steps of `DirOp.NameStep`. -/
theorem NameReach.effect {a : Answers} (hv : NameReach v) :
    ∀ {r : Request}, r.NameEffect a v w → NameReach w
  | .lookup .., he | .mknod .., he | .mkdir .., he | .symlink .., he | .link .., he => hv.replies he
  | .unlink .., he => he.elim hv.hides fun h => h ▸ .step _ hv .remove
  | .rmdir .., he => he.elim (fun h => h ▸ hv) fun h => h ▸ .step _ hv .remove
  | .rename .., ⟨_, hu, hw⟩ => hw.elim (fun h => h ▸ hv.hides hu)
      fun ⟨_, h⟩ => h ▸ .step _ (hv.hides hu) .rename
  | .forget nodeid _, he => .step (.forget nodeid 0) hv (.forget (i := nodeid) rfl he)
  | .init .., he | .openFile _, he | .release _, he | .opendir _, he | .readdir .., he
  | .releasedir .., he | .fsyncdir .., he | .query .., he | .unknown, he =>
      (show w = v from he) ▸ hv

end Reach

/-! ## The names through the handlers -/

section Handlers
variable {ops : LoopOps} {f g : Fuse} {a : Answers} {r : Int}

/-- Two states with the same directory up to versions resolve the same names. -/
theorem names_of_sameDir (hs : f.SameDir g) : g.names = f.names := by
  have hmap : ∀ {α : Type} (F : Node → α), (∀ n, F n.unversioned = F n) → ∀ p,
      (g.heap p).map F = (f.heap p).map F := fun F hF p => by
    simpa [Option.map_map, Function.comp_def, hF] using congrArg (Option.map F) (hs.heap p)
  funext d s
  have hl : lookupNode g d s = lookupNode f d s := by
    unfold lookupNode
    rw [hs.nameTable]
    congr 1
    funext p
    have hany : ∀ o : Option Node, ∀ P, o.any P = (o.map P).getD false := fun o _ => by cases o <;> rfl
    rw [hany, hany, hmap (fun n => n.parent == d && n.name == some s) (fun _ => rfl) p]
  simp only [Fuse.names, hl]
  cases lookupNode f d s with
  | none => rfl
  | some q => simpa using hmap Node.nodeid (fun _ => rfl) q

/-- **An interrupted lookup reply leaves the names as they were**, under the modern protocol. -/
theorem lookupReply_undone {parent : Nat} {name : Name} {ino unique : Nat} {callocOk strdupOk : Bool}
    (h : Inv f) (hpar : Held f parent) (hv : unique ≠ 0) (h7 : 7 ≤ f.major)
    (he : lookupReply f parent name ino unique callocOk strdupOk (-ENOENT) = .ok g) : g.names = f.names := by
  cases hl : lookupNode f parent name with
  | some p =>
    obtain ⟨n, hp, he'⟩ := @lookupReply_hit f parent name ino unique callocOk strdupOk p h hl h7
    rw [he'] at he; cases he
    exact names_setNode h.index hp _ rfl
  | none =>
    cases callocOk with
    | false => simp [lookupReply, findNode_nomem hl] at he; rw [he]
    | true =>
    cases strdupOk with
    | true =>
      rcases lookupReply_fresh h hpar hl hv with he' | ⟨g', he', hs⟩ <;> rw [he'] at he <;> cases he
      exact names_of_sameDir hs
    | false =>
      cases hid : nextIdLoop f (2 ^ nodeidBits) f.ctr f.generation with
      | none => simp [lookupReply, findNode_hang h.index hl hid] at he
      | some c => simp [lookupReply, findNode_nostr h.index hl hid] at he; rw [← he]; rfl

theorem lookupReply_names {parent : Nat} {name : Name} {ino unique : Nat} {callocOk strdupOk : Bool}
    {res2 : Int} (h : Inv f) (hpar : Held f parent) (hv : unique ≠ 0) (h7 : 7 ≤ f.major)
    (he : lookupReply f parent name ino unique callocOk strdupOk res2 = .ok g) :
    f.names.Replies parent name res2 g.names := by
  unfold NameMap.Replies
  split_ifs with hw
  · subst hw; exact lookupReply_undone h hpar hv h7 he
  -- no cancel: what `find_node` left
  obtain ⟨⟨o, g1⟩, hfind, he⟩ := bind_eq_ok.1 he
  have hg : g1 = g := by
    rcases o with _ | ⟨p, _⟩
    · simpa using he
    · obtain ⟨n, -, he⟩ := bind_eq_ok.1 he
      simpa [hw] using he
  subst hg
  exact (findNode_names h hpar hv hfind).adds

/-- What `lookup_path` hands on, once the user's getattr succeeded, is `lookupReply`. -/
theorem entryReply_state {parent : Nat} {name : Name} {unique : Nat} (hga : a.getattr = 0) :
    (·.2) <$> entryReply f parent name unique a =
      lookupReply f parent name a.ino unique a.callocOk a.strdupOk a.write := by
  simp only [entryReply, lookupReply, hga, ne_eq, not_true_eq_false, if_false]
  cases findNode f parent name a.ino unique a.callocOk a.strdupOk with
  | error e => rfl
  | ok rg =>
    obtain ⟨_ | ⟨p, _⟩, g⟩ := rg
    · rfl
    · simp only [ok_bind]
      cases g.node p with
      | error e => rfl
      | ok n =>
        simp only [ok_bind]
        split_ifs
        · cases cancelLookup g n.nodeid unique <;> rfl
        · rfl

theorem entryReply_names {parent : Nat} {name : Name} {unique : Nat} (h : Inv f) (hpar : Held f parent)
    (hv : unique ≠ 0) (h7 : 7 ≤ f.major) (he : entryReply f parent name unique a = .ok (r, g)) :
    f.names.Replies parent name a.write g.names := by
  by_cases hga : a.getattr = 0
  · have he' : lookupReply f parent name a.ino unique a.callocOk a.strdupOk a.write = .ok g := by
      rw [← entryReply_state hga, he]; rfl
    exact lookupReply_names h hpar hv h7 he'
  · rw [entryReply, if_pos hga] at he; cases he; exact .refl _ _ _ _

theorem doCreate_names {hasOp : Bool} {parent : Nat} {name : Name} {unique : Nat} (h : Inv f)
    (hpar : Held f parent) (hv : unique ≠ 0) (h7 : 7 ≤ f.major)
    (he : doCreate hasOp ops f parent name unique a = .ok (r, g)) :
    f.names.Replies parent name a.write g.names := by
  unfold doCreate at he
  obtain ⟨_ | _, -, he⟩ := bind_eq_ok.1 he
  · cases he; exact .refl _ _ _ _
  dsimp only at he
  split_ifs at he
  · exact entryReply_names h hpar hv h7 he
  all_goals cases he; exact .refl _ _ _ _

theorem doLookup_names {parent : Nat} {name : Name} {unique : Nat} (h : Inv f) (hpar : Held f parent)
    (hv : unique ≠ 0) (h7 : 7 ≤ f.major) (he : doLookup ops f parent name unique a = .ok (r, g)) :
    f.names.Replies parent name a.write g.names := by
  unfold doLookup at he
  obtain ⟨_ | _, -, he⟩ := bind_eq_ok.1 he
  · cases he; exact .refl _ _ _ _
  dsimp only at he
  split_ifs at he
  · exact entryReply_names h hpar hv h7 he
  · cases he; exact .refl _ _ _ _

theorem doLink_names {oldnodeid parent : Nat} {name : Name} {unique : Nat} (h : Inv f)
    (hpar : Held f parent) (hv : unique ≠ 0) (h7 : 7 ≤ f.major)
    (he : doLink ops f oldnodeid parent name unique a = .ok (r, g)) :
    f.names.Replies parent name a.write g.names := by
  unfold doLink at he
  obtain ⟨_ | _, -, he⟩ := bind_eq_ok.1 he
  · cases he; exact .refl _ _ _ _
  · exact doCreate_names h hpar hv h7 he

/-! ## The hidden name -/

theorem hiddenNameLoop_name {dir nodeid : Nat} :
    ∀ {fuel ctr c name}, hiddenNameLoop f dir nodeid fuel ctr = some (c, name) → name = hiddenName nodeid c
  | 0, _, _, _, h => nomatch h
  | fuel + 1, ctr, c, name, h => by
    simp only [hiddenNameLoop] at h
    split at h
    · exact hiddenNameLoop_name h
    · simp only [Option.some.injEq, Prod.mk.injEq] at h
      obtain ⟨rfl, rfl⟩ := h
      rfl

/-- The hidden name `hidden_name` picks is built from the id of the node at the entry. -/
theorem hiddenProbe_name {d : Nat} {name newname : Name} (h : hiddenProbe f d name = .ok (some (newname, g))) :
    ∃ p n c, lookupNode f d name = some p ∧ f.heap p = some n ∧ newname = hiddenName n.nodeid c ∧
      g = { f with hidectr := c } := by
  unfold hiddenProbe at h
  split at h
  · cases h
  · rename_i p hp
    cases hn : f.heap p with
    | none => simp [Fuse.node, hn, bind, Except.bind] at h
    | some n =>
      simp only [Fuse.node, hn, bind, Except.bind] at h
      split at h
      · cases h
      · rename_i c nm hl
        cases h
        exact ⟨p, n, c, hp, hn, hiddenNameLoop_name hl, rfl⟩

theorem hiddenNameRounds_name {dir : Nat} {oldname newname : Name} {path : Path} (probe : Nat → Int)
    (pathOk : Nat → Bool) :
    ∀ (k : Nat) {f g : Fuse}, hiddenNameRounds dir oldname probe pathOk k f = .ok (some (path, newname), g) →
      ∃ p n c, lookupNode f dir oldname = some p ∧ f.heap p = some n ∧ newname = hiddenName n.nodeid c
  | 0, f, g, h => by simp [hiddenNameRounds] at h
  | k + 1, f, g, h => by
    rw [hiddenNameRounds] at h
    obtain ⟨_ | ⟨nn, f1⟩, ho, h⟩ := bind_eq_ok.1 h
    · cases h
    obtain ⟨p, n, c, hl, hn, rfl, rfl⟩ := hiddenProbe_name ho
    obtain ⟨_ | _, -, h⟩ := bind_eq_ok.1 h
    · cases h
    dsimp only at h
    split_ifs at h
    · cases h; exact ⟨p, n, c, hl, hn, rfl⟩
    · obtain ⟨p', n', c', hl', hn', e⟩ := hiddenNameRounds_name probe pathOk k h
      exact ⟨p', n', c', hl', hn', e⟩

/-- **`hide_node` renames the entry to a hidden name of its own directory**, or changes no
name. -/
theorem hideNode_names {dir : Nat} {name : Name} (h : Inv f) (hd : Held f dir)
    (he : hideNode ops f dir name a = .ok (r, g)) : f.names.Hides dir name g.names := by
  unfold hideNode at he
  by_cases hops : (ops.hasRename && ops.hasUnlink) = true
  swap
  · rw [if_neg hops] at he; cases he; exact .inl rfl
  rw [if_pos hops] at he
  dsimp only at he
  split at he
  swap
  · simp only [pure_eq_ok, ok_bind] at he; cases he; exact .inl rfl
  obtain ⟨⟨o, g1⟩, hrounds, he⟩ := bind_eq_ok.1 he
  -- the rounds move only `hidectr`, and a name they pick is built from the entry's node
  have hr : Post (hiddenNameRounds dir name a.probe a.probePathOk 10 f) Fault.Hangs
      fun rg => ∃ c, rg.2 = { f with hidectr := c } := hiddenNameRounds_spec a.probe a.probePathOk 10 h hd.live
  rw [hrounds] at hr
  obtain ⟨c, hc⟩ := hr
  dsimp only at hc he; subst hc
  rcases o with _ | ⟨path, newname⟩
  · cases he; exact .inl rfl
  dsimp only at he
  split_ifs at he
  · obtain ⟨p, n, c', hl, hn, rfl⟩ := hiddenNameRounds_name a.probe a.probePathOk 10 hrounds
    have hv := renameNode_names (h.setHidectr c) hd he
    exact .inr ⟨n.nodeid, c', a.hideStrdupOk, by simp [Fuse.names, hl, hn], hv⟩
  · cases he; exact .inl rfl

theorem doUnlink_names {dir : Nat} {name : Name} {paths : List Path} (h : Inv f) (hd : Held f dir)
    (he : doUnlink ops f dir name a = .ok (r, g, paths)) :
    f.names.Hides dir name g.names ∨ g.names = f.names.erase dir name := by
  unfold doUnlink at he
  obtain ⟨_ | path, -, he⟩ := bind_eq_ok.1 he
  · cases he; exact .inl (.inl rfl)
  dsimp only at he
  split_ifs at he
  · cases he; exact .inl (.inl rfl)
  · obtain ⟨⟨r1, g1⟩, hh, he⟩ := bind_eq_ok.1 he
    cases he; exact .inl (hideNode_names h hd hh)
  · obtain ⟨g1, hr, he⟩ := bind_eq_ok.1 he
    cases he; exact .inr (removeNode_names h hr)
  · cases he; exact .inl (.inl rfl)

theorem doRmdir_names {dir : Nat} {name : Name} (h : Inv f) (he : doRmdir ops f dir name a = .ok (r, g)) :
    g.names = f.names ∨ g.names = f.names.erase dir name := by
  unfold doRmdir at he
  obtain ⟨_ | _, -, he⟩ := bind_eq_ok.1 he
  · cases he; exact .inl rfl
  dsimp only at he
  split_ifs at he
  · cases he; exact .inl rfl
  · cases hr : removeNode f dir name with
    | error e => rw [hr] at he; cases he
    | ok g1 => rw [hr] at he; cases he; exact .inr (removeNode_names h hr)
  · cases he; exact .inl rfl

theorem doRename_names {olddir newdir : Nat} {oldname newname : Name} (h : Inv f) (hnew : Held f newdir)
    (he : doRename ops f olddir oldname newdir newname a = .ok (r, g)) :
    ∃ u, f.names.Hides newdir newname u ∧
      (g.names = u ∨ ∃ b, g.names = u.rename olddir oldname newdir newname false b) := by
  unfold doRename at he
  obtain ⟨_ | _, -, he⟩ := bind_eq_ok.1 he
  · cases he; exact ⟨_, .inl rfl, .inl rfl⟩
  obtain ⟨_ | _, -, he⟩ := bind_eq_ok.1 he
  · cases he; exact ⟨_, .inl rfl, .inl rfl⟩
  -- once the target is out of the way: the user's rename, then `rename_node`
  have tail : ∀ res g1, f.names.Hides newdir newname g1.names → Inv g1 → Held g1 newdir →
      (if res ≠ 0 then pure (res, g1) else if a.res ≠ 0 then pure (a.res, g1)
        else renameNode g1 olddir oldname newdir newname false a.strdupOk) = Except.ok (r, g) →
      ∃ u, f.names.Hides newdir newname u ∧
        (g.names = u ∨ ∃ b, g.names = u.rename olddir oldname newdir newname false b) := by
    intro res g1 hv1 h1 hnew1 he
    refine ⟨g1.names, hv1, ?_⟩
    split_ifs at he
    · cases he; exact .inl rfl
    · cases he; exact .inl rfl
    · exact .inr ⟨a.strdupOk, renameNode_names h1 hnew1 he⟩
  dsimp only at he
  by_cases hr : (!ops.hasRename) = true
  · rw [if_pos hr] at he; cases he; exact ⟨_, .inl rfl, .inl rfl⟩
  rw [if_neg hr] at he
  by_cases hop : (!f.flags.hardRemove && isOpen f newdir newname) = true
  · -- an open target is hidden first
    rw [if_pos hop] at he
    obtain ⟨⟨res, g1⟩, hh, he⟩ := bind_eq_ok.1 he
    have hs : Post (hideNode ops f newdir newname a) Fault.Hangs
        fun rg => f.Steady rg.2 (fun _ => False) (ops.hasUnlink = true) := hideNode_spec h hnew a
    rw [hh] at hs
    exact tail res g1 (hideNode_names h hnew hh) hs.inv (hs.held_of hnew id) he
  · rw [if_neg hop] at he; exact tail 0 f (.inl rfl) h hnew he

/-- A query only reads the directory. -/
theorem doQuery_state {q : Query} {i : Nat} {pathOk : Bool} (he : doQuery q f i pathOk = .ok (r, g)) :
    g = f := by
  unfold doQuery at he
  split_ifs at he
  · cases hp : getPath f i pathOk with
    | error e => rw [hp] at he; cases he
    | ok o => rw [hp] at he; cases he; rfl
  · cases he; rfl

theorem mapError_eq_ok {ε ε' α : Type} {x : Except ε α} {e : ε → ε'} {v : α} :
    x.mapError e = .ok v ↔ x = .ok v := by
  cases x <;> simp [Except.mapError]

/-- RELEASE writes only the open count of its node. -/
theorem doRelease_state {i : Nat} {pathOk : Bool} {paths : List Path}
    (he : doRelease ops f i pathOk = .ok (g, paths)) :
    ∃ p n, f.heap p = some n ∧ g = f.setNode p { n with openCount := n.openCount - 1 } := by
  obtain ⟨⟨uh, g1⟩, hc, he⟩ := bind_eq_ok.1 he
  obtain ⟨p, n, -, hp, -, rfl⟩ := releaseCount_eq (mapError_eq_ok.1 hc)
  refine ⟨p, n, hp, ?_⟩
  obtain ⟨_, -, he⟩ := bind_eq_ok.1 he
  split at he
  · split at he
    · cases he; rfl
    · cases he
  · cases he; rfl

end Handlers

/-! ## Every request -/

section Loop
variable {ops : LoopOps} {kver : Nat} {s s' : Loop} {hdr : InHeader} {a : Answers}

theorem Loop.withDir_ok {x : Except Fault (Int × Fuse)} (h : s.withDir x = .ok s') :
    ∃ r, x = .ok (r, s'.dir) := by
  cases x with
  | error e => cases h
  | ok rg => cases h; exact ⟨rg.1, rfl⟩

/-- A request the loop lets through changes the names by its effect. -/
theorem dispatch_names {r : Request} (hs : LoopInv ops s) (hr : r.Allowed kver s hdr)
    (hg : s.gotInit = true ∨ r.isInit = true) (hd : dispatch ops kver s hdr a r = .ok s') :
    r.NameEffect a s.dir.names s'.dir.names := by
  have h7 : r.isInit = false → 7 ≤ s.dir.major := fun hi => hs.major (hg.resolve_right (by simp [hi]))
  have h := hs.dir
  cases r with
  | init padding major => simp only [FuseCore.dispatch, Except.ok.injEq] at hd; subst hd; rfl
  | forget _ _ | unknown =>
    simp only [FuseCore.dispatch, Except.ok.injEq] at hd; subst hd; exact .refl _ _ _
  | lookup parent name =>
    obtain ⟨_, he⟩ := Loop.withDir_ok hd; exact doLookup_names h hr.1 hr.2 (h7 rfl) he
  | mknod parent name =>
    obtain ⟨_, he⟩ := Loop.withDir_ok hd; exact doCreate_names h hr.1 hr.2 (h7 rfl) he
  | mkdir parent name =>
    obtain ⟨_, he⟩ := Loop.withDir_ok hd; exact doCreate_names h hr.1 hr.2 (h7 rfl) he
  | symlink parent name =>
    obtain ⟨_, he⟩ := Loop.withDir_ok hd; exact doCreate_names h hr.1 hr.2 (h7 rfl) he
  | link oldnodeid parent name =>
    obtain ⟨_, he⟩ := Loop.withDir_ok hd; exact doLink_names h hr.2.1 hr.2.2 (h7 rfl) he
  | unlink dir name =>
    simp only [FuseCore.dispatch] at hd
    split at hd
    · cases hd; exact doUnlink_names h hr ‹_›
    · cases hd
  | rmdir dir name => obtain ⟨_, he⟩ := Loop.withDir_ok hd; exact doRmdir_names h he
  | rename olddir oldname newdir newname =>
    obtain ⟨_, he⟩ := Loop.withDir_ok hd; exact doRename_names h hr.2 he
  | query q nodeid =>
    obtain ⟨_, he⟩ := Loop.withDir_ok hd
    show s'.dir.names = s.dir.names
    rw [doQuery_state he]
  | openFile nodeid =>
    obtain ⟨x, n, hx, rfl, -⟩ := hr
    simp only [FuseCore.dispatch] at hd
    split at hd
    · rename_i res g ho
      cases hd
      have := @doOpen_spec ops s.dir x n h hx a
      rw [ho] at this
      rcases this with ⟨rfl, -⟩ | rfl
      · rfl
      · exact names_setNode h.index hx _ rfl
    · cases hd
  | release nodeid =>
    obtain ⟨⟨g, paths⟩, hrel, hd⟩ := bind_eq_ok.1 hd
    cases hd
    obtain ⟨p, n, hp, rfl⟩ := doRelease_state hrel
    exact names_setNode h.index hp _ rfl
  | opendir nodeid =>
    simp only [FuseCore.dispatch] at hd
    split at hd
    · cases hd; split <;> rfl
    · cases hd
  | readdir nodeid fh | releasedir nodeid fh | fsyncdir nodeid fh =>
    obtain ⟨_, -, hd⟩ := bind_eq_ok.1 hd
    obtain ⟨_, -, hd⟩ := bind_eq_ok.1 hd
    cases hd; rfl

/-- A FORGET drops at most the name of the node it forgets. -/
theorem forgetOp_names {major i c : Nat} {f g : Fuse} (h : Inv f) (ho : (forgetOp major i c).Allowed f)
    (hr : (forgetOp major i c).run f = .ok g) :
    g.names = f.names ∨ ∃ d s, f.names d s = some i ∧ g.names = f.names.erase d s := by
  have hs := DirOp.nameStep_of_run h ho hr
  unfold forgetOp at hs
  split at hs <;>
  · cases hs with
    | forget hi hw => exact hi ▸ hw

theorem processCmd_names {r : Request} (hs : LoopReachable ops kver s) (hr : r.Allowed kver s hdr)
    (hp : processCmd ops kver s hdr r a = .ok s') : r.NameEffect a s.dir.names s'.dir.names := by
  have hi := hs.loopInv
  by_cases hf : ∃ i c, r = .forget i c
  · obtain ⟨i, c, rfl⟩ := hf
    simp only [processCmd] at hp
    split at hp
    · rename_i g hg
      cases hp
      exact forgetOp_names hi.dir hr.1 hg
    · cases hp
  push_neg at hf
  rw [processCmd_gate a hf] at hp
  split_ifs at hp with h1 h2
  · cases hp; exact .refl _ _ _
  · cases hp; exact .refl _ _ _
  · refine dispatch_names hi hr ?_ hp
    cases hgi : s.gotInit
    · exact .inr (by simpa [hgi] using h1)
    · exact .inl rfl

/-- **Every request changes the names by its effect.** From every state a run of the loop
reaches, a request the kernel may send either leaves what `lookup_node` resolves as it was,
or changes it as `Request.NameEffect` says for the answers it met: lookups add only their own
name, and none when their reply was not taken, UNLINK and RMDIR erase theirs or hide an open
file, RENAME hides an open target and renames, FORGET drops the name of the node it forgets,
and every other request changes no name. -/
theorem loop_names {r : Request} (hs : LoopReachable ops kver s) (hr : r.Allowed kver s hdr)
    (hp : processCmd ops kver s hdr r a = .ok s') : r.NameEffect a s.dir.names s'.dir.names :=
  processCmd_names hs hr hp

theorem loop_names_lost_lookup :
    LoopReachable xmpOper 7 hidingLoop ∧ Request.Allowed 7 hidingLoop ⟨5, 0⟩ (.lookup rootId [98]) ∧
      ∃ s', processCmd xmpOper 7 hidingLoop ⟨5, 0⟩ (.lookup rootId [98]) lostReply = .ok s' ∧
        (Request.lookup rootId [98]).NameEffect lostReply hidingLoop.dir.names s'.dir.names :=
  have hr : Request.Allowed 7 hidingLoop ⟨5, 0⟩ (.lookup rootId [98]) := ⟨⟨0, _, rfl, rfl, by decide⟩, by decide⟩
  ⟨hidingLoop_reachable, hr, _, rfl, loop_names hidingLoop_reachable hr rfl⟩

/-- **The request loop refines the map of names.** In every state a run of the loop reaches,
the names `lookup_node` resolves form a map that the operations of the directory reach from
the empty one, request by request, so no id has two names. -/
theorem loop_names_reach (hs : LoopReachable ops kver s) :
    NameReach s.dir.names ∧ s.dir.names.Injective := by
  have hr : NameReach s.dir.names := by
    induction hs with
    | start flags owner => exact .empty
    | step hs hr hp ih => exact ih.effect (processCmd_names hs hr hp)
  exact ⟨hr, hr.injective⟩

theorem loop_names_reach_run :
    LoopReachable xmpOper 7 hidingLoop ∧ (∃ p n, hidingLoop.dir.heap p = some n ∧ n.isHidden = true) ∧
      NameReach hidingLoop.dir.names ∧ hidingLoop.dir.names.Injective :=
  ⟨hidingLoop_reachable, ⟨1, _, rfl, rfl⟩, loop_names_reach hidingLoop_reachable⟩

end Loop

end FuseCore
