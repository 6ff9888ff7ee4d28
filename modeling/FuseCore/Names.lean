import FuseCore.Lookup

/-!
# The directory as a map of names (fuse.c:283-476)

What the kernel sees of the directory is a map from a directory's id and a name to the id of
the node the name resolves to: `lookup_node` answers it, and LOOKUP, UNLINK, RMDIR, RENAME and
FORGET change it. `NameMap` is that map, with what each operation may do to it
(`DirOp.NameStep`): `find_node` adds a missing name under an id no name has, `remove_node`
erases one, `rename_node` moves one over what its target named, or loses both names when the
copy of the new name fails, and a forget may erase the name of the node it forgets.

`Fuse.names` reads the map off the hash tables and the heap. `names_refine`: from every
reachable directory, every operation the kernel may ask for changes the names by its own step,
so that the tables, the chains and the reference counts refine the map; and `names_reach`:
the names of every reachable directory are reached so from the empty map, and no id is named
twice, a fact of the map alone (`NameReach.injective`). `lookupNode_findNode`: the node
`find_node` answers with is the one `lookup_node` resolves the name to afterwards, with its
lookup counted.
-/

namespace FuseCore

/-! ## The map of names -/

/-- The names of the directory: the id `name` resolves to in the directory `dir`. -/
abbrev NameMap := Nat → Name → Option Nat

namespace NameMap

/-- The map without `name` in `dir`. -/
def erase (v : NameMap) (dir : Nat) (name : Name) : NameMap :=
  fun d s => if d = dir ∧ s = name then none else v d s

/-- The map with `name` in `dir` resolving to `i`. -/
def insert (v : NameMap) (dir : Nat) (name : Name) (i : Nat) : NameMap :=
  fun d s => if d = dir ∧ s = name then some i else v d s

/-- A rename of `oldname` in `olddir` to `newname` in `newdir`: nothing without a source, or
when hiding onto a name that is taken; else the source moves over the target, or, when the new
name cannot be copied, both names are lost. -/
def rename (v : NameMap) (olddir : Nat) (oldname : Name) (newdir : Nat) (newname : Name)
    (hide strdupOk : Bool) : NameMap :=
  match v olddir oldname with
  | none => v
  | some i =>
    if hide = true ∧ (v newdir newname).isSome then v
    else if strdupOk then (v.erase olddir oldname).insert newdir newname i
    else (v.erase newdir newname).erase olddir oldname

/-- No id has two names. -/
def Injective (v : NameMap) : Prop :=
  ∀ d s d' s' i, v d s = some i → v d' s' = some i → d = d' ∧ s = s'

/-- Erasing a name that resolves to nothing changes nothing. -/
theorem erase_of_none {v : NameMap} {d : Nat} {s : Name} (h : v d s = none) : v.erase d s = v := by
  funext d' s'
  unfold erase
  split_ifs with e
  · obtain ⟨rfl, rfl⟩ := e; exact h.symm
  · rfl

/-- An insert hides whatever the name resolved to before. -/
theorem insert_erase (v : NameMap) (d : Nat) (s : Name) (i : Nat) :
    (v.erase d s).insert d s i = v.insert d s i := by
  funext d' s'; unfold insert erase; split_ifs <;> rfl

theorem erase_comm (v : NameMap) (d d' : Nat) (s s' : Name) :
    (v.erase d s).erase d' s' = (v.erase d' s').erase d s := by
  funext d'' s''; unfold erase; split_ifs <;> rfl

end NameMap

/-- What a directory operation may do to the names. -/
inductive DirOp.NameStep : DirOp → NameMap → NameMap → Prop
  | init {major : Nat} {v : NameMap} : NameStep (.init major) v v
  /-- A LOOKUP of a name that resolves, or whose allocations fail, changes nothing. -/
  | findKeep {parent : Nat} {name : Name} {ino version : Nat} {callocOk strdupOk : Bool}
      {v : NameMap} : (v parent name).isSome ∨ callocOk = false ∨ strdupOk = false →
      NameStep (.find parent name ino version callocOk strdupOk) v v
  /-- A LOOKUP of a missing name adds it, under an id no name has. -/
  | findNew {parent : Nat} {name : Name} {ino version i : Nat} {v : NameMap} :
      v parent name = none → (∀ d s, v d s ≠ some i) →
      NameStep (.find parent name ino version true true) v (v.insert parent name i)
  /-- A forget, or the cancel of a lookup, drops at most the name of the node it forgets. -/
  | forget {o : DirOp} {i : Nat} {v w : NameMap} : o.Forgets i →
      (w = v ∨ ∃ d s, v d s = some i ∧ w = v.erase d s) → NameStep o v w
  | remove {dir : Nat} {name : Name} {v : NameMap} : NameStep (.remove dir name) v (v.erase dir name)
  | rename {olddir newdir : Nat} {oldname newname : Name} {hide strdupOk : Bool} {v : NameMap} :
      NameStep (.rename olddir oldname newdir newname hide strdupOk) v
        (v.rename olddir oldname newdir newname hide strdupOk)

/-- The maps the operations reach from the directory without names. -/
inductive NameReach : NameMap → Prop
  | empty : NameReach fun _ _ => none
  | step {v w : NameMap} (o : DirOp) : NameReach v → o.NameStep v w → NameReach w

section Injective
variable {v w : NameMap}

theorem NameMap.Injective.erase (h : v.Injective) (d : Nat) (s : Name) : (v.erase d s).Injective := by
  intro d1 s1 d2 s2 i h1 h2
  unfold NameMap.erase at h1 h2
  split_ifs at h1 h2
  exact h d1 s1 d2 s2 i h1 h2

/-- A name added under an id no name has. -/
theorem NameMap.Injective.insert (h : v.Injective) {d : Nat} {s : Name} {i : Nat}
    (hi : ∀ d' s', v d' s' ≠ some i) : (v.insert d s i).Injective := by
  intro d1 s1 d2 s2 j h1 h2
  unfold NameMap.insert at h1 h2
  split_ifs at h1 h2 with e1 e2 e2
  · exact ⟨e1.1.trans e2.1.symm, e1.2.trans e2.2.symm⟩
  · cases h1; exact absurd h2 (hi d2 s2)
  · cases h2; exact absurd h1 (hi d1 s1)
  · exact h d1 s1 d2 s2 j h1 h2

/-- A moved name leaves its id nowhere else. -/
theorem NameMap.Injective.rename (h : v.Injective) (olddir newdir : Nat) (oldname newname : Name)
    (hide strdupOk : Bool) : (v.rename olddir oldname newdir newname hide strdupOk).Injective := by
  unfold NameMap.rename
  split
  · exact h
  · rename_i i hi
    split_ifs
    · exact h
    · refine (h.erase _ _).insert fun d s e => ?_
      unfold NameMap.erase at e
      split_ifs at e with hk
      exact hk (h d s olddir oldname i e hi)
    · exact (h.erase _ _).erase _ _

/-- **Each step keeps the names injective.** -/
theorem DirOp.NameStep.injective {o : DirOp} (hs : o.NameStep v w) (h : v.Injective) : w.Injective := by
  cases hs with
  | init | findKeep _ => exact h
  | findNew _ hi => exact h.insert hi
  | forget _ hw =>
    rcases hw with rfl | ⟨d, s, -, rfl⟩
    exacts [h, h.erase d s]
  | remove => exact h.erase _ _
  | rename => exact h.rename _ _ _ _ _ _

theorem NameReach.injective (hv : NameReach v) : v.Injective := by
  induction hv with
  | empty => intro _ _ _ _ _ h; cases h
  | step o _ hs ih => exact hs.injective ih

end Injective

/-! ## The names of the directory -/

/-- The name a node gives the kernel: its directory, name and id, when it is attached and not
the root. -/
def Node.entry (n : Node) : Option (Nat × Name × Nat) :=
  if n.nodeid = rootId then none else n.name.map fun s => (n.parent, s, n.nodeid)

/-- The name the node at `x` gives the kernel. -/
def Fuse.entry (f : Fuse) (x : Ptr) : Option (Nat × Name × Nat) := (f.heap x).bind Node.entry

/-- The names as `lookup_node` resolves them. -/
def Fuse.names (f : Fuse) : NameMap := fun parent name =>
  ((lookupNode f parent name).bind f.heap).map Node.nodeid

theorem Node.entry_eq_some {n : Node} {d : Nat} {s : Name} {i : Nat} :
    n.entry = some (d, s, i) ↔ n.nodeid ≠ rootId ∧ n.parent = d ∧ n.name = some s ∧ n.nodeid = i := by
  unfold Node.entry
  split_ifs with hr
  · simp [hr]
  · cases hn : n.name <;> simp [hr, and_comm, and_left_comm]

/-- The entry of a node is read off its key. -/
theorem Node.entry_of_key {n n' : Node} (hk : n'.key = n.key) : n'.entry = n.entry := by
  obtain ⟨e1, e2, e3⟩ := Node.key_eq hk
  simp [Node.entry, e1, e2, e3]

theorem Node.entry_name {n : Node} {e : Nat × Name × Nat} (h : n.entry = some e) : n.name.isSome := by
  cases hn : n.name <;> simp_all [Node.entry]

theorem Fuse.entry_eq_some {f : Fuse} {x : Ptr} {e : Nat × Name × Nat} :
    f.entry x = some e ↔ ∃ n, f.heap x = some n ∧ n.entry = some e := by
  simp [Fuse.entry, Option.bind_eq_some]

/-- The entry of a named node that is not the root. -/
theorem Fuse.entry_of_heap {f : Fuse} {p : Ptr} {n : Node} (hp : f.heap p = some n) (hr : n.nodeid ≠ rootId)
    {d : Nat} {s : Name} (hd : n.parent = d) (hs : n.name = some s) : f.entry p = some (d, s, n.nodeid) :=
  Fuse.entry_eq_some.2 ⟨n, hp, Node.entry_eq_some.2 ⟨hr, hd, hs, rfl⟩⟩

section Names
variable {f g : Fuse} {p : Ptr}

/-- **The names are the entries of the nodes**, in a directory whose tables index its heap. -/
theorem names_eq_some (hI : IndexInv f) {d : Nat} {s : Name} {i : Nat} :
    f.names d s = some i ↔ ∃ x, f.entry x = some (d, s, i) := by
  simp only [Fuse.entry_eq_some, Node.entry_eq_some]
  cases hl : lookupNode f d s with
  | none =>
    simp only [Fuse.names, hl, Option.none_bind, Option.map_none', reduceCtorEq, false_iff, not_exists,
      not_and]
    exact fun x n hx hr hd hs _ => (lookupNode_eq_none hI).1 hl x n hx hr hd hs
  | some q =>
    obtain ⟨m, hq, hr, hd, hs⟩ := (lookupNode_eq_some hI).1 hl
    simp only [Fuse.names, hl, Option.some_bind, hq, Option.map_some', Option.some.injEq]
    constructor
    · rintro rfl; exact ⟨q, m, hq, hr, hd, hs, rfl⟩
    · rintro ⟨x, n, hx, hr', hd', hs', rfl⟩
      obtain rfl := hI.keyUnique hx hq (by simp [hs']) (hs'.trans hs.symm) (hd'.trans hd.symm)
      rw [hx, Option.some.injEq] at hq; rw [hq]

/-- One key, one node. -/
theorem entry_unique (hI : IndexInv f) {x y : Ptr} {d : Nat} {s : Name} {i j : Nat}
    (hx : f.entry x = some (d, s, i)) (hy : f.entry y = some (d, s, j)) : x = y := by
  obtain ⟨n, hn, hne⟩ := Fuse.entry_eq_some.1 hx
  obtain ⟨m, hm, hme⟩ := Fuse.entry_eq_some.1 hy
  obtain ⟨-, hd, hs, -⟩ := Node.entry_eq_some.1 hne
  obtain ⟨-, hd', hs', -⟩ := Node.entry_eq_some.1 hme
  exact hI.keyUnique hn hm (by simp [hs]) (hs.trans hs'.symm) (hd.trans hd'.symm)

theorem names_congr (hf : IndexInv f) (hg : IndexInv g) (h : ∀ x, g.entry x = f.entry x) :
    g.names = f.names := by
  funext d s
  refine Option.ext fun i => ?_
  rw [Option.mem_def, Option.mem_def, names_eq_some hg, names_eq_some hf]
  simp only [h]

/-- A node that loses its name erases it from the map. -/
theorem names_erase (hf : IndexInv f) (hg : IndexInv g) (h : ∀ x, x ≠ p → g.entry x = f.entry x)
    (hgp : g.entry p = none) {d : Nat} {s : Name} {i : Nat} (hfp : f.entry p = some (d, s, i)) :
    g.names = f.names.erase d s := by
  funext d' s'
  unfold NameMap.erase
  split_ifs with hk
  · obtain ⟨rfl, rfl⟩ := hk
    cases hn : g.names d' s' with
    | none => rfl
    | some j =>
      obtain ⟨x, hx⟩ := (names_eq_some hg).1 hn
      have hxp : x ≠ p := fun e => by rw [e, hgp] at hx; cases hx
      exact absurd (entry_unique hf ((h x hxp).symm.trans hx) hfp) hxp
  · refine Option.ext fun j => ?_
    rw [Option.mem_def, Option.mem_def, names_eq_some hg, names_eq_some hf]
    constructor
    · rintro ⟨x, hx⟩
      have hxp : x ≠ p := fun e => by rw [e, hgp] at hx; cases hx
      exact ⟨x, (h x hxp).symm.trans hx⟩
    · rintro ⟨x, hx⟩
      have hxp : x ≠ p := fun e => by rw [e, hfp] at hx; cases hx; exact hk ⟨rfl, rfl⟩
      exact ⟨x, (h x hxp).trans hx⟩

/-- A node that gains a name adds it to the map. -/
theorem names_insert (hf : IndexInv f) (hg : IndexInv g) (h : ∀ x, x ≠ p → g.entry x = f.entry x)
    (hfp : f.entry p = none) {d : Nat} {s : Name} {i : Nat} (hgp : g.entry p = some (d, s, i)) :
    g.names = f.names.insert d s i := by
  funext d' s'
  unfold NameMap.insert
  split_ifs with hk
  · obtain ⟨rfl, rfl⟩ := hk
    exact (names_eq_some hg).2 ⟨p, hgp⟩
  · refine Option.ext fun j => ?_
    rw [Option.mem_def, Option.mem_def, names_eq_some hg, names_eq_some hf]
    constructor
    · rintro ⟨x, hx⟩
      have hxp : x ≠ p := fun e => by rw [e, hgp] at hx; cases hx; exact hk ⟨rfl, rfl⟩
      exact ⟨x, (h x hxp).symm.trans hx⟩
    · rintro ⟨x, hx⟩
      have hxp : x ≠ p := fun e => by rw [e, hfp] at hx; cases hx
      exact ⟨x, (h x hxp).trans hx⟩

/-- A node that keeps its key, and loses none it had, keeps its entry. -/
theorem entry_eq_of_key {x : Ptr}
    (hback : ∀ {y}, g.heap x = some y → y.name.isSome → ∃ y0, f.heap x = some y0 ∧ y0.key = y.key)
    (hfwd : ∀ {y0}, f.heap x = some y0 → y0.name.isSome → ∃ y, g.heap x = some y ∧ y.key = y0.key) :
    g.entry x = f.entry x := by
  refine Option.ext fun e => ?_
  simp only [Option.mem_def, Fuse.entry_eq_some]
  constructor
  · rintro ⟨y, hy, he⟩
    obtain ⟨y0, hy0, hk⟩ := hback hy (Node.entry_name he)
    exact ⟨y0, hy0, (Node.entry_of_key hk).trans he⟩
  · rintro ⟨y0, hy0, he⟩
    obtain ⟨y, hy, hk⟩ := hfwd hy0 (Node.entry_name he)
    exact ⟨y, hy, (Node.entry_of_key hk).trans he⟩

theorem Fuse.KeepsNames.entry_eq {D : Ptr → Prop} {x : Ptr} (hf : Inv f) (h : f.KeepsNames g D)
    (hx : ¬ D x) : g.entry x = f.entry x :=
  entry_eq_of_key h.back fun hy0 hn =>
    let ⟨y, hy, hk, _⟩ := h.fwd hy0 hn (hf.not_forgotten hy0 hn) hx; ⟨y, hy, hk⟩

/-- Under `KeepsNames` a node may lose its entry, never gain or change one. -/
theorem Fuse.KeepsNames.entry_cases {D : Ptr → Prop} (h : f.KeepsNames g D) (x : Ptr) :
    g.entry x = none ∨ g.entry x = f.entry x := by
  cases he : g.entry x with
  | none => exact .inl rfl
  | some e =>
    obtain ⟨y, hy, hye⟩ := Fuse.entry_eq_some.1 he
    obtain ⟨y0, hy0, hk⟩ := h.back hy (Node.entry_name hye)
    exact .inr (Fuse.entry_eq_some.2 ⟨y0, hy0, (Node.entry_of_key hk).trans hye⟩).symm

/-- `hash_name` on `p` moves no other entry. -/
theorem Fuse.KeysBut.entry_eq {x : Ptr} (hf : Inv f) (hk : f.KeysBut g p)
    (ho : f.KeepsOpen g fun _ => False) (hx : x ≠ p) : g.entry x = f.entry x :=
  entry_eq_of_key (fun hy _ => hk hy hx) fun {y0} hy0 hn => by
    obtain ⟨y, hy, -⟩ := ho.held hy0 (hf.not_forgotten hy0 hn) id
    obtain ⟨y1, hy1, e⟩ := hk hy hx
    rw [hy0, Option.some.injEq] at hy1; subst hy1
    exact ⟨y, hy, e.symm⟩

theorem Unhashed.entry_eq {x : Ptr} (hf : Inv f) (hu : Unhashed f g p) (hx : x ≠ p) :
    g.entry x = f.entry x :=
  (hu.keepsNames (D := (· = p)) rfl).entry_eq hf hx

theorem Unhashed.entry_self (hu : Unhashed f g p) : g.entry p = none := by
  obtain ⟨m, hm, hmn⟩ := hu.detached
  simp [Fuse.entry, hm, Node.entry, hmn]

/-- **`unhash_name` erases the name of the node it detaches**, and changes nothing when the
node has no entry and nothing has the name. -/
theorem Unhashed.names (hf : Inv f) (hg : IndexInv g) (hu : Unhashed f g p) {d : Nat} {s : Name}
    (hp : (∃ i, f.entry p = some (d, s, i)) ∨ f.entry p = none ∧ f.names d s = none) :
    g.names = f.names.erase d s := by
  rcases hp with ⟨i, hp⟩ | ⟨hp, hn⟩
  · exact names_erase hf.index hg (fun x hx => hu.entry_eq hf hx) hu.entry_self hp
  · rw [NameMap.erase_of_none hn]
    refine names_congr hf.index hg fun x => ?_
    by_cases hx : x = p
    · rw [hx, hu.entry_self, hp]
    · exact hu.entry_eq hf hx

/-- A write that keeps the node's key keeps the names. -/
theorem names_setNode (hf : IndexInv f) {n : Node} (hp : f.heap p = some n) (n' : Node)
    (hk : n'.key = n.key) :
    (f.setNode p n').names = f.names :=
  names_congr hf (hf.of_sameIndex (SameIndex.setNode hp n' hk)) fun x => by
    by_cases hx : x = p
    · subst hx; simp [Fuse.entry, hp, Node.entry_of_key hk]
    · simp [Fuse.entry, hx]

/-- A forget of the node at `p` drops at most the name of that node. -/
theorem names_forget (hf : Inv f) (hg : IndexInv g) {n : Node} (hp : f.heap p = some n)
    (h : f.KeepsNames g (f.IdAt n.nodeid)) :
    g.names = f.names ∨ ∃ d s, f.names d s = some n.nodeid ∧ g.names = f.names.erase d s := by
  have hx : ∀ x, x ≠ p → g.entry x = f.entry x := fun x hx =>
    h.entry_eq hf fun ⟨m, hm, e⟩ => hx (hf.index.idUnique hm hp e)
  have hall : g.entry p = f.entry p → g.names = f.names := fun hgp =>
    names_congr hf.index hg fun x => if e : x = p then e ▸ hgp else hx x e
  rcases h.entry_cases p with hgp | hgp
  · cases hfp : f.entry p with
    | none => exact .inl (hall (hgp.trans hfp.symm))
    | some e =>
      obtain ⟨d, s, i⟩ := e
      have hi : i = n.nodeid := by
        simp only [Fuse.entry, hp, Option.some_bind, Node.entry_eq_some] at hfp
        exact hfp.2.2.2.symm
      subst hi
      exact .inr ⟨d, s, (names_eq_some hf.index).2 ⟨p, hfp⟩, names_erase hf.index hg hx hgp hfp⟩
  · exact .inl (hall hgp)

/-- A name no node has is a key no node has, but the root's. -/
theorem key_free_of_names (h : Inv f) {d : Nat} {s : Name} (hn : f.names d s = none) (hd : d ≠ 0) :
    ∀ x y, f.heap x = some y → y.name = some s → y.parent ≠ d := by
  refine h.key_free ?_ hd
  cases hl : lookupNode f d s with
  | none => rfl
  | some q =>
    obtain ⟨m, hm, -⟩ := (lookupNode_eq_some h.index).1 hl
    simp [Fuse.names, hl, hm] at hn

end Names

/-! ## What each operation does to the names -/

section Ops
variable {f g : Fuse}

theorem snd_map_eq_ok {ε α β : Type} {x : Except ε (α × β)} {b : β} (h : (·.2) <$> x = .ok b) :
    ∃ a, x = .ok (a, b) := by
  cases x with
  | error e => cases h
  | ok ab => cases h; exact ⟨ab.1, rfl⟩

/-- The id `next_id` issues is not the root's. -/
theorem nextIdLoop_ne_root {id gen : Nat} (h : Inv f)
    (hid : nextIdLoop f (2 ^ nodeidBits) f.ctr f.generation = some (id, gen)) : id ≠ rootId :=
  fun e =>
    let ⟨r, z, hz, hz1, _⟩ := h.refs.root
    (getNodeNocheck_eq_none h.index).1 (nextIdLoop_fresh hid).2 r z hz (hz1.trans e.symm)

/-- **What `find_node` does to the names**: a name that resolves, or an allocation that fails,
changes nothing; a missing name is added under the id `next_id` issued, which no name had. -/
theorem findNode_names {parent : Nat} {name : Name} {ino version : Nat} {callocOk strdupOk : Bool}
    {r : Option (Ptr × Nat)} (h : Inv f) (hpar : Held f parent) (hv : version ≠ 0)
    (hr : findNode f parent name ino version callocOk strdupOk = .ok (r, g)) :
    (DirOp.find parent name ino version callocOk strdupOk).NameStep f.names g.names := by
  cases hl : lookupNode f parent name with
  | some p =>
    obtain ⟨n, hp, -⟩ := (lookupNode_eq_some h.index).1 hl
    rw [findNode_hit hl hp] at hr
    cases hr
    rw [names_setNode h.index hp { n with version := version, nlookup := n.nlookup + 1 } rfl]
    exact .findKeep (.inl (by simp [Fuse.names, hl, hp]))
  | none =>
  cases callocOk with
  | false => rw [findNode_nomem hl] at hr; cases hr; exact .findKeep (.inr (.inl rfl))
  | true =>
  cases hid : nextIdLoop f (2 ^ nodeidBits) f.ctr f.generation with
  | none => rw [findNode_hang h.index hl hid] at hr; cases hr
  | some c =>
  obtain ⟨id, gen⟩ := c
  cases strdupOk with
  | false => rw [findNode_nostr h.index hl hid] at hr; cases hr; exact .findKeep (.inr (.inr rfl))
  | true =>
  obtain ⟨q, m, hm, hqm, hmf⟩ := hpar
  have hq := (getNodeNocheck_eq_some h.index).2 ⟨m, hm, hqm⟩
  rw [findNode_fresh h.index hl hq hm hid] at hr
  cases hr
  have hg := (h.findFresh ⟨q, m, hm, hqm, hmf⟩ hl hv hq hm hid).1.index
  -- the new node's id is fresh, so it is not the root's
  have hfresh := (getNodeNocheck_eq_none h.index).1 (nextIdLoop_fresh hid).2
  have hroot := nextIdLoop_ne_root h hid
  have hpq : f.nextPtr ≠ q := Nat.ne_of_gt (h.index.bounded hm)
  have hnew : (freshState f parent name q m id gen version).entry f.nextPtr = some (parent, name, id) := by
    simp [Fuse.entry, freshState_heap hpq, Node.entry, newNode, hroot]
  rw [names_insert h.index hg (fun x hx => ?_) (by simp [Fuse.entry, h.index.nextPtr_free]) hnew]
  · refine .findNew (by simp [Fuse.names, hl]) fun d s e => ?_
    obtain ⟨x, hx⟩ := (names_eq_some h.index).1 e
    obtain ⟨y, hy, hye⟩ := Fuse.entry_eq_some.1 hx
    exact hfresh x y hy (Node.entry_eq_some.1 hye).2.2.2
  · by_cases hxq : x = q
    · subst hxq; simp [Fuse.entry, freshState_heap hpq, hx, hm, Node.entry]
    · simp [Fuse.entry, freshState_heap hpq, hx, hxq]

/-- **`find_node` then `lookup_node` of the same name give the same node.** In every
reachable directory, when `find_node` answers with a node, the name now resolves to it, its
lookup is counted with the new version, and the inode number the reply carries is the node's id
unless `use_ino` is set. -/
theorem lookupNode_findNode {parent : Nat} {name : Name} {ino version : Nat}
    {callocOk strdupOk : Bool} {p : Ptr} {i : Nat} (hf : Reachable f) (hpar : Held f parent)
    (hv : version ≠ 0) (hr : findNode f parent name ino version callocOk strdupOk = .ok (some (p, i), g)) :
    lookupNode g parent name = some p ∧ ∃ n, g.heap p = some n ∧ 0 < n.nlookup ∧
      n.version = version ∧ i = if f.flags.useIno then ino else n.nodeid := by
  have hg : IndexInv g := by
    rcases findNode_spec hf.inv hpar hv with he | ⟨_, _, he, hg, -⟩ <;> rw [hr] at he
    · cases he
    · cases he; exact hg.index
  rcases findNode_cases hf.inv.index hr with ⟨he, -⟩ | ⟨q, n, he, hl, hq, rfl⟩ |
    ⟨q, m, id, gen, -, -, hm, hid, he, rfl⟩
  · cases he
  · -- a hit: the node found keeps its key
    obtain ⟨rfl, rfl⟩ : p = q ∧ i = _ := by simpa using he
    obtain ⟨_, hn, hroot, hpa, hs⟩ := (lookupNode_eq_some hf.inv.index).1 hl
    obtain rfl := Option.some.inj (hq.symm.trans hn)
    have hgp : (f.setNode p { n with version := version, nlookup := n.nlookup + 1 }).heap p =
        some { n with version := version, nlookup := n.nlookup + 1 } := by simp
    exact ⟨(lookupNode_eq_some hg).2 ⟨_, hgp, hroot, hpa, hs⟩, _, hgp, Nat.succ_pos _, rfl, rfl⟩
  · -- a new node: attached under its key with one lookup
    obtain ⟨rfl, rfl⟩ : p = f.nextPtr ∧ i = _ := by simpa using he
    have hgp := @freshState_heap f parent name q m id gen version
      (Nat.ne_of_gt (hf.inv.index.bounded hm)) f.nextPtr
    rw [if_pos rfl] at hgp
    exact ⟨(lookupNode_eq_some hg).2 ⟨_, hgp, nextIdLoop_ne_root hf.inv hid, rfl, rfl⟩, _, hgp,
      Nat.one_pos, rfl, rfl⟩

theorem lookupNode_findNode_fuseNew : Reachable (fuseNew {}) ∧ Held (fuseNew {}) 1 ∧
    ∃ g, findNode (fuseNew {}) 1 [97] 0 1 true true = .ok (some (1, 2), g) ∧
      lookupNode g 1 [97] = some 1 ∧ ∃ n, g.heap 1 = some n ∧ 0 < n.nlookup ∧ n.version = 1 ∧
        2 = if (fuseNew {}).flags.useIno then 0 else n.nodeid :=
  have held : Held (fuseNew {}) 1 := ⟨0, _, rfl, rfl, by decide⟩
  have hr : findNode (fuseNew {}) 1 [97] 0 1 true true = .ok (some (1, 2), _) := rfl
  ⟨.init {}, held, _, hr, lookupNode_findNode (.init {}) held one_ne_zero hr⟩

/-- A forget drops at most the name of the node it forgets. -/
theorem DirOp.NameStep.of_keepsNames {o : DirOp} {id : Nat} (h : Inv f) (hg : IndexInv g)
    (hheld : Held f id) (ho : o.Forgets id) (hk : f.KeepsNames g (f.IdAt id)) :
    o.NameStep f.names g.names := by
  obtain ⟨p, n, hp, rfl, -⟩ := hheld
  exact .forget ho (names_forget h hg hp hk)

/-- **`remove_node` erases the name.** -/
theorem removeNode_names {dir : Nat} {name : Name} (h : Inv f) (hr : removeNode f dir name = .ok g) :
    g.names = f.names.erase dir name := by
  cases hl : lookupNode f dir name with
  | none =>
    simp only [removeNode, hl, pure_eq_ok, Except.ok.injEq] at hr; subst hr
    exact (NameMap.erase_of_none (by simp [Fuse.names, hl])).symm
  | some p =>
    obtain ⟨n, hp, hrt, hd, hs⟩ := (lookupNode_eq_some h.index).1 hl
    obtain ⟨g', hg', hI, -, hu⟩ := unhashName_spec h.index h.refs hp hrt
    simp only [removeNode, hl, hg', Except.ok.injEq] at hr; subst hr
    exact hu.names h hI (.inl ⟨_, Fuse.entry_of_heap hp hrt hd hs⟩)

/-- **What `rename_node` does to the names**: the source name moves over the target's, or both
are lost when the new name cannot be copied; a missing source, or a hide onto a name that is
taken, changes nothing. -/
theorem renameNode_names {olddir newdir : Nat} {oldname newname : Name} {hide strdupOk : Bool}
    {r : Int} (h : Inv f) (hnew : Held f newdir)
    (hr : renameNode f olddir oldname newdir newname hide strdupOk = .ok (r, g)) :
    g.names = f.names.rename olddir oldname newdir newname hide strdupOk := by
  have hnd := hnew.ne_zero h.index
  cases hl : lookupNode f olddir oldname with
  | none =>
    have hsrc : f.names olddir oldname = none := by simp [Fuse.names, hl]
    rw [show renameNode f olddir oldname newdir newname hide strdupOk = .ok (0, f) by
      simp [renameNode, hl]] at hr
    cases hr
    simp [NameMap.rename, hsrc]
  | some p =>
  obtain ⟨n, hp, hrt, hd, hs⟩ := (lookupNode_eq_some h.index).1 hl
  have hnf := h.not_forgotten hp (by simp [hs])
  have hsrc : f.names olddir oldname = some n.nodeid := by simp [Fuse.names, hl, hp]
  have htgt : (f.names newdir newname).isSome = (lookupNode f newdir newname).isSome := by
    cases hq : lookupNode f newdir newname with
    | none => simp [Fuse.names, hq]
    | some q => obtain ⟨m, hm, -⟩ := (lookupNode_eq_some h.index).1 hq; simp [Fuse.names, hq, hm]
  by_cases hb : hide = true ∧ (lookupNode f newdir newname).isSome = true
  · rw [show renameNode f olddir oldname newdir newname hide strdupOk = .ok (-EBUSY, f) by
      simp [renameNode, hl, hb]] at hr
    cases hr
    simp [NameMap.rename, hsrc, htgt, hb]
  have hb' : ¬ (hide = true ∧ (f.names newdir newname).isSome = true) := htgt ▸ hb
  -- the node at the target, if any, is detached first; the source keeps its name, unless it is
  -- that node
  obtain ⟨g1, hg1, h1, hv1, ho1, hp1⟩ : ∃ g1,
      (lookupNode f newdir newname = none ∧ g1 = f ∨
        ∃ q, lookupNode f newdir newname = some q ∧ unhashName f q = .ok g1) ∧ Inv g1 ∧
      g1.names = f.names.erase newdir newname ∧ f.KeepsOpen g1 (fun _ => False) ∧
      ((∃ i, g1.entry p = some (olddir, oldname, i)) ∨
        g1.entry p = none ∧ g1.names olddir oldname = none) := by
    cases hq : lookupNode f newdir newname with
    | none =>
      exact ⟨f, .inl ⟨rfl, rfl⟩, h, (NameMap.erase_of_none (by simp [Fuse.names, hq])).symm,
        .refl f _, .inl ⟨_, Fuse.entry_of_heap hp hrt hd hs⟩⟩
    | some q =>
      obtain ⟨m, hm, hmr, hmp, hmn⟩ := (lookupNode_eq_some h.index).1 hq
      obtain ⟨g1, hg1, hI, hR, hu⟩ := unhashName_spec h.index h.refs hm hmr
      have hv1 := hu.names h hI (.inl ⟨_, Fuse.entry_of_heap hm hmr hmp hmn⟩)
      refine ⟨g1, .inr ⟨q, rfl, hg1⟩, ⟨hI, hR⟩, hv1, hu.keepsOpen _, ?_⟩
      by_cases hpq : p = q
      · subst hpq
        rw [hp, Option.some.injEq] at hm; subst hm
        obtain rfl : olddir = newdir := hd.symm.trans hmp
        obtain rfl : oldname = newname := Option.some.inj (hs.symm.trans hmn)
        exact .inr ⟨hu.entry_self, by simp [hv1, NameMap.erase]⟩
      · exact .inl ⟨_, (hu.entry_eq h hpq).trans (Fuse.entry_of_heap hp hrt hd hs)⟩
  -- then the source
  obtain ⟨n1, hn1, -, hid1, -⟩ := ho1.held hp hnf id
  obtain ⟨g2, hg2, hI2, hR2, hu2⟩ := unhashName_spec h1.index h1.refs hn1 (hid1.trans_ne hrt)
  have hv2 : g2.names = (f.names.erase newdir newname).erase olddir oldname := by
    rw [hu2.names h1 hI2 hp1, hv1]
  obtain ⟨n2, hn2, hn2n⟩ := hu2.detached
  cases strdupOk with
  | false =>
    have hrec : ({ n2 with name := none } : Node) = n2 := by rw [← hn2n]
    have hrun : renameNode f olddir oldname newdir newname hide false = .ok (-ENOMEM, g2) := by
      rcases hg1 with ⟨hq, rfl⟩ | ⟨q, hq, hq1⟩
      · simp only [renameNode, hl, hq, Option.isSome_none, Bool.false_eq_true, and_false, ↓reduceIte,
          pure_eq_ok, Int.reduceNeg, ok_bind, hg2, hashName_eq_fail hn2, hrec, Fuse.setNode_self hn2]
      · have hh : hide = false := by simpa [hq] using hb
        simp only [renameNode, hl, hh, Bool.false_eq_true, hq, Option.isSome_some, and_true, ↓reduceIte,
          pure_eq_ok, hq1, Int.reduceNeg, ok_bind, hg2, hashName_eq_fail hn2, hrec, Fuse.setNode_self hn2]
    rw [hrun] at hr; cases hr
    simp [hv2, NameMap.rename, hsrc, hb']
  | true =>
  -- `hash_name` attaches the source under the new key, which is free
  have ho2 : f.KeepsOpen g2 fun _ => False := ho1.trans (hu2.keepsOpen _)
  obtain ⟨y, hy, hyf, hyid, -⟩ := ho2.held hp hnf id
  rw [hn2, Option.some.injEq] at hy; subst hy
  obtain ⟨q0, m0, hq0, hm0, hmf0⟩ := hnew
  obtain ⟨m2, hm2, hm2f, hm2id, -⟩ := ho2.held hq0 hmf0 id
  obtain ⟨g3, hg3, h3, -, -, ho3, hkb, n3, hn3, hid3, hname3, hpar3⟩ :=
    hashName_spec ⟨hI2, hR2⟩ hn2 hn2n (hyid.trans_ne hrt) hyf ⟨q0, m2, hm2, hm2id.trans hm0, hm2f⟩
      (key_free_of_names (s := newname) ⟨hI2, hR2⟩ (by simp [hv2, NameMap.erase]) hnd)
  have e3 : n3.nodeid = n.nodeid := (Node.nodeid_of_ident hid3).trans hyid
  have hp3 : g3.entry p = some (newdir, newname, n.nodeid) :=
    e3 ▸ Fuse.entry_of_heap hn3 (e3.trans_ne hrt) hpar3 hname3
  have hmove : g3.names = f.names.rename olddir oldname newdir newname hide true := by
    rw [names_insert hI2 h3.index (fun x hx => hkb.entry_eq ⟨hI2, hR2⟩ (ho3 _) hx) hu2.entry_self hp3,
      hv2, NameMap.erase_comm, NameMap.insert_erase]
    simp [NameMap.rename, hsrc, hb']
  cases hide with
  | false =>
    have hrun : renameNode f olddir oldname newdir newname false true = .ok (0, g3) := by
      rcases hg1 with ⟨hq, rfl⟩ | ⟨q, hq, hq1⟩
      · simp only [renameNode, hl, Bool.false_eq_true, hq, Option.isSome_none, and_self, ↓reduceIte,
          pure_eq_ok, Int.reduceNeg, ok_bind, hg2, hg3, reduceCtorEq]
      · simp only [renameNode, hl, Bool.false_eq_true, hq, Option.isSome_some, and_true, ↓reduceIte,
          pure_eq_ok, hq1, Int.reduceNeg, ok_bind, hg2, hg3, reduceCtorEq]
    rw [hrun] at hr; cases hr; exact hmove
  | true =>
    have hrun : renameNode f olddir oldname newdir newname true true =
        .ok (0, g3.setNode p { n3 with isHidden := true }) := by
      rcases hg1 with ⟨hq, rfl⟩ | ⟨q, hq, -⟩
      · simp only [renameNode, hl, hq, Option.isSome_none, Bool.false_eq_true, and_false, ↓reduceIte,
          pure_eq_ok, Int.reduceNeg, Fuse.node, ok_bind, hg2, hg3, reduceCtorEq, hn3]
      · simp [hq] at hb
    rw [hrun] at hr; cases hr
    rw [names_setNode h3.index hn3 { n3 with isHidden := true } rfl]; exact hmove

/-- Every allowed operation changes the names by its step. -/
theorem DirOp.nameStep_of_run {o : DirOp} (h : Inv f) (ho : o.Allowed f) (hr : o.run f = .ok g) :
    o.NameStep f.names g.names := by
  have hg := (DirOp.run_inv h ho hr).1.index
  cases o with
  | init major => cases hr; exact .init
  | find parent name ino version callocOk strdupOk =>
    obtain ⟨r, hr⟩ := snd_map_eq_ok hr
    exact findNode_names h ho.1 ho.2 hr
  | forget nodeid nlookup =>
    obtain ⟨g', hg', -, -, -, -, hk, -⟩ := forgetNode_spec h ho.1 ho.2
    cases hr.symm.trans hg'
    exact .of_keepsNames h hg ho.1 rfl hk
  | forgetOld nodeid version =>
    obtain ⟨g', hg', -, -, -, -, hk⟩ := @forgetNodeOld_spec f nodeid version h ho
    cases hr.symm.trans hg'
    exact .of_keepsNames h hg ho rfl hk
  | cancel nodeid version =>
    obtain ⟨g', hg', -, -, -, -, hk⟩ := @cancelLookup_spec f nodeid version h ho
    cases hr.symm.trans hg'
    exact .of_keepsNames h hg ho rfl hk
  | remove dir name => rw [removeNode_names h hr]; exact .remove
  | rename olddir oldname newdir newname hide strdupOk =>
    obtain ⟨r, hr⟩ := snd_map_eq_ok hr
    rw [renameNode_names h ho hr]; exact .rename

/-- **The hash tables refine the map of names.** In every reachable directory, an operation
the kernel may ask for changes what `lookup_node` resolves by one step of the map. -/
theorem names_refine {o : DirOp} (hf : Reachable f) (ho : o.Allowed f) (hr : o.run f = .ok g) :
    o.NameStep f.names g.names :=
  DirOp.nameStep_of_run hf.inv ho hr

theorem names_refine_move :
    Reachable dirAB ∧ (DirOp.rename rootId [97] 3 [97] false true).Allowed dirAB ∧
      ∃ g, (DirOp.rename rootId [97] 3 [97] false true).run dirAB = .ok g ∧
        (DirOp.rename rootId [97] 3 [97] false true).NameStep dirAB.names g.names ∧
        dirAB.names rootId [97] = some 2 ∧ g.names rootId [97] = none ∧ g.names 3 [97] = some 2 :=
  have ho : (DirOp.rename rootId [97] 3 [97] false true).Allowed dirAB := ⟨2, _, rfl, rfl, by decide⟩
  ⟨reachable_dirAB, ho, _, rfl, names_refine reachable_dirAB ho rfl, rfl, rfl, rfl⟩

/-- **No id has two names.** The names of every reachable directory are reached from the empty
map by the steps of the map, so no two keys resolve to one id. -/
theorem names_reach (hf : Reachable f) : NameReach f.names ∧ f.names.Injective := by
  have hr : NameReach f.names := by
    induction hf with
    | init flags => exact .empty
    | step o hf ho hrun ih => exact .step o ih (DirOp.nameStep_of_run hf.inv ho hrun)
  exact ⟨hr, hr.injective⟩

theorem names_reach_dirAB :
    Reachable dirAB ∧ dirAB.names rootId [97] = some 2 ∧ dirAB.names rootId [98] = some 3 ∧
      NameReach dirAB.names ∧ dirAB.names.Injective :=
  ⟨reachable_dirAB, rfl, rfl, names_reach reachable_dirAB⟩

end Ops

end FuseCore
