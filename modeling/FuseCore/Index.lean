import FuseCore.Table
import Mathlib.Data.List.Nodup

/-!
# The tables index the heap (fuse.c:156-294)

`IndexInv` says the id table holds every live node once, in bucket `nodeid % id_table_size`,
and nothing else; the name table holds every attached non-root node once, in bucket
`name_hash(parent, name)`, and nothing else; ids are nonzero and unique, and keys of attached
nodes are unique. Under it the probes are exact (`getNodeNocheck_eq_some`,
`lookupNode_eq_some`): the chain walk finds *the* node with that id or key.

The invariant reads a node only through its id, name and parent (`Node.key`), so any write
that keeps those and the tables keeps it (`IndexInv.of_sameIndex`). The other writes are
`detach`, `attach`, `dropRef` at zero and the insertion of a fresh node.
-/

namespace FuseCore

/-- What the tables see of a node. -/
def Node.key (n : Node) : Nat × Option Name × Nat := (n.nodeid, n.name, n.parent)

/-- The tables index the heap. -/
structure IndexInv (f : Fuse) : Prop where
  bounded : ∀ {p n}, f.heap p = some n → p < f.nextPtr
  nonzero : ∀ {p n}, f.heap p = some n → n.nodeid ≠ 0
  idUnique : ∀ {p q n m}, f.heap p = some n → f.heap q = some m → n.nodeid = m.nodeid → p = q
  idNodup : ∀ b, (f.idTable b).Nodup
  idMem : ∀ b p, p ∈ f.idTable b ↔ ∃ n, f.heap p = some n ∧ n.nodeid % idTableSize = b
  nameNodup : ∀ b, (f.nameTable b).Nodup
  nameMem : ∀ b p, p ∈ f.nameTable b ↔
    ∃ n s, f.heap p = some n ∧ n.nodeid ≠ rootId ∧ n.name = some s ∧ nameHash n.parent s = b
  keyUnique : ∀ {p q n m}, f.heap p = some n → f.heap q = some m → n.name.isSome →
    n.name = m.name → n.parent = m.parent → p = q

/-- The first unused address holds no node. -/
theorem IndexInv.nextPtr_free {f : Fuse} (h : IndexInv f) : f.heap f.nextPtr = none := by
  cases hp : f.heap f.nextPtr with
  | none => rfl
  | some n => exact absurd (h.bounded hp) (Nat.lt_irrefl _)

section Queries
variable {f : Fuse} (h : IndexInv f)
include h

/-- **`get_node_nocheck` is exact.** -/
theorem getNodeNocheck_eq_some {id : Nat} {p : Ptr} :
    getNodeNocheck f id = some p ↔ ∃ n, f.heap p = some n ∧ n.nodeid = id := by
  refine ⟨getNodeNocheck_some, ?_⟩
  rintro ⟨n, hn, rfl⟩
  have hmem : p ∈ f.idTable (n.nodeid % idTableSize) := (h.idMem _ p).2 ⟨n, hn, rfl⟩
  cases hf : getNodeNocheck f n.nodeid with
  | none =>
    have := List.find?_eq_none.1 hf p hmem
    simp [hn] at this
  | some q =>
    obtain ⟨m, hm, e⟩ := getNodeNocheck_some hf
    exact congrArg some (h.idUnique hm hn e)

theorem getNodeNocheck_eq_none {id : Nat} :
    getNodeNocheck f id = none ↔ ∀ p n, f.heap p = some n → n.nodeid ≠ id := by
  constructor
  · intro hf p n hn hid
    have := (getNodeNocheck_eq_some h).2 ⟨n, hn, hid⟩
    simp [hf] at this
  · intro hall
    cases hf : getNodeNocheck f id with
    | none => rfl
    | some p =>
      obtain ⟨n, hn, hid⟩ := (getNodeNocheck_eq_some h).1 hf
      exact absurd hid (hall p n hn)

/-- **`lookup_node` is exact**: it finds the attached non-root node with that key. -/
theorem lookupNode_eq_some {parent : Nat} {name : Name} {p : Ptr} :
    lookupNode f parent name = some p ↔
      ∃ n, f.heap p = some n ∧ n.nodeid ≠ rootId ∧ n.parent = parent ∧ n.name = some name := by
  constructor
  · intro hf
    have hp := List.find?_some hf
    obtain ⟨n, s, hn, hr, -⟩ := (h.nameMem _ p).1 (List.mem_of_find?_eq_some hf)
    simp only [hn, Option.any_some, Bool.and_eq_true, beq_iff_eq] at hp
    exact ⟨n, hn, hr, hp⟩
  · rintro ⟨n, hn, hr, rfl, hs⟩
    have hmem : p ∈ f.nameTable (nameHash n.parent name) := (h.nameMem _ p).2 ⟨n, name, hn, hr, hs, rfl⟩
    cases hf : lookupNode f n.parent name with
    | none =>
      have := List.find?_eq_none.1 hf p hmem
      simp [hn, hs] at this
    | some q =>
      have hq := List.find?_some hf
      cases hh : f.heap q with
      | none => simp [hh] at hq
      | some m =>
        simp only [hh, Option.any_some, Bool.and_eq_true, beq_iff_eq] at hq
        exact congrArg some (h.keyUnique hh hn (by simp [hq.2]) (by rw [hq.2, hs]) (by rw [hq.1]))

theorem lookupNode_eq_none {parent : Nat} {name : Name} :
    lookupNode f parent name = none ↔
      ∀ p n, f.heap p = some n → n.nodeid ≠ rootId → n.parent = parent → n.name ≠ some name := by
  constructor
  · intro hf p n hn hr hpar hs
    have := (lookupNode_eq_some h).2 ⟨n, hn, hr, hpar, hs⟩
    simp [hf] at this
  · intro hall
    cases hf : lookupNode f parent name with
    | none => rfl
    | some p =>
      obtain ⟨n, hn, hr, hpar, hs⟩ := (lookupNode_eq_some h).1 hf
      exact absurd hs (hall p n hn hr hpar)

/-- An attached non-root node is linked once, in the bucket of its key, and nowhere else. -/
theorem count_nameTable {p : Ptr} {n : Node} {s : Name} (hp : f.heap p = some n)
    (hr : n.nodeid ≠ rootId) (hs : n.name = some s) (b : Nat) :
    (f.nameTable b).count p = if b = nameHash n.parent s then 1 else 0 := by
  split
  · rename_i hb; subst hb
    exact List.count_eq_one_of_mem (h.nameNodup _) ((h.nameMem _ p).2 ⟨n, s, hp, hr, hs, rfl⟩)
  · rename_i hb
    refine List.count_eq_zero_of_not_mem fun hm => hb ?_
    obtain ⟨n', s', hp', -, hs', e⟩ := (h.nameMem b p).1 hm
    rw [hp, Option.some.injEq] at hp'; subst hp'
    rw [hs, Option.some.injEq] at hs'; subst hs'
    exact e.symm

/-- A live node is linked once, in the bucket of its id, and nowhere else. -/
theorem count_idTable {p : Ptr} {n : Node} (hp : f.heap p = some n) (b : Nat) :
    (f.idTable b).count p = if b = n.nodeid % idTableSize then 1 else 0 := by
  split
  · rename_i hb; subst hb
    exact List.count_eq_one_of_mem (h.idNodup _) ((h.idMem _ p).2 ⟨n, hp, rfl⟩)
  · rename_i hb
    refine List.count_eq_zero_of_not_mem fun hm => hb ?_
    obtain ⟨n', hp', e⟩ := (h.idMem b p).1 hm
    rw [hp, Option.some.injEq] at hp'; subst hp'
    exact e.symm

end Queries

/-! ## Writes that keep the index -/

/-- `g` keeps what the tables see of `f`. -/
structure SameIndex (f g : Fuse) : Prop where
  idTable : g.idTable = f.idTable
  nameTable : g.nameTable = f.nameTable
  nextPtr : f.nextPtr ≤ g.nextPtr
  key : ∀ p, (g.heap p).map Node.key = (f.heap p).map Node.key

theorem SameIndex.back {f g : Fuse} (hs : SameIndex f g) {p : Ptr} {n' : Node}
    (hg : g.heap p = some n') :
    ∃ n, f.heap p = some n ∧ n.nodeid = n'.nodeid ∧ n.name = n'.name ∧ n.parent = n'.parent := by
  have := hs.key p
  rw [hg] at this
  cases hf : f.heap p with
  | none => simp [hf] at this
  | some n => simp only [hf, Option.map_some', Option.some.injEq, Node.key, Prod.mk.injEq] at this
              exact ⟨n, rfl, this.1.symm, this.2.1.symm, this.2.2.symm⟩

theorem SameIndex.fwd {f g : Fuse} (hs : SameIndex f g) {p : Ptr} {n : Node}
    (hf : f.heap p = some n) :
    ∃ n', g.heap p = some n' ∧ n.nodeid = n'.nodeid ∧ n.name = n'.name ∧ n.parent = n'.parent := by
  have := hs.key p
  rw [hf] at this
  cases hg : g.heap p with
  | none => simp [hg] at this
  | some n' => simp only [hg, Option.map_some', Option.some.injEq, Node.key, Prod.mk.injEq] at this
               exact ⟨n', rfl, this.1.symm, this.2.1.symm, this.2.2.symm⟩

theorem IndexInv.of_sameIndex {f g : Fuse} (h : IndexInv f) (hs : SameIndex f g) : IndexInv g where
  bounded hg := by
    obtain ⟨n, hn, -⟩ := hs.back hg
    exact lt_of_lt_of_le (h.bounded hn) hs.nextPtr
  nonzero hg := by
    obtain ⟨n, hn, hid, -⟩ := hs.back hg
    exact hid ▸ h.nonzero hn
  idUnique hp hq hid := by
    obtain ⟨n, hn, hn1, -⟩ := hs.back hp
    obtain ⟨m, hm, hm1, -⟩ := hs.back hq
    exact h.idUnique hn hm (by rw [hn1, hm1, hid])
  idNodup b := hs.idTable ▸ h.idNodup b
  idMem b p := by
    rw [hs.idTable, h.idMem]
    constructor
    · rintro ⟨n, hn, hb⟩
      obtain ⟨n', hn', hid, -⟩ := hs.fwd hn
      exact ⟨n', hn', hid ▸ hb⟩
    · rintro ⟨n', hn', hb⟩
      obtain ⟨n, hn, hid, -⟩ := hs.back hn'
      exact ⟨n, hn, hid ▸ hb⟩
  nameNodup b := hs.nameTable ▸ h.nameNodup b
  nameMem b p := by
    rw [hs.nameTable, h.nameMem]
    constructor
    · rintro ⟨n, s, hn, hr, hs', hb⟩
      obtain ⟨n', hn', hid, hnm, hpar⟩ := hs.fwd hn
      exact ⟨n', s, hn', hid ▸ hr, hnm ▸ hs', hpar ▸ hb⟩
    · rintro ⟨n', s, hn', hr, hs', hb⟩
      obtain ⟨n, hn, hid, hnm, hpar⟩ := hs.back hn'
      exact ⟨n, s, hn, hid ▸ hr, hnm ▸ hs', hpar ▸ hb⟩
  keyUnique hp hq ha hname hpar := by
    obtain ⟨n, hn, -, hn2, hn3⟩ := hs.back hp
    obtain ⟨m, hm, -, hm2, hm3⟩ := hs.back hq
    exact h.keyUnique hn hm (hn2 ▸ ha) (by rw [hn2, hm2, hname]) (by rw [hn3, hm3, hpar])

/-- A write through a pointer that keeps the node's id, name and parent. -/
theorem SameIndex.setNode {f : Fuse} {p : Ptr} {n : Node} (hp : f.heap p = some n) (n' : Node)
    (hk : n'.key = n.key) : SameIndex f (f.setNode p n') where
  idTable := rfl
  nameTable := rfl
  nextPtr := le_refl _
  key q := by by_cases hq : q = p <;> simp [hq, hp, hk]

theorem update_eq_some {α : Type} {h : Ptr → Option α} {p q : Ptr} {v : Option α} {a : α} :
    Function.update h p v q = some a ↔ (q = p ∧ v = some a) ∨ (q ≠ p ∧ h q = some a) := by
  by_cases hq : q = p
  · subst hq; simp
  · simp [hq]

/-- Detaching an attached node keeps the index. -/
theorem IndexInv.detach {f : Fuse} {p : Ptr} {n : Node} {s : Name} (h : IndexInv f)
    (hp : f.heap p = some n) (hs : n.name = some s) :
    IndexInv (f.detach p n s) where
  bounded hq := by
    simp only [Fuse.detach, Fuse.setNode_heap, Fuse.eraseName_heap, update_eq_some] at hq
    rcases hq with ⟨rfl, -⟩ | ⟨-, hq⟩
    exacts [h.bounded hp, h.bounded hq]
  nonzero hq := by
    simp only [Fuse.detach, Fuse.setNode_heap, Fuse.eraseName_heap, update_eq_some] at hq
    rcases hq with ⟨-, ⟨⟩⟩ | ⟨-, hq⟩
    exacts [by simpa using h.nonzero hp, h.nonzero hq]
  idUnique hq hq' hid := by
    simp only [Fuse.detach, Fuse.setNode_heap, Fuse.eraseName_heap, update_eq_some] at hq hq'
    rcases hq with ⟨rfl, ⟨⟩⟩ | ⟨-, hq⟩ <;> rcases hq' with ⟨rfl, ⟨⟩⟩ | ⟨-, hq'⟩
    exacts [rfl, h.idUnique hp hq' hid, h.idUnique hq hp hid, h.idUnique hq hq' hid]
  idNodup := h.idNodup
  idMem b q := by
    simp only [Fuse.detach, Fuse.setNode_idTable, Fuse.eraseName_idTable, h.idMem,
      Fuse.setNode_heap, Fuse.eraseName_heap, update_eq_some]
    by_cases hq : q = p
    · subst hq; simp [hp]
    · simp [hq]
  nameNodup b := by
    simp only [Fuse.detach, Fuse.setNode_nameTable, Fuse.eraseName_nameTable, Function.update_apply]
    split
    · exact (h.nameNodup _).erase p
    · exact h.nameNodup b
  nameMem b q := by
    simp only [Fuse.detach, Fuse.setNode_nameTable, Fuse.eraseName_nameTable, Fuse.setNode_heap,
      Fuse.eraseName_heap, update_eq_some, Function.update_apply]
    by_cases hq : q = p
    · subst hq
      simp only [if_true, Option.some.injEq, exists_and_left, exists_eq_left', ne_eq, reduceCtorEq,
        false_and, and_false, exists_false, iff_false]
      intro hmem
      split at hmem
      · simp [(h.nameNodup _).mem_erase_iff] at hmem
      · obtain ⟨m, t, hm, -, hmt, hb⟩ := (h.nameMem b q).1 hmem
        rw [hp, Option.some.injEq] at hm
        subst hm
        rw [hs, Option.some.injEq] at hmt
        subst hmt
        exact absurd hb.symm ‹_›
    · simp only [hq, if_false]
      split
      · rename_i hb
        subst hb
        rw [(h.nameNodup _).mem_erase_iff, h.nameMem]
        simp [hq]
      · exact h.nameMem b q
  keyUnique hq hq' ha hname hpar := by
    simp only [Fuse.detach, Fuse.setNode_heap, Fuse.eraseName_heap, update_eq_some] at hq hq'
    rcases hq with ⟨rfl, ⟨⟩⟩ | ⟨-, hq⟩
    · simp at ha
    rcases hq' with ⟨rfl, ⟨⟩⟩ | ⟨-, hq'⟩
    · simp_all
    exact h.keyUnique hq hq' ha hname hpar

/-- A detached node is in no name bucket. -/
theorem IndexInv.not_mem_name {f : Fuse} (h : IndexInv f) {p : Ptr} {n : Node}
    (hp : f.heap p = some n) (hn : n.name = none) (b : Nat) : p ∉ f.nameTable b := by
  rw [h.nameMem]
  rintro ⟨m, t, hm, -, hmt, -⟩
  rw [hp, Option.some.injEq] at hm
  subst hm
  simp [hn] at hmt

/-- Attaching a detached non-root node under a free key keeps the index. -/
theorem IndexInv.attach {f : Fuse} {p : Ptr} {n : Node} {parent : Nat} {name : Name}
    (h : IndexInv f) (hp : f.heap p = some n) (hn : n.name = none) (hr : n.nodeid ≠ rootId)
    (hfree : ∀ q m, f.heap q = some m → m.name = some name → m.parent ≠ parent) :
    IndexInv (f.attach p n parent name) where
  bounded hq := by
    simp only [Fuse.attach, Fuse.pushName_heap, Fuse.setNode_heap, update_eq_some] at hq
    rcases hq with ⟨rfl, -⟩ | ⟨-, hq⟩
    exacts [h.bounded hp, h.bounded hq]
  nonzero hq := by
    simp only [Fuse.attach, Fuse.pushName_heap, Fuse.setNode_heap, update_eq_some] at hq
    rcases hq with ⟨-, ⟨⟩⟩ | ⟨-, hq⟩
    exacts [by simpa using h.nonzero hp, h.nonzero hq]
  idUnique hq hq' hid := by
    simp only [Fuse.attach, Fuse.pushName_heap, Fuse.setNode_heap, update_eq_some] at hq hq'
    rcases hq with ⟨rfl, ⟨⟩⟩ | ⟨-, hq⟩ <;> rcases hq' with ⟨rfl, ⟨⟩⟩ | ⟨-, hq'⟩
    exacts [rfl, h.idUnique hp hq' hid, h.idUnique hq hp hid, h.idUnique hq hq' hid]
  idNodup := h.idNodup
  idMem b q := by
    simp only [Fuse.attach, Fuse.pushName_idTable, Fuse.setNode_idTable, h.idMem,
      Fuse.pushName_heap, Fuse.setNode_heap, update_eq_some]
    by_cases hq : q = p
    · subst hq; simp [hp]
    · simp [hq]
  nameNodup b := by
    simp only [Fuse.attach, Fuse.pushName_nameTable, Fuse.setNode_nameTable, Function.update_apply]
    split
    · exact List.nodup_cons.2 ⟨h.not_mem_name hp hn _, h.nameNodup _⟩
    · exact h.nameNodup b
  nameMem b q := by
    simp only [Fuse.attach, Fuse.pushName_nameTable, Fuse.setNode_nameTable, Fuse.pushName_heap,
      Fuse.setNode_heap, update_eq_some, Function.update_apply]
    by_cases hq : q = p
    · subst hq
      have := h.not_mem_name hp hn b
      split <;> simp_all [eq_comm]
    · split
      · rename_i hb
        subst hb
        rw [List.mem_cons, h.nameMem]
        simp [hq]
      · simpa [hq] using h.nameMem b q
  keyUnique hq hq' ha hname hpar := by
    simp only [Fuse.attach, Fuse.pushName_heap, Fuse.setNode_heap, update_eq_some] at hq hq'
    rcases hq with ⟨rfl, ⟨⟩⟩ | ⟨hne, hq⟩ <;> rcases hq' with ⟨rfl, ⟨⟩⟩ | ⟨hne', hq'⟩
    · rfl
    · exact absurd hpar.symm (hfree _ _ hq' hname.symm)
    · exact absurd hpar (hfree _ _ hq hname)
    · exact h.keyUnique hq hq' ha hname hpar

/-- A dead pointer is in no id bucket. -/
theorem IndexInv.not_mem_id {f : Fuse} (h : IndexInv f) {p : Ptr} (hp : f.heap p = none)
    (b : Nat) : p ∉ f.idTable b := by
  rw [h.idMem]
  rintro ⟨m, hm, -⟩
  simp [hp] at hm

/-- Dropping a reference keeps the index, provided a node destroyed at zero is detached. -/
theorem IndexInv.dropRef {f : Fuse} {q : Ptr} {m : Node} (h : IndexInv f)
    (hq : f.heap q = some m) (hone : m.refctr = 1 → m.name = none) :
    IndexInv (f.dropRef q m) := by
  unfold Fuse.dropRef
  split
  · rename_i h1
    have hdet := h.not_mem_name hq (hone h1)
    exact {
      bounded := fun hx => by
        simp only [Fuse.freeNode_heap, Fuse.eraseId_heap, update_eq_some] at hx
        rcases hx with ⟨-, ⟨⟩⟩ | ⟨-, hx⟩
        exact h.bounded hx
      nonzero := fun hx => by
        simp only [Fuse.freeNode_heap, Fuse.eraseId_heap, update_eq_some] at hx
        rcases hx with ⟨-, ⟨⟩⟩ | ⟨-, hx⟩
        exact h.nonzero hx
      idUnique := fun hx hy hid => by
        simp only [Fuse.freeNode_heap, Fuse.eraseId_heap, update_eq_some] at hx hy
        rcases hx with ⟨-, ⟨⟩⟩ | ⟨-, hx⟩
        rcases hy with ⟨-, ⟨⟩⟩ | ⟨-, hy⟩
        exact h.idUnique hx hy hid
      idNodup := fun b => by
        simp only [Fuse.freeNode_idTable, Fuse.eraseId_idTable, Function.update_apply]
        split
        · exact (h.idNodup _).erase q
        · exact h.idNodup b
      idMem := fun b x => by
        simp only [Fuse.freeNode_idTable, Fuse.eraseId_idTable, Fuse.freeNode_heap,
          Fuse.eraseId_heap, update_eq_some, Function.update_apply]
        by_cases hx : x = q
        · subst hx
          split
          · simp [(h.idNodup _).mem_erase_iff]
          · rename_i hb
            simp only [h.idMem, hq, Option.some.injEq, exists_eq_left']
            simp [Ne.symm hb]
        · split
          · rename_i hb
            subst hb
            rw [(h.idNodup _).mem_erase_iff, h.idMem]
            simp [hx]
          · simpa [hx] using h.idMem b x
      nameNodup := h.nameNodup
      nameMem := fun b x => by
        simp only [Fuse.freeNode_nameTable, Fuse.eraseId_nameTable, Fuse.freeNode_heap,
          Fuse.eraseId_heap, update_eq_some]
        by_cases hx : x = q
        · subst hx; simp [hdet b]
        · simpa [hx] using h.nameMem b x
      keyUnique := fun hx hy ha hname hpar => by
        simp only [Fuse.freeNode_heap, Fuse.eraseId_heap, update_eq_some] at hx hy
        rcases hx with ⟨-, ⟨⟩⟩ | ⟨-, hx⟩
        rcases hy with ⟨-, ⟨⟩⟩ | ⟨-, hy⟩
        exact h.keyUnique hx hy ha hname hpar }
  · exact h.of_sameIndex (SameIndex.setNode hq _ rfl)

/-- Inserting a detached node with a fresh nonzero id at an unused address below `nextPtr`
keeps the index. -/
theorem IndexInv.insertNode {f : Fuse} {p : Ptr} {n : Node} (h : IndexInv f)
    (hp : f.heap p = none) (hb : p < f.nextPtr) (hn : n.name = none) (hid : n.nodeid ≠ 0)
    (hfresh : ∀ q m, f.heap q = some m → m.nodeid ≠ n.nodeid) :
    IndexInv (f.insertNode p n) where
  bounded hq := by
    simp only [Fuse.insertNode, Fuse.pushId_heap, Fuse.setNode_heap, update_eq_some] at hq
    rcases hq with ⟨rfl, -⟩ | ⟨-, hq⟩
    exacts [hb, h.bounded hq]
  nonzero hq := by
    simp only [Fuse.insertNode, Fuse.pushId_heap, Fuse.setNode_heap, update_eq_some] at hq
    rcases hq with ⟨-, ⟨⟩⟩ | ⟨-, hq⟩
    exacts [hid, h.nonzero hq]
  idUnique hq hq' hid' := by
    simp only [Fuse.insertNode, Fuse.pushId_heap, Fuse.setNode_heap, update_eq_some] at hq hq'
    rcases hq with ⟨rfl, ⟨⟩⟩ | ⟨-, hq⟩ <;> rcases hq' with ⟨rfl, ⟨⟩⟩ | ⟨-, hq'⟩
    · rfl
    · exact absurd hid'.symm (hfresh _ _ hq')
    · exact absurd hid' (hfresh _ _ hq)
    · exact h.idUnique hq hq' hid'
  idNodup b := by
    simp only [Fuse.insertNode, Fuse.pushId_idTable, Fuse.setNode_idTable, Function.update_apply]
    split
    · exact List.nodup_cons.2 ⟨h.not_mem_id hp _, h.idNodup _⟩
    · exact h.idNodup b
  idMem b q := by
    simp only [Fuse.insertNode, Fuse.pushId_idTable, Fuse.setNode_idTable, Fuse.pushId_heap,
      Fuse.setNode_heap, update_eq_some, Function.update_apply]
    by_cases hq : q = p
    · subst hq
      have := h.not_mem_id hp b
      split <;> simp_all [eq_comm]
    · split
      · rename_i hb'
        subst hb'
        rw [List.mem_cons, h.idMem]
        simp [hq]
      · simpa [hq] using h.idMem b q
  nameNodup := h.nameNodup
  nameMem b q := by
    simp only [Fuse.insertNode, Fuse.pushId_nameTable, Fuse.setNode_nameTable, Fuse.pushId_heap,
      Fuse.setNode_heap, update_eq_some]
    by_cases hq : q = p
    · subst hq
      rw [h.nameMem]
      simp [hp, hn]
    · simpa [hq] using h.nameMem b q
  keyUnique hq hq' ha hname hpar := by
    simp only [Fuse.insertNode, Fuse.pushId_heap, Fuse.setNode_heap, update_eq_some] at hq hq'
    rcases hq with ⟨rfl, ⟨⟩⟩ | ⟨-, hq⟩
    · simp [hn] at ha
    rcases hq' with ⟨rfl, ⟨⟩⟩ | ⟨-, hq'⟩
    · simp_all
    exact h.keyUnique hq hq' ha hname hpar

end FuseCore
