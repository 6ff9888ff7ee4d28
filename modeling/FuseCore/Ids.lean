import FuseCore.Reachable

/-!
# Fresh identifiers: `next_id` (fuse.c:156-166, :273-281, :311-328)

`next_id` walks the pairs `(ctr, generation)` in one order: each pass adds one to `ctr`
modulo `2 ^ 64` and counts a wrap in `generation`. `stamp` is the position of a pair in that
order, and each pass moves it by exactly one (`nextIdLoop_stamp`). A node `find_node` creates
gets the pair `next_id` stopped at, so the pairs of created nodes appear in strictly
increasing stamp order over a run, as long as the node's `unsigned int` copy of `generation`
is the generation itself, that is while the counter has not wrapped.

`IssuedRun` is `Reachable` with the pairs of the nodes created so far, newest first. Nodes
are only created at the first unused address (`Fuse.Issues.fresh`), so a step's new node, if
any, is the one found there afterwards.

`next_id_bounded` bounds the loop itself, in any state: with `L` nodes in the id index, `L + 2`
passes always reach a value that is neither 0 nor taken, and the generation moves by at most
one.
-/

namespace FuseCore

/-- The position of the pair `(id, gen)` in the order `next_id` walks. -/
def stamp (id gen : Nat) : Nat := gen * 2 ^ nodeidBits + id

/-- Each pass of `next_id` moves the stamp by one, so it only grows. -/
theorem nextIdLoop_stamp {f : Fuse} :
    ∀ {fuel c g c' g' : Nat}, nextIdLoop f fuel c g = some (c', g') →
      g ≤ g' ∧ c' < 2 ^ nodeidBits ∧ (c < 2 ^ nodeidBits → stamp c g < stamp c' g')
  | 0, _, _, _, _, h => by simp [nextIdLoop] at h
  | fuel + 1, c, g, c', g', h => by
    have hstep : g ≤ (if (c + 1) % 2 ^ nodeidBits = 0 then g + 1 else g) ∧
        (c + 1) % 2 ^ nodeidBits < 2 ^ nodeidBits ∧ (c < 2 ^ nodeidBits → stamp c g + 1 =
          stamp ((c + 1) % 2 ^ nodeidBits) (if (c + 1) % 2 ^ nodeidBits = 0 then g + 1 else g)) := by
      refine ⟨by split <;> omega, Nat.mod_lt _ (Nat.two_pow_pos _), fun hc => ?_⟩
      unfold stamp
      rcases Nat.lt_or_ge (c + 1) (2 ^ nodeidBits) with hlt | hge
      · rw [Nat.mod_eq_of_lt hlt, if_neg (by omega)]; omega
      · rw [show c + 1 = 2 ^ nodeidBits by omega, Nat.mod_self, if_pos rfl, Nat.add_mul]; omega
    simp only [nextIdLoop] at h
    split at h
    · obtain ⟨h1, h2, h3⟩ := nextIdLoop_stamp h
      exact ⟨hstep.1.trans h1, h2, fun hc => by have := hstep.2.2 hc; have := h3 hstep.2.1; omega⟩
    · simp only [Option.some.injEq, Prod.mk.injEq] at h
      obtain ⟨rfl, rfl⟩ := h
      exact ⟨hstep.1, hstep.2.1, fun hc => by have := hstep.2.2 hc; omega⟩

theorem Fuse.Issues.generation_le {f g : Fuse} (h : f.Issues g) : f.generation ≤ g.generation := by
  rcases h.counter with ⟨-, e, -⟩ | ⟨hl, -⟩
  exacts [e.ge, (nextIdLoop_stamp hl).1]

/-- A run from `fuse_new_common`, with the `(nodeid, generation)` pairs of the nodes it
created, newest first; the root's comes last. -/
inductive IssuedRun : Fuse → List (Nat × Nat) → Prop
  | init (flags : Flags) : IssuedRun (fuseNew flags) [(rootId, 0)]
  | step {f g : Fuse} {l : List (Nat × Nat)} (o : DirOp) : IssuedRun f l → o.Allowed f →
      o.run f = .ok g → IssuedRun g (((g.heap f.nextPtr).map fun n => (n.nodeid, n.generation)).toList ++ l)

theorem IssuedRun.reachable {f : Fuse} {l : List (Nat × Nat)} (hr : IssuedRun f l) : Reachable f := by
  induction hr with
  | init flags => exact .init flags
  | step o _ ho hrun ih => exact .step o ih ho hrun

theorem IssuedRun.ctr_lt {f : Fuse} {l : List (Nat × Nat)} (hr : IssuedRun f l) :
    f.ctr < 2 ^ nodeidBits := by
  induction hr with
  | init flags => exact Nat.two_pow_pos _
  | step o hr ho hrun ih =>
    rcases (DirOp.run_inv hr.reachable.inv ho hrun).2.2.1.counter with ⟨e, -⟩ | ⟨hl, -⟩
    exacts [e ▸ ih, (nextIdLoop_stamp hl).2.1]

/-- The pairs of created nodes have strictly decreasing stamps along the list, all of them
at least 2 and at most the counter's, while the generation has not wrapped. -/
theorem IssuedRun.stamps {f : Fuse} {l : List (Nat × Nat)} (hr : IssuedRun f l)
    (hg : f.generation < 2 ^ 32) :
    ∃ l', l = l' ++ [(rootId, 0)] ∧ l'.Pairwise (fun a b => stamp b.1 b.2 < stamp a.1 a.2) ∧
      ∀ a ∈ l', 2 ≤ stamp a.1 a.2 ∧ stamp a.1 a.2 ≤ stamp f.ctr f.generation := by
  induction hr with
  | init flags => exact ⟨[], rfl, List.Pairwise.nil, by simp⟩
  | @step f g l o hr ho hrun ih =>
    have h := hr.reachable.inv
    have hiss := (DirOp.run_inv h ho hrun).2.2.1
    obtain ⟨l', rfl, hpw, hle⟩ := ih (lt_of_le_of_lt hiss.generation_le hg)
    rcases hiss.counter with ⟨hc, hgen, hnone⟩ | ⟨hl, hnode⟩
    · refine ⟨l', by simp [hnone], hpw, fun a ha => ?_⟩
      rw [hc, hgen]; exact hle a ha
    obtain ⟨-, -, hlt⟩ := nextIdLoop_stamp hl
    have hlt := hlt hr.ctr_lt
    cases hn : g.heap f.nextPtr with
    | none => exact ⟨l', by simp, hpw, fun a ha => ⟨(hle a ha).1, by have := (hle a ha).2; omega⟩⟩
    | some n =>
      obtain ⟨hid, hgn⟩ := hnode n hn
      rw [Nat.mod_eq_of_lt hg] at hgn
      obtain ⟨h0, hnone⟩ := nextIdLoop_fresh hl
      have h1 : g.ctr ≠ rootId := fun e => by
        obtain ⟨r, z, hz, hz1, -⟩ := h.refs.root
        exact (getNodeNocheck_eq_none h.index).1 hnone r z hz (hz1.trans e.symm)
      have hs : stamp n.nodeid n.generation = stamp g.ctr g.generation := by rw [hid, hgn]
      refine ⟨(n.nodeid, n.generation) :: l', by simp, List.pairwise_cons.2 ⟨fun a ha => ?_, hpw⟩,
        fun a ha => ?_⟩
      · show stamp a.1 a.2 < stamp n.nodeid n.generation
        have := (hle a ha).2; omega
      · rcases List.mem_cons.1 ha with rfl | ha
        · refine ⟨?_, hs.le⟩
          show 2 ≤ stamp n.nodeid n.generation
          rw [hs]; unfold stamp; simp only [rootId] at h1; omega
        · exact ⟨(hle a ha).1, by have := (hle a ha).2; omega⟩

/-- **Identifiers are fresh.** `next_id` never returns 0 or the id of a node in the id index.
Over a whole run, as long as the generation counter has not wrapped, the `(nodeid,
generation)` pairs of the nodes `find_node` creates are pairwise distinct and distinct from
the root's `(1, 0)`; a node a step creates is the one at the first unused address. -/
theorem fresh_identifiers {f : Fuse} {l : List (Nat × Nat)} (hr : IssuedRun f l)
    (hg : f.generation < 2 ^ 32) :
    (∀ id f', nextId f = .ok (id, f') →
      id ≠ 0 ∧ ∀ b p n, p ∈ f.idTable b → f.heap p = some n → n.nodeid ≠ id) ∧
    (∀ (o : DirOp) g, o.Allowed f → o.run f = .ok g →
      ∀ x y, g.heap x = some y → f.heap x = none → x = f.nextPtr) ∧
    l.getLast? = some (rootId, 0) ∧ l.Nodup := by
  have h := hr.reachable.inv
  obtain ⟨l', rfl, hpw, hle⟩ := hr.stamps hg
  refine ⟨fun id f' hn => ?_, fun o g ho hrun => (DirOp.run_inv h ho hrun).2.2.1.fresh, by simp, ?_⟩
  · unfold nextId at hn
    split at hn
    · rename_i c g' hl
      simp only [Except.ok.injEq, Prod.mk.injEq] at hn
      obtain ⟨rfl, -⟩ := hn
      obtain ⟨h0, hnone⟩ := nextIdLoop_fresh hl
      exact ⟨h0, fun b p n _ hp => (getNodeNocheck_eq_none h.index).1 hnone p n hp⟩
    · cases hn
  · refine List.nodup_append.2 ⟨hpw.imp fun hlt e => by rw [e] at hlt; exact Nat.lt_irrefl _ hlt,
      List.nodup_singleton _, fun a ha hb => ?_⟩
    rw [List.mem_singleton.1 hb] at ha
    have := (hle _ ha).1
    simp [stamp, rootId] at this

theorem fresh_identifiers_dirA :
    IssuedRun dirA [(2, 0), (rootId, 0)] ∧ dirA.generation < 2 ^ 32 ∧
      (∀ id f', nextId dirA = .ok (id, f') →
        id ≠ 0 ∧ ∀ b p n, p ∈ dirA.idTable b → dirA.heap p = some n → n.nodeid ≠ id) ∧
      [(2, 0), (rootId, 0)].Nodup :=
  have hr : IssuedRun dirA [(2, 0), (rootId, 0)] :=
    .step (.find rootId [97] 0 1 true true) (.init {}) ⟨⟨0, rootNode, rfl, rfl, rootNode_not_forgotten⟩, by decide⟩ rfl
  have h := fresh_identifiers hr (by decide)
  ⟨hr, by decide, h.1, h.2.2.2⟩

/-! ## How long `next_id` runs

A pass of `next_id` skips the counter value 0 and the ids of nodes in the id index. Passes see
consecutive values modulo `2 ^ 64`, so as long as there are at most `2 ^ 64` of them they are
distinct: at most one is 0, and at most `L` are ids of the `L` nodes the index holds, since
`get_node_nocheck` finds each on its own chain. So one of `L + 2` passes stops the loop, and
only the pass at 0 counts a wrap. -/

/-- The number of nodes the id index holds: the entries on its chains. -/
def idCount (f : Fuse) : Nat := ((List.range idTableSize).map fun b => (f.idTable b).length).sum

/-- The counter values of `m` passes of `next_id` from the counter `c`. -/
def ctrWindow (c m : Nat) : List Nat := (List.range m).map fun j => (c + 1 + j) % 2 ^ nodeidBits

theorem ctrWindow_succ (c m : Nat) :
    ctrWindow c (m + 1) = (c + 1) % 2 ^ nodeidBits :: ctrWindow ((c + 1) % 2 ^ nodeidBits) m := by
  simp only [ctrWindow, List.range_succ_eq_map, List.map_cons, List.map_map]
  congr 2
  funext j
  simp only [Function.comp, nodeidBits, Nat.reducePow]
  omega

/-- At most `2 ^ 64` consecutive values are distinct modulo `2 ^ 64`. -/
theorem ctrWindow_nodup {c m : Nat} (hm : m ≤ 2 ^ nodeidBits) : (ctrWindow c m).Nodup := by
  refine (List.nodup_range m).map_on fun i hi j hj e => ?_
  simp only [List.mem_range, nodeidBits, Nat.reducePow] at hi hj e hm
  omega

/-- Distinct live ids are found at distinct addresses on the chains, so a list of distinct
values holds at most `idCount` of them. -/
theorem countP_live_le {f : Fuse} {l : List Nat} (hl : l.Nodup) :
    l.countP (fun w => (getNodeNocheck f w).isSome) ≤ idCount f := by
  have hinj : ∀ a a' p, p ∈ getNodeNocheck f a → p ∈ getNodeNocheck f a' → a = a' := by
    intro a a' p ha ha'
    obtain ⟨n, hn, rfl⟩ := getNodeNocheck_some ha
    obtain ⟨n', hn', rfl⟩ := getNodeNocheck_some ha'
    rw [hn, Option.some.injEq] at hn'; rw [hn']
  have hsub : l.filterMap (getNodeNocheck f) ⊆ ((List.range idTableSize).map f.idTable).flatten := by
    intro p hp
    obtain ⟨w, -, hw⟩ := List.mem_filterMap.1 hp
    exact List.mem_flatten.2 ⟨_, List.mem_map.2 ⟨w % idTableSize, List.mem_range.2
      (Nat.mod_lt _ (by decide)), rfl⟩, List.mem_of_find?_eq_some hw⟩
  calc l.countP (fun w => (getNodeNocheck f w).isSome)
      = (l.filterMap (getNodeNocheck f)).length := (List.length_filterMap_eq_countP _ _).symm
    _ ≤ _ := (List.subperm_of_subset (hl.filterMap hinj) hsub).length_le
    _ = idCount f := by simp [idCount, List.length_flatten, Function.comp_def]


/-- In a consistent directory the id index holds each live node once, so no more nodes than
were ever allocated. -/
theorem idCount_le_nextPtr {f : Fuse} (hI : IndexInv f) : idCount f ≤ f.nextPtr := by
  have hnd : ((List.range idTableSize).map f.idTable).flatten.Nodup := by
    refine List.nodup_flatten.2 ⟨?_, List.pairwise_map.2 ((List.nodup_range _).imp ?_)⟩
    · simp only [List.mem_map]
      rintro _ ⟨b, -, rfl⟩
      exact hI.idNodup b
    · intro a b hab p ha hb
      obtain ⟨n, hn, rfl⟩ := (hI.idMem a p).1 ha
      obtain ⟨n', hn', rfl⟩ := (hI.idMem b p).1 hb
      rw [hn, Option.some.injEq] at hn'
      exact hab (by rw [hn'])
  have hsub : ((List.range idTableSize).map f.idTable).flatten ⊆ List.range f.nextPtr := by
    intro p hp
    obtain ⟨_, hl, hp⟩ := List.mem_flatten.1 hp
    obtain ⟨b, -, rfl⟩ := List.mem_map.1 hl
    obtain ⟨n, hn, -⟩ := (hI.idMem b p).1 hp
    exact List.mem_range.2 (hI.bounded hn)
  simpa [idCount, List.length_flatten, Function.comp_def] using
    (List.subperm_of_subset hnd hsub).length_le

/-- A loop that runs out of passes saw only 0 and live ids. -/
theorem nextIdLoop_none {f : Fuse} : ∀ {m c g : Nat}, nextIdLoop f m c g = none →
    m ≤ (ctrWindow c m).count 0 + (ctrWindow c m).countP (fun w => (getNodeNocheck f w).isSome)
  | 0, _, _, _ => Nat.zero_le _
  | m + 1, c, g, h => by
    simp only [nextIdLoop] at h
    rw [ctrWindow_succ, List.count_cons, List.countP_cons]
    split at h
    · have := nextIdLoop_none h
      rename_i hbad
      rcases hbad with h0 | hl
      · simp only [h0, beq_self_eq_true, if_true] at this ⊢; omega
      · simp only [hl, if_true]; omega
    · cases h

/-- The generation counts the passes at 0 and nothing else. -/
theorem nextIdLoop_generation {f : Fuse} : ∀ {m c g c' g' : Nat}, nextIdLoop f m c g = some (c', g') →
    g' ≤ g + (ctrWindow c m).count 0
  | 0, _, _, _, _, h => by simp [nextIdLoop] at h
  | m + 1, c, g, c', g', h => by
    simp only [nextIdLoop] at h
    rw [ctrWindow_succ, List.count_cons]
    split at h
    · have := nextIdLoop_generation h
      split_ifs at this ⊢ <;> simp_all; omega
    · simp only [Option.some.injEq, Prod.mk.injEq] at h
      obtain ⟨-, rfl⟩ := h
      split_ifs <;> simp_all

/-- More passes change nothing once the loop has stopped. -/
theorem nextIdLoop_mono {f : Fuse} : ∀ {m m' c g : Nat} {r : Nat × Nat}, nextIdLoop f m c g = some r →
    m ≤ m' → nextIdLoop f m' c g = some r
  | 0, _, _, _, _, h, _ => by simp [nextIdLoop] at h
  | m + 1, 0, _, _, _, _, hm => absurd hm (by omega)
  | m + 1, m' + 1, c, g, r, h, hm => by
    simp only [nextIdLoop] at h ⊢
    split at h
    · rw [if_pos ‹_›]; exact nextIdLoop_mono h (by omega)
    · rw [if_neg ‹_›]; exact h

/-- **`next_id` is bounded.** When the id index holds `L < 2 ^ 64 - 1` nodes, any `L + 2`
consecutive counter values modulo `2 ^ 64` hold at most one 0 and at most `L` live ids, so the
loop of `next_id` stops within `L + 2` passes, with what `next_id` returns, and counts at most
one wrap. -/
theorem next_id_bounded (f : Fuse) (hL : idCount f < 2 ^ nodeidBits - 1) :
    (∀ c, (ctrWindow c (idCount f + 2)).count 0 ≤ 1 ∧
      (ctrWindow c (idCount f + 2)).countP (fun w => (getNodeNocheck f w).isSome) ≤ idCount f) ∧
    ∃ c g, nextIdLoop f (idCount f + 2) f.ctr f.generation = some (c, g) ∧ g ≤ f.generation + 1 ∧
      nextId f = .ok (c, { f with ctr := c, generation := g }) := by
  have hm : idCount f + 2 ≤ 2 ^ nodeidBits := by omega
  have hw : ∀ c, (ctrWindow c (idCount f + 2)).count 0 ≤ 1 ∧
      (ctrWindow c (idCount f + 2)).countP (fun w => (getNodeNocheck f w).isSome) ≤ idCount f :=
    fun c => ⟨List.nodup_iff_count_le_one.1 (ctrWindow_nodup hm) 0, countP_live_le (ctrWindow_nodup hm)⟩
  refine ⟨hw, ?_⟩
  cases h : nextIdLoop f (idCount f + 2) f.ctr f.generation with
  | none => have := nextIdLoop_none h; have := hw f.ctr; omega
  | some r =>
    obtain ⟨c, g⟩ := r
    refine ⟨c, g, rfl, by have := nextIdLoop_generation h; have := (hw f.ctr).1; omega, ?_⟩
    simp [nextId, nextIdLoop_mono h hm]

theorem next_id_bounded_fuseNew : idCount (fuseNew {}) < 2 ^ nodeidBits - 1 ∧
    ∃ c g, nextIdLoop (fuseNew {}) (idCount (fuseNew {}) + 2) 0 0 = some (c, g) ∧ g ≤ 0 + 1 ∧
      nextId (fuseNew {}) = .ok (c, { fuseNew {} with ctr := c, generation := g }) :=
  have hL : idCount (fuseNew {}) < 2 ^ nodeidBits - 1 :=
    lt_of_le_of_lt (idCount_le_nextPtr (Reachable.inv (.init {})).index) (by decide)
  ⟨hL, (next_id_bounded (fuseNew {}) hL).2⟩

end FuseCore
