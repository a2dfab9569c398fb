import Mathlib
import SchemaGraph.Compilation
import SchemaGraph.Proofs.Order
import SchemaGraph.Proofs.Success

/-!
The order of compilation exists exactly for graphs without a cycle, and then it has every unit after
the units it imports.

The work keeps one invariant, `Peeled`: the counts are those of the imports not yet placed, and the
units placed or ready are exactly those all of whose imports are placed. When the queue is empty
the placed units are closed under it, so that a unit left over imports another one left over.
-/

namespace SchemaGraph.ImportGraph

open Relation

namespace Placement

/-! ### Releasing importers -/

theorem release_missing (p : Placement) (k j : Nat) :
    (p.release k).missing.getD j 0 =
      if j = k then p.missing.getD j 0 - 1 else p.missing.getD j 0 := by
  simp only [release, List.getD_eq_getElem?_getD, List.getElem?_set]
  by_cases hjk : j = k
  · subst hjk
    by_cases hlt : j < p.missing.length
    · simp [hlt]
    · simp [hlt]
  · simp [hjk, Ne.symm hjk]

@[simp] theorem length_release_missing (p : Placement) (k : Nat) :
    (p.release k).missing.length = p.missing.length := by
  simp [release]

theorem release_ready (p : Placement) (k : Nat) :
    (p.release k).ready =
      p.ready ++ [k].filter fun k => p.missing.getD k 0 - 1 = 0 := by
  by_cases h : p.missing.getD k 0 - 1 = 0
  · rw [List.filter_cons_of_pos (by simpa using h)]
    simp only [release, if_pos h, List.filter_nil]
  · rw [List.filter_cons_of_neg (by simpa using h)]
    simp only [release, if_neg h, List.filter_nil, List.append_nil]

@[simp] theorem placed_releases (ks : List Nat) (p : Placement) :
    (ks.foldl release p).placed = p.placed := by
  induction ks generalizing p with
  | nil => rfl
  | cons k ks ih => exact (ih _).trans rfl

@[simp] theorem length_missing_releases (ks : List Nat) (p : Placement) :
    (ks.foldl release p).missing.length = p.missing.length := by
  induction ks generalizing p with
  | nil => rfl
  | cons k ks ih => rw [List.foldl_cons, ih, length_release_missing]

theorem missing_releases {ks : List Nat} (hks : ks.Nodup) (p : Placement) (j : Nat) :
    (ks.foldl release p).missing.getD j 0 =
      if j ∈ ks then p.missing.getD j 0 - 1 else p.missing.getD j 0 := by
  induction ks generalizing p with
  | nil => simp
  | cons k ks ih =>
      rw [List.nodup_cons] at hks
      rw [List.foldl_cons, ih hks.2, release_missing]
      by_cases hjk : j = k
      · subst hjk
        simp [hks.1]
      · simp [hjk]

theorem ready_releases {ks : List Nat} (hks : ks.Nodup) (p : Placement) :
    (ks.foldl release p).ready =
      p.ready ++ ks.filter fun k => p.missing.getD k 0 - 1 = 0 := by
  induction ks generalizing p with
  | nil => simp
  | cons k ks ih =>
      rw [List.nodup_cons] at hks
      have hsame : (ks.filter fun j => (p.release k).missing.getD j 0 - 1 = 0) =
          ks.filter fun j => p.missing.getD j 0 - 1 = 0 := by
        refine List.filter_congr fun j hj => ?_
        have hjk : j ≠ k := by
          rintro rfl
          exact hks.1 hj
        rw [release_missing, if_neg hjk]
      rw [List.foldl_cons, ih hks.2, release_ready, hsame, List.append_assoc, ← List.filter_append,
        List.singleton_append]

/-! ### The invariant -/

/-- The imports of a unit that are not placed. -/
def unplaced (g : ImportGraph) (placed : List Nat) (i : Nat) : List Nat :=
  (g.targets i).filter fun j => j ∉ placed

theorem mem_unplaced {g : ImportGraph} {placed : List Nat} {i j : Nat} :
    j ∈ unplaced g placed i ↔ j ∈ g.targets i ∧ j ∉ placed := by
  simp [unplaced]

theorem unplaced_eq_nil {g : ImportGraph} {placed : List Nat} {i : Nat} :
    unplaced g placed i = [] ↔ ∀ j ∈ g.targets i, j ∈ placed := by
  rw [List.eq_nil_iff_forall_not_mem]
  simp only [mem_unplaced, not_and, not_not]

theorem unplaced_snoc (g : ImportGraph) (placed : List Nat) (i k : Nat) :
    unplaced g (placed ++ [i]) k = (unplaced g placed k).erase i := by
  rw [unplaced, unplaced, ((g.nodup_targets k).filter _).erase_eq_filter, List.filter_filter]
  refine List.filter_congr fun j _ => ?_
  by_cases hji : j = i <;> simp [hji]

theorem unplaced_erase_of_not_importer {g : ImportGraph} {placed : List Nat} {i k : Nat}
    (h : k ∉ g.importers i) : (unplaced g placed k).erase i = unplaced g placed k :=
  List.erase_of_not_mem fun hi =>
    h (g.mem_importers.2 (g.mem_targets.1 (mem_unplaced.1 hi).1))

/-- What holds of the work at every step. -/
structure Peeled (g : ImportGraph) (p : Placement) : Prop where
  length_missing : p.missing.length = g.unitCount
  missing : ∀ i < g.unitCount, p.missing.getD i 0 = (unplaced g p.placed i).length
  nodup : (p.placed ++ p.ready).Nodup
  mem_iff : ∀ i, i ∈ p.placed ++ p.ready ↔ i < g.unitCount ∧ unplaced g p.placed i = []
  ordered : Ordered g.targets p.placed

theorem peeled_start (g : ImportGraph) : Peeled g (start g) where
  length_missing := by simp [start, indices]
  missing i hi := by
    simp only [start, indices, List.getD_eq_getElem?_getD, List.getElem?_map,
      List.getElem?_range hi]
    simp [unplaced]
  nodup := by
    simpa [start, indices] using List.nodup_range.filter _
  mem_iff i := by
    simp [start, mem_indices, unplaced]
  ordered := ⟨by simp [start], by simp [start]⟩

namespace Peeled

variable {g : ImportGraph} {p : Placement} {i : Nat} {rest : List Nat}

/-- A unit at the head of the queue is not placed yet, but all its imports are. -/
theorem head (h : Peeled g p) (hready : p.ready = i :: rest) :
    i < g.unitCount ∧ i ∉ p.placed ∧ ∀ j ∈ g.targets i, j ∈ p.placed := by
  have hmem := (h.mem_iff i).1 (by simp [hready])
  have hnodup := h.nodup
  rw [hready, List.nodup_append] at hnodup
  exact ⟨hmem.1, fun hi => hnodup.2.2 i hi i (by simp) rfl, unplaced_eq_nil.1 hmem.2⟩

/-- What imports the unit at the head of the queue is waiting for it. -/
theorem mem_waiting (h : Peeled g p) (hready : p.ready = i :: rest) {k : Nat}
    (hk : k ∈ g.importers i) : i ∈ unplaced g p.placed k :=
  mem_unplaced.2 ⟨g.mem_targets.2 (g.mem_importers.1 hk), (h.head hready).2.1⟩

/-- The counts of the importers of the unit at the head of the queue are not nothing. -/
theorem missing_pos (h : Peeled g p) (hready : p.ready = i :: rest) {k : Nat}
    (hk : k ∈ g.importers i) : 0 < p.missing.getD k 0 := by
  rw [h.missing k (g.imports_lt _ (g.mem_importers.1 hk)).1]
  exact List.length_pos_of_mem (h.mem_waiting hready hk)

/-- An importer of the unit at the head of the queue becomes ready exactly if it waited for no other
unit. -/
theorem released_iff (h : Peeled g p) (hready : p.ready = i :: rest) {k : Nat}
    (hk : k ∈ g.importers i) :
    p.missing.getD k 0 - 1 = 0 ↔ unplaced g (p.placed ++ [i]) k = [] := by
  rw [h.missing k (g.imports_lt _ (g.mem_importers.1 hk)).1, unplaced_snoc,
    ← List.length_eq_zero_iff, List.length_erase_of_mem (h.mem_waiting hready hk)]

theorem ordered_snoc (h : Peeled g p) (hready : p.ready = i :: rest) :
    Ordered g.targets (p.placed ++ [i]) := by
  obtain ⟨_, hi, htargets⟩ := h.head hready
  refine ⟨fun a ha => ?_, ?_⟩
  · rcases List.mem_append.1 ha with ha | ha
    · exact h.ordered.not_self a ha
    · obtain rfl := List.mem_singleton.1 ha
      exact fun hloop => hi (htargets a hloop)
  · rw [List.pairwise_append]
    refine ⟨h.ordered.not_later, List.pairwise_singleton _ _, fun a ha b hb hab => ?_⟩
    obtain rfl := List.mem_singleton.1 hb
    have hplaced := (h.mem_iff a).1 (List.mem_append_left _ ha)
    exact hi (unplaced_eq_nil.1 hplaced.2 b hab)

theorem missing_step (h : Peeled g p) (hready : p.ready = i :: rest) {k : Nat}
    (hk : k < g.unitCount) :
    (if k ∈ g.importers i then p.missing.getD k 0 - 1 else p.missing.getD k 0) =
      (unplaced g (p.placed ++ [i]) k).length := by
  rw [h.missing k hk, unplaced_snoc]
  split
  · rename_i hki
    rw [List.length_erase_of_mem (h.mem_waiting hready hki)]
  · rename_i hki
    rw [unplaced_erase_of_not_importer hki]

theorem mem_iff_step (h : Peeled g p) (hready : p.ready = i :: rest) (k : Nat) :
    k ∈ p.placed ++ i :: rest ∨ k ∈ g.importers i ∧ p.missing.getD k 0 - 1 = 0 ↔
      k < g.unitCount ∧ unplaced g (p.placed ++ [i]) k = [] := by
  rw [← hready, h.mem_iff]
  by_cases hki : k ∈ g.importers i
  -- `k` was waiting for `i`, so it is new among the units placed or ready, if it is there.
  · have hwaiting : unplaced g p.placed k ≠ [] := List.ne_nil_of_mem (h.mem_waiting hready hki)
    have hk : k < g.unitCount := (g.imports_lt _ (g.mem_importers.1 hki)).1
    rw [h.released_iff hready hki]
    simp [hwaiting, hki, hk]
  · rw [unplaced_snoc, unplaced_erase_of_not_importer hki]
    simp [hki]

theorem step (h : Peeled g p) : Peeled g (p.step g) := by
  unfold Placement.step
  split
  · exact h
  · rename_i i rest hready
    have hsplit : ∀ released, p.placed ++ [i] ++ (rest ++ released) =
        (p.placed ++ i :: rest) ++ released := by simp
    constructor
    · rw [length_missing_releases]
      exact h.length_missing
    · intro k hk
      rw [missing_releases (g.nodup_importers i), placed_releases]
      exact h.missing_step hready hk
    · rw [placed_releases, ready_releases (g.nodup_importers i), hsplit, ← hready,
        List.nodup_append]
      refine ⟨h.nodup, (g.nodup_importers i).filter _, fun k hk l hl => ?_⟩
      rintro rfl
      -- A unit that is released was waiting, and so was neither placed nor ready.
      have hwaiting := h.mem_waiting hready (List.mem_filter.1 hl).1
      rw [((h.mem_iff k).1 hk).2] at hwaiting
      simp at hwaiting
    · intro k
      rw [placed_releases, ready_releases (g.nodup_importers i), hsplit, List.mem_append,
        List.mem_filter, decide_eq_true_eq]
      exact h.mem_iff_step hready k
    · rw [placed_releases]
      exact h.ordered_snoc hready

theorem run (h : Peeled g p) (n : Nat) : Peeled g (Placement.run g n p) := by
  induction n generalizing p with
  | zero => exact h
  | succ n ih => exact ih h.step

theorem length_le (h : Peeled g p) : p.placed.length + p.ready.length ≤ g.unitCount := by
  rw [← List.length_append, ← List.length_range (n := g.unitCount)]
  exact length_le_of_nodup h.nodup fun i hi => List.mem_range.2 ((h.mem_iff i).1 hi).1

end Peeled

theorem run_of_ready_nil (g : ImportGraph) {p : Placement} (h : p.ready = []) (n : Nat) :
    run g n p = p := by
  induction n with
  | zero => rfl
  | succ n ih =>
      have hstep : p.step g = p := by simp [step, h]
      rw [run, hstep, ih]

/-- Each step places a unit, so that the queue runs empty. -/
theorem ready_run {g : ImportGraph} {p : Placement} {n : Nat} (h : Peeled g p)
    (hn : g.unitCount ≤ n + p.placed.length) : (run g n p).ready = [] := by
  induction n generalizing p with
  | zero =>
      have := h.length_le
      exact List.length_eq_zero_iff.1 (by simp only [run]; omega)
  | succ n ih =>
      by_cases hready : p.ready = []
      · rw [run_of_ready_nil g hready, hready]
      · obtain ⟨i, rest, hcons⟩ := List.exists_cons_of_ne_nil hready
        refine ih h.step ?_
        simp only [step, hcons, placed_releases, List.length_append, List.length_singleton]
        omega

/-- In this state no count is lowered that is nothing already, while the unit at the head of the
queue is placed. -/
def NeverUnderflows (g : ImportGraph) (p : Placement) : Prop :=
  ∀ i rest, p.ready = i :: rest → ∀ before k after, g.importers i = before ++ k :: after →
    0 < (before.foldl release { p with ready := rest, placed := p.placed ++ [i] }).missing.getD k 0

theorem Peeled.neverUnderflows {g : ImportGraph} {p : Placement} (h : Peeled g p) :
    NeverUnderflows g p := by
  intro i rest hready before k after hsplit
  have hnodup := g.nodup_importers i
  rw [hsplit, List.nodup_append] at hnodup
  have hk : k ∉ before := fun hk => hnodup.2.2 k hk k (by simp) rfl
  rw [missing_releases hnodup.1, if_neg hk]
  exact h.missing_pos hready (by simp [hsplit])

end Placement

/-! ### The units placed -/

variable (g : ImportGraph)

theorem peeled_end : Placement.Peeled g (Placement.run g g.unitCount (Placement.start g)) :=
  (Placement.peeled_start g).run _

theorem ready_end : (Placement.run g g.unitCount (Placement.start g)).ready = [] :=
  Placement.ready_run (Placement.peeled_start g) (by simp)

theorem mem_placed {i : Nat} :
    i ∈ g.placed ↔ i < g.unitCount ∧ ∀ j ∈ g.targets i, j ∈ g.placed := by
  have h := g.peeled_end.mem_iff i
  rw [ready_end, List.append_nil, Placement.unplaced_eq_nil] at h
  exact h

theorem nodup_placed : g.placed.Nodup := by
  have h := g.peeled_end.nodup
  rwa [ready_end, List.append_nil] at h

theorem ordered_placed : Ordered g.targets g.placed :=
  g.peeled_end.ordered

/-- A unit that is placed is on no cycle of imports. -/
theorem not_transGen_of_mem_placed {i : Nat} (hi : i ∈ g.placed) :
    ¬TransGen (Leads g.targets) i i :=
  not_transGen_self
    (g.ordered_placed.acc (fun _ ha b hb => .inl ((g.mem_placed.1 ha).2 b hb)) i hi)

/-- All units are placed exactly if there is no cycle of imports. -/
theorem all_placed_iff :
    (∀ i < g.unitCount, i ∈ g.placed) ↔ ∀ i, ¬TransGen (Leads g.targets) i i := by
  constructor
  · intro hall i hcycle
    obtain ⟨j, hij, -⟩ := TransGen.head'_iff.1 hcycle
    have hi : i < g.unitCount := (g.imports_lt _ (g.mem_targets.1 hij)).1
    exact g.not_transGen_of_mem_placed (hall i hi) hcycle
  · intro hacyclic i hi
    have hwf : WellFounded (flip (Leads g.targets)) := by
      refine wellFounded_of_acyclic g.indices (fun a b hab => ?_) hacyclic
      have hlt := g.imports_lt _ (g.mem_targets.1 hab)
      exact ⟨g.mem_indices.2 hlt.1, g.mem_indices.2 hlt.2⟩
    induction i using hwf.induction with
    | _ i ih =>
        refine g.mem_placed.2 ⟨hi, fun j hj => ih j hj ?_⟩
        exact (g.imports_lt _ (g.mem_targets.1 hj)).2

theorem placed_perm_iff : g.placed.Perm g.indices ↔ ¬g.placed.length < g.unitCount := by
  have hsub : g.placed ⊆ g.indices := fun i hi => g.mem_indices.2 (g.mem_placed.1 hi).1
  have hlen : g.indices.length = g.unitCount := List.length_range
  constructor
  · intro h
    rw [h.length_eq, hlen]
    exact lt_irrefl _
  · intro h
    refine (g.nodup_placed.subperm hsub).perm_of_length_le ?_
    omega

/-! ### Sources and positions -/

theorem filterMap_getElem?_range {α : Type} (as : List α) :
    (List.range as.length).filterMap (fun i => as[i]?) = as := by
  induction as with
  | nil => rfl
  | cons a as ih =>
      rw [List.length_cons, List.range_succ_eq_map, List.filterMap_cons, List.filterMap_map]
      simpa [Function.comp_def] using ih

theorem sourcesAt_indices : g.sourcesAt g.indices = g.units :=
  filterMap_getElem?_range g.units

/-- A source has one position. -/
theorem eq_of_getElem? {i j : Nat} {a : SourceId} (hi : g.units[i]? = some a)
    (hj : g.units[j]? = some a) : i = j := by
  rw [← index?_eq_some] at hi hj
  exact Option.some.inj (hi.symm.trans hj)

theorem leads_importsOf {i j : Nat} {a b : SourceId} (ha : g.units[i]? = some a)
    (hb : g.units[j]? = some b) : Leads g.importsOf a b ↔ Leads g.targets i j := by
  rw [Leads, Leads, mem_importsOf, mem_targets]
  constructor
  · rintro ⟨i', j', hij, ha', hb'⟩
    rwa [g.eq_of_getElem? ha ha', g.eq_of_getElem? hb hb']
  · exact fun hij => ⟨i, j, hij, ha, hb⟩

/-- Positions on a cycle are those of sources on a cycle. -/
theorem transGen_importsOf {i j : Nat} (h : TransGen (Leads g.targets) i j) {a b : SourceId}
    (ha : g.units[i]? = some a) (hb : g.units[j]? = some b) :
    TransGen (Leads g.importsOf) a b := by
  induction h generalizing b with
  | single hij => exact .single ((g.leads_importsOf ha hb).2 hij)
  | tail _ hjk ih =>
      have hlt := (g.imports_lt _ (g.mem_targets.1 hjk)).1
      have hmid := List.getElem?_eq_getElem hlt
      exact (ih hmid).tail ((g.leads_importsOf hmid hb).2 hjk)

theorem transGen_targets {a b : SourceId} (h : TransGen (Leads g.importsOf) a b) :
    ∃ i j, g.units[i]? = some a ∧ g.units[j]? = some b ∧ TransGen (Leads g.targets) i j := by
  induction h with
  | single hab =>
      obtain ⟨i, j, hij, ha, hb⟩ := g.mem_importsOf.1 hab
      exact ⟨i, j, ha, hb, .single (g.mem_targets.2 hij)⟩
  | tail _ hbc ih =>
      obtain ⟨i, j, ha, hb, hij⟩ := ih
      obtain ⟨j', k, hjk, hb', hc⟩ := g.mem_importsOf.1 hbc
      obtain rfl := g.eq_of_getElem? hb hb'
      exact ⟨i, k, ha, hc, hij.tail (g.mem_targets.2 hjk)⟩

theorem acyclic_iff :
    (∀ a, ¬TransGen (Leads g.importsOf) a a) ↔ ∀ i, ¬TransGen (Leads g.targets) i i := by
  constructor
  · intro h i hcycle
    obtain ⟨j, hij, -⟩ := TransGen.head'_iff.1 hcycle
    have hi := List.getElem?_eq_getElem (g.imports_lt _ (g.mem_targets.1 hij)).1
    exact h _ (g.transGen_importsOf hcycle hi hi)
  · intro h a hcycle
    obtain ⟨i, j, hi, hj, hij⟩ := g.transGen_targets hcycle
    obtain rfl := g.eq_of_getElem? hi hj
    exact h i hij

/-! ### Sequences -/

/-- The whole outcome: an order if there is no cycle, and else the members of one. -/
theorem sequence_eq :
    (∀ a, ¬TransGen (Leads g.importsOf) a a) ∧ g.placed.Perm g.indices ∧
        g.sequence = .ok (g.sourcesAt g.placed) ∨
      (∃ a, TransGen (Leads g.importsOf) a a) ∧
        g.sequence = .error (.importCycle (g.sourcesAt g.cycleMembers)) := by
  by_cases hlen : g.placed.length < g.unitCount
  · refine .inr ⟨?_, if_pos hlen⟩
    by_contra hnone
    rw [not_exists, acyclic_iff, ← all_placed_iff] at hnone
    have hall : g.indices.length ≤ g.placed.length :=
      length_le_of_nodup List.nodup_range fun i hi => hnone i (g.mem_indices.1 hi)
    rw [indices, List.length_range] at hall
    omega
  · have hperm := g.placed_perm_iff.2 hlen
    refine .inl ⟨?_, hperm, if_neg hlen⟩
    rw [acyclic_iff, ← all_placed_iff]
    exact fun i hi => hperm.mem_iff.2 (g.mem_indices.2 hi)

/-- In the order of placing no source comes before one that it imports. -/
theorem pairwise_sourcesAt_placed :
    (g.sourcesAt g.placed).Pairwise fun a b => b ∉ g.importsOf a := by
  refine List.Pairwise.filterMap _ (fun i j hij a ha b hb => ?_) g.ordered_placed.not_later
  exact fun hab => hij ((g.leads_importsOf ha hb).1 hab)

/-- In the order of placing each source comes after every one that it imports. -/
theorem idxOf_lt_idxOf {a b : SourceId} (ha : a ∈ g.sourcesAt g.placed)
    (hb : b ∈ g.sourcesAt g.placed) (hself : a ∉ g.importsOf a) (hab : b ∈ g.importsOf a) :
    (g.sourcesAt g.placed).idxOf b < (g.sourcesAt g.placed).idxOf a := by
  by_contra hnot
  rcases Nat.lt_or_eq_of_le (Nat.not_lt.1 hnot) with hlt | heq
  · have hlater := List.pairwise_iff_getElem.1 g.pairwise_sourcesAt_placed _ _
      (List.idxOf_lt_length_of_mem ha) (List.idxOf_lt_length_of_mem hb) hlt
    rw [List.getElem_idxOf, List.getElem_idxOf] at hlater
    exact hlater hab
  · obtain rfl := (List.idxOf_inj ha).1 heq
    exact hself hab

/-- A graph has an order of compilation if and only if no source imports itself, directly or through
others. The order then consists of all units, each after those it imports. No count ever falls
below nothing on the way, and the queue runs empty. A load whose units import each other in a cycle
fails by that before anything is read or reported. -/
theorem sequence_ok_iff_acyclic :
    ((∃ order, g.sequence = .ok order) ↔ ∀ a, ¬TransGen (Leads g.importsOf) a a) ∧
    (∀ order, g.sequence = .ok order →
      order.Perm g.units ∧ ∀ a b, b ∈ g.importsOf a → order.idxOf b < order.idxOf a) ∧
    (∀ n, Placement.NeverUnderflows g (Placement.run g n (Placement.start g))) ∧
    (Placement.run g g.unitCount (Placement.start g)).ready = [] ∧
    ∀ (w : Workspace) (reader : SourceReader) (roots : List SourceId),
      reader.graph roots = .ok g →
      ∀ a b, a ≠ b → TransGen (Leads g.importsOf) a b → TransGen (Leads g.importsOf) b a →
        ∃ members, ∀ read, w.load { reader with read } roots =
          { workspace := w, events := [], result := .error (.refused (.importCycle members)) } := by
  refine ⟨?_, fun order horder => ?_, fun n => ?_, g.ready_end, ?_⟩
  · rcases g.sequence_eq with ⟨hacyclic, -, heq⟩ | ⟨⟨a, hcycle⟩, heq⟩
    · exact ⟨fun _ => hacyclic, fun _ => ⟨_, heq⟩⟩
    · rw [heq]
      exact ⟨fun ⟨_, h⟩ => by contradiction, fun h => absurd hcycle (h a)⟩
  · rcases g.sequence_eq with ⟨hacyclic, hperm, heq⟩ | ⟨-, heq⟩
    · obtain rfl : g.sourcesAt g.placed = order := Except.ok.inj (heq.symm.trans horder)
      have hunits : (g.sourcesAt g.placed).Perm g.units := by
        rw [← sourcesAt_indices]
        exact hperm.filterMap _
      refine ⟨hunits, fun a b hab => ?_⟩
      obtain ⟨i, j, -, ha, hb⟩ := g.mem_importsOf.1 hab
      exact g.idxOf_lt_idxOf (hunits.mem_iff.2 (List.mem_of_getElem? ha))
        (hunits.mem_iff.2 (List.mem_of_getElem? hb)) (fun h => hacyclic a (.single h)) hab
    · rw [heq] at horder
      contradiction
  · exact ((Placement.peeled_start g).run n).neverUnderflows
  · intro w reader roots hgraph a b _ hab hba
    refine ⟨g.sourcesAt g.cycleMembers, fun read => ?_⟩
    have hread : SourceReader.graph { reader with read } roots = .ok g := hgraph
    rcases g.sequence_eq with ⟨hacyclic, -⟩ | ⟨-, heq⟩
    · exact absurd (hab.trans hba) (hacyclic a)
    · rw [Workspace.load, hread, Except.bind, heq]

/-- Two sources that import each other. -/
def mutualSources : SourceTable :=
  [("a", { name := some "A", imports := [{ source := "b" }] }),
    ("b", { name := some "B", imports := [{ source := "a" }] })]

theorem sequence_mutual_imports :
    ∃ g, mutualSources.reader.graph ["a"] = .ok g ∧ TransGen (Leads g.importsOf) "a" "a" ∧
      (¬∃ order, g.sequence = .ok order) ∧
      ∃ members, (Workspace.load { primitives := [] } mutualSources.reader ["a"]).result =
        .error (.refused (.importCycle members)) := by
  have hgraph : (mutualSources.reader.graph ["a"]).map
      (fun g => (g.importsOf "a", g.importsOf "b")) = .ok (["b"], ["a"]) := by cbv
  obtain ⟨g, hgraph, himports⟩ := map_eq_ok.1 hgraph
  obtain ⟨ha, hb⟩ := Prod.mk.inj himports
  have hab : TransGen (Leads g.importsOf) "a" "b" := .single (by simp [Leads, ha])
  have hba : TransGen (Leads g.importsOf) "b" "a" := .single (by simp [Leads, hb])
  obtain ⟨hiff, -, -, -, hload⟩ := sequence_ok_iff_acyclic g
  obtain ⟨members, hmembers⟩ := hload { primitives := [] } mutualSources.reader ["a"] hgraph
    "a" "b" (by decide) hab hba
  refine ⟨g, hgraph, hab.trans hba, fun h => hiff.1 h "a" (hab.trans hba), members, ?_⟩
  exact congrArg _ (hmembers mutualSources.reader.read)

end SchemaGraph.ImportGraph
