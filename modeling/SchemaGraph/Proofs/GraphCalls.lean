import SchemaGraph.ImportGraph.Dot
import SchemaGraph.Proofs.Cycles

/-!
What an import graph keeps of the calls that made it: the units in the order of their first addition
and the set of the imports that were recorded, which are those between sources that were units at
the time of the call.

The order of recording decides how the imports are stored. No observer depends on it: two graphs
that agree on the units and on the set of imports give the same answers.
-/

namespace SchemaGraph.ImportGraph

/-! ### Graphs that agree -/

/-- The same units in the same order and the same imports, recorded in whatever order. -/
structure Agree (g h : ImportGraph) : Prop where
  units : g.units = h.units
  mem_imports : ∀ e, e ∈ g.imports ↔ e ∈ h.imports

theorem agree_of_importsOf {g h : ImportGraph} (hunits : g.units = h.units)
    (himports : ∀ a b, b ∈ g.importsOf a ↔ b ∈ h.importsOf a) : Agree g h := by
  have hle : ∀ {g h : ImportGraph}, g.units = h.units →
      (∀ a b, b ∈ g.importsOf a → b ∈ h.importsOf a) → ∀ e ∈ g.imports, e ∈ h.imports := by
    rintro g h hunits himports ⟨i, j⟩ hij
    obtain ⟨a, ha⟩ : ∃ a, g.units[i]? = some a :=
      ⟨_, List.getElem?_eq_getElem (g.imports_lt _ hij).1⟩
    obtain ⟨b, hb⟩ : ∃ b, g.units[j]? = some b :=
      ⟨_, List.getElem?_eq_getElem (g.imports_lt _ hij).2⟩
    have hab := himports _ _ ((g.leads_importsOf ha hb).2 (g.mem_targets.2 hij))
    rw [hunits] at ha hb
    exact h.mem_targets.1 ((h.leads_importsOf ha hb).1 hab)
  exact ⟨hunits, fun e => ⟨hle hunits (fun a b => (himports a b).1) e,
    hle hunits.symm (fun a b => (himports a b).2) e⟩⟩

namespace Agree

variable {g h : ImportGraph} (hgh : Agree g h)

include hgh

theorem unitCount_eq : g.unitCount = h.unitCount := by
  rw [unitCount, unitCount, hgh.units]

theorem indices_eq : g.indices = h.indices := by
  rw [indices, indices, hgh.unitCount_eq]

theorem importCount_eq : g.importCount = h.importCount :=
  ((List.perm_ext_iff_of_nodup g.imports_nodup h.imports_nodup).2 hgh.mem_imports).length_eq

theorem targets_eq : g.targets = h.targets := by
  funext i
  simp only [targets, hgh.indices_eq, hgh.mem_imports]

theorem importers_eq : g.importers = h.importers := by
  funext j
  simp only [importers, hgh.indices_eq, hgh.mem_imports]

theorem sourcesAt_eq : g.sourcesAt = h.sourcesAt := by
  funext is
  rw [sourcesAt, sourcesAt, hgh.units]

theorem contains_eq : g.contains = h.contains := by
  funext a
  rw [contains, contains, hgh.units]

theorem importsOf_eq : g.importsOf = h.importsOf := by
  funext a
  simp only [importsOf, index?, hgh.units, hgh.sourcesAt_eq, hgh.targets_eq]

theorem start_eq : Placement.start g = Placement.start h := by
  simp only [Placement.start, hgh.indices_eq, hgh.targets_eq]

/-- The queues of two graphs that agree are worked off alike. -/
theorem run_eq (n : Nat) (p : Placement) : Placement.run g n p = Placement.run h n p := by
  induction n generalizing p with
  | zero => rfl
  | succ n ih =>
      have hstep : p.step g = p.step h := by
        simp only [Placement.step, hgh.importers_eq]
      rw [Placement.run, Placement.run, hstep, ih]

theorem placed_eq : g.placed = h.placed := by
  rw [placed, placed, hgh.unitCount_eq, hgh.start_eq, hgh.run_eq]

theorem reachable_eq : g.reachable = h.reachable := by
  funext i
  rw [reachable, reachable, hgh.indices_eq, hgh.targets_eq]

theorem component_eq : g.component = h.component := by
  funext i
  rw [component, component, hgh.indices_eq, hgh.reachable_eq]

theorem cycleMembers_eq : g.cycleMembers = h.cycleMembers := by
  rw [cycleMembers, cycleMembers, leftover, leftover, hgh.indices_eq, hgh.placed_eq,
    hgh.component_eq]

theorem sequence_eq : g.sequence = h.sequence := by
  rw [sequence, sequence, hgh.placed_eq, hgh.unitCount_eq, hgh.sourcesAt_eq, hgh.cycleMembers_eq]

theorem edges_eq : g.edges = h.edges := by
  rw [edges, edges, hgh.indices_eq, hgh.targets_eq]

theorem toDot_eq : g.toDot = h.toDot := by
  rw [toDot, toDot, hgh.units, hgh.importCount_eq, hgh.edges_eq]

end Agree

/-! ### Adjacency lists -/

section Adjacency

variable (g : ImportGraph)

/-- What a unit imports, the import that was recorded last first. -/
def outgoing (i : Nat) : List Nat :=
  ((g.imports.filter fun e => e.1 = i).map Prod.snd).reverse

/-- What imports a unit, the import that was recorded last first. -/
def incoming (j : Nat) : List Nat :=
  ((g.imports.filter fun e => e.2 = j).map Prod.fst).reverse

theorem mergeSort_ends {es : List (Nat × Nat)} {f : Nat × Nat → Nat} {js : List Nat}
    (hes : es.Nodup) (hf : ∀ d ∈ es, ∀ e ∈ es, f d = f e → d = e) (hjs : js.Pairwise (· < ·))
    (hmem : ∀ j, j ∈ js ↔ ∃ e ∈ es, f e = j) : (es.map f).reverse.mergeSort (· ≤ ·) = js := by
  have hnodup : (es.map f).reverse.Nodup := List.nodup_reverse.2 (hes.map_on hf)
  refine mergeSort_eq_of_sorted ?_ hjs
  refine (List.perm_ext_iff_of_nodup hnodup (hjs.imp Nat.ne_of_lt)).2 fun j => ?_
  rw [List.mem_reverse, List.mem_map, hmem]

/-- Sorting an adjacency list removes what the order of recording left in it. -/
theorem mergeSort_outgoing (i : Nat) : (g.outgoing i).mergeSort (· ≤ ·) = g.targets i := by
  refine mergeSort_ends (g.imports_nodup.filter _) ?_
    (List.pairwise_lt_range.sublist List.filter_sublist) fun j => ?_
  · rintro ⟨k, l⟩ hk ⟨k', l'⟩ hk' rfl
    simp_all
  · simp

theorem mergeSort_incoming (j : Nat) : (g.incoming j).mergeSort (· ≤ ·) = g.importers j := by
  refine mergeSort_ends (g.imports_nodup.filter _) ?_
    (List.pairwise_lt_range.sublist List.filter_sublist) fun i => ?_
  · rintro ⟨k, l⟩ hk ⟨k', l'⟩ hk' rfl
    simp_all
  · simp

end Adjacency

/-! ### Calls -/

inductive Call where
  | addUnit (id : SourceId)
  | addImport (source target : SourceId)

def Call.apply (g : ImportGraph) : Call → ImportGraph
  | .addUnit id => g.addUnit id
  | .addImport source target => g.addImport source target

def Call.added? : Call → Option SourceId
  | .addUnit id => some id
  | .addImport _ _ => none

def ofCalls (cs : List Call) : ImportGraph :=
  cs.foldl Call.apply empty

/-- The sources that are added, in the order of their first addition. -/
def introduced (cs : List Call) : List SourceId :=
  (cs.filterMap Call.added?).eraseDups

/-- The imports that are recorded by calls on a graph with the `known` units: those between sources
that are units at the time of the call. -/
def recordedFrom (known : List SourceId) : List Call → List (SourceId × SourceId)
  | [] => []
  | .addUnit id :: cs => recordedFrom (known ++ [id]) cs
  | .addImport source target :: cs =>
    if source ∈ known ∧ target ∈ known then (source, target) :: recordedFrom known cs
    else recordedFrom known cs

def recorded (cs : List Call) : List (SourceId × SourceId) :=
  recordedFrom [] cs

theorem units_apply (g : ImportGraph) (c : Call) :
    (c.apply g).units = (g.units ++ c.added?.toList).eraseDups := by
  cases c with
  | addUnit id => exact units_addUnit_eq g id
  | addImport source target =>
      simp [Call.apply, Call.added?, eraseDups_of_nodup g.units_nodup]

theorem addImport_of_not_mem {g : ImportGraph} {s t : SourceId}
    (h : ¬(s ∈ g.units ∧ t ∈ g.units)) : g.addImport s t = g := by
  rw [addImport]
  split
  · rename_i i j hi hj
    rw [index?_eq_some] at hi hj
    exact absurd ⟨List.mem_of_getElem? hi, List.mem_of_getElem? hj⟩ h
  · rfl

theorem units_foldl_apply (g : ImportGraph) (cs : List Call) :
    (cs.foldl Call.apply g).units = (g.units ++ cs.filterMap Call.added?).eraseDups := by
  induction cs generalizing g with
  | nil => simp [eraseDups_of_nodup g.units_nodup]
  | cons c cs ih =>
      rw [List.foldl_cons, ih, units_apply, eraseDups_append_left, List.append_assoc]
      cases h : c.added? <;> simp [h]

/-- Induction over the calls: `known` has the units that the graph has before each of them. -/
theorem mem_importsOf_foldl_apply {g : ImportGraph} {known : List SourceId}
    (hknown : ∀ a, a ∈ g.units ↔ a ∈ known) (cs : List Call) (a b : SourceId) :
    b ∈ (cs.foldl Call.apply g).importsOf a ↔
      b ∈ g.importsOf a ∨ (a, b) ∈ recordedFrom known cs := by
  induction cs generalizing g known with
  | nil => simp [recordedFrom]
  | cons c cs ih =>
      cases c with
      | addUnit id =>
          have hknown' : ∀ x, x ∈ (g.addUnit id).units ↔ x ∈ known ++ [id] := by
            simp [hknown]
          rw [List.foldl_cons, Call.apply, ih hknown', mem_importsOf_addUnit, recordedFrom]
      | addImport s t =>
          have hknown' : ∀ x, x ∈ (g.addImport s t).units ↔ x ∈ known := by
            simp [hknown]
          rw [List.foldl_cons, Call.apply, ih hknown', recordedFrom]
          by_cases hst : s ∈ g.units ∧ t ∈ g.units
          · rw [mem_importsOf_addImport hst.1 hst.2, if_pos (by simpa [← hknown] using hst),
              List.mem_cons, Prod.mk.injEq, or_assoc]
          · rw [addImport_of_not_mem hst, if_neg (by simpa [← hknown] using hst)]

theorem units_ofCalls (cs : List Call) : (ofCalls cs).units = introduced cs := by
  rw [ofCalls, units_foldl_apply, introduced, empty, List.nil_append]

theorem mem_importsOf_ofCalls {cs : List Call} {a b : SourceId} :
    b ∈ (ofCalls cs).importsOf a ↔ (a, b) ∈ recorded cs := by
  have hnone : b ∉ empty.importsOf a := by simp [importsOf, index?, empty]
  have hknown : ∀ a, a ∈ empty.units ↔ a ∈ [] := by simp [empty]
  rw [ofCalls, mem_importsOf_foldl_apply hknown, recorded]
  simp [hnone]

theorem importsOf_sublist (g : ImportGraph) (a : SourceId) :
    (g.importsOf a).Sublist g.units := by
  rw [importsOf]
  split
  · exact g.sourcesAt_sublist List.filter_sublist
  · exact List.nil_sublist _

/-- Two runs of calls that introduce the same units in the same order and record the same imports,
in whatever order and however often, make graphs that no observer tells apart. What a unit imports
is listed once each, in the order of discovery. The adjacency lists of the two may differ, but
sorted, as all observers take them, they are the same. -/
theorem calls_forgotten {cs ds : List Call} (hunits : introduced cs = introduced ds)
    (himports : ∀ e, e ∈ recorded cs ↔ e ∈ recorded ds) :
    (ofCalls cs).units = (ofCalls ds).units ∧
    (ofCalls cs).contains = (ofCalls ds).contains ∧
    (∀ a, (ofCalls cs).importsOf a = (ofCalls ds).importsOf a) ∧
    (ofCalls cs).unitCount = (ofCalls ds).unitCount ∧
    (ofCalls cs).importCount = (ofCalls ds).importCount ∧
    (ofCalls cs).toDot = (ofCalls ds).toDot ∧
    (ofCalls cs).sequence = (ofCalls ds).sequence ∧
    (ofCalls cs).units = introduced cs ∧
    (∀ a, ((ofCalls cs).importsOf a).Nodup ∧
      ((ofCalls cs).importsOf a).Sublist (introduced cs) ∧
      ∀ b, b ∈ (ofCalls cs).importsOf a ↔ (a, b) ∈ recorded cs) ∧
    ∀ g ∈ [ofCalls cs, ofCalls ds], ∀ i,
      (g.outgoing i).mergeSort (· ≤ ·) = (ofCalls cs).targets i ∧
      (g.incoming i).mergeSort (· ≤ ·) = (ofCalls cs).importers i := by
  have hagree : Agree (ofCalls cs) (ofCalls ds) := by
    refine agree_of_importsOf ?_ fun a b => ?_
    · rw [units_ofCalls, units_ofCalls, hunits]
    · rw [mem_importsOf_ofCalls, mem_importsOf_ofCalls, himports]
  refine ⟨hagree.units, hagree.contains_eq, congrFun hagree.importsOf_eq, hagree.unitCount_eq,
    hagree.importCount_eq, hagree.toDot_eq, hagree.sequence_eq, units_ofCalls cs, fun a => ?_,
    fun g hg i => ?_⟩
  · have hsub := (ofCalls cs).importsOf_sublist a
    refine ⟨(ofCalls cs).units_nodup.sublist hsub, ?_, fun b => mem_importsOf_ofCalls⟩
    rwa [units_ofCalls] at hsub
  · rw [mergeSort_outgoing, mergeSort_incoming]
    rcases List.mem_pair.1 hg with rfl | rfl
    · exact ⟨rfl, rfl⟩
    · rw [hagree.targets_eq, hagree.importers_eq]
      exact ⟨rfl, rfl⟩

/-- An import that comes too early, and two cycles. -/
def earlyCalls : List Call :=
  [.addUnit "a", .addImport "a" "b", .addUnit "b", .addUnit "c", .addImport "c" "a",
    .addImport "b" "a", .addImport "a" "c", .addImport "a" "b"]

/-- The same imports in another order, some of them again. -/
def repeatedCalls : List Call :=
  [.addUnit "a", .addUnit "b", .addUnit "a", .addImport "a" "b", .addImport "b" "a",
    .addUnit "c", .addImport "a" "b", .addImport "a" "c", .addUnit "b", .addImport "c" "a"]

theorem calls_forgotten_early :
    introduced earlyCalls = introduced repeatedCalls ∧
    (∀ e, e ∈ recorded earlyCalls ↔ e ∈ recorded repeatedCalls) ∧
    (ofCalls earlyCalls).imports ≠ (ofCalls repeatedCalls).imports ∧
    (ofCalls earlyCalls).sequence = (ofCalls repeatedCalls).sequence ∧
    (ofCalls earlyCalls).toDot = (ofCalls repeatedCalls).toDot := by
  have hunits : introduced earlyCalls = introduced repeatedCalls := by decide
  have himports : ∀ e, e ∈ recorded earlyCalls ↔ e ∈ recorded repeatedCalls := by
    intro e
    have hearly : recorded earlyCalls =
      [("c", "a"), ("b", "a"), ("a", "c"), ("a", "b")] := by decide
    have hrepeated : recorded repeatedCalls =
      [("a", "b"), ("b", "a"), ("a", "b"), ("a", "c"), ("c", "a")] := by decide
    rw [hearly, hrepeated]
    simp only [List.mem_cons, List.not_mem_nil]
    tauto
  obtain ⟨-, -, -, -, -, hdot, hsequence, -⟩ := calls_forgotten hunits himports
  exact ⟨hunits, himports, by decide, hsequence, hdot⟩

end SchemaGraph.ImportGraph
