import SchemaGraph.Proofs.Sequencing

/-!
Which of the ready units is placed next.

A unit is ready from the moment that the last of its imports is placed. The queue is first come,
first served: of the units that are ready it places one that has been ready the longest, and of
those that became ready at once the first discovered. This says what the order of compilation is,
for each graph that has one.

It is not the rule that the first discovered of all ready units comes next. The two differ where a
unit becomes ready while one discovered later is ready already.
-/

namespace SchemaGraph.ImportGraph

open Relation

/-! ### Moments of readiness -/

section Moments

variable {α : Type} [DecidableEq α] (next : α → List α) (order : List α)

/-- How many nodes of an order have to be placed until all nodes that a node leads to are. -/
def readySince (a : α) : Nat :=
  ((next a).map fun b => order.idxOf b + 1).foldr max 0

/-- One node has been ready for longer than another, or for as long and it is of lower rank. -/
def Sooner (rank : α → Nat) (a b : α) : Prop :=
  readySince next order a < readySince next order b ∨
    readySince next order a = readySince next order b ∧ rank a < rank b

variable {next order}

theorem readySince_le_iff {a : α} {n : Nat} :
    readySince next order a ≤ n ↔ ∀ b ∈ next a, order.idxOf b < n := by
  rw [readySince]
  induction next a with
  | nil => simp
  | cons b bs ih => simp [ih]

theorem readySince_eq_zero {a : α} (h : next a = []) : readySince next order a = 0 := by
  rw [readySince, h]
  rfl

/-- The moment depends on the places of the nodes that a node leads to. -/
theorem readySince_congr {β : Type} [DecidableEq β] {next' : β → List β} {order' : List β} {a : α}
    {b : β} (hle : ∀ n, (∀ c ∈ next a, order.idxOf c < n) ↔ ∀ d ∈ next' b, order'.idxOf d < n) :
    readySince next order a = readySince next' order' b :=
  eq_of_forall_ge_iff fun n => by rw [readySince_le_iff, readySince_le_iff, hle]

/-- Nothing that is placed later changes the moment at which a node became ready. -/
theorem readySince_append {a : α} (h : ∀ b ∈ next a, b ∈ order) (later : List α) :
    readySince next (order ++ later) a = readySince next order a := by
  refine readySince_congr fun n => forall₂_congr fun b hb => ?_
  rw [List.idxOf_append_of_mem (h b hb)]

theorem readySince_le_length {a : α} (h : ∀ b ∈ next a, b ∈ order) :
    readySince next order a ≤ order.length :=
  readySince_le_iff.2 fun b hb => List.idxOf_lt_length_of_mem (h b hb)

/-- A node that waited for the last node placed has just become ready. -/
theorem readySince_snoc {a c : α} (hc : c ∉ order) (hac : c ∈ next a)
    (h : ∀ b ∈ next a, b ∈ order ++ [c]) :
    readySince next (order ++ [c]) a = order.length + 1 := by
  refine le_antisymm ((readySince_le_length h).trans (by simp)) ?_
  by_contra hlt
  have hlast := readySince_le_iff.1 (Nat.lt_succ_iff.1 (Nat.not_le.1 hlt)) c hac
  rw [List.idxOf_append_of_notMem hc] at hlast
  simp at hlast

theorem sooner_append {rank : α → Nat} {a b : α} (ha : ∀ c ∈ next a, c ∈ order)
    (hb : ∀ c ∈ next b, c ∈ order) (later : List α) :
    Sooner next (order ++ later) rank a b ↔ Sooner next order rank a b := by
  rw [Sooner, Sooner, readySince_append ha, readySince_append hb]

theorem Sooner.asymm {rank : α → Nat} {a b : α} (hab : Sooner next order rank a b) :
    ¬Sooner next order rank b a := by
  unfold Sooner at hab ⊢
  omega

end Moments

/-! ### The queue -/

namespace Placement

/-- The units placed and those in the queue stand in the order in which they became ready, and those
that became ready at once in the order of discovery. -/
def FirstCome (g : ImportGraph) (p : Placement) : Prop :=
  (p.placed ++ p.ready).Pairwise (Sooner g.targets p.placed id)

theorem firstCome_start (g : ImportGraph) : FirstCome g (start g) := by
  have hincreasing : (start g).ready.Pairwise (· < ·) := List.pairwise_lt_range.filter _
  refine hincreasing.imp_of_mem fun {i j} hi hj hij => .inr ⟨?_, hij⟩
  have hnone : ∀ k ∈ (start g).ready, g.targets k = [] := fun k hk =>
    List.length_eq_zero_iff.1 (of_decide_eq_true (List.mem_filter.1 hk).2)
  rw [readySince_eq_zero (hnone i hi), readySince_eq_zero (hnone j hj)]

/-- Placing the head of the queue lets its importers in behind all units that were ready. -/
theorem FirstCome.step {g : ImportGraph} {p : Placement} (h : Peeled g p) (hfirst : FirstCome g p) :
    FirstCome g (p.step g) := by
  unfold Placement.step
  split
  · exact hfirst
  · rename_i i rest hready
    have hi : i ∉ p.placed := (h.head hready).2.1
    rw [FirstCome, hready] at hfirst
    have hold : ∀ k ∈ p.placed ++ i :: rest, ∀ j ∈ g.targets k, j ∈ p.placed := by
      intro k hk
      rw [← hready] at hk
      exact unplaced_eq_nil.1 ((h.mem_iff k).1 hk).2
    have hnew : ∀ k ∈ (g.importers i).filter (fun k => p.missing.getD k 0 - 1 = 0),
        readySince g.targets (p.placed ++ [i]) k = p.placed.length + 1 := by
      intro k hk
      obtain ⟨hki, hcount⟩ := List.mem_filter.1 hk
      have hnone := (h.released_iff hready hki).1 (of_decide_eq_true hcount)
      exact readySince_snoc hi (g.mem_targets.2 (g.mem_importers.1 hki)) (unplaced_eq_nil.1 hnone)
    have hsplit : ∀ released, p.placed ++ [i] ++ (rest ++ released) =
        (p.placed ++ i :: rest) ++ released := by simp
    rw [FirstCome, placed_releases, ready_releases (g.nodup_importers i), hsplit,
      List.pairwise_append]
    refine ⟨?_, ?_, fun k hk l hl => .inl ?_⟩
    · exact hfirst.imp_of_mem fun hk hl => (sooner_append (hold _ hk) (hold _ hl) [i]).2
    · have hincreasing : (g.importers i).Pairwise (· < ·) := List.pairwise_lt_range.filter _
      refine (hincreasing.filter _).imp_of_mem fun {k l} hk hl hkl => .inr ⟨?_, hkl⟩
      rw [hnew k hk, hnew l hl]
    · rw [readySince_append (hold k hk), hnew l hl]
      exact Nat.lt_succ_of_le (readySince_le_length (hold k hk))

theorem FirstCome.run {g : ImportGraph} {p : Placement} (h : Peeled g p) (hfirst : FirstCome g p)
    (n : Nat) : FirstCome g (Placement.run g n p) := by
  induction n generalizing p with
  | zero => exact hfirst
  | succ n ih => exact ih h.step (hfirst.step h)

end Placement

variable (g : ImportGraph)

theorem pairwise_sooner_placed : g.placed.Pairwise (Sooner g.targets g.placed id) := by
  have hend : (g.placed ++ _).Pairwise _ :=
    (Placement.firstCome_start g).run (Placement.peeled_start g) g.unitCount
  rwa [ready_end, List.append_nil] at hend

/-! ### Ready units -/

/-- A unit is ready after some others if it is not among them and all its imports are. -/
def Ready (before : List SourceId) (a : SourceId) : Prop :=
  a ∈ g.units ∧ a ∉ before ∧ ∀ b ∈ g.importsOf a, b ∈ before

/-- At each place stands the first discovered of the units that are ready there. -/
def EarliestFirst (order : List SourceId) : Prop :=
  ∀ before a after, order = before ++ a :: after → g.Ready before a ∧
    ∀ b, g.Ready before b → g.units.idxOf a ≤ g.units.idxOf b

/-- At each place stands, of the units that are ready there, the one that has been ready for the
longest, and of several the first discovered. -/
def FirstCome (order : List SourceId) : Prop :=
  ∀ before a after, order = before ++ a :: after → g.Ready before a ∧
    ∀ b, g.Ready before b → b ≠ a → Sooner g.importsOf order g.units.idxOf a b

/-- No unit is placed before a ready one that has not been ready for as long but was discovered
earlier. -/
def NoneOvertaken (order : List SourceId) : Prop :=
  ∀ before a after, order = before ++ a :: after → ∀ b, g.Ready before b →
    readySince g.importsOf order a < readySince g.importsOf order b →
      g.units.idxOf a < g.units.idxOf b

variable {g}

theorem idxOf_units {i : Nat} {a : SourceId} (ha : g.units[i]? = some a) : g.units.idxOf a = i := by
  obtain ⟨hi, rfl⟩ := List.getElem?_eq_some_iff.1 ha
  exact g.units_nodup.idxOf_getElem i hi

/-- A source stands where its position does. -/
theorem idxOf_sourcesAt {is : List Nat} (his : ∀ i ∈ is, i < g.unitCount) {j : Nat} {b : SourceId}
    (hb : g.units[j]? = some b) : (g.sourcesAt is).idxOf b = is.idxOf j := by
  induction is with
  | nil => rfl
  | cons k ks ih =>
      obtain ⟨c, hc⟩ : ∃ c, g.units[k]? = some c :=
        ⟨_, List.getElem?_eq_getElem (his k List.mem_cons_self)⟩
      have hsame : c = b ↔ k = j := by
        refine ⟨?_, ?_⟩
        · rintro rfl
          exact g.eq_of_getElem? hc hb
        · rintro rfl
          exact Option.some.inj (hc.symm.trans hb)
      have hrest := ih fun i hi => his i (List.mem_cons_of_mem k hi)
      rw [sourcesAt] at hrest ⊢
      rw [List.filterMap_cons_some hc]
      by_cases hkj : k = j
      · rw [hsame.2 hkj, hkj, List.idxOf_cons_self, List.idxOf_cons_self]
      · rw [List.idxOf_cons_ne _ (mt hsame.1 hkj), List.idxOf_cons_ne _ hkj, hrest]

/-- A position and the source that it stands for become ready at the same moment. -/
theorem readySince_sourcesAt {is : List Nat} (his : ∀ i ∈ is, i < g.unitCount) {i : Nat}
    {a : SourceId} (ha : g.units[i]? = some a) :
    readySince g.importsOf (g.sourcesAt is) a = readySince g.targets is i := by
  refine readySince_congr fun n => ⟨fun h j hj => ?_, fun h b hb => ?_⟩
  · obtain ⟨b, hb⟩ : ∃ b, g.units[j]? = some b :=
      ⟨_, List.getElem?_eq_getElem (g.imports_lt _ (g.mem_targets.1 hj)).2⟩
    rw [← idxOf_sourcesAt his hb]
    exact h b ((g.leads_importsOf ha hb).2 hj)
  · obtain ⟨i', j, -, -, hj⟩ := g.mem_importsOf.1 hb
    rw [idxOf_sourcesAt his hj]
    exact h j ((g.leads_importsOf ha hj).1 hb)

theorem pairwise_sooner_sequence : (g.sourcesAt g.placed).Pairwise
    (Sooner g.importsOf (g.sourcesAt g.placed) g.units.idxOf) := by
  have hplaced : ∀ i ∈ g.placed, i < g.unitCount := fun i hi => (g.mem_placed.1 hi).1
  refine List.Pairwise.filterMap _ (fun i j hij a ha b hb => ?_) g.pairwise_sooner_placed
  rw [Sooner, readySince_sourcesAt hplaced ha, readySince_sourcesAt hplaced hb, idxOf_units ha,
    idxOf_units hb]
  exact hij

/-! ### Orders that are first come, first served -/

theorem mem_units_of_mem_importsOf {a b : SourceId} (h : b ∈ g.importsOf a) :
    a ∈ g.units ∧ b ∈ g.units := by
  obtain ⟨i, j, -, ha, hb⟩ := g.mem_importsOf.1 h
  exact ⟨List.mem_of_getElem? ha, List.mem_of_getElem? hb⟩

theorem firstCome_of_pairwise {order : List SourceId} (hperm : order.Perm g.units)
    (hself : ∀ a, a ∉ g.importsOf a) (hlater : order.Pairwise fun a b => b ∉ g.importsOf a)
    (hsooner : order.Pairwise (Sooner g.importsOf order g.units.idxOf)) : g.FirstCome order := by
  intro before a after hsplit
  have hnodup := hperm.nodup_iff.2 g.units_nodup
  have hafter : ∀ b, b ∈ g.units → b ∉ before → b ≠ a → b ∈ after := by
    intro b hb hbefore hba
    rw [← hperm.mem_iff, hsplit, List.mem_append, List.mem_cons] at hb
    exact (hb.resolve_left hbefore).resolve_left hba
  have hend : ∀ {R : SourceId → SourceId → Prop}, order.Pairwise R → ∀ b ∈ after, R a b := by
    intro R hpairwise
    rw [hsplit, List.pairwise_append, List.pairwise_cons] at hpairwise
    exact hpairwise.2.1.1
  refine ⟨⟨?_, ?_, fun b hb => ?_⟩, fun b hb hba => ?_⟩
  · exact hperm.mem_iff.1 (by simp [hsplit])
  · rw [hsplit, List.nodup_append] at hnodup
    exact fun ha => hnodup.2.2 a ha a List.mem_cons_self rfl
  · by_contra hbefore
    have hba : b ≠ a := by
      rintro rfl
      exact hself b hb
    exact hend hlater b (hafter b (mem_units_of_mem_importsOf hb).2 hbefore hba) hb
  · exact hend hsooner b (hafter b hb.1 hb.2.1 hba)

namespace FirstCome

variable {order : List SourceId}

/-- There is one order of that kind: after the same units the same unit is next. -/
theorem unique {order' : List SourceId} (h : g.FirstCome order) (h' : g.FirstCome order')
    (hlength : order.length = order'.length) : order = order' := by
  suffices hrest : ∀ rest rest' before, order = before ++ rest → order' = before ++ rest' →
      rest = rest' from hrest order order' [] rfl rfl
  intro rest
  induction rest with
  | nil =>
      intro rest' before horder horder'
      rw [horder, horder', List.length_append, List.length_append] at hlength
      exact (List.length_eq_zero_iff.1 (Nat.add_left_cancel hlength).symm).symm
  | cons a rest ih =>
      intro rest' before horder horder'
      cases rest' with
      | nil =>
          rw [horder, horder', List.append_nil, List.length_append, List.length_cons] at hlength
          omega
      | cons b rest' =>
          obtain ⟨ha, hfirst⟩ := h before a rest horder
          obtain ⟨hb, hfirst'⟩ := h' before b rest' horder'
          obtain rfl : a = b := by
            by_contra hab
            -- What is ready by now became so at the same moment in both orders.
            have hsooner := hfirst b hb (Ne.symm hab)
            have hsooner' := hfirst' a ha hab
            rw [horder, sooner_append ha.2.2 hb.2.2] at hsooner
            rw [horder', sooner_append hb.2.2 ha.2.2] at hsooner'
            exact hsooner.asymm hsooner'
          rw [ih rest' (before ++ [a]) (by simp [horder]) (by simp [horder'])]

/-- What a unit imports is placed before it. -/
theorem idxOf_lt (h : g.FirstCome order) (hperm : order.Perm g.units) {a b : SourceId}
    (hab : b ∈ g.importsOf a) : order.idxOf b < order.idxOf a := by
  have ha := hperm.mem_iff.2 (mem_units_of_mem_importsOf hab).1
  obtain ⟨before, after, hsplit⟩ := List.append_of_mem ha
  obtain ⟨-, hnew, himports⟩ := (h before a after hsplit).1
  have hb := himports b hab
  rw [hsplit, List.idxOf_append_of_mem hb, List.idxOf_append_of_notMem hnew, List.idxOf_cons_self]
  exact List.idxOf_lt_length_of_mem hb

theorem acyclic (h : g.FirstCome order) (hperm : order.Perm g.units) (a : SourceId) :
    ¬TransGen (Leads g.importsOf) a a := by
  have hlt : ∀ b, TransGen (Leads g.importsOf) a b → order.idxOf b < order.idxOf a := by
    intro b hab
    induction hab with
    | single hab => exact h.idxOf_lt hperm hab
    | tail _ hbc ih => exact (h.idxOf_lt hperm hbc).trans ih
  exact fun hcycle => lt_irrefl _ (hlt a hcycle)

theorem earliestFirst_iff (h : g.FirstCome order) :
    g.EarliestFirst order ↔ g.NoneOvertaken order := by
  constructor
  · intro hearliest before a after hsplit b hb hlt
    refine lt_of_le_of_ne ((hearliest before a after hsplit).2 b hb) fun heq => ?_
    rw [(List.idxOf_inj (h before a after hsplit).1.1).1 heq] at hlt
    exact lt_irrefl _ hlt
  · intro hlater before a after hsplit
    obtain ⟨ha, hfirst⟩ := h before a after hsplit
    refine ⟨ha, fun b hb => ?_⟩
    rcases eq_or_ne b a with rfl | hba
    · exact le_rfl
    · rcases hfirst b hb hba with hlt | ⟨-, hlt⟩
      · exact (hlater before a after hsplit b hb hlt).le
      · exact hlt.le

end FirstCome

theorem sequence_eq_ok {order : List SourceId} (h : g.sequence = .ok order) :
    order.Perm g.units ∧ g.FirstCome order := by
  rcases g.sequence_eq with ⟨hacyclic, hperm, heq⟩ | ⟨-, heq⟩
  · obtain rfl : g.sourcesAt g.placed = order := Except.ok.inj (heq.symm.trans h)
    have hunits : (g.sourcesAt g.placed).Perm g.units := by
      rw [← sourcesAt_indices]
      exact hperm.filterMap _
    exact ⟨hunits, firstCome_of_pairwise hunits (fun a ha => hacyclic a (.single ha))
      g.pairwise_sourcesAt_placed pairwise_sooner_sequence⟩
  · rw [heq] at h
    contradiction

variable (g)

/-- The order of compilation is the one order of all units in which at each place stands, of the
units that are ready there, the one that has been ready for the longest, and of those that became
ready at once the first discovered; there is no other order of compilation, and none at all where no
such order exists. It has the first discovered of all ready units at each place just if it overtakes
none that became ready later. -/
theorem sequence_first_come :
    (∀ order, g.sequence = .ok order ↔ order.Perm g.units ∧ g.FirstCome order) ∧
    ∀ order, g.sequence = .ok order → (g.EarliestFirst order ↔ g.NoneOvertaken order) := by
  refine ⟨fun order => ⟨sequence_eq_ok, fun ⟨hperm, hfirst⟩ => ?_⟩, fun order horder => ?_⟩
  · rcases g.sequence_eq with ⟨-, -, heq⟩ | ⟨⟨a, hcycle⟩, -⟩
    · obtain ⟨hperm', hfirst'⟩ := sequence_eq_ok heq
      rw [heq, hfirst.unique hfirst' (hperm.length_eq.trans hperm'.length_eq.symm)]
    · exact absurd hcycle (hfirst.acyclic hperm a)
  · exact (sequence_eq_ok horder).2.earliestFirst_iff

/-- Three sources, the first of which imports the second. -/
def overtakenSources : SourceTable :=
  [("a", { name := some "A", imports := [{ source := "b" }] }), ("b", { name := some "B" }),
    ("c", { name := some "C" })]

theorem graph_overtaken : ∃ g, overtakenSources.reader.graph ["a", "b", "c"] = .ok g ∧
    g.units = ["a", "b", "c"] ∧ g.importsOf "a" = ["b"] ∧ g.sequence = .ok ["b", "c", "a"] := by
  have hgraph : (overtakenSources.reader.graph ["a", "b", "c"]).map
      (fun g => (g.units, g.importsOf "a", g.sequence)) =
        .ok (["a", "b", "c"], ["b"], .ok ["b", "c", "a"]) := by cbv
  obtain ⟨g, hg, heq⟩ := map_eq_ok.1 hgraph
  simp only [Prod.mk.injEq] at heq
  exact ⟨g, hg, heq⟩

theorem sequence_first_come_overtaken :
    ∃ g, overtakenSources.reader.graph ["a", "b", "c"] = .ok g ∧
      g.sequence = .ok ["b", "c", "a"] ∧ g.FirstCome ["b", "c", "a"] ∧
      (g.EarliestFirst ["b", "c", "a"] ↔ g.NoneOvertaken ["b", "c", "a"]) := by
  obtain ⟨g, hgraph, -, -, horder⟩ := graph_overtaken
  obtain ⟨hiff, hearliest⟩ := sequence_first_come g
  exact ⟨g, hgraph, horder, ((hiff _).1 horder).2, hearliest _ horder⟩

/-- The first unit is ready as soon as the second one is placed, but the third is placed before
it. -/
theorem earliest_overtaken :
    ∃ g order, overtakenSources.reader.graph ["a", "b", "c"] = .ok g ∧ g.sequence = .ok order ∧
      ¬g.EarliestFirst order := by
  obtain ⟨g, hgraph, hunits, himports, horder⟩ := graph_overtaken
  refine ⟨g, _, hgraph, horder, fun hearliest => ?_⟩
  have hready : g.Ready ["b"] "a" := ⟨by simp [hunits], by simp, by simp [himports]⟩
  have hle := (hearliest ["b"] "c" ["a"] rfl).2 "a" hready
  rw [hunits] at hle
  exact absurd hle (by decide)

end SchemaGraph.ImportGraph
