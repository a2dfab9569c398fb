import SchemaGraph.Proofs.BreadthFirst
import SchemaGraph.Proofs.Sequencing

/-!
What discovery finds, and what order is made of it. The graph has the units that the roots need,
which are those that can be reached from them through imports, and the imports between different
units. Each of them is asked once for its imports. Discovery fails only if a unit that is needed
cannot say what it imports, and then with the error of the first such unit in breadth-first order.

Whether there is an order of compilation is decided for each needed unit on its own: its imports can
be read, and no cycle leads back to it.
-/

namespace SchemaGraph.ImportGraph

open Relation

/-! ### Needed units -/

namespace ImportLookup

variable (lookup : ImportLookup)

def Imports (a b : SourceId) : Prop :=
  ∃ is, lookup a = .ok is ∧ b ∈ is

/-- An import of itself is passed over. -/
def ImportsOther (a b : SourceId) : Prop :=
  lookup.Imports a b ∧ b ≠ a

/-- Units are needed that the roots reach through imports. -/
def Needs (roots : List SourceId) (u : SourceId) : Prop :=
  ∃ r ∈ roots, ReflTransGen lookup.Imports r u

/-- A unit that says what it imports and is not on a cycle of imports. -/
def Orderable (u : SourceId) : Prop :=
  (∃ is, lookup u = .ok is) ∧ ¬TransGen lookup.ImportsOther u u

theorem Needs.tail {lookup : ImportLookup} {roots : List SourceId} {a b : SourceId}
    (h : lookup.Needs roots a) (hab : lookup.Imports a b) : lookup.Needs roots b := by
  obtain ⟨r, hr, hra⟩ := h
  exact ⟨r, hr, hra.tail hab⟩

/-- What has the roots and with each unit what that imports has all that is needed. -/
theorem Needs.mem {lookup : ImportLookup} {roots known : List SourceId} {u : SourceId}
    (h : lookup.Needs roots u) (hroots : ∀ r ∈ roots, r ∈ known)
    (hclosed : ∀ a ∈ known, ∀ is, lookup a = .ok is → ∀ b ∈ is, b ∈ known) : u ∈ known := by
  obtain ⟨r, hr, hru⟩ := h
  induction hru with
  | refl => exact hroots r hr
  | tail _ hab ih =>
      obtain ⟨is, his, hb⟩ := hab
      exact hclosed _ ih is his _ hb

theorem finitelyReaching_iff {lookup : ImportLookup} {roots : List SourceId} :
    FinitelyReaching lookup roots ↔ {u | lookup.Needs roots u}.Finite := by
  constructor
  · rintro ⟨known, hroots, hclosed⟩
    exact (List.finite_toSet known).subset fun u hu => Needs.mem hu hroots hclosed
  · intro hfinite
    refine ⟨hfinite.toFinset.toList, fun r hr => ?_, fun u hu is his i hi => ?_⟩
    · exact Finset.mem_toList.2 (hfinite.mem_toFinset.2 ⟨r, hr, .refl⟩)
    · have hneeded : lookup.Needs roots u := hfinite.mem_toFinset.1 (Finset.mem_toList.1 hu)
      exact Finset.mem_toList.2 (hfinite.mem_toFinset.2 (hneeded.tail ⟨is, his, hi⟩))

theorem mem_importsOf {lookup : ImportLookup} {a b : SourceId} :
    b ∈ lookup.importsOf a ↔ lookup.Imports a b := by
  cases h : lookup a <;> simp [importsOf, Imports, h, Except.toOption]

/-- Needed units are those of the breadth-first order. -/
theorem needs_iff_mem_levels {lookup : ImportLookup} {roots : List SourceId} {u : SourceId} :
    lookup.Needs roots u ↔ ∃ n, u ∈ lookup.levels roots n := by
  constructor
  · rintro ⟨r, hr, hru⟩
    induction hru with
    | refl => exact ⟨0, by simpa [levels, layer] using hr⟩
    | tail _ hab ih =>
        obtain ⟨n, hn⟩ := ih
        refine ⟨n + 1, ?_⟩
        rw [levels_succ]
        exact List.mem_append_right _ (List.mem_flatMap.2 ⟨_, hn, mem_importsOf.2 hab⟩)
  · rintro ⟨n, hn⟩
    induction n generalizing u with
    | zero => exact ⟨u, by simpa [levels, layer] using hn, .refl⟩
    | succ n ih =>
        rw [levels_succ, List.mem_append, List.mem_flatMap] at hn
        rcases hn with hu | ⟨a, ha, hu⟩
        · exact ⟨u, hu, .refl⟩
        · exact (ih ha).tail (mem_importsOf.1 hu)

theorem FailsFirst.fails {lookup : ImportLookup} {roots : List SourceId} {u : SourceId}
    (h : lookup.FailsFirst roots u) : lookup.Needs roots u ∧ ∃ e, lookup u = .error e := by
  obtain ⟨n, hn⟩ := h
  exact ⟨needs_iff_mem_levels.2 ⟨n, List.mem_of_find?_eq_some hn⟩,
    lookup.fails_iff.1 (List.find?_some hn)⟩

end ImportLookup

/-! ### Adding units and imports -/

variable {g : ImportGraph} {a b s t unit : SourceId} {is : List SourceId}

theorem units_le_addUnit (g : ImportGraph) (a : SourceId) :
    g.units <+: (g.addUnit a).units := by
  rw [units_addUnit]
  split
  · exact List.prefix_rfl
  · exact List.prefix_append _ _

theorem imports_addUnit (g : ImportGraph) (a : SourceId) : (g.addUnit a).imports = g.imports := by
  rw [addUnit]
  split <;> rfl

/-- A new unit imports nothing. -/
theorem mem_importsOf_addUnit (x : SourceId) :
    b ∈ (g.addUnit x).importsOf a ↔ b ∈ g.importsOf a := by
  rw [mem_importsOf, mem_importsOf, imports_addUnit]
  refine exists_congr fun i => exists_congr fun j => and_congr_right fun hij => ?_
  have hlt := g.imports_lt _ hij
  obtain ⟨new, hnew⟩ := units_le_addUnit g x
  rw [← hnew, List.getElem?_append_left hlt.1, List.getElem?_append_left hlt.2]

theorem mem_imports_connect {i j k l : Nat} (hi : i < g.units.length) (hj : j < g.units.length) :
    (k, l) ∈ (g.connect i j).imports ↔ (k, l) ∈ g.imports ∨ k = i ∧ l = j := by
  rw [connect]
  split
  · simp
  · rename_i hnot
    have hmem : (i, j) ∈ g.imports := by
      by_contra hnew
      exact hnot ⟨hi, hj, hnew⟩
    constructor
    · exact .inl
    · rintro (h | ⟨rfl, rfl⟩)
      · exact h
      · exact hmem

theorem mem_importsOf_addImport (hs : s ∈ g.units) (ht : t ∈ g.units) :
    b ∈ (g.addImport s t).importsOf a ↔ b ∈ g.importsOf a ∨ a = s ∧ b = t := by
  obtain ⟨i, hi⟩ := List.getElem?_of_mem hs
  obtain ⟨j, hj⟩ := List.getElem?_of_mem ht
  have hilt := (List.getElem?_eq_some_iff.1 hi).1
  have hjlt := (List.getElem?_eq_some_iff.1 hj).1
  have hconnect : g.addImport s t = g.connect i j := by
    rw [addImport, (g.index?_eq_some).2 hi, (g.index?_eq_some).2 hj]
  rw [mem_importsOf, mem_importsOf, hconnect, units_connect]
  simp only [mem_imports_connect hilt hjlt]
  constructor
  · rintro ⟨k, l, hkl | ⟨rfl, rfl⟩, ha, hb⟩
    · exact .inl ⟨k, l, hkl, ha, hb⟩
    · exact .inr ⟨Option.some.inj (ha.symm.trans hi), Option.some.inj (hb.symm.trans hj)⟩
  · rintro (⟨k, l, hkl, ha, hb⟩ | ⟨rfl, rfl⟩)
    · exact ⟨k, l, .inl hkl, ha, hb⟩
    · exact ⟨i, j, .inr ⟨rfl, rfl⟩, hi, hj⟩

theorem mem_importsOf_addUnit_addImport (hunit : unit ∈ g.units) (i : SourceId) :
    b ∈ ((g.addUnit i).addImport unit i).importsOf a ↔ b ∈ g.importsOf a ∨ a = unit ∧ b = i := by
  have hsource : unit ∈ (g.addUnit i).units := (mem_units_addUnit g i unit).2 (.inl hunit)
  have htarget : i ∈ (g.addUnit i).units := (mem_units_addUnit g i i).2 (.inr rfl)
  rw [mem_importsOf_addImport hsource htarget, mem_importsOf_addUnit]

/-- What a unit imports is added after the units that are there; only the imports of that unit
change, and an import of itself is left out. -/
theorem addImports_spec (hunit : unit ∈ g.units) (is : List SourceId) :
    g.units <+: (g.addImports unit is).units ∧
      (∀ a, a ∈ (g.addImports unit is).units ↔ a ∈ g.units ∨ a ∈ is) ∧
      ∀ a b, b ∈ (g.addImports unit is).importsOf a ↔
        b ∈ g.importsOf a ∨ a = unit ∧ b ∈ is ∧ b ≠ unit := by
  rw [addImports]
  induction is generalizing g with
  | nil => simp
  | cons i is ih =>
      rw [List.foldl_cons]
      by_cases hself : i = unit
      · obtain ⟨hfront, hunits, himports⟩ := ih hunit
        rw [if_pos hself]
        refine ⟨hfront, fun a => ?_, fun a b => ?_⟩
        · rw [hunits, List.mem_cons, hself]
          constructor
          · rintro (h | h)
            · exact .inl h
            · exact .inr (.inr h)
          · rintro (h | rfl | h)
            · exact .inl h
            · exact .inl hunit
            · exact .inr h
        · rw [himports, List.mem_cons, hself]
          tauto
      · rw [if_neg hself]
        have hadded : unit ∈ ((g.addUnit i).addImport unit i).units := by
          rw [units_addImport, mem_units_addUnit]
          exact .inl hunit
        obtain ⟨hfront, hunits, himports⟩ := ih hadded
        refine ⟨?_, fun a => ?_, fun a b => ?_⟩
        · rw [units_addImport] at hfront
          exact (units_le_addUnit g i).trans hfront
        · rw [hunits, units_addImport, mem_units_addUnit, List.mem_cons, or_assoc]
        · rw [himports, mem_importsOf_addUnit_addImport hunit, List.mem_cons]
          constructor
          · rintro ((h | ⟨rfl, rfl⟩) | ⟨rfl, hb, hne⟩)
            · exact .inl h
            · exact .inr ⟨rfl, .inl rfl, hself⟩
            · exact .inr ⟨rfl, .inr hb, hne⟩
          · rintro (h | ⟨rfl, rfl | hb, hne⟩)
            · exact .inl (.inl h)
            · exact .inl (.inr ⟨rfl, rfl⟩)
            · exact .inr ⟨rfl, hb, hne⟩

theorem mem_units_addUnits : a ∈ (g.addUnits is).units ↔ a ∈ g.units ∨ a ∈ is := by
  rw [addUnits]
  induction is generalizing g with
  | nil => simp
  | cons i is ih => rw [List.foldl_cons, ih, mem_units_addUnit, List.mem_cons, or_assoc]

theorem units_addUnit_eq (g : ImportGraph) (i : SourceId) :
    (g.addUnit i).units = (g.units ++ [i]).eraseDups := by
  rw [units_addUnit, eraseDups_concat, eraseDups_of_nodup g.units_nodup]

theorem units_addUnits_eq (g : ImportGraph) (is : List SourceId) :
    (g.addUnits is).units = (g.units ++ is).eraseDups := by
  rw [addUnits]
  induction is generalizing g with
  | nil => rw [List.foldl_nil, List.append_nil, eraseDups_of_nodup g.units_nodup]
  | cons i is ih =>
      rw [List.foldl_cons, ih, units_addUnit_eq, eraseDups_append_left, List.append_assoc,
        List.singleton_append]

theorem units_addImports_eq (hunit : unit ∈ g.units) (is : List SourceId) :
    (g.addImports unit is).units = (g.units ++ is).eraseDups := by
  rw [addImports]
  induction is generalizing g with
  | nil => rw [List.foldl_nil, List.append_nil, eraseDups_of_nodup g.units_nodup]
  | cons i is ih =>
      have hstep : (if i = unit then g else (g.addUnit i).addImport unit i).units =
          (g.units ++ [i]).eraseDups := by
        split
        · rename_i hself
          rw [hself, eraseDups_concat, if_pos hunit, eraseDups_of_nodup g.units_nodup]
        · rw [units_addImport, units_addUnit_eq]
      rw [List.foldl_cons, ih (by simpa [hstep] using .inl hunit), hstep, eraseDups_append_left,
        List.append_assoc, List.singleton_append]

theorem mem_importsOf_addUnits : b ∈ (g.addUnits is).importsOf a ↔ b ∈ g.importsOf a := by
  rw [addUnits]
  induction is generalizing g with
  | nil => rfl
  | cons i is ih => rw [List.foldl_cons, ih, mem_importsOf_addUnit]

/-! ### Exploration -/

variable {lookup : ImportLookup} {roots : List SourceId}

/-- The graph while the unit at position `next` is about to be asked for its imports. -/
structure Explored (lookup : ImportLookup) (roots : List SourceId) (g : ImportGraph)
    (next : Nat) : Prop where
  rooted : ∀ r ∈ roots, r ∈ g.units
  needed : ∀ u ∈ g.units, lookup.Needs roots u
  imported : ∀ a b, b ∈ g.importsOf a → lookup.ImportsOther a b
  asked : ∀ i < next, ∀ u, g.units[i]? = some u → ∃ is, lookup u = .ok is ∧
    ∀ b ∈ is, b ∈ g.units ∧ (b ≠ u → b ∈ g.importsOf u)
  gathered : g.units = lookup.gather roots (g.units.take next)

namespace Explored

theorem start (lookup : ImportLookup) (roots : List SourceId) :
    Explored lookup roots (empty.addUnits roots) 0 := by
  refine ⟨fun r hr => mem_units_addUnits.2 (.inr hr), fun u hu => ?_, fun a b hb => ?_, by simp,
    by simp [units_addUnits_eq, empty, ImportLookup.gather]⟩
  · rcases mem_units_addUnits.1 hu with hu | hu
    · simp [empty] at hu
    · exact ⟨u, hu, .refl⟩
  · rw [mem_importsOf_addUnits, mem_importsOf] at hb
    simp [empty] at hb

theorem step {next : Nat} (h : Explored lookup roots g next) (hn : g.units[next]? = some unit)
    (hi : lookup unit = .ok is) : Explored lookup roots (g.addImports unit is) (next + 1) := by
  have hunit := List.mem_of_getElem? hn
  obtain ⟨⟨new, hnew⟩, hunits, himports⟩ := addImports_spec hunit is
  refine ⟨fun r hr => (hunits r).2 (.inl (h.rooted r hr)), fun u hu => ?_, fun a b hb => ?_, ?_, ?_⟩
  · rcases (hunits u).1 hu with hu | hu
    · exact h.needed u hu
    · exact (h.needed unit hunit).tail ⟨is, hi, hu⟩
  · rcases (himports a b).1 hb with hb | ⟨rfl, hb, hne⟩
    · exact h.imported a b hb
    · exact ⟨⟨is, hi, hb⟩, hne⟩
  · intro i hlt u hu
    rcases Nat.lt_succ_iff_lt_or_eq.1 hlt with hlt | rfl
    · have hlen := Nat.lt_trans hlt (List.getElem?_eq_some_iff.1 hn).1
      rw [← hnew, List.getElem?_append_left hlen] at hu
      obtain ⟨js, hjs, hall⟩ := h.asked i hlt u hu
      refine ⟨js, hjs, fun b hb => ⟨(hunits b).2 (.inl (hall b hb).1), fun hne => ?_⟩⟩
      exact (himports u b).2 (.inl ((hall b hb).2 hne))
    · have hlen := (List.getElem?_eq_some_iff.1 hn).1
      rw [← hnew, List.getElem?_append_left hlen, hn] at hu
      obtain rfl := Option.some.inj hu
      refine ⟨is, hi, fun b hb => ⟨(hunits b).2 (.inr hb), fun hne => ?_⟩⟩
      exact (himports unit b).2 (.inr ⟨rfl, hb, hne⟩)
  · have hlen := (List.getElem?_eq_some_iff.1 hn).1
    have htake : (g.addImports unit is).units.take (next + 1) = g.units.take next ++ [unit] := by
      rw [← hnew, List.take_append_of_le_length hlen, List.take_add_one, hn, Option.toList_some]
    have his : lookup.importsOf unit = is := by simp [ImportLookup.importsOf, hi, Except.toOption]
    rw [htake, ImportLookup.gather_concat, ← h.gathered, his]
    exact units_addImports_eq hunit is

/-- A unit whose turn it is and that fails is the first to fail. -/
theorem failsFirst {next : Nat} (h : Explored lookup roots g next)
    (hn : g.units[next]? = some unit) {e : CompileError} (hi : lookup unit = .error e) :
    lookup.FailsFirst roots unit := by
  obtain ⟨n, hlevel⟩ :=
    ImportLookup.needs_iff_mem_levels.1 (h.needed unit (List.mem_of_getElem? hn))
  have hprefix : g.units.take next ++ [unit] <+: lookup.gather roots (g.units.take next) := by
    have htake : g.units.take (next + 1) = g.units.take next ++ [unit] := by
      rw [List.take_add_one, hn, Option.toList_some]
    rw [← h.gathered, ← htake]
    exact List.take_prefix _ _
  refine ImportLookup.failsFirst_of_gathered hprefix (fun v hv => ?_) (lookup.fails_iff.2 ⟨e, hi⟩)
    hlevel
  obtain ⟨i, hv⟩ := List.getElem?_of_mem hv
  rw [List.getElem?_take] at hv
  split at hv
  · obtain ⟨is, his, -⟩ := h.asked i ‹_› v hv
    simp [ImportLookup.fails, his, Except.toOption]
  · contradiction

end Explored

section Explore

variable (h : FinitelyReaching lookup roots) {next : Nat} {asked : List SourceId}
  (inside : ∀ u ∈ g.units, u ∈ h.known)

theorem explore_of_none (hn : g.units[next]? = none) :
    explore h g next asked inside = { asked, result := .ok g } := by
  rw [explore]
  split
  · rfl
  · rename_i hn'
    rw [hn] at hn'
    contradiction

theorem explore_of_error (hn : g.units[next]? = some unit) {e : CompileError}
    (hi : lookup unit = .error e) :
    explore h g next asked inside = { asked := asked ++ [unit], result := .error e } := by
  rw [explore]
  split
  · rename_i hn'
    rw [hn] at hn'
    contradiction
  · rename_i unit' hn'
    obtain rfl := Option.some.inj (hn.symm.trans hn')
    split
    · rename_i hi'
      obtain rfl := Except.error.inj (hi.symm.trans hi')
      rfl
    · rename_i hi'
      rw [hi] at hi'
      contradiction

theorem explore_of_ok (hn : g.units[next]? = some unit) (hi : lookup unit = .ok is)
    (inside' : ∀ u ∈ (g.addImports unit is).units, u ∈ h.known) :
    explore h g next asked inside =
      explore h (g.addImports unit is) (next + 1) (asked ++ [unit]) inside' := by
  rw [explore]
  split
  · rename_i hn'
    rw [hn] at hn'
    contradiction
  · rename_i unit' hn'
    obtain rfl := Option.some.inj (hn.symm.trans hn')
    split
    · rename_i hi'
      rw [hi] at hi'
      contradiction
    · rename_i is' hi'
      obtain rfl := Except.ok.inj (hi.symm.trans hi')
      rfl

/-- The units are asked in their order. Exploration ends when all have been asked, or with the error
of the unit whose turn it is. -/
theorem explore_cases (hasked : asked = g.units.take next) (hg : Explored lookup roots g next) :
    (∃ g', explore h g next asked inside = ⟨g'.units, .ok g'⟩ ∧
      Explored lookup roots g' g'.unitCount) ∨
    ∃ g' last u e, explore h g next asked inside = ⟨g'.units.take (last + 1), .error e⟩ ∧
      Explored lookup roots g' last ∧ g'.units[last]? = some u ∧ lookup u = .error e := by
  induction g, next, asked, inside using explore.induct h with
  | case1 g next asked inside hn =>
      have hle : g.unitCount ≤ next := List.getElem?_eq_none_iff.1 hn
      have hall : g.units.take next = g.units := List.take_of_length_le hle
      refine .inl ⟨g, ?_, hg.rooted, hg.needed, hg.imported, fun i hi => hg.asked i (hi.trans_le hle),
        ?_⟩
      · rw [explore_of_none h inside hn, hasked, hall]
      · rw [unitCount, List.take_length, ← hall]
        exact hall.trans hg.gathered
  | case2 g next asked inside unit hn e hi =>
      refine .inr ⟨g, next, unit, e, ?_, hg, hn, hi⟩
      rw [explore_of_error h inside hn hi, hasked, List.take_add_one, hn, Option.toList_some]
  | case3 g next asked inside unit hn is hi ih =>
      have hlen := (List.getElem?_eq_some_iff.1 hn).1
      obtain ⟨⟨new, hnew⟩, -, -⟩ := addImports_spec (List.mem_of_getElem? hn) is
      rw [explore_of_ok h inside hn hi]
      refine ih ?_ (hg.step hn hi)
      rw [← hnew, List.take_append_of_le_length hlen, List.take_add_one, hn, Option.toList_some, hasked]

end Explore

/-- The graph of the units that the roots need. -/
structure Discovers (lookup : ImportLookup) (roots : List SourceId) (g : ImportGraph) : Prop where
  mem_units : ∀ u, u ∈ g.units ↔ lookup.Needs roots u
  mem_importsOf : ∀ a b, b ∈ g.importsOf a ↔ lookup.Needs roots a ∧ lookup.ImportsOther a b
  asked : ∀ u, lookup.Needs roots u → ∃ is, lookup u = .ok is

theorem Explored.discovers (hg : Explored lookup roots g g.unitCount) :
    Discovers lookup roots g := by
  have hasked : ∀ u ∈ g.units, ∃ is, lookup u = .ok is ∧
      ∀ b ∈ is, b ∈ g.units ∧ (b ≠ u → b ∈ g.importsOf u) := by
    intro u hu
    obtain ⟨i, hi⟩ := List.getElem?_of_mem hu
    exact hg.asked i (List.getElem?_eq_some_iff.1 hi).1 u hi
  have hclosed : ∀ a ∈ g.units, ∀ b, lookup.Imports a b →
      b ∈ g.units ∧ (b ≠ a → b ∈ g.importsOf a) := by
    rintro a ha b ⟨is, his, hb⟩
    obtain ⟨is', his', hall⟩ := hasked a ha
    obtain rfl := Except.ok.inj (his.symm.trans his')
    exact hall b hb
  have hneeded : ∀ u, lookup.Needs roots u → u ∈ g.units := by
    rintro u ⟨r, hr, hru⟩
    induction hru with
    | refl => exact hg.rooted r hr
    | tail _ hbc ih => exact (hclosed _ ih _ hbc).1
  refine ⟨fun u => ⟨hg.needed u, hneeded u⟩, fun a b => ⟨fun hb => ?_, ?_⟩, fun u hu => ?_⟩
  · obtain ⟨i, j, hij, ha, -⟩ := g.mem_importsOf.1 hb
    exact ⟨hg.needed a (List.mem_of_getElem? ha), hg.imported a b hb⟩
  · rintro ⟨ha, hab, hne⟩
    exact (hclosed a (hneeded a ha) b hab).2 hne
  · obtain ⟨is, his, -⟩ := hasked u (hneeded u hu)
    exact ⟨is, his⟩

/-- A survey asks all units of the graph that it finds, or fails because a unit that is needed cannot
say what it imports. It asks no unit twice and none that is not needed. -/
theorem survey_cases (h : FinitelyReaching lookup roots) :
    (survey h).asked.Nodup ∧ (∀ u ∈ (survey h).asked, lookup.Needs roots u) ∧
    ((∃ g, survey h = ⟨g.units, .ok g⟩ ∧ Discovers lookup roots g) ∨
      ∃ u e, discover h = .error e ∧ lookup.FailsFirst roots u ∧ lookup u = .error e) := by
  rw [discover, survey]
  rcases explore_cases h _ List.take_zero.symm (Explored.start lookup roots) with
    ⟨g, hg, hexplored⟩ | ⟨g, last, u, e, hg, hexplored, hlast, hu⟩
  · rw [hg]
    exact ⟨g.units_nodup, hexplored.needed, .inl ⟨g, rfl, hexplored.discovers⟩⟩
  · rw [hg]
    refine ⟨g.units_nodup.sublist (List.take_sublist _ _), fun v hv => ?_, .inr ⟨u, e, rfl, ?_, hu⟩⟩
    · exact hexplored.needed v (List.mem_of_mem_take hv)
    · exact hexplored.failsFirst hlast hu

/-- Discovery finds the graph, or fails because a unit that is needed cannot say what it imports. -/
theorem discover_cases (h : FinitelyReaching lookup roots) :
    (∃ g, discover h = .ok g ∧ Discovers lookup roots g) ∨
      ∃ u e, discover h = .error e ∧ lookup.Needs roots u ∧ lookup u = .error e := by
  rcases (survey_cases h).2.2 with ⟨g, hg, hdiscovers⟩ | ⟨u, e, he, hfirst, hu⟩
  · exact .inl ⟨g, by rw [discover, hg], hdiscovers⟩
  · exact .inr ⟨u, e, he, hfirst.fails.1, hu⟩

/-- Discovery ends whenever only finitely many units are needed. If all of these can say what they
import, its graph consists of them and of the imports between different ones, and each of them has
been asked once. If some cannot, it ends with the error of the first of those in breadth-first
order. In no case is a unit asked that is not needed. -/
theorem discover_finds_closure (hfinite : {u | lookup.Needs roots u}.Finite) :
    let h := ImportLookup.finitelyReaching_iff.2 hfinite
    ((survey h).asked.Nodup ∧ ∀ u ∈ (survey h).asked, lookup.Needs roots u) ∧
    ((∀ u, lookup.Needs roots u → ∃ is, lookup u = .ok is) →
      (∀ u, lookup.Needs roots u → u ∈ (survey h).asked) ∧
      ∃ g, discover h = .ok g ∧ g.units.Nodup ∧ (∀ u, u ∈ g.units ↔ lookup.Needs roots u) ∧
        ∀ a b, b ∈ g.importsOf a ↔ lookup.Needs roots a ∧ a ≠ b ∧ lookup.Imports a b) ∧
    ((∃ u e, lookup.Needs roots u ∧ lookup u = .error e) → ∃ u, lookup.FailsFirst roots u) ∧
    ∀ u e, lookup.FailsFirst roots u → lookup u = .error e → discover h = .error e := by
  intro h
  obtain ⟨hnodup, hasked, hcases⟩ := survey_cases h
  refine ⟨⟨hnodup, hasked⟩, fun hall => ?_, ?_, fun u e hu he => ?_⟩
  · rcases hcases with ⟨g, hg, hdiscovers⟩ | ⟨u, e, -, hfirst, he⟩
    · refine ⟨fun u hu => ?_, g, by rw [discover, hg], g.units_nodup, hdiscovers.mem_units,
        fun a b => ?_⟩
      · rw [hg]
        exact (hdiscovers.mem_units u).2 hu
      · rw [hdiscovers.mem_importsOf, ImportLookup.ImportsOther, and_comm (a := lookup.Imports a b),
          ne_comm]
    · obtain ⟨is, his⟩ := hall u hfirst.fails.1
      rw [he] at his
      contradiction
  · rintro ⟨u, e, hu, he⟩
    rcases hcases with ⟨g, -, hdiscovers⟩ | ⟨v, -, -, hfirst, -⟩
    · obtain ⟨is, his⟩ := hdiscovers.asked u hu
      rw [he] at his
      contradiction
    · exact ⟨v, hfirst⟩
  · rcases hcases with ⟨g, -, hdiscovers⟩ | ⟨v, e', herror, hfirst, he'⟩
    · obtain ⟨is, his⟩ := hdiscovers.asked u hu.fails.1
      rw [he] at his
      contradiction
    · obtain rfl := hu.unique hfirst
      obtain rfl := Except.error.inj (he.symm.trans he')
      exact herror

/-- Two sources lead to a third one by different imports. One imports itself, and one the first. -/
def diamondSources : SourceTable :=
  [("a", { imports := [{ source := "b" }, { source := "c" }, { source := "a" }] }),
    ("b", { imports := [{ source := "d" }] }),
    ("c", { imports := [{ source := "d" }, { source := "a" }] }),
    ("d", {})]

/-- Two sources are missing; the one that an earlier source imports is met later. -/
def gappySources : SourceTable :=
  [("a", { imports := [{ source := "b" }, { source := "c" }] }),
    ("b", { imports := [{ source := "d" }] })]

theorem discover_finds_closure_diamond :
    {u | ImportLookup.Needs diamondSources.imports ["a", "b", "a"] u}.Finite ∧
    (∃ g, diamondSources.reader.graph ["a", "b", "a"] = .ok g ∧
      "d" ∈ g.units ∧ "a" ∈ g.importsOf "c" ∧ "a" ∉ g.importsOf "a") ∧
    {u | ImportLookup.Needs gappySources.imports ["a"] u}.Finite ∧
    gappySources.reader.graph ["a"] = .error (.sourceNotFound "c") := by
  have hdiamond := ImportLookup.finitelyReaching_iff.1
    (diamondSources.finitelyReaching ["a", "b", "a"])
  have hgappy := ImportLookup.finitelyReaching_iff.1 (gappySources.finitelyReaching ["a"])
  refine ⟨hdiamond, ?_, hgappy, ?_⟩
  · have hanswers : ∀ u ∈ ["a", "b", "c", "d"], ∃ is, diamondSources.imports u = .ok is ∧
        ∀ i ∈ is, i ∈ ["a", "b", "c", "d"] := by
      simp only [List.forall_mem_cons]
      exact ⟨⟨_, rfl, by decide⟩, ⟨_, rfl, by decide⟩, ⟨_, rfl, by decide⟩, ⟨_, rfl, by decide⟩,
        by simp⟩
    have hall : ∀ u, ImportLookup.Needs diamondSources.imports ["a", "b", "a"] u →
        ∃ is, diamondSources.imports u = .ok is := by
      intro u hu
      obtain ⟨is, his, -⟩ := hanswers u <| hu.mem (by decide) fun a ha is his => by
        obtain ⟨is', his', hclosed⟩ := hanswers a ha
        rwa [Except.ok.inj (his.symm.trans his')]
      exact ⟨is, his⟩
    have hc : ImportLookup.Needs diamondSources.imports ["a", "b", "a"] "c" :=
      ImportLookup.needs_iff_mem_levels.2 ⟨1, by decide⟩
    obtain ⟨-, g, hg, -, hunits, himports⟩ := (discover_finds_closure hdiamond).2.1 hall
    refine ⟨g, hg, (hunits "d").2 (ImportLookup.needs_iff_mem_levels.2 ⟨1, by decide⟩), ?_, ?_⟩
    · exact (himports "c" "a").2 ⟨hc, by decide, _, rfl, by decide⟩
    · exact fun ha => ((himports "a" "a").1 ha).2.1 rfl
  · exact (discover_finds_closure hgappy).2.2.2 "c" _ ⟨1, rfl⟩ rfl

/-! ### Orders -/

/-- An order of the units that the roots need, where none comes before one that it imports. -/
structure Orders (lookup : ImportLookup) (roots order : List SourceId) : Prop where
  nodup : order.Nodup
  mem_iff : ∀ u, u ∈ order ↔ lookup.Needs roots u
  not_later : order.Pairwise fun a b => ¬lookup.Imports a b

theorem Orders.closed {order : List SourceId} (h : Orders lookup roots order) (ha : a ∈ order)
    (hab : lookup.Imports a b) : b ∈ order :=
  (h.mem_iff b).2 (((h.mem_iff a).1 ha).tail hab)

namespace Discovers

variable (h : Discovers lookup roots g)

include h

theorem transGen_importsOf_iff {u : SourceId} :
    TransGen (Leads g.importsOf) u u ↔
      lookup.Needs roots u ∧ TransGen lookup.ImportsOther u u := by
  constructor
  · intro hcycle
    obtain ⟨b, hub, -⟩ := TransGen.head'_iff.1 hcycle
    exact ⟨((h.mem_importsOf u b).1 hub).1,
      TransGen.mono (fun a b hab => ((h.mem_importsOf a b).1 hab).2) _ _ hcycle⟩
  · rintro ⟨hu, hcycle⟩
    -- From a needed unit on, only needed ones are imported.
    have hall : ∀ b, TransGen lookup.ImportsOther u b →
        TransGen (Leads g.importsOf) u b ∧ lookup.Needs roots b := by
      intro b hub
      induction hub with
      | single hub => exact ⟨.single ((h.mem_importsOf _ _).2 ⟨hu, hub⟩), hu.tail hub.1⟩
      | tail _ hbc ih =>
          exact ⟨ih.1.tail ((h.mem_importsOf _ _).2 ⟨ih.2, hbc⟩), ih.2.tail hbc.1⟩
    exact (hall u hcycle).1

theorem orders (hperm : g.placed.Perm g.indices) :
    Orders lookup roots (g.sourcesAt g.placed) := by
  have hunits : (g.sourcesAt g.placed).Perm g.units := by
    rw [← sourcesAt_indices]
    exact hperm.filterMap _
  have hmem : ∀ u, u ∈ g.sourcesAt g.placed ↔ lookup.Needs roots u := fun u =>
    hunits.mem_iff.trans (h.mem_units u)
  have hnodup : (g.sourcesAt g.placed).Nodup := hunits.nodup_iff.2 g.units_nodup
  refine ⟨hnodup, hmem, (hnodup.and g.pairwise_sourcesAt_placed).imp_of_mem ?_⟩
  rintro a b ha - ⟨hne, hnot⟩ hab
  exact hnot ((h.mem_importsOf a b).2 ⟨(hmem a).1 ha, hab, hne.symm⟩)

end Discovers

/-- There is an order if each needed unit allows one, and else no order is found. -/
theorem order_cases (reader : SourceReader) (roots : List SourceId) :
    (∃ order, (reader.graph roots).bind sequence = .ok order ∧
        Orders reader.imports roots order ∧
        ∀ u, reader.imports.Needs roots u → reader.imports.Orderable u) ∨
      ∃ e, (reader.graph roots).bind sequence = .error e ∧
        ∃ u, reader.imports.Needs roots u ∧ ¬reader.imports.Orderable u := by
  rw [SourceReader.graph]
  rcases discover_cases (reader.finite roots) with ⟨g, hg, hdiscovers⟩ | ⟨u, e, he, hu, hlookup⟩
  · rw [hg]
    rcases g.sequence_eq with ⟨hacyclic, hperm, heq⟩ | ⟨⟨u, hcycle⟩, heq⟩
    · refine .inl ⟨_, heq, hdiscovers.orders hperm, fun u hu => ⟨hdiscovers.asked u hu, ?_⟩⟩
      exact fun hcycle => hacyclic u (hdiscovers.transGen_importsOf_iff.2 ⟨hu, hcycle⟩)
    · obtain ⟨hu, hother⟩ := hdiscovers.transGen_importsOf_iff.1 hcycle
      exact .inr ⟨_, heq, u, hu, fun h => h.2 hother⟩
  · refine .inr ⟨e, by rw [he]; rfl, u, hu, fun horderable => ?_⟩
    obtain ⟨is, his⟩ := horderable.1
    rw [hlookup] at his
    contradiction

theorem orders_of_eq_ok {reader : SourceReader} {roots order : List SourceId}
    (h : (reader.graph roots).bind sequence = .ok order) :
    Orders reader.imports roots order ∧
      ∀ u, reader.imports.Needs roots u → reader.imports.Orderable u := by
  rcases order_cases reader roots with ⟨order', heq, horders⟩ | ⟨e, heq, -⟩
  · obtain rfl := Except.ok.inj (h.symm.trans heq)
    exact horders
  · rw [h] at heq
    contradiction

theorem exists_order {reader : SourceReader} {roots : List SourceId}
    (h : ∀ u, reader.imports.Needs roots u → reader.imports.Orderable u) :
    ∃ order, (reader.graph roots).bind sequence = .ok order := by
  rcases order_cases reader roots with ⟨order, heq, -⟩ | ⟨e, -, u, hu, hnot⟩
  · exact ⟨order, heq⟩
  · exact absurd (h u hu) hnot

end SchemaGraph.ImportGraph
