import SchemaGraph.Proofs.DepthFirst
import SchemaGraph.Proofs.Discovery

/-!
Which cycle of imports is reported when there is no order of compilation.

The units that can be placed are on no cycle, so each strongly connected component of two or more
units is left over as a whole. Without a unit that imports itself a failure needs such a component,
and the reported one is that of the first unit that has company. How the components are listed
makes no difference to that.
-/

namespace SchemaGraph

open Relation

section Mutual

variable {α : Type} {next : α → List α} {a b c : α}

/-- Each of the two nodes leads to the other, directly or through others. -/
def Mutual (next : α → List α) (a b : α) : Prop :=
  ReflTransGen (Leads next) a b ∧ ReflTransGen (Leads next) b a

theorem Mutual.refl (next : α → List α) (a : α) : Mutual next a a := ⟨.refl, .refl⟩

theorem Mutual.symm (h : Mutual next a b) : Mutual next b a := ⟨h.2, h.1⟩

theorem Mutual.trans (hab : Mutual next a b) (hbc : Mutual next b c) : Mutual next a c :=
  ⟨hab.1.trans hbc.1, hbc.2.trans hab.2⟩

theorem Mutual.transGen (h : Mutual next a b) (hne : b ≠ a) : TransGen (Leads next) a a :=
  ((reflTransGen_iff_eq_or_transGen.1 h.1).resolve_left hne).trans_left h.2

theorem exists_mutual (h : TransGen (Leads next) a a) (hself : a ∉ next a) :
    ∃ b, b ≠ a ∧ Mutual next a b := by
  obtain ⟨b, hab, hba⟩ := TransGen.head'_iff.1 h
  refine ⟨b, ?_, .single hab, hba⟩
  rintro rfl
  exact hself hab

end Mutual

theorem exists_ne_of_one_lt_length {α : Type} [DecidableEq α] {as : List α} {a : α}
    (hnodup : as.Nodup) (hlen : 1 < as.length) : ∃ b ∈ as, b ≠ a := by
  by_contra hnone
  have hall : ∀ b ∈ as, b ∈ [a] := fun b hb => by
    by_contra hne
    exact hnone ⟨b, hb, by simpa using hne⟩
  have hle : as.length ≤ 1 := ImportGraph.length_le_of_nodup hnodup hall
  omega

theorem find?_le {is : List Nat} (hsorted : is.Pairwise (· < ·)) {p : Nat → Bool} {i k : Nat}
    (hi : is.find? p = some i) (hk : k ∈ is) (hp : p k = true) : i ≤ k := by
  obtain ⟨-, before, after, rfl, hbefore⟩ := List.find?_eq_some_iff_append.1 hi
  rcases List.mem_append.1 hk with hk | hk
  · have hnot := hbefore k hk
    rw [hp] at hnot
    contradiction
  · rcases List.mem_cons.1 hk with rfl | hk
    · exact le_rfl
    · exact Nat.le_of_lt ((List.pairwise_cons.1 (List.pairwise_append.1 hsorted).2.1).1 k hk)

theorem mergeSort_eq_of_sorted {is js : List Nat} (hperm : is.Perm js)
    (hsorted : js.Pairwise (· < ·)) : is.mergeSort (· ≤ ·) = js := by
  refine List.Perm.eq_of_pairwise' (List.pairwise_mergeSort' (· ≤ ·) is) ?_
    ((List.mergeSort_perm is _).trans hperm)
  exact hsorted.imp Nat.le_of_lt

theorem head?_of_least {is : List Nat} (hsorted : is.Pairwise (· < ·)) {i : Nat} (hi : i ∈ is)
    (hleast : ∀ k ∈ is, i ≤ k) : is.head? = some i := by
  cases is with
  | nil => contradiction
  | cons k is =>
      rcases List.mem_cons.1 hi with rfl | hi
      · rfl
      · have hlt := (List.pairwise_cons.1 hsorted).1 i hi
        have hle := hleast k (by simp)
        omega

namespace ImportGraph

variable (g : ImportGraph) {i j k : Nat}

/-! ### Components -/

theorem lt_of_reaches (hi : i < g.unitCount) (h : ReflTransGen (Leads g.targets) i j) :
    j < g.unitCount := by
  rcases h.cases_tail with rfl | ⟨k, -, hkj⟩
  · exact hi
  · exact (g.imports_lt _ (g.mem_targets.1 hkj)).2

theorem mem_reachable (hi : i < g.unitCount) :
    j ∈ g.reachable i ↔ ReflTransGen (Leads g.targets) i j := by
  have hnodes : ∀ a ∈ g.indices, ∀ b ∈ g.targets a, b ∈ g.indices := fun a _ b hb =>
    g.mem_indices.2 (g.imports_lt _ (g.mem_targets.1 hb)).2
  rw [reachable, DepthFirst.mem_reached_iff hnodes (by simpa [mem_indices] using hi)]
  simp

theorem mem_component (hi : i < g.unitCount) :
    j ∈ g.component i ↔ Mutual g.targets i j := by
  rw [component, List.mem_filter, mem_indices, decide_eq_true_eq, g.mem_reachable hi]
  constructor
  · rintro ⟨hj, hij, hji⟩
    exact ⟨hij, (g.mem_reachable hj).1 hji⟩
  · rintro ⟨hij, hji⟩
    have hj := g.lt_of_reaches hi hij
    exact ⟨hj, hij, (g.mem_reachable hj).2 hji⟩

theorem component_sublist (i : Nat) : (g.component i).Sublist g.indices :=
  List.filter_sublist

theorem sorted_component (i : Nat) : (g.component i).Pairwise (· < ·) :=
  List.pairwise_lt_range.sublist (g.component_sublist i)

theorem nodup_component (i : Nat) : (g.component i).Nodup :=
  (g.sorted_component i).imp Nat.ne_of_lt

/-- The unit shares its component with another one. -/
def Grouped (i : Nat) : Prop :=
  ∃ j, j ≠ i ∧ Mutual g.targets i j

theorem Grouped.of_mutual {g : ImportGraph} (hi : g.Grouped i) (h : Mutual g.targets i k) :
    g.Grouped k := by
  obtain ⟨j, hne, hij⟩ := hi
  by_cases hik : i = k
  · subst hik
    exact ⟨j, hne, hij⟩
  · exact ⟨i, hik, h.symm⟩

theorem Grouped.transGen {g : ImportGraph} (h : g.Grouped i) : TransGen (Leads g.targets) i i := by
  obtain ⟨j, hne, hij⟩ := h
  exact hij.transGen hne

theorem mem_leftover : i ∈ g.leftover ↔ i < g.unitCount ∧ i ∉ g.placed := by
  rw [leftover, List.mem_filter, mem_indices, decide_eq_true_eq]

/-- A component of two or more units is left over as a whole. -/
theorem Grouped.mem_leftover {g : ImportGraph} (h : g.Grouped i) : i ∈ g.leftover := by
  obtain ⟨j, hij, -⟩ := TransGen.head'_iff.1 h.transGen
  refine g.mem_leftover.2 ⟨(g.imports_lt _ (g.mem_targets.1 hij)).1, fun hplaced => ?_⟩
  exact g.not_transGen_of_mem_placed hplaced h.transGen

theorem Grouped.lt {g : ImportGraph} (h : g.Grouped i) : i < g.unitCount :=
  (g.mem_leftover.1 h.mem_leftover).1

theorem one_lt_length_component (hi : i < g.unitCount) :
    1 < (g.component i).length ↔ g.Grouped i := by
  constructor
  · intro hlen
    obtain ⟨j, hj, hne⟩ := exists_ne_of_one_lt_length (g.nodup_component i) hlen
    exact ⟨j, hne, (g.mem_component hi).1 hj⟩
  · rintro ⟨j, hne, hij⟩
    have hpair : [i, j] ⊆ g.component i := by
      simp [g.mem_component hi, Mutual.refl, hij]
    have hnodup : [i, j].Nodup := by simpa using hne.symm
    exact (hnodup.subperm hpair).length_le

/-- Without a component of two or more units all units left over are reported, and else the
component of the first unit that is in one. -/
theorem cycleMembers_cases :
    (∀ i, ¬g.Grouped i) ∧ g.cycleMembers = g.leftover ∨
      ∃ i, g.Grouped i ∧ (∀ k, g.Grouped k → i ≤ k) ∧ g.cycleMembers = g.component i := by
  rw [cycleMembers, List.find?_map]
  cases hfind : g.leftover.find? ((fun c => decide (1 < c.length)) ∘ g.component) with
  | none =>
      refine .inl ⟨fun i hi => ?_, rfl⟩
      have hlen := List.find?_eq_none.1 hfind i hi.mem_leftover
      exact hlen (decide_eq_true ((g.one_lt_length_component hi.lt).2 hi))
  | some i =>
      have hlt := (g.mem_leftover.1 (List.mem_of_find?_eq_some hfind)).1
      have hfound := List.find?_some hfind
      have hlen : 1 < (g.component i).length := of_decide_eq_true hfound
      refine .inr ⟨i, (g.one_lt_length_component hlt).1 hlen, fun k hk => ?_, rfl⟩
      exact find?_le (List.pairwise_lt_range.sublist List.filter_sublist) hfind hk.mem_leftover
        (decide_eq_true ((g.one_lt_length_component hk.lt).2 hk))

/-! ### Listings of the components -/

/-- The strongly connected components of the graph, listed in whatever order, each with its units in
whatever order. -/
structure ListsComponents (cs : List (List Nat)) : Prop where
  perm : cs.flatten.Perm g.indices
  mem_iff : ∀ c ∈ cs, ∀ i ∈ c, ∀ j, j ∈ c ↔ Mutual g.targets i j

/-- The earliest unit of a component, by which components are compared. -/
def earliest (c : List Nat) : WithBot Nat := c.min?

/-- Of the components that have two or more units, none of them placed, the one with the earliest
unit. -/
def firstGroup? (cs : List (List Nat)) : Option (List Nat) :=
  (cs.filter fun c => 1 < c.length ∧ ∀ i ∈ c, i ∉ g.placed).argmin earliest

theorem exists_earliest {c : List Nat} (hi : i ∈ c) :
    ∃ k ∈ c, k ≤ i ∧ earliest c = (k : WithBot Nat) := by
  obtain ⟨k, hk⟩ := Option.isSome_iff_exists.1 (List.isSome_min?_of_mem hi)
  obtain ⟨hmem, hle⟩ := List.min?_eq_some_iff.1 hk
  exact ⟨k, hmem, hle i hi, hk⟩

namespace ListsComponents

variable {g : ImportGraph} {cs : List (List Nat)} {c : List Nat}

theorem lt (h : g.ListsComponents cs) (hc : c ∈ cs) (hi : i ∈ c) : i < g.unitCount :=
  g.mem_indices.1 (h.perm.mem_iff.1 (List.mem_flatten.2 ⟨c, hc, hi⟩))

theorem exists_mem (h : g.ListsComponents cs) (hi : i < g.unitCount) : ∃ c ∈ cs, i ∈ c :=
  List.mem_flatten.1 (h.perm.mem_iff.2 (g.mem_indices.2 hi))

theorem nodup (h : g.ListsComponents cs) (hc : c ∈ cs) : c.Nodup :=
  (List.nodup_flatten.1 (h.perm.nodup_iff.2 List.nodup_range)).1 c hc

theorem perm_component (h : g.ListsComponents cs) (hc : c ∈ cs) (hi : i ∈ c) :
    c.Perm (g.component i) :=
  (List.perm_ext_iff_of_nodup (h.nodup hc) (g.nodup_component i)).2 fun j => by
    rw [h.mem_iff c hc i hi, g.mem_component (h.lt hc hi)]

/-- The components to choose from are those of two or more units: none of their units is placed. -/
theorem mem_choices (h : g.ListsComponents cs) :
    c ∈ (cs.filter fun c => 1 < c.length ∧ ∀ i ∈ c, i ∉ g.placed) ↔
      c ∈ cs ∧ ∃ i ∈ c, g.Grouped i := by
  rw [List.mem_filter, decide_eq_true_eq]
  refine and_congr_right fun hc => ⟨fun ⟨hlen, _⟩ => ?_, fun ⟨i, hi, hgrouped⟩ => ⟨?_, ?_⟩⟩
  · obtain ⟨i, hi⟩ := List.exists_mem_of_length_pos (Nat.zero_lt_of_lt hlen)
    refine ⟨i, hi, (g.one_lt_length_component (h.lt hc hi)).1 ?_⟩
    rwa [← (h.perm_component hc hi).length_eq]
  · rw [(h.perm_component hc hi).length_eq]
    exact (g.one_lt_length_component hgrouped.lt).2 hgrouped
  · intro k hk
    have hleft := (hgrouped.of_mutual ((h.mem_iff c hc i hi k).1 hk)).mem_leftover
    exact (g.mem_leftover.1 hleft).2

theorem firstGroup?_eq_none (h : g.ListsComponents cs) (hnone : ∀ i, ¬g.Grouped i) :
    g.firstGroup? cs = none := by
  rw [firstGroup?, List.argmin_eq_none, List.eq_nil_iff_forall_not_mem]
  intro c hc
  obtain ⟨-, i, -, hi⟩ := h.mem_choices.1 hc
  exact hnone i hi

/-- Whatever the listing, the component of the first unit that has company is chosen. -/
theorem exists_firstGroup? (h : g.ListsComponents cs) (hi : g.Grouped i)
    (hleast : ∀ k, g.Grouped k → i ≤ k) :
    ∃ c, g.firstGroup? cs = some c ∧ c.Perm (g.component i) := by
  obtain ⟨d, hd, hid⟩ := h.exists_mem hi.lt
  have hd' := h.mem_choices.2 ⟨hd, i, hid, hi⟩
  cases hc : g.firstGroup? cs with
  | none =>
      rw [firstGroup?, List.argmin_eq_none] at hc
      rw [hc] at hd'
      contradiction
  | some c =>
      rw [firstGroup?, List.argmin_eq_some_iff] at hc
      obtain ⟨hmem, hmin, -⟩ := hc
      obtain ⟨hcs, k, hk, hgrouped⟩ := h.mem_choices.1 hmem
      -- The earliest unit of the choice is not later than `i`, and no unit with company is earlier.
      obtain ⟨l, hl, -, hearliest⟩ := exists_earliest hk
      obtain ⟨m, -, hmi, hearliest'⟩ := exists_earliest hid
      have hle := hmin d hd'
      rw [hearliest, hearliest'] at hle
      have hlm : l ≤ m := WithBot.coe_le_coe.1 hle
      have hli : i ≤ l := hleast l (hgrouped.of_mutual ((h.mem_iff c hcs k hk l).1 hl))
      obtain rfl : i = l := by omega
      exact ⟨c, rfl, h.perm_component hcs hl⟩

/-- The reported units are those of the chosen component in the order of discovery. -/
theorem cycleMembers_eq (h : g.ListsComponents cs) :
    ((g.firstGroup? cs).getD g.leftover).mergeSort (· ≤ ·) = g.cycleMembers := by
  rcases g.cycleMembers_cases with ⟨hnone, heq⟩ | ⟨i, hi, hleast, heq⟩
  · rw [h.firstGroup?_eq_none hnone, heq, Option.getD_none]
    exact mergeSort_eq_of_sorted (.refl _) (List.pairwise_lt_range.sublist List.filter_sublist)
  · obtain ⟨c, hc, hperm⟩ := h.exists_firstGroup? hi hleast
    rw [hc, heq, Option.getD_some]
    exact mergeSort_eq_of_sorted hperm (g.sorted_component i)

end ListsComponents

/-- The first units of their components, one for each component. -/
def heads : List Nat :=
  g.indices.filter fun i => ∀ j ∈ g.component i, i ≤ j

theorem mem_heads : i ∈ g.heads ↔ i < g.unitCount ∧ ∀ j ∈ g.component i, i ≤ j := by
  rw [heads, List.mem_filter, mem_indices, decide_eq_true_eq]

theorem disjoint_heads :
    (g.heads.map g.component).Pairwise List.Disjoint := by
  have hsorted : g.heads.Pairwise (· < ·) := List.pairwise_lt_range.sublist List.filter_sublist
  refine List.pairwise_map.2 (hsorted.imp_of_mem fun {i k} hi hk hik j hji hjk => ?_)
  rw [mem_heads] at hi hk
  rw [g.mem_component hi.1] at hji
  rw [g.mem_component hk.1] at hjk
  have hki := hk.2 i ((g.mem_component hk.1).2 (hjk.trans hji.symm))
  omega

theorem exists_head (hk : k < g.unitCount) : ∃ i ∈ g.heads, k ∈ g.component i := by
  obtain ⟨i, hi⟩ := Option.isSome_iff_exists.1
    (List.isSome_min?_of_mem ((g.mem_component hk).2 (.refl _ k)))
  obtain ⟨hmem, hle⟩ := List.min?_eq_some_iff.1 hi
  have hki := (g.mem_component hk).1 hmem
  have hlt := g.lt_of_reaches hk hki.1
  refine ⟨i, g.mem_heads.2 ⟨hlt, fun j hj => hle j ?_⟩, (g.mem_component hlt).2 hki.symm⟩
  exact (g.mem_component hk).2 (hki.trans ((g.mem_component hlt).1 hj))

/-- The components of their first units are all components. -/
theorem exists_listsComponents : ∃ cs, g.ListsComponents cs := by
  refine ⟨g.heads.map g.component, ?_, ?_⟩
  · have hnodup : (g.heads.map g.component).flatten.Nodup := by
      refine List.nodup_flatten.2 ⟨fun c hc => ?_, g.disjoint_heads⟩
      obtain ⟨i, -, rfl⟩ := List.mem_map.1 hc
      exact g.nodup_component i
    refine (List.perm_ext_iff_of_nodup hnodup List.nodup_range).2 fun k => ?_
    rw [← indices, ← List.flatMap_def, List.mem_flatMap]
    constructor
    · rintro ⟨i, -, hk⟩
      exact (g.component_sublist i).subset hk
    · exact fun hk => g.exists_head (g.mem_indices.1 hk)
  · intro c hc i hi j
    obtain ⟨k, hk, rfl⟩ := List.mem_map.1 hc
    have hlt := (g.mem_heads.1 hk).1
    rw [g.mem_component hlt] at hi ⊢
    exact ⟨fun hj => hi.symm.trans hj, fun hj => hi.trans hj⟩

/-! ### Sources -/

/-- A strongly connected component of two or more units, in the order of their discovery. -/
structure CycleGroup (members : List SourceId) : Prop where
  sublist : members.Sublist g.units
  two_le : 2 ≤ members.length
  mem_iff : ∀ a ∈ members, ∀ b, b ∈ members ↔ Mutual g.importsOf a b

theorem CycleGroup.exists_ne {g : ImportGraph} {members : List SourceId}
    (h : g.CycleGroup members) {a : SourceId} (ha : a ∈ members) :
    ∃ b, b ≠ a ∧ Mutual g.importsOf a b := by
  obtain ⟨b, hb, hne⟩ := exists_ne_of_one_lt_length (g.units_nodup.sublist h.sublist) h.two_le
  exact ⟨b, hne, (h.mem_iff a ha b).1 hb⟩

variable {a b : SourceId}

theorem reaches_importsOf (ha : g.units[i]? = some a) (hb : g.units[j]? = some b) :
    ReflTransGen (Leads g.importsOf) a b ↔ ReflTransGen (Leads g.targets) i j := by
  rw [reflTransGen_iff_eq_or_transGen, reflTransGen_iff_eq_or_transGen]
  constructor
  · rintro (rfl | hab)
    · exact .inl (g.eq_of_getElem? hb ha)
    · obtain ⟨i', j', ha', hb', hij⟩ := g.transGen_targets hab
      rw [g.eq_of_getElem? ha ha', g.eq_of_getElem? hb hb']
      exact .inr hij
  · rintro (rfl | hij)
    · exact .inl (Option.some.inj (hb.symm.trans ha))
    · exact .inr (g.transGen_importsOf hij ha hb)

theorem mutual_importsOf (ha : g.units[i]? = some a) :
    Mutual g.importsOf a b ↔ ∃ j, g.units[j]? = some b ∧ Mutual g.targets i j := by
  constructor
  · intro hab
    have hb : ∃ j : Nat, g.units[j]? = some b := by
      rcases reflTransGen_iff_eq_or_transGen.1 hab.1 with rfl | hgen
      · exact ⟨i, ha⟩
      · obtain ⟨-, j, -, hb, -⟩ := g.transGen_targets hgen
        exact ⟨j, hb⟩
    obtain ⟨j, hb⟩ := hb
    exact ⟨j, hb, (g.reaches_importsOf ha hb).1 hab.1, (g.reaches_importsOf hb ha).1 hab.2⟩
  · rintro ⟨j, hb, hij⟩
    exact ⟨(g.reaches_importsOf ha hb).2 hij.1, (g.reaches_importsOf hb ha).2 hij.2⟩

theorem grouped_iff (ha : g.units[i]? = some a) :
    g.Grouped i ↔ ∃ b, b ≠ a ∧ Mutual g.importsOf a b := by
  constructor
  · rintro ⟨j, hne, hij⟩
    have hj : j < g.units.length := g.lt_of_reaches (List.getElem?_eq_some_iff.1 ha).1 hij.1
    have hb := List.getElem?_eq_getElem hj
    refine ⟨_, fun heq => hne ?_, (g.mutual_importsOf ha).2 ⟨j, hb, hij⟩⟩
    exact g.eq_of_getElem? hb (heq ▸ ha)
  · rintro ⟨b, hne, hab⟩
    obtain ⟨j, hb, hij⟩ := (g.mutual_importsOf ha).1 hab
    refine ⟨j, ?_, hij⟩
    rintro rfl
    exact hne (Option.some.inj (hb.symm.trans ha))

theorem sourcesAt_sublist {is : List Nat} (h : is.Sublist g.indices) :
    (g.sourcesAt is).Sublist g.units := by
  have hsub := h.filterMap fun i => g.units[i]?
  rwa [← sourcesAt, ← sourcesAt, sourcesAt_indices] at hsub

/-- The component of a unit with company is a group of sources. -/
theorem Grouped.cycleGroup {g : ImportGraph} (h : g.Grouped i) :
    g.CycleGroup (g.sourcesAt (g.component i)) := by
  refine ⟨?_, ?_, fun a ha b => ?_⟩
  · exact g.sourcesAt_sublist (g.component_sublist i)
  · have hlen : (g.sourcesAt (g.component i)).length = (g.component i).length := by
      refine List.filterMap_length_eq_length.2 fun j hj => ?_
      have hlt := g.mem_indices.1 ((g.component_sublist i).subset hj)
      simp [List.getElem?_eq_getElem hlt]
    rw [hlen]
    exact (g.one_lt_length_component h.lt).2 h
  · obtain ⟨k, hk, ha⟩ := g.mem_sourcesAt.1 ha
    rw [g.mem_component h.lt] at hk
    rw [g.mutual_importsOf ha, mem_sourcesAt]
    constructor
    · rintro ⟨j, hj, hb⟩
      exact ⟨j, hb, hk.symm.trans ((g.mem_component h.lt).1 hj)⟩
    · rintro ⟨j, hb, hkj⟩
      exact ⟨j, (g.mem_component h.lt).2 (hk.trans hkj), hb⟩

/-- Some unit has company in a graph that has no order and in which no unit imports itself. -/
theorem exists_grouped (hself : ∀ a, a ∉ g.importsOf a)
    (hcycle : TransGen (Leads g.importsOf) a a) : ∃ i, g.Grouped i := by
  obtain ⟨i, -, ha, -, -⟩ := g.transGen_targets hcycle
  exact ⟨i, (g.grouped_iff ha).2 (exists_mutual hcycle (hself a))⟩

theorem idxOf_of_getElem? (ha : g.units[i]? = some a) : g.units.idxOf a = i := by
  obtain ⟨hi, rfl⟩ := List.getElem?_eq_some_iff.1 ha
  exact g.units_nodup.idxOf_getElem i hi

theorem not_mem_importsOf_of_discover {lookup : ImportLookup} {roots : List SourceId}
    (h : FinitelyReaching lookup roots) (hg : discover h = .ok g) (a : SourceId) :
    a ∉ g.importsOf a := by
  rcases discover_cases h with ⟨g', hg', hdiscovers⟩ | ⟨u, e, he, -⟩
  · obtain rfl := Except.ok.inj (hg.symm.trans hg')
    exact fun ha => ((hdiscovers.mem_importsOf a a).1 ha).2.2 rfl
  · rw [hg] at he
    contradiction

/-- A graph in which no unit imports itself, such as any that is discovered, has an order of
compilation or else reports a strongly connected component of two or more units, in the order of
discovery, and of all such components the one discovered first. No unit is reported that is on no
cycle. The components can be listed, and however they are listed that one is chosen, so that never
all units left over are reported. -/
theorem cycle_reported_is_first_group :
    (∀ {lookup : ImportLookup} {roots : List SourceId} (h : FinitelyReaching lookup roots)
      (g : ImportGraph), discover h = .ok g → ∀ a, a ∉ g.importsOf a) ∧
    ∀ g : ImportGraph, (∀ a, a ∉ g.importsOf a) → ∀ e, g.sequence = .error e →
      ∃ members first, e = .importCycle members ∧ g.CycleGroup members ∧
        members.head? = some first ∧
        (∀ others, g.CycleGroup others →
          ∀ b ∈ others, g.units.idxOf first ≤ g.units.idxOf b) ∧
        (∀ b, ¬TransGen (Leads g.importsOf) b b → b ∉ members) ∧
        (∃ cs, g.ListsComponents cs) ∧
        ∀ cs, g.ListsComponents cs → ∃ c, g.firstGroup? cs = some c ∧
          g.sourcesAt (c.mergeSort (· ≤ ·)) = members := by
  refine ⟨fun h g hg => g.not_mem_importsOf_of_discover h hg, fun g hself e herror => ?_⟩
  rcases g.sequence_eq with ⟨-, -, heq⟩ | ⟨⟨a, hcycle⟩, heq⟩
  · rw [herror] at heq
    contradiction
  · obtain ⟨k, hk⟩ := g.exists_grouped hself hcycle
    rcases g.cycleMembers_cases with ⟨hnone, -⟩ | ⟨i, hi, hleast, hmembers⟩
    · exact absurd hk (hnone k)
    · obtain rfl := Except.error.inj (herror.symm.trans heq)
      rw [hmembers]
      obtain ⟨first, hfirst⟩ : ∃ first, g.units[i]? = some first :=
        ⟨_, List.getElem?_eq_getElem hi.lt⟩
      have hgroup := hi.cycleGroup
      refine ⟨_, first, rfl, hgroup, ?_, fun others hothers b hb => ?_, fun b hb hmem => ?_,
        g.exists_listsComponents, fun cs hcs => ?_⟩
      · have hhead := head?_of_least (g.sorted_component i)
          ((g.mem_component hi.lt).2 (.refl _ i)) fun k hk =>
            hleast k (hi.of_mutual ((g.mem_component hi.lt).1 hk))
        obtain ⟨rest, hcons⟩ := List.head?_eq_some_iff.1 hhead
        rw [hcons, sourcesAt, List.filterMap_cons_some hfirst, List.head?_cons]
      · obtain ⟨l, hl⟩ := List.getElem?_of_mem (hothers.sublist.subset hb)
        rw [g.idxOf_of_getElem? hfirst, g.idxOf_of_getElem? hl]
        exact hleast l ((g.grouped_iff hl).2 (hothers.exists_ne hb))
      · obtain ⟨c, hne, hbc⟩ := hgroup.exists_ne hmem
        exact hb (hbc.transGen hne)
      · obtain ⟨c, hc, hperm⟩ := hcs.exists_firstGroup? hi hleast
        exact ⟨c, hc, by rw [mergeSort_eq_of_sorted hperm (g.sorted_component i)]⟩

/-- Two cycles, one of them behind the other, and two sources that lead to them. One imports
itself. -/
def tangledSources : SourceTable :=
  [("main", { imports := [{ source := "a" }, { source := "x" }] }),
    ("a", { imports := [{ source := "p" }] }),
    ("p", { imports := [{ source := "q" }, { source := "x" }] }),
    ("q", { imports := [{ source := "p" }] }),
    ("x", { imports := [{ source := "y" }, { source := "x" }] }),
    ("y", { imports := [{ source := "x" }] })]

theorem cycle_reported_tangled :
    ∃ g members, tangledSources.reader.graph ["main"] = .ok g ∧
      (∀ a, a ∉ g.importsOf a) ∧ g.sequence = .error (.importCycle members) ∧
      members = ["x", "y"] ∧ g.CycleGroup members ∧
      ∃ cs c, g.ListsComponents cs ∧ g.firstGroup? cs = some c := by
  have hrun : (tangledSources.reader.graph ["main"]).map sequence =
      .ok (.error (.importCycle ["x", "y"])) := by cbv
  obtain ⟨g, hgraph, herror⟩ := map_eq_ok.1 hrun
  obtain ⟨hdiscovered, hreported⟩ := cycle_reported_is_first_group
  have hself := hdiscovered _ g hgraph
  obtain ⟨members, first, heq, hgroup, -, -, -, ⟨cs, hcs⟩, hlisted⟩ :=
    hreported g hself _ herror
  obtain rfl : ["x", "y"] = members := CompileError.importCycle.inj heq
  obtain ⟨c, hc, -⟩ := hlisted cs hcs
  exact ⟨g, _, hgraph, hself, herror, rfl, hgroup, cs, c, hcs, hc⟩

end ImportGraph

end SchemaGraph
