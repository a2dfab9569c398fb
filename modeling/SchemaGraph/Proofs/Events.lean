import SchemaGraph.Proofs.Discovery
import SchemaGraph.Proofs.Rebuilding

/-!
What a load reports. A unit that is compiled is reported twice, before its references are resolved
and after it has been published; a load that fails may break off between the two.

The units reported are those of the order of compilation that were not published before, as far as
the load has come (`compileUnits_reports`). Since no unit comes before one that it imports, whatever
a unit imports has been published when the unit is first reported.
-/

namespace SchemaGraph

open Relation

/-! ### Units that wait -/

/-- The units that are not published yet. -/
def Workspace.unpublished (w : Workspace) (units : List SourceId) : List SourceId :=
  units.filter fun u => (w.bySource? u).isNone

theorem Workspace.mem_unpublished {w : Workspace} {units : List SourceId} {u : SourceId} :
    u ∈ w.unpublished units ↔ u ∈ units ∧ w.bySource? u = none := by
  simp [unpublished]

/-- In a list without repetitions, the units that wait before one that waits are those that wait in
the part before it. -/
theorem Workspace.unpublished_before {w : Workspace} {before after done rest : List SourceId}
    {u : SourceId} (hnodup : (before ++ u :: after).Nodup)
    (h : done ++ u :: rest = w.unpublished (before ++ u :: after)) :
    done = w.unpublished before := by
  have hu : u ∈ w.unpublished (before ++ u :: after) := by simp [← h]
  have hsplit : w.unpublished (before ++ u :: after) =
      w.unpublished before ++ u :: w.unpublished after := by
    rw [Workspace.unpublished, List.filter_append,
      List.filter_cons_of_pos (by simp [(Workspace.mem_unpublished.1 hu).2])]
    rfl
  have honce : (w.unpublished (before ++ u :: after)).Nodup := hnodup.filter _
  rw [hsplit, List.nodup_append] at honce
  have hafter := (List.nodup_cons.1 honce.2.1).1
  have hbefore : u ∉ w.unpublished before := fun hu => honce.2.2 u hu u (by simp) rfl
  exact ((List.append_cons_inj_of_notMem hbefore hafter).1 (hsplit.symm.trans h.symm)).1.symm

/-- Compiling a unit publishes no other. -/
theorem Compiles.bySource?_eq_none_iff {w w' : Workspace} {unit u : SourceId}
    {declaration : Declaration} {s : Schema} (h : Compiles w unit declaration s w')
    (hw : w.Indexed) (hne : u ≠ unit) : w'.bySource? u = none ↔ w.bySource? u = none := by
  constructor
  · intro hnone
    refine Option.eq_none_iff_forall_ne_some.2 fun t ht => ?_
    rw [(Grows.refl.compile h).bySource? ht] at hnone
    contradiction
  · intro hnone
    refine Option.eq_none_iff_forall_ne_some.2 fun t ht => ?_
    obtain ⟨hkey, rfl⟩ := (h.indexed hw).bySource?_eq_some.1 ht
    rw [h.eq_publish, Workspace.getElem?_publish] at hkey
    rcases hkey with hkey | ⟨-, rfl⟩
    · rw [hw.bySource?_eq_some.2 ⟨hkey, rfl⟩] at hnone
      contradiction
    · exact hne h.source_eq

theorem Compiles.unpublished_eq {w w' : Workspace} {unit : SourceId} {declaration : Declaration}
    {s : Schema} (h : Compiles w unit declaration s w') (hw : w.Indexed) {units : List SourceId}
    (hunit : unit ∉ units) : w'.unpublished units = w.unpublished units := by
  refine List.filter_congr fun u hu => ?_
  have hiff := h.bySource?_eq_none_iff hw (ne_of_mem_of_not_mem hu hunit)
  rw [Bool.eq_iff_iff, Option.isNone_iff_eq_none, Option.isNone_iff_eq_none, hiff]

/-! ### Reports -/

/-- The events of units that become the given schemas one after another, and the first event of a
unit that does not get that far. -/
def UnitEvent.reports (ss : List Schema) (stopped : Option SourceId) : List UnitEvent :=
  ss.flatMap (fun s => [.fixupStarted s.source, .published s 0]) ++
    stopped.toList.map .fixupStarted

theorem UnitEvent.reports_cons (s : Schema) (ss : List Schema) (stopped : Option SourceId) :
    reports (s :: ss) stopped =
      .fixupStarted s.source :: .published s 0 :: reports ss stopped := by
  simp [reports]

/-- Where a unit is reported first, the units before it have been published. -/
theorem UnitEvent.reports_split {ss : List Schema} {stopped : Option SourceId}
    {before after : List UnitEvent} {u : SourceId}
    (h : reports ss stopped = before ++ .fixupStarted u :: after) :
    ∃ done, before = reports done none ∧
      done.map (fun s => s.source) ++ [u] <+: ss.map (fun s => s.source) ++ stopped.toList := by
  induction ss generalizing before with
  | nil =>
      cases stopped with
      | none => simp [reports] at h
      | some v =>
          obtain ⟨rfl, hv, -⟩ : before = [] ∧ v = u ∧ after = [] := by
            cases before <;> simp_all [reports]
          exact ⟨[], rfl, by simp [hv]⟩
  | cons s ss ih =>
      rw [reports_cons] at h
      match before with
      | [] =>
          obtain ⟨hu, -⟩ := List.cons.inj h
          refine ⟨[], rfl, ?_⟩
          rw [← UnitEvent.fixupStarted.inj hu]
          simp
      | [_] =>
          obtain ⟨-, h⟩ := List.cons.inj h
          obtain ⟨hu, -⟩ := List.cons.inj h
          contradiction
      | _ :: _ :: before =>
          obtain ⟨hfirst, h⟩ := List.cons.inj h
          obtain ⟨hsecond, h⟩ := List.cons.inj h
          obtain ⟨done, rfl, hdone⟩ := ih h
          refine ⟨s :: done, ?_, List.cons_prefix_cons.2 ⟨rfl, hdone⟩⟩
          rw [reports_cons, hfirst, hsecond]

/-- Compiling units reports those that are not published, in their order: all of them, or those
before the unit that is refused and perhaps that unit. -/
theorem Progress.compileUnits_reports (reader : SourceReader) {units : List SourceId}
    (hunits : units.Nodup) (p : Progress) (hp : p.workspace.Indexed) :
    ∃ ss stopped, (compileUnits reader p units).1.events = p.events ++ UnitEvent.reports ss stopped ∧
      ss.map (fun s => s.source) ++ stopped.toList <+: p.workspace.unpublished units ∧
      ((compileUnits reader p units).2 = .ok () →
        stopped = none ∧ ss.map (fun s => s.source) = p.workspace.unpublished units) := by
  induction units generalizing p with
  | nil => exact ⟨[], none, by simp [compileUnits, UnitEvent.reports], by simp,
      fun _ => ⟨rfl, rfl⟩⟩
  | cons unit units ih =>
      rw [List.nodup_cons] at hunits
      rw [compileUnits]
      rcases p.compileUnit_cases reader unit with ⟨hknown, heq⟩ | ⟨_, s, w', _, hstep, heq⟩ |
        ⟨e, events, heq, hevents⟩
      -- The unit is published already.
      · have hrest : p.workspace.unpublished (unit :: units) = p.workspace.unpublished units :=
          List.filter_cons_of_neg (by simpa [Option.isSome_iff_ne_none] using hknown)
        rw [heq, hrest]
        exact ih hunits.2 p hp
      -- The unit is compiled, and the others after it.
      · have hrest : p.workspace.unpublished (unit :: units) =
            s.source :: w'.unpublished units := by
          rw [hstep.unpublished_eq hp hunits.1, hstep.source_eq]
          exact List.filter_cons_of_pos (by simp [hstep.unpublished])
        obtain ⟨ss, stopped, hreports, hfront, hall⟩ :=
          ih hunits.2 ⟨w', p.events ++ [UnitEvent.fixupStarted unit, .published s 0]⟩ (hstep.indexed hp)
        rw [heq, hrest]
        refine ⟨s :: ss, stopped, ?_, List.cons_prefix_cons.2 ⟨rfl, hfront⟩, fun hok => ?_⟩
        · rw [UnitEvent.reports_cons, hstep.source_eq]
          simpa using hreports
        · obtain ⟨hstopped, hss⟩ := hall hok
          exact ⟨hstopped, congrArg (s.source :: ·) hss⟩
      -- The unit is refused, and the others are not tried.
      · rw [heq]
        rcases hevents with rfl | rfl
        · exact ⟨[], none, by simp [UnitEvent.reports], by simp, by simp⟩
        · have hnone : p.workspace.bySource? unit = none := by
            by_contra hknown
            rw [compileUnit, if_pos (Option.isSome_iff_ne_none.2 hknown)] at heq
            simp at heq
          have hrest : p.workspace.unpublished (unit :: units) =
              unit :: p.workspace.unpublished units := List.filter_cons_of_pos (by simp [hnone])
          rw [hrest]
          exact ⟨[], some unit, by simp [UnitEvent.reports], by simp, by simp⟩

/-! ### Dependency order -/

namespace ImportGraph

/-- A sequence has everything that a unit imports, directly or through others, before the unit. -/
theorem mem_before_of_sequence {g : ImportGraph} {order before after : List SourceId}
    {a b : SourceId} (horder : g.sequence = .ok order) (hsplit : order = before ++ a :: after)
    (hab : TransGen (Leads g.importsOf) a b) : b ∈ before := by
  rcases g.sequence_eq with ⟨hacyclic, hperm, heq⟩ | ⟨-, heq⟩
  · obtain rfl : g.sourcesAt g.placed = order := Except.ok.inj (heq.symm.trans horder)
    have hunits : (g.sourcesAt g.placed).Perm g.units := by
      rw [← sourcesAt_indices]
      exact hperm.filterMap _
    have hmem : ∀ {x y}, y ∈ g.importsOf x →
        x ∈ g.sourcesAt g.placed ∧ y ∈ g.sourcesAt g.placed := by
      intro x y hxy
      obtain ⟨i, j, -, hx, hy⟩ := g.mem_importsOf.1 hxy
      exact ⟨hunits.mem_iff.2 (List.mem_of_getElem? hx), hunits.mem_iff.2 (List.mem_of_getElem? hy)⟩
    have hlt : (g.sourcesAt g.placed).idxOf b < (g.sourcesAt g.placed).idxOf a := by
      have hstep : ∀ {x y}, y ∈ g.importsOf x →
          (g.sourcesAt g.placed).idxOf y < (g.sourcesAt g.placed).idxOf x := fun hxy =>
        g.idxOf_lt_idxOf (hmem hxy).1 (hmem hxy).2 (fun h => hacyclic _ (.single h)) hxy
      induction hab with
      | single hab => exact hstep hab
      | tail _ hbc ih => exact (hstep hbc).trans ih
    obtain ⟨c, -, hcb⟩ := TransGen.tail'_iff.1 hab
    have hb := (hmem hcb).2
    have hnodup := hunits.nodup_iff.2 g.units_nodup
    rw [hsplit, List.nodup_append] at hnodup
    have ha : a ∉ before := fun ha => hnodup.2.2 a ha a (by simp) rfl
    rw [hsplit, List.idxOf_append_of_notMem ha, List.idxOf_cons_self, Nat.add_zero] at hlt
    rw [hsplit] at hb
    by_contra hnot
    rw [List.idxOf_append_of_notMem hnot] at hlt
    omega
  · rw [heq] at horder
    contradiction

end ImportGraph

/-- A load that finds no order of compilation reports nothing. Otherwise it reports units twice in
turn, as their references are about to be resolved and, with nothing left pending, as published;
only a load that fails may report the last unit once. These are different units that were not
published before, in the order of compilation. When one is reported first, all that it imports,
directly or through others, was published before the load or has been reported as published. -/
theorem load_reports_in_dependency_order {w : Workspace} (h : Reached w) (reader : SourceReader)
    (roots : List SourceId) :
    (∀ e, (reader.graph roots).bind ImportGraph.sequence = .error e →
      (w.load reader roots).events = []) ∧
    ∀ g order, reader.graph roots = .ok g → g.sequence = .ok order →
      (∃ (ss : List Schema) (stopped : Option SourceId),
        let units := ss.map (fun s => s.source) ++ stopped.toList
        (w.load reader roots).events =
          ss.flatMap (fun s => [.fixupStarted s.source, .published s 0]) ++
            stopped.toList.map .fixupStarted ∧
        (stopped.isSome → ∃ f, (w.load reader roots).result = .error f) ∧
        units.Nodup ∧ (∀ u ∈ units, w.bySource? u = none) ∧ units.Sublist order) ∧
      ∀ before a after, (w.load reader roots).events = before ++ .fixupStarted a :: after →
        ∀ b, TransGen (Leads g.importsOf) a b →
          (w.bySource? b).isSome ∨ ∃ s n, .published s n ∈ before ∧ s.source = b := by
  refine ⟨fun e he => by rw [Workspace.load, he], fun g order hg horder => ?_⟩
  have hbind : (reader.graph roots).bind ImportGraph.sequence = .ok order := by
    rw [hg]
    exact horder
  have hnodup : order.Nodup := (ImportGraph.orders_of_eq_ok hbind).1.nodup
  obtain ⟨ss, stopped, hreports, hfront, hall⟩ :=
    Progress.compileUnits_reports reader hnodup { workspace := w } h.indexed
  rw [List.nil_append] at hreports
  have hevents : (w.load reader roots).events = UnitEvent.reports ss stopped := by
    rw [← hreports, Workspace.load, hbind]
    simp only
    split <;> rename_i heq <;> rw [heq]
  have hsub := hfront.sublist
  refine ⟨⟨ss, stopped, hevents, fun hstopped => ?_, (hnodup.filter _).sublist hsub,
    fun u hu => (Workspace.mem_unpublished.1 (hsub.subset hu)).2, hsub.trans List.filter_sublist⟩, ?_⟩
  · rw [Workspace.load, hbind]
    simp only
    split
    · rename_i heq
      rw [(hall (by rw [heq])).1] at hstopped
      contradiction
    · exact ⟨_, rfl⟩
  · intro before a after hsplit b hab
    rw [hevents] at hsplit
    obtain ⟨done, rfl, hdone⟩ := UnitEvent.reports_split hsplit
    obtain ⟨rest, hrest⟩ := hdone.trans hfront
    rw [List.append_assoc, List.singleton_append] at hrest
    have ha : a ∈ w.unpublished order := by simp [← hrest]
    obtain ⟨pre, post, rfl⟩ := List.append_of_mem (Workspace.mem_unpublished.1 ha).1
    have hdone := Workspace.unpublished_before hnodup hrest
    have hb := ImportGraph.mem_before_of_sequence horder rfl hab
    cases hknown : w.bySource? b with
    | some t => exact .inl rfl
    | none =>
        have hmem := Workspace.mem_unpublished.2 ⟨hb, hknown⟩
        rw [← hdone] at hmem
        obtain ⟨s, hs, rfl⟩ := List.mem_map.1 hmem
        exact .inr ⟨s, 0, by simp [UnitEvent.reports, hs], rfl⟩

/-- Three sources in a row; the last one has a field of a type that nobody declares. -/
def flawedSources : SourceTable :=
  [("a", { name := some "A" }),
    ("b", { name := some "B", imports := [{ source := "a" }] }),
    ("c", { name := some "C", imports := [{ source := "b" }], types := [
      .struct { name := some "S", properties := [{ name := some "x", typeText := some "Y" }] }] })]

/-- The first source was published before. The last one is reported, and is not published. -/
theorem load_reports_flawed :
    let w := (({ primitives := [] } : Workspace).load flawedSources.reader ["a"]).workspace
    Reached w ∧ (w.bySource? "a").isSome ∧ w.bySource? "b" = none ∧
      (w.load flawedSources.reader ["c"]).result =
        .error (.refused (.unresolvedType "c" "S.x" "Y" none)) ∧
      ∃ before, (w.load flawedSources.reader ["c"]).events = before ++ [.fixupStarted "c"] ∧
        ∃ s n, .published s n ∈ before ∧ s.source = "b" := by
  intro w
  have hreached : Reached w := (Reached.empty [] {} none).load flawedSources.reader ["a"]
  have hgraph : (flawedSources.reader.graph ["c"]).map
      (fun g => (g.importsOf "c", g.sequence)) = .ok (["b"], .ok ["a", "b", "c"]) := by cbv
  obtain ⟨g, hgraph, heq⟩ := map_eq_ok.1 hgraph
  obtain ⟨himports, horder⟩ := Prod.mk.inj heq
  have hcb : TransGen (Leads g.importsOf) "c" "b" := .single (by simp [Leads, himports])
  have hfound : ((w.bySource? "a").isSome, w.bySource? "b",
      (w.load flawedSources.reader ["c"]).result,
      (w.load flawedSources.reader ["c"]).events.getLast?) =
      (true, none, .error (.refused (.unresolvedType "c" "S.x" "Y" none)),
        some (.fixupStarted "c")) := by
    unfold w
    cbv
  clear_value w
  simp only [Prod.mk.injEq] at hfound
  obtain ⟨hknown, hnew, hresult, hlast⟩ := hfound
  have hevents := (List.dropLast_append_getLast? _ hlast).symm
  refine ⟨hreached, hknown, hnew, hresult, _, hevents, ?_⟩
  rcases ((load_reports_in_dependency_order hreached flawedSources.reader ["c"]).2 g _ hgraph
    horder).2 _ "c" [] hevents "b" hcb with hpublished | hbefore
  · rw [hnew] at hpublished
    contradiction
  · exact hbefore

end SchemaGraph
