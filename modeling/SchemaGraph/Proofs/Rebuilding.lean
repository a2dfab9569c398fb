import SchemaGraph.Proofs.Imports
import SchemaGraph.Proofs.Rekeying

/-!
Compiling units in another order. A workspace that was built from what a reader reads can be built
again from one without schemas, in every order in which no unit comes before one that it declares
to import. Each unit finds what it imports, under other keys, and so becomes the same schema.
-/

namespace SchemaGraph

/-! ### Runs of units -/

/-- The units are compiled one after another, except those that are published already. -/
inductive Builds (reader : SourceReader) : Workspace → List SourceId → Workspace → Prop
  | nil (w : Workspace) : Builds reader w [] w
  | known {w w' : Workspace} {unit : SourceId} {units : List SourceId} :
      (w.bySource? unit).isSome → Builds reader w units w' → Builds reader w (unit :: units) w'
  | compile {w w₁ w' : Workspace} {unit : SourceId} {units : List SourceId}
      {declaration : Declaration} {s : Schema} :
      reader.read unit = .ok declaration → Compiles w unit declaration s w₁ →
      Builds reader w₁ units w' → Builds reader w (unit :: units) w'

namespace Compiles

variable {w w' : Workspace} {unit : SourceId} {declaration : Declaration} {s : Schema}

theorem unpublished (h : Compiles w unit declaration s w') : w.bySource? unit = none := by
  have hfresh := (Workspace.register_eq_ok.1 h.registers).1
  rw [h.source_eq] at hfresh
  rw [Workspace.bySource?, hfresh, Option.bind_none]

theorem published (h : Compiles w unit declaration s w') : w'.bySource? unit = some s := by
  rw [h.eq_publish, ← h.source_eq]
  exact Workspace.bySource?_publish_self _ s

theorem compileUnit (h : Compiles w unit declaration s w') {reader : SourceReader}
    (hread : reader.read unit = .ok declaration) (events : List UnitEvent) :
    Progress.compileUnit reader ⟨w, events⟩ unit =
      (⟨w', events ++ [UnitEvent.fixupStarted unit, .published s 0]⟩, .ok ()) := by
  have hknown : ¬(w.bySource? unit).isSome := by simp [h.unpublished]
  obtain ⟨draft, resolved, linked, hdraft, hresolve, hlink, -, hfinish⟩ := h.stages
  obtain ⟨hcount, -⟩ := Draft.resolve_ok hresolve
  have hbind : (reader.read unit).bind (Draft.ofDeclaration w unit) = .ok draft := by
    rw [hread]
    exact hdraft
  simp only [Progress.compileUnit, if_neg hknown, hbind]
  simp [Progress.note, Progress.publish, hresolve, Draft.finish, hlink, hfinish, h.registers,
    hcount, Except.mapError, bind, Except.bind, pure, Except.pure]

end Compiles

namespace Builds

variable {reader : SourceReader} {w w' w₁ : Workspace} {unit : SourceId} {us vs : List SourceId}

theorem cons_iff : Builds reader w (unit :: us) w' ↔
    (w.bySource? unit).isSome ∧ Builds reader w us w' ∨
      ∃ declaration s w₁, reader.read unit = .ok declaration ∧
        Compiles w unit declaration s w₁ ∧ Builds reader w₁ us w' := by
  constructor
  · intro h
    cases h with
    | known hknown h => exact .inl ⟨hknown, h⟩
    | compile hread hc h => exact .inr ⟨_, _, _, hread, hc, h⟩
  · rintro (⟨hknown, h⟩ | ⟨_, _, _, hread, hc, h⟩)
    · exact .known hknown h
    · exact .compile hread hc h

theorem grows (h : Builds reader w us w') : Grows w w' := by
  induction h with
  | nil => exact .refl
  | known _ _ ih => exact ih
  | compile _ hc _ ih => exact (Grows.refl.compile hc).trans ih

theorem published (h : Builds reader w us w') : ∀ unit ∈ us, (w'.bySource? unit).isSome := by
  induction h with
  | nil => simp
  | known hknown h ih =>
      rintro u (_ | ⟨_, hu⟩)
      · exact h.grows.bySource?_isSome hknown
      · exact ih u hu
  | compile _ hc h ih =>
      rintro u (_ | ⟨_, hu⟩)
      · exact h.grows.bySource?_isSome (by simp [hc.published])
      · exact ih u hu

/-- The run of the compiler that succeeds. -/
theorem compileUnits (h : Builds reader w us w') (events : List UnitEvent) :
    ∃ events', Progress.compileUnits reader ⟨w, events⟩ us = (⟨w', events'⟩, .ok ()) := by
  induction h generalizing events with
  | nil => exact ⟨events, rfl⟩
  | known hknown _ ih =>
      rw [Progress.compileUnits, Progress.compileUnit, if_pos hknown]
      exact ih events
  | compile hread hc _ ih =>
      rw [Progress.compileUnits, hc.compileUnit hread]
      exact ih _

theorem of_compileUnits {p p' : Progress}
    (h : p.compileUnits reader us = (p', .ok ())) : Builds reader p.workspace us p'.workspace := by
  induction us generalizing p with
  | nil =>
      obtain rfl := (Prod.mk.inj h).1
      exact .nil _
  | cons unit us ih =>
      rw [Progress.compileUnits] at h
      rcases p.compileUnit_cases reader unit with ⟨hknown, heq⟩ | ⟨_, s, w₁, hread, hc, heq⟩ |
        ⟨e, events, heq, -⟩
      · rw [heq] at h
        exact .known hknown (ih h)
      · rw [heq] at h
        exact .compile hread hc (ih h)
      · rw [heq] at h
        cases h

theorem unique {w'' : Workspace} (h : Builds reader w us w') (h' : Builds reader w us w'') :
    w' = w'' := by
  obtain ⟨events, heq⟩ := h.compileUnits []
  obtain ⟨events', heq'⟩ := h'.compileUnits []
  exact congrArg Progress.workspace (Prod.mk.inj (heq.symm.trans heq')).1

theorem append_iff :
    Builds reader w (us ++ vs) w' ↔ ∃ w₁, Builds reader w us w₁ ∧ Builds reader w₁ vs w' := by
  constructor
  · intro h
    induction us generalizing w with
    | nil => exact ⟨w, .nil w, h⟩
    | cons unit us ih =>
        rcases cons_iff.1 h with ⟨hknown, h⟩ | ⟨_, _, _, hread, hc, h⟩
        · obtain ⟨w₁, hus, hvs⟩ := ih h
          exact ⟨w₁, .known hknown hus, hvs⟩
        · obtain ⟨w₁, hus, hvs⟩ := ih h
          exact ⟨w₁, .compile hread hc hus, hvs⟩
  · rintro ⟨w₁, hus, hvs⟩
    induction hus with
    | nil => exact hvs
    | known hknown _ ih => exact .known hknown (ih hvs)
    | compile hread hc _ ih => exact .compile hread hc (ih hvs)

/-- Units that are published already make no difference. -/
theorem filter_iff {keep : SourceId → Bool}
    (hknown : ∀ unit, keep unit = false → (w.bySource? unit).isSome) :
    Builds reader w (us.filter keep) w' ↔ Builds reader w us w' := by
  induction us generalizing w with
  | nil => rfl
  | cons unit us ih =>
      by_cases hkeep : keep unit
      · have hgrown : ∀ {w₁ declaration s}, Compiles w unit declaration s w₁ →
            ∀ u, keep u = false → (w₁.bySource? u).isSome :=
          fun hc u hu => (Grows.refl.compile hc).bySource?_isSome (hknown u hu)
        rw [List.filter_cons_of_pos hkeep, cons_iff, cons_iff, ih hknown]
        refine or_congr_right ?_
        refine exists_congr fun d => exists_congr fun s => exists_congr fun w₁ => ?_
        exact and_congr_right fun _ => and_congr_right fun hc => ih (hgrown hc)
      · rw [List.filter_cons_of_neg hkeep, cons_iff, ih hknown]
        have hpublished := hknown unit (Bool.eq_false_iff.2 hkeep)
        constructor
        · exact fun h => .inl ⟨hpublished, h⟩
        · rintro (⟨-, h⟩ | ⟨_, _, _, -, hc, -⟩)
          · exact h
          · rw [hc.unpublished] at hpublished
            contradiction

end Builds

/-! ### Workspaces that are built -/

namespace Workspace

variable {w w' : Workspace} {reader : SourceReader}

namespace SameConfig

theorem symm (h : w.SameConfig w') : w'.SameConfig w :=
  ⟨h.primitives.symm, h.containers.symm, h.enumDefault.symm⟩

theorem trans {w'' : Workspace} (h : w.SameConfig w') (h' : w'.SameConfig w'') :
    w.SameConfig w'' :=
  ⟨h'.primitives.trans h.primitives, h'.containers.trans h.containers,
    h'.enumDefault.trans h.enumDefault⟩

theorem publish (w : Workspace) (s : Schema) : w.SameConfig (w.publish s) :=
  ⟨rfl, rfl, rfl⟩

end SameConfig

/-- Each schema is that of its source as the reader reads it, compiled when all schemas before it
were published. -/
structure BuiltBy (reader : SourceReader) (w : Workspace) : Prop where
  layered : w.Layered
  flattened : w.Flattened
  compiled : ∀ (key : SchemaKey) (s : Schema), w.schemas[key]? = some s →
    ∃ v v' declaration, v.Layered ∧ v.Flattened ∧ v.SameConfig w ∧
      v.schemas = w.schemas.take key ∧ reader.read s.source = .ok declaration ∧
      Compiles v s.source declaration s v'

theorem builtBy_empty (primitives : PrimitiveTable) (containers : ContainerCatalog)
    (enumDefault : Option PrimitiveId) :
    BuiltBy reader { primitives, containers, enumDefault } := by
  obtain ⟨hlayered, hflat⟩ := (Reached.empty primitives containers enumDefault).layered_flattened
  exact ⟨hlayered, hflat, fun key s hs => by simp at hs⟩

end Workspace

theorem Compiles.builtBy {w w' : Workspace} {reader : SourceReader} {unit : SourceId}
    {declaration : Declaration} {s : Schema} (h : Compiles w unit declaration s w')
    (hw : w.BuiltBy reader) (hread : reader.read unit = .ok declaration) :
    w'.BuiltBy reader := by
  have hlayered := h.layered hw.layered
  refine ⟨hlayered, h.flattened hw.layered hlayered hw.flattened, fun key t ht => ?_⟩
  have heq := h.eq_publish
  rw [heq] at ht
  rcases Workspace.getElem?_publish.1 ht with hold | ⟨rfl, rfl⟩
  · obtain ⟨v, v', d, hv, hvflat, hconfig, htake, hd, hc⟩ := hw.compiled key t hold
    have hle : key ≤ w.schemas.length := Nat.le_of_lt (List.getElem?_eq_some_iff.1 hold).1
    refine ⟨v, v', d, hv, hvflat, ?_, ?_, hd, hc⟩
    · rw [heq]
      exact hconfig.trans (.publish w s)
    · rw [htake, heq]
      exact (List.take_append_of_le_length hle).symm
  · rw [← h.source_eq] at hread h
    refine ⟨w, w', declaration, hw.layered, hw.flattened, ?_, ?_, hread, h⟩
    · rw [heq]
      exact .publish w t
    · rw [heq]
      exact (List.take_left' rfl).symm

theorem Builds.builtBy {w w' : Workspace} {reader : SourceReader} {us : List SourceId}
    (h : Builds reader w us w') (hw : w.BuiltBy reader) : w'.BuiltBy reader := by
  induction h with
  | nil => exact hw
  | known _ _ ih => exact ih hw
  | compile hread hc _ ih => exact ih (hc.builtBy hw hread)

theorem Grows.sameConfig {w w' : Workspace} (h : Grows w w') : w.SameConfig w' := by
  induction h with
  | refl => exact ⟨rfl, rfl, rfl⟩
  | compile _ hstep ih =>
      rw [hstep.eq_publish]
      exact ih.trans (.publish _ _)

theorem Builds.sameConfig {w w' : Workspace} {reader : SourceReader} {us : List SourceId}
    (h : Builds reader w us w') : w.SameConfig w' :=
  h.grows.sameConfig

/-- What has been published since are those of the units that were compiled. -/
theorem Builds.exists_new {w w' : Workspace} {reader : SourceReader} {us : List SourceId}
    (h : Builds reader w us w') :
    ∃ new, new.Sublist us ∧ Builds reader w new w' ∧
      w'.schemas.map (fun s => s.source) = w.schemas.map (fun s => s.source) ++ new := by
  induction h with
  | nil w => exact ⟨[], .refl _, .nil w, (List.append_nil _).symm⟩
  | known _ _ ih =>
      obtain ⟨new, hsub, hbuilds, hsources⟩ := ih
      exact ⟨new, hsub.cons _, hbuilds, hsources⟩
  | @compile w w₁ w' unit units declaration s hread hc _ ih =>
      obtain ⟨new, hsub, hbuilds, hsources⟩ := ih
      refine ⟨unit :: new, hsub.cons_cons unit, .compile hread hc hbuilds, ?_⟩
      rw [hsources, hc.eq_publish, Workspace.publish, List.map_append, List.map_singleton,
        hc.source_eq, List.append_assoc, List.singleton_append]

/-! ### Other orders -/

/-- One source declares an import of another. -/
def SourceReader.Declares (reader : SourceReader) (a b : SourceId) : Prop :=
  ∃ declaration, reader.read a = .ok declaration ∧ b ∈ declaration.importSources

/-- Units in an order in which they can be compiled. -/
structure SourceReader.Ordered (reader : SourceReader) (units : List SourceId) : Prop where
  nodup : units.Nodup
  closed : ∀ a ∈ units, ∀ b, reader.Declares a b → b ∈ units
  not_later : units.Pairwise fun a b => ¬reader.Declares a b

namespace SourceReader.Ordered

variable {reader : SourceReader} {units before after : List SourceId} {unit other : SourceId}

theorem notMem_before (h : reader.Ordered units) (hunits : units = before ++ unit :: after) :
    unit ∉ before := by
  have hnodup := h.nodup
  rw [hunits, List.nodup_append] at hnodup
  exact fun hmem => hnodup.2.2 unit hmem unit (by simp) rfl

theorem mem_before (h : reader.Ordered units) (hunits : units = before ++ unit :: after)
    (hdeclares : reader.Declares unit other) (hne : other ≠ unit) : other ∈ before := by
  have hmem := h.closed unit (by simp [hunits]) other hdeclares
  have hnot := h.not_later
  rw [hunits, List.pairwise_append, List.pairwise_cons] at hnot
  rw [hunits, List.mem_append, List.mem_cons] at hmem
  rcases hmem with hmem | heq | hmem
  · exact hmem
  · exact absurd heq hne
  · exact absurd hdeclares (hnot.2.1.1 other hmem)

end SourceReader.Ordered

namespace Workspace

variable {w w' : Workspace} {reader : SourceReader} {units before after : List SourceId}
  {unit : SourceId}

/-- The place that a schema has if the units are published in this order; the keys of all others
follow. -/
def keyIn (w : Workspace) (units : List SourceId) (key : SchemaKey) : SchemaKey :=
  match w.schemas[key]? with
  | some s => if s.source ∈ units then units.idxOf s.source else units.length + key
  | none => units.length + key

theorem keyIn_of_mem {key : SchemaKey} {s : Schema} (hs : w.schemas[key]? = some s)
    (hmem : s.source ∈ units) : w.keyIn units key = units.idxOf s.source := by
  rw [keyIn, hs]
  exact if_pos hmem

theorem keyIn_cases (w : Workspace) (units : List SourceId) (key : SchemaKey) :
    (∃ s, w.schemas[key]? = some s ∧ s.source ∈ units ∧
        w.keyIn units key = units.idxOf s.source) ∨
      w.keyIn units key = units.length + key := by
  rw [keyIn]
  cases hs : w.schemas[key]? with
  | none => exact .inr rfl
  | some s =>
      by_cases hmem : s.source ∈ units
      · exact .inl ⟨s, rfl, hmem, if_pos hmem⟩
      · exact .inr (if_neg hmem)

/-- What a published source declares an import of is published before it. -/
theorem BuiltBy.published_before (hw : w.BuiltBy reader) {key : SchemaKey} {s : Schema}
    {b : SourceId} (hs : w.schemas[key]? = some s) (hdeclares : reader.Declares s.source b) :
    b = s.source ∨ ∃ key' < key, ∃ t, w.schemas[key']? = some t ∧ t.source = b := by
  obtain ⟨v, v', declaration, hv, hvflat, -, htake, hread, hc⟩ := hw.compiled key s hs
  obtain rfl := hw.layered.indexed.key_eq key s hs
  have hcompiled : s.CompiledFrom w declaration := ⟨v, v', hv, hvflat, htake, hc⟩
  obtain ⟨declaration', hread', hb⟩ := hdeclares
  obtain rfl := Except.ok.inj (hread.symm.trans hread')
  obtain ⟨i, hi, rfl⟩ := List.mem_map.1 hb
  obtain ⟨n, hn⟩ := List.getElem?_of_mem hi
  obtain ⟨entry, -, hleads⟩ := exists_of_forall₂_left (hcompiled.leadsTo hs) hn
  by_cases hself : i.source = s.source
  · exact .inl hself
  · have hne : entry.2 ≠ s.key := fun heq => hself (hleads.self_iff.1 heq)
    exact .inr ⟨entry.2, Nat.lt_of_le_of_ne hleads.le hne, hleads.published⟩

/-- The order of publication is one in which the units can be compiled. -/
theorem BuiltBy.ordered (hw : w.BuiltBy reader) :
    reader.Ordered (w.schemas.map fun s => s.source) := by
  have hdistinct : w.schemas.Pairwise fun s t => s.source ≠ t.source :=
    List.pairwise_map.1 hw.layered.indexed.nodup_sources
  refine ⟨List.pairwise_map.2 hdistinct, fun a ha b hdeclares => ?_, List.pairwise_map.2 ?_⟩
  · obtain ⟨s, hs, rfl⟩ := List.mem_map.1 ha
    obtain ⟨key, hkey⟩ := List.getElem?_of_mem hs
    rcases hw.published_before hkey hdeclares with rfl | ⟨_, -, t, ht, rfl⟩
    · exact ha
    · exact List.mem_map_of_mem (List.mem_of_getElem? ht)
  · refine List.pairwise_iff_getElem.2 fun i j hi hj hij hdeclares => ?_
    have hgeti := List.getElem?_eq_getElem hi
    have hgetj := List.getElem?_eq_getElem hj
    rcases hw.published_before hgeti hdeclares with heq | ⟨k, hk, t, ht, heq⟩
    · exact List.pairwise_iff_getElem.1 hdistinct i j hi hj hij heq.symm
    · have hkj := hw.layered.indexed.key_of_source ht hgetj heq
      exact absurd (hk.trans hij) (Nat.not_lt.2 (Nat.le_of_eq hkj.symm))

theorem Indexed.keyIn_injective (hw : w.Indexed) (units : List SourceId) :
    Function.Injective (w.keyIn units) := by
  intro key key' heq
  rcases w.keyIn_cases units key with ⟨s, hs, hmem, hkey⟩ | hkey
  · have hlt := List.idxOf_lt_length_of_mem hmem
    rcases w.keyIn_cases units key' with ⟨s', hs', hmem', hkey'⟩ | hkey'
    · rw [hkey, hkey'] at heq
      exact hw.key_of_source hs hs' ((List.idxOf_inj hmem).1 heq)
    · rw [← hkey, heq, hkey'] at hlt
      exact absurd hlt (Nat.not_lt.2 (Nat.le_add_right _ _))
  · rcases w.keyIn_cases units key' with ⟨s', hs', hmem', hkey'⟩ | hkey'
    · have hlt := List.idxOf_lt_length_of_mem hmem'
      rw [← hkey', ← heq, hkey] at hlt
      exact absurd hlt (Nat.not_lt.2 (Nat.le_add_right _ _))
    · rw [hkey, hkey'] at heq
      exact Nat.add_left_cancel heq

/-- The second workspace holds the schemas of these units, in this order, as the first holds them up
to the keys. -/
structure Rearranges (w : Workspace) (units before : List SourceId) (w' : Workspace) : Prop where
  sources : w'.schemas.map (fun s => s.source) = before
  schemas : ∀ (key : SchemaKey) (s : Schema), w.schemas[key]? = some s → s.source ∈ before →
    w'.schemas[w.keyIn units key]? = some (s.rekey (w.keyIn units))

namespace Rearranges

variable {key : SchemaKey} {s t : Schema}

theorem nextKey_eq (h : Rearranges w units before w') : w'.nextKey = before.length := by
  rw [← h.sources, List.length_map]
  rfl

theorem source_mem (h : Rearranges w units before w') (ht : w'.schemas[key]? = some t) :
    t.source ∈ before := by
  rw [← h.sources]
  exact List.mem_map_of_mem (List.mem_of_getElem? ht)

/-- Each schema of the second workspace is one of the first. -/
theorem exists_schema (h : Rearranges w units before w') (hw : w.Indexed) (hw' : w'.Indexed)
    (hpublished : ∀ u ∈ before, (w.bySource? u).isSome) (ht : w'.schemas[key]? = some t) :
    ∃ s : Schema, w.schemas[s.key]? = some s ∧ t = s.rekey (w.keyIn units) := by
  have hmem := h.source_mem ht
  obtain ⟨s, hs⟩ := Option.isSome_iff_exists.1 (hpublished t.source hmem)
  obtain ⟨hget, hsource⟩ := hw.bySource?_eq_some.1 hs
  have hget' := h.schemas s.key s hget (hsource ▸ hmem)
  obtain rfl := hw'.key_of_source ht hget' hsource.symm
  exact ⟨s, hget, Option.some.inj (ht.symm.trans hget')⟩

/-- A key that is taken stands for a unit that has been published. -/
theorem source_mem_of_lt (h : Rearranges w units before w') (hunits : units = before ++ after)
    (hs : w.schemas[key]? = some s) (hlt : w.keyIn units key < w'.nextKey) :
    s.source ∈ before := by
  rw [h.nextKey_eq] at hlt
  have hle : before.length ≤ units.length := by simp [hunits]
  rcases w.keyIn_cases units key with ⟨s', hs', hmem, hkey⟩ | hkey
  · obtain rfl := Option.some.inj (hs.symm.trans hs')
    by_contra hnot
    rw [hkey, hunits, List.idxOf_append_of_notMem hnot] at hlt
    exact absurd hlt (Nat.not_lt.2 (Nat.le_add_right _ _))
  · rw [hkey] at hlt
    exact absurd hlt (Nat.not_lt.2 (hle.trans (Nat.le_add_right _ _)))

theorem source_free (h : Rearranges w units before w') (hw' : w'.Indexed) (hnew : unit ∉ before) :
    w'.sources.key? unit = none := by
  refine Option.eq_none_iff_forall_ne_some.2 fun key hkey => ?_
  obtain ⟨t, ht, rfl⟩ := (hw'.sources_iff _ _).1 hkey
  exact hnew (h.source_mem ht)

theorem name_free (h : Rearranges w units before w') (hw : w.Indexed) (hw' : w'.Indexed)
    (hpublished : ∀ u ∈ before, (w.bySource? u).isSome) (hs : w.schemas[s.key]? = some s)
    (hnew : s.source ∉ before) : w'.names.key? s.name = none := by
  refine Option.eq_none_iff_forall_ne_some.2 fun key hkey => ?_
  obtain ⟨t, ht, heq⟩ := (hw'.names_iff _ _).1 hkey
  have hmem := h.source_mem ht
  obtain ⟨s', hs', rfl⟩ := h.exists_schema hw hw' hpublished ht
  rw [hw.key_of_name hs' hs heq] at hs'
  obtain rfl := Option.some.inj (hs'.symm.trans hs)
  exact hnew hmem

/-- The next unit has the next key. -/
theorem keyIn_next (h : Rearranges w units before w') (hunits : units = before ++ s.source :: after)
    (hs : w.schemas[s.key]? = some s) (hnew : s.source ∉ before) :
    w.keyIn units s.key = w'.nextKey := by
  rw [keyIn_of_mem hs (by simp [hunits]), h.nextKey_eq, hunits, List.idxOf_append_of_notMem hnew,
    List.idxOf_cons_self]
  rfl

/-- Up to the keys, the second workspace remains as the first when the next unit is published. -/
theorem publish (h : Rearranges w units before w') (hw : w.Indexed)
    (hs : w.schemas[s.key]? = some s) (hkey : w.keyIn units s.key = w'.nextKey) :
    Rearranges w units (before ++ [s.source]) (w'.publish (s.rekey (w.keyIn units))) := by
  refine ⟨?_, fun key t ht hmem => ?_⟩
  · rw [Workspace.publish, List.map_append, h.sources]
    rfl
  · rw [getElem?_publish]
    rw [List.mem_append, List.mem_singleton] at hmem
    rcases hmem with hmem | heq
    · exact .inl (h.schemas key t ht hmem)
    · obtain rfl := hw.key_of_source ht hs heq
      obtain rfl := Option.some.inj (ht.symm.trans hs)
      exact .inr ⟨hkey, rfl⟩

end Rearranges

section Rebuild

variable (hw : w.BuiltBy reader) (hordered : reader.Ordered units)
  (hpublished : ∀ u ∈ units, (w.bySource? u).isSome)

include hw hordered hpublished

/-- The next unit of the order can be compiled. -/
theorem Rearranges.compile (h : w.Rearranges units before w') (hw' : w'.BuiltBy reader)
    (hconfig : w.SameConfig w') (hunits : units = before ++ unit :: after) :
    ∃ declaration s w'', reader.read unit = .ok declaration ∧ Compiles w' unit declaration s w'' ∧
      w.Rearranges units (before ++ [unit]) w'' := by
  have hindexed := hw.layered.indexed
  have hunit : unit ∈ units := by simp [hunits]
  have hbefore : ∀ u ∈ before, (w.bySource? u).isSome := fun u hu =>
    hpublished u (by simp [hunits, hu])
  have hnew := hordered.notMem_before hunits
  obtain ⟨s, hs⟩ := Option.isSome_iff_exists.1 (hpublished unit hunit)
  obtain ⟨hget, rfl⟩ := hindexed.bySource?_eq_some.1 hs
  have hkey := h.keyIn_next hunits hget hnew
  -- The unit was compiled once, in `v`; of what `v` holds, `w'` has all that the unit imports.
  obtain ⟨v, v', declaration, hv, hvflat, hvconfig, htake, hread, hc⟩ := hw.compiled s.key s hget
  have hrekeys : Rekeys (w.keyIn units) v w' := by
    refine ⟨hvconfig.trans hconfig, hindexed.keyIn_injective units, ?_, fun key t ht hlt => ?_⟩
    · rw [← hc.key_eq]
      exact hkey
    · have ht' := (getElem?_of_eq_take htake ht).2
      exact h.schemas key t ht' (h.source_mem_of_lt hunits ht' hlt)
  have hshared : ∀ i ∈ declaration.imports, ∀ t, v.bySource? i.source = some t →
      w.keyIn units t.key < w'.nextKey := by
    intro i hi t ht
    obtain ⟨htget, htsource⟩ := hv.indexed.bySource?_eq_some.1 ht
    obtain ⟨hlt, ht'⟩ := getElem?_of_eq_take htake htget
    have hmem : t.source ∈ before := by
      refine hordered.mem_before hunits
        ⟨declaration, hread, htsource ▸ List.mem_map_of_mem hi⟩ fun heq => ?_
      exact Nat.ne_of_lt hlt (hindexed.key_of_source ht' hget heq)
    rw [keyIn_of_mem ht' (by simp [hunits, hmem]), h.nextKey_eq, hunits,
      List.idxOf_append_of_mem hmem]
    exact List.idxOf_lt_length_of_mem hmem
  have hcompiles := hc.rekey hrekeys hv hvflat hw'.layered hshared
    (h.source_free hw'.layered.indexed hnew)
    (h.name_free hindexed hw'.layered.indexed hbefore hget hnew)
  exact ⟨declaration, _, _, hread, hcompiles, h.publish hindexed hget hkey⟩

/-- All units of the order can be compiled, one after the other. -/
theorem BuiltBy.rebuild {w₀ : Workspace} (hw₀ : w₀.BuiltBy reader) (hempty : w₀.schemas = [])
    (hconfig : w₀.SameConfig w) :
    ∃ w', Builds reader w₀ units w' ∧ w.Rearranges units units w' := by
  -- By induction on the units that have been compiled so far.
  suffices hfront : ∀ before after, units = before ++ after →
      ∃ w', Builds reader w₀ before w' ∧ w.Rearranges units before w' from
    hfront units [] (List.append_nil _).symm
  intro before
  induction before using List.reverseRecOn with
  | nil =>
      refine fun after _ => ⟨w₀, .nil w₀, ?_, fun _ _ _ hmem => ?_⟩
      · rw [hempty, List.map_nil]
      · simp at hmem
  | append_singleton before unit ih =>
      intro after hunits
      rw [List.append_assoc, List.singleton_append] at hunits
      obtain ⟨w', hbuilds, hrearranges⟩ := ih _ hunits
      obtain ⟨declaration, s, w'', hread, hc, hrearranges'⟩ := hrearranges.compile hw hordered
        hpublished (hbuilds.builtBy hw₀) (hconfig.symm.trans hbuilds.sameConfig) hunits
      exact ⟨w'', Builds.append_iff.2 ⟨w', hbuilds, .compile hread hc (.nil w'')⟩, hrearranges'⟩

end Rebuild

/-! ### The same schemas -/

/-- The source that a key stands for. -/
def sourceAt? (w : Workspace) (key : SchemaKey) : Option SourceId :=
  w.schemas[key]?.map fun s => s.source

/-- The same sources are published, and their schemas are the same if each key is replaced by that
which stands for the same source. -/
def SameSchemas (w w' : Workspace) : Prop :=
  ∃ ρ : SchemaKey → SchemaKey, Function.Injective ρ ∧
    (∀ key, w'.sourceAt? (ρ key) = w.sourceAt? key) ∧
    ∀ source, w'.bySource? source = (w.bySource? source).map (Schema.rekey ρ)

theorem Rearranges.sameSchemas (h : w.Rearranges units units w') (hw : w.Indexed)
    (hw' : w'.Indexed) (hunits : ∀ u, u ∈ units ↔ (w.bySource? u).isSome) : w.SameSchemas w' := by
  have hmem : ∀ (key : SchemaKey) (s : Schema), w.schemas[key]? = some s → s.source ∈ units := by
    intro key s hs
    have hs' := hw.bySource?_eq_some.2 ⟨by rwa [hw.key_eq key s hs], rfl⟩
    exact (hunits s.source).2 (Option.isSome_iff_exists.2 ⟨s, hs'⟩)
  refine ⟨w.keyIn units, hw.keyIn_injective units, fun key => ?_, fun source => ?_⟩
  · rw [sourceAt?, sourceAt?]
    cases hs : w.schemas[key]? with
    | none =>
        have hle : w'.schemas.length ≤ w.keyIn units key := by
          rw [keyIn, hs]
          exact (Nat.le_of_eq h.nextKey_eq).trans (Nat.le_add_right _ _)
        rw [List.getElem?_eq_none hle]
    | some s =>
        rw [h.schemas key s hs (hmem key s hs)]
        rfl
  · refine Option.ext fun t => ?_
    rw [hw'.bySource?_eq_some, Option.map_eq_some_iff]
    constructor
    · rintro ⟨ht, rfl⟩
      obtain ⟨s, hs, rfl⟩ := h.exists_schema hw hw' (fun u hu => (hunits u).1 hu) ht
      exact ⟨s, hw.bySource?_eq_some.2 ⟨hs, rfl⟩, rfl⟩
    · rintro ⟨s, hs, rfl⟩
      obtain ⟨hget, rfl⟩ := hw.bySource?_eq_some.1 hs
      exact ⟨h.schemas s.key s hget (hmem s.key s hget), rfl⟩

end Workspace

namespace Builds

variable {reader : SourceReader} {w w₁ w₂ : Workspace} {us vs : List SourceId}
  (hw : w.BuiltBy reader) (hempty : w.schemas = [])

include hw hempty

theorem bySource?_isSome_iff (h : Builds reader w us w₁) (u : SourceId) :
    (w₁.bySource? u).isSome ↔ u ∈ us := by
  refine ⟨fun hu => ?_, h.published u⟩
  obtain ⟨s, hs⟩ := Option.isSome_iff_exists.1 hu
  obtain ⟨hmem, rfl⟩ := (h.builtBy hw).layered.indexed.mem_of_bySource? hs
  obtain ⟨new, hsub, -, hsources⟩ := h.exists_new
  rw [hempty, List.map_nil, List.nil_append] at hsources
  exact hsub.subset (hsources ▸ List.mem_map_of_mem hmem)

/-- Units that can be compiled can be compiled in another order. -/
theorem reorder (h : Builds reader w us w₁) (hordered : reader.Ordered vs)
    (hsub : ∀ v ∈ vs, v ∈ us) : ∃ w₂, Builds reader w vs w₂ := by
  obtain ⟨w₂, h₂, -⟩ :=
    (h.builtBy hw).rebuild hordered (fun v hv => h.published v (hsub v hv)) hw hempty h.sameConfig
  exact ⟨w₂, h₂⟩

/-- In whatever order the same units were compiled, their schemas are the same. -/
theorem sameSchemas (h₁ : Builds reader w us w₁) (h₂ : Builds reader w vs w₂)
    (hmem : ∀ u, u ∈ us ↔ u ∈ vs) : w₁.SameSchemas w₂ := by
  have hw₁ := h₁.builtBy hw
  have hw₂ := h₂.builtBy hw
  obtain ⟨new, -, hnew, hsources⟩ := h₂.exists_new
  rw [hempty, List.map_nil, List.nil_append] at hsources
  have hordered := hw₂.ordered
  rw [hsources] at hordered
  have hpublished : ∀ u, u ∈ new ↔ (w₁.bySource? u).isSome := fun u => by
    rw [h₁.bySource?_isSome_iff hw hempty, hmem, ← h₂.bySource?_isSome_iff hw hempty,
      hnew.bySource?_isSome_iff hw hempty]
  -- The units of the second run, in their order, give a workspace that can only be its outcome.
  obtain ⟨w', hbuilds, hrearranges⟩ :=
    hw₁.rebuild hordered (fun u hu => (hpublished u).1 hu) hw hempty h₁.sameConfig
  obtain rfl := hbuilds.unique hnew
  exact hrearranges.sameSchemas hw₁.layered.indexed hw₂.layered.indexed hpublished

end Builds

end SchemaGraph
