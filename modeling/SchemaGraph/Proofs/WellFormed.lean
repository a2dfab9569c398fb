import SchemaGraph.Proofs.Imports
import SchemaGraph.Proofs.Renaming

/-!
Well-formed workspaces. The registry is consistent, no schema has two types of one name, and all
handles in published schemas are handles of published types. This is all that declaring, resolving
and finishing a unit ask of a workspace, and it holds of every workspace that loads lead to.
-/

namespace SchemaGraph

open Relation

variable {w w' : Workspace} {unit : SourceId} {declaration : Declaration} {s : Schema}
  {f : TypeRef → TypeRef}

/-- A map that leaves the handles of published types alone leaves published schemas alone. -/
def Schema.Closed (w : Workspace) (s : Schema) : Prop :=
  ∀ f : TypeRef → TypeRef, (∀ r, r.schema < w.nextKey → f r = r) →
    (∀ t ∈ s.types, t.mapRefs f = t) ∧ ∀ d ∈ s.derived, d.mapRefs f = d

structure Workspace.WellFormed (w : Workspace) : Prop where
  indexed : w.Indexed
  nodup_typeNames : ∀ s ∈ w.schemas, s.typeNames.Nodup
  closed : ∀ s ∈ w.schemas, s.Closed w

/-! ### Handles in types -/

theorem map_eq_self {α : Type} {g : α → α} {as : List α} (h : ∀ a ∈ as, g a = a) :
    as.map g = as := by
  rw [List.map_congr_left h, List.map_id']

section Types

variable {bound : SchemaKey} (hf : ∀ r : TypeRef, r.schema ≤ bound → f r = r)

include hf

theorem DataType.SoundLeaf.mapRefs_eq {role : PropertyRole} {t : DataType}
    (h : t.SoundLeaf w bound role) : t.mapRefs f = t := by
  have hhandle : ∀ r, t.userType? = some r → f r = r := fun r hr => by
    obtain ⟨k, -, hle, -⟩ := h.handle r hr
    exact hf r hle
  cases t with
  | primitive id => rfl
  | generic shape => rfl
  | void => rfl
  | container shape key value => exact absurd rfl (h.not_container shape key value)
  | entity r | struct r | interface r | enum r => rw [mapRefs, hhandle r rfl]

theorem DataType.Sound.mapRefs_eq {role : PropertyRole} {t : DataType}
    (h : t.Sound w bound role) : t.mapRefs f = t := by
  have hleaf := h.leaf.mapRefs_eq hf
  cases t with
  | container shape key value => exact congrArg (DataType.container shape key) hleaf
  | _ => exact hleaf

theorem UserType.Sound.mapRefs_eq {t : LinkedType} (h : t.Sound w bound) : t.mapRefs f = t := by
  obtain ⟨name, ns, kind, body, metadata⟩ := t
  cases body with
  | enum e => rfl
  | composite c =>
      obtain ⟨hbase, hinterfaces, hproperties⟩ := h.composite c rfl
      obtain ⟨isAbstract, base, interfaces, properties⟩ := c
      have hbase' : base.map f = base := by
        cases base with
        | none => rfl
        | some b => exact congrArg some (hf b (hbase b rfl).2.1)
      have hinterfaces' : interfaces.map f = interfaces :=
        map_eq_self fun i hi => hf i (hinterfaces i hi).1
      have hproperties' : properties.map (Property.mapRefs f) = properties :=
        map_eq_self fun p hp => by
          rw [Property.mapRefs, (hproperties p hp).mapRefs_eq hf]
      simp only [mapRefs, TypeBody.mapRefs, Composite.mapRefs, hbase', hinterfaces', hproperties']

end Types

/-! ### Handles in derived facts -/

theorem KeyLayout.Reads.mapRefs_eq {primitives : PrimitiveTable} {r : TypeRef} {t : LinkedType}
    {l : KeyLayout} (h : l.Reads primitives r t) (hr : f r = r) : l.mapRefs f = l := by
  obtain ⟨entity, components⟩ := l
  obtain ⟨rfl, hcomponents⟩ := h
  have hcomponents' : components.map (KeyComponent.mapRefs f) = components :=
    map_eq_self fun c hc => by
      obtain ⟨p, -, hreads⟩ := exists_of_forall₂_right hcomponents hc
      rw [KeyComponent.mapRefs, hreads.property, PropertyRef.mapRefs, hr, ← hreads.property]
  rw [mapRefs, hr, hcomponents']

namespace Compiles

/-- What is derived for the types of a unit is about types that are published with it. -/
theorem derived_mapRefs_eq (h : Compiles w unit declaration s w') (hw' : w'.Layered)
    (hflat : w'.Flattened) (hf : ∀ r : TypeRef, r.schema ≤ s.key → f r = r) :
    ∀ d ∈ s.derived, d.mapRefs f = d := by
  have hpublished : ∀ r t, w'.type? r = some t → f r = r := fun r t ht => by
    refine hf r (Nat.le_of_lt_succ ?_)
    have hlt := Workspace.lt_nextKey_of_type? ht
    rwa [h.eq_publish, Workspace.nextKey, Workspace.publish, List.length_append, ← Workspace.nextKey,
      ← h.key_eq] at hlt
  intro d hd
  obtain ⟨⟨t, i⟩, hmem, hderive⟩ := exists_of_forall₂_right h.derived_forall₂ hd
  have ht : w'.type? ⟨s.key, i⟩ = some t := by
    rw [h.eq_publish, Workspace.type?_publish_of_eq s h.key_eq]
    exact List.mk_mem_zipIdx_iff_getElem?.1 hmem
  have heffective : d.effective.map (PropertyRef.mapRefs f) = d.effective := by
    refine map_eq_self fun p hp => ?_
    rw [Except.ok.inj (hderive.symm.trans (h.derive_eq h.key_eq ht))] at hp
    obtain ⟨-, hsome⟩ := ((hflat.flattens _).mem_iff p).1 hp
    obtain ⟨q, hq⟩ := Option.isSome_iff_exists.1 hsome
    obtain ⟨u, hu, -⟩ := Option.bind_eq_some_iff.1 hq
    rw [PropertyRef.mapRefs, hpublished p.owner u hu]
  obtain ⟨u, hu, -⟩ := hw'.wellTyped.kind_of_reach ht (h.shows.rootOf hw'.navigable ht).1
  obtain ⟨hentity, hother⟩ := Scope.derive_key (hw'.agrees ht) hderive
  obtain ⟨effective, keyOwner, keyLayout⟩ := d
  have hkey : keyOwner.map f = keyOwner ∧ keyLayout.map (KeyLayout.mapRefs f) = keyLayout := by
    by_cases hkind : t.kind = .entity
    · obtain ⟨howner, hlayout, hnone⟩ := hentity hkind
      simp only at howner hlayout hnone
      refine ⟨?_, ?_⟩
      · rw [howner, Option.map_some, hpublished _ u hu]
      · by_cases hroot : (Scope.mk w s.toSchemaOf).root ⟨s.key, i⟩ = ⟨s.key, i⟩
        · obtain ⟨l, rfl, hreads⟩ := hlayout hroot
          rw [Option.map_some, hreads.mapRefs_eq (hpublished _ t ht)]
        · rw [hnone hroot, Option.map_none]
    · obtain ⟨rfl, rfl⟩ := hother hkind
      exact ⟨rfl, rfl⟩
  rw [Derived.mapRefs, heffective, hkey.1, hkey.2]

end Compiles

/-! ### Reached workspaces -/

theorem Schema.CompiledFrom.closed (h : s.CompiledFrom w declaration) (hw : w.Sound)
    (hs : s ∈ w.schemas) (hlt : s.key < w.nextKey) : s.Closed w := by
  intro f hf
  have hle : ∀ r : TypeRef, r.schema ≤ s.key → f r = r := fun r hr =>
    hf r (Nat.lt_of_le_of_lt hr hlt)
  refine ⟨fun t ht => (hw s hs t ht).mapRefs_eq hle, ?_⟩
  obtain ⟨v, v', hv, hflat, -, hc⟩ := h
  have hv' := hc.layered hv
  exact hc.derived_mapRefs_eq hv' (hc.flattened hv hv' hflat) hle

theorem Reached.wellFormed (h : Reached w) : w.WellFormed := by
  refine ⟨h.indexed, fun s hs => ?_, fun s hs => ?_⟩
  · obtain ⟨declaration, v, v', -, -, -, hc⟩ := h.compiledFrom s hs
    exact hc.declared.2.2
  · obtain ⟨declaration, hcompiled⟩ := h.compiledFrom s hs
    have hlt := (List.getElem?_eq_some_iff.1 (h.indexed.mem_iff.1 hs)).1
    exact hcompiled.closed h.sound hs hlt

namespace Workspace.WellFormed

variable (hw : w.WellFormed) (hf : ∀ r : TypeRef, r.schema < w.nextKey → f r = r)

include hw hf

theorem type?_mapRefs (r : TypeRef) : (w.type? r).map (UserType.mapRefs f) = w.type? r := by
  rw [type?]
  cases hs : w.schemas[r.schema]? with
  | none => rfl
  | some s =>
      rw [Option.bind_some]
      cases ht : s.types[r.index]? with
      | none => rfl
      | some t =>
          have hclosed := (hw.closed s (List.mem_of_getElem? hs) f hf).1
          rw [Option.map_some, hclosed t (List.mem_of_getElem? ht)]

theorem derivedOf_mapRefs (r : TypeRef) : (w.derivedOf r).mapRefs f = w.derivedOf r := by
  rw [derivedOf]
  cases hs : w.schemas[r.schema]? with
  | none => rfl
  | some s =>
      rw [Option.map_some, Option.getD_some, Schema.derivedOf]
      cases hd : s.derived[r.index]? with
      | none => rfl
      | some d =>
          exact (hw.closed s (List.mem_of_getElem? hs) f hf).2 d (List.mem_of_getElem? hd)

end Workspace.WellFormed

end SchemaGraph
