import SchemaGraph.Proofs.HashedTypes
import SchemaGraph.Proofs.Rebuilding

/-!
Emission after further loads. A load never touches what was published before: it adds schemas at
the end, or leaves the workspace as it was. What is told of a published type or schema is read off
what it leads to, and that was published before it, so later loads make no difference to its code.

The walks of emission take their nodes from the whole workspace and get more of them with every
load. They come to none of the new ones.
-/

namespace SchemaGraph

open Relation RustSource

/-! ### Loads one after another -/

/-- The workspace after loads, each from a reader and for roots of its own; those that fail are
passed over. -/
def Workspace.loadAll (w : Workspace) (calls : List (SourceReader × List SourceId)) : Workspace :=
  calls.foldl (fun w call => (w.load call.1 call.2).workspace) w

/-- Both workspaces are reached; the second is set up like the first and begins with its
schemas. -/
structure Workspace.Precedes (w w' : Workspace) : Prop where
  reached : Reached w
  reached' : Reached w'
  config : w.SameConfig w'
  schemas : w.schemas <+: w'.schemas

namespace Workspace.Precedes

variable {w w' : Workspace} {s : Schema} {r : TypeRef}

theorem refl (h : Reached w) : w.Precedes w :=
  ⟨h, h, ⟨rfl, rfl, rfl⟩, List.prefix_refl _⟩

/-- One load, whether it succeeds or fails. -/
theorem load (h : w.Precedes w') (reader : SourceReader) (roots : List SourceId) :
    w.Precedes (w'.load reader roots).workspace := by
  rcases (w'.load_cases reader roots).1 with ⟨-, heq⟩ | ⟨_, -, -, hgrows, -⟩
  · rwa [heq]
  · exact ⟨h.reached, h.reached'.load reader roots, h.config.trans hgrows.sameConfig,
      h.schemas.trans hgrows.schemas_prefix⟩

/-- Any number of loads. -/
theorem loadAll (h : w.Precedes w') (calls : List (SourceReader × List SourceId)) :
    w.Precedes (w'.loadAll calls) := by
  induction calls generalizing w' with
  | nil => exact h
  | cons call calls ih => exact ih (h.load call.1 call.2)

/-! ### Lookups -/

theorem getElem?_eq (h : w.Precedes w') {key : SchemaKey} (hkey : key < w.nextKey) :
    w'.schemas[key]? = w.schemas[key]? := by
  obtain ⟨rest, heq⟩ := h.schemas
  rw [← heq, List.getElem?_append_left hkey]

theorem getElem?_of_get (h : w.Precedes w') {key : SchemaKey} (hs : w.schemas[key]? = some s) :
    w'.schemas[key]? = some s :=
  (h.getElem?_eq (List.getElem?_eq_some_iff.1 hs).1).trans hs

theorem bySource?_of_get (h : w.Precedes w') {source : SourceId}
    (hs : w.bySource? source = some s) : w'.bySource? source = some s := by
  rw [h.reached.indexed.bySource?_eq_some] at hs
  exact h.reached'.indexed.bySource?_eq_some.2 ⟨h.getElem?_of_get hs.1, hs.2⟩

theorem type?_eq (h : w.Precedes w') (hr : r.schema < w.nextKey) : w'.type? r = w.type? r := by
  rw [type?, type?, h.getElem?_eq hr]

theorem derivedOf_eq (h : w.Precedes w') (hr : r.schema < w.nextKey) :
    w'.derivedOf r = w.derivedOf r := by
  rw [derivedOf, derivedOf, h.getElem?_eq hr]

theorem property?_eq (h : w.Precedes w') {p : PropertyRef} (hp : p.owner.schema < w.nextKey) :
    w'.property? p = w.property? p := by
  rw [property?, property?, TypeLookup.property?, TypeLookup.property?, h.type?_eq hp]

theorem base?_eq (h : w.Precedes w') (hr : r.schema < w.nextKey) : w'.base? r = w.base? r := by
  rw [Workspace.base?, Workspace.base?, TypeLookup.base?, TypeLookup.base?, TypeLookup.composite?,
    TypeLookup.composite?, h.type?_eq hr]

theorem interfacesOf_eq (h : w.Precedes w') (hr : r.schema < w.nextKey) :
    w'.interfacesOf r = w.interfacesOf r := by
  rw [Workspace.interfacesOf, Workspace.interfacesOf, TypeLookup.interfacesOf,
    TypeLookup.interfacesOf, TypeLookup.composite?, TypeLookup.composite?, h.type?_eq hr]

theorem mem_refs_iff (h : w.Precedes w') (hr : r.schema < w.nextKey) : r ∈ w'.refs ↔ r ∈ w.refs := by
  rw [h.reached'.indexed.mem_refs, h.reached.indexed.mem_refs, h.type?_eq hr]

theorem refs_prefix (h : w.Precedes w') : w.refs <+: w'.refs := by
  obtain ⟨rest, heq⟩ := h.schemas
  rw [Workspace.refs, Workspace.refs, ← heq, List.flatMap_append]
  exact List.prefix_append _ _

/-! ### Walks -/

theorem matches_interfaces (h : w.Precedes w') :
    DepthFirst.Matches id (fun r : TypeRef => r.schema < w.nextKey) w.interfacesOf w.refs
      w'.interfacesOf w'.refs where
  injective := Function.injective_id
  closed r _ i hi := by
    have hi := h.reached.layered_flattened.1.wellTyped.hasType_of_supertype
      (TypeLookup.mem_supertypes.2 (.inr hi))
    obtain ⟨_, -, t, ht, -⟩ := hi
    exact lt_nextKey_of_type? ht
  next_eq r hr := by rw [List.map_id, id_eq, h.interfacesOf_eq hr]
  mem_iff r hr := h.mem_refs_iff hr

/-- The bases of a type are those that it had. -/
theorem lineage_eq (h : w.Precedes w') {t : LinkedType} (ht : w.type? r = some t) :
    chain w'.base? w'.refs.length r = chain w.base? w.refs.length r ∧
      ∀ b ∈ chain w.base? w.refs.length r, b.schema < w.nextKey := by
  have hw := h.reached.layered_flattened.1.navigable
  have hlineage := hw.lineage ht
  obtain ⟨hrefs, hnodup⟩ := hw.lineage_published ht hlineage
  have hlt : ∀ b ∈ chain w.base? w.refs.length r, b.schema < w.nextKey := fun b hb => by
    obtain ⟨u, hu⟩ := h.reached.indexed.mem_refs.1 (hrefs hb)
    exact lt_nextKey_of_type? hu
  refine ⟨(hlineage.congr fun b hb => h.base?_eq (hlt b hb)).chain_eq ?_, hlt⟩
  exact (hnodup.subperm hrefs).length_le.trans h.refs_prefix.length_le

theorem implementedInterfaces_eq (h : w.Precedes w') {t : LinkedType} (ht : w.type? r = some t) :
    implementedInterfaces ⟨w', s⟩ r = implementedInterfaces ⟨w, s⟩ r ∧
      ∀ i ∈ implementedInterfaces ⟨w, s⟩ r, i.schema < w.nextKey := by
  obtain ⟨hlineage, hlt⟩ := h.lineage_eq ht
  have hroots : (chain w'.base? w'.refs.length r).flatMap w'.interfacesOf =
      (chain w.base? w.refs.length r).flatMap w.interfacesOf := by
    rw [hlineage]
    exact List.flatMap_congr fun b hb => h.interfacesOf_eq (hlt b hb)
  have hknown : ∀ i ∈ (chain w.base? w.refs.length r).flatMap w.interfacesOf,
      i.schema < w.nextKey := fun i hi => by
    obtain ⟨b, hb, hi⟩ := List.mem_flatMap.1 hi
    exact h.matches_interfaces.closed b (hlt b hb) i hi
  have hwalk := h.matches_interfaces.postorder_eq [] hknown
  simp only [List.map_id] at hwalk
  refine ⟨?_, fun i hi => h.matches_interfaces.known_of_postorder hknown hi⟩
  exact (congrArg (DepthFirst.postorder w'.interfacesOf w'.refs · []) hroots).trans hwalk

theorem effectiveProperties_eq (h : w.Precedes w') (hr : r.schema < w.nextKey) :
    w'.effectiveProperties r = w.effectiveProperties r := by
  rw [effectiveProperties, effectiveProperties, h.derivedOf_eq hr]
  refine List.filterMap_congr fun p hp => h.property?_eq ?_
  have hflat := h.reached.layered_flattened.2.flattens r
  obtain ⟨q, hq⟩ := Option.isSome_iff_exists.1 ((hflat.mem_iff p).1 hp).2
  obtain ⟨t, ht, -⟩ := Option.bind_eq_some_iff.1 hq
  exact lt_nextKey_of_type? ht

theorem matches_inlineTargets (h : w.Precedes w') :
    DepthFirst.Matches id (fun r : TypeRef => r.schema < w.nextKey) (inlineTargets w) w.refs
      (inlineTargets w') w'.refs where
  injective := Function.injective_id
  closed r _ x hx := by
    have hw := h.reached.layered_flattened.1
    obtain ⟨u, hu, -⟩ := hw.struct_of_stores (hw.mem_inlineTargets.1 hx)
    exact lt_nextKey_of_type? hu
  next_eq r hr := by
    rw [List.map_id, id_eq, inlineTargets, inlineTargets, h.effectiveProperties_eq hr]
  mem_iff r hr := h.mem_refs_iff hr

theorem inlines_eq (h : w.Precedes w') (hr : r.schema < w.nextKey) (target : TypeRef) :
    inlines w' r target = inlines w r target := by
  have hroots : ∀ x ∈ [r], x.schema < w.nextKey := by simpa using hr
  have hwalk := h.matches_inlineTargets.reached_eq hroots
  rw [List.map_id, List.map_id] at hwalk
  rw [inlines, inlines, hwalk, Bool.eq_iff_iff, List.any_eq_true, List.any_eq_true]
  refine exists_congr fun x => and_congr_right fun hx => ?_
  have hmem := h.reached.indexed.mem_refs.1 (DepthFirst.reached_subset _ hx)
  obtain ⟨t, ht⟩ := hmem
  rw [inlineTargets, inlineTargets, h.effectiveProperties_eq (lt_nextKey_of_type? ht)]

theorem matches_importKeys (h : w.Precedes w') :
    DepthFirst.Matches id (· < w.nextKey) (importKeys w) (List.range w.schemas.length)
      (importKeys w') (List.range w'.schemas.length) where
  injective := Function.injective_id
  closed k hk b hb := by
    have himports : w.Imports k b := leads_importKeys w ▸ hb
    exact (himports.lt h.reached.indexed h.reached.compiledFrom).trans hk
  next_eq k hk := by rw [List.map_id, id_eq, importKeys, importKeys, h.getElem?_eq hk]
  mem_iff k hk := by
    rw [id_eq, List.mem_range, List.mem_range]
    exact iff_of_true (hk.trans_le h.schemas.length_le) hk

theorem hasRegistry_eq (h : w.Precedes w') {key : SchemaKey} (hkey : key < w.nextKey) :
    hasRegistry w' key = hasRegistry w key := by
  have hroots : ∀ k ∈ [key], k < w.nextKey := by simpa using hkey
  have hwalk := h.matches_importKeys.reached_eq hroots
  rw [List.map_id, List.map_id] at hwalk
  rw [hasRegistry, hasRegistry, hwalk, Bool.eq_iff_iff, List.any_eq_true, List.any_eq_true]
  refine exists_congr fun k => and_congr_right fun hk => ?_
  rw [h.getElem?_eq (List.mem_range.1 (DepthFirst.reached_subset _ hk))]

/-! ### Keys -/

theorem primaryKey?_eq (h : w.Precedes w') {t : LinkedType} (ht : w.type? r = some t)
    (hentity : t.kind = .entity) : w'.primaryKey? r = w.primaryKey? r := by
  obtain ⟨root, u, -, howner, -, hu, -⟩ :=
    h.reached.keyed.exists_key h.reached.layered_flattened.1.wellTyped ht hentity
  rw [primaryKey?, primaryKey?, h.derivedOf_eq (lt_nextKey_of_type? ht), howner]
  exact congrArg Derived.keyLayout (h.derivedOf_eq (lt_nextKey_of_type? hu))

/-! ### Properties -/

section Properties

variable {owner : TypeRef} {p : LinkedProperty} {bound : SchemaKey}

theorem primitiveType_eq (h : w.Precedes w') (id : PrimitiveId) :
    primitiveType ⟨w', s⟩ id = primitiveType ⟨w, s⟩ id := by
  simp only [primitiveType, h.config.primitives]

theorem isHashable_eq (h : w.Precedes w') (id : PrimitiveId) :
    isHashable ⟨w', s⟩ id = isHashable ⟨w, s⟩ id := by
  simp only [isHashable, h.config.primitives]

theorem pathTo_eq (h : w.Precedes w') (hr : r.schema < w.nextKey) (id : String) :
    pathTo ⟨w', s⟩ r id = pathTo ⟨w, s⟩ r id := by
  simp only [pathTo, h.getElem?_eq hr]

theorem nameOf_eq (h : w.Precedes w') (hr : r.schema < w.nextKey) :
    nameOf ⟨w', s⟩ r = nameOf ⟨w, s⟩ r := by
  simp only [nameOf, TypeLookup.typeName, h.type?_eq hr]

theorem typePath_eq (h : w.Precedes w') (hr : r.schema < w.nextKey) :
    typePath ⟨w', s⟩ r = typePath ⟨w, s⟩ r := by
  simp only [typePath, h.nameOf_eq hr, h.pathTo_eq hr]

/-- A sound leaf has the code that it had; all that can be said of other leaves is that they do not
occur. -/
theorem leafType_eq (h : w.Precedes w') {inPlace : Bool} {t : DataType} {role : PropertyRole}
    (ht : t.SoundLeaf w bound role) :
    leafType ⟨w', s⟩ owner p inPlace t = leafType ⟨w, s⟩ owner p inPlace t := by
  have hlt : ∀ r, t.userType? = some r → r.schema < w.nextKey := fun r hr => by
    obtain ⟨k, -, -, u, hu, -⟩ := ht.handle r hr
    exact lt_nextKey_of_type? hu
  cases t with
  | primitive id => exact h.primitiveType_eq id
  | void => exact absurd rfl ht.not_void
  | generic shape => exact absurd rfl (ht.not_generic shape)
  | container shape key value => exact absurd rfl (ht.not_container shape key value)
  | entity r | struct r | interface r | enum r =>
      have hr := hlt r rfl
      simp only [leafType, h.nameOf_eq hr, h.pathTo_eq hr, h.typePath_eq hr, h.inlines_eq hr]

theorem propertyType_eq (h : w.Precedes w') (hp : p.type.Sound w bound p.role) :
    propertyType ⟨w', s⟩ owner p = propertyType ⟨w, s⟩ owner p := by
  have hleaf : ∀ inPlace, leafType ⟨w', s⟩ owner p inPlace p.type.leaf =
      leafType ⟨w, s⟩ owner p inPlace p.type.leaf := fun _ => h.leafType_eq hp.leaf
  obtain ⟨name, role, type, default, metadata⟩ := p
  cases type with
  | container shape key value =>
      simp only [DataType.leaf] at hleaf
      simp only [propertyType, hleaf, h.primitiveType_eq]
  | primitive id | generic shape | void | entity r | struct r | interface r | enum r =>
      exact hleaf true

theorem propertyNotes_eq (h : w.Precedes w') : propertyNotes ⟨w', s⟩ = propertyNotes ⟨w, s⟩ := by
  funext p
  simp only [propertyNotes, h.isHashable_eq]

end Properties

/-! ### Types -/

section Types

variable {t : LinkedType} {c : LinkedComposite}

theorem structFields_eq (h : w.Precedes w') {ps : List LinkedProperty}
    (hps : ∀ p ∈ ps, ∃ bound, p.type.Sound w bound p.role) :
    structFields ⟨w', s⟩ r ps = structFields ⟨w, s⟩ r ps := by
  refine foldlM_congr (fun done p hp => ?_) []
  obtain ⟨bound, hsound⟩ := hps p hp
  simp only [structField, h.propertyType_eq hsound]

theorem keyItems_eq (h : w.Precedes w') (ht : w.type? r = some t) (hentity : t.kind = .entity)
    (name : String) : keyItems ⟨w', s⟩ r t name = keyItems ⟨w, s⟩ r t name := by
  simp only [keyItems, h.primaryKey?_eq ht hentity, h.primitiveType_eq]

theorem keyNotes_eq (h : w.Precedes w') (ht : w.type? r = some t) (hentity : t.kind = .entity) :
    keyNotes ⟨w', s⟩ r = keyNotes ⟨w, s⟩ r := by
  simp only [keyNotes, h.primaryKey?_eq ht hentity]

theorem interfaceProperties_eq (h : w.Precedes w') (hr : r.schema < w.nextKey) :
    interfaceProperties ⟨w', s⟩ r = interfaceProperties ⟨w, s⟩ r := by
  simp only [interfaceProperties, TypeLookup.properties, h.type?_eq hr]

theorem interfaceImpl_eq (h : w.Precedes w') (hr : r.schema < w.nextKey) (owner : TypeRef)
    (name : String) : interfaceImpl ⟨w', s⟩ owner name r = interfaceImpl ⟨w, s⟩ owner name r := by
  rw [interfaceImpl, interfaceImpl, h.typePath_eq hr, h.interfaceProperties_eq hr]
  refine bind_congr fun path => congrArg (· >>= _) (mapM_congr fun p hp => ?_)
  obtain ⟨k, hk⟩ := List.getElem?_of_mem hp
  have hsound := h.reached.layered_flattened.1.sound_property
    ((TypeLookup.property?_mk _ r k).trans hk)
  simp only [h.propertyType_eq hsound]

theorem baseDocs_eq (h : w.Precedes w') {b : Option TypeRef}
    (hb : ∀ r, b = some r → r.schema < w.nextKey) : baseDocs ⟨w', s⟩ b = baseDocs ⟨w, s⟩ b := by
  cases b with
  | none => rfl
  | some r => simp only [baseDocs, h.type?_eq (hb r rfl)]

theorem compositeItems_eq (h : w.Precedes w') (ht : w.type? r = some t)
    (hbody : t.body = .composite c) (derives : List String) :
    compositeItems ⟨w', s⟩ derives r t c = compositeItems ⟨w, s⟩ derives r t c := by
  have hw := h.reached.layered_flattened.1
  have hr := lt_nextKey_of_type? ht
  have hbase : baseDocs ⟨w', s⟩ c.base = baseDocs ⟨w, s⟩ c.base :=
    h.baseDocs_eq fun b hb => by
      obtain ⟨-, -, u, hu, -⟩ := (hw.sound.composite hw.indexed.positioned ht hbody).base b hb
      exact lt_nextKey_of_type? hu
  have hfields : structFields ⟨w', s⟩ r (w.effectiveProperties r) =
      structFields ⟨w, s⟩ r (w.effectiveProperties r) :=
    h.structFields_eq fun p hp => hw.sound_effective hp
  obtain ⟨himplemented, hlt⟩ := h.implementedInterfaces_eq (s := s) ht
  have himpls : ∀ name, (implementedInterfaces ⟨w', s⟩ r).mapM (interfaceImpl ⟨w', s⟩ r name) =
      (implementedInterfaces ⟨w, s⟩ r).mapM (interfaceImpl ⟨w, s⟩ r name) := fun name => by
    rw [himplemented]
    exact mapM_congr fun i hi => h.interfaceImpl_eq (hlt i hi) r name
  rw [compositeItems, compositeItems, hbase, h.effectiveProperties_eq hr, hfields]
  simp only [himpls]
  by_cases hentity : t.kind = .entity
  · simp only [h.keyItems_eq ht hentity]
  · simp only [if_neg hentity]

theorem compositeNotes_eq (h : w.Precedes w') (ht : w.type? r = some t) :
    compositeNotes ⟨w', s⟩ r t = compositeNotes ⟨w, s⟩ r t := by
  obtain ⟨himplemented, hlt⟩ := h.implementedInterfaces_eq (s := s) ht
  have hinherited : (implementedInterfaces ⟨w, s⟩ r).flatMap
        (fun i => (interfaceProperties ⟨w', s⟩ i).flatMap (propertyNotes ⟨w, s⟩)) =
      (implementedInterfaces ⟨w, s⟩ r).flatMap
        (fun i => (interfaceProperties ⟨w, s⟩ i).flatMap (propertyNotes ⟨w, s⟩)) :=
    List.flatMap_congr fun i hi => by rw [h.interfaceProperties_eq (hlt i hi)]
  rw [compositeNotes, compositeNotes, himplemented, h.propertyNotes_eq, hinherited,
    h.effectiveProperties_eq (lt_nextKey_of_type? ht)]
  by_cases hentity : t.kind = .entity
  · rw [h.keyNotes_eq ht hentity]
  · rw [if_neg hentity, if_neg hentity]

theorem interfaceItems_eq (h : w.Precedes w') (ht : w.type? r = some t)
    (hbody : t.body = .composite c) :
    interfaceItems ⟨w', s⟩ r t c = interfaceItems ⟨w, s⟩ r t c := by
  have hw := h.reached.layered_flattened.1
  have hc := hw.sound.composite hw.indexed.positioned ht hbody
  have hsupertraits : c.interfaces.mapM (typePath ⟨w', s⟩) = c.interfaces.mapM (typePath ⟨w, s⟩) :=
    mapM_congr fun i hi => by
      obtain ⟨-, u, hu, -⟩ := hc.interfaces i hi
      exact h.typePath_eq (lt_nextKey_of_type? hu)
  rw [interfaceItems, interfaceItems, hsupertraits]
  refine bind_congr fun name => bind_congr fun supertraits => congrArg (· >>= _) ?_
  exact mapM_congr fun p hp => by simp only [h.propertyType_eq (hc.properties p hp)]

theorem enumItems_eq (h : w.Precedes w') (e : EnumBody) :
    enumItems ⟨w', s⟩ t e = enumItems ⟨w, s⟩ t e := by
  simp only [enumItems, h.config.primitives]

/-- The code for a published type is what it was, or is still refused for the same reason. -/
theorem typeItems_eq (h : w.Precedes w') (ht : w.type? r = some t) (derives : List String) :
    typeItems ⟨w', s⟩ derives r t = typeItems ⟨w, s⟩ derives r t := by
  cases hbody : t.body with
  | enum e =>
      cases hkind : t.kind <;>
        simp only [typeItems, hkind, UserType.composite?, UserType.enum?, hbody, ofBody,
          h.enumItems_eq]
  | composite c =>
      cases hkind : t.kind <;>
        simp only [typeItems, hkind, UserType.composite?, UserType.enum?, hbody, ofBody,
          h.compositeItems_eq ht hbody, h.interfaceItems_eq ht hbody]

theorem typeNotes_eq (h : w.Precedes w') (ht : w.type? r = some t) :
    typeNotes ⟨w', s⟩ r t = typeNotes ⟨w, s⟩ r t := by
  cases hkind : t.kind with
  | entity | struct => simp only [typeNotes, hkind, h.compositeNotes_eq ht]
  | interface => simp only [typeNotes, hkind, interfaceNotes, h.propertyNotes_eq]
  | enum => simp only [typeNotes, hkind]

end Types

/-! ### Registries -/

theorem imports_eq (h : w.Precedes w') (hs : w.schemas[s.key]? = some s) :
    (SchemaView.mk w' s).imports = (SchemaView.mk w s).imports := by
  refine List.filterMap_congr fun i hi => ?_
  by_cases hself : i.2 = s.key
  · simp only [if_pos hself]
  · have himports : w.Imports s.key i.2 := ⟨s, hs, List.mem_map_of_mem hi, hself⟩
    have hlt := himports.lt h.reached.indexed h.reached.compiledFrom
    simp only [h.getElem?_eq (hlt.trans (List.getElem?_eq_some_iff.1 hs).1)]

theorem registryImports_eq (h : w.Precedes w') (hs : w.schemas[s.key]? = some s) :
    registryImports ⟨w', s⟩ = registryImports ⟨w, s⟩ := by
  rw [registryImports, registryImports, h.imports_eq hs]
  refine List.filter_congr fun i hi => h.hasRegistry_eq ?_
  exact (List.getElem?_eq_some_iff.1 (h.reached.key_of_mem_imports rfl hi)).1

theorem registryItems?_eq (h : w.Precedes w') (hs : w.schemas[s.key]? = some s) :
    registryItems? ⟨w', s⟩ = registryItems? ⟨w, s⟩ := by
  simp only [registryItems?, h.registryImports_eq hs]

theorem registryNotes_eq (h : w.Precedes w') (hs : w.schemas[s.key]? = some s) :
    registryNotes ⟨w', s⟩ = registryNotes ⟨w, s⟩ := by
  refine List.flatMap_congr fun e he => ?_
  obtain ⟨hmem, hconcrete⟩ := List.mem_filter.1 he
  obtain ⟨hentity, -⟩ := isConcreteEntity_iff.1 hconcrete
  simp only [h.primaryKey?_eq (type?_of_mem_zip hs hmem) hentity]

/-! ### Reports -/

theorem emitType_eq (h : w.Precedes w') {t : LinkedType} (ht : w.type? r = some t)
    (derives : List String) :
    (backend derives).emitType ⟨w', s⟩ r t = (backend derives).emitType ⟨w, s⟩ r t := by
  simp only [backend, h.typeItems_eq ht, h.typeNotes_eq ht, file, SchemaView.failure]

theorem emitSchema_eq (h : w.Precedes w') (hs : w.schemas[s.key]? = some s)
    (derives : List String) :
    (backend derives).emitSchema ⟨w', s⟩ = (backend derives).emitSchema ⟨w, s⟩ := by
  simp only [backend, h.registryItems?_eq hs, h.registryNotes_eq hs, file, SchemaView.failure]

theorem schemaResults_eq (h : w.Precedes w') (hs : w.schemas[s.key]? = some s)
    (derives : List String) :
    (backend derives).schemaResults ⟨w', s⟩ = (backend derives).schemaResults ⟨w, s⟩ := by
  have hresults : (s.types.mapIdx fun i t => (backend derives).typeResult ⟨w', s⟩ ⟨s.key, i⟩ t) =
      s.types.mapIdx fun i t => (backend derives).typeResult ⟨w, s⟩ ⟨s.key, i⟩ t := by
    refine List.mapIdx_eq_mapIdx_iff.2 fun i hi => ?_
    have ht : w.type? ⟨s.key, i⟩ = some s.types[i] := by
      rw [type?, hs]
      exact List.getElem?_eq_getElem hi
    simp only [Backend.typeResult, h.emitType_eq ht]
  simp only [Backend.schemaResults, hresults, Backend.schemaResult?, h.emitSchema_eq hs]

end Workspace.Precedes

/-- However many loads follow, from whatever readers, and whether they succeed or fail: the report
on published units stays the same, to the last character of code and message. -/
theorem reports_survive_loads {w : Workspace} (h : Reached w) (derives : List String)
    {units : List SourceId} (hunits : ∀ u ∈ units, (w.bySource? u).isSome)
    (calls : List (SourceReader × List SourceId)) :
    (backend derives).emit (w.loadAll calls) units = (backend derives).emit w units := by
  have hprecedes := (Workspace.Precedes.refl h).loadAll calls
  refine congrArg (Report.mk _) (List.flatMap_congr fun u hu => ?_)
  obtain ⟨s, hs⟩ := Option.isSome_iff_exists.1 (hunits u hu)
  rw [hs, hprecedes.bySource?_of_get hs]
  exact hprecedes.schemaResults_eq (h.indexed.bySource?_eq_some.1 hs).1 derives

/-- A schema with an entity that implements an interface of its own, a schema with an entity that
derives from it, and a schema with a property of an unknown type. -/
def growingSources : SourceTable :=
  [("a", { name := some "A", types := [
      .interface { name := some "Named", properties := [
        { name := some "label", typeText := some "Note?" }] },
      .struct { name := some "Note", properties := [
        { name := some "next", typeText := some "Note?" }] },
      .entity { name := some "E", interfaces := ["Named"], properties := [
        { name := some "id", typeText := some "int", role := .primaryKey }] }] }),
    ("b", { name := some "B", imports := [{ source := "a" }], types := [
      .entity { name := some "F", base := some "A.E" }] }),
    ("c", { name := some "C", imports := [{ source := "b" }], types := [
      .struct { name := some "S", properties := [
        { name := some "x", typeText := some "None" }] }] })]

def growingWorkspace : Workspace :=
  (({ primitives := [.builtin "int" .int32] } : Workspace).load growingSources.reader
    ["a"]).workspace

/-- Two loads: the first adds a schema, the second fails. -/
def growingCalls : List (SourceReader × List SourceId) :=
  [(growingSources.reader, ["b"]), (growingSources.reader, ["c"])]

/-- All three types of the first schema have code, and the report on them stays the same. -/
theorem reports_survive_loads_growing :
    Reached growingWorkspace ∧ (∀ u ∈ ["a"], (growingWorkspace.bySource? u).isSome) ∧
      (growingWorkspace.bySource? "a").map (fun s => s.types.mapIdx fun i t =>
        (typeItems ⟨growingWorkspace, s⟩ [] ⟨0, i⟩ t).isOk) = some [true, true, true] ∧
      (growingWorkspace.load growingSources.reader ["c"]).result.toOption = none ∧
      (growingWorkspace.loadAll growingCalls).schemas.length = 2 ∧
      (backend []).emit (growingWorkspace.loadAll growingCalls) ["a"] =
        (backend []).emit growingWorkspace ["a"] := by
  have hreached : Reached growingWorkspace :=
    (Reached.empty [.builtin "int" .int32] {} none).load growingSources.reader ["a"]
  -- the four facts are found in one evaluation, which goes through the first load once
  have hfound : ((growingWorkspace.bySource? "a").map (fun s => s.types.mapIdx fun i t =>
        (typeItems ⟨growingWorkspace, s⟩ [] ⟨0, i⟩ t).isOk),
      (growingWorkspace.load growingSources.reader ["c"]).result.toOption,
      (growingWorkspace.loadAll growingCalls).schemas.length) =
      (some [true, true, true], none, 2) := by cbv
  simp only [Prod.mk.injEq] at hfound
  obtain ⟨hitems, hfails, hcount⟩ := hfound
  have hunits : ∀ u ∈ ["a"], (growingWorkspace.bySource? u).isSome := by
    rw [List.forall_mem_singleton, ← Option.isSome_map, hitems]
    rfl
  exact ⟨hreached, hunits, hitems, hfails, hcount,
    reports_survive_loads hreached [] hunits growingCalls⟩

end SchemaGraph
