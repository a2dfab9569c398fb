import SchemaGraph.Proofs.EntityKeys

/-!
Types under other handles. A map of handles is carried through everything that holds handles; if one
lookup shows under the new handles what another shows under the old ones, then all that is told of
types through their handles agrees as well.

Hierarchies are gathered in the same way on both sides, so that what is derived from them is the
same up to the map.
-/

namespace SchemaGraph

open Relation

/-! ### Maps of handles -/

def PropertyRef.mapRefs (f : TypeRef → TypeRef) (p : PropertyRef) : PropertyRef :=
  { p with owner := f p.owner }

def DataType.mapRefs (f : TypeRef → TypeRef) : DataType → DataType
  | .primitive id => .primitive id
  | .generic shape => .generic shape
  | .container shape key value => .container shape key (value.mapRefs f)
  | .void => .void
  | .entity r => .entity (f r)
  | .struct r => .struct (f r)
  | .interface r => .interface (f r)
  | .enum r => .enum (f r)

def Property.mapRefs (f : TypeRef → TypeRef) (p : LinkedProperty) : LinkedProperty :=
  { p with type := p.type.mapRefs f }

def Composite.mapRefs (f : TypeRef → TypeRef) (c : LinkedComposite) : LinkedComposite :=
  { c with
    base := c.base.map f
    interfaces := c.interfaces.map f
    properties := c.properties.map (Property.mapRefs f) }

def TypeBody.mapRefs (f : TypeRef → TypeRef) :
    TypeBody (Option TypeRef) (List TypeRef) DataType →
      TypeBody (Option TypeRef) (List TypeRef) DataType
  | .composite c => .composite (c.mapRefs f)
  | .enum e => .enum e

def UserType.mapRefs (f : TypeRef → TypeRef) (t : LinkedType) : LinkedType :=
  { t with body := t.body.mapRefs f }

def KeyComponent.mapRefs (f : TypeRef → TypeRef) (c : KeyComponent) : KeyComponent :=
  { c with property := c.property.mapRefs f }

def KeyLayout.mapRefs (f : TypeRef → TypeRef) (l : KeyLayout) : KeyLayout where
  entity := f l.entity
  components := l.components.map (KeyComponent.mapRefs f)

def Derived.mapRefs (f : TypeRef → TypeRef) (d : Derived) : Derived where
  effective := d.effective.map (PropertyRef.mapRefs f)
  keyOwner := d.keyOwner.map f
  keyLayout := d.keyLayout.map (KeyLayout.mapRefs f)

variable {f : TypeRef → TypeRef} {known : TypeRef → Prop}

theorem DataType.userType?_mapRefs (t : DataType) :
    (t.mapRefs f).userType? = t.userType?.map f := by
  cases t <;> rfl

theorem DataType.isEntity_mapRefs (t : DataType) : (t.mapRefs f).isEntity = t.isEntity := by
  cases t <;> rfl

theorem DataType.mapRefs_eq_void {t : DataType} : t.mapRefs f = .void ↔ t = .void := by
  cases t <;> simp [mapRefs]

theorem TypeKind.mapRefs_dataType (k : TypeKind) (r : TypeRef) :
    (k.dataType r).mapRefs f = k.dataType (f r) := by
  cases k <;> rfl

theorem UserType.kind_mapRefs (t : LinkedType) : (t.mapRefs f).kind = t.kind := by
  obtain ⟨name, ns, kind, body, metadata⟩ := t
  cases body <;> rfl

theorem UserType.composite?_mapRefs (t : LinkedType) :
    (t.mapRefs f).composite? = t.composite?.map (Composite.mapRefs f) := by
  obtain ⟨name, ns, kind, body, metadata⟩ := t
  cases body <;> rfl

theorem UserType.properties_mapRefs (t : LinkedType) :
    (t.mapRefs f).properties = t.properties.map (Property.mapRefs f) := by
  obtain ⟨name, ns, kind, body, metadata⟩ := t
  cases body <;> rfl

/-! ### References -/

namespace Resolution

variable {w w' : Workspace} {d d' : Draft}

/-- Paths that stand for a type in one draft stand in another for the type with mapped handles. -/
structure Follows (f : TypeRef → TypeRef) (w : Workspace) (d : Draft) (w' : Workspace)
    (d' : Draft) : Prop where
  primitives : w'.primitives = w.primitives
  path : ∀ owner path t, resolvePath w d owner path = .ok t →
    resolvePath w' d' owner path = .ok (t.mapRefs f)

namespace Follows

variable {site : Site} {path : TypePath}

theorem supertype (h : Follows f w d w' d') {owner : String} {expected : TypeKind} {r : TypeRef}
    (hr : resolveSupertype w d owner expected path = .ok r) :
    resolveSupertype w' d' owner expected path = .ok (f r) := by
  obtain ⟨t, ht, htype, hkind⟩ := resolveSupertype_eq_ok.1 hr
  refine resolveSupertype_eq_ok.2 ⟨_, h.path owner path t ht, ?_, ?_⟩
  · rw [DataType.userType?_mapRefs, htype]
    rfl
  · rw [hkind, TypeKind.mapRefs_dataType]

theorem value (h : Follows f w d w' d') {t : DataType} (ht : resolveValue w d site path = .ok t) :
    resolveValue w' d' site path = .ok (t.mapRefs f) := by
  obtain ⟨hpath, hvoid, hrole⟩ := resolveValue_eq_ok.1 ht
  refine resolveValue_eq_ok.2 ⟨h.path _ path t hpath, ?_, ?_⟩
  · rwa [ne_eq, DataType.mapRefs_eq_void]
  · rwa [DataType.isEntity_mapRefs]

theorem mapKey (h : Follows f w d w' d') {id : PrimitiveId}
    (hid : resolveMapKey w d site path = .ok id) : resolveMapKey w' d' site path = .ok id := by
  obtain ⟨hpath, p, hp, hkey⟩ := resolveMapKey_eq_ok.1 hid
  refine resolveMapKey_eq_ok.2 ⟨h.path _ path _ hpath, p, ?_, hkey⟩
  rwa [h.primitives]

theorem expr (h : Follows f w d w' d') {e : TypeExpr} {t : DataType}
    (ht : resolveExpr w d site e = .ok t) : resolveExpr w' d' site e = .ok (t.mapRefs f) := by
  cases e with
  | named path => exact h.value ht
  | container shape key value =>
      rw [resolveExpr] at ht ⊢
      obtain ⟨key', hkey, ht⟩ := bind_eq_ok.1 ht
      obtain ⟨v, hv, ht⟩ := bind_eq_ok.1 ht
      obtain rfl := pure_eq_ok.1 ht
      refine bind_eq_ok.2 ⟨key', ?_, bind_eq_ok.2 ⟨_, h.value hv, rfl⟩⟩
      cases key with
      | none => exact hkey
      | some path =>
          obtain ⟨id, hid, rfl⟩ := map_eq_ok.1 hkey
          exact map_eq_ok.2 ⟨id, h.mapKey hid, rfl⟩

end Follows

end Resolution

section ResolvesTo

variable {w w' : Workspace} {d d' : Draft} {type : String}

theorem Property.ResolvesTo.mapRefs (h : Resolution.Follows f w d w' d')
    {p : Property TypeBinding} {q : LinkedProperty} (hq : p.ResolvesTo w d type q) :
    p.ResolvesTo w' d' type (q.mapRefs f) where
  name := hq.name
  role := hq.role
  default := hq.default
  metadata := hq.metadata
  type e he := h.expr (hq.type e he)

theorem Composite.ResolvesTo.mapRefs (h : Resolution.Follows f w d w' d') {kind : TypeKind}
    {c : Composite BaseBinding InterfacesBinding TypeBinding} {l : LinkedComposite}
    (hl : c.ResolvesTo w d type kind l) : c.ResolvesTo w' d' type kind (l.mapRefs f) := by
  refine ⟨hl.isAbstract, fun path hpath => ?_, fun paths hpaths => ?_, ?_⟩
  · have hbase := hl.base path hpath
    show path.mapM (Resolution.resolveSupertype w' d' type kind) =
      Except.ok (l.base.map f)
    cases path with
    | none =>
        rw [← pure_eq_ok.1 hbase]
        rfl
    | some path =>
        obtain ⟨r, hr, hr'⟩ := map_eq_ok.1 hbase
        rw [← hr']
        exact map_eq_ok.2 ⟨_, h.supertype hr, rfl⟩
  · have hinterfaces := mapM_map_ok (g := id) (fun path _ r hr => h.supertype hr)
      (hl.interfaces paths hpaths)
    rwa [List.map_id] at hinterfaces
  · exact List.forall₂_map_right_iff.2 (hl.properties.imp fun p q hq => hq.mapRefs h)

theorem DraftType.ResolvesTo.mapRefs (h : Resolution.Follows f w d w' d') {t : DraftType}
    {l : LinkedType} (hl : t.ResolvesTo w d l) : t.ResolvesTo w' d' (l.mapRefs f) := by
  refine ⟨hl.name, hl.namespace, hl.kind, hl.metadata, ?_⟩
  obtain ⟨name, ns, kind, body, metadata⟩ := t
  obtain ⟨name', ns', kind', body', metadata'⟩ := l
  cases hl.body with
  | composite hc => exact .composite (hc.mapRefs h)
  | enum e => exact .enum e

end ResolvesTo

/-! ### Lookups -/

namespace TypeLookup

/-- The second lookup shows the known types of the first under other handles. -/
def Renames (f : TypeRef → TypeRef) (known : TypeRef → Prop) (look look' : TypeLookup) : Prop :=
  ∀ r, known r → look' (f r) = (look r).map (UserType.mapRefs f)

namespace Renames

variable {look look' : TypeLookup} {r : TypeRef}

theorem composite?_eq (h : Renames f known look look') (hr : known r) :
    look'.composite? (f r) = (look.composite? r).map (Composite.mapRefs f) := by
  rw [composite?, composite?, h r hr]
  cases look r with
  | none => rfl
  | some t => exact UserType.composite?_mapRefs t

theorem base?_eq (h : Renames f known look look') (hr : known r) :
    look'.base? (f r) = (look.base? r).map f := by
  rw [base?, base?, h.composite?_eq hr]
  cases look.composite? r <;> rfl

theorem interfacesOf_eq (h : Renames f known look look') (hr : known r) :
    look'.interfacesOf (f r) = (look.interfacesOf r).map f := by
  rw [interfacesOf, interfacesOf, h.composite?_eq hr]
  cases look.composite? r <;> rfl

theorem supertypes_eq (h : Renames f known look look') (hr : known r) :
    look'.supertypes (f r) = (look.supertypes r).map f := by
  rw [supertypes, supertypes, h.base?_eq hr, h.interfacesOf_eq hr, List.map_append,
    Option.toList_map]

theorem properties_eq (h : Renames f known look look') (hr : known r) :
    look'.properties (f r) = (look.properties r).map (Property.mapRefs f) := by
  rw [properties, properties, h r hr]
  cases look r with
  | none => rfl
  | some t => exact UserType.properties_mapRefs t

theorem ownProperties_eq (h : Renames f known look look') (hr : known r) :
    look'.ownProperties (f r) = (look.ownProperties r).map (PropertyRef.mapRefs f) := by
  rw [ownProperties, ownProperties, h.properties_eq hr, List.length_map, List.map_map]
  rfl

theorem propertyName_eq (h : Renames f known look look') {p : PropertyRef} (hp : known p.owner) :
    look'.propertyName (p.mapRefs f) = look.propertyName p := by
  rw [propertyName, propertyName, property?, property?, PropertyRef.mapRefs, h p.owner hp]
  cases look p.owner with
  | none => rfl
  | some t =>
      simp only [Option.map_some, Option.bind_some, UserType.properties_mapRefs, List.getElem?_map]
      cases t.properties[p.index]? <;> rfl

end Renames

end TypeLookup

/-! ### Scopes -/

theorem Linked.finish_of_derived {w : Workspace} {u : Linked} {derived : List Derived}
    (hcycle : (Scope.mk w u).hierarchyCycle? = none)
    (hderived : u.types.zipIdx.mapM (fun t => (Scope.mk w u).derive t.2 t.1) = .ok derived) :
    u.finish w = .ok { u with derived } := by
  simp only [finish, hcycle]
  exact bind_eq_ok.2 ⟨derived, hderived, rfl⟩

/-- The handles of a scope are those that stand for a type. -/
theorem Scope.mem_refs {s : Scope} (hw : s.workspace.Indexed)
    (hkey : s.unit.key = s.workspace.nextKey) {r : TypeRef} :
    r ∈ s.refs ↔ ∃ t, s.type? r = some t := by
  rw [refs, List.mem_append, hw.mem_refs]
  have hunit : r ∈ s.unit.refs ↔ r.schema = s.unit.key ∧ ∃ t, s.unit.types[r.index]? = some t := by
    simp only [SchemaOf.refs, List.mem_map, List.mem_range]
    constructor
    · rintro ⟨i, hi, rfl⟩
      exact ⟨rfl, _, List.getElem?_eq_getElem hi⟩
    · rintro ⟨hschema, t, ht⟩
      exact ⟨r.index, (List.getElem?_eq_some_iff.1 ht).1, by rw [← hschema]⟩
  rw [hunit]
  by_cases hown : r.schema = s.unit.key
  · rw [type?_own hown]
    constructor
    · rintro (⟨t, ht⟩ | ⟨-, ht⟩)
      · have hlt := Workspace.lt_nextKey_of_type? ht
        rw [hown, hkey] at hlt
        exact absurd hlt (Nat.lt_irrefl _)
      · exact ht
    · exact fun ht => .inr ⟨hown, ht⟩
  · rw [type?_published hown]
    simp [hown]

/-! ### Hierarchies -/

namespace Scope

/-- The second scope shows the known types of the first under other handles: those of its unit as
types of its unit, and published ones with what has been derived from them. -/
structure Renames (f : TypeRef → TypeRef) (known : TypeRef → Prop) (s s' : Scope) : Prop where
  injective : Function.Injective f
  primitives : s'.workspace.primitives = s.workspace.primitives
  type? : TypeLookup.Renames f known s.type? s'.type?
  closed : ∀ r, known r → ∀ x ∈ s.supertypes r, known x
  mem_refs : ∀ r, known r → (f r ∈ s'.refs ↔ r ∈ s.refs)
  own_iff : ∀ r, known r → ((f r).schema = s'.unit.key ↔ r.schema = s.unit.key)
  derivedOf : ∀ r, known r → r.schema ≠ s.unit.key →
    s'.workspace.derivedOf (f r) = (s.workspace.derivedOf r).mapRefs f
  owners : ∀ r, known r → r.schema ≠ s.unit.key →
    ∀ p ∈ (s.workspace.derivedOf r).effective, known p.owner

namespace Renames

variable {s s' : Scope} {w : Workspace} {r : TypeRef}

theorem base?_eq (h : Renames f known s s') (hr : known r) : s'.base? (f r) = (s.base? r).map f :=
  h.type?.base?_eq hr

theorem known_base (h : Renames f known s s') (hr : known r) {b : TypeRef}
    (hb : s.base? r = some b) : known b :=
  h.closed r hr b (TypeLookup.mem_supertypes.2 (.inl hb))

/-- The base chain of a renamed type is the renamed base chain. -/
theorem map_lineage (h : Renames f known s s') (hr : known r) {rs : List TypeRef}
    (hrs : Lineage s.base? r rs) : Lineage s'.base? (f r) (rs.map f) ∧ ∀ x ∈ rs, known x := by
  induction hrs with
  | @last a hnone =>
      refine ⟨.last ?_, by simpa using hr⟩
      rw [h.base?_eq hr, hnone]
      rfl
  | @step a b bs hsome _ ih =>
      obtain ⟨hlineage, hknown⟩ := ih (h.known_base hr hsome)
      refine ⟨.step ?_ hlineage, List.forall_mem_cons.2 ⟨hr, hknown⟩⟩
      rw [h.base?_eq hr, hsome]
      rfl

theorem lineage_eq (h : Renames f known s s') (hs : s.Shows w) (hw : w.Navigable) (hr : known r)
    {t : LinkedType} (ht : w.type? r = some t) :
    s'.lineage (f r) = (s.lineage r).map f ∧ ∀ x ∈ s.lineage r, known x := by
  have hlineage := hs.lineage hw ht
  have hbase : s.base? = w.base? := by
    rw [Scope.base?, hs.type?_eq]
  obtain ⟨hmap, hknown⟩ := h.map_lineage hr (hbase ▸ hlineage)
  obtain ⟨hrefs, hnodup⟩ := hw.lineage_published ht hlineage
  have hrefs' : (s.lineage r).map f ⊆ s'.refs := by
    intro x hx
    obtain ⟨y, hy, rfl⟩ := List.mem_map.1 hx
    rw [h.mem_refs y (hknown y hy), hs.refs_eq]
    exact hrefs hy
  have hlen := ((hnodup.map h.injective).subperm hrefs').length_le
  exact ⟨hmap.chain_eq hlen, hknown⟩

theorem matches_interfaces (h : Renames f known s s') :
    DepthFirst.Matches f known s.interfacesOf s.refs s'.interfacesOf s'.refs where
  injective := h.injective
  closed a ha b hb := h.closed a ha b (TypeLookup.mem_supertypes.2 (.inr hb))
  next_eq _ ha := h.type?.interfacesOf_eq ha
  mem_iff := h.mem_refs

theorem known_interfaces (h : Renames f known s s') {rs : List TypeRef} (hrs : ∀ r ∈ rs, known r) :
    ∀ i ∈ rs.flatMap s.interfacesOf, known i := by
  intro i hi
  obtain ⟨a, ha, hia⟩ := List.mem_flatMap.1 hi
  exact h.matches_interfaces.closed a (hrs a ha) i hia

theorem interfacesReached_eq (h : Renames f known s s') {rs : List TypeRef}
    (hrs : ∀ r ∈ rs, known r) :
    s'.interfacesReached (rs.map f) = (s.interfacesReached rs).map f := by
  have hroots : (rs.map f).flatMap s'.interfacesOf = (rs.flatMap s.interfacesOf).map f := by
    rw [List.flatMap_map, List.map_flatMap]
    exact List.flatMap_congr fun a ha => h.matches_interfaces.next_eq a (hrs a ha)
  rw [interfacesReached, interfacesReached, hroots]
  exact h.matches_interfaces.reached_eq (h.known_interfaces hrs)

theorem newInterfaces_eq (h : Renames f known s s') (hr : known r) {bases : List TypeRef}
    (hbases : ∀ b ∈ bases, known b) :
    s'.newInterfaces (f r) (bases.map f) = (s.newInterfaces r bases).map f ∧
      ∀ i ∈ s.newInterfaces r bases, known i := by
  have hroots : ∀ i ∈ s.interfacesOf r, known i := h.matches_interfaces.closed r hr
  refine ⟨?_, fun i hi => h.matches_interfaces.known_of_postorder hroots hi⟩
  rw [newInterfaces, newInterfaces, h.interfacesReached_eq hbases,
    h.matches_interfaces.next_eq r hr]
  exact h.matches_interfaces.postorder_eq _ hroots

theorem ownProperties_eq (h : Renames f known s s') (hr : known r) :
    s'.ownProperties (f r) = (s.ownProperties r).map (PropertyRef.mapRefs f) ∧
      ∀ p ∈ s.ownProperties r, known p.owner := by
  refine ⟨h.type?.ownProperties_eq hr, fun p hp => ?_⟩
  rw [(TypeLookup.mem_ownProperties.1 hp).1]
  exact hr

theorem collision?_eq (h : Renames f known s s') {ps : List PropertyRef}
    (hps : ∀ p ∈ ps, known p.owner) :
    s'.collision? (ps.map (PropertyRef.mapRefs f)) = s.collision? ps := by
  rw [collision?, collision?, List.map_map]
  congr 1
  exact List.map_congr_left fun p hp => h.type?.propertyName_eq (hps p hp)

/-- What is gathered for one type: inherited properties, those of new interfaces, and its own. -/
theorem gathered_eq (h : Renames f known s s') (hr : known r) {bases : List TypeRef}
    (hbases : ∀ b ∈ bases, known b) {inherited : List PropertyRef}
    (hinherited : ∀ p ∈ inherited, known p.owner) :
    inherited.map (PropertyRef.mapRefs f) ++
          (s'.newInterfaces (f r) (bases.map f)).flatMap s'.ownProperties ++
        s'.ownProperties (f r) =
      (inherited ++ (s.newInterfaces r bases).flatMap s.ownProperties ++ s.ownProperties r).map
        (PropertyRef.mapRefs f) ∧
      ∀ p ∈ inherited ++ (s.newInterfaces r bases).flatMap s.ownProperties ++ s.ownProperties r,
        known p.owner := by
  obtain ⟨hnew, hnewKnown⟩ := h.newInterfaces_eq hr hbases
  obtain ⟨hown, hownKnown⟩ := h.ownProperties_eq hr
  constructor
  · rw [List.map_append, List.map_append, hown, hnew, List.flatMap_map, List.map_flatMap,
      List.flatMap_congr fun i hi => (h.ownProperties_eq (hnewKnown i hi)).1]
  · intro p hp
    rcases List.mem_append.1 hp with hp | hp
    · rcases List.mem_append.1 hp with hp | hp
      · exact hinherited p hp
      · obtain ⟨i, hi, hp⟩ := List.mem_flatMap.1 hp
        exact (h.ownProperties_eq (hnewKnown i hi)).2 p hp
    · exact hownKnown p hp

/-- Along renamed types the same properties are gathered, and all are those of known types. -/
theorem effectiveAlong_eq_ok {s : Scope} {r : TypeRef} {bases : List TypeRef}
    {ps : List PropertyRef} (hown : r.schema = s.unit.key) :
    s.effectiveAlong (r :: bases) = .ok ps ↔ ∃ inherited, s.effectiveAlong bases = .ok inherited ∧
      inherited ++ (s.newInterfaces r bases).flatMap s.ownProperties ++ s.ownProperties r = ps ∧
      s.collision? ps = none := by
  rw [effectiveAlong, if_neg (not_not.2 hown), bind_eq_ok]
  refine exists_congr fun inherited => and_congr_right fun _ => ?_
  simp only
  split
  · rename_i p hcollision
    simp only [reduceCtorEq, false_iff]
    rintro ⟨rfl, hnone⟩
    rw [hcollision] at hnone
    contradiction
  · rename_i hcollision
    rw [pure_eq_ok]
    refine ⟨?_, And.left⟩
    rintro rfl
    exact ⟨rfl, hcollision⟩

theorem effectiveAlong_eq (h : Renames f known s s') {rs : List TypeRef} (hrs : ∀ r ∈ rs, known r)
    {ps : List PropertyRef} (hps : s.effectiveAlong rs = .ok ps) :
    s'.effectiveAlong (rs.map f) = .ok (ps.map (PropertyRef.mapRefs f)) ∧
      ∀ p ∈ ps, known p.owner := by
  induction rs generalizing ps with
  | nil =>
      obtain rfl := Except.ok.inj hps
      exact ⟨rfl, by simp⟩
  | cons r bases ih =>
      obtain ⟨hr, hbases⟩ := List.forall_mem_cons.1 hrs
      by_cases hown : r.schema = s.unit.key
      · obtain ⟨inherited, hinherited, rfl, hcollision⟩ := (effectiveAlong_eq_ok hown).1 hps
        obtain ⟨hinherited', hknown⟩ := ih hbases hinherited
        obtain ⟨hall, hallKnown⟩ := h.gathered_eq hr hbases hknown
        have hown' : (f r).schema = s'.unit.key := (h.own_iff r hr).2 hown
        have hcollision' := h.collision?_eq hallKnown
        rw [hcollision] at hcollision'
        exact ⟨(effectiveAlong_eq_ok hown').2 ⟨_, hinherited', hall, hcollision'⟩, hallKnown⟩
      · rw [effectiveAlong_of_published hown] at hps
        obtain rfl := Except.ok.inj hps
        have hown' : (f r).schema ≠ s'.unit.key := fun heq => hown ((h.own_iff r hr).1 heq)
        rw [List.map_cons, effectiveAlong_of_published hown', h.derivedOf r hr hown]
        exact ⟨rfl, h.owners r hr hown⟩

theorem root_eq (hlineage : s'.lineage (f r) = (s.lineage r).map f) :
    s'.root (f r) = f (s.root r) := by
  rw [root, root, hlineage, List.getLast?_map]
  cases (s.lineage r).getLast? <;> rfl

theorem keyComponent_eq (h : Renames f known s s') {type : String} {p : LinkedProperty} {i : Nat}
    {c : KeyComponent} (hc : s.keyComponent r type p i = .ok c) :
    s'.keyComponent (f r) type (p.mapRefs f) i = .ok (c.mapRefs f) := by
  obtain ⟨property, name, primitive, kind⟩ := c
  obtain ⟨rfl, rfl, htype, q, hq, hcan, rfl⟩ := keyComponent_ok hc
  simp only at htype hq
  simp [keyComponent, Property.mapRefs, htype, DataType.mapRefs, h.primitives, hq, hcan,
    KeyComponent.mapRefs, PropertyRef.mapRefs]

theorem keyLayout_eq (h : Renames f known s s') {t : LinkedType} {l : KeyLayout}
    (hl : s.keyLayout r t = .ok l) : s'.keyLayout (f r) (t.mapRefs f) = .ok (l.mapRefs f) := by
  rw [keyLayout] at hl
  obtain ⟨components, hcomponents, hl⟩ := bind_eq_ok.1 hl
  obtain rfl := pure_eq_ok.1 hl
  have hkey : (t.mapRefs f).properties.zipIdx.filter (fun p => p.1.role = .primaryKey) =
      (t.properties.zipIdx.filter fun p => p.1.role = .primaryKey).map fun p =>
        (p.1.mapRefs f, p.2) := by
    rw [UserType.properties_mapRefs, List.zipIdx_map, List.filter_map]
    rfl
  have hcomponents' : ((t.properties.zipIdx.filter fun p => p.1.role = .primaryKey).map
      fun p => (p.1.mapRefs f, p.2)).mapM (fun p => s'.keyComponent (f r) t.name p.1 p.2) =
        .ok (components.map (KeyComponent.mapRefs f)) :=
    mapM_map_ok (fun p _ c hc => h.keyComponent_eq hc) hcomponents
  have hname : (t.mapRefs f).name = t.name := rfl
  rw [keyLayout, hkey, hname, hcomponents']
  rfl

/-- A renamed type of the unit has the renamed derived facts, if its base chain is renamed. -/
theorem derive_eq (h : Renames f known s s') {i j : Nat} {t : LinkedType} {d : Derived}
    (hlineage : s'.lineage (f ⟨s.unit.key, i⟩) = (s.lineage ⟨s.unit.key, i⟩).map f ∧
      ∀ x ∈ s.lineage ⟨s.unit.key, i⟩, known x)
    (hfi : f ⟨s.unit.key, i⟩ = ⟨s'.unit.key, j⟩) (hd : s.derive i t = .ok d) :
    s'.derive j (t.mapRefs f) = .ok (d.mapRefs f) := by
  obtain ⟨hlineage, hknown⟩ := hlineage
  have hroot := root_eq hlineage
  have hlayout := fun l hl => h.keyLayout_eq (r := ⟨s.unit.key, i⟩) (t := t) (l := l) hl
  rw [hfi] at hlineage hroot hlayout
  obtain ⟨name, ns, kind, body, metadata⟩ := t
  cases body with
  | enum e =>
      obtain rfl := Except.ok.inj hd
      rfl
  | composite c =>
      simp only [derive] at hd
      obtain ⟨ps, hps, hd⟩ := bind_eq_ok.1 hd
      have hps' : s'.effective ⟨s'.unit.key, j⟩ = .ok (ps.map (PropertyRef.mapRefs f)) := by
        rw [effective, hlineage]
        exact (h.effectiveAlong_eq hknown hps).1
      simp only [derive, UserType.mapRefs, TypeBody.mapRefs]
      refine bind_eq_ok.2 ⟨_, hps', ?_⟩
      by_cases hkind : kind = .entity
      · rw [if_pos hkind] at hd
        refine (if_pos hkind).trans ?_
        by_cases howner : s.root ⟨s.unit.key, i⟩ = ⟨s.unit.key, i⟩
        · simp only [if_pos howner] at hd
          obtain ⟨l, hl, hd⟩ := bind_eq_ok.1 hd
          obtain rfl := pure_eq_ok.1 hd
          have howner' : s'.root ⟨s'.unit.key, j⟩ = ⟨s'.unit.key, j⟩ := by
            rw [hroot, howner, hfi]
          simp only [if_pos howner']
          refine bind_eq_ok.2 ⟨_, hlayout l hl, ?_⟩
          rw [hroot]
          rfl
        · simp only [if_neg howner] at hd
          obtain rfl := pure_eq_ok.1 hd
          have howner' : s'.root ⟨s'.unit.key, j⟩ ≠ ⟨s'.unit.key, j⟩ := by
            rw [hroot, ← hfi]
            exact fun heq => howner (h.injective heq)
          simp only [if_neg howner']
          rw [hroot]
          rfl
      · rw [if_neg hkind] at hd
        obtain rfl := pure_eq_ok.1 hd
        exact if_neg hkind

end Renames

end Scope

end SchemaGraph
