import SchemaGraph.Proofs.Declaring
import SchemaGraph.Proofs.Inheritance

/-!
The keys of entities. An entity without a base declares the components of its key, one to seven of
them, and no other type declares any. A derived entity has the key of the entity at the end of its
base chain, wherever that is published.

What is declared is judged while a unit is drafted; that components are primitives which can be
keys, and who owns a key, only when the unit is finished. Both are kept by every unit that is
compiled.
-/

namespace SchemaGraph

open Relation

/-! ### Declared components -/

/-- The components that a drafted type declares are those that its kind and its base allow. -/
def DraftType.DeclaresKey (t : DraftType) : Prop :=
  ∀ c path, t.body = .composite c → c.base = .pending path →
    t.kind.AllowsRoles path.isSome (c.properties.map Property.role)

def UserType.DeclaresKey (t : LinkedType) : Prop :=
  ∀ c, t.body = .composite c →
    t.kind.AllowsRoles c.base.isSome (c.properties.map Property.role)

namespace Drafting

variable {w : Workspace} {unit : SourceId} {schemaNamespace : String}

theorem Draws.declaresKey {type : String} {t : DraftType}
    (h : Draws w unit schemaNamespace type t) : t.DeclaresKey := by
  intro c path hc hpath
  obtain ⟨_, _, kind, body, _⟩ := t
  obtain rfl : body = .composite c := hc
  cases h.body with
  | composite _ _ _ hkey =>
      obtain rfl := Binding.pending.inj hpath
      exact checkKeyComponents_eq_ok.1 hkey

end Drafting

theorem Composite.ResolvesTo.roles_eq {w : Workspace} {d : Draft} {type : String}
    {kind : TypeKind} {c : Composite BaseBinding InterfacesBinding TypeBinding}
    {l : LinkedComposite} (h : c.ResolvesTo w d type kind l) :
    l.properties.map Property.role = c.properties.map Property.role := by
  refine List.forall₂_eq_eq_eq ▸ ?_
  rw [List.forall₂_map_left_iff, List.forall₂_map_right_iff]
  exact h.properties.flip.imp fun _ _ hp => hp.role

/-- Resolution keeps the roles of the properties, and whether there is a base. -/
theorem DraftType.DeclaresKey.link {w : Workspace} {d : Draft} {t : DraftType} {l : LinkedType}
    (h : t.DeclaresKey) (hwaits : t.Waits) (hl : t.ResolvesTo w d l) : l.DeclaresKey := by
  intro lc hbody
  have hresolves := hl.body
  rw [hbody] at hresolves
  cases htbody : t.body with
  | enum e =>
      rw [htbody] at hresolves
      nomatch hresolves
  | composite c =>
      rw [htbody] at hresolves
      cases hresolves with
      | composite hc =>
          obtain ⟨path, hpath, -⟩ := (hwaits c htbody).base
          have hbase : lc.base.isSome = path.isSome := by
            have hresolved := hc.base path hpath
            cases path with
            | none =>
                rw [← pure_eq_ok.1 hresolved]
                rfl
            | some path =>
                obtain ⟨r, -, hr⟩ := map_eq_ok.1 hresolved
                rw [← hr]
                rfl
          rw [hl.kind, hbase, hc.roles_eq]
          exact h c path htbody hpath

theorem Compiles.declaresKey {w w' : Workspace} {unit : SourceId} {declaration : Declaration}
    {s : Schema} (h : Compiles w unit declaration s w') : ∀ t ∈ s.types, t.DeclaresKey := by
  obtain ⟨draft, hdraft, hlinked⟩ := h.exists_draft
  intro t ht
  obtain ⟨u, hu, hresolves⟩ := exists_of_forall₂_right hlinked.types ht
  exact (Draft.draws_of_ofDeclaration hdraft u hu).declaresKey.link
    (Draft.waits_of_ofDeclaration hdraft u hu) hresolves

/-! ### Stored keys -/

/-- The own properties of a type that are key components, with their positions, in declaration
order. -/
def UserType.keyProperties (t : LinkedType) : List (LinkedProperty × Nat) :=
  t.properties.zipIdx.filter fun p => p.1.role = .primaryKey

theorem UserType.length_keyProperties (t : LinkedType) :
    t.keyProperties.length = (t.properties.map Property.role).count .primaryKey := by
  have hroles : t.properties.map Property.role = t.properties.zipIdx.map fun p => p.1.role := by
    rw [← Function.comp_def Property.role Prod.fst, ← List.map_map, List.zipIdx_map_fst]
  rw [keyProperties, hroles, List.count, List.countP_map, List.countP_eq_length_filter]
  rfl

/-- The component of a key that a property of a type is: its type is a primitive that can be a
key. -/
structure KeyComponent.Reads (primitives : PrimitiveTable) (r : TypeRef) (p : LinkedProperty × Nat)
    (c : KeyComponent) : Prop where
  property : c.property = ⟨r, p.2⟩
  name : c.name = p.1.name
  type : p.1.type = .primitive c.primitive
  primitive : ∃ q, primitives[c.primitive]? = some q ∧ q.canBeKey = true ∧ c.kind = q.kind

/-- The layout consists of the key components that the type itself declares. -/
structure KeyLayout.Reads (primitives : PrimitiveTable) (r : TypeRef) (t : LinkedType)
    (l : KeyLayout) : Prop where
  entity : l.entity = r
  components : List.Forall₂ (KeyComponent.Reads primitives r) t.keyProperties l.components

namespace Scope

variable {s : Scope} {r : TypeRef} {t : LinkedType}

theorem keyComponent_ok {type : String} {p : LinkedProperty} {i : Nat} {c : KeyComponent}
    (h : s.keyComponent r type p i = .ok c) : c.Reads s.workspace.primitives r (p, i) := by
  rw [keyComponent] at h
  split at h
  · rename_i id htype
    split at h
    · rename_i q hq
      split at h
      · rename_i hcan
        obtain rfl := Except.ok.inj h
        exact ⟨rfl, rfl, htype, q, hq, hcan, rfl⟩
      · contradiction
    · contradiction
  · contradiction

theorem keyLayout_ok {l : KeyLayout} (h : s.keyLayout r t = .ok l) :
    l.Reads s.workspace.primitives r t := by
  rw [keyLayout] at h
  obtain ⟨components, hcomponents, h⟩ := bind_eq_ok.1 h
  obtain rfl := pure_eq_ok.1 h
  exact ⟨rfl, (mapM_eq_ok.1 hcomponents).imp fun _ _ hc => keyComponent_ok hc⟩

/-- Entities have an owner of their key, and their own layout if that is themselves; other types
have neither. -/
theorem derive_key {i : Nat} {d : Derived} (ht : t.Agrees) (h : s.derive i t = .ok d) :
    (t.kind = .entity → d.keyOwner = some (s.root ⟨s.unit.key, i⟩) ∧
      (s.root ⟨s.unit.key, i⟩ = ⟨s.unit.key, i⟩ →
        ∃ l, d.keyLayout = some l ∧ l.Reads s.workspace.primitives ⟨s.unit.key, i⟩ t) ∧
      (s.root ⟨s.unit.key, i⟩ ≠ ⟨s.unit.key, i⟩ → d.keyLayout = none)) ∧
    (t.kind ≠ .entity → d.keyOwner = none ∧ d.keyLayout = none) := by
  rw [derive] at h
  split at h
  · rename_i e hbody
    obtain rfl := Except.ok.inj h
    simp [ht.eq_enum hbody]
  · obtain ⟨effective, -, h⟩ := bind_eq_ok.1 h
    split at h
    · rename_i hentity
      simp only at h
      split at h
      · rename_i hroot
        obtain ⟨l, hl, h⟩ := bind_eq_ok.1 h
        obtain rfl := pure_eq_ok.1 h
        exact ⟨fun _ => ⟨rfl, fun _ => ⟨l, rfl, keyLayout_ok hl⟩, fun hne => absurd hroot hne⟩,
          fun hne => absurd hentity hne⟩
      · rename_i hroot
        obtain rfl := pure_eq_ok.1 h
        exact ⟨fun _ => ⟨rfl, fun heq => absurd heq hroot, fun _ => rfl⟩,
          fun hne => absurd hentity hne⟩
    · rename_i hentity
      obtain rfl := pure_eq_ok.1 h
      exact ⟨fun heq => absurd heq hentity, fun _ => ⟨rfl, rfl⟩⟩

end Scope

/-! ### Roots -/

namespace Lineage

variable {α : Type} {next : α → Option α} {a b : α} {as : List α}

/-- The last item of a chain is the one item that can be reached and that nothing follows. -/
theorem getLast?_eq_some_iff (h : Lineage next a as) :
    as.getLast? = some b ↔ ReflTransGen (fun a b => next a = some b) a b ∧ next b = none := by
  induction h with
  | @last a hnone =>
      rw [List.getLast?_singleton, Option.some.injEq]
      constructor
      · rintro rfl
        exact ⟨.refl, hnone⟩
      · rintro ⟨hab, -⟩
        rcases ReflTransGen.cases_head hab with rfl | ⟨c, hc, -⟩
        · rfl
        · simp [hnone] at hc
  | @step a c cs hsome hcs ih =>
      obtain ⟨ds, rfl⟩ := hcs.eq_cons
      rw [List.getLast?_cons_cons, ih]
      constructor
      · rintro ⟨hcb, hb⟩
        exact ⟨hcb.head hsome, hb⟩
      · rintro ⟨hab, hb⟩
        rcases ReflTransGen.cases_head hab with rfl | ⟨d, hd, hdb⟩
        · simp [hb] at hsome
        · obtain rfl := Option.some.inj (hsome.symm.trans hd)
          exact ⟨hdb, hb⟩

end Lineage

namespace Workspace

variable {w : Workspace} {r b : TypeRef}

/-- Follows the bases of a type to the last of them. -/
def RootOf (w : Workspace) (r root : TypeRef) : Prop :=
  ReflTransGen (fun a b => w.base? a = some b) r root ∧ w.base? root = none

theorem RootOf.unique {x y : TypeRef} (hx : w.RootOf r x) (hy : w.RootOf r y) : x = y := by
  obtain ⟨hrx, hxnone⟩ := hx
  induction hrx using ReflTransGen.head_induction_on with
  | refl =>
      rcases ReflTransGen.cases_head hy.1 with heq | ⟨c, hc, -⟩
      · exact heq
      · simp [hxnone] at hc
  | head hab _ ih =>
      rcases ReflTransGen.cases_head hy.1 with rfl | ⟨c, hc, hcy⟩
      · simp [hy.2] at hab
      · obtain rfl := Option.some.inj (hab.symm.trans hc)
        exact ih ⟨hcy, hy.2⟩

/-- A base chain stays within one kind. -/
theorem WellTyped.kind_of_reach (hw : w.WellTyped) {t : LinkedType} (ht : w.type? r = some t)
    (h : ReflTransGen (fun a b => w.base? a = some b) r b) :
    ∃ u, w.type? b = some u ∧ u.kind = t.kind := by
  induction h with
  | refl => exact ⟨t, ht, rfl⟩
  | tail _ hbc ih =>
      obtain ⟨u, hu, hkind⟩ := ih
      obtain ⟨kind, -, ⟨-, u', hu', hukind⟩, -, v, hv, hvkind⟩ := hw.base _ _ hbc
      obtain rfl := Option.some.inj (hu.symm.trans hu')
      exact ⟨v, hv, by rw [hvkind, ← hkind, hukind]⟩

end Workspace

theorem Scope.Shows.rootOf {s : Scope} {w : Workspace} {r : TypeRef} {t : LinkedType}
    (h : s.Shows w) (hw : w.Navigable) (ht : w.type? r = some t) : w.RootOf r (s.root r) := by
  have hlineage := h.lineage hw ht
  obtain ⟨bs, hbs⟩ := hlineage.eq_cons
  refine hlineage.getLast?_eq_some_iff.1 ?_
  rw [Scope.root, hbs, List.getLast?_cons, Option.getD_some]

/-- Bases are followed to the type itself if and only if it has none. -/
theorem Scope.Shows.root_eq_iff {s : Scope} {w : Workspace} {r : TypeRef} {t : LinkedType}
    (h : s.Shows w) (hw : w.Navigable) (ht : w.type? r = some t) :
    s.root r = r ↔ w.base? r = none := by
  have hroot := h.rootOf hw ht
  constructor
  · intro heq
    rw [heq] at hroot
    exact hroot.2
  · exact fun hnone => hroot.unique ⟨.refl, hnone⟩

/-! ### Compiling a unit -/

/-- Every type declares the components that it may, entities have the key of their root, and roots
of entities alone have a layout. -/
structure Workspace.Keyed (w : Workspace) : Prop where
  declares : ∀ r t, w.type? r = some t → t.DeclaresKey
  owner : ∀ r t, w.type? r = some t → t.kind = .entity →
    ∃ root, (w.derivedOf r).keyOwner = some root ∧ w.RootOf r root
  layout : ∀ r t, w.type? r = some t → t.kind = .entity → w.base? r = none →
    ∃ l, (w.derivedOf r).keyLayout = some l ∧ l.Reads w.primitives r t
  noLayout : ∀ r t, w.type? r = some t → t.kind ≠ .entity ∨ w.base? r ≠ none →
    (w.derivedOf r).keyLayout = none

namespace Compiles

variable {w w' : Workspace} {unit : SourceId} {declaration : Declaration} {s : Schema}
  {r : TypeRef} {t : LinkedType}

theorem type?_of_ne (h : Compiles w unit declaration s w') (hr : r.schema ≠ w.nextKey) :
    w'.type? r = w.type? r := by
  rw [h.eq_publish, Workspace.type?_publish_of_ne s hr]

theorem base?_of_ne (h : Compiles w unit declaration s w') (hr : r.schema ≠ w.nextKey) :
    w'.base? r = w.base? r := by
  simp only [Workspace.base?, TypeLookup.base?, TypeLookup.composite?, h.type?_of_ne hr]

theorem rootOf_of_ne (h : Compiles w unit declaration s w') (hw : w.WellTyped)
    (hr : r.schema ≠ w.nextKey) {root : TypeRef} (hroot : w.RootOf r root) :
    w'.RootOf r root := by
  obtain ⟨hreach, hnone⟩ := hroot
  -- The bases of such a type were published with it or before.
  have hstays : ∀ x, ReflTransGen (fun a b => w.base? a = some b) r x →
      x.schema ≠ w.nextKey := fun x hx =>
    (h.extends_of_ne hw hr).2 (Workspace.extends_of_bases hx)
  refine ⟨?_, by rwa [h.base?_of_ne (hstays root hreach)]⟩
  clear hnone
  induction hreach with
  | refl => exact .refl
  | @tail y z hy hyz ih => exact ih.tail (by rwa [h.base?_of_ne (hstays y hy)])

/-- What is derived about keys for a type of the new schema. -/
theorem derivedOf_key (h : Compiles w unit declaration s w') (hw' : w'.Layered)
    (hr : r.schema = w.nextKey) (ht : w'.type? r = some t) :
    (t.kind = .entity → (w'.derivedOf r).keyOwner = some ((Scope.mk w s.toSchemaOf).root r) ∧
      (w'.base? r = none →
        ∃ l, (w'.derivedOf r).keyLayout = some l ∧ l.Reads w'.primitives r t) ∧
      (w'.base? r ≠ none → (w'.derivedOf r).keyLayout = none)) ∧
    (t.kind ≠ .entity → (w'.derivedOf r).keyLayout = none) := by
  have hprimitives : w'.primitives = w.primitives := by rw [h.eq_publish]; rfl
  have hkey := Scope.derive_key (hw'.agrees ht) (h.derive_eq hr ht)
  obtain ⟨key, i⟩ := r
  obtain rfl : key = s.key := hr.trans h.key_eq.symm
  rw [ne_eq, ← h.shows.root_eq_iff hw'.navigable ht, hprimitives]
  exact ⟨hkey.1, fun hne => (hkey.2 hne).2⟩

theorem keyed (h : Compiles w unit declaration s w') (hw : w.Layered) (hw' : w'.Layered)
    (hkeyed : w.Keyed) : w'.Keyed := by
  refine ⟨fun r t ht => ?_, fun r t ht hentity => ?_, fun r t ht hentity hnone => ?_,
    fun r t ht hnot => ?_⟩ <;> by_cases hr : r.schema = w.nextKey
  · rw [h.eq_publish, Workspace.type?_publish_of_eq s hr] at ht
    exact h.declaresKey t (List.mem_of_getElem? ht)
  · rw [h.type?_of_ne hr] at ht
    exact hkeyed.declares r t ht
  · exact ⟨_, ((h.derivedOf_key hw' hr ht).1 hentity).1, h.shows.rootOf hw'.navigable ht⟩
  · rw [h.type?_of_ne hr] at ht
    obtain ⟨root, howner, hroot⟩ := hkeyed.owner r t ht hentity
    exact ⟨root, by rwa [h.derivedOf_of_ne hr], h.rootOf_of_ne hw.wellTyped hr hroot⟩
  · exact ((h.derivedOf_key hw' hr ht).1 hentity).2.1 hnone
  · rw [h.type?_of_ne hr] at ht
    rw [h.base?_of_ne hr] at hnone
    have hprimitives : w'.primitives = w.primitives := by rw [h.eq_publish]; rfl
    rw [h.derivedOf_of_ne hr, hprimitives]
    exact hkeyed.layout r t ht hentity hnone
  · by_cases hentity : t.kind = .entity
    · exact ((h.derivedOf_key hw' hr ht).1 hentity).2.2 (hnot.resolve_left (not_not.2 hentity))
    · exact (h.derivedOf_key hw' hr ht).2 hentity
  · rw [h.type?_of_ne hr] at ht
    rw [h.base?_of_ne hr] at hnot
    rw [h.derivedOf_of_ne hr]
    exact hkeyed.noLayout r t ht hnot

end Compiles

theorem Reached.keyed {w : Workspace} (h : Reached w) : w.Keyed := by
  suffices hboth : w.Layered ∧ w.Keyed from hboth.2
  refine h.induction (P := fun w => w.Layered ∧ w.Keyed) ?_ ?_
  · intro primitives containers enumDefault
    refine ⟨Workspace.layered_empty primitives containers enumDefault, ?_⟩
    constructor <;> simp [Workspace.type?]
  · rintro w unit declaration s w' ⟨hlayered, hkeyed⟩ hcompiles
    have hlayered' := hcompiles.layered hlayered
    exact ⟨hlayered', hcompiles.keyed hlayered hlayered' hkeyed⟩

/-! ### Keys of published entities -/

namespace KeyLayout.Reads

variable {primitives : PrimitiveTable} {r : TypeRef} {t : LinkedType} {l : KeyLayout}

theorem arity_eq (h : l.Reads primitives r t) :
    l.arity = (t.properties.map Property.role).count .primaryKey := by
  rw [arity, ← h.components.length_eq, t.length_keyProperties]

/-- The components go by the names of the properties that they are. -/
theorem names_eq (h : l.Reads primitives r t) :
    l.components.map KeyComponent.name = t.keyProperties.map fun p => p.1.name := by
  refine List.forall₂_eq_eq_eq ▸ ?_
  rw [List.forall₂_map_left_iff, List.forall₂_map_right_iff]
  exact h.components.flip.imp fun _ _ hc => hc.name

end KeyLayout.Reads

namespace Workspace

variable {w : Workspace} {r : TypeRef} {t : LinkedType}

/-- The key of an entity is what the layout of its root says, which is an entity as well. -/
theorem Keyed.exists_key (hw : w.Keyed) (htyped : w.WellTyped) (ht : w.type? r = some t)
    (hentity : t.kind = .entity) :
    ∃ root u l, (w.derivedOf r).keyOwner = some root ∧ w.RootOf r root ∧ w.type? root = some u ∧
      (w.derivedOf root).keyLayout = some l ∧ l.Reads w.primitives root u ∧
      w.primaryKey? r = some l := by
  obtain ⟨root, howner, hroot⟩ := hw.owner r t ht hentity
  obtain ⟨u, hu, hkind⟩ := htyped.kind_of_reach ht hroot.1
  obtain ⟨l, hl, hreads⟩ := hw.layout root u hu (hkind.trans hentity) hroot.2
  refine ⟨root, u, l, howner, hroot, hu, hl, hreads, ?_⟩
  rw [primaryKey?, howner]
  exact hl

theorem Keyed.arity (hw : w.Keyed) (ht : w.type? r = some t) (hagrees : t.Agrees)
    (hentity : t.kind = .entity) (hroot : w.base? r = none) {l : KeyLayout}
    (hl : l.Reads w.primitives r t) :
    1 ≤ l.arity ∧ l.arity ≤ maxKeyArity := by
  have hdeclares := hw.declares r t ht
  rw [hl.arity_eq]
  obtain ⟨c, hbody⟩ := hagrees.exists_composite (by simp [hentity])
  have hbase : c.base = none := (TypeLookup.base?_eq ht hbody).symm.trans hroot
  have hroles := hdeclares c hbody
  rw [TypeKind.AllowsRoles, if_pos ⟨hentity, by rw [hbase]; rfl⟩] at hroles
  rw [UserType.properties_eq hbody]
  exact hroles

/-- A type declares no two properties with one name. -/
theorem Flattened.nodup_ownNames (hw : w.Flattened) (ht : w.type? r = some t) :
    (t.properties.map Property.name).Nodup := by
  have hname : ∀ i p, t.properties[i]? = some p →
      (⟨r, i⟩ : PropertyRef) ∈ (w.derivedOf r).effective ∧
        TypeLookup.propertyName w.type? ⟨r, i⟩ = p.name := by
    intro i p hp
    have hproperty : w.property? ⟨r, i⟩ = some p := by
      rw [property?, TypeLookup.property?, ht]
      exact hp
    refine ⟨((hw.flattens r).mem_iff _).2 ⟨.refl, by rw [hproperty]; rfl⟩, ?_⟩
    rw [property?] at hproperty
    rw [TypeLookup.propertyName, hproperty]
    rfl
  rw [List.nodup_iff_pairwise_ne, List.pairwise_map, List.pairwise_iff_getElem]
  intro i j hi hj hij heq
  obtain ⟨himem, hiname⟩ := hname i _ (List.getElem?_eq_getElem hi)
  obtain ⟨hjmem, hjname⟩ := hname j _ (List.getElem?_eq_getElem hj)
  -- Among the effective properties a name tells which property it is.
  have hsame := List.inj_on_of_nodup_map (hw.flattens r).nodup_names himem hjmem
    (by rw [hiname, hjname, heq])
  have := congrArg PropertyRef.index hsame
  simp only at this
  omega

theorem Flattened.nodup_keyNames (hw : w.Flattened) (ht : w.type? r = some t) {l : KeyLayout}
    (hl : l.Reads w.primitives r t) : (l.components.map KeyComponent.name).Nodup := by
  rw [hl.names_eq, UserType.keyProperties]
  refine (hw.nodup_ownNames ht).sublist ?_
  have hnames : t.properties.map Property.name = t.properties.zipIdx.map fun p => p.1.name := by
    rw [← Function.comp_def Property.name Prod.fst, ← List.map_map, List.zipIdx_map_fst]
  rw [hnames]
  exact List.filter_sublist.map _

/-- A component of a key is a property that the root of the entities declares. -/
theorem exists_of_mem_components {root : TypeRef} (ht : w.type? root = some t) {l : KeyLayout}
    (hl : l.Reads w.primitives root t) {c : KeyComponent} (hc : c ∈ l.components) :
    c.property.owner = root ∧ ∃ p, w.property? c.property = some p ∧ p.name = c.name ∧
      p.type = .primitive c.primitive := by
  obtain ⟨p, hp, hreads⟩ := exists_of_forall₂_right hl.components hc
  have hget : t.properties[p.2]? = some p.1 :=
    List.mk_mem_zipIdx_iff_getElem?.1 (List.mem_filter.1 hp).1
  rw [hreads.property]
  refine ⟨rfl, p.1, ?_, hreads.name.symm, hreads.type⟩
  rw [property?, TypeLookup.property?, ht, Option.bind_some, hget]

/-- What the key of a root consists of is among the effective properties of all that derive from
it. -/
theorem Flattened.mem_effective (hw : w.Flattened) {root : TypeRef} (hroot : w.RootOf r root)
    (ht : w.type? root = some t) {l : KeyLayout} (hl : l.Reads w.primitives root t)
    {c : KeyComponent} (hc : c ∈ l.components) : c.property ∈ (w.derivedOf r).effective := by
  obtain ⟨howner, p, hp, -⟩ := exists_of_mem_components ht hl hc
  rw [(hw.flattens r).mem_iff, howner, hp]
  exact ⟨extends_of_bases hroot.1, rfl⟩

end Workspace

/-- The bases of a published entity end at one entity without a base, and the key of the entity is
the one stored there: that entity's own key components in declaration order, one to seven of them
with different names, each a primitive that can be a key and an effective property of the derived
entity too. No other type declares key components or has a layout. -/
theorem entity_key_is_that_of_root {w : Workspace} (h : Reached w) :
    (∀ e t, w.type? e = some t → t.kind = .entity →
      ∃ root u l, w.RootOf e root ∧ (∀ x, w.RootOf e x → x = root) ∧
        w.type? root = some u ∧ u.kind = .entity ∧
        w.primaryKey? e = some l ∧ (w.derivedOf root).keyLayout = some l ∧
        l.Reads w.primitives root u ∧ 1 ≤ l.arity ∧ l.arity ≤ 7 ∧
        (l.components.map KeyComponent.name).Nodup ∧
        ∀ c ∈ l.components, c.property ∈ (w.derivedOf e).effective) ∧
    ∀ r t c, w.type? r = some t → t.body = .composite c →
      t.kind ≠ .entity ∨ c.base ≠ none →
        (∀ p ∈ c.properties, p.role ≠ .primaryKey) ∧ (w.derivedOf r).keyLayout = none := by
  obtain ⟨hlayered, hflat⟩ := h.layered_flattened
  have hkeyed := h.keyed
  refine ⟨fun e t ht hentity => ?_, fun r t c ht hbody hnot => ?_⟩
  · obtain ⟨root, howner, hroot⟩ := hkeyed.owner e t ht hentity
    obtain ⟨u, hu, hkind⟩ := hlayered.wellTyped.kind_of_reach ht hroot.1
    rw [hentity] at hkind
    obtain ⟨l, hl, hreads⟩ := hkeyed.layout root u hu hkind hroot.2
    obtain ⟨hpos, hmax⟩ := hkeyed.arity hu (hlayered.agrees hu) hkind hroot.2 hreads
    refine ⟨root, u, l, hroot, fun x hx => hx.unique hroot, hu, hkind, ?_, hl, hreads, hpos, hmax,
      hflat.nodup_keyNames hu hreads, fun c hc => hflat.mem_effective hroot hu hreads hc⟩
    rw [Workspace.primaryKey?, howner]
    exact hl
  · have hroles := hkeyed.declares r t ht c hbody
    rw [TypeKind.AllowsRoles, if_neg] at hroles
    · refine ⟨fun p hp hrole => hroles (List.mem_map.2 ⟨p, hp, hrole⟩), ?_⟩
      exact hkeyed.noLayout r t ht (hnot.imp_right (TypeLookup.base?_eq ht hbody).trans_ne)
    · rintro ⟨hkind, hbase⟩
      rcases hnot with hne | hne
      · exact hne hkind
      · exact hne (Option.isSome_eq_false_iff.1 hbase |> Option.isNone_iff_eq_none.1)

/-- An entity with a key of two components, and in a second schema an entity that derives from
it. -/
def derivedEntitySources : SourceTable :=
  [("a", { name := some "A", types := [
      .entity { name := some "E", properties := [
        { name := some "x", typeText := some "int", role := .primaryKey },
        { name := some "y", typeText := some "int" },
        { name := some "z", typeText := some "int", role := .primaryKey }] }] }),
    ("b", { name := some "B", imports := [{ source := "a" }], types := [
      .entity { name := some "F", base := some "A.E" }] })]

def derivedEntityWorkspace : Workspace :=
  (({ primitives := [.builtin "int" .int32] } : Workspace).load derivedEntitySources.reader
    ["b"]).workspace

theorem entity_key_is_that_of_root_derived :
    Reached derivedEntityWorkspace ∧
      (derivedEntityWorkspace.type? ⟨1, 0⟩).map UserType.kind = some .entity ∧
      ∃ l, derivedEntityWorkspace.primaryKey? ⟨1, 0⟩ = some l ∧ l.entity = ⟨0, 0⟩ ∧ l.arity ≤ 7 ∧
        l.components.map (fun c => (c.name, c.property.index)) = [("x", 0), ("z", 2)] := by
  have hreached : Reached derivedEntityWorkspace :=
    (Reached.empty [.builtin "int" .int32] {} none).load derivedEntitySources.reader ["b"]
  have hfound : ((derivedEntityWorkspace.type? ⟨1, 0⟩).map UserType.kind,
      derivedEntityWorkspace.base? ⟨1, 0⟩, derivedEntityWorkspace.base? ⟨0, 0⟩,
      (derivedEntityWorkspace.primaryKey? ⟨1, 0⟩).map fun l =>
        l.components.map fun c => (c.name, c.property.index)) =
      (some .entity, some ⟨0, 0⟩, none, some [("x", 0), ("z", 2)]) := by cbv
  simp only [Prod.mk.injEq] at hfound
  obtain ⟨hkind, hbase, hnone, hcomponents⟩ := hfound
  obtain ⟨t, ht, hentity⟩ := Option.map_eq_some_iff.1 hkind
  obtain ⟨root, u, l, -, hunique, -, -, hl, -, hreads, -, hmax, -⟩ :=
    (entity_key_is_that_of_root hreached).1 ⟨1, 0⟩ t ht hentity
  have hroot := hunique ⟨0, 0⟩ ⟨.single hbase, hnone⟩
  rw [hl] at hcomponents
  exact ⟨hreached, hkind, l, hl, hreads.entity.trans hroot.symm, hmax,
    Option.some.inj hcomponents⟩

end SchemaGraph
