import SchemaGraph.Proofs.EntityKeys
import SchemaGraph.Proofs.Signatures

/-!
What is emitted for an entity or a struct: the struct, the key of an entity, and an implementation of
each interface. The fields are those of the effective properties, and whatever else is emitted only
speaks of them. A property of an implemented interface is an effective property of the type, and so
is a component of the key of the root, wherever these are published.
-/

namespace SchemaGraph

open Relation RustNames RustSource

/-! ### Texts over fields -/

namespace RustItem

/-- A getter that gives a reference to a field. -/
def fieldGetter (f : RustMember) : String :=
  block inner ("fn " ++ f.name ++ "(&self) -> &" ++ f.type.render)
    (innermost ++ "&self." ++ f.name ++ "\n")

/-- A name for the tuple of the types of some fields. -/
def fieldsAlias (docs : List String) (name : String) (fields : List RustMember) : String :=
  docLines "" docs ++ "pub type " ++ name ++ " = " ++
    tuple (fields.map fun f => f.type.render) ++ ";\n"

/-- A method that gives the tuple of clones of some fields. -/
def fieldsAccessor (type keyType : String) (fields : List RustMember) : String :=
  block "" ("impl " ++ type)
    (block inner ("pub fn key(&self) -> " ++ keyType)
      (innermost ++ tuple (fields.map fun f => "self." ++ f.name ++ ".clone()") ++ "\n"))

theorem getterImpl_eq {g f : RustMember} (hname : g.name = f.name) (htype : g.type = f.type) :
    getterImpl g = fieldGetter f := by
  rw [getterImpl, signature, hname, htype, fieldGetter]

theorem render_tupleAlias (docs : List String) (name : String) (fields : List RustMember) :
    (tupleAlias docs name (fields.map RustMember.type)).render = fieldsAlias docs name fields := by
  rw [render, List.map_map, fieldsAlias]
  rfl

theorem render_keyAccessor (type keyType : String) (fields : List RustMember) :
    (keyAccessor type keyType (fields.map RustMember.name)).render =
      fieldsAccessor type keyType fields := by
  rw [render, List.map_map, fieldsAccessor]
  rfl

end RustItem

/-! ### Fields -/

section Fields

variable {v : SchemaView} {w : Workspace} {t : TypeRef} {p : LinkedProperty} {f g : RustMember}

/-- A getter of a property goes with the field of the property. -/
theorem SchemaView.Field.eq_of_getter (hf : v.Field t p f) (hg : v.Getter t p g) :
    g.name = f.name ∧ g.type = f.type :=
  ⟨Except.ok.inj (hg.1.symm.trans hf.name), Except.ok.inj (hg.2.symm.trans hf.type)⟩

/-- The fields of a struct: one for each effective property of the type, in order, under different
names. -/
structure SchemaView.FieldsOf (v : SchemaView) (t : TypeRef) (fields : List RustMember) : Prop where
  inStep : List.Forall₂ (fun q f => ∃ p, v.workspace.property? q = some p ∧ v.Field t p f)
    (v.workspace.derivedOf t).effective fields
  nodup : (fields.map RustMember.name).Nodup

theorem Workspace.Flattened.fieldsOf (hw : v.workspace.Flattened) {fields : List RustMember}
    (h : structFields v t (v.workspace.effectiveProperties t) = .ok fields) :
    v.FieldsOf t fields := by
  obtain ⟨hfields, hnodup⟩ := structFields_eq_ok.1 h
  refine ⟨forall₂_of_filterMap (fun q hq => ?_) hfields, hnodup⟩
  exact (((hw.flattens t).mem_iff q).1 hq).2

theorem SchemaView.FieldsOf.exists_field {fields : List RustMember} (h : v.FieldsOf t fields)
    {q : PropertyRef} (hq : q ∈ (v.workspace.derivedOf t).effective)
    (hp : v.workspace.property? q = some p) : ∃ f ∈ fields, v.Field t p f := by
  obtain ⟨k, hk⟩ := List.getElem?_of_mem hq
  obtain ⟨f, hf, p', hp', hfield⟩ := exists_of_forall₂_left h.inStep hk
  obtain rfl := Option.some.inj (hp.symm.trans hp')
  exact ⟨f, List.mem_of_getElem? hf, hfield⟩

end Fields

/-! ### Implementations -/

section Implementations

variable {v : SchemaView} {t i : TypeRef} {fields : List RustMember}

/-- The implementation of an interface: a getter for each property that the interface declares, each
of which gives a field of the same type. -/
def SchemaView.Implementation (v : SchemaView) (t : TypeRef) (name : String)
    (fields : List RustMember) (i : TypeRef) (item : RustItem) : Prop :=
  ∃ path getters, typePath v i = .ok path ∧ item = .traitImpl path name getters ∧
    List.Forall₂ (v.Getter t) (interfaceProperties v i) getters ∧
    ∀ g ∈ getters, ∃ f ∈ fields, g.name = f.name ∧ g.type = f.type ∧
      RustItem.getterImpl g = RustItem.fieldGetter f

theorem TypeLookup.property?_mk (look : TypeLookup) (r : TypeRef) (k : Nat) :
    look.property? ⟨r, k⟩ = (look.properties r)[k]? := by
  rw [property?, properties]
  cases look r <;> simp

/-- A property of an interface that a type extends is an effective property of the type. -/
theorem Workspace.Flattened.mem_effective_of_extends {w : Workspace} (hw : w.Flattened)
    (h : w.Extends t i) {p : LinkedProperty} {k : Nat}
    (hp : (TypeLookup.properties w.type? i)[k]? = some p) :
    ⟨i, k⟩ ∈ (w.derivedOf t).effective ∧ w.property? ⟨i, k⟩ = some p := by
  have hproperty : w.property? ⟨i, k⟩ = some p := (TypeLookup.property?_mk _ i k).trans hp
  exact ⟨((hw.flattens t).mem_iff _).2 ⟨h, hproperty ▸ rfl⟩, hproperty⟩

theorem SchemaView.FieldsOf.implementation (h : v.FieldsOf t fields)
    (hw : v.workspace.Flattened) (hextends : v.workspace.Extends t i) {name : String}
    {item : RustItem} (himpl : interfaceImpl v t name i = .ok item) :
    v.Implementation t name fields i item := by
  obtain ⟨path, getters, hpath, rfl, hgetters⟩ := interfaceImpl_ok himpl
  refine ⟨path, getters, hpath, rfl, hgetters, fun g hg => ?_⟩
  -- The field is that of the property: its type was written for the same owner.
  obtain ⟨p, hp, hgetter⟩ := exists_of_forall₂_right hgetters hg
  obtain ⟨k, hk⟩ := List.getElem?_of_mem hp
  obtain ⟨hq, hproperty⟩ := hw.mem_effective_of_extends hextends hk
  obtain ⟨f, hf, hfield⟩ := h.exists_field hq hproperty
  obtain ⟨hname, htype⟩ := hfield.eq_of_getter hgetter
  exact ⟨f, hf, hname, htype, RustItem.getterImpl_eq hname htype⟩

/-- There is one implementation for each interface that the type implements, and no other. -/
theorem Workspace.Layered.implementations {w : Workspace} {s : Schema} (hw : w.Layered)
    (hflat : w.Flattened) {u : LinkedType} (hu : w.type? t = some u)
    (hfields : (SchemaView.mk w s).FieldsOf t fields) {name : String} {impls : List RustItem}
    (himpls : (implementedInterfaces ⟨w, s⟩ t).mapM (interfaceImpl ⟨w, s⟩ t name) = .ok impls) :
    ∃ is : List TypeRef, is.Nodup ∧ (∀ i, i ∈ is ↔ w.Implements t i) ∧
      List.Forall₂ ((SchemaView.mk w s).Implementation t name fields) is impls := by
  have hmem := fun i => hw.mem_implementedInterfaces s (i := i) hu
  refine ⟨implementedInterfaces ⟨w, s⟩ t, DepthFirst.nodup_left_visits _ _, hmem, ?_⟩
  refine forall₂_imp_of_mem (fun i hi item himpl => ?_) (mapM_eq_ok.1 himpls)
  exact hfields.implementation hflat ((hmem i).1 hi).extends himpl

end Implementations

/-! ### Keys -/

section Keys

variable {v : SchemaView} {t : TypeRef} {u : LinkedType} {fields : List RustMember}

theorem RustSource.propertyType_of_primitive {p : LinkedProperty} {id : PrimitiveId}
    (h : p.type = .primitive id) : propertyType v t p = primitiveType v id := by
  rw [propertyType, h]
  rfl

theorem RustSource.keyItems_of_fields {layout : KeyLayout}
    (hlayout : v.workspace.primaryKey? t = some layout) {parts : List RustMember}
    (hparts : List.Forall₂ (fun c f => primitiveType v c.primitive = .ok f.type ∧
      fieldName c.name = .ok f.name) layout.components parts) (name : String) :
    keyItems v t u name = .ok
      [.tupleAlias ["Primary key of [`" ++ name ++ "`]"] (keyAlias u.name)
          (parts.map RustMember.type),
        .keyAccessor name (keyAlias u.name) (parts.map RustMember.name)] := by
  rw [keyItems, hlayout]
  refine bind_eq_ok.2 ⟨parts.map fun f => (f.type, f.name), ?_, pure_eq_ok.2 ?_⟩
  · refine mapM_eq_ok.2 (List.forall₂_map_right_iff.2 (hparts.imp fun c f hc => ?_))
    exact bind_eq_ok.2 ⟨_, hc.1, bind_eq_ok.2 ⟨_, hc.2, rfl⟩⟩
  · rw [List.map_map, List.map_map]
    rfl

/-- The key of an entity: the types and the clones of those fields that the components of the layout
stand for, in the order of the layout. -/
def SchemaView.KeyOf (v : SchemaView) (t : TypeRef) (entity name : String)
    (fields : List RustMember) (layout : KeyLayout) (key : List RustItem) : Prop :=
  ∃ docs parts,
    List.Forall₂ (fun c f => f ∈ fields ∧
      ∃ p, v.workspace.property? c.property = some p ∧ v.Field t p f) layout.components parts ∧
    key = [.tupleAlias docs (keyAlias entity) (parts.map RustMember.type),
      .keyAccessor name (keyAlias entity) (parts.map RustMember.name)] ∧
    key.map RustItem.render = [RustItem.fieldsAlias docs (keyAlias entity) parts,
      RustItem.fieldsAccessor name (keyAlias entity) parts]

/-- What is emitted for the key of an entity is the key of the root in terms of the entity's own
fields. -/
theorem Workspace.Keyed.keyOf {w : Workspace} {s : Schema} (hw : w.Keyed) (htyped : w.WellTyped)
    (hflat : w.Flattened) (hu : w.type? t = some u) (hentity : u.kind = .entity)
    (hfields : (SchemaView.mk w s).FieldsOf t fields) {name : String} {key : List RustItem}
    (hkey : keyItems ⟨w, s⟩ t u name = .ok key) :
    ∃ root layout, w.RootOf t root ∧ (w.derivedOf root).keyLayout = some layout ∧
      (SchemaView.mk w s).KeyOf t u.name name fields layout key := by
  obtain ⟨root, x, layout, -, hroot, hx, hlayout, hreads, hprimary⟩ :=
    hw.exists_key htyped hu hentity
  have hpart : ∀ c ∈ layout.components, ∃ f, f ∈ fields ∧ ∃ p, w.property? c.property = some p ∧
      (SchemaView.mk w s).Field t p f ∧ p.name = c.name ∧ p.type = .primitive c.primitive := by
    intro c hc
    obtain ⟨-, p, hp, hname, htype⟩ := exists_of_mem_components hx hreads hc
    obtain ⟨f, hf, hfield⟩ := hfields.exists_field (hflat.mem_effective hroot hx hreads hc) hp
    exact ⟨f, hf, p, hp, hfield, hname, htype⟩
  -- The code for the key is written from the layout alone; these fields would give the same code.
  obtain ⟨parts, hparts⟩ := exists_forall₂_iff.2 hpart
  have hitems := keyItems_of_fields (v := ⟨w, s⟩) (u := u) hprimary
    (hparts.imp fun c f hf => by
      obtain ⟨_, p, _, hfield, hname, htype⟩ := hf
      exact ⟨(propertyType_of_primitive htype).symm.trans hfield.type, hname ▸ hfield.name⟩) name
  obtain rfl := Except.ok.inj (hkey.symm.trans hitems)
  refine ⟨root, layout, hroot, hlayout, _, parts, ?_, rfl, ?_⟩
  · refine hparts.imp fun c f hf => ?_
    obtain ⟨hf, p, hp, hfield, -⟩ := hf
    exact ⟨hf, p, hp, hfield⟩
  · rw [List.map_cons, List.map_singleton, RustItem.render_tupleAlias,
      RustItem.render_keyAccessor]

end Keys

end SchemaGraph
