import SchemaGraph.Proofs.DeclaredNames
import SchemaGraph.Proofs.EmittedStructs
import SchemaGraph.Proofs.RustIdentifiers

/-!
The names of the members of an emitted item. Names that are declared are different, but snake case
can make them equal. A struct and a registry are refused when two of their fields get one name, the
getters of an implementation are fields of the struct, and variants keep their spelling. Only the
getters of a trait are not compared, so that a trait can have two of one name.
-/

namespace SchemaGraph

open RustNames RustSource

/-- The names that an item gives to its members: to fields, getters, variants and functions. -/
def RustItem.memberNames : RustItem → List String
  | .struct _ _ _ fields => fields.map RustMember.name
  | .tupleAlias .. => []
  | .keyAccessor .. => ["key"]
  | .trait _ _ _ getters => getters.map RustMember.name
  | .traitImpl _ _ getters => getters.map RustMember.name
  | .enum _ _ _ _ variants => variants.map RustVariant.name
  | .valueAccessor .. => ["value"]
  | .inserters _ maps => maps.map fun m => inserterName m.1

/-! ### Spelled names -/

section Spelled

variable {α β : Type} {source : α → String} {name : β → String} {as : List α} {bs : List β}

/-- If names become identifiers one by one, the identifiers are the spellings of the names. -/
theorem map_eq_spelled (h : List.Forall₂ (fun a b => identifier (source a) = .ok (name b)) as bs) :
    bs.map name = (as.map source).map spelled := by
  rw [List.map_map, eq_comm, ← List.forall₂_eq_eq_eq, List.forall₂_map_left_iff,
    List.forall₂_map_right_iff]
  exact h.imp fun _ _ hab => (identifier_eq_ok.1 hab).2

/-- Identifiers are different exactly if the names that they are spelled after are. -/
theorem nodup_spelled_iff
    (h : List.Forall₂ (fun a b => identifier (source a) = .ok (name b)) as bs)
    (hplain : ∀ a ∈ as, '#' ∉ (source a).toList) :
    (bs.map name).Nodup ↔ (as.map source).Nodup := by
  rw [map_eq_spelled h]
  refine ⟨List.Nodup.of_map _, fun hnodup => hnodup.map_on ?_⟩
  rw [List.forall_mem_map]
  intro a ha
  rw [List.forall_mem_map]
  exact fun b hb heq => (spelled_inj (hplain a ha) (hplain b hb)).1 heq

end Spelled

/-! ### Structs and implementations -/

section Composites

variable {v : SchemaView} {t i : TypeRef} {fields getters : List RustMember}

/-- Two effective properties never have the same field. -/
theorem SchemaView.FieldsOf.eq_of_fieldName (h : v.FieldsOf t fields) {q q' : PropertyRef}
    (hq : q ∈ (v.workspace.derivedOf t).effective) (hq' : q' ∈ (v.workspace.derivedOf t).effective)
    {p p' : LinkedProperty} (hp : v.workspace.property? q = some p)
    (hp' : v.workspace.property? q' = some p') {field : String}
    (hfield : fieldName p.name = .ok field) (hfield' : fieldName p'.name = .ok field) : q = q' := by
  obtain ⟨k, hk⟩ := List.getElem?_of_mem hq
  obtain ⟨k', hk'⟩ := List.getElem?_of_mem hq'
  obtain ⟨f, hf, x, hx, hname⟩ := exists_of_forall₂_left h.inStep hk
  obtain ⟨f', hf', x', hx', hname'⟩ := exists_of_forall₂_left h.inStep hk'
  obtain rfl := Option.some.inj (hp.symm.trans hx)
  obtain rfl := Option.some.inj (hp'.symm.trans hx')
  have heq : f.name = f'.name := by
    rw [Except.ok.inj (hname.name.symm.trans hfield),
      Except.ok.inj (hname'.name.symm.trans hfield')]
  obtain rfl := position_eq_of_name h.nodup hf hf' heq
  exact Option.some.inj (hk.symm.trans hk')

/-- The getters of an implementation have different names, since they give different fields. -/
theorem SchemaView.FieldsOf.nodup_getters (h : v.FieldsOf t fields) (hw : v.workspace.Flattened)
    (hextends : v.workspace.Extends t i)
    (hgetters : List.Forall₂ (v.Getter t) (interfaceProperties v i) getters) :
    (getters.map RustMember.name).Nodup := by
  refine List.pairwise_map.2 (List.pairwise_iff_getElem.2 fun k k' hk hk' hlt heq => ?_)
  obtain ⟨p, hp, hg⟩ := exists_of_forall₂_left hgetters.flip (List.getElem?_eq_getElem hk)
  obtain ⟨p', hp', hg'⟩ := exists_of_forall₂_left hgetters.flip (List.getElem?_eq_getElem hk')
  obtain ⟨hq, hproperty⟩ := hw.mem_effective_of_extends hextends hp
  obtain ⟨hq', hproperty'⟩ := hw.mem_effective_of_extends hextends hp'
  -- getters of one name would be for one field, so for one property of the interface
  have href := h.eq_of_fieldName hq hq' hproperty hproperty' (heq ▸ hg.1) hg'.1
  exact Nat.ne_of_lt hlt (congrArg PropertyRef.index href)

/-- The code for the key of an entity is the alias for a tuple of primitives and the method that
gives the key. -/
theorem RustSource.keyItems_ok {u : LinkedType} {name : String} {key : List RustItem}
    (h : keyItems v t u name = .ok key) : ∃ docs types parts,
      key = [.tupleAlias docs (keyAlias u.name) types,
        .keyAccessor name (keyAlias u.name) parts] ∧
      ∀ type ∈ types, ∃ id, primitiveType v id = .ok type := by
  rw [keyItems] at h
  split at h
  · contradiction
  · obtain ⟨components, hcomponents, h⟩ := bind_eq_ok.1 h
    refine ⟨_, _, _, (pure_eq_ok.1 h).symm, fun type htype => ?_⟩
    obtain ⟨part, hpart, rfl⟩ := List.mem_map.1 htype
    obtain ⟨c, -, hc⟩ := exists_of_forall₂_right (mapM_eq_ok.1 hcomponents) hpart
    obtain ⟨written, hwritten, hc⟩ := bind_eq_ok.1 hc
    obtain ⟨name, -, hc⟩ := bind_eq_ok.1 hc
    obtain rfl := pure_eq_ok.1 hc
    exact ⟨c.primitive, hwritten⟩

end Composites

section Types

variable {w : Workspace} {s : Schema} {r : TypeRef} {u : LinkedType} {items : List RustItem}

theorem Workspace.Layered.memberNames_compositeItems (hw : w.Layered) (hflat : w.Flattened)
    {derives : List String} {c : LinkedComposite} (hu : w.type? r = some u)
    (h : compositeItems ⟨w, s⟩ derives r u c = .ok items) :
    ∀ item ∈ items, item.memberNames.Nodup := by
  obtain ⟨name, fields, _, rfl, -, hstruct, key, impls, rfl, himpls, hkey⟩ := compositeItems_ok h
  have hfields : (SchemaView.mk w s).FieldsOf r fields := hflat.fieldsOf hstruct
  obtain ⟨is, -, his, hall⟩ := hw.implementations hflat hu hfields himpls
  rw [List.forall_mem_cons, List.forall_mem_append]
  refine ⟨hfields.nodup, ?_, fun item hitem => ?_⟩
  · split at hkey
    · obtain ⟨docs, types, parts, rfl, -⟩ := keyItems_ok hkey
      simp [RustItem.memberNames]
    · obtain rfl := pure_eq_ok.1 hkey
      simp
  · obtain ⟨i, hi, path, getters, -, rfl, hgetters, -⟩ := exists_of_forall₂_right hall hitem
    exact hfields.nodup_getters hflat ((his i).1 hi).extends hgetters

/-! ### Traits -/

/-- The getters of a trait have different names exactly if the names of the properties differ in
snake case. -/
theorem RustSource.memberNames_interfaceItems {v : SchemaView} {c : LinkedComposite}
    (hnames : ∀ p ∈ c.properties, w.Permits p.name) (h : interfaceItems v r u c = .ok items) :
    (∀ item ∈ items, item.memberNames.Nodup) ↔
      (c.properties.map fun p => snakeCase p.name).Nodup := by
  obtain ⟨docs, name, supertraits, getters, rfl, -, hgetters, -⟩ := interfaceItems_ok h
  rw [List.forall_mem_singleton, RustItem.memberNames]
  refine nodup_spelled_iff (hgetters.imp fun p g hg => hg.1) fun p hp => ?_
  exact Text.rawMark_notMem_snakeCase (hnames p hp).isIdentifier

/-! ### Enums -/

/-- The code of an enum is the enum itself, with a method for the values if it has any; these are
all different. -/
theorem RustSource.enumItems_ok {v : SchemaView} {e : EnumBody}
    (h : enumItems v u e = .ok items) : ∃ repr? name variants rest,
      items = .enum (typeDocs u) enumDerives repr? name variants :: rest ∧
      typeName u.name = .ok name ∧
      List.Forall₂ (fun x y => typeName x.name = .ok y.name ∧ y.value = x.value) e.elements
        variants ∧
      repeatedElement? [] e.elements = none ∧
      (e.elements = [] ∧ repr? = none ∧ rest = [] ∨ e.elements ≠ [] ∧ ∃ repr,
        intType? (v.workspace.primitives[e.underlying]?.getD default).kind = some repr ∧
          repr? = some repr ∧ rest = [.valueAccessor name repr]) := by
  simp only [enumItems] at h
  obtain ⟨name, hname, h⟩ := bind_eq_ok.1 h
  split at h
  · contradiction
  · rename_i repr hkind
    cases hrepeated : repeatedElement? [] e.elements with
    | some x =>
        rw [hrepeated] at h
        contradiction
    | none =>
        rw [hrepeated] at h
        obtain ⟨variants, hvariants, h⟩ := bind_eq_ok.1 h
        have hinStep : List.Forall₂ (fun x y => typeName x.name = .ok y.name ∧ y.value = x.value)
            e.elements variants := by
          refine (mapM_eq_ok.1 hvariants).imp fun x y hy => ?_
          obtain ⟨id, hid, hy⟩ := bind_eq_ok.1 hy
          obtain rfl := pure_eq_ok.1 hy
          exact ⟨hid, rfl⟩
        split at h
        · rename_i hempty
          obtain rfl := pure_eq_ok.1 h
          exact ⟨none, name, variants, [], rfl, hname, hinStep, rfl,
            .inl ⟨List.isEmpty_iff.1 hempty, rfl, rfl⟩⟩
        · rename_i hempty
          obtain rfl := pure_eq_ok.1 h
          exact ⟨some repr, name, variants, _, rfl, hname, hinStep, rfl,
            .inr ⟨fun hnil => hempty (List.isEmpty_iff.2 hnil), repr, hkind, rfl, rfl⟩⟩

theorem RustSource.memberNames_enumItems {v : SchemaView} {e : EnumBody}
    (hnames : ∀ x ∈ e.elements, w.Permits x.name) (hnodup : (e.elements.map EnumElement.name).Nodup)
    (h : enumItems v u e = .ok items) : ∀ item ∈ items, item.memberNames.Nodup := by
  obtain ⟨repr?, name, variants, rest, rfl, -, hvariants, -, hrest⟩ := enumItems_ok h
  rw [List.forall_mem_cons]
  refine ⟨(nodup_spelled_iff (hvariants.imp fun _ _ hy => hy.1) fun x hx => ?_).2 hnodup, ?_⟩
  · exact Text.rawMark_notMem_identifier (hnames x hx).isIdentifier
  · rcases hrest with ⟨-, -, rfl⟩ | ⟨-, repr, -, -, rfl⟩
    · simp
    · simp [RustItem.memberNames]

end Types

/-! ### Registries -/

theorem SchemaView.mem_imports_iff {v : SchemaView} {i : String × Schema} :
    i ∈ v.imports ↔ ∃ key, (i.1, key) ∈ v.schema.imports ∧ key ≠ v.schema.key ∧
      v.workspace.schemas[key]? = some i.2 := by
  rw [imports, List.mem_filterMap]
  constructor
  · rintro ⟨⟨a, key⟩, hmem, h⟩
    obtain ⟨hne, h⟩ := Option.ite_none_left_eq_some.1 h
    obtain ⟨s, hs, rfl⟩ := Option.map_eq_some_iff.1 h
    exact ⟨key, hmem, hne, hs⟩
  · rintro ⟨key, hmem, hne, hs⟩
    exact ⟨(i.1, key), hmem, by rw [if_neg hne, hs]; rfl⟩

namespace RustSource

variable {v : SchemaView} {items : List RustItem} {done fields : List RustMember}

/-- The fields come from the earlier ones by adding one of a kind at the end, under no earlier
name. -/
def Adds (Kind : RustMember → Prop) (done fields : List RustMember) : Prop :=
  ∃ f, fields = done ++ [f] ∧ Kind f ∧ f.name ∉ done.map RustMember.name

/-- The field for the values of an entity: a map from their keys. -/
structure EntityField (e : TypeRef × LinkedType) (f : RustMember) : Prop where
  name : fieldName e.2.name = .ok f.name
  type : ∃ id, typeName e.2.name = .ok id ∧
    f.type = .hashMap (.path [keyAlias e.2.name]) (.path [id])

/-- The field for the registry of an imported schema. -/
structure ImportField (i : String × Schema) (f : RustMember) : Prop where
  name : fieldName i.1 = .ok f.name
  type : ∃ m, moduleName i.2.name = .ok m ∧ f.type = .path ["super", m, registryName i.2.name]

theorem addField_ok {name : String} {type : Except RustFault RustType}
    (h : addField done name type = .ok fields) : name ∉ done.map RustMember.name ∧
      ∃ t, type = .ok t ∧ fields = done ++ [{ name := name, type := t }] := by
  rw [addField] at h
  obtain ⟨hfresh, h⟩ := check_eq_ok.1 h
  obtain ⟨t, ht, h⟩ := bind_eq_ok.1 h
  exact ⟨hfresh, t, ht, (pure_eq_ok.1 h).symm⟩

theorem addEntity_ok {e : TypeRef × LinkedType} (h : addEntity done e = .ok fields) :
    Adds (EntityField e) done fields := by
  rw [addEntity] at h
  obtain ⟨name, hname, h⟩ := bind_eq_ok.1 h
  obtain ⟨hfresh, type, htype, rfl⟩ := addField_ok h
  obtain ⟨id, hid, htype⟩ := bind_eq_ok.1 htype
  obtain rfl := pure_eq_ok.1 htype
  exact ⟨_, rfl, ⟨hname, id, hid, rfl⟩, hfresh⟩

theorem addImport_ok {i : String × Schema} (h : addImport done i = .ok fields) :
    Adds (ImportField i) done fields := by
  rw [addImport] at h
  obtain ⟨name, hname, h⟩ := bind_eq_ok.1 h
  obtain ⟨hfresh, type, htype, rfl⟩ := addField_ok h
  obtain ⟨m, hm, htype⟩ := bind_eq_ok.1 htype
  obtain rfl := pure_eq_ok.1 htype
  exact ⟨_, rfl, ⟨hname, m, hm, rfl⟩, hfresh⟩

/-- Fields that are added one by one have different names. -/
theorem foldlM_adds {α : Type} {add : List RustMember → α → Except RustFault (List RustMember)}
    (Kind : α → RustMember → Prop)
    (hadd : ∀ {done fields a}, add done a = .ok fields → Adds (Kind a) done fields)
    {as : List α} (hdone : (done.map RustMember.name).Nodup)
    (h : as.foldlM add done = .ok fields) :
    ∃ new, fields = done ++ new ∧ (fields.map RustMember.name).Nodup ∧
      List.Forall₂ Kind as new := by
  induction as generalizing done with
  | nil =>
      obtain rfl := pure_eq_ok.1 h
      exact ⟨[], (List.append_nil _).symm, hdone, .nil⟩
  | cons a as ih =>
      rw [List.foldlM_cons] at h
      obtain ⟨_, hnext, h⟩ := bind_eq_ok.1 h
      obtain ⟨f, rfl, hf, hfresh⟩ := hadd hnext
      have hnodup : ((done ++ [f]).map RustMember.name).Nodup := by
        rw [List.map_append, List.map_singleton, ← List.concat_eq_append]
        exact List.Nodup.concat hfresh hdone
      obtain ⟨new, rfl, hfields, hnew⟩ := ih hnodup h
      exact ⟨f :: new, List.append_cons .. |>.symm, hfields, .cons hf hnew⟩

/-- The code of a registry is a struct with a field for each concrete entity and then one for each
imported schema with a registry, and one method for each entity to insert its values. -/
theorem registryItems?_ok (h : registryItems? v = .ok (some items)) :
    ∃ docs name fields own rest maps, typeName (registryName v.schema.name) = .ok name ∧
      (fields.map RustMember.name).Nodup ∧ fields = own ++ rest ∧
      List.Forall₂ EntityField (concreteEntities v.schema) own ∧
      List.Forall₂ ImportField (registryImports v) rest ∧
      List.Forall₂ (fun e m => fieldName e.2.name = .ok m.1 ∧ typeName e.2.name = .ok m.2)
        (concreteEntities v.schema) maps ∧
      items = .struct docs ["Default"] name fields ::
        if maps.isEmpty then [] else [.inserters name maps] := by
  simp only [registryItems?] at h
  split at h
  · cases h
  · obtain ⟨name, hname, h⟩ := bind_eq_ok.1 h
    obtain ⟨own, hown, h⟩ := bind_eq_ok.1 h
    obtain ⟨fields, hfields, h⟩ := bind_eq_ok.1 h
    obtain ⟨maps, hmaps, h⟩ := bind_eq_ok.1 h
    have hnone : (([] : List RustMember).map RustMember.name).Nodup := List.nodup_nil
    obtain ⟨own, rfl, hnodup, hentities⟩ := foldlM_adds EntityField addEntity_ok hnone hown
    obtain ⟨rest, rfl, hnodup, himports⟩ := foldlM_adds ImportField addImport_ok hnodup hfields
    have hinStep : List.Forall₂
        (fun e m => fieldName e.2.name = .ok m.1 ∧ typeName e.2.name = .ok m.2)
        (concreteEntities v.schema) maps := by
      refine (mapM_eq_ok.1 hmaps).imp fun e m hm => ?_
      obtain ⟨type, htype, hm⟩ := bind_eq_ok.1 hm
      obtain ⟨field, hfield, hm⟩ := bind_eq_ok.1 hm
      obtain rfl := pure_eq_ok.1 hm
      exact ⟨hfield, htype⟩
    have hitems := Option.some.inj (pure_eq_ok.1 h)
    by_cases hempty : maps.isEmpty
    · rw [if_pos hempty] at hitems
      exact ⟨_, name, _, own, rest, maps, hname, hnodup, rfl, hentities, himports, hinStep,
        by rw [if_pos hempty, hitems]⟩
    · rw [if_neg hempty] at hitems
      exact ⟨_, name, _, own, rest, maps, hname, hnodup, rfl, hentities, himports, hinStep,
        by rw [if_neg hempty, hitems]⟩

theorem mem_types_of_concreteEntities {s : Schema} {e : TypeRef × LinkedType}
    (h : e ∈ concreteEntities s) : e.2 ∈ s.types :=
  (List.of_mem_zip (List.mem_of_mem_filter h)).2

/-- The methods of a registry have different names since its fields have: all that they leave out is
the raw mark. -/
theorem memberNames_registryItems {w : Workspace} (hnames : v.schema.toSchemaOf.Permitted w)
    (h : registryItems? v = .ok (some items)) : ∀ item ∈ items, item.memberNames.Nodup := by
  obtain ⟨docs, name, fields, own, rest, maps, -, hnodup, rfl, hown, -, hmaps, rfl⟩ :=
    registryItems?_ok h
  have hentity : ∀ e ∈ concreteEntities v.schema, Text.isIdentifier e.2.name = true := fun e he =>
    (hnames.types e.2 (mem_types_of_concreteEntities he)).name.isIdentifier
  have hsources : ((concreteEntities v.schema).map fun e => snakeCase e.2.name).Nodup := by
    rw [List.map_append] at hnodup
    refine (nodup_spelled_iff (hown.imp fun _ _ hf => hf.name) fun e he => ?_).1
      hnodup.of_append_left
    exact Text.rawMark_notMem_snakeCase (hentity e he)
  have hinserters : (RustItem.inserters name maps).memberNames =
      ((concreteEntities v.schema).map fun e => snakeCase e.2.name).map ("insert_" ++ ·) := by
    rw [RustItem.memberNames, List.map_map, eq_comm, ← List.forall₂_eq_eq_eq,
      List.forall₂_map_left_iff, List.forall₂_map_right_iff]
    refine forall₂_imp_of_mem (fun e he m hm => ?_) hmaps
    rw [RustItem.inserterName, withoutRawMark_fieldName (hentity e he) hm.1]
    rfl
  rw [List.forall_mem_cons]
  refine ⟨hnodup, ?_⟩
  split
  · simp
  · rw [List.forall_mem_singleton, hinserters]
    exact hsources.map fun a b hab => (String.append_right_inj _).1 hab

end RustSource

/-! ### Emitted items -/

theorem RustSource.backend_emitSchema_ok {v : SchemaView} {derives : List String} {e : Emitted}
    (h : (backend derives).emitSchema v = .ok (some e)) :
    ∃ items, registryItems? v = .ok (some items) ∧
      e.code = RustItem.renderFile v.schema.name items := by
  simp only [backend] at h
  split at h
  · rename_i items hitems
    obtain ⟨items, rfl, rfl⟩ := Option.map_eq_some_iff.1 (Except.ok.inj h)
    exact ⟨items, hitems, rfl⟩
  · contradiction

theorem RustSource.backend_emitSchema_of_ok {v : SchemaView} {derives : List String}
    {items : Option (List RustItem)} (h : registryItems? v = .ok items) :
    (backend derives).emitSchema v = .ok (items.map fun is => file v is (registryNotes v)) := by
  simp only [backend, h]

/-- Only a trait repeats names of members: exactly if two properties of the interface have names
with the same snake case. -/
theorem Reached.memberNames_typeItems {w : Workspace} (h : Reached w) {s : Schema} {r : TypeRef}
    {u : LinkedType} (hu : w.type? r = some u) {derives : List String} {items : List RustItem}
    (hitems : typeItems ⟨w, s⟩ derives r u = .ok items) :
    (∀ item ∈ items, item.memberNames.Nodup) ↔
      (u.kind = .interface → (u.properties.map fun p => snakeCase p.name).Nodup) := by
  obtain ⟨hw, hflat⟩ := h.layered_flattened
  obtain ⟨-, hproperties, helements, hnodup⟩ := h.permitted_type hu
  rcases typeItems_cases hitems with ⟨c, hbody, hkind, hitems⟩ | ⟨c, hbody, hkind, hitems⟩ |
    ⟨e, hbody, hkind, hitems⟩
  · refine iff_of_true (hw.memberNames_compositeItems hflat hu hitems) fun hinterface => ?_
    simp [hinterface] at hkind
  · rw [UserType.properties_eq hbody] at hproperties ⊢
    rw [memberNames_interfaceItems hproperties hitems]
    exact ⟨fun hsnake _ => hsnake, fun hsnake => hsnake hkind⟩
  · refine iff_of_true (memberNames_enumItems (helements e hbody) (hnodup e hbody) hitems) ?_
    simp [hkind]

/-- In everything that is emitted for a published schema, the fields of each struct, the getters of
each implementation, the variants of each enum and the fields and methods of the registry have
different names. The getters of a trait do just if the names of the properties that the interface
declares differ in snake case. -/
theorem members_distinct_but_for_traits {w : Workspace} (h : Reached w) {s : Schema}
    (hs : s ∈ w.schemas) (derives : List String) :
    (∀ r u e, w.type? r = some u → (backend derives).emitType ⟨w, s⟩ r u = .ok e →
      ∃ items, typeItems ⟨w, s⟩ derives r u = .ok items ∧
        e.code = RustItem.renderFile s.name items ∧
        ((∀ item ∈ items, item.memberNames.Nodup) ↔
          (u.kind = .interface → (u.properties.map fun p => snakeCase p.name).Nodup))) ∧
    ∀ e, (backend derives).emitSchema ⟨w, s⟩ = .ok (some e) →
      ∃ items, registryItems? ⟨w, s⟩ = .ok (some items) ∧
        e.code = RustItem.renderFile s.name items ∧ ∀ item ∈ items, item.memberNames.Nodup := by
  refine ⟨fun r u e hu he => ?_, fun e he => ?_⟩
  · obtain ⟨items, hitems, hcode⟩ := backend_emitType_ok he
    exact ⟨items, hitems, hcode, h.memberNames_typeItems hu hitems⟩
  · obtain ⟨items, hitems, hcode⟩ := backend_emitSchema_ok he
    exact ⟨items, hitems, hcode, memberNames_registryItems (h.permitted s hs) hitems⟩

/-! ### A trait with a repeated getter -/

/-- An interface with two properties whose names have the same snake case, a struct that implements
it, and an entity whose name is a keyword in snake case. -/
def foldingSources : SourceTable :=
  [("a", { name := some "A", types := [
    .interface { name := some "I", properties := [
      { name := some "aB", typeText := some "int" },
      { name := some "a_b", typeText := some "int" }] },
    .struct { name := some "S", interfaces := ["I"] },
    .entity { name := some "Type", properties := [
      { name := some "id", typeText := some "int", role := .primaryKey }] }] })]

def foldingWorkspace : Workspace :=
  (({ primitives := [.builtin "int" .int32] } : Workspace).load foldingSources.reader
    ["a"]).workspace

theorem reached_foldingWorkspace : Reached foldingWorkspace :=
  (Reached.empty [.builtin "int" .int32] {} none).load foldingSources.reader ["a"]

/-- The code for the trait. -/
def foldingTrait : RustItem :=
  .trait ["Interface `I`"] "I" []
    [{ name := "a_b", type := .path ["i32"] }, { name := "a_b", type := .path ["i32"] }]

/-- The code for the registry. -/
def foldingRegistry : List RustItem :=
  [.struct ["Repositories for the entities of schema `A`"] ["Default"] "ARegistry"
      [{ name := "r#type", type := .hashMap (.path ["TypeKey"]) (.path ["Type"]) }],
    .inserters "ARegistry" [("r#type", "Type")]]

theorem foldingWorkspace_items :
    ∃ s u t, foldingWorkspace.schemas[0]? = some s ∧ foldingWorkspace.type? ⟨0, 0⟩ = some u ∧
      foldingWorkspace.type? ⟨0, 1⟩ = some t ∧ u.kind = .interface ∧
      typeItems ⟨foldingWorkspace, s⟩ [] ⟨0, 0⟩ u = .ok [foldingTrait] ∧
      typeItems ⟨foldingWorkspace, s⟩ [] ⟨0, 1⟩ t = .error (.fieldTaken "a_b" "a_b") ∧
      registryItems? ⟨foldingWorkspace, s⟩ = .ok (some foldingRegistry) := by
  have hfound : (foldingWorkspace.schemas[0]?.bind fun s =>
      (foldingWorkspace.type? ⟨0, 0⟩).bind fun u => (foldingWorkspace.type? ⟨0, 1⟩).map fun t =>
        (u.kind, typeItems ⟨foldingWorkspace, s⟩ [] ⟨0, 0⟩ u,
          typeItems ⟨foldingWorkspace, s⟩ [] ⟨0, 1⟩ t, registryItems? ⟨foldingWorkspace, s⟩)) =
      some (.interface, .ok [foldingTrait], .error (.fieldTaken "a_b" "a_b"),
        .ok (some foldingRegistry)) := by cbv
  obtain ⟨s, hs, hfound⟩ := Option.bind_eq_some_iff.1 hfound
  obtain ⟨u, hu, hfound⟩ := Option.bind_eq_some_iff.1 hfound
  obtain ⟨t, ht, hfound⟩ := Option.map_eq_some_iff.1 hfound
  simp only [Prod.mk.injEq] at hfound
  obtain ⟨hkind, htrait, hstruct, hregistry⟩ := hfound
  exact ⟨s, u, t, hs, hu, ht, hkind, htrait, hstruct, hregistry⟩

/-- The trait is emitted with two getters of one name; the struct that would have the two fields is
refused for them. -/
theorem trait_repeats_getter :
    Reached foldingWorkspace ∧ ∃ s u t e, foldingWorkspace.schemas[0]? = some s ∧
      foldingWorkspace.type? ⟨0, 0⟩ = some u ∧ foldingWorkspace.type? ⟨0, 1⟩ = some t ∧
      (backend []).emitType ⟨foldingWorkspace, s⟩ ⟨0, 0⟩ u = .ok e ∧
      e.code = RustItem.renderFile s.name [foldingTrait] ∧ ¬foldingTrait.memberNames.Nodup ∧
      (backend []).emitType ⟨foldingWorkspace, s⟩ ⟨0, 1⟩ t = .error (.generation s.source t.name
        "property 'a_b' maps to field 'a_b', which is already taken") := by
  obtain ⟨s, u, t, hs, hu, ht, -, htrait, hstruct, -⟩ := foldingWorkspace_items
  refine ⟨reached_foldingWorkspace, s, u, t, _, hs, hu, ht, backend_emitType_of_ok htrait, rfl,
    by decide, ?_⟩
  simp only [backend, hstruct]
  rfl

/-- The trait repeats a name because two of the properties fold together, and the registry of the
same schema repeats none. -/
theorem members_distinct_but_for_traits_folding :
    Reached foldingWorkspace ∧ ∃ s u e e', s ∈ foldingWorkspace.schemas ∧
      foldingWorkspace.type? ⟨0, 0⟩ = some u ∧
      (backend []).emitType ⟨foldingWorkspace, s⟩ ⟨0, 0⟩ u = .ok e ∧
      (backend []).emitSchema ⟨foldingWorkspace, s⟩ = .ok (some e') ∧
      ¬(u.properties.map fun p => snakeCase p.name).Nodup ∧
      ∀ item ∈ foldingRegistry, item.memberNames.Nodup := by
  obtain ⟨s, u, -, hs, hu, -, hkind, htrait, -, hregistry⟩ := foldingWorkspace_items
  have hmem := List.mem_of_getElem? hs
  have hemit := backend_emitType_of_ok htrait
  have hschema : (backend []).emitSchema ⟨foldingWorkspace, s⟩ = .ok (some
      (file ⟨foldingWorkspace, s⟩ foldingRegistry (registryNotes ⟨foldingWorkspace, s⟩))) := by
    simp only [backend, hregistry]
    rfl
  obtain ⟨htypes, hschemas⟩ := members_distinct_but_for_traits reached_foldingWorkspace hmem []
  obtain ⟨items, hitems, -, htraits⟩ := htypes _ u _ hu hemit
  obtain ⟨items', hitems', -, hdistinct⟩ := hschemas _ hschema
  obtain rfl := Except.ok.inj (htrait.symm.trans hitems)
  obtain rfl := Option.some.inj (Except.ok.inj (hregistry.symm.trans hitems'))
  refine ⟨reached_foldingWorkspace, s, u, _, _, hmem, hu, hemit, hschema, fun hnodup => ?_,
    hdistinct⟩
  have htrait := htraits.2 (fun _ => hnodup) foldingTrait (by simp)
  exact absurd htrait (by decide)

end SchemaGraph
