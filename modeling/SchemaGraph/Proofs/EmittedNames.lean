import SchemaGraph.Proofs.LegalIdentifiers
import SchemaGraph.Proofs.Names

/-!
The identifiers in emitted code. Whatever a schema declares is an identifier by the time that it is
published, and what the code makes of identifiers is legal Rust. Only the path of a custom primitive
has parts that nobody has looked at: those of its namespace.
-/

namespace SchemaGraph

open RustNames RustSource

/-! ### What code is written with -/

/-- The paths in a type; boxes and containers have a path of their own. -/
def RustType.paths : RustType → List RustPath
  | .path p => [p]
  | .boxed t => ["Box"] :: t.paths
  | .vec t => ["Vec"] :: t.paths
  | .option t => ["Option"] :: t.paths
  | .hashSet t => ["std", "collections", "HashSet"] :: t.paths
  | .hashMap k t => ["std", "collections", "HashMap"] :: (k.paths ++ t.paths)

namespace RustItem

/-- The fields that the methods of an item refer to. -/
def usedFields : RustItem → List String
  | .keyAccessor _ _ fields => fields
  | .inserters _ maps => maps.map Prod.fst
  | _ => []

/-- The fields that an item uses, and the names that it defines for itself and its members. -/
def identifiers (item : RustItem) : List String :=
  item.usedFields ++ (item.definedName?.toList ++ item.memberNames)

/-- The paths in an item, but for those of derived traits. -/
def paths : RustItem → List RustPath
  | .struct _ _ _ fields => fields.flatMap fun f => f.type.paths
  | .tupleAlias _ _ types => types.flatMap RustType.paths
  | .keyAccessor type keyType _ => [[type], [keyType]]
  | .trait _ _ supertraits getters => supertraits ++ getters.flatMap fun g => g.type.paths
  | .traitImpl implemented type getters =>
    implemented :: [type] :: getters.flatMap fun g => g.type.paths
  | .enum _ _ repr _ _ => repr.toList.map fun r => [r]
  | .valueAccessor type repr => [[type], [repr]]
  | .inserters type maps => [type] :: maps.flatMap fun m => [["Option"], [m.2]]

/-- The traits that an item derives. -/
def derives : RustItem → List String
  | .struct _ derives _ _ | .enum _ derives _ _ _ => derives
  | _ => []

end RustItem

namespace SchemaView

variable (v : SchemaView)

/-- The path is legal, or that of a custom primitive. -/
def Writes (path : RustPath) : Prop :=
  LegalPath path ∨ ∃ p ∈ v.workspace.primitives, p.kind = .custom ∧
    Text.isIdentifier p.name = true ∧ customPath p = .ok path

structure WritesMember (f : RustMember) : Prop where
  name : LegalIdentifier f.name
  type : ∀ path ∈ f.type.paths, v.Writes path

structure WritesItem (derives : List String) (item : RustItem) : Prop where
  identifiers : ∀ id ∈ item.identifiers, LegalIdentifier id
  paths : ∀ path ∈ item.paths, v.Writes path
  derives : item.derives = derives ∨ ∀ d ∈ item.derives, LegalIdentifier d

end SchemaView

/-! ### Types -/

/-- The paths for boxes and containers. -/
def wrapperPaths : List RustPath :=
  [["Box"], ["Vec"], ["Option"], ["std", "collections", "HashSet"],
    ["std", "collections", "HashMap"]]

theorem RustType.mem_paths {a : RustType} {path : RustPath} (h : path ∈ a.paths) :
    path ∈ wrapperPaths ∨ (∃ k ∈ a.key?, path ∈ k.paths) ∨ path ∈ a.value.paths := by
  cases a with
  | path p | boxed t => exact .inr (.inr h)
  | vec t | option t | hashSet t =>
      rcases List.mem_cons.1 h with rfl | h
      · exact .inl (by decide)
      · exact .inr (.inr h)
  | hashMap k t =>
      rcases List.mem_cons.1 h with rfl | h
      · exact .inl (by decide)
      · rcases List.mem_append.1 h with h | h
        · exact .inr (.inl ⟨k, rfl, h⟩)
        · exact .inr (.inr h)

section Types

variable {w : Workspace} {s : Schema} {r : TypeRef} {u : LinkedType} {path : RustPath}
  {t : DataType} {a : RustType}

theorem Reached.legalPath_pathTo (h : Reached w) (hu : w.type? r = some u) {id : String}
    (hid : LegalIdentifier id) (hpath : pathTo ⟨w, s⟩ r id = .ok path) : LegalPath path := by
  rw [pathTo] at hpath
  split at hpath
  · obtain rfl := pure_eq_ok.1 hpath
    exact legalPath_singleton hid
  · obtain ⟨m, hm, hpath⟩ := bind_eq_ok.1 hpath
    obtain rfl := pure_eq_ok.1 hpath
    obtain ⟨s', hs', -⟩ := Option.bind_eq_some_iff.1 hu
    have hname := (h.permitted s' (List.mem_of_getElem? hs')).name.isIdentifier
    rw [hs'] at hm
    simpa [LegalPath, hid] using legal_fieldName hname hm

theorem Reached.legalPath_typePath (h : Reached w) (hu : w.type? r = some u)
    (hpath : typePath ⟨w, s⟩ r = .ok path) : LegalPath path := by
  rw [typePath] at hpath
  obtain ⟨id, hid, hpath⟩ := bind_eq_ok.1 hpath
  rw [nameOf_eq hu] at hid
  exact h.legalPath_pathTo hu (legal_identifier (h.permitted_type hu).name.isIdentifier hid) hpath

theorem writes_primitiveType {v : SchemaView} {id : PrimitiveId} {p : Primitive}
    (hp : v.workspace.primitives[id]? = some p) (hname : Text.isIdentifier p.name = true)
    (h : primitiveType v id = .ok a) : ∀ path ∈ a.paths, v.Writes path := by
  rw [primitiveType, hp] at h
  obtain ⟨path, hpath, rfl⟩ := map_eq_ok.1 h
  rw [RustType.paths, List.forall_mem_singleton]
  rw [Option.getD_some, primitivePath_eq] at hpath
  split at hpath
  · rename_i text htext
    obtain rfl := Except.ok.inj hpath
    exact .inl (legalPath_scalar htext)
  · rename_i hnone
    exact .inr ⟨p, List.mem_of_getElem? hp, scalar?_eq_none_iff.1 hnone, hname, hpath⟩

theorem Reached.writes_refers (h : Reached w) (ha : (SchemaView.mk w s).Refers t a)
    (hnamed : t.Named w.primitives) : ∀ path ∈ a.paths, (SchemaView.mk w s).Writes path := by
  cases ha with
  | primitive hid =>
      obtain ⟨p, hp, hname⟩ := hnamed _ (List.mem_singleton_self _)
      exact writes_primitiveType (v := ⟨w, s⟩) hp hname hid
  | key hu _ hpath =>
      have hlegal := legal_keyAlias (h.permitted_type hu).name.isIdentifier
      simpa [RustType.paths] using .inl (h.legalPath_pathTo hu hlegal hpath)
  | type hu _ hpath ha =>
      have hlegal := h.legalPath_typePath hu hpath
      have hbox : LegalPath ["Box"] := by decide
      rcases ha with rfl | rfl <;> simp [RustType.paths, SchemaView.Writes, hlegal, hbox]

theorem Reached.writes_written (h : Reached w) (ha : (SchemaView.mk w s).Written t a)
    (hnamed : t.Named w.primitives) : ∀ path ∈ a.paths, (SchemaView.mk w s).Writes path := by
  have hwrappers : ∀ path ∈ wrapperPaths, LegalPath path := by decide
  obtain ⟨-, hkey, hvalue⟩ := ha
  intro path hpath
  rcases RustType.mem_paths hpath with hpath | ⟨k, hk, hpath⟩ | hpath
  · exact .inl (hwrappers path hpath)
  · have hnamedKey : ∀ t' ∈ t.key?, t'.Named w.primitives := fun t' ht' id hid =>
      hnamed id (t.mem_primitives_of_key ht' hid)
    rw [Option.mem_def.1 hk] at hkey
    generalize t.key? = key at hkey hnamedKey
    cases hkey with
    | some hrefers => exact h.writes_refers hrefers (hnamedKey _ rfl) path hpath
  · exact h.writes_refers hvalue (fun id hid => hnamed id (t.mem_primitives_of_leaf hid)) path hpath

/-- The field or getter of a published property has a legal name, and a type of legal paths and
those of custom primitives. -/
theorem Reached.writes_getter (h : Reached w) {q : PropertyRef} {p : LinkedProperty}
    (hp : w.property? q = some p) {g : RustMember} (hg : (SchemaView.mk w s).Getter r p g) :
    (SchemaView.mk w s).WritesMember g := by
  obtain ⟨t, ht, hmem⟩ := Option.bind_eq_some_iff.1 hp
  have hname := (h.permitted_type ht).properties p (List.mem_of_getElem? hmem)
  refine ⟨legal_fieldName hname.isIdentifier hg.1, ?_⟩
  have hsound := h.layered_flattened.1.sound_property hp
  exact h.writes_written (propertyType_written hsound hg.2) (h.named_property hp)

end Types

/-! ### Composite types -/

section Items

variable {w : Workspace} {s : Schema} {r : TypeRef} {u : LinkedType} {derives : List String}
  {items : List RustItem}

theorem SchemaView.legal_memberNames {v : SchemaView} {fields : List RustMember}
    (h : ∀ f ∈ fields, v.WritesMember f) : ∀ id ∈ fields.map RustMember.name, LegalIdentifier id := by
  rw [List.forall_mem_map]
  exact fun f hf => (h f hf).name

theorem SchemaView.writes_memberTypes {v : SchemaView} {fields : List RustMember}
    (h : ∀ f ∈ fields, v.WritesMember f) :
    ∀ path ∈ fields.flatMap fun f => f.type.paths, v.Writes path := by
  intro path hpath
  obtain ⟨f, hf, hpath⟩ := List.mem_flatMap.1 hpath
  exact (h f hf).type path hpath

theorem SchemaView.writesItem_struct {v : SchemaView} {docs ds : List String} {name : String}
    {fields : List RustMember} (hname : LegalIdentifier name)
    (hfields : ∀ f ∈ fields, v.WritesMember f)
    (hds : ds = derives ∨ ∀ d ∈ ds, LegalIdentifier d) :
    v.WritesItem derives (.struct docs ds name fields) :=
  ⟨List.forall_mem_cons.2 ⟨hname, legal_memberNames hfields⟩, writes_memberTypes hfields, hds⟩

theorem SchemaView.writesItem_key {v : SchemaView} {docs : List String} {entity name : String}
    {parts : List RustMember} (hentity : Text.isIdentifier entity = true)
    (hname : LegalIdentifier name) (hparts : ∀ f ∈ parts, v.WritesMember f) :
    ∀ item ∈ [.tupleAlias docs (keyAlias entity) (parts.map RustMember.type),
        .keyAccessor name (keyAlias entity) (parts.map RustMember.name)],
      v.WritesItem derives item := by
  have halias := legal_keyAlias hentity
  have hkey : LegalIdentifier "key" := by decide
  rw [List.forall_mem_cons, List.forall_mem_singleton]
  constructor
  · refine ⟨List.forall_mem_singleton.2 halias, ?_, .inr (List.forall_mem_nil _)⟩
    rw [RustItem.paths, List.flatMap_map]
    exact writes_memberTypes hparts
  · refine ⟨List.forall_mem_append.2 ⟨legal_memberNames hparts, List.forall_mem_singleton.2 hkey⟩,
      ?_, .inr (List.forall_mem_nil _)⟩
    rw [RustItem.paths, List.forall_mem_cons, List.forall_mem_singleton]
    exact ⟨.inl (legalPath_singleton hname), .inl (legalPath_singleton halias)⟩

/-- An implemented interface is published. -/
theorem Workspace.WellTyped.exists_type_of_implements (hw : w.WellTyped) {i : TypeRef}
    (h : w.Implements r i) : ∃ j, w.type? i = some j := by
  obtain ⟨a, -, j, hj, hji⟩ := h
  have hinterface : ∃ x, i ∈ w.interfacesOf x := by
    rcases Relation.ReflTransGen.cases_tail hji with rfl | ⟨x, -, hx⟩
    · exact ⟨a, hj⟩
    · exact ⟨x, hx⟩
  obtain ⟨x, hx⟩ := hinterface
  obtain ⟨-, t, ht, -⟩ := hw.interfaces x i hx
  exact ⟨t, ht⟩

theorem Reached.writes_implementation (h : Reached w) {i : TypeRef} {name : String}
    {fields : List RustMember} {item : RustItem} (hi : w.Implements r i)
    (hname : LegalIdentifier name) (hfields : ∀ f ∈ fields, (SchemaView.mk w s).WritesMember f)
    (hitem : (SchemaView.mk w s).Implementation r name fields i item) :
    (SchemaView.mk w s).WritesItem derives item := by
  obtain ⟨path, getters, hpath, rfl, -, hgetters⟩ := hitem
  obtain ⟨t, ht⟩ := h.layered_flattened.1.wellTyped.exists_type_of_implements hi
  -- each getter gives a field of its own name and type
  have hmembers : ∀ g ∈ getters, (SchemaView.mk w s).WritesMember g := fun g hg => by
    obtain ⟨f, hf, hgname, hgtype, -⟩ := hgetters g hg
    exact ⟨hgname ▸ (hfields f hf).name, hgtype ▸ (hfields f hf).type⟩
  refine ⟨SchemaView.legal_memberNames hmembers, ?_, .inr (List.forall_mem_nil _)⟩
  rw [RustItem.paths, List.forall_mem_cons, List.forall_mem_cons]
  exact ⟨.inl (h.legalPath_typePath ht hpath), .inl (legalPath_singleton hname),
    SchemaView.writes_memberTypes hmembers⟩

theorem Reached.writes_compositeItems (h : Reached w) {c : LinkedComposite}
    (hu : w.type? r = some u) (hitems : compositeItems ⟨w, s⟩ derives r u c = .ok items) :
    ∀ item ∈ items, (SchemaView.mk w s).WritesItem derives item := by
  obtain ⟨hw, hflat⟩ := h.layered_flattened
  obtain ⟨name, fields, _, rfl, hname, hstruct, key, impls, rfl, himpls, hkey⟩ :=
    compositeItems_ok hitems
  have hdeclared := (h.permitted_type hu).name.isIdentifier
  have hname := legal_identifier hdeclared hname
  have hfields : (SchemaView.mk w s).FieldsOf r fields := hflat.fieldsOf hstruct
  have hmembers : ∀ f ∈ fields, (SchemaView.mk w s).WritesMember f := fun f hf => by
    obtain ⟨q, -, p, hp, hfield⟩ := exists_of_forall₂_right hfields.inStep hf
    exact h.writes_getter hp ⟨hfield.name, hfield.type⟩
  rw [List.forall_mem_cons, List.forall_mem_append]
  refine ⟨SchemaView.writesItem_struct hname hmembers (.inl rfl), ?_, fun item hitem => ?_⟩
  · split at hkey
    · rename_i hentity
      obtain ⟨root, layout, -, -, docs, parts, hparts, rfl, -⟩ :=
        h.keyed.keyOf hw.wellTyped hflat hu hentity hfields hkey
      refine SchemaView.writesItem_key hdeclared hname fun f hf => ?_
      obtain ⟨c, -, hmem, -⟩ := exists_of_forall₂_right hparts hf
      exact hmembers f hmem
    · obtain rfl := pure_eq_ok.1 hkey
      simp
  · obtain ⟨is, -, his, hall⟩ := hw.implementations hflat hu hfields himpls
    obtain ⟨i, hi, himpl⟩ := exists_of_forall₂_right hall hitem
    exact h.writes_implementation ((his i).1 hi) hname hmembers himpl

/-! ### Traits and enums -/

theorem Reached.writes_interfaceItems (h : Reached w) {c : LinkedComposite}
    (hu : w.type? r = some u) (hbody : u.body = .composite c)
    (hitems : interfaceItems ⟨w, s⟩ r u c = .ok items) :
    ∀ item ∈ items, (SchemaView.mk w s).WritesItem derives item := by
  obtain ⟨docs, name, supertraits, getters, rfl, hname, hgetters, hsupertraits⟩ :=
    interfaceItems_ok hitems
  have hname := legal_identifier (h.permitted_type hu).name.isIdentifier hname
  have hw := h.layered_flattened.1
  have hproperties := UserType.properties_eq hbody
  have hmembers : ∀ g ∈ getters, (SchemaView.mk w s).WritesMember g := fun g hg => by
    obtain ⟨p, hp, hgetter⟩ := exists_of_forall₂_right hgetters hg
    obtain ⟨k, hk⟩ := List.getElem?_of_mem hp
    rw [← hproperties] at hk
    have hproperty : w.property? ⟨r, k⟩ = some p := Option.bind_eq_some_iff.2 ⟨u, hu, hk⟩
    exact h.writes_getter hproperty hgetter
  have hpaths : ∀ path ∈ supertraits, LegalPath path := fun path hpath => by
    obtain ⟨i, hi, hok⟩ := exists_of_forall₂_right hsupertraits hpath
    obtain ⟨-, t, ht, -⟩ :=
      (hw.sound.composite hw.indexed.positioned hu hbody).interfaces i hi
    exact h.legalPath_typePath ht hok
  rw [List.forall_mem_singleton]
  refine ⟨List.forall_mem_cons.2 ⟨hname, SchemaView.legal_memberNames hmembers⟩, ?_,
    .inr (List.forall_mem_nil _)⟩
  rw [RustItem.paths, List.forall_mem_append]
  exact ⟨fun path hpath => .inl (hpaths path hpath), SchemaView.writes_memberTypes hmembers⟩

theorem legal_intType {k : PrimitiveKind} {text : String} (h : intType? k = some text) :
    LegalIdentifier text := by
  cases k <;> cases h <;> decide

theorem SchemaView.writesItem_value {v : SchemaView} {name repr : String}
    (hname : LegalIdentifier name) (hrepr : LegalIdentifier repr) :
    v.WritesItem derives (.valueAccessor name repr) := by
  have hvalue : LegalIdentifier "value" := by decide
  refine ⟨List.forall_mem_singleton.2 hvalue, ?_, .inr (List.forall_mem_nil _)⟩
  rw [RustItem.paths, List.forall_mem_cons, List.forall_mem_singleton]
  exact ⟨.inl (legalPath_singleton hname), .inl (legalPath_singleton hrepr)⟩

theorem Reached.writes_enumItems (h : Reached w) {e : EnumBody} (hu : w.type? r = some u)
    (hbody : u.body = .enum e) (hitems : enumItems ⟨w, s⟩ u e = .ok items) :
    ∀ item ∈ items, (SchemaView.mk w s).WritesItem derives item := by
  obtain ⟨hdeclared, -, helements, -⟩ := h.permitted_type hu
  obtain ⟨repr?, name, variants, rest, rfl, hname, hvariants, -, hrest⟩ := enumItems_ok hitems
  have hname := legal_identifier hdeclared.isIdentifier hname
  have hderives : ∀ d ∈ enumDerives, LegalIdentifier d := by decide
  have hrepr : ∀ repr ∈ repr?, LegalIdentifier repr := fun repr hrepr => by
    rcases hrest with ⟨-, rfl, -⟩ | ⟨-, text, hkind, rfl, -⟩
    · contradiction
    · obtain rfl := Option.some.inj hrepr
      exact legal_intType hkind
  rw [List.forall_mem_cons]
  refine ⟨⟨fun id hid => ?_, fun path hpath => ?_, .inr hderives⟩, fun item hitem => ?_⟩
  · rcases List.mem_cons.1 hid with rfl | hid
    · exact hname
    · obtain ⟨y, hy, rfl⟩ := List.mem_map.1 hid
      obtain ⟨x, hx, hxy⟩ := exists_of_forall₂_right hvariants hy
      exact legal_identifier (helements e hbody x hx).isIdentifier hxy.1
  · obtain ⟨repr, hmem, rfl⟩ := List.mem_map.1 hpath
    exact .inl (legalPath_singleton (hrepr repr (Option.mem_toList.1 hmem)))
  · rcases hrest with ⟨-, -, rfl⟩ | ⟨-, repr, hkind, -, rfl⟩
    · contradiction
    · obtain rfl := List.mem_singleton.1 hitem
      exact SchemaView.writesItem_value hname (legal_intType hkind)

theorem Reached.writes_typeItems (h : Reached w) (hu : w.type? r = some u)
    (hitems : typeItems ⟨w, s⟩ derives r u = .ok items) :
    ∀ item ∈ items, (SchemaView.mk w s).WritesItem derives item := by
  rcases typeItems_cases hitems with ⟨c, -, -, hitems⟩ | ⟨c, hbody, -, hitems⟩ |
    ⟨e, hbody, -, hitems⟩
  · exact h.writes_compositeItems hu hitems
  · exact h.writes_interfaceItems hu hbody hitems
  · exact h.writes_enumItems hu hbody hitems

/-! ### Registries -/

/-- The aliases of imports are identifiers. -/
theorem Reached.isIdentifier_alias (h : Reached w) (hs : s ∈ w.schemas) {i : String × SchemaKey}
    (hi : i ∈ s.imports) : Text.isIdentifier i.1 = true := by
  obtain ⟨declaration, _, _, -, -, -, hcompiles⟩ := h.compiledFrom s hs
  obtain ⟨_, -, hstands⟩ := exists_of_forall₂_right hcompiles.declared.1 hi
  cases hstands with
  | self _ hname => exact hname.permits.isIdentifier
  | published _ _ hname => exact hname.permits.isIdentifier

theorem Reached.isIdentifier_entity (h : Reached w) (hs : s ∈ w.schemas)
    {e : TypeRef × LinkedType} (he : e ∈ concreteEntities s) : Text.isIdentifier e.2.name = true :=
  ((h.permitted s hs).types e.2 (mem_types_of_concreteEntities he)).name.isIdentifier

theorem SchemaView.writes_entityField {v : SchemaView} {e : TypeRef × LinkedType} {f : RustMember}
    (hentity : Text.isIdentifier e.2.name = true) (hf : EntityField e f) : v.WritesMember f := by
  obtain ⟨hname, id, hid, htype⟩ := hf
  have hmap : LegalPath ["std", "collections", "HashMap"] := by decide
  refine ⟨legal_fieldName hentity hname, fun path hpath => .inl ?_⟩
  simp only [htype, RustType.paths, List.mem_cons, List.mem_append, List.not_mem_nil,
    or_false] at hpath
  rcases hpath with rfl | rfl | rfl
  · exact hmap
  · exact legalPath_singleton (legal_keyAlias hentity)
  · exact legalPath_singleton (legal_identifier hentity hid)

theorem Reached.writes_importField (h : Reached w) (hs : s ∈ w.schemas) {i : String × Schema}
    (hi : i ∈ (SchemaView.mk w s).imports) {f : RustMember} (hf : ImportField i f) :
    (SchemaView.mk w s).WritesMember f := by
  obtain ⟨hname, m, hm, htype⟩ := hf
  obtain ⟨key, hentry, -, hget⟩ := SchemaView.mem_imports_iff.1 hi
  have hschema := (h.permitted i.2 (List.mem_of_getElem? hget)).name.isIdentifier
  refine ⟨legal_fieldName (h.isIdentifier_alias hs hentry) hname, fun path hpath => .inl ?_⟩
  rw [htype, RustType.paths, List.mem_singleton] at hpath
  simp [hpath, LegalPath, legal_fieldName hschema hm, legal_registryName hschema]

theorem SchemaView.writesItem_inserters {v : SchemaView} {name : String}
    {maps : List (String × String)} (hname : LegalIdentifier name)
    (hmaps : ∀ m ∈ maps, LegalIdentifier m.1 ∧ LegalIdentifier m.2 ∧
      LegalIdentifier (RustItem.inserterName m.1)) :
    v.WritesItem derives (.inserters name maps) := by
  have hoption : LegalPath ["Option"] := by decide
  refine ⟨fun id hid => ?_, fun path hpath => .inl ?_, .inr (List.forall_mem_nil _)⟩
  · rcases List.mem_append.1 hid with hid | hid
    · obtain ⟨m, hm, rfl⟩ := List.mem_map.1 hid
      exact (hmaps m hm).1
    · obtain ⟨m, hm, rfl⟩ := List.mem_map.1 hid
      exact (hmaps m hm).2.2
  · rcases List.mem_cons.1 hpath with rfl | hpath
    · exact legalPath_singleton hname
    · obtain ⟨m, hm, hpath⟩ := List.mem_flatMap.1 hpath
      simp only [List.mem_cons, List.not_mem_nil, or_false] at hpath
      rcases hpath with rfl | rfl
      · exact hoption
      · exact legalPath_singleton (hmaps m hm).2.1

theorem Reached.writes_registryItems (h : Reached w) (hs : s ∈ w.schemas)
    (hitems : registryItems? ⟨w, s⟩ = .ok (some items)) :
    ∀ item ∈ items, (SchemaView.mk w s).WritesItem derives item := by
  obtain ⟨docs, name, fields, own, rest, maps, hname, -, rfl, hown, hrest, hmaps, rfl⟩ :=
    registryItems?_ok hitems
  have hname : LegalIdentifier name := by
    refine legal_identifier (isIdentifier_append ?_ (List.all_eq_true.1 (by decide))) hname
    exact (h.permitted s hs).name.isIdentifier
  have hfields : ∀ f ∈ own ++ rest, (SchemaView.mk w s).WritesMember f := by
    rw [List.forall_mem_append]
    refine ⟨fun f hf => ?_, fun f hf => ?_⟩
    · obtain ⟨e, he, hfield⟩ := exists_of_forall₂_right hown hf
      exact SchemaView.writes_entityField (h.isIdentifier_entity hs he) hfield
    · obtain ⟨i, hi, hfield⟩ := exists_of_forall₂_right hrest hf
      exact h.writes_importField hs (List.mem_of_mem_filter hi) hfield
  have hdefault : ∀ d ∈ ["Default"], LegalIdentifier d := by decide
  rw [List.forall_mem_cons]
  refine ⟨SchemaView.writesItem_struct hname hfields (.inr hdefault), ?_⟩
  split
  · simp
  · rw [List.forall_mem_singleton]
    refine SchemaView.writesItem_inserters hname fun m hm => ?_
    obtain ⟨e, he, hfield, htype⟩ := exists_of_forall₂_right hmaps hm
    have hentity := h.isIdentifier_entity hs he
    exact ⟨legal_fieldName hentity hfield, legal_identifier hentity htype,
      legal_inserterName hentity hfield⟩

/-! ### Files -/

theorem Reached.writes_files (h : Reached w) (hs : s ∈ w.schemas)
    (hitems : items ∈ (SchemaView.mk w s).files derives) :
    ∀ item ∈ items, (SchemaView.mk w s).WritesItem derives item := by
  rcases List.mem_append.1 hitems with hitems | hitems
  · obtain ⟨e, he, hok⟩ := List.mem_filterMap.1 hitems
    have htype := Workspace.type?_of_mem_zip (h.indexed.mem_iff.1 hs) he
    exact h.writes_typeItems htype (toOption_eq_some.1 hok)
  · have hregistry := Option.join_eq_some_iff.1 (Option.mem_toList.1 hitems)
    exact h.writes_registryItems hs (toOption_eq_some.1 hregistry)

/-- A path that is written is illegal only on account of the namespace of a custom primitive. -/
theorem SchemaView.Writes.legalPath_iff {v : SchemaView} {path : RustPath} (h : v.Writes path) :
    LegalPath path ↔ ∀ p ∈ v.workspace.primitives, p.kind = .custom → customPath p = .ok path →
      LegalNamespace p.namespace := by
  constructor
  · exact fun hlegal p _ _ hp => ((legalPath_customPath_iff hp).1 hlegal).2
  · intro hall
    rcases h with hlegal | ⟨p, hp, hkind, hname, hpath⟩
    · exact hlegal
    · refine (legalPath_customPath_iff hpath).2 ⟨?_, hall p hp hkind hpath⟩
      exact legal_spelled hname (customPath_eq_ok.1 hpath).2.1

end Items

/-- Whatever names the code for a published schema has for types, aliases, registries, members and
fields are legal. A path is legal unless it is that of a custom primitive with a part of its
namespace that is neither an identifier nor raw already; if all custom primitives have namespaces as
schemas have them, every path is legal. What a struct derives is what the backend is given. -/
theorem emitted_names_legal_iff {setup : Setup} {w : Workspace} (h : setup.Reaches w) {s : Schema}
    (hs : s ∈ w.schemas) (derives : List String) :
    ((backend derives).schemaResults ⟨w, s⟩).filterMap EmissionResult.code =
        ((SchemaView.mk w s).files derives).map (RustItem.renderFile s.name) ∧
    (∀ items ∈ (SchemaView.mk w s).files derives, ∀ item ∈ items,
      (∀ id ∈ item.identifiers, LegalIdentifier id) ∧
      (∀ path ∈ item.paths, LegalPath path ↔ ∀ p ∈ setup.primitives, p.kind = .custom →
        customPath p = .ok path → LegalNamespace p.namespace) ∧
      (item.derives = derives ∨ ∀ d ∈ item.derives, LegalIdentifier d)) ∧
    ((∀ p ∈ setup.primitives, p.kind = .custom → Text.isNamespace p.namespace = true) →
      ∀ items ∈ (SchemaView.mk w s).files derives, ∀ item ∈ items, ∀ path ∈ item.paths,
        LegalPath path) := by
  have hitem : ∀ items ∈ (SchemaView.mk w s).files derives, ∀ item ∈ items,
      (∀ id ∈ item.identifiers, LegalIdentifier id) ∧
      (∀ path ∈ item.paths, LegalPath path ↔ ∀ p ∈ setup.primitives, p.kind = .custom →
        customPath p = .ok path → LegalNamespace p.namespace) ∧
      (item.derives = derives ∨ ∀ d ∈ item.derives, LegalIdentifier d) := by
    intro items hitems item hmem
    obtain ⟨hids, hpaths, hderives⟩ := h.reached.writes_files hs hitems item hmem
    refine ⟨hids, fun path hpath => ?_, hderives⟩
    rw [← h.primitives_eq.1]
    exact (hpaths path hpath).legalPath_iff
  refine ⟨schemaResults_code, hitem, fun hnamespaces items hitems item hmem path hpath => ?_⟩
  refine ((hitem items hitems item hmem).2.1 path hpath).2 fun p hp hkind _ => ?_
  exact legalNamespace_of_isNamespace (hnamespaces p hp hkind)

/-! ### A custom primitive in a namespace -/

/-- An entity whose key is a custom primitive, under the name of a keyword. -/
def guidSources : SourceTable :=
  [("a", { name := some "A", types := [
      .entity { name := some "User", properties := [
        { name := some "type", typeText := some "Guid", role := .primaryKey }] }] })]

def guidSetup (ns : String) : Setup :=
  { custom := [.custom "Guid" ns true] }

def guidWorkspace (ns : String) : Workspace :=
  ((guidSetup ns).start.load guidSources.reader ["a"]).workspace

theorem reaches_guidWorkspace (ns : String) : (guidSetup ns).Reaches (guidWorkspace ns) := by
  have hnames : (guidSetup ns).primitives.map Primitive.name =
      PrimitiveKind.builtin.map PrimitiveKind.defaultName ++ ["Guid"] := rfl
  have hnodup : ((guidSetup ns).primitives.map Primitive.name).Nodup := by
    rw [hnames]
    decide
  exact .load guidSources.reader ["a"] (.build (Setup.build_of_nodup hnodup rfl))

/-- The identifiers and paths in the first item that is emitted. -/
def firstWritten (w : Workspace) : Option (List String × List RustPath) :=
  w.schemas.head?.bind fun s => ((SchemaView.mk w s).files []).head?.bind fun items =>
    items.head?.map fun item => (item.identifiers, item.paths)

theorem exists_of_firstWritten {w : Workspace} {ids : List String} {paths : List RustPath}
    (h : firstWritten w = some (ids, paths)) :
    ∃ s ∈ w.schemas, ∃ items ∈ (SchemaView.mk w s).files [], ∃ item ∈ items,
      item.identifiers = ids ∧ item.paths = paths := by
  obtain ⟨s, hs, h⟩ := Option.bind_eq_some_iff.1 h
  obtain ⟨items, hitems, h⟩ := Option.bind_eq_some_iff.1 h
  obtain ⟨item, hitem, h⟩ := Option.map_eq_some_iff.1 h
  exact ⟨s, List.mem_of_mem_head? hs, items, List.mem_of_mem_head? hitems, item,
    List.mem_of_mem_head? hitem, (Prod.mk.inj h).1, (Prod.mk.inj h).2⟩

/-- A keyword is made raw, both as a field and as a module. -/
theorem emitted_names_legal_iff_guid :
    (guidSetup "ids.Type").Reaches (guidWorkspace "ids.Type") ∧
    (∀ p ∈ (guidSetup "ids.Type").primitives, p.kind = .custom →
      Text.isNamespace p.namespace = true) ∧
    ∃ s ∈ (guidWorkspace "ids.Type").schemas,
      ∃ items ∈ (SchemaView.mk (guidWorkspace "ids.Type") s).files [], ∃ item ∈ items,
        item.identifiers = ["User", "r#type"] ∧ item.paths = [["ids", "r#type", "Guid"]] ∧
        (∀ id ∈ item.identifiers, LegalIdentifier id) ∧ ∀ path ∈ item.paths, LegalPath path := by
  have hreaches := reaches_guidWorkspace "ids.Type"
  have hnamespaces : ∀ p ∈ (guidSetup "ids.Type").primitives, p.kind = .custom →
      Text.isNamespace p.namespace = true := by decide
  have hfirst : firstWritten (guidWorkspace "ids.Type") =
      some (["User", "r#type"], [["ids", "r#type", "Guid"]]) := by cbv
  obtain ⟨s, hs, items, hitems, item, hitem, hids, hpaths⟩ := exists_of_firstWritten hfirst
  obtain ⟨-, hlegal, hall⟩ := emitted_names_legal_iff hreaches hs []
  exact ⟨hreaches, hnamespaces, s, hs, items, hitems, item, hitem, hids, hpaths,
    (hlegal items hitems item hitem).1, hall hnamespaces items hitems item hitem⟩

/-- A setup that is accepted has a namespace of which no legal module can be made, and code is
written with it all the same. -/
theorem crate_path_illegal :
    (guidSetup "my-crate").build = .ok (guidSetup "my-crate").start ∧
    (guidSetup "my-crate").Reaches (guidWorkspace "my-crate") ∧
    ∃ s ∈ (guidWorkspace "my-crate").schemas,
      ∃ items ∈ (SchemaView.mk (guidWorkspace "my-crate") s).files [], ∃ item ∈ items,
        ["my-crate", "Guid"] ∈ item.paths ∧ ¬LegalPath ["my-crate", "Guid"] := by
  have hfirst : firstWritten (guidWorkspace "my-crate") =
      some (["User", "r#type"], [["my-crate", "Guid"]]) := by cbv
  obtain ⟨s, hs, items, hitems, item, hitem, -, hpaths⟩ := exists_of_firstWritten hfirst
  refine ⟨Setup.build_of_nodup (by decide) rfl, reaches_guidWorkspace "my-crate", s, hs, items,
    hitems, item, hitem, ?_, by decide⟩
  simp [hpaths]

end SchemaGraph
