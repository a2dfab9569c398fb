import SchemaGraph.Proofs.EmittedNames
import SchemaGraph.Proofs.Registries
import SchemaGraph.Proofs.Reports

/-!
The types that emitted code hashes: those of the elements of sets and of the keys of maps. A floating
point number cannot be hashed, and so neither can the key of an entity with a floating point
component. A warning stands on every set of floating point values, on every map keyed by them and on
every registry with such a key. Only for sets of foreign keys there is none: emitted without a
warning, code hashes a floating point value just if it has such a set.
-/

namespace SchemaGraph

open RustNames RustSource

/-! ### Hashed types -/

/-- The elements of sets and the keys of maps in a type. -/
def RustType.hashed : RustType → List RustType
  | .path _ => []
  | .boxed t | .vec t | .option t => t.hashed
  | .hashSet t => t :: t.hashed
  | .hashMap k t => k :: k.hashed ++ t.hashed

namespace RustItem

/-- All types that an item gives to its members, or names. -/
def types : RustItem → List RustType
  | .struct _ _ _ fields => fields.map RustMember.type
  | .tupleAlias _ _ types => types
  | .trait _ _ _ getters | .traitImpl _ _ getters => getters.map RustMember.type
  | .keyAccessor .. | .enum .. | .valueAccessor .. | .inserters .. => []

def hashed (item : RustItem) : List RustType :=
  item.types.flatMap RustType.hashed

end RustItem

/-- The elements of a set, or the keys of a map. -/
def DataType.hashed : DataType → List DataType
  | .container .set _ value => [value]
  | .container .map (some key) _ => [.primitive key]
  | _ => []

/-- Values of the type are floating point numbers, or keys that hold one. -/
def Workspace.IsFloating (w : Workspace) : DataType → Prop
  | .primitive id => ∃ p, w.primitives[id]? = some p ∧ p.kind.isFloating = true
  | .entity r => ∃ layout, w.primaryKey? r = some layout ∧
      ∃ c ∈ layout.components, c.kind.isFloating = true
  | _ => False

namespace SchemaView

variable (v : SchemaView)

/-- The properties that the code for a type has members for, in their order. -/
def writtenProperties (r : TypeRef) (t : LinkedType) : List LinkedProperty :=
  match t.kind with
  | .entity | .struct => v.workspace.effectiveProperties r ++
      (implementedInterfaces v r).flatMap (interfaceProperties v)
  | .interface => t.properties
  | .enum => []

/-- The types that the code for a type hashes. -/
def hashedTypes (r : TypeRef) (t : LinkedType) : List DataType :=
  (v.writtenProperties r t).flatMap fun p => p.type.hashed

end SchemaView

section Hashed

variable {v : SchemaView} {w : Workspace} {s : Schema} {r owner : TypeRef} {t : DataType}
  {a : RustType} {p : LinkedProperty}

theorem DataType.hashed_eq (t : DataType) : t.hashed =
    match t.shape? with
    | some .set => [t.leaf]
    | some .map => t.key?.toList
    | _ => [] := by
  cases t with
  | container shape key value => cases shape <;> cases key <;> rfl
  | _ => rfl

theorem RustType.hashed_eq (hkey : ∀ k ∈ a.key?, k.hashed = []) (hvalue : a.value.hashed = []) :
    a.hashed =
      match a.shape? with
      | some .set => [a.value]
      | some .map => a.key?.toList
      | _ => [] := by
  cases a with
  | path path => rfl
  | boxed b | vec b | option b => exact hvalue
  | hashSet b => exact congrArg (b :: ·) hvalue
  | hashMap k b =>
      have hkey : k.hashed = [] := hkey k rfl
      have hvalue : b.hashed = [] := hvalue
      rw [hashed, hkey, hvalue]
      rfl

theorem SchemaView.Refers.hashed_eq_nil (h : v.Refers t a) : a.hashed = [] := by
  obtain ⟨path, rfl | rfl⟩ := h.path_or_boxed <;> rfl

/-- What a type is written as hashes what the type does. -/
theorem SchemaView.Written.hashed (h : v.Written t a) :
    List.Forall₂ v.Refers t.hashed a.hashed := by
  obtain ⟨hshape, hkey, hvalue⟩ := h
  have hkeys : ∀ k ∈ a.key?, k.hashed = [] := by
    intro k hk
    rw [Option.mem_def.1 hk] at hkey
    generalize t.key? = key at hkey
    cases hkey with
    | some hrefers => exact hrefers.hashed_eq_nil
  rw [t.hashed_eq, RustType.hashed_eq hkeys hvalue.hashed_eq_nil, hshape]
  split
  · exact .cons hvalue .nil
  · generalize t.key? = key, a.key? = written at hkey
    cases hkey with
    | none => exact .nil
    | some hrefers => exact .cons hrefers .nil
  · exact .nil

/-! ### Members -/

theorem Reached.sound_written (h : Reached w) {u : LinkedType} (hu : w.type? r = some u)
    (hp : p ∈ (SchemaView.mk w s).writtenProperties r u) :
    ∃ bound, p.type.Sound w bound p.role := by
  have hw := h.layered_flattened.1
  rw [SchemaView.writtenProperties] at hp
  cases hkind : u.kind with
  | enum => simp [hkind] at hp
  | interface =>
      rw [hkind] at hp
      obtain ⟨c, hbody⟩ := (hw.agrees hu).exists_composite (by simp [hkind])
      replace hp : p ∈ u.properties := hp
      rw [UserType.properties_eq hbody] at hp
      exact ⟨_, (hw.sound.composite hw.indexed.positioned hu hbody).properties p hp⟩
  | entity | struct =>
      rw [hkind] at hp
      rcases List.mem_append.1 hp with hp | hp
      · exact hw.sound_effective hp
      · obtain ⟨i, -, hp⟩ := List.mem_flatMap.1 hp
        obtain ⟨k, hk⟩ := List.getElem?_of_mem hp
        exact ⟨_, hw.sound_property ((TypeLookup.property?_mk _ i k).trans hk)⟩

/-- Members that are written for sound properties hash what the properties do. -/
theorem hashed_members {ps : List LinkedProperty} {fields : List RustMember}
    (hsound : ∀ p ∈ ps, ∃ bound, p.type.Sound w bound p.role)
    (h : List.Forall₂ (fun p f => propertyType ⟨w, s⟩ owner p = .ok f.type) ps fields) :
    List.Forall₂ (SchemaView.mk w s).Refers (ps.flatMap fun p => p.type.hashed)
      ((fields.map RustMember.type).flatMap RustType.hashed) := by
  rw [List.flatMap_map]
  refine List.rel_flatMap (forall₂_imp_of_mem (S := fun p (f : RustMember) =>
    (SchemaView.mk w s).Written p.type f.type) (fun p hp f hf => ?_) h) fun p f hpf => hpf.hashed
  obtain ⟨bound, hsound⟩ := hsound p hp
  exact propertyType_written hsound hf

end Hashed

/-! ### Items -/

section Items

variable {w : Workspace} {s : Schema} {r : TypeRef} {u : LinkedType} {derives : List String}
  {items : List RustItem}

theorem hashed_keyItems {v : SchemaView} {name : String} {key : List RustItem}
    (h : (if u.kind = .entity then keyItems v r u name else pure []) = .ok key) :
    key.flatMap RustItem.hashed = [] := by
  split at h
  · obtain ⟨docs, types, parts, rfl, htypes⟩ := keyItems_ok h
    have hnone : types.flatMap RustType.hashed = [] := List.flatMap_eq_nil_iff.2 fun type htype => by
      obtain ⟨id, hid⟩ := htypes type htype
      exact (SchemaView.Refers.primitive hid).hashed_eq_nil
    simp [RustItem.hashed, RustItem.types, hnone]
  · obtain rfl := pure_eq_ok.1 h
    rfl

theorem hashed_compositeItems {c : LinkedComposite}
    (hsound : ∀ p ∈ w.effectiveProperties r ++
      (implementedInterfaces ⟨w, s⟩ r).flatMap (interfaceProperties ⟨w, s⟩),
        ∃ bound, p.type.Sound w bound p.role)
    (hitems : compositeItems ⟨w, s⟩ derives r u c = .ok items) :
    List.Forall₂ (SchemaView.mk w s).Refers
      ((w.effectiveProperties r ++
        (implementedInterfaces ⟨w, s⟩ r).flatMap (interfaceProperties ⟨w, s⟩)).flatMap
          fun p => p.type.hashed)
      (items.flatMap RustItem.hashed) := by
  rw [List.forall_mem_append] at hsound
  obtain ⟨name, fields, _, rfl, -, hfields, key, impls, rfl, himpls, hkey⟩ :=
    compositeItems_ok hitems
  rw [List.flatMap_append, List.flatMap_cons, List.flatMap_append, hashed_keyItems hkey,
    List.nil_append, List.flatMap_assoc]
  refine List.rel_append ?_ ?_
  · exact hashed_members hsound.1 ((structFields_eq_ok.1 hfields).1.imp fun p f hf => hf.type)
  · have himpls : List.Forall₂ (fun i item => i ∈ implementedInterfaces ⟨w, s⟩ r ∧
        interfaceImpl ⟨w, s⟩ r name i = .ok item) (implementedInterfaces ⟨w, s⟩ r) impls :=
      forall₂_imp_of_mem (fun i hi item hitem => ⟨hi, hitem⟩) (mapM_eq_ok.1 himpls)
    refine List.rel_flatMap himpls fun i item ⟨hi, hitem⟩ => ?_
    obtain ⟨path, getters, -, rfl, hgetters⟩ := interfaceImpl_ok hitem
    exact hashed_members (fun p hp => hsound.2 p (List.mem_flatMap_of_mem hi hp))
      (hgetters.imp fun p g hg => hg.2)

theorem Reached.hashed_typeItems (h : Reached w) (hu : w.type? r = some u)
    (hitems : typeItems ⟨w, s⟩ derives r u = .ok items) :
    List.Forall₂ (SchemaView.mk w s).Refers ((SchemaView.mk w s).hashedTypes r u)
      (items.flatMap RustItem.hashed) := by
  have hsound : ∀ p ∈ (SchemaView.mk w s).writtenProperties r u,
      ∃ bound, p.type.Sound w bound p.role := fun p hp => h.sound_written hu hp
  rw [SchemaView.hashedTypes]
  rw [SchemaView.writtenProperties] at hsound ⊢
  rcases typeItems_cases hitems with ⟨c, hbody, hkind | hkind, hitems⟩ |
    ⟨c, hbody, hkind, hitems⟩ | ⟨e, hbody, hkind, hitems⟩ <;> rw [hkind] at hsound ⊢
  · exact hashed_compositeItems hsound hitems
  · exact hashed_compositeItems hsound hitems
  · obtain ⟨docs, name, supertraits, getters, rfl, -, hgetters, -⟩ := interfaceItems_ok hitems
    simp only [UserType.properties_eq hbody] at hsound ⊢
    rw [List.flatMap_singleton]
    exact hashed_members hsound (hgetters.imp fun p g hg => hg.2)
  · obtain ⟨repr?, name, variants, rest, rfl, -, -, -, hrest⟩ := enumItems_ok hitems
    rcases hrest with ⟨-, -, rfl⟩ | ⟨-, repr, -, -, rfl⟩ <;> exact .nil

theorem RustSource.EntityField.hashed (hs : w.schemas[s.key]? = some s) {e : TypeRef × LinkedType}
    (he : e ∈ concreteEntities s) {f : RustMember} (h : EntityField e f) :
    List.Forall₂ (SchemaView.mk w s).Refers [.entity e.1] f.type.hashed := by
  obtain ⟨hzip, hconcrete⟩ := List.mem_filter.1 he
  obtain ⟨hkind, -⟩ := isConcreteEntity_iff.1 hconcrete
  -- the entity is of the schema itself, so that its alias needs no path
  have hown : e.1.schema = s.key := by
    obtain ⟨i, -, hi⟩ := List.mem_map.1 (List.of_mem_zip hzip).1
    rw [← hi]
  obtain ⟨id, -, htype⟩ := h.type
  rw [htype]
  exact .cons (.key (Workspace.type?_of_mem_zip hs hzip) hkind (if_pos hown)) .nil

theorem RustSource.ImportField.hashed {i : String × Schema} {f : RustMember} (h : ImportField i f) :
    f.type.hashed = [] := by
  obtain ⟨m, -, htype⟩ := h.type
  rw [htype]
  rfl

/-- The registry hashes the keys of the entities that it holds. -/
theorem Reached.hashed_registryItems (h : Reached w) (hs : s ∈ w.schemas)
    (hitems : registryItems? ⟨w, s⟩ = .ok (some items)) :
    List.Forall₂ (SchemaView.mk w s).Refers
      ((concreteEntities s).map fun e => .entity e.1) (items.flatMap RustItem.hashed) := by
  obtain ⟨docs, name, _, own, rest, maps, -, -, rfl, hown, hrest, -, rfl⟩ := registryItems?_ok hitems
  have hinserters : (if maps.isEmpty then [] else [RustItem.inserters name maps]).flatMap
      RustItem.hashed = [] := by
    split <;> rfl
  have himports : rest.flatMap (fun f => f.type.hashed) = [] :=
    List.flatMap_eq_nil_iff.2 fun f hf => by
      obtain ⟨i, -, hi⟩ := exists_of_forall₂_right hrest hf
      exact hi.hashed
  rw [List.flatMap_cons, hinserters, List.append_nil, RustItem.hashed, RustItem.types,
    List.flatMap_map, List.flatMap_append, himports, List.append_nil, List.map_eq_flatMap]
  exact List.rel_flatMap (forall₂_imp_of_mem (fun e he f hf =>
    hf.hashed (h.indexed.mem_iff.1 hs) he) hown) fun e f hef => hef

/-! ### Warnings -/

theorem propertyNotes_subset {v : SchemaView} {p : LinkedProperty}
    (hp : p ∈ v.writtenProperties r u) : propertyNotes v p ⊆ typeNotes v r u := by
  intro n hn
  rw [SchemaView.writtenProperties] at hp
  rw [typeNotes]
  cases hkind : u.kind with
  | enum => simp [hkind] at hp
  | interface =>
      rw [hkind] at hp
      exact List.mem_flatMap_of_mem hp hn
  | entity | struct =>
      rw [hkind] at hp
      rcases List.mem_append.1 hp with hp | hp
      · have hmem := List.mem_flatMap_of_mem hp hn
        simp only [compositeNotes, List.mem_append]
        exact .inl (.inl (.inr hmem))
      · obtain ⟨i, hi, hp⟩ := List.mem_flatMap.1 hp
        exact List.mem_append_right _ <|
          List.mem_flatMap.2 ⟨i, hi, List.mem_flatMap_of_mem hp hn⟩

theorem propertyNotes_warn {v : SchemaView} {p : LinkedProperty} {n : Note}
    (hn : n ∈ propertyNotes v p) : n.severity = .warning := by
  rw [propertyNotes] at hn
  split at hn
  · split at hn <;> simp_all
  · split at hn <;> simp_all
  · simp at hn

theorem isHashable_eq_false_iff {id : PrimitiveId} :
    isHashable ⟨w, s⟩ id = false ↔ w.IsFloating (.primitive id) := by
  simp [isHashable, Workspace.IsFloating, Option.any_eq_true]

/-- A property that hashes floating point values and gets no warning is a set of foreign keys. -/
theorem isFloating_hashed_iff {bound : SchemaKey} {p : LinkedProperty}
    (hsound : p.type.Sound w bound p.role) (hnotes : propertyNotes ⟨w, s⟩ p = []) :
    (∃ t ∈ p.type.hashed, w.IsFloating t) ↔
      ∃ target, p.type = .container .set none (.entity target) ∧ w.IsFloating (.entity target) := by
  constructor
  · rintro ⟨t, ht, hfloating⟩
    rw [propertyNotes] at hnotes
    cases htype : p.type with
    | container shape key value =>
      rw [htype] at ht hnotes
      cases shape with
      | set =>
        obtain rfl := hsound.noKey _ _ _ htype (by decide)
        obtain rfl := List.mem_singleton.1 ht
        cases t with
        | entity target => exact ⟨target, rfl, hfloating⟩
        | primitive id => simp [isHashable_eq_false_iff.2 hfloating] at hnotes
        | _ => exact hfloating.elim
      | map =>
        obtain ⟨id, -, rfl, -⟩ := hsound.mapKey _ _ htype
        obtain rfl := List.mem_singleton.1 ht
        simp [isHashable_eq_false_iff.2 hfloating] at hnotes
      | _ => simp [DataType.hashed] at ht
    | _ => simp [htype, DataType.hashed] at ht
  · rintro ⟨target, htype, hfloating⟩
    exact ⟨.entity target, by simp [htype, DataType.hashed], hfloating⟩

/-- Code for a type that comes without a warning hashes floating point values just if it has a set
of foreign keys that hold them. -/
theorem Reached.isFloating_hashedTypes_iff (h : Reached w) (hu : w.type? r = some u)
    (hsilent : ∀ n ∈ typeNotes ⟨w, s⟩ r u, n.severity.rank < Severity.warning.rank) :
    (∃ t ∈ (SchemaView.mk w s).hashedTypes r u, w.IsFloating t) ↔
      ∃ p ∈ (SchemaView.mk w s).writtenProperties r u, ∃ target,
        p.type = .container .set none (.entity target) ∧ w.IsFloating (.entity target) := by
  have hnotes : ∀ p ∈ (SchemaView.mk w s).writtenProperties r u, propertyNotes ⟨w, s⟩ p = [] := by
    intro p hp
    refine List.eq_nil_iff_forall_not_mem.2 fun n hn => ?_
    have hlt := hsilent n (propertyNotes_subset hp hn)
    rw [propertyNotes_warn hn] at hlt
    exact Nat.lt_irrefl _ hlt
  have hproperty : ∀ p ∈ (SchemaView.mk w s).writtenProperties r u,
      ((∃ t ∈ p.type.hashed, w.IsFloating t) ↔ ∃ target,
        p.type = .container .set none (.entity target) ∧ w.IsFloating (.entity target)) := by
    intro p hp
    obtain ⟨bound, hsound⟩ := h.sound_written hu hp
    exact isFloating_hashed_iff hsound (hnotes p hp)
  constructor
  · rintro ⟨t, ht, hfloating⟩
    obtain ⟨p, hp, ht⟩ := List.mem_flatMap.1 ht
    exact ⟨p, hp, (hproperty p hp).1 ⟨t, ht, hfloating⟩⟩
  · rintro ⟨p, hp, htarget⟩
    obtain ⟨t, ht, hfloating⟩ := (hproperty p hp).2 htarget
    exact ⟨t, List.mem_flatMap_of_mem hp ht, hfloating⟩

theorem not_isFloating_of_registryNotes
    (hsilent : ∀ n ∈ registryNotes ⟨w, s⟩, n.severity.rank < Severity.warning.rank)
    {e : TypeRef × LinkedType} (he : e ∈ concreteEntities s) : ¬w.IsFloating (.entity e.1) := by
  rintro ⟨layout, hlayout, hfloating⟩
  have hwarns : ⟨.warning, s!"'{e.2.name}' is keyed by a floating point value"⟩ ∈
      registryNotes ⟨w, s⟩ := by
    refine List.mem_flatMap.2 ⟨e, he, ?_⟩
    rw [hlayout]
    simpa using hfloating
  exact Nat.lt_irrefl _ (hsilent _ hwarns)

/-! ### Silent code -/

/-- Code for a type without a warning hashes what the properties do that it is written for, and so
it hashes floating point values just if one of them is a set of foreign keys with such a value. The
registry of a schema without a warning is keyed by no floating point values. -/
theorem silent_floating_hash_iff_set_of_keys (h : Reached w) (hs : s ∈ w.schemas)
    (derives : List String) :
    (∀ r u e, (r, u) ∈ s.refs.zip s.types → (backend derives).emitType ⟨w, s⟩ r u = .ok e →
      e.severity.rank < Severity.warning.rank →
      ∃ items, e.code = RustItem.renderFile s.name items ∧
        List.Forall₂ (SchemaView.mk w s).Refers ((SchemaView.mk w s).hashedTypes r u)
          (items.flatMap RustItem.hashed) ∧
        ((∃ t ∈ (SchemaView.mk w s).hashedTypes r u, w.IsFloating t) ↔
          ∃ p ∈ (SchemaView.mk w s).writtenProperties r u, ∃ target,
            p.type = .container .set none (.entity target) ∧ w.IsFloating (.entity target))) ∧
    ∀ e, (backend derives).emitSchema ⟨w, s⟩ = .ok (some e) →
      e.severity.rank < Severity.warning.rank →
      ∃ items, e.code = RustItem.renderFile s.name items ∧
        List.Forall₂ (SchemaView.mk w s).Refers
          ((concreteEntities s).map fun x => .entity x.1) (items.flatMap RustItem.hashed) ∧
        ∀ x ∈ concreteEntities s, ¬w.IsFloating (.entity x.1) := by
  have hrank : 0 < Severity.warning.rank := by decide
  refine ⟨fun r u e hmem he hsilent => ?_, fun e he hsilent => ?_⟩
  · have hu := Workspace.type?_of_mem_zip (h.indexed.mem_iff.1 hs) hmem
    obtain ⟨items, hitems, -⟩ := backend_emitType_ok he
    obtain rfl := Except.ok.inj (he.symm.trans (backend_emitType_of_ok hitems))
    have hnotes := (Emitted.severity_lt_iff hrank).1 hsilent
    exact ⟨items, rfl, h.hashed_typeItems hu hitems, h.isFloating_hashedTypes_iff hu hnotes⟩
  · obtain ⟨items, hitems, -⟩ := backend_emitSchema_ok he
    obtain rfl := Option.some.inj (Except.ok.inj (he.symm.trans (backend_emitSchema_of_ok hitems)))
    have hnotes := (Emitted.severity_lt_iff hrank).1 hsilent
    exact ⟨items, rfl, h.hashed_registryItems hs hitems, fun x hx =>
      not_isFloating_of_registryNotes hnotes hx⟩

end Items

/-! ### A set of keys of another schema -/

/-- An entity with a floating point key, and a schema with a set of such keys beside an entity of
its own whose key is a number. -/
def routeSources : SourceTable :=
  [("a", { name := some "A", types := [
      .entity { name := some "Point", properties := [
        { name := some "x", typeText := some "double", role := .primaryKey }] }] }),
    ("b", { name := some "B", imports := [{ source := "a" }], types := [
      .entity { name := some "Stop", properties := [
        { name := some "id", typeText := some "int", role := .primaryKey }] },
      .struct { name := some "Route", properties := [
        { name := some "points", typeText := some "A.Point{}", role := .foreignKey }] }] })]

def routeWorkspace : Workspace :=
  (({ primitives := [.builtin "int" .int32, .builtin "double" .double] } : Workspace).load
    routeSources.reader ["b"]).workspace

theorem reached_routeWorkspace : Reached routeWorkspace :=
  (Reached.empty [.builtin "int" .int32, .builtin "double" .double] {} none).load
    routeSources.reader ["b"]

/-- The code for the set. -/
def routeStruct : RustItem :=
  .struct ["Struct `Route`"] [] "Route" [{
    docs := ["Foreign key."]
    name := "points"
    type := .hashSet (.path ["super", "a", "PointKey"]) }]

def stopRegistry : List RustItem :=
  [.struct ["Repositories for the entities of schema `B`"] ["Default"] "BRegistry"
      [{ name := "stop", type := .hashMap (.path ["StopKey"]) (.path ["Stop"]) },
        { name := "a", type := .path ["super", "a", "ARegistry"] }],
    .inserters "BRegistry" [("stop", "Stop")]]

theorem routeWorkspace_items :
    ∃ s u, routeWorkspace.schemas[1]? = some s ∧ (⟨1, 1⟩, u) ∈ s.refs.zip s.types ∧
      routeWorkspace.IsFloating (.entity ⟨0, 0⟩) ∧
      typeItems ⟨routeWorkspace, s⟩ [] ⟨1, 1⟩ u = .ok [routeStruct] ∧
      typeNotes ⟨routeWorkspace, s⟩ ⟨1, 1⟩ u = [] ∧
      registryItems? ⟨routeWorkspace, s⟩ = .ok (some stopRegistry) ∧
      registryNotes ⟨routeWorkspace, s⟩ = [] ∧ (concreteEntities s).map Prod.fst = [⟨1, 0⟩] ∧
      (SchemaView.mk routeWorkspace s).hashedTypes ⟨1, 1⟩ u = [.entity ⟨0, 0⟩] := by
  -- the key of the first entity is found in the same evaluation
  have hfound : (routeWorkspace.schemas[1]?.bind fun s =>
      (s.refs.zip s.types)[1]?.map fun e =>
        (e.1,
          (routeWorkspace.primaryKey? ⟨0, 0⟩).any fun layout =>
            layout.components.any fun c => c.kind.isFloating,
          typeItems ⟨routeWorkspace, s⟩ [] e.1 e.2, typeNotes ⟨routeWorkspace, s⟩ e.1 e.2,
          registryItems? ⟨routeWorkspace, s⟩, registryNotes ⟨routeWorkspace, s⟩,
          (concreteEntities s).map Prod.fst,
          (SchemaView.mk routeWorkspace s).hashedTypes e.1 e.2)) =
      some (⟨1, 1⟩, true, .ok [routeStruct], [], .ok (some stopRegistry), [], [⟨1, 0⟩],
        [.entity ⟨0, 0⟩]) := by cbv
  obtain ⟨s, hs, hfound⟩ := Option.bind_eq_some_iff.1 hfound
  obtain ⟨⟨r, u⟩, hu, hfound⟩ := Option.map_eq_some_iff.1 hfound
  simp only [Prod.mk.injEq] at hfound
  obtain ⟨rfl, hany, hfound⟩ := hfound
  obtain ⟨layout, hlayout, hany⟩ := (Option.any_eq_true _ _).1 hany
  have hfloating : routeWorkspace.IsFloating (.entity ⟨0, 0⟩) :=
    ⟨layout, hlayout, List.any_eq_true.1 hany⟩
  exact ⟨s, u, hs, List.mem_of_getElem? hu, hfloating, hfound⟩

/-- A set of keys that hold floating point numbers is emitted with success. -/
theorem floating_keys_hashed_silently :
    Reached routeWorkspace ∧ ∃ s u e, routeWorkspace.schemas[1]? = some s ∧
      (⟨1, 1⟩, u) ∈ s.refs.zip s.types ∧
      (backend []).emitType ⟨routeWorkspace, s⟩ ⟨1, 1⟩ u = .ok e ∧ e.severity = .success ∧
      e.code = RustItem.renderFile s.name [routeStruct] ∧
      routeStruct.hashed = [.path ["super", "a", "PointKey"]] ∧
      (SchemaView.mk routeWorkspace s).Refers (.entity ⟨0, 0⟩)
        (.path ["super", "a", "PointKey"]) ∧
      routeWorkspace.IsFloating (.entity ⟨0, 0⟩) := by
  obtain ⟨s, u, hs, hu, hfloating, hitems, hnotes, -, -, -, hhashed⟩ := routeWorkspace_items
  have hreached := reached_routeWorkspace
  have htype := Workspace.type?_of_mem_zip (hreached.indexed.mem_iff.1 (List.mem_of_getElem? hs)) hu
  have hrefers := hreached.hashed_typeItems htype hitems
  rw [hhashed] at hrefers
  have hsuccess : (file ⟨routeWorkspace, s⟩ [routeStruct]
      (typeNotes ⟨routeWorkspace, s⟩ ⟨1, 1⟩ u)).severity = .success := by
    rw [hnotes]
    rfl
  exact ⟨hreached, s, u, _, hs, hu, backend_emitType_of_ok hitems, hsuccess, rfl, rfl,
    (List.forall₂_cons.1 hrefers).1, hfloating⟩

/-- The set of keys is the one floating point value that is hashed where no warning stands; the
registry of the same schema has none. -/
theorem silent_floating_hash_iff_set_of_keys_route :
    Reached routeWorkspace ∧ ∃ s u e e', s ∈ routeWorkspace.schemas ∧
      (⟨1, 1⟩, u) ∈ s.refs.zip s.types ∧
      (backend []).emitType ⟨routeWorkspace, s⟩ ⟨1, 1⟩ u = .ok e ∧
      e.severity.rank < Severity.warning.rank ∧
      (∃ p ∈ (SchemaView.mk routeWorkspace s).writtenProperties ⟨1, 1⟩ u, ∃ target,
        p.type = .container .set none (.entity target) ∧
          routeWorkspace.IsFloating (.entity target)) ∧
      (backend []).emitSchema ⟨routeWorkspace, s⟩ = .ok (some e') ∧
      e'.severity.rank < Severity.warning.rank ∧ ¬routeWorkspace.IsFloating (.entity ⟨1, 0⟩) := by
  obtain ⟨s, u, hs, hu, hfloating, hitems, hnotes, hregistry, hregistryNotes, hentities, hhashed⟩ :=
    routeWorkspace_items
  have hmem := List.mem_of_getElem? hs
  have hemit := backend_emitType_of_ok hitems
  have hschema : (backend []).emitSchema ⟨routeWorkspace, s⟩ = .ok (some
      (file ⟨routeWorkspace, s⟩ stopRegistry (registryNotes ⟨routeWorkspace, s⟩))) :=
    backend_emitSchema_of_ok hregistry
  have hrank : 0 < Severity.warning.rank := by decide
  have hsilent := (Emitted.severity_lt_iff (e := file ⟨routeWorkspace, s⟩ [routeStruct]
    (typeNotes ⟨routeWorkspace, s⟩ ⟨1, 1⟩ u)) hrank).2 (by simp [file, hnotes])
  have hsilentSchema := (Emitted.severity_lt_iff (e := file ⟨routeWorkspace, s⟩ stopRegistry
    (registryNotes ⟨routeWorkspace, s⟩)) hrank).2 (by simp [file, hregistryNotes])
  obtain ⟨htypes, hschemas⟩ :=
    silent_floating_hash_iff_set_of_keys reached_routeWorkspace hmem []
  obtain ⟨-, -, -, hiff⟩ := htypes _ u _ hu hemit hsilent
  obtain ⟨-, -, -, hnone⟩ := hschemas _ hschema hsilentSchema
  have hstop : ⟨1, 0⟩ ∈ (concreteEntities s).map Prod.fst := by simp [hentities]
  obtain ⟨x, hx, hstop⟩ := List.mem_map.1 hstop
  refine ⟨reached_routeWorkspace, s, u, _, _, hmem, hu, hemit, hsilent, hiff.1 ?_, hschema,
    hsilentSchema, hstop ▸ hnone x hx⟩
  exact ⟨.entity ⟨0, 0⟩, by simp [hhashed], hfloating⟩

end SchemaGraph
