import SchemaGraph.Proofs.Guards
import SchemaGraph.Proofs.InlineStorage

/-!
The guarded twins of emission, down to the single property, and why none of their accesses fails in
an intact workspace.

Emission asks for published types only: those of the schema that is emitted, their bases and
interfaces, the types that their properties have, and whatever those store in place. The owner of
a key is an entity without a base, and its key consists of primitives.
-/

namespace SchemaGraph.Guarded

/-! ### Properties and keys -/

section Workspace

variable (w : Workspace)

def effectiveProperties (r : TypeRef) : Guarded (List LinkedProperty) := do
  (← derivedAt w r).effective.mapM (propertyAt (typeAt w))

/-- The key of an entity, found at the entity that owns it. -/
def primaryKey? (r : TypeRef) : Guarded (Option KeyLayout) := do
  match (← derivedAt w r).keyOwner with
  | none => return none
  | some owner => return (← derivedAt w owner).keyLayout

def inlineTargets (r : TypeRef) : Guarded (List TypeRef) :=
  return (← effectiveProperties w r).filterMap RustSource.inlineTarget?

def inlines (source target : TypeRef) : Guarded Bool := do
  let rs ← reached (inlineTargets w) w.refs [source]
  return (← rs.mapM (inlineTargets w)).any fun ts => target ∈ ts

def importKeys (key : SchemaKey) : Guarded (List SchemaKey) :=
  return ((← schemaAt w key).imports.map Prod.snd).filter (· ≠ key)

def hasRegistry (key : SchemaKey) : Guarded Bool := do
  let keys ← reached (importKeys w) (List.range w.schemas.length) [key]
  return (← keys.mapM (schemaAt w)).any fun s => s.types.any RustSource.isConcreteEntity

section Intact

variable {w : Workspace} (hw : w.Intact) {r : TypeRef}

include hw

theorem isSome_of_mem_refs (hr : r ∈ w.refs) : (w.type? r).isSome :=
  Option.isSome_iff_exists.2 (hw.layered.indexed.mem_refs.1 hr)

theorem mem_refs_of_isSome (hr : (w.type? r).isSome) : r ∈ w.refs :=
  hw.layered.indexed.mem_refs.2 (Option.isSome_iff_exists.1 hr)

theorem readable_effective {p : LinkedProperty} (hp : p ∈ w.effectiveProperties r) :
    p.type.Readable w.primitives w.type? := by
  obtain ⟨q, -, hq⟩ := Workspace.mem_effectiveProperties.1 hp
  obtain ⟨t, ht, hp⟩ := Option.bind_eq_some_iff.1 hq
  exact (hw.readable _ t ht).properties p (List.mem_of_getElem? hp)

theorem effectiveProperties_eq (hr : (w.type? r).isSome) :
    effectiveProperties w r = .ok (w.effectiveProperties r) := by
  rw [effectiveProperties, ok_bind (derivedAt_eq hr)]
  refine mapM_filterMap fun p hp => ?_
  obtain ⟨q, hq⟩ :=
    Option.isSome_iff_exists.1 (((hw.flattened.flattens r).mem_iff p).1 hp).2
  exact ⟨q, propertyAt_eq_ok (typeAt_finds w) hq, hq⟩

theorem inlineTargets_eq (hr : (w.type? r).isSome) :
    inlineTargets w r = .ok (RustSource.inlineTargets w r) :=
  ok_bind (effectiveProperties_eq hw hr)

theorem inlines_eq (hr : (w.type? r).isSome) (target : TypeRef) :
    inlines w r target = .ok (RustSource.inlines w r target) := by
  have hnext : ∀ a ∈ w.refs, inlineTargets w a = .ok (RustSource.inlineTargets w a) :=
    fun a ha => inlineTargets_eq hw (isSome_of_mem_refs hw ha)
  have hroots : ∀ a ∈ [r], a ∈ w.refs := by simpa using mem_refs_of_isSome hw hr
  rw [inlines, ok_bind (reached_eq hnext hw.layered.closed_inlineTargets hroots),
    ok_bind (mapM_ok fun a ha => hnext a (DepthFirst.reached_subset _ ha)), RustSource.inlines]
  exact congrArg Except.ok List.any_map

/-- The key of an entity is that of its root and consists of primitives. -/
theorem exists_key {t : LinkedType} (ht : w.type? r = some t) (hentity : t.kind = .entity) :
    ∃ root l, (w.derivedOf r).keyOwner = some root ∧ (w.type? root).isSome ∧
      (w.derivedOf root).keyLayout = some l ∧
      ∀ c ∈ l.components, c.primitive < w.primitives.length := by
  obtain ⟨root, u, l, howner, -, hu, hl, hreads, -⟩ :=
    hw.keyed.exists_key hw.layered.wellTyped ht hentity
  refine ⟨root, l, howner, Option.isSome_iff_exists.2 ⟨u, hu⟩, hl, fun c hc => ?_⟩
  obtain ⟨_, -, hc⟩ := exists_of_forall₂_right hreads.components hc
  obtain ⟨q, hq, -⟩ := hc.primitive
  exact (List.getElem?_eq_some_iff.1 hq).1

theorem primaryKey?_eq {t : LinkedType} (ht : w.type? r = some t) (hentity : t.kind = .entity) :
    primaryKey? w r = .ok (w.primaryKey? r) := by
  obtain ⟨root, l, howner, hroot, hl, -⟩ := exists_key hw ht hentity
  have hr : (w.type? r).isSome := Option.isSome_iff_exists.2 ⟨t, ht⟩
  rw [primaryKey?, ok_bind (derivedAt_eq hr), Workspace.primaryKey?, howner]
  exact (ok_bind (derivedAt_eq hroot)).trans rfl

theorem lt_of_mem_components {t : LinkedType} (ht : w.type? r = some t)
    (hentity : t.kind = .entity) {l : KeyLayout} (hl : w.primaryKey? r = some l)
    {c : KeyComponent} (hc : c ∈ l.components) : c.primitive < w.primitives.length := by
  obtain ⟨root, l', howner, -, hl', hlt⟩ := exists_key hw ht hentity
  obtain ⟨owner, howner', hl⟩ := Option.bind_eq_some_iff.1 hl
  obtain rfl := Option.some.inj (howner.symm.trans howner')
  obtain rfl := Option.some.inj (hl.symm.trans hl')
  exact hlt c hc

omit hw in
theorem importKeys_eq {key : SchemaKey} (hkey : key < w.schemas.length) :
    importKeys w key = .ok (RustSource.importKeys w key) := by
  have hget := List.getElem?_eq_getElem hkey
  rw [importKeys, ok_bind (schemaAt_eq_ok.2 hget), RustSource.importKeys, hget]
  rfl

theorem hasRegistry_eq {key : SchemaKey} (hkey : key < w.schemas.length) :
    hasRegistry w key = .ok (RustSource.hasRegistry w key) := by
  have hnext : ∀ a ∈ List.range w.schemas.length,
      importKeys w a = .ok (RustSource.importKeys w a) :=
    fun a ha => importKeys_eq (List.mem_range.1 ha)
  have hclosed : ∀ a ∈ List.range w.schemas.length, ∀ b ∈ RustSource.importKeys w a,
      b ∈ List.range w.schemas.length := by
    intro a ha b hb
    have hget := List.getElem?_eq_getElem (List.mem_range.1 ha)
    rw [RustSource.importKeys, hget] at hb
    obtain ⟨i, hi, rfl⟩ := List.mem_map.1 (List.mem_filter.1 hb).1
    exact List.mem_range.2 (hw.imports _ (List.getElem_mem _) i hi)
  have hfound : ∀ a ∈ DepthFirst.reached (RustSource.importKeys w) (List.range w.schemas.length)
      [key], ∃ s, schemaAt w a = .ok s ∧ w.schemas[a]? = some s := fun a ha =>
    have hget := List.getElem?_eq_getElem (List.mem_range.1 (DepthFirst.reached_subset _ ha))
    ⟨_, schemaAt_eq_ok.2 hget, hget⟩
  rw [hasRegistry, ok_bind (reached_eq hnext hclosed (by simpa using hkey)),
    ok_bind (mapM_filterMap hfound), RustSource.hasRegistry]
  exact congrArg Except.ok List.any_filterMap

end Intact

end Workspace

section Emission

open RustNames

variable (v : SchemaView)

/-! ### Types -/

def primitiveType (id : PrimitiveId) : Attempt RustFault RustType := do
  let p ← primitiveAt v.workspace id
  settled (.path <$> RustSource.primitivePath p)

def isHashable (id : PrimitiveId) : Guarded Bool :=
  return !(← primitiveAt v.workspace id).kind.isFloating

def pathTo (r : TypeRef) (id : String) : Attempt RustFault RustPath := do
  if r.schema = v.schema.key then return [id]
  else
    let schema ← schemaAt v.workspace r.schema
    return ["super", ← settled (moduleName schema.name), id]

def typePath (r : TypeRef) : Attempt RustFault RustPath := do
  pathTo v r (← settled (typeName (← nameOf (typeAt v.workspace) r)))

/-- A type by its path, boxed if it is stored in place and leads back to its owner. -/
def reference (owner : TypeRef) (inPlace : Bool) (r : TypeRef) : Attempt RustFault RustType := do
  let path := RustType.path (← typePath v r)
  if inPlace ∧ (r = owner ∨ (← inlines v.workspace r owner)) then return .boxed path
  else return path

def leafType (owner : TypeRef) (p : LinkedProperty) (inPlace : Bool) (t : DataType) :
    Attempt RustFault RustType :=
  let find := typeAt v.workspace
  match t with
  | .primitive id => primitiveType v id
  | .entity r => do
    if p.role = .foreignKey then
      return .path (← pathTo v r (RustSource.keyAlias (← nameOf find r)))
    else reference v owner inPlace r
  | .struct r | .enum r => reference v owner inPlace r
  | .interface r => do settled (.error (.interfaceTyped p.name (← nameOf find r)))
  | .void | .generic _ | .container .. => do
    settled (.error (.unsupportedType p.name (← render find v.workspace t)))

def propertyType (owner : TypeRef) (p : LinkedProperty) : Attempt RustFault RustType :=
  match p.type with
  | .container shape key value => do
    let leaf ← leafType v owner p (shape = .optional) value
    match shape with
    | .list => return .vec leaf
    | .optional => return .option leaf
    | .set => return .hashSet leaf
    | .map =>
      match key with
      | none => settled (.error (.mapWithoutKey p.name))
      | some id => return .hashMap (← primitiveType v id) leaf
  | t => leafType v owner p true t

def propertyNotes (p : LinkedProperty) : Guarded (List Note) := do
  match p.type with
  | .container .set _ (.primitive id) =>
    if ← isHashable v id then return []
    else return [⟨.warning, s!"set '{p.name}' holds floating point values"⟩]
  | .container .map (some id) _ =>
    if ← isHashable v id then return []
    else return [⟨.warning, s!"map '{p.name}' is keyed by a floating point value"⟩]
  | _ => return []

def notesOf (ps : List LinkedProperty) : Guarded (List Note) :=
  return (← ps.mapM (propertyNotes v)).flatten

/-! ### Structs, traits and enums -/

def baseDocs : Option TypeRef → Guarded (List String)
  | none => return []
  | some r => return ["", "Extends `" ++ (← typeAt v.workspace r).fullName ++ "`."]

def structField (owner : TypeRef) (done : List RustMember) (p : LinkedProperty) :
    Attempt RustFault RustMember := do
  let name ← settled (fieldName p.name)
  if name ∈ done.map RustMember.name then settled (.error (.fieldTaken p.name name))
  return { docs := RustSource.propertyDocs p, name, type := ← propertyType v owner p }

def structFields (owner : TypeRef) (ps : List LinkedProperty) :
    Attempt RustFault (List RustMember) :=
  ps.foldlM (fun done p => do return done ++ [← structField v owner done p]) []

def keyItems (r : TypeRef) (t : LinkedType) (name : String) :
    Attempt RustFault (List RustItem) := do
  match ← primaryKey? v.workspace r with
  | none => settled (.error (.noPrimaryKey t.name))
  | some layout =>
    let components ← layout.components.mapM fun c => do
      let type ← primitiveType v c.primitive
      return (type, ← settled (fieldName c.name))
    return [.tupleAlias ["Primary key of [`" ++ name ++ "`]"] (RustSource.keyAlias t.name)
              (components.map Prod.fst),
            .keyAccessor name (RustSource.keyAlias t.name) (components.map Prod.snd)]

def keyNotes (r : TypeRef) : Guarded (List Note) :=
  return (((← primaryKey? v.workspace r).map KeyLayout.components).getD []).flatMap fun c =>
    if c.kind.isFloating then
      [⟨.warning, s!"key component '{c.name}' is floating point; the key tuple is not hashable"⟩]
    else []

def implementedInterfaces (r : TypeRef) : Guarded (List TypeRef) := do
  let find := typeAt v.workspace
  let bases ← lineage find v.workspace.refs r
  let roots ← bases.mapM (interfacesOf find)
  postorder (interfacesOf find) v.workspace.refs roots.flatten []

def interfaceImpl (owner : TypeRef) (name : String) (i : TypeRef) :
    Attempt RustFault RustItem := do
  let path ← typePath v i
  let getters ← (← properties (typeAt v.workspace) i).mapM fun p => do
    let field ← settled (fieldName p.name)
    return ({ name := field, type := ← propertyType v owner p } : RustMember)
  return .traitImpl path name getters

def compositeItems (derives : List String) (r : TypeRef) (t : LinkedType) (c : LinkedComposite) :
    Attempt RustFault (List RustItem) := do
  let name ← settled (typeName t.name)
  let fields ← structFields v r (← effectiveProperties v.workspace r)
  let key ← if t.kind = .entity then keyItems v r t name else pure []
  let impls ← (← implementedInterfaces v r).mapM (interfaceImpl v r name)
  let docs := RustSource.typeDocs t ++ (← baseDocs v c.base)
  return .struct docs derives name fields :: key ++ impls

def compositeNotes (r : TypeRef) (t : LinkedType) : Guarded (List Note) := do
  let own ← notesOf v (← effectiveProperties v.workspace r)
  let key ← (if t.kind = .entity then keyNotes v r else pure [])
  let inherited ← (← implementedInterfaces v r).mapM fun i => do
    notesOf v (← properties (typeAt v.workspace) i)
  let shape := if t.composite?.any Composite.isAbstract then
      [⟨.info, "abstract type emitted as a concrete struct"⟩]
    else []
  return shape ++ own ++ key ++ inherited.flatten

def interfaceItems (r : TypeRef) (t : LinkedType) (c : LinkedComposite) :
    Attempt RustFault (List RustItem) := do
  let name ← settled (typeName t.name)
  let supertraits ← c.interfaces.mapM (typePath v)
  let getters ← c.properties.mapM fun p => do
    let type ← propertyType v r p
    return ({ docs := RustSource.propertyDocs p, name := ← settled (fieldName p.name), type } :
      RustMember)
  return [.trait (RustSource.typeDocs t) name supertraits getters]

def enumItems (t : LinkedType) (e : EnumBody) : Attempt RustFault (List RustItem) := do
  let name ← settled (typeName t.name)
  let underlying ← primitiveAt v.workspace e.underlying
  match RustSource.intType? underlying.kind with
  | none => settled (.error .underlyingNotInteger)
  | some repr =>
    settled do
      if let some x := RustSource.repeatedElement? [] e.elements then
        .error (.valueRepeated x.name x.value)
      let variants ← e.elements.mapM fun x => do
        return ({ docs := x.metadata.map RustSource.annotation, name := ← typeName x.name,
                  value := x.value } : RustVariant)
      let docs := RustSource.typeDocs t
      if e.elements.isEmpty then return [.enum docs RustSource.enumDerives none name variants]
      else return [.enum docs RustSource.enumDerives (some repr) name variants,
                   .valueAccessor name repr]

def ofBody {α : Type} (t : LinkedType) (missing : RustFault)
    (make : α → Attempt RustFault (List RustItem)) : Option α → Attempt RustFault (List RustItem)
  | some body => make body
  | none => do
    let _ ← settled (typeName t.name)
    settled (.error missing)

def typeItems (derives : List String) (r : TypeRef) (t : LinkedType) :
    Attempt RustFault (List RustItem) :=
  match t.kind with
  | .entity | .struct => ofBody t .noCompositeBody (compositeItems v derives r t) t.composite?
  | .interface => ofBody t .noInterfaceBody (interfaceItems v r t) t.composite?
  | .enum => ofBody t .noEnumBody (enumItems v t) t.enum?

def typeNotes (r : TypeRef) (t : LinkedType) : Guarded (List Note) :=
  match t.kind with
  | .entity | .struct => compositeNotes v r t
  | .interface => notesOf v t.properties
  | .enum => return RustSource.enumNotes t

/-! ### Registries -/

def imports : Guarded (List (String × Schema)) :=
  (v.schema.imports.filter fun i => i.2 ≠ v.schema.key).mapM fun i =>
    return (i.1, ← schemaAt v.workspace i.2)

def registryImports : Guarded (List (String × Schema)) := do
  (← imports v).filterM fun i => hasRegistry v.workspace i.2.key

def registryItems? : Attempt RustFault (Option (List RustItem)) := do
  let entities := RustSource.concreteEntities v.schema
  let imports ← registryImports v
  if entities.isEmpty ∧ imports.isEmpty then return none
  else settled do
    let name ← typeName (RustSource.registryName v.schema.name)
    let fields ← imports.foldlM RustSource.addImport (← entities.foldlM RustSource.addEntity [])
    let maps ← entities.mapM fun e => do
      let type ← typeName e.2.name
      return (← fieldName e.2.name, type)
    let docs := ["Repositories for the entities of schema `" ++ v.schema.name ++ "`"]
    let registry := RustItem.struct docs ["Default"] name fields
    return some (if maps.isEmpty then [registry] else [registry, .inserters name maps])

def registryNotes : Guarded (List Note) := do
  let notes ← (RustSource.concreteEntities v.schema).mapM fun e => do
    let layout ← primaryKey? v.workspace e.1
    return if ((layout.map KeyLayout.components).getD []).any fun c => c.kind.isFloating then
      [⟨.warning, s!"'{e.2.name}' is keyed by a floating point value"⟩]
    else ([] : List Note)
  return notes.flatten

/-! ### Reports -/

/-- The type is looked up by its handle; notes are gathered whether there is code or not. -/
def emitType (derives : List String) (r : TypeRef) : Guarded (Except CompileError Emitted) := do
  let t ← typeAt v.workspace r
  let notes ← typeNotes v r t
  match ← (typeItems v derives r t).run with
  | .ok items => return .ok (RustSource.file v items notes)
  | .error f => return .error (v.failure t.name f.message)

def emitSchema : Guarded (Except CompileError (Option Emitted)) := do
  let notes ← registryNotes v
  match ← (registryItems? v).run with
  | .ok items => return .ok (items.map fun is => RustSource.file v is notes)
  | .error f => return .error (v.failure (RustSource.registryName v.schema.name) f.message)

def typeResult (derives : List String) (r : TypeRef) (t : LinkedType) : Guarded EmissionResult :=
  return Backend.settle
    { severity := .success, message := s!"Generated {t.kind.name} {t.fullName}", kind := t.kind,
      schemaName := v.schema.name, typeName := t.name, «namespace» := t.namespace, code := none }
    (← emitType v derives r)

def schemaResult? : Guarded (Option EmissionResult) := do
  let blank : EmissionResult :=
    { severity := .success, message := s!"Generated aggregate for schema {v.schema.name}",
      kind := none, schemaName := v.schema.name, typeName := v.schema.name,
      «namespace» := v.schema.namespace, code := none }
  match ← emitSchema v with
  | .ok none => return none
  | .ok (some e) => return some (Backend.settle blank (.ok e))
  | .error e => return some (Backend.settle blank (.error e))

def schemaResults (derives : List String) : Guarded (List EmissionResult) := do
  let types ← v.schema.types.zipIdx.mapM fun e =>
    typeResult v derives ⟨v.schema.key, e.2⟩ e.1
  return types ++ (← schemaResult? v).toList

/-! ### Emission without a fault -/

section Intact

variable {v : SchemaView} (hw : v.workspace.Intact) {r owner : TypeRef}

section Types

omit hw in
theorem primitiveType_eq {id : PrimitiveId} (h : id < v.workspace.primitives.length) :
    primitiveType v id = settled (RustSource.primitiveType v id) := by
  obtain ⟨p, hp, hget⟩ := exists_primitiveAt h
  refine (lift_bind hp).trans ?_
  rw [RustSource.primitiveType, hget]
  rfl

omit hw in
theorem isHashable_eq {id : PrimitiveId} (h : id < v.workspace.primitives.length) :
    isHashable v id = .ok (RustSource.isHashable v id) := by
  obtain ⟨p, hp, hget⟩ := exists_primitiveAt h
  rw [isHashable, ok_bind hp, RustSource.isHashable, hget]
  rfl

omit hw in
theorem pathTo_eq (hr : (v.workspace.type? r).isSome) (id : String) :
    pathTo v r id = settled (RustSource.pathTo v r id) := by
  rw [pathTo, RustSource.pathTo]
  split
  · rfl
  · obtain ⟨t, ht⟩ := Option.isSome_iff_exists.1 hr
    obtain ⟨s, hs, -⟩ := Option.bind_eq_some_iff.1 ht
    rw [hs]
    exact (lift_bind (schemaAt_eq_ok.2 hs)).trans (settled_bind rfl fun _ _ => rfl)

omit hw in
theorem typePath_eq (hr : (v.workspace.type? r).isSome) :
    typePath v r = settled (RustSource.typePath v r) := by
  refine (lift_bind (nameOf_eq (typeAt_finds v.workspace) hr)).trans ?_
  exact settled_bind rfl fun id _ => pathTo_eq hr id

include hw

theorem reference_eq (hr : (v.workspace.type? r).isSome) (inPlace : Bool) :
    reference v owner inPlace r = settled do
      let path := RustType.path (← RustSource.typePath v r)
      if inPlace ∧ (r = owner ∨ RustSource.inlines v.workspace r owner) then return .boxed path
      else return path := by
  refine settled_bind (typePath_eq hr) fun path _ => ?_
  refine (lift_bind (inlines_eq hw hr owner)).trans ?_
  split <;> rfl

theorem leafType_eq (p : LinkedProperty) (inPlace : Bool) {t : DataType}
    (ht : t.Readable v.workspace.primitives v.workspace.type?) :
    leafType v owner p inPlace t = settled (RustSource.leafType v owner p inPlace t) := by
  have hfind := typeAt_finds v.workspace
  cases t with
  | primitive id => exact primitiveType_eq ht
  | entity r =>
      unfold leafType RustSource.leafType
      simp only
      split
      · refine (lift_bind (nameOf_eq hfind ht)).trans ?_
        exact settled_bind (pathTo_eq ht _) fun _ _ => rfl
      · exact reference_eq hw ht inPlace
  | struct r | enum r => exact reference_eq hw ht inPlace
  | interface r => exact (lift_bind (nameOf_eq hfind ht)).trans rfl
  | void | generic _ | container _ _ _ => exact (lift_bind (render_eq hfind ht)).trans rfl

theorem propertyType_eq {p : LinkedProperty}
    (hp : p.type.Readable v.workspace.primitives v.workspace.type?) :
    propertyType v owner p = settled (RustSource.propertyType v owner p) := by
  unfold propertyType RustSource.propertyType
  cases htype : p.type with
  | container shape key value =>
      rw [htype] at hp
      refine settled_bind (leafType_eq hw p _ hp.2) fun leaf _ => ?_
      cases shape with
      | map =>
          cases key with
          | none => rfl
          | some id => exact settled_bind (primitiveType_eq (hp.1 id rfl)) fun _ _ => rfl
      | _ => rfl
  | _ =>
      rw [htype] at hp
      exact leafType_eq hw p true hp

omit hw in
theorem propertyNotes_eq {p : LinkedProperty}
    (hp : p.type.Readable v.workspace.primitives v.workspace.type?) :
    propertyNotes v p = .ok (RustSource.propertyNotes v p) := by
  obtain ⟨name, role, type, default, metadata⟩ := p
  unfold propertyNotes RustSource.propertyNotes
  cases type with
  | container shape key value =>
      cases shape with
      | set =>
          cases value with
          | primitive id =>
              refine (ok_bind (isHashable_eq hp.2)).trans ?_
              dsimp only
              split <;> rfl
          | _ => rfl
      | map =>
          cases key with
          | none => rfl
          | some id =>
              refine (ok_bind (isHashable_eq (hp.1 id rfl))).trans ?_
              dsimp only
              split <;> rfl
      | _ => rfl
  | _ => rfl

omit hw in
theorem notesOf_eq {ps : List LinkedProperty}
    (hps : ∀ p ∈ ps, p.type.Readable v.workspace.primitives v.workspace.type?) :
    notesOf v ps = .ok (ps.flatMap (RustSource.propertyNotes v)) :=
  ok_bind (mapM_ok fun p hp => propertyNotes_eq (hps p hp))

end Types

/-! #### Structs, traits and enums -/

section Items

include hw

theorem structFields_eq {ps : List LinkedProperty}
    (hps : ∀ p ∈ ps, p.type.Readable v.workspace.primitives v.workspace.type?) :
    structFields v owner ps = settled (RustSource.structFields v owner ps) := by
  refine foldlM_settled (fun done p hp => settled_bind ?_ fun _ _ => rfl) []
  refine settled_bind rfl fun name _ => ?_
  simp only
  split
  · rfl
  · exact settled_bind (propertyType_eq hw (hps p hp)) fun _ _ => rfl

theorem isSome_of_base {b : TypeRef} (hb : TypeLookup.base? v.workspace.type? r = some b) :
    (v.workspace.type? b).isSome :=
  isSome_of_mem_refs hw (hw.layered.navigable.grounded.base hb)

theorem isSome_of_interface {i : TypeRef} (hi : i ∈ TypeLookup.interfacesOf v.workspace.type? r) :
    (v.workspace.type? i).isSome :=
  isSome_of_mem_refs hw (hw.layered.navigable.grounded.interfaces hi)

theorem readable_properties {p : LinkedProperty}
    (hp : p ∈ TypeLookup.properties v.workspace.type? r) :
    p.type.Readable v.workspace.primitives v.workspace.type? := by
  rw [TypeLookup.properties] at hp
  cases ht : v.workspace.type? r with
  | none => simp [ht] at hp
  | some t => exact (hw.readable r t ht).properties p (by simpa [ht] using hp)

theorem readable_composite {t : LinkedType} {c : LinkedComposite}
    (ht : v.workspace.type? r = some t) (hbody : t.body = .composite c) {p : LinkedProperty}
    (hp : p ∈ c.properties) : p.type.Readable v.workspace.primitives v.workspace.type? := by
  refine (hw.readable r t ht).properties p ?_
  rwa [UserType.properties_eq hbody]

omit hw in
theorem baseDocs_eq {base : Option TypeRef} (h : ∀ b, base = some b → (v.workspace.type? b).isSome) :
    baseDocs v base = .ok (RustSource.baseDocs v base) := by
  cases base with
  | none => rfl
  | some b =>
      obtain ⟨t, ht⟩ := Option.isSome_iff_exists.1 (h b rfl)
      rw [baseDocs, ok_bind (typeAt_eq_ok ht), RustSource.baseDocs, ht]
      rfl

theorem keyItems_eq {t : LinkedType} (ht : v.workspace.type? r = some t)
    (hentity : t.kind = .entity) (name : String) :
    keyItems v r t name = settled (RustSource.keyItems v r t name) := by
  refine (lift_bind (primaryKey?_eq hw ht hentity)).trans ?_
  unfold RustSource.keyItems
  cases hl : v.workspace.primaryKey? r with
  | none => rfl
  | some l =>
      refine settled_bind (mapM_settled fun c hc => ?_) fun _ _ => rfl
      refine settled_bind (primitiveType_eq (lt_of_mem_components hw ht hentity hl hc)) ?_
      exact fun _ _ => settled_bind rfl fun _ _ => rfl

theorem keyNotes_eq {t : LinkedType} (ht : v.workspace.type? r = some t)
    (hentity : t.kind = .entity) : keyNotes v r = .ok (RustSource.keyNotes v r) :=
  ok_bind (primaryKey?_eq hw ht hentity)

theorem implementedInterfaces_eq (hr : (v.workspace.type? r).isSome) :
    implementedInterfaces v r = .ok (RustSource.implementedInterfaces v r) := by
  have hfind := typeAt_finds v.workspace
  have hgrounded := hw.layered.navigable.grounded
  have hrefs := mem_refs_of_isSome hw hr
  have hwf := hw.layered.descends.wellFounded_base
  have hnext := interfacesOf_refs hfind hgrounded
  refine (ok_bind (lineage_eq hfind hgrounded hwf hrefs)).trans ?_
  have hbases := hgrounded.lineage_subset hrefs (hgrounded.lineage hwf hrefs)
  refine (ok_bind (mapM_ok fun b hb => hnext b (hbases hb))).trans ?_
  refine postorder_eq hnext (fun a _ b => hgrounded.interfaces) [] fun i hi => ?_
  obtain ⟨b, -, hi⟩ := List.mem_flatMap.1 hi
  exact hgrounded.interfaces hi

theorem isSome_of_implemented {i : TypeRef} (hi : i ∈ RustSource.implementedInterfaces v r) :
    (v.workspace.type? i).isSome :=
  isSome_of_mem_refs hw (DepthFirst.postorder_subset _ _ hi)

theorem interfaceImpl_eq {i : TypeRef} (hi : (v.workspace.type? i).isSome) (name : String) :
    interfaceImpl v owner name i = settled (RustSource.interfaceImpl v owner name i) := by
  refine settled_bind (typePath_eq hi) fun path _ => ?_
  refine (lift_bind (properties_eq (typeAt_finds v.workspace) hi)).trans ?_
  refine settled_bind (mapM_settled fun p hp => ?_) fun _ _ => rfl
  refine settled_bind rfl fun _ _ => ?_
  exact settled_bind (propertyType_eq hw (readable_properties hw hp)) fun _ _ => rfl

theorem compositeItems_eq (derives : List String) {t : LinkedType} {c : LinkedComposite}
    (ht : v.workspace.type? r = some t) (hbody : t.body = .composite c) :
    compositeItems v derives r t c = settled (RustSource.compositeItems v derives r t c) := by
  have hr : (v.workspace.type? r).isSome := Option.isSome_iff_exists.2 ⟨t, ht⟩
  have hbase := TypeLookup.base?_eq ht hbody
  refine settled_bind rfl fun name _ => ?_
  refine (lift_bind (effectiveProperties_eq hw hr)).trans ?_
  refine settled_bind (structFields_eq hw fun p hp => readable_effective hw hp) fun fields _ => ?_
  refine settled_ite_bind (fun hentity => keyItems_eq hw ht hentity name) (fun _ => rfl) ?_
  intro key
  refine (lift_bind (implementedInterfaces_eq hw hr)).trans ?_
  refine settled_bind (mapM_settled fun i hi => ?_) fun impls _ => ?_
  · exact interfaceImpl_eq hw (isSome_of_implemented hw hi) name
  · refine (lift_bind (baseDocs_eq fun b hb => ?_)).trans rfl
    exact isSome_of_base hw (hbase.trans hb)

theorem compositeNotes_eq {t : LinkedType} (ht : v.workspace.type? r = some t) :
    compositeNotes v r t = .ok (RustSource.compositeNotes v r t) := by
  have hr : (v.workspace.type? r).isSome := Option.isSome_iff_exists.2 ⟨t, ht⟩
  refine (ok_bind (effectiveProperties_eq hw hr)).trans ?_
  refine (ok_bind (notesOf_eq fun p hp => readable_effective hw hp)).trans ?_
  have hkey : (if t.kind = .entity then keyNotes v r else pure []) =
      .ok (if t.kind = .entity then RustSource.keyNotes v r else []) := by
    split
    · exact keyNotes_eq hw ht ‹_›
    · rfl
  refine (ok_bind hkey).trans ?_
  refine (ok_bind (implementedInterfaces_eq hw hr)).trans ?_
  refine (ok_bind (mapM_ok fun i hi => ?_)).trans rfl
  refine (ok_bind (properties_eq (typeAt_finds v.workspace) (isSome_of_implemented hw hi))).trans ?_
  exact notesOf_eq fun p hp => readable_properties hw hp

theorem interfaceItems_eq {t : LinkedType} {c : LinkedComposite}
    (ht : v.workspace.type? r = some t) (hbody : t.body = .composite c) :
    interfaceItems v r t c = settled (RustSource.interfaceItems v r t c) := by
  have hinterfaces := TypeLookup.interfacesOf_eq ht hbody
  refine settled_bind rfl fun name _ => ?_
  refine settled_bind (mapM_settled fun i hi => ?_) fun supertraits _ => ?_
  · exact typePath_eq (isSome_of_interface hw (hinterfaces ▸ hi))
  · refine settled_bind (mapM_settled fun p hp => ?_) fun _ _ => rfl
    refine settled_bind (propertyType_eq hw (readable_composite hw ht hbody hp)) ?_
    exact fun _ _ => settled_bind rfl fun _ _ => rfl

omit hw in
theorem enumItems_eq (t : LinkedType) {e : EnumBody}
    (he : e.underlying < v.workspace.primitives.length) :
    enumItems v t e = settled (RustSource.enumItems v t e) := by
  obtain ⟨p, hp, hget⟩ := exists_primitiveAt he
  refine settled_bind rfl fun name _ => (lift_bind hp).trans ?_
  simp only [hget, Option.getD_some]
  cases RustSource.intType? p.kind <;> rfl

omit hw in
theorem ofBody_eq {α : Type} {t : LinkedType} {missing : RustFault}
    {make : α → Attempt RustFault (List RustItem)} {make' : α → Except RustFault (List RustItem)}
    {body? : Option α} (h : ∀ body, body? = some body → make body = settled (make' body)) :
    ofBody t missing make body? = settled (RustSource.ofBody t missing make' body?) := by
  cases body? with
  | some body => exact h body rfl
  | none => exact settled_bind rfl fun _ _ => rfl

theorem typeItems_eq (derives : List String) {t : LinkedType} (ht : v.workspace.type? r = some t) :
    typeItems v derives r t = settled (RustSource.typeItems v derives r t) := by
  unfold typeItems RustSource.typeItems
  cases t.kind with
  | entity | struct =>
      exact ofBody_eq fun c hc => compositeItems_eq hw derives ht (UserType.composite?_eq_some.1 hc)
  | interface =>
      exact ofBody_eq fun c hc => interfaceItems_eq hw ht (UserType.composite?_eq_some.1 hc)
  | enum =>
      exact ofBody_eq fun e he =>
        enumItems_eq t ((hw.readable r t ht).underlying e (UserType.enum?_eq_some.1 he))

theorem typeNotes_eq {t : LinkedType} (ht : v.workspace.type? r = some t) :
    typeNotes v r t = .ok (RustSource.typeNotes v r t) := by
  unfold typeNotes RustSource.typeNotes
  cases t.kind with
  | entity | struct => exact compositeNotes_eq hw ht
  | interface => exact notesOf_eq (hw.readable r t ht).properties
  | enum => rfl

end Items

/-! #### Registries -/

section Schema

variable (hs : v.workspace.schemas[v.schema.key]? = some v.schema)

include hw hs

theorem imports_eq : imports v = .ok v.imports := by
  have hfound : ∀ i ∈ v.schema.imports.filter fun i => i.2 ≠ v.schema.key,
      ∃ e, (return (i.1, ← schemaAt v.workspace i.2) : Guarded (String × Schema)) = .ok e ∧
        (v.workspace.schemas[i.2]?.map fun s => (i.1, s)) = some e := fun i hi => by
    have hlt := hw.imports _ (List.mem_of_getElem? hs) i (List.mem_filter.1 hi).1
    have hget := List.getElem?_eq_getElem hlt
    exact ⟨_, ok_bind (schemaAt_eq_ok.2 hget), by rw [hget]; rfl⟩
  rw [imports, mapM_filterMap hfound, List.filterMap_filter, SchemaView.imports]
  refine congrArg (fun f => Except.ok (v.schema.imports.filterMap f)) (funext fun i => ?_)
  by_cases hi : i.2 = v.schema.key <;> simp [hi]

theorem registryImports_eq : registryImports v = .ok (RustSource.registryImports v) := by
  refine (ok_bind (imports_eq hw hs)).trans (filterM_ok fun e he => hasRegistry_eq hw ?_)
  obtain ⟨i, -, he⟩ := List.mem_filterMap.1 he
  split at he
  · contradiction
  · obtain ⟨s, hs, rfl⟩ := Option.map_eq_some_iff.1 he
    rw [hw.layered.indexed.key_eq _ _ hs]
    exact (List.getElem?_eq_some_iff.1 hs).1

theorem registryItems?_eq : registryItems? v = settled (RustSource.registryItems? v) := by
  refine (lift_bind (registryImports_eq hw hs)).trans ?_
  unfold RustSource.registryItems?
  simp only
  split <;> rfl

omit hw in
theorem type?_own {i : Nat} {t : LinkedType} (ht : v.schema.types[i]? = some t) :
    v.workspace.type? ⟨v.schema.key, i⟩ = some t := by
  rw [Workspace.type?, hs]
  exact ht

theorem registryNotes_eq : registryNotes v = .ok (RustSource.registryNotes v) := by
  refine ok_bind (mapM_ok fun e he => ?_)
  obtain ⟨hmem, hconcrete⟩ := List.mem_filter.1 he
  have hentity : e.2.kind = .entity :=
    of_decide_eq_true (Bool.and_eq_true_iff.1 hconcrete).1
  exact ok_bind (primaryKey?_eq hw (Workspace.type?_of_mem_zip hs hmem) hentity)

theorem emitSchema_eq (derives : List String) :
    emitSchema v = .ok ((RustSource.backend derives).emitSchema v) := by
  refine (ok_bind (registryNotes_eq hw hs)).trans ?_
  refine (ok_bind (registryItems?_eq hw hs)).trans ?_
  unfold RustSource.backend
  simp only
  cases RustSource.registryItems? v <;> rfl

omit hs in
theorem emitType_eq (derives : List String) {t : LinkedType} (ht : v.workspace.type? r = some t) :
    emitType v derives r = .ok ((RustSource.backend derives).emitType v r t) := by
  refine (ok_bind (typeAt_eq_ok ht)).trans ((ok_bind (typeNotes_eq hw ht)).trans ?_)
  refine (ok_bind (typeItems_eq hw derives ht)).trans ?_
  unfold RustSource.backend
  simp only
  cases RustSource.typeItems v derives r t <;> rfl

theorem schemaResults_eq (derives : List String) :
    schemaResults v derives = .ok ((RustSource.backend derives).schemaResults v) := by
  have htypes : v.schema.types.zipIdx.mapM (fun e => typeResult v derives ⟨v.schema.key, e.2⟩ e.1) =
      .ok (v.schema.types.mapIdx fun i t =>
        (RustSource.backend derives).typeResult v ⟨v.schema.key, i⟩ t) := by
    rw [List.mapIdx_eq_zipIdx_map]
    refine mapM_ok fun e he => ok_bind (emitType_eq hw derives (type?_own hs ?_))
    exact List.mk_mem_zipIdx_iff_getElem?.1 he
  have haggregate : schemaResult? v = .ok ((RustSource.backend derives).schemaResult? v) := by
    refine (ok_bind (emitSchema_eq hw hs derives)).trans ?_
    unfold Backend.schemaResult?
    simp only
    rcases (RustSource.backend derives).emitSchema v with e | _ | e <;> rfl
  exact (ok_bind htypes).trans (ok_bind haggregate)

end Schema

end Intact

end Emission

def emit (derives : List String) (w : Workspace) (units : List SourceId) : Guarded Report := do
  let results ← units.mapM fun u => do
    match ← bySource? w u with
    | some s => schemaResults ⟨w, s⟩ derives
    | none => return []
  return { language := (RustSource.backend derives).language, results := results.flatten }

def emitAll (derives : List String) (w : Workspace) : Guarded Report :=
  emit derives w (w.schemas.map fun s => s.source)

section Intact

variable {w : Workspace} (hw : w.Intact) (derives : List String)

include hw

/-- Nothing is looked up in vain while units of an intact workspace are emitted. -/
theorem emit_eq (units : List SourceId) :
    emit derives w units = .ok ((RustSource.backend derives).emit w units) := by
  refine ok_bind (mapM_ok (g := fun u => match w.bySource? u with
    | some s => (RustSource.backend derives).schemaResults ⟨w, s⟩
    | none => []) fun u _ => ?_)
  refine (ok_bind (bySource?_eq hw.layered.indexed u)).trans ?_
  cases hu : w.bySource? u with
  | none => rfl
  | some s =>
      exact schemaResults_eq (v := ⟨w, s⟩) hw (hw.layered.indexed.bySource?_eq_some.1 hu).1 derives

theorem emitAll_eq : emitAll derives w = .ok ((RustSource.backend derives).emitAll w) :=
  emit_eq hw derives _

end Intact

end SchemaGraph.Guarded
