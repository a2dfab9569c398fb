import SchemaGraph.Emission.RustSource
import SchemaGraph.Proofs.CodeLines
import SchemaGraph.Proofs.Names
import SchemaGraph.Proofs.Signatures

/-!
What annotations do to generated code. Annotations are metadata and the texts of defaults; no
decision of the backend depends on them, and they show up in documentation only.

So workspaces that are the same without annotations give the same items but for documentation
(`typeItems_bare`). The code of the items is the same too, as long as no annotation goes on after a
line break: what it says there is no longer documentation, and ends up among the code as it is.
-/

namespace SchemaGraph

variable {α α' β β' γ ε : Type}

/-! ### Workspaces without annotations -/

def Property.bare {τ : Type} (p : Property τ) : Property τ :=
  { p with default := none, metadata := [] }

def Composite.bare (c : LinkedComposite) : LinkedComposite :=
  { c with properties := c.properties.map Property.bare }

def EnumElement.bare (e : EnumElement) : EnumElement :=
  { e with metadata := [] }

def EnumBody.bare (e : EnumBody) : EnumBody :=
  { e with elements := e.elements.map EnumElement.bare }

def TypeBody.bare : TypeBody (Option TypeRef) (List TypeRef) DataType →
    TypeBody (Option TypeRef) (List TypeRef) DataType
  | .composite c => .composite c.bare
  | .enum e => .enum e.bare

def UserType.bare (t : LinkedType) : LinkedType :=
  { t with body := t.body.bare, metadata := [] }

def Schema.bare (s : Schema) : Schema :=
  { s with types := s.types.map UserType.bare, metadata := [] }

/-- A workspace without annotations. -/
def Workspace.bare (w : Workspace) : Workspace :=
  { w with schemas := w.schemas.map Schema.bare }

def SchemaView.bare (v : SchemaView) : SchemaView :=
  ⟨v.workspace.bare, v.schema.bare⟩

namespace UserType

variable (t : LinkedType)

@[simp] theorem name_bare : t.bare.name = t.name := rfl

@[simp] theorem fullName_bare : t.bare.fullName = t.fullName := rfl

@[simp] theorem kind_bare : t.bare.kind = t.kind := rfl

theorem composite?_bare : t.bare.composite? = t.composite?.map Composite.bare := by
  obtain ⟨name, ns, kind, body, metadata⟩ := t
  cases body <;> rfl

theorem properties_bare : t.bare.properties = t.properties.map Property.bare := by
  rw [properties, properties, composite?_bare]
  cases t.composite? <;> rfl

end UserType

namespace TypeLookup

/-- Looks up types without their annotations. -/
def bare (look : TypeLookup) : TypeLookup :=
  fun r => (look r).map UserType.bare

variable (look : TypeLookup) (r : TypeRef)

theorem composite?_bare : look.bare.composite? r = (look.composite? r).map Composite.bare := by
  rw [composite?, composite?, bare]
  cases look r with
  | none => rfl
  | some t => exact t.composite?_bare

@[simp] theorem base?_bare : look.bare.base? r = look.base? r := by
  rw [base?, base?, composite?_bare]
  cases look.composite? r <;> rfl

@[simp] theorem interfacesOf_bare : look.bare.interfacesOf r = look.interfacesOf r := by
  rw [interfacesOf, interfacesOf, composite?_bare]
  cases look.composite? r <;> rfl

theorem properties_bare : look.bare.properties r = (look.properties r).map Property.bare := by
  rw [properties, properties, bare]
  cases look r with
  | none => rfl
  | some t => exact t.properties_bare

theorem property?_bare (p : PropertyRef) :
    look.bare.property? p = (look.property? p).map Property.bare := by
  rw [property?, property?, bare]
  cases look p.owner with
  | none => rfl
  | some t => simp [UserType.properties_bare]

@[simp] theorem typeName_bare : look.bare.typeName r = look.typeName r := by
  rw [typeName, typeName, bare]
  cases look r <;> rfl

end TypeLookup

namespace Workspace

variable (w : Workspace)

theorem type?_bare : w.bare.type? = TypeLookup.bare w.type? := by
  funext r
  simp only [type?, bare, TypeLookup.bare, List.getElem?_map]
  cases w.schemas[r.schema]? with
  | none => rfl
  | some s => simp [Schema.bare]

theorem property?_bare (p : PropertyRef) :
    w.bare.property? p = (w.property? p).map Property.bare := by
  rw [property?, type?_bare, TypeLookup.property?_bare, property?]

theorem derivedOf_bare (r : TypeRef) : w.bare.derivedOf r = w.derivedOf r := by
  simp only [derivedOf, bare, List.getElem?_map, Option.map_map]
  rfl

theorem effectiveProperties_bare (r : TypeRef) :
    w.bare.effectiveProperties r = (w.effectiveProperties r).map Property.bare := by
  simp only [effectiveProperties, derivedOf_bare, List.map_filterMap]
  exact List.filterMap_congr fun p _ => w.property?_bare p

theorem primaryKey?_bare (r : TypeRef) : w.bare.primaryKey? r = w.primaryKey? r := by
  simp only [primaryKey?, derivedOf_bare]

theorem refs_bare : w.bare.refs = w.refs := by
  simp only [refs, bare, List.flatMap_map]
  refine List.flatMap_congr fun s _ => ?_
  simp [SchemaOf.refs, Schema.bare]

theorem typeName_bare (d : DataType) : w.bare.typeName d = w.typeName d := by
  have hname : TypeLookup.typeName w.bare.type? = TypeLookup.typeName w.type? := by
    funext r
    rw [type?_bare, TypeLookup.typeName_bare]
  rw [typeName, typeName, hname]
  rfl

end Workspace

/-! ### The backend without annotations -/

namespace RustSource

variable (v : SchemaView)

@[simp] theorem primitiveType_bare : primitiveType v.bare = primitiveType v := rfl

@[simp] theorem nameOf_bare : nameOf v.bare = nameOf v := by
  funext r
  rw [nameOf, nameOf, SchemaView.bare, Workspace.type?_bare, TypeLookup.typeName_bare]

@[simp] theorem pathTo_bare : pathTo v.bare = pathTo v := by
  funext r id
  have hname : ((v.bare.workspace.schemas[r.schema]?).map fun s => s.name) =
      (v.workspace.schemas[r.schema]?).map fun s => s.name := by
    simp only [SchemaView.bare, Workspace.bare, List.getElem?_map, Option.map_map]
    rfl
  rw [pathTo, pathTo, hname]
  rfl

@[simp] theorem typePath_bare : typePath v.bare = typePath v := by
  funext r
  rw [typePath, typePath, nameOf_bare, pathTo_bare]

theorem inlineTargets_bare (w : Workspace) : inlineTargets w.bare = inlineTargets w := by
  funext r
  rw [inlineTargets, inlineTargets, Workspace.effectiveProperties_bare, List.filterMap_map]
  rfl

theorem inlines_bare (w : Workspace) : inlines w.bare = inlines w := by
  funext source target
  rw [inlines, inlines, inlineTargets_bare, Workspace.refs_bare]

theorem leafType_bare (owner : TypeRef) (p : LinkedProperty) (inPlace : Bool) (t : DataType) :
    leafType v.bare owner p.bare inPlace t = leafType v owner p inPlace t := by
  have hinlines : inlines v.bare.workspace = inlines v.workspace := inlines_bare v.workspace
  have htypeName : v.bare.workspace.typeName t = v.workspace.typeName t :=
    v.workspace.typeName_bare t
  simp only [leafType, hinlines, htypeName, primitiveType_bare, typePath_bare, pathTo_bare,
    nameOf_bare]
  rfl

theorem propertyType_bare (owner : TypeRef) (p : LinkedProperty) :
    propertyType v.bare owner p.bare = propertyType v owner p := by
  simp only [propertyType, leafType_bare, primitiveType_bare]
  rfl

end RustSource

/-! ### Computations with alike results -/

theorem map_bind_congr {δ : Type} {x : Except ε α} {x' : Except ε α'} {g : α → γ} {g' : α' → γ}
    {f : α → Except ε β} {f' : α' → Except ε β'} {k : β → δ} {k' : β' → δ}
    (hx : x.map g = x'.map g') (hf : ∀ a a', g a = g' a' → (f a).map k = (f' a').map k') :
    (x >>= f).map k = (x' >>= f').map k' := by
  cases x with
  | error e =>
      cases x' with
      | error e' =>
          obtain rfl := Except.error.inj hx
          rfl
      | ok a' => contradiction
  | ok a =>
      cases x' with
      | error e' => contradiction
      | ok a' => exact hf a a' (Except.ok.inj hx)

theorem map_eq_error {x : Except ε α} {g : α → β} {e : ε} : x.map g = .error e ↔ x = .error e := by
  cases x <;> simp [Except.map]

/-- Both computations do the same first. -/
theorem map_bind_right {δ : Type} {x : Except ε α} {f : α → Except ε β} {f' : α → Except ε β'}
    {k : β → δ} {k' : β' → δ} (hf : ∀ a, (f a).map k = (f' a).map k') :
    (x >>= f).map k = (x >>= f').map k' :=
  map_bind_congr (g := id) rfl fun a a' h => by
    obtain rfl : a = a' := h
    exact hf a

theorem mapM_map_congr {h : α → α'} {f : α → Except ε β} {f' : α' → Except ε β} {g : β → γ}
    {as : List α} (hf : ∀ a ∈ as, (f' (h a)).map g = (f a).map g) :
    ((as.map h).mapM f').map (List.map g) = (as.mapM f).map (List.map g) := by
  induction as with
  | nil => rfl
  | cons a as ih =>
      rw [List.forall_mem_cons] at hf
      rw [List.map_cons, List.mapM_cons, List.mapM_cons]
      refine map_bind_congr hf.1 fun b b' hb => map_bind_congr (ih hf.2) fun bs bs' hbs => ?_
      exact congrArg Except.ok (congrArg₂ List.cons hb hbs)

theorem foldlM_map_congr {h : α → α'} {f : β → α → Except ε β} {f' : β → α' → Except ε β}
    {g : β → γ} (hf : ∀ b b' a, g b' = g b → (f' b' (h a)).map g = (f b a).map g) {as : List α}
    {b b' : β} (hb : g b' = g b) : ((as.map h).foldlM f' b').map g = (as.foldlM f b).map g := by
  induction as generalizing b b' with
  | nil => exact congrArg Except.ok hb
  | cons a as ih =>
      rw [List.map_cons, List.foldlM_cons, List.foldlM_cons]
      exact map_bind_congr (hf b b' a hb) fun c c' hc => ih hc

/-! ### Items without documentation -/

namespace RustSource

variable (v : SchemaView)

theorem structField_bare (owner : TypeRef) (p : LinkedProperty) {done done' : List RustMember}
    (hdone : done'.map RustMember.bare = done.map RustMember.bare) :
    (structField v.bare owner done' p.bare).map RustMember.bare =
      (structField v owner done p).map RustMember.bare := by
  have hnames : done'.map RustMember.name = done.map RustMember.name := by
    simpa [Function.comp_def, RustMember.bare] using congrArg (List.map RustMember.name) hdone
  rw [structField, structField, hnames, propertyType_bare]
  refine map_bind_right fun name => ?_
  simp only [Property.bare]
  split
  · rfl
  · exact map_bind_right fun type => rfl

theorem structFields_bare (owner : TypeRef) (ps : List LinkedProperty) :
    (structFields v.bare owner (ps.map Property.bare)).map (List.map RustMember.bare) =
      (structFields v owner ps).map (List.map RustMember.bare) := by
  refine foldlM_map_congr (fun done done' p hdone => ?_) rfl
  refine map_bind_congr (structField_bare v owner p hdone) fun f f' hf => ?_
  simp only [pure, Except.pure, Except.map, List.map_append, List.map_cons, List.map_nil, hdone, hf]

theorem keyItems_bare (r : TypeRef) (t : LinkedType) (name : String) :
    keyItems v.bare r t.bare name = keyItems v r t name := by
  have hkey : v.bare.workspace.primaryKey? r = v.workspace.primaryKey? r :=
    v.workspace.primaryKey?_bare r
  rw [keyItems, keyItems, hkey]
  rfl

theorem interfacesOf_bare : interfacesOf v.bare = interfacesOf v := by
  funext r
  rw [interfacesOf, interfacesOf, SchemaView.bare, Workspace.type?_bare,
    TypeLookup.interfacesOf_bare]

theorem implementedInterfaces_bare : implementedInterfaces v.bare = implementedInterfaces v := by
  have hrefs : v.bare.workspace.refs = v.workspace.refs := v.workspace.refs_bare
  have hbase : base? v.bare = base? v := by
    funext r
    rw [base?, base?, SchemaView.bare, Workspace.type?_bare, TypeLookup.base?_bare]
  funext r
  simp only [implementedInterfaces, hrefs, hbase, interfacesOf_bare]

theorem interfaceProperties_bare (i : TypeRef) :
    interfaceProperties v.bare i = (interfaceProperties v i).map Property.bare := by
  rw [interfaceProperties, interfaceProperties, SchemaView.bare, Workspace.type?_bare,
    TypeLookup.properties_bare]

theorem interfaceImpl_bare (owner : TypeRef) (name : String) (i : TypeRef) :
    interfaceImpl v.bare owner name i = interfaceImpl v owner name i := by
  rw [interfaceImpl, interfaceImpl, typePath_bare, interfaceProperties_bare, List.mapM_map]
  simp only [Function.comp_def, propertyType_bare]
  rfl

theorem compositeItems_bare (derives : List String) (r : TypeRef) (t : LinkedType)
    (c : LinkedComposite) :
    (compositeItems v.bare derives r t.bare c.bare).map (List.map RustItem.bare) =
      (compositeItems v derives r t c).map (List.map RustItem.bare) := by
  have hproperties : v.bare.workspace.effectiveProperties r =
      (v.workspace.effectiveProperties r).map Property.bare :=
    v.workspace.effectiveProperties_bare r
  have himpls : ∀ name, interfaceImpl v.bare r name = interfaceImpl v r name := fun name =>
    funext fun i => interfaceImpl_bare v r name i
  simp only [compositeItems, hproperties, implementedInterfaces_bare, himpls, UserType.name_bare,
    UserType.kind_bare, keyItems_bare]
  refine map_bind_right fun name => map_bind_congr (structFields_bare v r _) ?_
  intro fields fields' hfields
  have himplsOf : ∀ key, (do
        let impls ← (implementedInterfaces v r).mapM (interfaceImpl v r name)
        pure (RustItem.struct (typeDocs t.bare ++ baseDocs v.bare c.bare.base) derives name
          fields :: key ++ impls) : Except RustFault (List RustItem)).map (List.map RustItem.bare) =
      (do
        let impls ← (implementedInterfaces v r).mapM (interfaceImpl v r name)
        pure (RustItem.struct (typeDocs t ++ baseDocs v c.base) derives name fields' ::
          key ++ impls) : Except RustFault (List RustItem)).map (List.map RustItem.bare) := by
    intro key
    refine map_bind_right fun impls => congrArg Except.ok ?_
    simp only [List.cons_append, List.map_cons, RustItem.bare, hfields]
  split
  · exact map_bind_right himplsOf
  · exact himplsOf []

theorem interfaceItems_bare (r : TypeRef) (t : LinkedType) (c : LinkedComposite) :
    (interfaceItems v.bare r t.bare c.bare).map (List.map RustItem.bare) =
      (interfaceItems v r t c).map (List.map RustItem.bare) := by
  rw [interfaceItems, interfaceItems, typePath_bare]
  refine map_bind_right fun name => map_bind_right fun supertraits =>
    map_bind_congr (mapM_map_congr (g := RustMember.bare) fun p _ => ?_) ?_
  · rw [propertyType_bare]
    exact map_bind_right fun type => map_bind_right fun field => rfl
  · intro getters getters' hgetters
    simp only [pure, Except.pure, Except.map, List.map_cons, List.map_nil, RustItem.bare, hgetters]

theorem repeatedElement?_bare (before : List Int) (es : List EnumElement) :
    repeatedElement? before (es.map EnumElement.bare) =
      (repeatedElement? before es).map EnumElement.bare := by
  induction es generalizing before with
  | nil => rfl
  | cons e es ih =>
      rw [List.map_cons, repeatedElement?, repeatedElement?, ih]
      by_cases he : e.value ∈ before <;> simp [EnumElement.bare, he]

theorem enumItems_bare (t : LinkedType) (e : EnumBody) :
    (enumItems v.bare t.bare e.bare).map (List.map RustItem.bare) =
      (enumItems v t e).map (List.map RustItem.bare) := by
  have hkind : (v.bare.workspace.primitives[e.bare.underlying]?.getD default).kind =
      (v.workspace.primitives[e.underlying]?.getD default).kind := rfl
  have helements : e.bare.elements = e.elements.map EnumElement.bare := rfl
  simp only [enumItems, hkind, helements, repeatedElement?_bare, UserType.name_bare,
    List.isEmpty_map]
  refine map_bind_right fun name => ?_
  cases intType? (v.workspace.primitives[e.underlying]?.getD default).kind with
  | none => rfl
  | some repr =>
      cases repeatedElement? [] e.elements with
      | some x => rfl
      | none =>
          refine map_bind_congr (mapM_map_congr (g := RustVariant.bare) fun x _ =>
            map_bind_right fun name => rfl) fun variants variants' hvariants => ?_
          split <;> refine congrArg Except.ok ?_ <;>
            simp only [List.map_cons, List.map_nil, RustItem.bare, hvariants]

/-- Without documentation, items are the same for a type without annotations. -/
theorem typeItems_bare (derives : List String) (r : TypeRef) (t : LinkedType) :
    (typeItems v.bare derives r t.bare).map (List.map RustItem.bare) =
      (typeItems v derives r t).map (List.map RustItem.bare) := by
  obtain ⟨name, ns, kind, body, metadata⟩ := t
  cases kind with
  | entity | struct =>
      cases body with
      | composite c => exact compositeItems_bare v derives r _ c
      | enum e => rfl
  | interface =>
      cases body with
      | composite c => exact interfaceItems_bare v r _ c
      | enum e => rfl
  | enum =>
      cases body with
      | composite c => rfl
      | enum e => exact enumItems_bare v _ e

/-! ### Registries -/

theorem isConcreteEntity_bare (t : LinkedType) : isConcreteEntity t.bare = isConcreteEntity t := by
  rw [isConcreteEntity, isConcreteEntity, UserType.kind_bare, UserType.composite?_bare,
    Option.any_map]
  rfl

theorem concreteEntities_bare (s : Schema) :
    concreteEntities s.bare = (concreteEntities s).map fun e => (e.1, e.2.bare) := by
  have hrefs : s.bare.refs = s.refs := by simp [SchemaOf.refs, Schema.bare]
  have htypes : s.bare.types = s.types.map UserType.bare := rfl
  rw [concreteEntities, concreteEntities, hrefs, htypes, List.zip_map_right, List.filter_map]
  simp only [Function.comp_def, Prod.map, isConcreteEntity_bare]
  rfl

theorem hasRegistry_bare (w : Workspace) (key : SchemaKey) :
    hasRegistry w.bare key = hasRegistry w key := by
  have himports : importKeys w.bare = importKeys w := by
    funext k
    simp only [importKeys, Workspace.bare, List.getElem?_map]
    cases w.schemas[k]? <;> rfl
  have hlength : w.bare.schemas.length = w.schemas.length := List.length_map _
  rw [hasRegistry, hasRegistry, himports, hlength]
  congr 1
  funext k
  simp only [Workspace.bare, List.getElem?_map, Option.any_map, Function.comp_def, Schema.bare,
    List.any_map, isConcreteEntity_bare]

theorem registryImports_bare :
    registryImports v.bare = (registryImports v).map fun i => (i.1, i.2.bare) := by
  have himports : v.bare.imports = v.imports.map fun i => (i.1, i.2.bare) := by
    rw [SchemaView.imports, SchemaView.imports, List.map_filterMap]
    refine List.filterMap_congr fun i _ => ?_
    have hkey : v.bare.schema.key = v.schema.key := rfl
    rw [hkey]
    split
    · rfl
    · simp only [SchemaView.bare, Workspace.bare, List.getElem?_map, Option.map_map]
      rfl
  have hregistry : ∀ s : Schema, hasRegistry v.bare.workspace s.bare.key =
      hasRegistry v.workspace s.key := fun s => hasRegistry_bare v.workspace s.key
  rw [registryImports, registryImports, himports, List.filter_map]
  simp only [Function.comp_def, hregistry]

theorem registryItems?_bare : registryItems? v.bare = registryItems? v := by
  have hentities := concreteEntities_bare v.schema
  have hschema : v.bare.schema = v.schema.bare := rfl
  simp only [registryItems?, hschema, hentities, registryImports_bare, List.isEmpty_map,
    List.foldlM_map, List.mapM_map]
  rfl

theorem registryNotes_bare : registryNotes v.bare = registryNotes v := by
  have hentities := concreteEntities_bare v.schema
  have hschema : v.bare.schema = v.schema.bare := rfl
  have hkey : ∀ r, v.bare.workspace.primaryKey? r = v.workspace.primaryKey? r :=
    v.workspace.primaryKey?_bare
  simp only [registryNotes, hschema, hentities, List.flatMap_map, hkey, UserType.name_bare]

end RustSource

/-! ### Documentation -/

open RustSource

/-- The annotations of a property, as they are shown. -/
def Property.annotations (p : LinkedProperty) : List String :=
  (p.default.map fun d => "Default: `" ++ d ++ "`.").toList ++ p.metadata.map annotation

/-- The annotations that the code of a type shows, as it shows them: its own, and those of the
properties or elements that the code is about. -/
def Workspace.annotationsAt (w : Workspace) (r : TypeRef) (t : LinkedType) : List String :=
  t.metadata.map annotation ++
    match t.body with
    | .composite c =>
      (if t.kind = .interface then c.properties else w.effectiveProperties r).flatMap
        Property.annotations
    | .enum e => e.elements.flatMap fun x => x.metadata.map annotation

theorem strayCode_cons_of_no_break {doc : String} (h : '\n' ∉ doc.toList) (docs : List String) :
    strayCode (doc :: docs) = strayCode docs := by
  rw [strayCode, List.flatMap_cons, strayLines_of_no_break h]
  rfl

theorem strayCode_flatMap {as : List α} {f g : α → List String}
    (h : ∀ a ∈ as, strayCode (f a) = strayCode (g a)) :
    strayCode (as.flatMap f) = strayCode (as.flatMap g) := by
  rw [strayCode, strayCode, List.flatMap_assoc, List.flatMap_assoc]
  exact List.flatMap_congr h

theorem strayCode_typeDocs {t : LinkedType} (h : t.ProperlyNamed) :
    strayCode (typeDocs t) = strayCode (t.metadata.map annotation) := by
  have hkind : '\n' ∉ (capitalized t.kind).toList := by cases t.kind <;> decide
  rw [typeDocs, strayCode_cons_of_no_break (by simp [hkind, h.break_notMem_fullName]),
    ← List.flatMap_pure_eq_map]
  exact strayCode_flatMap fun entry _ => strayCode_cons_of_no_break (by simp) _

theorem strayCode_baseDocs {w : Workspace} (h : Reached w) (s : Schema) (base : Option TypeRef) :
    strayCode (baseDocs ⟨w, s⟩ base) = [] := by
  cases base with
  | none => rfl
  | some r =>
      have hname : '\n' ∉ (((w.type? r).map UserType.fullName).getD "").toList := by
        cases ht : w.type? r with
        | none => simp
        | some t => exact (h.properlyNamed ht).break_notMem_fullName
      rw [baseDocs, strayCode_cons_of_no_break (by simp),
        strayCode_cons_of_no_break (by simp [hname])]
      rfl

theorem strayCode_propertyDocs (p : LinkedProperty) :
    strayCode (propertyDocs p) = strayCode p.annotations := by
  have hrole : strayCode (roleDocs p.role) = [] := by
    cases p.role with
    | plain => rfl
    | primaryKey | foreignKey => exact strayCode_cons_of_no_break (by decide) []
  rw [propertyDocs, Property.annotations, List.append_assoc, strayCode_append, hrole,
    List.nil_append]

theorem strayCode_keyItems {v : SchemaView} {r : TypeRef} {t : LinkedType} {name : String}
    {items : List RustItem} (hname : '\n' ∉ name.toList) (h : keyItems v r t name = .ok items) :
    strayCode (items.flatMap RustItem.docs) = [] := by
  rw [keyItems] at h
  cases hkey : v.workspace.primaryKey? r with
  | none =>
      rw [hkey] at h
      contradiction
  | some layout =>
      rw [hkey] at h
      obtain ⟨components, -, h⟩ := bind_eq_ok.1 h
      obtain rfl := pure_eq_ok.1 h
      exact strayCode_cons_of_no_break (by simp [hname]) []

theorem break_notMem_typeName {name id : String} (hname : '\n' ∉ name.toList)
    (h : RustNames.typeName name = .ok id) : '\n' ∉ id.toList := by
  rw [RustNames.typeName, RustNames.identifier] at h
  split at h
  · contradiction
  · split at h
    · obtain rfl := Except.ok.inj h
      simp [RustNames.rawMark, hname]
    · obtain rfl := Except.ok.inj h
      exact hname

theorem flatMap_eq_of_forall₂ {R : α → β → Prop} {f : β → List γ} {g : α → List γ} {as : List α}
    {bs : List β} (h : List.Forall₂ R as bs) (hR : ∀ a b, R a b → f b = g a) :
    bs.flatMap f = as.flatMap g := by
  induction h with
  | nil => rfl
  | cons hab _ ih => rw [List.flatMap_cons, List.flatMap_cons, hR _ _ hab, ih]

section Documentation

variable {w : Workspace} (h : Reached w) {s : Schema} {r : TypeRef} {derives : List String}
  {t : LinkedType} {items : List RustItem}

theorem strayCode_interfaceItems {c : LinkedComposite} (ht : t.ProperlyNamed)
    (hitems : interfaceItems ⟨w, s⟩ r t c = .ok items) :
    strayCode (items.flatMap RustItem.docs) =
      strayCode (t.metadata.map annotation ++ c.properties.flatMap Property.annotations) := by
  rw [interfaceItems] at hitems
  obtain ⟨name, -, hitems⟩ := bind_eq_ok.1 hitems
  obtain ⟨supertraits, -, hitems⟩ := bind_eq_ok.1 hitems
  obtain ⟨getters, hgetters, hitems⟩ := bind_eq_ok.1 hitems
  obtain rfl := pure_eq_ok.1 hitems
  have hdocs : getters.flatMap RustMember.docs = c.properties.flatMap propertyDocs := by
    refine flatMap_eq_of_forall₂ (mapM_eq_ok.1 hgetters) fun p g hg => ?_
    obtain ⟨type, -, hg⟩ := bind_eq_ok.1 hg
    obtain ⟨field, -, hg⟩ := bind_eq_ok.1 hg
    obtain rfl := pure_eq_ok.1 hg
    rfl
  rw [List.flatMap_singleton, RustItem.docs, strayCode_append, strayCode_append,
    strayCode_typeDocs ht, hdocs, strayCode_flatMap fun p _ => strayCode_propertyDocs p]

include h in
theorem strayCode_compositeItems {c : LinkedComposite} (ht : t.ProperlyNamed)
    (hitems : compositeItems ⟨w, s⟩ derives r t c = .ok items) :
    strayCode (items.flatMap RustItem.docs) = strayCode
      (t.metadata.map annotation ++ (w.effectiveProperties r).flatMap Property.annotations) := by
  obtain ⟨name, fields, _, rfl, hname, hfields, key, impls, rfl, himpls, hkey⟩ :=
    compositeItems_ok hitems
  have hdocs : fields.flatMap RustMember.docs = (w.effectiveProperties r).flatMap propertyDocs :=
    flatMap_eq_of_forall₂ (structFields_eq_ok.1 hfields).1 fun p f hf => hf.docs
  have hkeyDocs : strayCode (key.flatMap RustItem.docs) = [] := by
    split at hkey
    · exact strayCode_keyItems
        (break_notMem_typeName (Text.break_notMem_identifier ht.name) hname) hkey
    · obtain rfl := pure_eq_ok.1 hkey
      rfl
  have himplDocs : impls.flatMap RustItem.docs = [] := by
    refine List.flatMap_eq_nil_iff.2 fun item hitem => ?_
    obtain ⟨i, -, hi⟩ := exists_of_forall₂_right (mapM_eq_ok.1 himpls) hitem
    obtain ⟨path, getters, -, rfl, -⟩ := interfaceImpl_ok hi
    rfl
  rw [List.flatMap_cons, List.flatMap_append, himplDocs, List.append_nil, strayCode_append,
    hkeyDocs, List.append_nil, RustItem.docs, strayCode_append, strayCode_append,
    strayCode_typeDocs ht, strayCode_baseDocs h, List.append_nil, hdocs, strayCode_append,
    strayCode_flatMap fun p _ => strayCode_propertyDocs p]

theorem strayCode_enumItems {e : EnumBody} (ht : t.ProperlyNamed)
    (hitems : enumItems ⟨w, s⟩ t e = .ok items) :
    strayCode (items.flatMap RustItem.docs) = strayCode (t.metadata.map annotation ++
      e.elements.flatMap fun x => x.metadata.map annotation) := by
  simp only [enumItems] at hitems
  obtain ⟨name, -, hitems⟩ := bind_eq_ok.1 hitems
  split at hitems
  · contradiction
  · cases hrepeated : repeatedElement? [] e.elements with
    | some x =>
      rw [hrepeated] at hitems
      contradiction
    | none =>
      rw [hrepeated] at hitems
      obtain ⟨variants, hvariants, hitems⟩ := bind_eq_ok.1 hitems
      have hdocs : variants.flatMap RustVariant.docs =
          e.elements.flatMap fun x => x.metadata.map annotation := by
        refine flatMap_eq_of_forall₂ (mapM_eq_ok.1 hvariants) fun x y hy => ?_
        obtain ⟨id, -, hy⟩ := bind_eq_ok.1 hy
        obtain rfl := pure_eq_ok.1 hy
        rfl
      split at hitems <;> obtain rfl := pure_eq_ok.1 hitems <;>
        simp [RustItem.docs, strayCode_append, strayCode_typeDocs ht, hdocs]

include h in
/-- The documentation of the code of a type leaves behind what its annotations leave behind. -/
theorem strayCode_typeItems (ht : w.type? r = some t)
    (hitems : typeItems ⟨w, s⟩ derives r t = .ok items) :
    strayCode (items.flatMap RustItem.docs) = strayCode (w.annotationsAt r t) := by
  have hnamed := h.properlyNamed ht
  rw [Workspace.annotationsAt]
  rcases typeItems_cases hitems with ⟨c, hbody, hkind, hitems⟩ | ⟨c, hbody, hkind, hitems⟩ |
    ⟨e, hbody, -, hitems⟩
  · have hinterface : t.kind ≠ .interface := by
      rcases hkind with hkind | hkind <;> simp [hkind]
    simp only [hbody, if_neg hinterface, strayCode_compositeItems h hnamed hitems]
  · simp only [hbody, if_pos hkind, strayCode_interfaceItems hnamed hitems]
  · simp only [hbody, strayCode_enumItems hnamed hitems]

end Documentation

/-! ### Code -/

theorem emitSchema_bare (v : SchemaView) (derives : List String) :
    (backend derives).emitSchema v.bare = (backend derives).emitSchema v := by
  simp only [backend, registryItems?_bare, registryNotes_bare]
  rfl

theorem emitType_eq_error {v : SchemaView} {derives : List String} {r : TypeRef} {t : LinkedType}
    {e : CompileError} : (backend derives).emitType v r t = .error e ↔
      ∃ f, typeItems v derives r t = .error f ∧ v.failure t.name f.message = e := by
  simp only [backend]
  cases typeItems v derives r t <;> simp

/-- The code of a type is that without documentation, just if no annotation is continued with
code. -/
theorem codeLines_emitType_iff {w : Workspace} (h : Reached w) {s : Schema} {r : TypeRef}
    {derives : List String} {t : LinkedType} (ht : w.type? r = some t) {items : List RustItem}
    (hitems : typeItems ⟨w, s⟩ derives r t = .ok items) :
    codeLines (RustItem.renderFile s.name items).toList =
        codeLines (RustItem.renderFile s.name (items.map RustItem.bare)).toList ↔
      ∀ doc ∈ w.annotationsAt r t, strayLines doc = [] := by
  rw [codeLines_renderFile_bare_iff, ← strayCode_eq_nil, strayCode_typeItems h ht hitems,
    strayCode_eq_nil]

/-- Annotations have no say in whether the backend succeeds and why it fails, and none in the code
of a schema as a whole. They change the code of a type just if one of them goes on after a line
break: of two workspaces that differ in annotations only, where those of the second are not continued
with code, the code of a type is the same just if those of the first are not either. -/
theorem annotations_change_code_iff {w w' : Workspace} (h : Reached w) (h' : Reached w')
    (hbare : w.bare = w'.bare) (derives : List String) {key : SchemaKey} {s s' : Schema}
    (hs : w.schemas[key]? = some s) (hs' : w'.schemas[key]? = some s') :
    (backend derives).emitSchema ⟨w, s⟩ = (backend derives).emitSchema ⟨w', s'⟩ ∧
    ∀ i t t', s.types[i]? = some t → s'.types[i]? = some t' →
      (∀ e, (backend derives).emitType ⟨w, s⟩ ⟨key, i⟩ t = .error e ↔
        (backend derives).emitType ⟨w', s'⟩ ⟨key, i⟩ t' = .error e) ∧
      ∀ x x', (backend derives).emitType ⟨w, s⟩ ⟨key, i⟩ t = .ok x →
        (backend derives).emitType ⟨w', s'⟩ ⟨key, i⟩ t' = .ok x' →
        ((∀ doc ∈ w'.annotationsAt ⟨key, i⟩ t', strayLines doc = []) →
          (codeLines x.code.toList = codeLines x'.code.toList ↔
            ∀ doc ∈ w.annotationsAt ⟨key, i⟩ t, strayLines doc = [])) ∧
        ((∀ doc ∈ w.annotationsAt ⟨key, i⟩ t ++ w'.annotationsAt ⟨key, i⟩ t', '\n' ∉ doc.toList) →
          codeLines x.code.toList = codeLines x'.code.toList) := by
  have hschema : s.bare = s'.bare := by
    have heq := congrArg (fun w => w.schemas[key]?) hbare
    simpa [Workspace.bare, hs, hs'] using heq
  have hview : (SchemaView.mk w s).bare = (SchemaView.mk w' s').bare := by
    rw [SchemaView.bare, SchemaView.bare, hbare, hschema]
  refine ⟨?_, fun i t t' ht ht' => ?_⟩
  · rw [← emitSchema_bare, hview, emitSchema_bare]
  have htype : t.bare = t'.bare := by
    have heq := congrArg (fun s => s.types[i]?) hschema
    simpa [Schema.bare, ht, ht'] using heq
  have hname : s.name = s'.name := congrArg (fun s => s.name) hschema
  have hitems : (typeItems ⟨w, s⟩ derives ⟨key, i⟩ t).map (List.map RustItem.bare) =
      (typeItems ⟨w', s'⟩ derives ⟨key, i⟩ t').map (List.map RustItem.bare) := by
    rw [← typeItems_bare, hview, htype, typeItems_bare]
  have hpublished : w.type? ⟨key, i⟩ = some t := by simp [Workspace.type?, hs, ht]
  have hpublished' : w'.type? ⟨key, i⟩ = some t' := by simp [Workspace.type?, hs', ht']
  refine ⟨fun e => ?_, fun x x' hx hx' => ?_⟩
  · have herror : ∀ f, typeItems ⟨w, s⟩ derives ⟨key, i⟩ t = .error f ↔
        typeItems ⟨w', s'⟩ derives ⟨key, i⟩ t' = .error f := fun f => by
      rw [← map_eq_error, hitems, map_eq_error]
    have hfailure : (SchemaView.mk w s).failure t.name = (SchemaView.mk w' s').failure t'.name := by
      funext message
      exact congrArg₂ (CompileError.generation · · message)
        (congrArg (fun s => s.source) hschema) (congrArg (fun t => t.name) htype)
    rw [emitType_eq_error, emitType_eq_error, hfailure]
    simp only [herror]
  · obtain ⟨items, hok, hcode⟩ := backend_emitType_ok hx
    obtain ⟨items', hok', hcode'⟩ := backend_emitType_ok hx'
    have hiff := codeLines_emitType_iff h hpublished hok
    have hiff' := codeLines_emitType_iff h' hpublished' hok'
    rw [hok, hok'] at hitems
    rw [Except.ok.inj hitems, hname] at hiff
    rw [hcode, hcode', hname]
    have hquiet : (∀ doc ∈ w'.annotationsAt ⟨key, i⟩ t', strayLines doc = []) →
        (codeLines (RustItem.renderFile s'.name items).toList =
            codeLines (RustItem.renderFile s'.name items').toList ↔
          ∀ doc ∈ w.annotationsAt ⟨key, i⟩ t, strayLines doc = []) := fun hall => by
      rw [hiff'.2 hall, hiff]
    refine ⟨hquiet, fun hbreak => (hquiet fun doc hdoc => ?_).2 fun doc hdoc => ?_⟩
    · exact strayLines_of_no_break (hbreak doc (List.mem_append_right _ hdoc))
    · exact strayLines_of_no_break (hbreak doc (List.mem_append_left _ hdoc))

/-! ### A note that goes on as code -/

/-- A struct with a note. -/
def notedSources (note : String) : SourceTable :=
  [("a", { name := some "A", types := [
      .struct { name := some "S", metadata := [("note", note)] }] })]

def notedWorkspace (note : String) : Workspace :=
  (({ primitives := [] } : Workspace).load (notedSources note).reader ["a"]).workspace

def notedItems (note : String) : List RustItem :=
  [.struct ["Struct `S`", "", "`note`: " ++ note] [] "S" []]

theorem notedWorkspace_reached (note : String) : Reached (notedWorkspace note) :=
  (Reached.empty [] {} none).load (notedSources note).reader ["a"]

theorem notedWorkspace_bare (note note' : String) :
    (notedWorkspace note).bare = (notedWorkspace note').bare := by cbv

theorem notedWorkspace_emits (note : String) :
    ∃ s t x, (notedWorkspace note).schemas[0]? = some s ∧ s.types[0]? = some t ∧
      (backend []).emitType ⟨notedWorkspace note, s⟩ ⟨0, 0⟩ t = .ok x ∧
      x.code = RustItem.renderFile "A" (notedItems note) ∧
      (notedWorkspace note).annotationsAt ⟨0, 0⟩ t = ["`note`: " ++ note] := by
  have hfound : ((notedWorkspace note).schemas[0]?.bind fun s => s.types[0]?.map fun t =>
      (s.name, typeItems ⟨notedWorkspace note, s⟩ [] ⟨0, 0⟩ t,
        (notedWorkspace note).annotationsAt ⟨0, 0⟩ t)) =
      some ("A", .ok (notedItems note), ["`note`: " ++ note]) := by cbv
  obtain ⟨s, hs, hfound⟩ := Option.bind_eq_some_iff.1 hfound
  obtain ⟨t, ht, hfound⟩ := Option.map_eq_some_iff.1 hfound
  simp only [Prod.mk.injEq] at hfound
  obtain ⟨hname, hitems, hannotations⟩ := hfound
  refine ⟨s, t, _, hs, ht, backend_emitType_of_ok hitems, ?_, hannotations⟩
  rw [file, hname]

/-- The second line of a note comes out as code. -/
theorem note_continues_as_code :
    Reached (notedWorkspace "x") ∧ Reached (notedWorkspace "x\npub struct T;") ∧
      (notedWorkspace "x").bare = (notedWorkspace "x\npub struct T;").bare ∧
      ∃ s t x s' t' x', (notedWorkspace "x").schemas[0]? = some s ∧ s.types[0]? = some t ∧
        (notedWorkspace "x\npub struct T;").schemas[0]? = some s' ∧ s'.types[0]? = some t' ∧
        (backend []).emitType ⟨notedWorkspace "x", s⟩ ⟨0, 0⟩ t = .ok x ∧
        (backend []).emitType ⟨notedWorkspace "x\npub struct T;", s'⟩ ⟨0, 0⟩ t' = .ok x' ∧
        codeLines x.code.toList ≠ codeLines x'.code.toList := by
  obtain ⟨s, t, x, hs, ht, hx, hcode, -⟩ := notedWorkspace_emits "x"
  obtain ⟨s', t', x', hs', ht', hx', hcode', -⟩ := notedWorkspace_emits "x\npub struct T;"
  have hquiet := (codeLines_renderFile_bare_iff "A" (notedItems "x")).2 (by decide)
  have hloud := mt (codeLines_renderFile_bare_iff "A" (notedItems "x\npub struct T;")).1 (by decide)
  refine ⟨notedWorkspace_reached _, notedWorkspace_reached _, notedWorkspace_bare _ _,
    s, t, x, s', t', x', hs, ht, hs', ht', hx, hx', fun heq => hloud ?_⟩
  rw [hcode, hcode', hquiet] at heq
  exact heq.symm

/-- A note of one line can be exchanged for another, but not for one that goes on as code. -/
theorem annotations_change_code_iff_noted :
    Reached (notedWorkspace "x") ∧ Reached (notedWorkspace "y") ∧
      Reached (notedWorkspace "x\npub struct T;") ∧
      (notedWorkspace "x").bare = (notedWorkspace "y").bare ∧
      (notedWorkspace "x\npub struct T;").bare = (notedWorkspace "y").bare ∧
      ∃ s s' s'' t t' t'' x x' x'', (notedWorkspace "x").schemas[0]? = some s ∧
        (notedWorkspace "y").schemas[0]? = some s' ∧
        (notedWorkspace "x\npub struct T;").schemas[0]? = some s'' ∧
        (backend []).emitType ⟨notedWorkspace "x", s⟩ ⟨0, 0⟩ t = .ok x ∧
        (backend []).emitType ⟨notedWorkspace "y", s'⟩ ⟨0, 0⟩ t' = .ok x' ∧
        (backend []).emitType ⟨notedWorkspace "x\npub struct T;", s''⟩ ⟨0, 0⟩ t'' = .ok x'' ∧
        codeLines x.code.toList = codeLines x'.code.toList ∧
        codeLines x''.code.toList ≠ codeLines x'.code.toList := by
  obtain ⟨s, t, x, hs, ht, hx, -, hshown⟩ := notedWorkspace_emits "x"
  obtain ⟨s', t', x', hs', ht', hx', -, hshown'⟩ := notedWorkspace_emits "y"
  obtain ⟨s'', t'', x'', hs'', ht'', hx'', -, hshown''⟩ := notedWorkspace_emits "x\npub struct T;"
  have h := notedWorkspace_reached "x"
  have h' := notedWorkspace_reached "y"
  have h'' := notedWorkspace_reached "x\npub struct T;"
  have hbare := notedWorkspace_bare "x" "y"
  have hbare'' := notedWorkspace_bare "x\npub struct T;" "y"
  have hsame := (((annotations_change_code_iff h h' hbare [] hs hs').2 0 t t' ht ht').2 x x' hx
    hx').2
  have hiff := (((annotations_change_code_iff h'' h' hbare'' [] hs'' hs').2 0 t'' t' ht'' ht').2
    x'' x' hx'' hx').1
  rw [hshown, hshown'] at hsame
  rw [hshown', hshown''] at hiff
  refine ⟨h, h', h'', hbare, hbare'', s, s', s'', t, t', t'', x, x', x'', hs, hs', hs'', hx, hx',
    hx'', hsame (by decide), fun heq => ?_⟩
  exact absurd ((hiff (by decide)).1 heq) (by decide)

end SchemaGraph
