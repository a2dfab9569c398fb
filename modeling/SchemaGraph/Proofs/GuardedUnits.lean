import SchemaGraph.Proofs.Guards

/-!
The guarded twins of drafting, resolving and finishing a unit, and why none of their accesses fails.

A draft imports only what is published, and names only what is declared in it, imported by it, or a
primitive. What has been resolved can be read. Finishing asks for supertypes, bases and properties
of published types and of the unit itself, all of which are there: a cycle, the one way in which
bases could go on for ever, is looked for first.
-/

namespace SchemaGraph.Guarded

variable {α β ε R T : Type}

/-! ### Drafting -/

/-- Draws up each item in turn, with the items before it at hand. -/
def inOrder (draw : List β → α → Attempt ε β) (as : List α) : Attempt ε (List β) :=
  as.foldlM (fun done a => do return done ++ [← draw done a]) []

theorem inOrder_eq {draw : List β → α → Attempt ε β} {plain : List β → α → Except ε β}
    {as : List α} (h : ∀ done, ∀ a ∈ as, draw done a = settled (plain done a)) :
    inOrder draw as = settled (Drafting.inOrder plain as) :=
  foldlM_settled (fun done a ha => settled_bind (h done a ha) fun _ _ => rfl) []

section Drafting

variable (w : Workspace) (unit : SourceId)

def importTarget (schema : String) (i : Declaration.Import) :
    Attempt CompileError (String × SchemaKey) := do
  if i.source = unit then return (schema, w.nextKey)
  else
    match ← bySource? w i.source with
    | some target => return (target.name, target.key)
    | none => settled (.error (.sourceNotFound i.source))

def draftImport (schema : String) (done : List (String × SchemaKey)) (i : Declaration.Import) :
    Attempt CompileError (String × SchemaKey) := do
  let (ownName, key) ← importTarget w unit schema i
  settled do
    let written := i.localName.getD ownName
    let name ← Drafting.properName w unit .importAlias written (some written)
    if name ∈ done.map Prod.fst then .error (.duplicateImportAlias unit name)
    return (name, key)

/-- The primitive at a position with its range, if it is an integer type. -/
def integerAt (refusal : CompileError) :
    Option PrimitiveId → Attempt CompileError (PrimitiveId × Int × Int)
  | none => settled (.error refusal)
  | some id => do
    match (← primitiveAt w id).kind.range? with
    | some range => return (id, range)
    | none => settled (.error refusal)

def enumUnderlying (name : String) (text : Option String) :
    Attempt CompileError (PrimitiveId × Int × Int) :=
  integerAt w (.invalidEnumUnderlying unit name (text.getD "")) <|
    match text with
    | some t => w.primitives.lookup? (Text.trim t)
    | none => w.enumDefault

def draftEnum (schemaNamespace name : String) (d : Declaration.Enum) :
    Attempt CompileError DraftType := do
  let (underlying, low, high) ← enumUnderlying w unit name d.underlying
  settled do
    let elements ← Drafting.inOrder (Drafting.draftElement w unit name low high) d.elements
    let ns ← Drafting.typeNamespace w unit schemaNamespace d.namespace
    return { name, «namespace» := ns, kind := .enum, body := .enum { underlying, elements },
             metadata := d.metadata }

def draftBody (schemaNamespace name : String) :
    Declaration.TypeDecl → Attempt CompileError DraftType
  | .enum d => draftEnum w unit schemaNamespace name d
  | t => settled (Drafting.draftBody w unit schemaNamespace name t)

def draftType (schemaNamespace : String) (done : List DraftType) (t : Declaration.TypeDecl) :
    Attempt CompileError DraftType := do
  let name ← settled (Drafting.properName w unit .type s!"type #{done.length + 1}" t.name)
  if name ∈ done.map UserType.name then settled (.error (.duplicateType unit name))
  else draftBody w unit schemaNamespace name t

def ofDeclaration (d : Declaration) : Attempt CompileError Draft := do
  let name ← settled (Drafting.properName w unit .schema unit d.name)
  let ns ← settled (Drafting.properNamespace w unit d.namespace)
  let imports ← inOrder (draftImport w unit name) d.imports
  let types ← inOrder (draftType w unit ns) d.types
  return { key := w.nextKey, source := unit, name, «namespace» := ns, imports, types,
           metadata := d.metadata }

end Drafting

section Drafting

variable {w : Workspace} {unit : SourceId}

theorem importTarget_eq (hw : w.Indexed) (schema : String) (i : Declaration.Import) :
    importTarget w unit schema i = settled (Drafting.importTarget w unit schema i) := by
  rw [importTarget, Drafting.importTarget]
  split
  · rfl
  · rw [lift_bind (bySource?_eq hw i.source)]
    cases w.bySource? i.source <;> rfl

theorem draftImport_eq (hw : w.Indexed) (schema : String) (done : List (String × SchemaKey))
    (i : Declaration.Import) :
    draftImport w unit schema done i = settled (Drafting.draftImport w unit schema done i) :=
  settled_bind (importTarget_eq hw schema i) fun _ _ => rfl

theorem integerAt_eq (refusal : CompileError) {id : Option PrimitiveId}
    (h : ∀ i, id = some i → i < w.primitives.length) :
    integerAt w refusal id = settled
      (match id.bind fun id => (w.primitives[id]?.bind fun p => p.kind.range?).map fun r => (id, r)
        with
      | some found => .ok found
      | none => .error refusal) := by
  cases id with
  | none => rfl
  | some id =>
      obtain ⟨p, hp, hget⟩ := exists_primitiveAt (h id rfl)
      simp only [Option.bind_some, hget]
      rw [integerAt, lift_bind hp]
      cases p.kind.range? <;> rfl

variable (hdefault : ∀ id, w.enumDefault = some id → id < w.primitives.length)

include hdefault

theorem enumUnderlying_eq (name : String) (text : Option String) :
    enumUnderlying w unit name text = settled (Drafting.enumUnderlying w unit name text) := by
  cases text with
  | none => exact integerAt_eq _ hdefault
  | some t => exact integerAt_eq _ fun _ => PrimitiveTable.lookup?_lt

theorem draftBody_eq (schemaNamespace name : String) (t : Declaration.TypeDecl) :
    draftBody w unit schemaNamespace name t =
      settled (Drafting.draftBody w unit schemaNamespace name t) := by
  cases t with
  | enum d => exact settled_bind (enumUnderlying_eq hdefault name d.underlying) fun _ _ => rfl
  | entity d | struct d | interface d => rfl

theorem draftType_eq (schemaNamespace : String) (done : List DraftType) (t : Declaration.TypeDecl) :
    draftType w unit schemaNamespace done t =
      settled (Drafting.draftType w unit schemaNamespace done t) := by
  refine settled_bind rfl fun name _ => ?_
  split
  · rfl
  · exact draftBody_eq hdefault schemaNamespace name t

theorem ofDeclaration_eq (hw : w.Indexed) (d : Declaration) :
    ofDeclaration w unit d = settled (Draft.ofDeclaration w unit d) := by
  refine settled_bind rfl fun name _ => settled_bind rfl fun ns _ => ?_
  refine settled_bind (inOrder_eq fun done i _ => draftImport_eq hw name done i) fun imports _ => ?_
  exact settled_bind (inOrder_eq fun done t _ => draftType_eq hdefault ns done t) fun _ _ => rfl

end Drafting

/-! ### Resolution -/

/-- Reads a binding. -/
def read (b : Binding R T) : Guarded T :=
  b.get.mapError fun _ => .pending

/-- Resolves a binding and reads what has become of it. -/
def resolveWith (find : R → Attempt ε T) (b : Binding R T) : Guarded (Binding R T × Except ε T) :=
  match b with
  | .resolved _ => return (b, .ok (← read b))
  | .pending r => do
    match ← (find r).run with
    | .error e => return (.pending r, .error e)
    | .ok v =>
      let resolved : Binding R T := .resolved v
      return (resolved, .ok (← read resolved))

def untilFailure (f : α → Guarded (α × Except ε Unit)) :
    List α → Guarded (List α × Except ε Unit)
  | [] => return ([], .ok ())
  | a :: as => do
    match ← f a with
    | (b, .error e) => return (b :: as, .error e)
    | (b, .ok ()) =>
      let (bs, r) ← untilFailure f as
      return (b :: bs, r)

section Resolution

variable (w : Workspace) (d : Draft)

def resolvePath (owner : String) (path : TypePath) : Attempt CompileError DataType := do
  let own (found : Option DataType) : Attempt CompileError DataType :=
    settled (found.elim (.error (Resolution.unresolved d owner path (Resolution.ownCandidates w d)))
      .ok)
  match path.qualifier with
  | none => own (Resolution.bareName? w d path.name)
  | some name =>
    match d.import? name with
    | none => settled (.error (.unknownImportAlias d.source owner name))
    | some key =>
      if key = d.key then own (Resolution.typeNamed? d path.name)
      else do
        let s ← schemaAt w key
        match s.typeIndex? path.name with
        | none => settled (.error (Resolution.unresolved d owner path s.typeNames))
        | some index =>
          let t ← typeIn s.toSchemaOf index
          return t.kind.dataType ⟨s.key, index⟩

def resolveSupertype (owner : String) (expected : TypeKind) (path : TypePath) :
    Attempt CompileError TypeRef := do
  let found ← resolvePath w d owner path
  settled <| match found.userType? with
    | some r =>
      if expected.dataType r = found then return r
      else .error (.kindMismatch d.source owner path.render expected found)
    | none => .error (.kindMismatch d.source owner path.render expected found)

def resolveValue (s : Resolution.Site) (path : TypePath) : Attempt CompileError DataType := do
  let found ← resolvePath w d s.owner path
  settled <|
    if found = .void then .error (.voidProperty d.source s.type s.property)
    else if decide (s.role = .foreignKey) = found.isEntity then return found
    else .error (.roleMismatch d.source s.type s.property s.role path.render found)

def resolveMapKey (s : Resolution.Site) (path : TypePath) : Attempt CompileError PrimitiveId := do
  let refuse : Attempt CompileError PrimitiveId :=
    settled (.error (.keyNotCapable d.source s.type s.property path.render .mapKey))
  match ← resolvePath w d s.owner path with
  | .primitive id =>
    let p ← primitiveAt w id
    if p.canBeKey then return id else refuse
  | _ => refuse

def resolveExpr (s : Resolution.Site) : TypeExpr → Attempt CompileError DataType
  | .named path => resolveValue w d s path
  | .container shape key value => do
    let key ← key.mapM (resolveMapKey w d s)
    return .instantiate shape key (← resolveValue w d s value)

def resolveProperty (type : String) (p : Property TypeBinding) :
    Guarded (Property TypeBinding × Except CompileError Unit) := do
  let (b, r) ← resolveWith (resolveExpr w d ⟨type, p.name, p.role⟩) p.type
  return ({ p with type := b }, r.map fun _ => ())

def resolveComposite (type : String) (kind : TypeKind)
    (c : Composite BaseBinding InterfacesBinding TypeBinding) :
    Guarded (Composite BaseBinding InterfacesBinding TypeBinding × Except CompileError Unit) := do
  let supertype := resolveSupertype w d type
  match ← resolveWith (fun b => b.mapM (supertype kind)) c.base with
  | (base, .error e) => return ({ c with base }, .error e)
  | (base, .ok _) =>
    match ← resolveWith (fun is => is.mapM (supertype .interface)) c.interfaces with
    | (interfaces, .error e) => return ({ c with base, interfaces }, .error e)
    | (interfaces, .ok _) =>
      let (properties, r) ← untilFailure (resolveProperty w d type) c.properties
      return ({ c with base, interfaces, properties }, r)

def resolveType (t : DraftType) : Guarded (DraftType × Except CompileError Unit) := do
  match t.body with
  | .enum _ => return (t, .ok ())
  | .composite c =>
    let (c, r) ← resolveComposite w d t.name t.kind c
    return ({ t with body := .composite c }, r)

/-- Resolves every reference of a draft, as far as the first that fails. -/
def resolve : Guarded (Draft × Except CompileError Unit) := do
  let (types, r) ← untilFailure (resolveType w d) d.types
  return ({ d with types }, r)

/-- Reads every binding of a draft. -/
def link : Guarded Linked :=
  d.link.mapError fun _ => .pending

end Resolution

section Resolution

theorem resolveWith_eq {find : R → Attempt ε T} {plain : R → Except ε T} (b : Binding R T)
    (h : ∀ r, b = .pending r → find r = settled (plain r)) :
    resolveWith find b = .ok (b.resolveWith plain) := by
  cases b with
  | resolved v => rfl
  | pending r =>
      rw [resolveWith, h r rfl, Binding.resolveWith]
      cases plain r <;> rfl

theorem untilFailure_eq {f : α → Guarded (α × Except ε Unit)} {plain : α → α × Except ε Unit}
    {as : List α} (h : ∀ a ∈ as, f a = .ok (plain a)) :
    untilFailure f as = .ok (Resolution.untilFailure plain as) := by
  induction as with
  | nil => rfl
  | cons a as ih =>
      rw [List.forall_mem_cons] at h
      rw [untilFailure, ok_bind h.1, Resolution.untilFailure]
      rcases plain a with ⟨b, r⟩
      cases r with
      | error e => rfl
      | ok _ => exact ok_bind (ih h.2)

/-- The aliases of a draft stand for published schemas or for the draft itself. -/
def ImportsPublished (w : Workspace) (d : Draft) : Prop :=
  ∀ i ∈ d.imports, i.2 ≠ d.key → i.2 < w.schemas.length

variable {w : Workspace} {d : Draft}

/-- A primitive is found only where it is looked up by its name. -/
theorem resolvePath_primitive {owner : String} {path : TypePath} {id : PrimitiveId}
    (h : Resolution.resolvePath w d owner path = .ok (.primitive id)) :
    id < w.primitives.length := by
  have hnamed : ∀ {β ι τ : Type} {s : SchemaOf β ι τ} {name : String},
      Resolution.typeNamed? s name ≠ some (.primitive id) := fun h => by
    obtain ⟨i, u, -, heq⟩ := Resolution.typeNamed?_eq_some h
    cases hkind : u.kind <;> simp [hkind, TypeKind.dataType] at heq
  rw [Resolution.resolvePath] at h
  split at h
  · rw [Resolution.elim_eq_ok, Resolution.bareName?] at h
    split at h
    · rename_i t ht
      obtain rfl := Option.some.inj h
      exact absurd ht hnamed
    · split at h
      · rename_i id' hid
        obtain rfl := DataType.primitive.inj (Option.some.inj h)
        exact PrimitiveTable.lookup?_lt hid
      · split at h <;> simp at h
  · split at h
    · contradiction
    · split at h
      · exact absurd (Resolution.elim_eq_ok.1 h) hnamed
      · split at h
        · contradiction
        · exact absurd (Resolution.elim_eq_ok.1 h) hnamed

variable (hd : ImportsPublished w d)

include hd

theorem resolvePath_eq (owner : String) (path : TypePath) :
    resolvePath w d owner path = settled (Resolution.resolvePath w d owner path) := by
  rw [resolvePath, Resolution.resolvePath]
  cases path.qualifier with
  | none => rfl
  | some name =>
      simp only
      cases himport : d.import? name with
      | none => rfl
      | some key =>
          simp only
          split
          · rfl
          · rename_i hkey
            obtain ⟨i, hi, rfl⟩ := Option.map_eq_some_iff.1 himport
            have hget := List.getElem?_eq_getElem (hd i (List.mem_of_find?_eq_some hi) hkey)
            rw [lift_bind (schemaAt_eq_ok.2 hget), hget]
            simp only [Resolution.typeNamed?]
            cases hindex : SchemaOf.typeIndex? _ path.name with
            | none => rfl
            | some index =>
                have hlt := (List.findIdx?_eq_some_iff_getElem.1 hindex).1
                rw [Option.bind_some, Resolution.typeAt, List.getElem?_eq_getElem hlt]
                exact lift_bind (typeIn_eq_ok.2 (List.getElem?_eq_getElem hlt))

theorem resolveSupertype_eq (owner : String) (expected : TypeKind) (path : TypePath) :
    resolveSupertype w d owner expected path =
      settled (Resolution.resolveSupertype w d owner expected path) :=
  settled_bind (resolvePath_eq hd owner path) fun _ _ => rfl

theorem resolveValue_eq (s : Resolution.Site) (path : TypePath) :
    resolveValue w d s path = settled (Resolution.resolveValue w d s path) :=
  settled_bind (resolvePath_eq hd s.owner path) fun _ _ => rfl

theorem resolveMapKey_eq (s : Resolution.Site) (path : TypePath) :
    resolveMapKey w d s path = settled (Resolution.resolveMapKey w d s path) := by
  refine settled_bind (resolvePath_eq hd s.owner path) fun found hfound => ?_
  cases found with
  | primitive id =>
      obtain ⟨p, hp, hget⟩ := exists_primitiveAt (resolvePath_primitive hfound)
      refine (lift_bind hp).trans ?_
      simp only [hget, Option.any_some]
      split <;> rfl
  | _ => rfl

theorem resolveExpr_eq (s : Resolution.Site) (e : TypeExpr) :
    resolveExpr w d s e = settled (Resolution.resolveExpr w d s e) := by
  cases e with
  | named path => exact resolveValue_eq hd s path
  | container shape key value =>
      refine settled_bind (optionMapM_settled fun path _ => resolveMapKey_eq hd s path) ?_
      exact fun key _ => settled_bind (resolveValue_eq hd s value) fun _ _ => rfl

theorem resolveProperty_eq (type : String) (p : Property TypeBinding) :
    resolveProperty w d type p = .ok (Resolution.resolveProperty w d type p) := by
  rw [resolveProperty, ok_bind (resolveWith_eq p.type fun e _ => resolveExpr_eq hd _ e)]
  rfl

theorem resolveComposite_eq (type : String) (kind : TypeKind)
    (c : Composite BaseBinding InterfacesBinding TypeBinding) :
    resolveComposite w d type kind c = .ok (Resolution.resolveComposite w d type kind c) := by
  have hbase := resolveWith_eq c.base fun b _ => optionMapM_settled (a := b) fun path _ =>
    resolveSupertype_eq hd type kind path
  have hinterfaces := resolveWith_eq c.interfaces fun is _ =>
    mapM_settled fun path (_ : path ∈ is) => resolveSupertype_eq hd type .interface path
  rw [resolveComposite, Resolution.resolveComposite, ok_bind hbase]
  generalize c.base.resolveWith _ = result
  rcases result with ⟨base, e | b⟩
  · rfl
  · refine (ok_bind hinterfaces).trans ?_
    simp only
    generalize c.interfaces.resolveWith _ = result
    rcases result with ⟨interfaces, e | is⟩
    · rfl
    · exact ok_bind (untilFailure_eq fun p _ => resolveProperty_eq hd type p)

theorem resolveType_eq (t : DraftType) :
    resolveType w d t = .ok (Resolution.resolveType w d t) := by
  rw [resolveType, Resolution.resolveType]
  cases t.body with
  | enum e => rfl
  | composite c => exact ok_bind (resolveComposite_eq hd t.name t.kind c)

theorem resolve_eq : resolve w d = .ok (d.resolve w) :=
  ok_bind (untilFailure_eq fun t _ => resolveType_eq hd t)

end Resolution

/-! ### Finishing -/

section Finishing

variable (s : Scope)

/-- The type that a handle stands for, in the unit or among the published ones. -/
def scopeTypeAt (r : TypeRef) : Guarded LinkedType :=
  if r.schema = s.unit.key then typeIn s.unit r.index else typeAt s.workspace r

/-- The supertypes of a type of the unit that are in the unit as well; each is looked up. -/
def ownSupertypes (i : Nat) : Guarded (List Nat) := do
  let r : TypeRef := ⟨s.unit.key, i⟩
  let supertypes := (← base? (scopeTypeAt s) r).toList ++ (← interfacesOf (scopeTypeAt s) r)
  (supertypes.filter fun x => x.schema = s.unit.key).mapM fun x => do
    discard (typeIn s.unit x.index)
    return x.index

/-- The graph of the types of the unit is drawn up first and searched for a cycle then. -/
def hierarchyCycle? : Guarded (Option Nat) := do
  let indices := List.range s.unit.types.length
  let edges ← indices.mapM (ownSupertypes s)
  return DepthFirst.cycle? (fun i => edges.getD i []) indices

def interfacesReached (rs : List TypeRef) : Guarded (List TypeRef) := do
  let roots ← rs.mapM (interfacesOf (scopeTypeAt s))
  reached (interfacesOf (scopeTypeAt s)) s.refs roots.flatten

def newInterfaces (r : TypeRef) (bases : List TypeRef) : Guarded (List TypeRef) := do
  let roots ← interfacesOf (scopeTypeAt s) r
  postorder (interfacesOf (scopeTypeAt s)) s.refs roots (← interfacesReached s bases)

/-- The properties of the interfaces that are new to a type. -/
def newProperties (r : TypeRef) (bases : List TypeRef) : Guarded (List PropertyRef) := do
  let properties ← (← newInterfaces s r bases).mapM (ownProperties (scopeTypeAt s))
  return properties.flatten

def collision? (ps : List PropertyRef) : Guarded (Option String) :=
  return Scope.repeated? [] (← ps.mapM (propertyNameOf (scopeTypeAt s)))

def effectiveAlong : List TypeRef → Attempt CompileError (List PropertyRef)
  | [] => settled (.ok [])
  | r :: bases => do
    if r.schema ≠ s.unit.key then return (← derivedAt s.workspace r).effective
    else
      let inherited ← effectiveAlong bases
      let new ← newProperties s r bases
      let all := inherited ++ new ++ (← ownProperties (scopeTypeAt s) r)
      match ← collision? s all with
      | some property =>
        settled (.error (.propertyCollision s.unit.source (← nameOf (scopeTypeAt s) r) property))
      | none => return all

def effective (r : TypeRef) : Attempt CompileError (List PropertyRef) := do
  effectiveAlong s (← lineage (scopeTypeAt s) s.refs r)

/-- The last base of a type, or the type itself. -/
def root (r : TypeRef) : Guarded TypeRef :=
  return (← lineage (scopeTypeAt s) s.refs r).getLast?.getD r

def keyComponent (r : TypeRef) (type : String) (p : LinkedProperty) (index : Nat) :
    Attempt CompileError KeyComponent := do
  let refuse : Attempt CompileError KeyComponent := do
    let found ← render (scopeTypeAt s) s.workspace p.type
    settled (.error (.keyNotCapable s.unit.source type p.name found .primaryKey))
  match p.type with
  | .primitive id =>
    let q ← primitiveAt s.workspace id
    if q.canBeKey then
      return { property := ⟨r, index⟩, name := p.name, primitive := id, kind := q.kind }
    else refuse
  | _ => refuse

def keyLayout (r : TypeRef) (t : LinkedType) : Attempt CompileError KeyLayout := do
  let components ← (t.properties.zipIdx.filter fun p => p.1.role = .primaryKey).mapM fun p =>
    keyComponent s r t.name p.1 p.2
  return { entity := r, components }

def derive (i : Nat) (t : LinkedType) : Attempt CompileError Derived := do
  let r : TypeRef := ⟨s.unit.key, i⟩
  match t.body with
  | .enum _ => return {}
  | .composite _ =>
    let effective ← effective s r
    if t.kind = .entity then
      let owner ← root s r
      if owner = r then
        return { effective, keyOwner := some owner, keyLayout := some (← keyLayout s r t) }
      else return { effective, keyOwner := some owner }
    else return { effective }

end Finishing

/-- The schema that a linked unit becomes, if its hierarchy is sound. -/
def finish (w : Workspace) (u : Linked) : Attempt CompileError Schema := do
  let s : Scope := ⟨w, u⟩
  match ← hierarchyCycle? s with
  | some i => settled (.error (.inheritanceCycle u.source (← typeIn u i).name))
  | none =>
    let derived ← u.types.zipIdx.mapM fun t => derive s t.2 t.1
    return { u with derived }

section Finishing

variable {s : Scope}

theorem scopeTypeAt_finds (s : Scope) : Finder.Finds (scopeTypeAt s) s.type? := by
  intro r t ht
  rw [Scope.type?] at ht
  rw [scopeTypeAt]
  split at ht
  · exact (if_pos ‹_›).trans (typeIn_eq_ok.2 ht)
  · exact (if_neg ‹_›).trans (typeAt_eq_ok ht)

/-- Whatever a unit holds leads to the unit itself or to something published, and whatever is stored
for published types leads to something published. -/
structure Joins (s : Scope) : Prop where
  grounded : TypeLookup.Grounded s.type? s.refs
  readable : ∀ t ∈ s.unit.types, t.Readable s.workspace.primitives s.type?
  stored : ∀ r, ∀ p ∈ (s.workspace.derivedOf r).effective, (TypeLookup.property? s.type? p).isSome

variable (h : Joins s)

include h

theorem Joins.isSome {r : TypeRef} (hr : r ∈ s.refs) : (s.type? r).isSome :=
  Option.isSome_iff_exists.2 (h.grounded.mem_refs.1 hr)

theorem Joins.own {i : Nat} {t : LinkedType} (ht : s.unit.types[i]? = some t) :
    (⟨s.unit.key, i⟩ : TypeRef) ∈ s.refs :=
  h.grounded.mem_refs.2 ⟨t, (if_pos rfl).trans ht⟩

theorem ownSupertypes_eq {i : Nat} {t : LinkedType} (ht : s.unit.types[i]? = some t) :
    ownSupertypes s i = .ok (s.ownSupertypes i) := by
  have hr := h.isSome (h.own ht)
  rw [ownSupertypes, ok_bind (base?_eq (scopeTypeAt_finds s) hr),
    ok_bind (interfacesOf_eq (scopeTypeAt_finds s) hr)]
  refine mapM_ok fun x hx => ?_
  obtain ⟨hx, hown⟩ := List.mem_filter.1 hx
  obtain ⟨t, ht⟩ := h.grounded.mem_refs.1 (h.grounded.supertypes _ x hx)
  rw [Scope.type?, if_pos (by simpa using hown)] at ht
  rw [typeIn_eq_ok.2 ht]
  rfl

omit h in
theorem ownSupertypes_of_none {i : Nat} (hi : s.unit.types[i]? = none) :
    s.ownSupertypes i = [] := by
  have hnone : s.type? ⟨s.unit.key, i⟩ = none := (if_pos rfl).trans hi
  simp [Scope.ownSupertypes, Scope.supertypes, TypeLookup.supertypes, TypeLookup.base?,
    TypeLookup.interfacesOf, TypeLookup.composite?, hnone]

theorem hierarchyCycle?_eq : hierarchyCycle? s = .ok s.hierarchyCycle? := by
  rw [hierarchyCycle?, ok_bind (mapM_ok fun i hi =>
    ownSupertypes_eq h (List.getElem?_eq_getElem (List.mem_range.1 hi)))]
  refine congrArg (fun next => Except.ok (DepthFirst.cycle? next _)) (funext fun i => ?_)
  rw [List.getD_eq_getElem?_getD, List.getElem?_map]
  by_cases hi : i < s.unit.types.length
  · rw [List.getElem?_range hi]
    rfl
  · rw [List.getElem?_eq_none (by simpa using hi),
      ownSupertypes_of_none (List.getElem?_eq_none (Nat.le_of_not_lt hi))]
    rfl

/-! Effective properties -/

theorem interfacesReached_eq {rs : List TypeRef} (hrs : ∀ r ∈ rs, r ∈ s.refs) :
    interfacesReached s rs = .ok (s.interfacesReached rs) := by
  have hnext := interfacesOf_refs (scopeTypeAt_finds s) h.grounded
  rw [interfacesReached, ok_bind (mapM_ok fun r hr => hnext r (hrs r hr))]
  refine reached_eq hnext (fun a _ b => h.grounded.interfaces) fun a ha => ?_
  obtain ⟨is, his, ha⟩ := List.mem_flatten.1 ha
  obtain ⟨r, -, rfl⟩ := List.mem_map.1 his
  exact h.grounded.interfaces ha

theorem newInterfaces_eq {r : TypeRef} {bases : List TypeRef} (hr : r ∈ s.refs)
    (hbases : ∀ b ∈ bases, b ∈ s.refs) :
    newInterfaces s r bases = .ok (s.newInterfaces r bases) := by
  have hnext := interfacesOf_refs (scopeTypeAt_finds s) h.grounded
  rw [newInterfaces, ok_bind (hnext r hr), ok_bind (interfacesReached_eq h hbases)]
  exact postorder_eq hnext (fun a _ b => h.grounded.interfaces) _ fun _ => h.grounded.interfaces

theorem newProperties_eq {r : TypeRef} {bases : List TypeRef} (hr : r ∈ s.refs)
    (hbases : ∀ b ∈ bases, b ∈ s.refs) :
    newProperties s r bases = .ok ((s.newInterfaces r bases).flatMap s.ownProperties) := by
  rw [newProperties, ok_bind (newInterfaces_eq h hr hbases)]
  exact ok_bind (mapM_ok fun i hi =>
    Guarded.ownProperties_eq (scopeTypeAt_finds s) (h.isSome (DepthFirst.postorder_subset _ _ hi)))

omit h in
theorem isSome_of_mem_gathered {inherited : List PropertyRef} {is : List TypeRef} {r : TypeRef}
    (hinherited : ∀ p ∈ inherited, (TypeLookup.property? s.type? p).isSome) {p : PropertyRef}
    (hp : p ∈ inherited ++ is.flatMap s.ownProperties ++ s.ownProperties r) :
    (TypeLookup.property? s.type? p).isSome := by
  simp only [List.mem_append, List.mem_flatMap, Scope.ownProperties,
    TypeLookup.mem_ownProperties] at hp
  rcases hp with (hp | ⟨_, -, -, hp⟩) | ⟨-, hp⟩
  · exact hinherited p hp
  · exact hp
  · exact hp

/-- Whatever is gathered along a lineage is a property. -/
theorem Joins.isSome_property {rs : List TypeRef} {ps : List PropertyRef}
    (hps : s.effectiveAlong rs = .ok ps) {p : PropertyRef} (hp : p ∈ ps) :
    (TypeLookup.property? s.type? p).isSome := by
  induction rs generalizing ps p with
  | nil =>
      obtain rfl := Except.ok.inj hps
      contradiction
  | cons r rs ih =>
      by_cases hr : r.schema = s.unit.key
      · obtain ⟨inherited, hinherited, rfl, -⟩ := Scope.effectiveAlong_ok hr hps
        exact isSome_of_mem_gathered (fun _ hq => ih hinherited hq) hp
      · rw [Scope.effectiveAlong_of_published hr] at hps
        obtain rfl := Except.ok.inj hps
        exact h.stored r p hp

omit h in
theorem collision?_eq {ps : List PropertyRef}
    (hps : ∀ p ∈ ps, (TypeLookup.property? s.type? p).isSome) :
    collision? s ps = .ok (s.collision? ps) :=
  ok_bind (mapM_ok fun p hp => propertyNameOf_eq (scopeTypeAt_finds s) (hps p hp))

theorem effectiveAlong_eq {rs : List TypeRef} (hrs : ∀ r ∈ rs, r ∈ s.refs) :
    effectiveAlong s rs = settled (s.effectiveAlong rs) := by
  induction rs with
  | nil => rfl
  | cons r bases ih =>
      rw [List.forall_mem_cons] at hrs
      have hfind := scopeTypeAt_finds s
      have hr := h.isSome hrs.1
      by_cases hown : r.schema = s.unit.key
      · rw [effectiveAlong, if_neg (not_not.2 hown), Scope.effectiveAlong, if_neg (not_not.2 hown)]
        refine settled_bind (ih hrs.2) fun inherited hinherited => ?_
        refine (lift_bind (newProperties_eq h hrs.1 hrs.2)).trans ?_
        refine (lift_bind (Guarded.ownProperties_eq hfind hr)).trans ?_
        refine (lift_bind (collision?_eq fun p hp => ?_)).trans ?_
        · exact isSome_of_mem_gathered (fun _ => h.isSome_property hinherited) hp
        · simp only [Scope.ownProperties]
          cases s.collision? _ with
          | some property => exact (lift_bind (Guarded.nameOf_eq hfind hr)).trans rfl
          | none => rfl
      · rw [Scope.type?, if_neg hown] at hr
        rw [effectiveAlong, if_pos hown, Scope.effectiveAlong_of_published hown]
        exact (lift_bind (derivedAt_eq hr)).trans rfl

/-! Keys and derived facts -/

omit h in
theorem keyComponent_eq {r : TypeRef} {type : String} {p : LinkedProperty} {i : Nat}
    (hp : p.type.Readable s.workspace.primitives s.type?) :
    keyComponent s r type p i = settled (s.keyComponent r type p i) := by
  have hrender := Guarded.render_eq (scopeTypeAt_finds s) hp
  obtain ⟨name, role, type', default, metadata⟩ := p
  unfold keyComponent Scope.keyComponent
  cases type' with
  | primitive id =>
      obtain ⟨q, hq, hget⟩ := exists_primitiveAt hp
      refine (lift_bind hq).trans ?_
      simp only [hget]
      split
      · rfl
      · exact (lift_bind hrender).trans rfl
  | _ => exact (lift_bind hrender).trans rfl

omit h in
theorem keyLayout_eq {r : TypeRef} {t : LinkedType}
    (ht : t.Readable s.workspace.primitives s.type?) :
    keyLayout s r t = settled (s.keyLayout r t) := by
  refine settled_bind (mapM_settled fun p hp => keyComponent_eq ?_) fun _ _ => rfl
  refine ht.properties p.1 ?_
  exact List.mem_of_getElem? (List.mk_mem_zipIdx_iff_getElem?.1 (List.mem_filter.1 hp).1)

variable (hwf : WellFounded fun b a => s.base? a = some b)

include hwf

theorem derive_eq {i : Nat} {t : LinkedType} (ht : s.unit.types[i]? = some t) :
    derive s i t = settled (s.derive i t) := by
  have hr := h.own ht
  have hlineage := lineage_eq (scopeTypeAt_finds s) h.grounded hwf hr
  rw [derive, Scope.derive]
  cases t.body with
  | enum e => rfl
  | composite c =>
      have heffective : effective s ⟨s.unit.key, i⟩ = settled (s.effective ⟨s.unit.key, i⟩) := by
        refine (lift_bind hlineage).trans (effectiveAlong_eq h ?_)
        exact fun _ ha => h.grounded.lineage_subset hr (h.grounded.lineage hwf hr) ha
      have hroot : root s ⟨s.unit.key, i⟩ = .ok (s.root ⟨s.unit.key, i⟩) :=
        ok_bind hlineage
      refine settled_bind heffective fun effective _ => ?_
      simp only
      split
      · refine (lift_bind hroot).trans ?_
        split
        · exact settled_bind (keyLayout_eq (h.readable t (List.mem_of_getElem? ht))) fun _ _ => rfl
        · rfl
      · rfl

end Finishing

/-- A unit that has been read from a draft can be finished. -/
theorem finish_eq {w : Workspace} {u : Linked} (h : Joins ⟨w, u⟩)
    (hwf : Scope.hierarchyCycle? ⟨w, u⟩ = none →
      WellFounded fun b a => Scope.base? ⟨w, u⟩ a = some b) :
    finish w u = settled (u.finish w) := by
  refine (lift_bind (hierarchyCycle?_eq h)).trans ?_
  rw [Linked.finish]
  cases hcycle : Scope.hierarchyCycle? ⟨w, u⟩ with
  | some i =>
      have hi := List.mem_range.1 (DepthFirst.mem_of_cycle? hcycle)
      have hget : u.types[i]? = some u.types[i] := List.getElem?_eq_getElem hi
      refine (lift_bind (typeIn_eq_ok.2 hget)).trans ?_
      simp only [hget]
      rfl
  | none =>
      refine settled_bind (mapM_settled fun t ht => ?_) fun _ _ => rfl
      exact derive_eq h (hwf hcycle) (List.mk_mem_zipIdx_iff_getElem?.1 ht)

/-! ### Drafted units -/

section Drafted

variable {w : Workspace} {u : Linked}

theorem importsPublished {unit : SourceId} {declaration : Declaration} {d : Draft} (hw : w.Indexed)
    (hd : Draft.ofDeclaration w unit declaration = .ok d) : ImportsPublished w d := by
  intro i hi hne
  rw [(Draft.ofDeclaration_eq_ok.1 hd).key] at hne
  exact Nat.lt_of_le_of_ne (d.imports_le hw hd hi) hne

theorem joins (hw : w.Layered) (hflat : w.Flattened) (h : u.DraftedIn w) : Joins ⟨w, u⟩ := by
  -- Handles are looked up as if the unit were published with nothing derived.
  have hlookup := Scope.type?_eq_publish (s := ⟨u, []⟩) h.key_eq
  refine ⟨Linked.DraftedIn.grounded (s := ⟨u, []⟩) hw h, fun t ht => ?_, fun r p hp => ?_⟩
  · rw [hlookup]
    exact Linked.DraftedIn.readable (s := ⟨u, []⟩) hw.indexed h ht
  · obtain ⟨q, hq⟩ := Option.isSome_iff_exists.1 (((hflat.flattens r).mem_iff p).1 hp).2
    obtain ⟨t, ht, hq⟩ := Option.bind_eq_some_iff.1 hq
    rw [hlookup, TypeLookup.property?, Workspace.type?_publish _ ht]
    exact Option.isSome_iff_exists.2 ⟨q, hq⟩

theorem finish_drafted (hw : w.Layered) (hflat : w.Flattened) (h : u.DraftedIn w) :
    finish w u = settled (u.finish w) :=
  finish_eq (joins hw hflat h) (Linked.DraftedIn.wellFounded_base (s := ⟨u, []⟩) hw h)

end Drafted

end SchemaGraph.Guarded
