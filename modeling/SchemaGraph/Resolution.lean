import SchemaGraph.Similarity
import SchemaGraph.Workspace

/-!
Resolution of the references of a draft.

`Alias.Name` is a type of the schema imported under that alias. A bare name is a type of the draft
itself, or else a primitive, or else `void`. References are resolved in declaration order, and the
first that fails ends the work; the references after it stay pending.
-/

namespace SchemaGraph.Resolution

variable (w : Workspace) (d : Draft)

def typeAt {β ι τ : Type} (s : SchemaOf β ι τ) (index : Nat) : Option DataType :=
  s.types[index]?.map fun t => t.kind.dataType ⟨s.key, index⟩

def typeNamed? {β ι τ : Type} (s : SchemaOf β ι τ) (name : String) : Option DataType :=
  (s.typeIndex? name).bind (typeAt s)

def unresolved (owner : String) (path : TypePath) (candidates : List String) : CompileError :=
  .unresolvedType d.source owner path.render (Similarity.suggestion? path.name candidates)

/-- The names that a name of the draft itself may have been meant for. -/
def ownCandidates : List String :=
  d.typeNames ++ w.primitives.names

def bareName? (name : String) : Option DataType :=
  match typeNamed? d name with
  | some t => some t
  | none =>
    match w.primitives.lookup? name with
    | some id => some (.primitive id)
    | none => if name = voidName then some .void else none

def resolvePath (owner : String) (path : TypePath) : Except CompileError DataType :=
  match path.qualifier with
  | none =>
    (bareName? w d path.name).elim (.error (unresolved d owner path (ownCandidates w d))) .ok
  | some name =>
    match d.import? name with
    | none => .error (.unknownImportAlias d.source owner name)
    | some key =>
      if key = d.key then
        (typeNamed? d path.name).elim (.error (unresolved d owner path (ownCandidates w d))) .ok
      else
        match w.schemas[key]? with
        | none => .error (unresolved d owner path [])
        | some s =>
          (typeNamed? s.toSchemaOf path.name).elim
            (.error (unresolved d owner path s.typeNames)) .ok

/-- A base or interface clause has to name a user-defined type of the expected kind. -/
def resolveSupertype (owner : String) (expected : TypeKind) (path : TypePath) :
    Except CompileError TypeRef := do
  let found ← resolvePath w d owner path
  match found.userType? with
  | some r =>
    if expected.dataType r = found then return r
    else .error (.kindMismatch d.source owner path.render expected found)
  | none => .error (.kindMismatch d.source owner path.render expected found)

/-- The names of a property and of its type, and its role. -/
structure Site where
  type : String
  property : String
  role : PropertyRole

def Site.owner (s : Site) : String :=
  s.type ++ "." ++ s.property

/-- The type of a value: never `void`, and an entity exactly for a foreign key. -/
def resolveValue (s : Site) (path : TypePath) : Except CompileError DataType := do
  let found ← resolvePath w d s.owner path
  if found = .void then .error (.voidProperty d.source s.type s.property)
  else if decide (s.role = .foreignKey) = found.isEntity then return found
  else .error (.roleMismatch d.source s.type s.property s.role path.render found)

/-- The key of a map is a primitive that can be a key. -/
def resolveMapKey (s : Site) (path : TypePath) : Except CompileError PrimitiveId := do
  let refuse : Except CompileError PrimitiveId :=
    .error (.keyNotCapable d.source s.type s.property path.render .mapKey)
  match ← resolvePath w d s.owner path with
  | .primitive id =>
    if (w.primitives[id]?).any Primitive.canBeKey then return id else refuse
  | _ => refuse

def resolveExpr (s : Site) : TypeExpr → Except CompileError DataType
  | .named path => resolveValue w d s path
  | .container shape key value => do
    let key ← key.mapM (resolveMapKey w d s)
    return .instantiate shape key (← resolveValue w d s value)

/-! ### Drafts -/

/-- Changes the items in order until one fails. -/
def untilFailure {α ε : Type} (f : α → α × Except ε Unit) : List α → List α × Except ε Unit
  | [] => ([], .ok ())
  | a :: as =>
    match f a with
    | (b, .error e) => (b :: as, .error e)
    | (b, .ok ()) =>
      let (bs, r) := untilFailure f as
      (b :: bs, r)

def resolveProperty (type : String) (p : Property TypeBinding) :
    Property TypeBinding × Except CompileError Unit :=
  let (b, r) := p.type.resolveWith (resolveExpr w d ⟨type, p.name, p.role⟩)
  ({ p with type := b }, r.map fun _ => ())

def resolveComposite (type : String) (kind : TypeKind)
    (c : Composite BaseBinding InterfacesBinding TypeBinding) :
    Composite BaseBinding InterfacesBinding TypeBinding × Except CompileError Unit :=
  match c.base.resolveWith fun b => b.mapM (resolveSupertype w d type kind) with
  | (base, .error e) => ({ c with base }, .error e)
  | (base, .ok _) =>
    match c.interfaces.resolveWith fun is => is.mapM (resolveSupertype w d type .interface) with
    | (interfaces, .error e) => ({ c with base, interfaces }, .error e)
    | (interfaces, .ok _) =>
      let (properties, r) := untilFailure (resolveProperty w d type) c.properties
      ({ c with base, interfaces, properties }, r)

def resolveType (t : DraftType) : DraftType × Except CompileError Unit :=
  match t.body with
  | .enum _ => (t, .ok ())
  | .composite c =>
    let (c, r) := resolveComposite w d t.name t.kind c
    ({ t with body := .composite c }, r)

end Resolution

/-- Resolves every reference of a draft, as far as the first that fails. -/
def Draft.resolve (w : Workspace) (d : Draft) : Draft × Except CompileError Unit :=
  let (types, r) := Resolution.untilFailure (Resolution.resolveType w d) d.types
  ({ d with types }, r)

end SchemaGraph
