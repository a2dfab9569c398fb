import SchemaGraph.Chain
import SchemaGraph.DepthFirst
import SchemaGraph.Workspace

/-!
The hierarchy of a linked unit: cycles, effective properties and keys.

The effective properties of a type are those of its base, then the own properties of each interface
that the base chain does not have already, extended interfaces first, then its own. The key of an
entity belongs to the last entity of its base chain.
-/

namespace SchemaGraph

/-- The published schemas and the unit that is about to join them. -/
structure Scope where
  workspace : Workspace
  unit : Linked

namespace Scope

variable (s : Scope)

def type? (r : TypeRef) : Option LinkedType :=
  if r.schema = s.unit.key then s.unit.types[r.index]? else s.workspace.type? r

def refs : List TypeRef :=
  s.workspace.refs ++ s.unit.refs

def base? : TypeRef → Option TypeRef :=
  TypeLookup.base? s.type?

def interfacesOf : TypeRef → List TypeRef :=
  TypeLookup.interfacesOf s.type?

def supertypes : TypeRef → List TypeRef :=
  TypeLookup.supertypes s.type?

def ownProperties : TypeRef → List PropertyRef :=
  TypeLookup.ownProperties s.type?

def typeName (d : DataType) : String :=
  d.render s.workspace.primitives s.workspace.containers (TypeLookup.typeName s.type?)

/-! ### Cycles -/

/-- The supertypes of a type of the unit that are in the unit as well, by position. A cycle lies
within one unit, since what is published leads only to what is published. -/
def ownSupertypes (i : Nat) : List Nat :=
  ((s.supertypes ⟨s.unit.key, i⟩).filter fun r => r.schema = s.unit.key).map TypeRef.index

/-- A type of the unit that is its own supertype, by position. -/
def hierarchyCycle? : Option Nat :=
  DepthFirst.cycle? s.ownSupertypes (List.range s.unit.types.length)

/-! ### Lineage -/

/-- A type, its base, the base of that and so on. No such chain is longer than there are types. -/
def lineage (r : TypeRef) : List TypeRef :=
  chain s.base? s.refs.length r

/-- The last base of a type, or the type itself. -/
def root (r : TypeRef) : TypeRef :=
  (s.lineage r).getLast?.getD r

/-! ### Effective properties -/

/-- The interfaces of the given types, with everything they extend. -/
def interfacesReached (rs : List TypeRef) : List TypeRef :=
  DepthFirst.reached s.interfacesOf s.refs (rs.flatMap s.interfacesOf)

/-- The interfaces that a type has and its bases do not have, extended interfaces first. -/
def newInterfaces (r : TypeRef) (bases : List TypeRef) : List TypeRef :=
  DepthFirst.postorder s.interfacesOf s.refs (s.interfacesOf r) (s.interfacesReached bases)

/-- The first name that is among `before` or comes a second time. -/
def repeated? (before : List String) : List String → Option String
  | [] => none
  | n :: ns => if n ∈ before then some n else repeated? (n :: before) ns

/-- The name of the first property that has the name of an earlier one. -/
def collision? (ps : List PropertyRef) : Option String :=
  repeated? [] (ps.map (TypeLookup.propertyName s.type?))

/-- The effective properties of the first type of a lineage. -/
def effectiveAlong : List TypeRef → Except CompileError (List PropertyRef)
  | [] => .ok []
  | r :: bases =>
    if r.schema ≠ s.unit.key then .ok (s.workspace.derivedOf r).effective
    else do
      let inherited ← effectiveAlong bases
      let all := inherited ++ (s.newInterfaces r bases).flatMap s.ownProperties ++
        s.ownProperties r
      match s.collision? all with
      | some property =>
        .error (.propertyCollision s.unit.source (TypeLookup.typeName s.type? r) property)
      | none => return all

def effective (r : TypeRef) : Except CompileError (List PropertyRef) :=
  s.effectiveAlong (s.lineage r)

/-! ### Keys -/

/-- The key component that a property is; its type has to be a primitive that can be a key. -/
def keyComponent (r : TypeRef) (type : String) (p : LinkedProperty) (index : Nat) :
    Except CompileError KeyComponent :=
  let refuse : Except CompileError KeyComponent :=
    .error (.keyNotCapable s.unit.source type p.name (s.typeName p.type) .primaryKey)
  match p.type with
  | .primitive id =>
    match s.workspace.primitives[id]? with
    | some q =>
      if q.canBeKey then
        .ok { property := ⟨r, index⟩, name := p.name, primitive := id, kind := q.kind }
      else refuse
    | none => refuse
  | _ => refuse

/-- The key of an entity without a base: its own key components in declaration order. -/
def keyLayout (r : TypeRef) (t : LinkedType) : Except CompileError KeyLayout := do
  let components ← (t.properties.zipIdx.filter fun p => p.1.role = .primaryKey).mapM fun p =>
    s.keyComponent r t.name p.1 p.2
  return { entity := r, components }

/-! ### Derived facts -/

def derive (i : Nat) (t : LinkedType) : Except CompileError Derived :=
  let r : TypeRef := ⟨s.unit.key, i⟩
  match t.body with
  | .enum _ => .ok {}
  | .composite _ => do
    let effective ← s.effective r
    if t.kind = .entity then
      let owner := s.root r
      if owner = r then
        return { effective, keyOwner := some owner, keyLayout := some (← s.keyLayout r t) }
      else return { effective, keyOwner := some owner }
    else return { effective }

end Scope

/-- The schema that a linked unit becomes, if its hierarchy is sound. -/
def Linked.finish (w : Workspace) (u : Linked) : Except CompileError Schema :=
  let s : Scope := ⟨w, u⟩
  match s.hierarchyCycle? with
  | some i => .error (.inheritanceCycle u.source ((u.types[i]?.map UserType.name).getD ""))
  | none => do
    let derived ← u.types.zipIdx.mapM fun t => s.derive t.2 t.1
    return { u with derived }

end SchemaGraph
