import SchemaGraph.Schema

/-!
What can be told of user-defined types through their handles alone. A workspace reads handles, and
so does a workspace together with the unit that is about to join it.
-/

namespace SchemaGraph

/-- The type that a handle stands for, if it stands for one. -/
abbrev TypeLookup := TypeRef → Option LinkedType

namespace TypeLookup

variable (look : TypeLookup)

def composite? (r : TypeRef) : Option LinkedComposite :=
  (look r).bind UserType.composite?

def base? (r : TypeRef) : Option TypeRef :=
  (look.composite? r).bind Composite.base

def interfacesOf (r : TypeRef) : List TypeRef :=
  ((look.composite? r).map Composite.interfaces).getD []

/-- The base and the interfaces of a type. -/
def supertypes (r : TypeRef) : List TypeRef :=
  (look.base? r).toList ++ look.interfacesOf r

/-- The properties that a type declares itself. -/
def properties (r : TypeRef) : List LinkedProperty :=
  ((look r).map UserType.properties).getD []

def ownProperties (r : TypeRef) : List PropertyRef :=
  (List.range (look.properties r).length).map fun i => ⟨r, i⟩

def property? (p : PropertyRef) : Option LinkedProperty :=
  (look p.owner).bind fun t => t.properties[p.index]?

/-- The name of a type, or nothing for a handle that stands for none. -/
def typeName (r : TypeRef) : String :=
  ((look r).map UserType.name).getD ""

def propertyName (p : PropertyRef) : String :=
  ((look.property? p).map Property.name).getD ""

end TypeLookup

end SchemaGraph
