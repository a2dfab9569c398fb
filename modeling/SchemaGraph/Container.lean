/-!
The four generic containers, each under a name that the configuration may change.
-/

namespace SchemaGraph

inductive Shape where
  | list
  | set
  | map
  | optional
  deriving DecidableEq, Inhabited

namespace Shape

def all : List Shape := [list, set, map, optional]

def defaultName : Shape → String
  | list => "List"
  | set => "Set"
  | map => "Map"
  | optional => "Optional"

def hasKey (s : Shape) : Bool := s = map

end Shape

structure ContainerCatalog where
  list : String := Shape.defaultName .list
  set : String := Shape.defaultName .set
  map : String := Shape.defaultName .map
  optional : String := Shape.defaultName .optional
  deriving DecidableEq, Inhabited

namespace ContainerCatalog

def name (c : ContainerCatalog) : Shape → String
  | .list => c.list
  | .set => c.set
  | .map => c.map
  | .optional => c.optional

def names (c : ContainerCatalog) : List String :=
  Shape.all.map c.name

/-- The first shape that goes by a name. -/
def shape? (c : ContainerCatalog) (name : String) : Option Shape :=
  Shape.all.find? fun s => c.name s = name

end ContainerCatalog

end SchemaGraph
