import SchemaGraph.Settings
import SchemaGraph.Workspace

/-!
What a workspace starts with: names for the built-in primitives, further primitives, names for the
containers, and the underlying type of enums that name none.
-/

namespace SchemaGraph

structure Setup where
  /-- Names for built-in primitives in place of their default ones. -/
  renamed : List (PrimitiveKind × String) := []
  custom : List Primitive := []
  containers : ContainerCatalog := {}
  enumDefault : Option String := none

namespace Setup

/-- Gives a built-in primitive a name, in place of an earlier one. -/
def rename (s : Setup) (kind : PrimitiveKind) (name : String) : Setup :=
  { s with renamed := (s.renamed.filter fun r => r.1 ≠ kind) ++ [(kind, name)] }

def addCustom (s : Setup) (p : Primitive) : Setup :=
  { s with custom := s.custom ++ [p] }

def nameOf (s : Setup) (kind : PrimitiveKind) : String :=
  ((s.renamed.find? fun r => r.1 = kind).map Prod.snd).getD kind.defaultName

/-- Applies the settings for types. -/
def withTypes (s : Setup) (t : TypeSettings) : Setup :=
  let named := (PrimitiveKind.builtin.zip t.primitives).foldl (fun s p => s.rename p.1 p.2) s
  { named with
    custom := s.custom ++ t.custom.map fun c => .custom c.name c.namespace c.canBeKey
    containers := t.containers
    enumDefault := t.enumDefault.orElse fun _ => s.enumDefault }

/-- The built-in primitives and then the further ones. -/
def primitives (s : Setup) : List Primitive :=
  PrimitiveKind.builtin.map (fun k => .builtin (s.nameOf k) k) ++ s.custom

/-- A table of the given primitives, if no two have the same name. -/
def table (ps : List Primitive) : Except CompileError PrimitiveTable :=
  ps.foldlM
    (fun (t : PrimitiveTable) p =>
      (t.register? p).elim (.error (.duplicatePrimitive p.name)) .ok)
    []

/-- The empty workspace with these names. -/
def build (s : Setup) : Except CompileError Workspace := do
  let primitives ← table s.primitives
  let enumDefault ← match s.enumDefault with
    | none => pure (primitives.ofKind? .int32)
    | some name =>
      match primitives.lookup? name with
      | some id => pure (some id)
      | none => .error (.config (.unknownEnumUnderlying name))
  return { primitives, containers := s.containers, enumDefault }

end Setup

/-- The empty workspace with default names. -/
def Workspace.default : Workspace where
  primitives := .builtins
  enumDefault := PrimitiveTable.builtins.ofKind? .int32

end SchemaGraph
