/-!
Depth-first walks of finite graphs.

A walk is the list of its events: it enters a node, walks what follows from it, and leaves it. The
nodes entered are those reached; the order of leaving has every node after what it leads to, unless
the graph has a cycle. Each node is entered at most once, which bounds the walk.
-/

namespace SchemaGraph.DepthFirst

variable {α : Type} [DecidableEq α]

inductive Event (α : Type) where
  | enter (node : α)
  | leave (node : α)
  deriving DecidableEq

inductive Task (α : Type) where
  | visit (node : α)
  | leave (node : α)

/-- How many nodes are still to be entered. -/
def unseen (nodes seen : List α) : Nat :=
  (nodes.filter fun a => a ∉ seen).length

theorem unseen_cons_lt {nodes seen : List α} {a : α} (h : a ∈ nodes ∧ a ∉ seen) :
    unseen nodes (a :: seen) < unseen nodes seen := by
  have split : nodes.filter (fun b => b ∉ a :: seen) =
      (nodes.filter fun b => b ∉ seen).filter (fun b => b ≠ a) := by
    simp [List.filter_filter, List.mem_cons, not_or]
  simp only [unseen, split]
  exact List.length_filter_lt_length_iff_exists.2 ⟨a, by simp [h], by simp⟩

/-- Works through `tasks`; nodes outside `nodes` and nodes in `seen` are passed over. -/
def walk (next : α → List α) (nodes : List α) : List (Task α) → List α → List (Event α)
  | [], _ => []
  | .leave a :: ts, seen => .leave a :: walk next nodes ts seen
  | .visit a :: ts, seen =>
    if _h : a ∈ nodes ∧ a ∉ seen then
      .enter a :: walk next nodes ((next a).map .visit ++ .leave a :: ts) (a :: seen)
    else walk next nodes ts seen
termination_by ts seen => (unseen nodes seen, ts.length)
decreasing_by
  · exact Prod.Lex.right _ (by simp)
  · exact Prod.Lex.left _ _ (unseen_cons_lt _h)
  · exact Prod.Lex.right _ (by simp)

def entered (events : List (Event α)) : List α :=
  events.filterMap fun
    | .enter a => some a
    | .leave _ => none

def left (events : List (Event α)) : List α :=
  events.filterMap fun
    | .enter _ => none
    | .leave a => some a

/-- The nodes reached from `roots`, in the order of entering. -/
def reached (next : α → List α) (nodes roots : List α) : List α :=
  entered (walk next nodes (roots.map .visit) [])

/-- The nodes reached from `roots` without passing through `seen`, each after what it leads to. -/
def postorder (next : α → List α) (nodes roots seen : List α) : List α :=
  left (walk next nodes (roots.map .visit) seen)

/-- In a list that should have every node after the nodes that lead to it: the first node in
`nodes` that leads to a member of the list and is not there yet. -/
def misplaced? (next : α → List α) (nodes : List α) : List α → List α → Option α
  | [], _ => none
  | a :: as, before =>
    match nodes.find? fun p => a ∈ next p ∧ p ∉ a :: before with
    | some p => some p
    | none => misplaced? next nodes as (a :: before)

/-- A node on a cycle, if there is one: the first node entered that leads to itself, or else the
first node out of place in the reversed order of leaving. -/
def cycle? (next : α → List α) (nodes : List α) : Option α :=
  let events := walk next nodes (nodes.map .visit) []
  match (entered events).find? fun a => a ∈ next a with
  | some a => some a
  | none => misplaced? next nodes (left events).reverse []

end SchemaGraph.DepthFirst
