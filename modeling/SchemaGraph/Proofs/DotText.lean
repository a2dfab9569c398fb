import SchemaGraph.Proofs.Decimals
import SchemaGraph.Proofs.GraphCalls
import SchemaGraph.Proofs.Texts

/-!
The DOT text of an import graph says which graph it is of: there is a reader that finds the units
and the imports in it. Sources may have any names. Within a label each backslash and each quote
follows a backslash of its own, so that the first quote without one ends the label.
-/

namespace SchemaGraph.ImportGraph

open Decimal

/-! ### Labels -/

/-- All occurrences of a character replaced. -/
def replaced (c : Char) (word s : List Char) : List Char :=
  s.flatMap fun d => if d = c then word else [d]

/-- A label is escaped in two steps, the backslashes first. -/
theorem toList_label (id : SourceId) :
    (label id).toList = replaced '"' ['\\', '"'] (replaced '\\' ['\\', '\\'] id.toList) := by
  rw [label, String.toList_ofList, replaced, replaced, List.flatMap_assoc]
  refine List.flatMap_congr fun c _ => ?_
  by_cases hslash : c = '\\'
  · subst hslash
    rfl
  · by_cases hquote : c = '"' <;> simp [labelChar, hslash, hquote]

/-- Reads a label up to its closing quote; also gives what follows the quote. -/
def readLabel : List Char → Option (List Char × List Char)
  | [] => none
  | '"' :: s => some ([], s)
  | '\\' :: c :: s => (readLabel s).map fun r => (c :: r.1, r.2)
  | c :: s => (readLabel s).map fun r => (c :: r.1, r.2)

theorem readLabel_label (s rest : List Char) :
    readLabel (s.flatMap labelChar ++ '"' :: rest) = some (s, rest) := by
  induction s with
  | nil => rfl
  | cons c s ih =>
      rw [List.flatMap_cons, List.append_assoc]
      by_cases hslash : c = '\\'
      · subst hslash
        simp [labelChar, readLabel, ih]
      · by_cases hquote : c = '"'
        · subst hquote
          simp [labelChar, readLabel, ih]
        · simp [labelChar, hslash, hquote, readLabel, ih]

/-! ### Lines -/

/-- Reads a number; also gives what follows its digits. -/
def readNumber (s : List Char) : Option (Nat × List Char) :=
  (readNat? (s.takeWhile Char.isDigit)).map fun n => (n, s.dropWhile Char.isDigit)

def readNode (s : List Char) : Option ((SourceId × Nat) × List Char) := do
  let s ← s.dropPrefix? "  n".toList
  let (i, s) ← readNumber s
  let s ← s.dropPrefix? " [label=\"".toList
  let (id, s) ← readLabel s
  let s ← s.dropPrefix? "];\n".toList
  return ((String.ofList id, i), s)

def readEdge (s : List Char) : Option ((Nat × Nat) × List Char) := do
  let s ← s.dropPrefix? "  n".toList
  let (i, s) ← readNumber s
  let s ← s.dropPrefix? " -> n".toList
  let (j, s) ← readNumber s
  let s ← s.dropPrefix? ";\n".toList
  return ((i, j), s)

theorem dropPrefix?_append (word s : List Char) : (word ++ s).dropPrefix? word = some s :=
  List.dropPrefix?_eq_some_iff.2 ⟨word, rfl, beq_self_eq_true word⟩

theorem readNumber_digits (n : Nat) {s : List Char} (hs : ∀ c ∈ s.head?, c.isDigit = false) :
    readNumber (n.repr.toList ++ s) = some (n, s) := by
  have hdigits : ∀ c ∈ n.repr.toList, c.isDigit = true := fun _ => isDigit_of_mem_digits
  rw [readNumber, Text.takeWhile_word hdigits hs, Text.dropWhile_word hdigits hs, readNat?_digits,
    Option.map_some]

theorem toList_dotNode (id : SourceId) (i : Nat) :
    (dotNode id i).toList = "  n".toList ++ (i.repr.toList ++ (" [label=\"".toList ++
      (id.toList.flatMap labelChar ++ '"' :: "];\n".toList))) := by
  have htext : dotNode id i = "  n" ++ i.repr ++ " [label=\"" ++ label id ++ "\"];\n" := rfl
  have hquote : "\"];\n".toList = '"' :: "];\n".toList := by decide
  rw [htext, label]
  simp only [String.toList_append, String.toList_ofList, hquote, List.append_assoc]

theorem toList_dotEdge (e : Nat × Nat) :
    (dotEdge e).toList = "  n".toList ++ (e.1.repr.toList ++ (" -> n".toList ++
      (e.2.repr.toList ++ ";\n".toList))) := by
  have htext : dotEdge e = "  n" ++ e.1.repr ++ " -> n" ++ e.2.repr ++ ";\n" := rfl
  rw [htext]
  simp only [String.toList_append, List.append_assoc]

theorem readNode_dotNode (x : SourceId × Nat) (rest : List Char) :
    readNode ((dotNode x.1 x.2).toList ++ rest) = some (x, rest) := by
  rw [toList_dotNode]
  simp only [List.append_assoc, List.cons_append, readNode, Option.bind_eq_bind]
  rw [dropPrefix?_append, Option.bind_some, readNumber_digits x.2 (by simp), Option.bind_some,
    dropPrefix?_append, Option.bind_some, readLabel_label, Option.bind_some, dropPrefix?_append,
    Option.bind_some, String.ofList_toList]
  rfl

theorem readEdge_dotEdge (e : Nat × Nat) (rest : List Char) :
    readEdge ((dotEdge e).toList ++ rest) = some (e, rest) := by
  rw [toList_dotEdge]
  simp only [List.append_assoc, readEdge, Option.bind_eq_bind]
  rw [dropPrefix?_append, Option.bind_some, readNumber_digits e.1 (by simp), Option.bind_some,
    dropPrefix?_append, Option.bind_some, readNumber_digits e.2 (by simp), Option.bind_some,
    dropPrefix?_append, Option.bind_some]
  rfl

/-! ### The whole text -/

section Lines

variable {α : Type}

/-- Reads as many lines as there are; also gives what follows them. -/
def readLines (line : List Char → Option (α × List Char)) (s : List Char) : List α × List Char :=
  match line s with
  | none => ([], s)
  | some (a, rest) =>
    if rest.length < s.length then
      let lines := readLines line rest
      (a :: lines.1, lines.2)
    else ([], s)
termination_by s.length

theorem readLines_of_none {line : List Char → Option (α × List Char)} {s : List Char}
    (h : line s = none) : readLines line s = ([], s) := by
  rw [readLines, h]

theorem readLines_flatMap {line : List Char → Option (α × List Char)} {text : α → List Char}
    (hline : ∀ a rest, line (text a ++ rest) = some (a, rest)) (htext : ∀ a, text a ≠ [])
    {rest : List Char} (hrest : line rest = none) (as : List α) :
    readLines line (as.flatMap text ++ rest) = (as, rest) := by
  induction as with
  | nil => exact readLines_of_none hrest
  | cons a as ih =>
      have hlen : (as.flatMap text ++ rest).length <
          (text a ++ (as.flatMap text ++ rest)).length := by
        have hpos := List.length_pos_of_ne_nil (htext a)
        simp only [List.length_append]
        omega
      rw [List.flatMap_cons, List.append_assoc, readLines, hline]
      simp only [if_pos hlen, ih]

end Lines

/-- Finds the units and the imports, by position, in the text of a graph. -/
def readDot (text : String) : Option (List SourceId × List (Nat × Nat)) := do
  let s ← text.toList.dropPrefix? dotHeader.toList
  let (nodes, s) := readLines readNode s
  let (edges, s) := readLines readEdge ((s.dropPrefix? ['\n']).getD s)
  if s = "\x7d\n".toList then some (nodes.map Prod.fst, edges) else none

variable (g : ImportGraph)

theorem mem_edges {e : Nat × Nat} : e ∈ g.edges ↔ e ∈ g.imports := by
  obtain ⟨i, j⟩ := e
  rw [edges, List.mem_flatMap]
  constructor
  · rintro ⟨k, -, hk⟩
    obtain ⟨l, hl, heq⟩ := List.mem_map.1 hk
    obtain ⟨rfl, rfl⟩ := Prod.mk.inj heq
    exact g.mem_targets.1 hl
  · intro hij
    exact ⟨i, g.mem_indices.2 (g.imports_lt _ hij).1,
      List.mem_map.2 ⟨j, g.mem_targets.2 hij, rfl⟩⟩

theorem edges_eq_nil (h : g.importCount = 0) : g.edges = [] := by
  refine List.eq_nil_iff_forall_not_mem.2 fun e he => ?_
  have hmem := g.mem_edges.1 he
  rw [List.eq_nil_of_length_eq_zero h] at hmem
  contradiction

/-- What follows the nodes: after an empty line the edges, and the end. -/
def dotEdges : List Char :=
  (if g.importCount = 0 then [] else ['\n']) ++
    (g.edges.flatMap (fun e => (dotEdge e).toList) ++ "\x7d\n".toList)

theorem toList_toDot : g.toDot.toList = dotHeader.toList ++
    (g.units.zipIdx.flatMap (fun x => (dotNode x.1 x.2).toList) ++ g.dotEdges) := by
  rw [toDot, List.mapIdx_eq_zipIdx_map, dotEdges]
  simp only [String.toList_append, String.toList_join, List.flatMap_map, List.append_assoc]
  congr 3
  split <;> rfl

theorem readNode_dotEdges : readNode g.dotEdges = none := by
  rw [dotEdges]
  split
  · rename_i hcount
    rw [g.edges_eq_nil hcount]
    decide
  · rfl

theorem readLines_dotEdges :
    readLines readEdge ((g.dotEdges.dropPrefix? ['\n']).getD g.dotEdges) =
      (g.edges, "\x7d\n".toList) := by
  have hedge : ∀ e : Nat × Nat, (dotEdge e).toList ≠ [] := fun e => by
    simp [toList_dotEdge]
  have hend : readEdge "\x7d\n".toList = none := by decide
  rw [← readLines_flatMap readEdge_dotEdge hedge hend g.edges, dotEdges]
  split
  · rename_i hcount
    rw [g.edges_eq_nil hcount]
    rfl
  · rw [dropPrefix?_append, Option.getD_some]

theorem readDot_toDot : readDot g.toDot = some (g.units, g.edges) := by
  have hnode : ∀ x : SourceId × Nat, (dotNode x.1 x.2).toList ≠ [] := fun x => by
    simp [toList_dotNode]
  rw [readDot, toList_toDot, dropPrefix?_append, Option.bind_eq_bind, Option.bind_some,
    readLines_flatMap readNode_dotNode hnode g.readNode_dotEdges]
  simp only [readLines_dotEdges, if_pos, List.zipIdx_map_fst]

/-- The text of a graph is read back, whatever its units are called. So two graphs have the same
text only if they have the same units in the same order and the same imports. In a label the
backslashes of a source are doubled, and then its quotes get a backslash. -/
theorem dot_text_decodes :
    (∀ g : ImportGraph, readDot g.toDot = some (g.units, g.edges)) ∧
    (∀ (g : ImportGraph) (e : Nat × Nat), e ∈ g.edges ↔ e ∈ g.imports) ∧
    (∀ g h : ImportGraph, g.toDot = h.toDot ↔
      g.units = h.units ∧ ∀ a, g.importsOf a = h.importsOf a) ∧
    ∀ id, (label id).toList =
      replaced '"' ['\\', '"'] (replaced '\\' ['\\', '\\'] id.toList) := by
  refine ⟨readDot_toDot, fun g _ => g.mem_edges, fun g h => ⟨fun heq => ?_, fun heq => ?_⟩,
    toList_label⟩
  · have hread := g.readDot_toDot.symm.trans ((congrArg readDot heq).trans h.readDot_toDot)
    obtain ⟨hunits, hedges⟩ := Prod.mk.inj (Option.some.inj hread)
    have hagree : Agree g h := ⟨hunits, fun e => by rw [← mem_edges, hedges, mem_edges]⟩
    exact ⟨hunits, congrFun hagree.importsOf_eq⟩
  · exact (agree_of_importsOf heq.1 fun a b => by rw [heq.2]).toDot_eq

end SchemaGraph.ImportGraph
