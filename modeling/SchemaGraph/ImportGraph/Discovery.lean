import SchemaGraph.Error
import SchemaGraph.ImportGraph

/-!
Discovery of the units that a list of roots needs. Units are visited breadth first, each is asked
for its imports once, and an import of itself is passed over.
-/

namespace SchemaGraph.ImportGraph

/-- Asking a source for its imports. -/
abbrev ImportLookup := SourceId → Except CompileError (List SourceId)

/-- Only finitely many sources can be reached from `roots`. -/
def FinitelyReaching (lookup : ImportLookup) (roots : List SourceId) : Prop :=
  ∃ known : List SourceId,
    (∀ r ∈ roots, r ∈ known) ∧
    ∀ u ∈ known, ∀ is, lookup u = .ok is → ∀ i ∈ is, i ∈ known

/-- Sources among which everything reachable is. -/
noncomputable def FinitelyReaching.known {lookup : ImportLookup} {roots : List SourceId}
    (h : FinitelyReaching lookup roots) : List SourceId :=
  Classical.choose h

def addImports (g : ImportGraph) (unit : SourceId) (is : List SourceId) : ImportGraph :=
  is.foldl (fun g i => if i = unit then g else (g.addUnit i).addImport unit i) g

def addUnits (g : ImportGraph) (is : List SourceId) : ImportGraph :=
  is.foldl addUnit g

theorem mem_addImports {g : ImportGraph} {unit : SourceId} {is : List SourceId} {a : SourceId}
    (h : a ∈ (g.addImports unit is).units) : a ∈ g.units ∨ a ∈ is := by
  unfold addImports at h
  induction is generalizing g with
  | nil => exact .inl h
  | cons i is ih =>
    rcases ih h with h | h
    · simp only at h
      split at h
      · exact .inl h
      · rw [units_addImport, mem_units_addUnit] at h
        rcases h with h | rfl
        · exact .inl h
        · exact .inr (by simp)
    · exact .inr (by simp [h])

theorem mem_addUnits {g : ImportGraph} {is : List SourceId} {a : SourceId}
    (h : a ∈ (g.addUnits is).units) : a ∈ g.units ∨ a ∈ is := by
  unfold addUnits at h
  induction is generalizing g with
  | nil => exact .inl h
  | cons i is ih =>
    rcases ih h with h | h
    · rcases (mem_units_addUnit g i a).1 h with h | rfl
      · exact .inl h
      · exact .inr (by simp)
    · exact .inr (by simp [h])

theorem length_le_of_nodup {α : Type} [DecidableEq α] :
    ∀ {as bs : List α}, as.Nodup → (∀ a ∈ as, a ∈ bs) → as.length ≤ bs.length
  | [], _, _, _ => by simp
  | a :: as, bs, hn, hs => by
    rw [List.nodup_cons] at hn
    have hm : a ∈ bs := hs a (by simp)
    have := @length_le_of_nodup _ _ as (bs.erase a) hn.2 fun b hb =>
      (List.mem_erase_of_ne (by rintro rfl; exact hn.1 hb)).2 (hs b (by simp [hb]))
    rw [List.length_erase_of_mem hm] at this
    have := List.length_pos_of_mem hm
    simp only [List.length_cons]
    omega

variable {lookup : ImportLookup} {roots : List SourceId}

/-- Who was asked for imports, in the order of asking, and what came of it. -/
structure Survey where
  asked : List SourceId
  result : Except CompileError ImportGraph

/-- Asks the units from position `next` on, after those that were asked before. -/
def explore (h : FinitelyReaching lookup roots) (g : ImportGraph) (next : Nat)
    (asked : List SourceId) (inside : ∀ u ∈ g.units, u ∈ h.known) : Survey :=
  match hn : g.units[next]? with
  | none => { asked, result := .ok g }
  | some unit =>
    match hi : lookup unit with
    | .error e => { asked := asked ++ [unit], result := .error e }
    | .ok is =>
      explore h (g.addImports unit is) (next + 1) (asked ++ [unit]) fun u hu => by
        rcases mem_addImports hu with hu | hu
        · exact inside u hu
        · exact (Classical.choose_spec h).2 unit (inside unit (List.mem_of_getElem? hn)) is hi u hu
termination_by h.known.length - next
decreasing_by
  have := (List.getElem?_eq_some_iff.1 hn).1
  have := length_le_of_nodup g.units_nodup inside
  omega

/-- Looks for all units that can be reached from `roots`. -/
def survey (h : FinitelyReaching lookup roots) : Survey :=
  explore h (empty.addUnits roots) 0 [] fun u hu => by
    rcases mem_addUnits hu with hu | hu
    · simp [empty] at hu
    · exact (Classical.choose_spec h).1 u hu

/-- The graph of all units that can be reached from `roots`. -/
def discover (h : FinitelyReaching lookup roots) : Except CompileError ImportGraph :=
  (survey h).result

end SchemaGraph.ImportGraph
