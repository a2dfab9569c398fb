import SchemaGraph.Declaration

/-!
Units and their imports. A unit is a source of a compilation; it is known by its position in the
order of discovery. An import is a pair of positions, the importing unit first.
-/

namespace SchemaGraph

structure ImportGraph where
  /-- The units in the order of their discovery. -/
  units : List SourceId := []
  imports : List (Nat × Nat) := []
  units_nodup : units.Nodup := by simp
  imports_nodup : imports.Nodup := by simp
  imports_lt : ∀ e ∈ imports, e.1 < units.length ∧ e.2 < units.length := by simp

namespace ImportGraph

def empty : ImportGraph := {}

variable (g : ImportGraph)

def contains (id : SourceId) : Bool :=
  g.units.contains id

def index? (id : SourceId) : Option Nat :=
  g.units.findIdx? (· = id)

/-- Adds a unit at the end, unless it is there already. -/
def addUnit (id : SourceId) : ImportGraph :=
  if h : id ∈ g.units then g
  else
    { g with
      units := g.units ++ [id]
      units_nodup := by
        rw [List.nodup_append]
        exact ⟨g.units_nodup, by simp, fun a ha b hb => by
          rintro rfl
          exact h (by simpa using (List.mem_singleton.1 hb) ▸ ha)⟩
      imports_lt := fun e he => by
        have := g.imports_lt e he
        simp only [List.length_append, List.length_singleton]
        omega }

/-- Records that the unit at one position imports the unit at another. -/
def connect (i j : Nat) : ImportGraph :=
  if h : i < g.units.length ∧ j < g.units.length ∧ (i, j) ∉ g.imports then
    { g with
      imports := g.imports ++ [(i, j)]
      imports_nodup := by
        rw [List.nodup_append]
        exact ⟨g.imports_nodup, by simp, fun a ha b hb => by
          rintro rfl
          exact h.2.2 (by simpa using (List.mem_singleton.1 hb) ▸ ha)⟩
      imports_lt := fun e he => by
        rcases List.mem_append.1 he with he | he
        · exact g.imports_lt e he
        · rw [List.mem_singleton.1 he]
          exact ⟨h.1, h.2.1⟩ }
  else g

/-- Records an import. Nothing happens unless both sources are units. -/
def addImport (source target : SourceId) : ImportGraph :=
  match g.index? source, g.index? target with
  | some i, some j => g.connect i j
  | _, _ => g

def unitCount : Nat := g.units.length

def importCount : Nat := g.imports.length

def indices : List Nat :=
  List.range g.unitCount

/-- The units that a unit imports, by position. -/
def targets (i : Nat) : List Nat :=
  g.indices.filter fun j => (i, j) ∈ g.imports

/-- The units that import a unit, by position. -/
def importers (j : Nat) : List Nat :=
  g.indices.filter fun i => (i, j) ∈ g.imports

theorem mem_indices {i : Nat} : i ∈ g.indices ↔ i < g.unitCount := List.mem_range

@[simp] theorem mem_targets {i j : Nat} : j ∈ g.targets i ↔ (i, j) ∈ g.imports := by
  simp only [targets, List.mem_filter, mem_indices, decide_eq_true_eq]
  exact ⟨And.right, fun h => ⟨(g.imports_lt _ h).2, h⟩⟩

@[simp] theorem mem_importers {i j : Nat} : i ∈ g.importers j ↔ (i, j) ∈ g.imports := by
  simp only [importers, List.mem_filter, mem_indices, decide_eq_true_eq]
  exact ⟨And.right, fun h => ⟨(g.imports_lt _ h).1, h⟩⟩

theorem nodup_targets (i : Nat) : (g.targets i).Nodup :=
  List.nodup_range.filter _

theorem nodup_importers (j : Nat) : (g.importers j).Nodup :=
  List.nodup_range.filter _

def sourcesAt (is : List Nat) : List SourceId :=
  is.filterMap fun i => g.units[i]?

/-- What a source imports, in the order of discovery. -/
def importsOf (id : SourceId) : List SourceId :=
  match g.index? id with
  | some i => g.sourcesAt (g.targets i)
  | none => []

theorem index?_eq_some {id : SourceId} {i : Nat} :
    g.index? id = some i ↔ g.units[i]? = some id := by
  rw [index?, List.findIdx?_eq_some_iff_getElem, List.getElem?_eq_some_iff]
  simp only [decide_eq_true_eq]
  constructor
  · rintro ⟨h, heq, _⟩
    exact ⟨h, heq⟩
  · rintro ⟨h, heq⟩
    refine ⟨h, heq, fun j hji heq' => ?_⟩
    have := (List.getElem_inj g.units_nodup).1 (heq'.trans heq.symm)
    omega

theorem mem_sourcesAt {is : List Nat} {a : SourceId} :
    a ∈ g.sourcesAt is ↔ ∃ i ∈ is, g.units[i]? = some a :=
  List.mem_filterMap

theorem mem_importsOf {a b : SourceId} :
    b ∈ g.importsOf a ↔
      ∃ i j, (i, j) ∈ g.imports ∧ g.units[i]? = some a ∧ g.units[j]? = some b := by
  rw [importsOf]
  split
  · rename_i i hi
    rw [mem_sourcesAt]
    rw [index?_eq_some] at hi
    constructor
    · rintro ⟨j, hj, hb⟩
      exact ⟨i, j, g.mem_targets.1 hj, hi, hb⟩
    · rintro ⟨i', j, hij, ha, hb⟩
      rw [← index?_eq_some] at hi ha
      obtain rfl : i = i' := by simpa [hi] using ha
      exact ⟨j, g.mem_targets.2 hij, hb⟩
  · rename_i hnone
    constructor
    · intro hb
      simp at hb
    · rintro ⟨i, j, hij, ha, hb⟩
      rw [← index?_eq_some, hnone] at ha
      simp at ha

@[simp] theorem units_connect (i j : Nat) : (g.connect i j).units = g.units := by
  unfold connect
  split <;> rfl

@[simp] theorem units_addImport (s t : SourceId) : (g.addImport s t).units = g.units := by
  unfold addImport
  split <;> simp

theorem units_addUnit (id : SourceId) :
    (g.addUnit id).units = if id ∈ g.units then g.units else g.units ++ [id] := by
  unfold addUnit
  split <;> simp_all

@[simp] theorem mem_units_addUnit (id a : SourceId) :
    a ∈ (g.addUnit id).units ↔ a ∈ g.units ∨ a = id := by
  rw [units_addUnit]
  split
  · constructor
    · exact Or.inl
    · rintro (h | rfl) <;> assumption
  · simp

end ImportGraph

end SchemaGraph
