import SchemaGraph.Proofs.GuardedUnits
import SchemaGraph.Proofs.Sequencing

/-!
The guarded twins of ordering units, of publishing and withdrawing them, and of a whole load.

The number of missing imports is never lowered below zero, since it counts imports that are still
to be placed. A unit is drawn up, resolved and finished in an intact workspace, with whatever the
units before it have added, and what it adds leaves the workspace intact. What a failed load has
added can be withdrawn, since it was added after what the load found.
-/

namespace SchemaGraph.Guarded

/-! ### The order of compilation -/

section Order

open ImportGraph

variable (g : ImportGraph)

def start : Guarded Placement := do
  let missing := g.indices.map fun i => (g.targets i).length
  let ready ← g.indices.filterM fun i => return (← entry (.importCount i) missing i) = 0
  return { missing, ready, placed := [] }

/-- One import of `importer` has been placed; one more has to be missing. -/
def release (p : Placement) (importer : Nat) : Guarded Placement := do
  match ← entry (.importCount importer) p.missing importer with
  | 0 => .error (.importCountZero importer)
  | left + 1 =>
    let missing := p.missing.set importer left
    let ready := if (← entry (.importCount importer) missing importer) = 0
      then p.ready ++ [importer] else p.ready
    return { p with missing, ready }

def step (p : Placement) : Guarded Placement :=
  match p.ready with
  | [] => return p
  | i :: rest =>
    (g.importers i).foldlM release { p with ready := rest, placed := p.placed ++ [i] }

def run : Nat → Placement → Guarded Placement
  | 0, p => return p
  | n + 1, p => do run n (← step g p)

def placed : Guarded (List Nat) := do
  return (← run g g.unitCount (← start g)).placed

def sourcesAt (is : List Nat) : Guarded (List SourceId) :=
  is.mapM fun i => entry (.unit i) g.units i

def sequence : Attempt CompileError (List SourceId) := do
  let order ← placed g
  if order.length < g.unitCount then
    settled (.error (.importCycle (← sourcesAt g g.cycleMembers)))
  else sourcesAt g order

variable {g}

theorem start_eq : start g = .ok (Placement.start g) := by
  refine ok_bind (filterM_ok fun i hi => ok_bind (entry_eq_ok.2 ?_))
  rw [List.getElem?_map, indices, List.getElem?_range (g.mem_indices.1 hi)]
  rfl

theorem release_eq {p : Placement} {k : Nat} (h : 0 < p.missing.getD k 0) :
    release p k = .ok (p.release k) := by
  rw [List.getD_eq_getElem?_getD] at h
  cases hk : p.missing[k]? with
  | none => simp [hk] at h
  | some count =>
      obtain ⟨hlt, -⟩ := List.getElem?_eq_some_iff.1 hk
      obtain ⟨left, rfl⟩ := Nat.exists_eq_add_one_of_ne_zero (by simpa [hk] using h.ne')
      have hleft : (p.missing.set k left)[k]? = some left := List.getElem?_set_self hlt
      refine (ok_bind (entry_eq_ok.2 hk)).trans ((ok_bind (entry_eq_ok.2 hleft)).trans ?_)
      simp [Placement.release, List.getD_eq_getElem?_getD, hk]
      rfl

theorem releases_eq {ks : List Nat} (hks : ks.Nodup) {p : Placement}
    (h : ∀ k ∈ ks, 0 < p.missing.getD k 0) :
    ks.foldlM release p = .ok (ks.foldl Placement.release p) := by
  induction ks generalizing p with
  | nil => rfl
  | cons k ks ih =>
      rw [List.nodup_cons] at hks
      rw [List.forall_mem_cons] at h
      rw [List.foldlM_cons, ok_bind (release_eq h.1), List.foldl_cons]
      refine ih hks.2 fun j hj => ?_
      rw [Placement.release_missing, if_neg (by rintro rfl; exact hks.1 hj)]
      exact h.2 j hj

/-- Each unit that imports the unit that is placed is waiting for it. -/
theorem step_eq {p : Placement} (hp : Placement.Peeled g p) : step g p = .ok (p.step g) := by
  unfold step Placement.step
  cases hready : p.ready with
  | nil => rfl
  | cons i rest => exact releases_eq (g.nodup_importers i) fun k hk => hp.missing_pos hready hk

theorem run_eq (n : Nat) {p : Placement} (hp : Placement.Peeled g p) :
    run g n p = .ok (Placement.run g n p) := by
  induction n generalizing p with
  | zero => rfl
  | succ n ih => exact (ok_bind (step_eq hp)).trans (ih hp.step)

theorem placed_eq : placed g = .ok g.placed :=
  (ok_bind start_eq).trans (ok_bind (run_eq _ (Placement.peeled_start g)))

theorem sourcesAt_eq {is : List Nat} (h : ∀ i ∈ is, i < g.unitCount) :
    sourcesAt g is = .ok (g.sourcesAt is) :=
  mapM_filterMap fun i hi =>
    have hget := List.getElem?_eq_getElem (h i hi)
    ⟨_, entry_eq_ok.2 hget, hget⟩

theorem cycleMembers_subset : g.cycleMembers ⊆ g.indices := by
  have hleftover : g.leftover ⊆ g.indices := List.filter_subset_self _
  rw [cycleMembers]
  cases hfind : (g.leftover.map g.component).find? fun c => 1 < c.length with
  | none => exact hleftover
  | some members =>
      obtain ⟨i, -, rfl⟩ := List.mem_map.1 (List.mem_of_find?_eq_some hfind)
      exact List.filter_subset_self _

theorem sequence_eq : sequence g = settled g.sequence := by
  refine (lift_bind placed_eq).trans ?_
  rw [ImportGraph.sequence]
  split
  · refine (lift_bind (sourcesAt_eq fun i hi => ?_)).trans rfl
    exact g.mem_indices.1 (cycleMembers_subset hi)
  · exact congrArg _ (sourcesAt_eq fun i hi => (g.mem_placed.1 hi).1)

end Order

/-! ### Publication and withdrawal -/

section Publication

/-- Publishes a schema that was declared with the next key, if its source and its name are new. -/
def register (w : Workspace) (s : Schema) : Attempt CompileError Workspace :=
  if (w.sources.key? s.source).isSome then settled (.error (.duplicateSchemaSource s.source))
  else
    match w.names.key? s.name with
    | some key => do
      let first ← schemaAt w key
      settled (.error (.duplicateSchemaName s.name first.source s.source))
    | none => if s.key = w.nextKey then return w.publish s else fault (.staleKey s.key)

def truncate (w : Workspace) (count : Nat) : Guarded Workspace :=
  if count ≤ w.schemas.length then return w.truncate count else .error (.withdrawal count)

theorem register_eq {w : Workspace} {s : Schema} (hw : w.Indexed) (hkey : s.key = w.nextKey) :
    register w s = settled (w.register s) := by
  rw [register, Workspace.register]
  split
  · rfl
  · cases hname : w.names.key? s.name with
    | some key =>
        obtain ⟨t, ht, -⟩ := (hw.names_iff s.name key).1 hname
        refine (lift_bind (schemaAt_eq_ok.2 ht)).trans ?_
        simp only [ht]
        rfl
    | none => rfl

theorem truncate_eq {w : Workspace} {count : Nat} (h : count ≤ w.schemas.length) :
    truncate w count = .ok (w.truncate count) :=
  if_pos h

end Publication

/-! ### Compilation -/

section Compilation

/-- Compiles a draft; once it is published, its schema is looked up by its key. -/
def publish (p : Progress) (d : Draft) : Guarded (Progress × Except Failure Unit) := do
  let (d, resolution) ← resolve p.workspace d
  let finished : Attempt CompileError (Schema × Workspace) := do
    settled resolution
    let s ← finish p.workspace (← link d)
    let w ← register p.workspace s
    return (← schemaAt w s.key, w)
  match ← finished.run with
  | .error e => return (p, .error (.refused e))
  | .ok (s, w) => return ({ p with workspace := w }.note (.published s d.pendingCount), .ok ())

def compileUnit (reader : SourceReader) (p : Progress) (unit : SourceId) :
    Guarded (Progress × Except Failure Unit) := do
  if (← bySource? p.workspace unit).isSome then return (p, .ok ())
  else
    let drafted : Attempt CompileError Draft := do
      ofDeclaration p.workspace unit (← settled (reader.read unit))
    match ← drafted.run with
    | .error e => return (p, .error (.refused e))
    | .ok d => publish (p.note (.fixupStarted unit)) d

def compileUnits (reader : SourceReader) (p : Progress) :
    List SourceId → Guarded (Progress × Except Failure Unit)
  | [] => return (p, .ok ())
  | unit :: units => do
    match ← compileUnit reader p unit with
    | (p, .error f) => return (p, .error f)
    | (p, .ok ()) => compileUnits reader p units

def load (w : Workspace) (reader : SourceReader) (roots : List SourceId) : Guarded Loading := do
  let ordered : Attempt CompileError (List SourceId) := do
    sequence (← settled (reader.graph roots))
  match ← ordered.run with
  | .error e => return { workspace := w, result := .error (.refused e) }
  | .ok order =>
    match ← compileUnits reader { workspace := w } order with
    | (p, .ok ()) => return { p with result := .ok order }
    | (p, .error f) =>
      let workspace ← truncate p.workspace w.schemas.length
      return { workspace, events := p.events, result := .error f }

variable {p : Progress} (hw : p.workspace.Intact)

include hw

theorem publish_eq {unit : SourceId} {declaration : Declaration} {d : Draft}
    (hd : Draft.ofDeclaration p.workspace unit declaration = .ok d) :
    publish p d = .ok (p.publish d) := by
  have hindexed := hw.layered.indexed
  refine (ok_bind (resolve_eq (importsPublished hindexed hd))).trans ?_
  rw [Progress.publish]
  rcases hresolve : d.resolve p.workspace with ⟨resolved, e | _⟩
  · rfl
  obtain ⟨-, u, hlink, hu⟩ := Draft.resolve_ok hresolve
  have hdrafted : u.DraftedIn p.workspace := ⟨unit, declaration, d, hd, hu⟩
  have hread : link resolved = .ok u := by rw [link, hlink]; rfl
  refine (ok_bind (a := (u.finish p.workspace).bind fun s =>
    (p.workspace.register s).map fun w => (s, w)) ?_).trans ?_
  · refine (lift_bind hread).trans ?_
    refine settled_bind (finish_drafted hw.layered hw.flattened hdrafted) fun s hs => ?_
    obtain ⟨rfl, -⟩ := Linked.finish_ok hs
    refine settled_bind (register_eq hindexed hdrafted.key_eq) fun w hregister => ?_
    obtain ⟨-, -, rfl⟩ := Workspace.register_eq_ok.1 hregister
    refine (lift_bind (schemaAt_eq_ok.2 ?_)).trans rfl
    rw [hdrafted.key_eq]
    exact Workspace.getElem?_publish_nextKey _ s
  · simp only [Draft.finish, hlink]
    cases u.finish p.workspace with
    | error e => rfl
    | ok s =>
        dsimp only [Except.bind, Except.mapError, bind]
        cases p.workspace.register s <;> rfl

theorem compileUnit_eq (reader : SourceReader) (unit : SourceId) :
    compileUnit reader p unit = .ok (p.compileUnit reader unit) := by
  have hindexed := hw.layered.indexed
  refine (ok_bind (bySource?_eq hindexed unit)).trans ?_
  rw [Progress.compileUnit]
  split
  · rfl
  · have hdrafted : (do ofDeclaration p.workspace unit (← settled (reader.read unit))) =
        settled ((reader.read unit).bind (Draft.ofDeclaration p.workspace unit)) :=
      settled_bind rfl fun d _ => ofDeclaration_eq hw.enumDefault hindexed d
    refine (ok_bind hdrafted).trans ?_
    cases hd : (reader.read unit).bind (Draft.ofDeclaration p.workspace unit) with
    | error e => rfl
    | ok d =>
        obtain ⟨declaration, -, hd⟩ := bind_eq_ok.1 hd
        exact publish_eq (p := p.note (.fixupStarted unit)) hw hd

theorem compileUnits_eq (reader : SourceReader) (units : List SourceId) :
    compileUnits reader p units = .ok (p.compileUnits reader units) := by
  induction units generalizing p with
  | nil => rfl
  | cons unit units ih =>
      refine (ok_bind (compileUnit_eq hw reader unit)).trans ?_
      rw [Progress.compileUnits]
      rcases p.compileUnit_cases reader unit with ⟨-, heq⟩ | ⟨_, s, w', -, hcompiles, heq⟩ |
        ⟨e, events, heq, -⟩
      · rw [heq]
        exact ih hw
      · rw [heq]
        exact ih (hw.compiles hcompiles)
      · rw [heq]
        rfl

omit hw in
/-- Nothing is looked up in vain while roots are loaded into an intact workspace. -/
theorem load_eq {w : Workspace} (hw : w.Intact) (reader : SourceReader) (roots : List SourceId) :
    load w reader roots = .ok (w.load reader roots) := by
  have hordered : (do sequence (← settled (reader.graph roots))) =
      settled ((reader.graph roots).bind ImportGraph.sequence) :=
    settled_bind rfl fun _ _ => sequence_eq
  refine (ok_bind hordered).trans ?_
  rw [Workspace.load]
  cases (reader.graph roots).bind ImportGraph.sequence with
  | error e => rfl
  | ok order =>
      refine (ok_bind (compileUnits_eq (p := { workspace := w }) hw reader order)).trans ?_
      simp only
      have hgrows := (Progress.compileUnits_spec reader { workspace := w } order).1
      generalize Progress.compileUnits reader { workspace := w } order = result at hgrows ⊢
      rcases result with ⟨p, f | _⟩
      · exact ok_bind (truncate_eq hgrows.schemas_prefix.length_le)
      · rfl

end Compilation

end SchemaGraph.Guarded
