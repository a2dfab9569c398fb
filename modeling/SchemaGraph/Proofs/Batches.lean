import SchemaGraph.Proofs.Discovery
import SchemaGraph.Proofs.Reading
import SchemaGraph.Proofs.Rebuilding

/-!
Loading in batches. What is published at the end depends on the roots that have been loaded, and not
on how many calls loaded them or in which order they were named: the units get other keys, and all
else is the same. Whether the loads succeed does not depend on it either, as long as the reader lists
what its declarations import.
-/

namespace SchemaGraph

open ImportGraph

/-! ### Orders -/

section Orders

variable {reader : SourceReader} {roots roots' order order' : List SourceId}

theorem SourceReader.ListsImports.imports (h : reader.ListsImports) {a b : SourceId}
    (ha : ∃ is, reader.imports a = .ok is) (hab : reader.Declares a b) :
    reader.imports.Imports a b := by
  obtain ⟨is, his⟩ := ha
  obtain ⟨declaration, hread, hb⟩ := hab
  exact ⟨is, his, h a is declaration his hread b hb⟩

/-- The units of a load are in an order in which they can be compiled. -/
theorem SourceReader.ListsImports.ordered (h : reader.ListsImports)
    (horder : Orders reader.imports roots order)
    (hasked : ∀ u, reader.imports.Needs roots u → reader.imports.Orderable u) :
    reader.Ordered order := by
  have himports : ∀ a ∈ order, ∀ b, reader.Declares a b → reader.imports.Imports a b :=
    fun a ha b => h.imports (hasked a ((horder.mem_iff a).1 ha)).1
  refine ⟨horder.nodup, fun a ha b hab => horder.closed ha (himports a ha b hab), ?_⟩
  exact horder.not_later.imp_of_mem fun ha _ hnot hab => hnot (himports _ ha _ hab)

/-- What the second order adds to the first can be compiled after it. -/
theorem SourceReader.Ordered.append (h : reader.Ordered order) (h' : reader.Ordered order') :
    reader.Ordered (order ++ order'.filter (· ∉ order)) := by
  refine ⟨?_, fun a ha b hab => ?_, ?_⟩
  · rw [List.nodup_append]
    refine ⟨h.nodup, h'.nodup.filter _, fun a ha b hb => ?_⟩
    rintro rfl
    simp only [List.mem_filter, decide_eq_true_eq] at hb
    exact hb.2 ha
  · simp only [List.mem_append, List.mem_filter, decide_eq_true_eq] at ha ⊢
    by_cases hb : b ∈ order
    · exact .inl hb
    · rcases ha with ha | ⟨ha, -⟩
      · exact absurd (h.closed a ha b hab) hb
      · exact .inr ⟨h'.closed a ha b hab, hb⟩
  · rw [List.pairwise_append]
    refine ⟨h.not_later, h'.not_later.filter _, fun a ha b hb hab => ?_⟩
    simp only [List.mem_filter, decide_eq_true_eq] at hb
    exact hb.2 (h.closed a ha b hab)

end Orders

/-! ### Loads -/

def Loading.Succeeds (l : Loading) : Prop :=
  ∃ order, l.result = .ok order

namespace Workspace

variable {w w' : Workspace} {reader : SourceReader} {roots order : List SourceId}

theorem load_of_builds (horder : (reader.graph roots).bind sequence = .ok order)
    (h : Builds reader w order w') :
    ∃ events, w.load reader roots = { workspace := w', events, result := .ok order } := by
  obtain ⟨events, heq⟩ := h.compileUnits []
  refine ⟨events, ?_⟩
  rw [load, horder]
  simp only [heq]

theorem builds_of_load (h : (w.load reader roots).result = .ok order) :
    (reader.graph roots).bind sequence = .ok order ∧
      Builds reader w order (w.load reader roots).workspace := by
  rw [load] at h ⊢
  split at h
  · contradiction
  · rename_i order' horder
    split at h
    · rename_i p hunits
      obtain rfl := Except.ok.inj h
      simp only [horder]
      exact ⟨trivial, Builds.of_compileUnits hunits⟩
    · contradiction

theorem load_succeeds_iff : (w.load reader roots).Succeeds ↔
    ∃ order w', (reader.graph roots).bind sequence = .ok order ∧ Builds reader w order w' := by
  constructor
  · rintro ⟨order, h⟩
    exact ⟨order, _, builds_of_load h⟩
  · rintro ⟨order, w', horder, h⟩
    obtain ⟨events, heq⟩ := load_of_builds horder h
    exact ⟨order, by rw [heq]⟩

end Workspace

/-! ### Imports that are not listed -/

/-- A reader that gives no imports for any source, although one of its declarations has an import. -/
def silentReader : SourceReader where
  imports _ := .ok []
  read := SourceTable.read
    [("a", { name := some "A", imports := [{ source := "b" }] }), ("b", { name := some "B" })]
  finite roots := ⟨roots, fun _ hr => hr, fun _ _ is his i hi => by
    obtain rfl := Except.ok.inj his
    contradiction⟩

/-- Where a reader leaves imports out, batches are not loads of their union: in two calls the
imported source is published in time, in one call the order of the roots puts it too late. -/
theorem batches_of_unlisted_imports :
    let w : Workspace := { primitives := [] }
    let single := w.load silentReader ["a", "b"]
    let first := w.load silentReader ["b"]
    let second := first.workspace.load silentReader ["a"]
    (∀ r, r ∈ ["a", "b"] ↔ r ∈ ["b"] ∨ r ∈ ["a"]) ∧
      single.result = .error (.refused (.sourceNotFound "b")) ∧
      ¬(first.Succeeds ∧ second.Succeeds ↔ single.Succeeds) := by
  intro w single first second
  have hsingle : single.result = .error (.refused (.sourceNotFound "b")) := by
    unfold single w
    cbv
  have hbatches : (first.result, second.result) = (.ok ["b"], .ok ["a"]) := by
    unfold second first w
    cbv
  obtain ⟨hfirst, hsecond⟩ := Prod.mk.inj hbatches
  refine ⟨by simp [or_comm], hsingle, fun h => ?_⟩
  obtain ⟨order, horder⟩ := h.1 ⟨⟨_, hfirst⟩, ⟨_, hsecond⟩⟩
  rw [hsingle] at horder
  contradiction

/-! ### Batches -/

section Batches

variable {reader : SourceReader} {w : Workspace} {roots roots₁ roots₂ order₁ order₂ : List SourceId}

/-- Two loads in a row are one run of the compiler. -/
theorem Workspace.load_load_succeeds_iff :
    (w.load reader roots₁).Succeeds ∧
        ((w.load reader roots₁).workspace.load reader roots₂).Succeeds ↔
      ∃ order₁ order₂ w', (reader.graph roots₁).bind sequence = .ok order₁ ∧
        (reader.graph roots₂).bind sequence = .ok order₂ ∧
        Builds reader w (order₁ ++ order₂) w' := by
  constructor
  · rintro ⟨⟨order₁, h₁⟩, order₂, h₂⟩
    obtain ⟨horder₁, hbuilds₁⟩ := builds_of_load h₁
    obtain ⟨horder₂, hbuilds₂⟩ := builds_of_load h₂
    exact ⟨order₁, order₂, _, horder₁, horder₂, Builds.append_iff.2 ⟨_, hbuilds₁, hbuilds₂⟩⟩
  · rintro ⟨order₁, order₂, w', horder₁, horder₂, hbuilds⟩
    obtain ⟨w₁, hbuilds₁, hbuilds₂⟩ := Builds.append_iff.1 hbuilds
    obtain ⟨events, heq⟩ := load_of_builds horder₁ hbuilds₁
    rw [heq]
    exact ⟨⟨order₁, rfl⟩, load_succeeds_iff.2 ⟨order₂, w', horder₂, hbuilds₂⟩⟩

theorem needs_iff (hroots : ∀ r, r ∈ roots ↔ r ∈ roots₁ ∨ r ∈ roots₂) (u : SourceId) :
    reader.imports.Needs roots u ↔
      reader.imports.Needs roots₁ u ∨ reader.imports.Needs roots₂ u := by
  constructor
  · rintro ⟨r, hr, hru⟩
    rcases (hroots r).1 hr with hr | hr
    · exact .inl ⟨r, hr, hru⟩
    · exact .inr ⟨r, hr, hru⟩
  · rintro (⟨r, hr, hru⟩ | ⟨r, hr, hru⟩)
    · exact ⟨r, (hroots r).2 (.inl hr), hru⟩
    · exact ⟨r, (hroots r).2 (.inr hr), hru⟩

theorem mem_order_iff (hroots : ∀ r, r ∈ roots ↔ r ∈ roots₁ ∨ r ∈ roots₂) {order : List SourceId}
    (h : Orders reader.imports roots order) (h₁ : Orders reader.imports roots₁ order₁)
    (h₂ : Orders reader.imports roots₂ order₂) (u : SourceId) :
    u ∈ order ↔ u ∈ order₁ ++ order₂ := by
  rw [h.mem_iff, needs_iff hroots, List.mem_append, h₁.mem_iff, h₂.mem_iff]

variable (hw : w.BuiltBy reader) (hempty : w.schemas = [])
  (hroots : ∀ r, r ∈ roots ↔ r ∈ roots₁ ∨ r ∈ roots₂)

include hw hempty hroots

theorem load_succeeds_of_batches (hreader : reader.ListsImports)
    (h₁ : (w.load reader roots₁).Succeeds)
    (h₂ : ((w.load reader roots₁).workspace.load reader roots₂).Succeeds) :
    (w.load reader roots).Succeeds := by
  obtain ⟨order₁, order₂, w', horder₁, horder₂, hbuilds⟩ :=
    Workspace.load_load_succeeds_iff.1 ⟨h₁, h₂⟩
  obtain ⟨horders₁, hall₁⟩ := orders_of_eq_ok horder₁
  obtain ⟨horders₂, hall₂⟩ := orders_of_eq_ok horder₂
  have hall : ∀ u, reader.imports.Needs roots u → reader.imports.Orderable u := fun u hu =>
    ((needs_iff hroots u).1 hu).elim (hall₁ u) (hall₂ u)
  obtain ⟨order, horder⟩ := exists_order hall
  obtain ⟨horders, -⟩ := orders_of_eq_ok horder
  obtain ⟨w'', hbuilds'⟩ := hbuilds.reorder hw hempty (hreader.ordered horders hall)
    fun u hu => (mem_order_iff hroots horders horders₁ horders₂ u).1 hu
  exact Workspace.load_succeeds_iff.2 ⟨order, w'', horder, hbuilds'⟩

theorem batches_succeed_of_load (hreader : reader.ListsImports)
    (h : (w.load reader roots).Succeeds) :
    (w.load reader roots₁).Succeeds ∧
      ((w.load reader roots₁).workspace.load reader roots₂).Succeeds := by
  obtain ⟨order, w', horder, hbuilds⟩ := Workspace.load_succeeds_iff.1 h
  obtain ⟨horders, hall⟩ := orders_of_eq_ok horder
  have hall₁ : ∀ u, reader.imports.Needs roots₁ u → reader.imports.Orderable u := fun u hu =>
    hall u ((needs_iff hroots u).2 (.inl hu))
  have hall₂ : ∀ u, reader.imports.Needs roots₂ u → reader.imports.Orderable u := fun u hu =>
    hall u ((needs_iff hroots u).2 (.inr hu))
  obtain ⟨order₁, horder₁⟩ := exists_order hall₁
  obtain ⟨order₂, horder₂⟩ := exists_order hall₂
  obtain ⟨horders₁, -⟩ := orders_of_eq_ok horder₁
  obtain ⟨horders₂, -⟩ := orders_of_eq_ok horder₂
  have hordered := (hreader.ordered horders₁ hall₁).append (hreader.ordered horders₂ hall₂)
  obtain ⟨w₂, hbuilds₂⟩ := hbuilds.reorder hw hempty hordered fun u hu => by
    rw [mem_order_iff hroots horders horders₁ horders₂]
    simp only [List.mem_append, List.mem_filter] at hu ⊢
    exact hu.imp_right And.left
  -- The second load passes over what the first has published.
  obtain ⟨w₁, hfirst, hsecond⟩ := Builds.append_iff.1 hbuilds₂
  rw [Builds.filter_iff fun u hu => hfirst.published u (by simpa using hu)] at hsecond
  exact Workspace.load_load_succeeds_iff.2
    ⟨order₁, order₂, w₂, horder₁, horder₂, Builds.append_iff.2 ⟨w₁, hfirst, hsecond⟩⟩

end Batches

theorem Progress.compileUnits_of_published (reader : SourceReader) (p : Progress)
    {units : List SourceId} (h : ∀ u ∈ units, (p.workspace.bySource? u).isSome) :
    compileUnits reader p units = (p, .ok ()) := by
  induction units with
  | nil => rfl
  | cons unit units ih =>
      rw [compileUnits, compileUnit, if_pos (h unit (by simp))]
      exact ih fun u hu => h u (by simp [hu])

/-- A load that succeeded, done again, finds everything published. -/
theorem Workspace.load_again {w : Workspace} {reader : SourceReader} {roots order : List SourceId}
    (h : (w.load reader roots).result = .ok order) :
    (w.load reader roots).workspace.load reader roots =
      { workspace := (w.load reader roots).workspace, result := .ok order } := by
  obtain ⟨horder, hbuilds⟩ := builds_of_load h
  have hunits := Progress.compileUnits_of_published reader
    { workspace := (w.load reader roots).workspace } hbuilds.published
  rw [load, horder]
  simp only [hunits]

/-- From a workspace without schemas, with a reader that lists what its declarations import, roots
can be loaded in two calls exactly if they can be loaded in one, whatever the order in which that one
names them. With any reader, if they can be loaded in both ways, the same sources are published, with
schemas that differ in nothing but the keys, and a load that succeeded changes nothing and reports
nothing when it is repeated. -/
theorem load_independent_of_batches (primitives : PrimitiveTable) (containers : ContainerCatalog)
    (enumDefault : Option PrimitiveId) (reader : SourceReader)
    (roots roots₁ roots₂ : List SourceId)
    (hroots : ∀ r, r ∈ roots ↔ r ∈ roots₁ ∨ r ∈ roots₂) :
    let w : Workspace := { primitives, containers, enumDefault }
    let single := w.load reader roots
    let first := w.load reader roots₁
    let second := first.workspace.load reader roots₂
    (reader.ListsImports → (first.Succeeds ∧ second.Succeeds ↔ single.Succeeds)) ∧
    (first.Succeeds → second.Succeeds → single.Succeeds →
      single.workspace.SameSchemas second.workspace) ∧
    ∀ (w : Workspace) (order : List SourceId), (w.load reader roots).result = .ok order →
      (w.load reader roots).workspace.load reader roots =
        { workspace := (w.load reader roots).workspace, events := [], result := .ok order } := by
  intro w single first second
  have hw : w.BuiltBy reader := Workspace.builtBy_empty primitives containers enumDefault
  have hempty : w.schemas = [] := rfl
  refine ⟨fun hreader => ⟨fun h => ?_, fun h => ?_⟩, ?_, fun _ _ => Workspace.load_again⟩
  · exact load_succeeds_of_batches hw hempty hroots hreader h.1 h.2
  · exact batches_succeed_of_load hw hempty hroots hreader h
  · rintro ⟨order₁, h₁⟩ ⟨order₂, h₂⟩ ⟨order, h⟩
    obtain ⟨horder₁, hbuilds₁⟩ := Workspace.builds_of_load h₁
    obtain ⟨horder₂, hbuilds₂⟩ := Workspace.builds_of_load h₂
    obtain ⟨horder, hbuilds⟩ := Workspace.builds_of_load h
    have hmem := mem_order_iff hroots (orders_of_eq_ok horder).1 (orders_of_eq_ok horder₁).1
      (orders_of_eq_ok horder₂).1
    exact hbuilds.sameSchemas hw hempty (Builds.append_iff.2 ⟨_, hbuilds₁, hbuilds₂⟩) hmem

/-- Two sources that know nothing of each other, and a third that extends a type of each. -/
def joiningSources : SourceTable :=
  [("a", { name := some "A", types := [.struct { name := some "S" }] }),
    ("b", { name := some "B", types := [.interface { name := some "I" }] }),
    ("c", { name := some "C", imports := [{ source := "a" }, { source := "b" }], types := [
      .struct { name := some "T", base := some "A.S", interfaces := ["B.I"] }] })]

/-- The sources get other keys in one call than in two. -/
theorem load_joining_in_batches :
    let w : Workspace := { primitives := [] }
    let single := w.load joiningSources.reader ["a", "c", "b"]
    let first := w.load joiningSources.reader ["b"]
    let second := first.workspace.load joiningSources.reader ["c", "a"]
    single.workspace.schemas.map (fun s => s.source) = ["a", "b", "c"] ∧
      second.workspace.schemas.map (fun s => s.source) = ["b", "a", "c"] ∧
      (first.Succeeds ∧ second.Succeeds) ∧ single.Succeeds ∧
      single.workspace.SameSchemas second.workspace ∧
      second.workspace.load joiningSources.reader ["c", "a"] =
        { workspace := second.workspace, events := [], result := .ok ["a", "b", "c"] } := by
  intro w single first second
  have hroots : ∀ r, r ∈ ["a", "c", "b"] ↔ r ∈ ["b"] ∨ r ∈ ["c", "a"] := by
    simp only [List.mem_cons, List.not_mem_nil, or_false]
    tauto
  obtain ⟨hsucceeds, hsame, -⟩ := load_independent_of_batches [] {} none joiningSources.reader
    ["a", "c", "b"] ["b"] ["c", "a"] hroots
  obtain ⟨-, -, hagain⟩ := load_independent_of_batches [] {} none joiningSources.reader
    ["c", "a"] ["c"] ["a"] (by simp)
  have hsingle : (single.result, single.workspace.schemas.map fun s => s.source) =
      (.ok ["a", "b", "c"], ["a", "b", "c"]) := by
    unfold single w
    cbv
  have hsecond : (second.result, second.workspace.schemas.map fun s => s.source) =
      (.ok ["a", "b", "c"], ["b", "a", "c"]) := by
    unfold second first w
    cbv
  obtain ⟨hresult, hsources⟩ := Prod.mk.inj hsingle
  obtain ⟨hresult', hsources'⟩ := Prod.mk.inj hsecond
  have hboth := (hsucceeds joiningSources.listsImports).2 ⟨_, hresult⟩
  have hsuccess := (hsucceeds joiningSources.listsImports).1 hboth
  exact ⟨hsources, hsources', hboth, hsuccess, hsame hboth.1 hboth.2 hsuccess,
    hagain _ _ hresult'⟩

end SchemaGraph
