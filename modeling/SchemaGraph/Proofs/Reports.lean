import SchemaGraph.Emission.Outline
import SchemaGraph.Proofs.Imports
import SchemaGraph.Proofs.ItemNames

/-!
What a report says of the calls of a backend. For each published unit of a list there is a result
for every type and at most one for the aggregate, in the order of the calls; a result shows what came
of its own call and of no other. A call that fails leaves a result without code, and a report has
errors just if a call failed or left a note of an error. Imports come first when all schemas are
emitted.
-/

namespace SchemaGraph

/-! ### Severities -/

namespace Severity

theorem rank_max (a b : Severity) : (a.max b).rank = Nat.max a.rank b.rank := by
  cases a <;> cases b <;> rfl

/-- The most severe of many stays below a rank if each of them does. -/
theorem rank_foldl_max_lt {k : Nat} {ss : List Severity} {s : Severity} :
    (ss.foldl max s).rank < k ↔ s.rank < k ∧ ∀ a ∈ ss, a.rank < k := by
  induction ss generalizing s with
  | nil => simp
  | cons a ss ih =>
      rw [List.foldl_cons, ih, rank_max, List.forall_mem_cons, ← and_assoc]
      exact and_congr_left fun _ => Nat.max_lt

theorem eq_error_iff {s : Severity} : s = .error ↔ ¬s.rank < 3 := by
  cases s <;> decide

end Severity

theorem Emitted.severity_lt_iff {e : Emitted} {k : Nat} (hk : 0 < k) :
    e.severity.rank < k ↔ ∀ n ∈ e.notes, n.severity.rank < k := by
  rw [severity, Severity.rank_foldl_max_lt, List.forall_mem_map]
  exact and_iff_right hk

/-! ### Results -/

namespace EmissionResult

/-- The result is about a type of the schema. -/
structure OfType (x : EmissionResult) (s : Schema) (t : LinkedType) : Prop where
  kind : x.kind = some t.kind
  schemaName : x.schemaName = s.name
  typeName : x.typeName = t.name
  «namespace» : x.namespace = t.namespace

/-- The result is about the aggregate of the schema. -/
structure OfSchema (x : EmissionResult) (s : Schema) : Prop where
  kind : x.kind = none
  schemaName : x.schemaName = s.name
  typeName : x.typeName = s.name
  «namespace» : x.namespace = s.namespace

/-- The result shows what came of a call: the code with its notes, or the error in its place. -/
def Shows (x : EmissionResult) (success : String) : Except CompileError Emitted → Prop
  | .ok e => x.code = some e.code ∧ x.severity = e.severity ∧
      x.message = Backend.withNotes success e.notes
  | .error e => x.code = none ∧ x.severity = .error ∧ x.message = e.message

theorem Shows.code_eq_none_iff {x : EmissionResult} {success : String}
    {outcome : Except CompileError Emitted} (h : x.Shows success outcome) :
    x.code = none ↔ ∃ err, outcome = .error err := by
  cases outcome with
  | ok e => simp [h.1]
  | error err => simp [h.1]

theorem shows_settle (blank : EmissionResult) (outcome : Except CompileError Emitted) :
    (Backend.settle blank outcome).Shows blank.message outcome := by
  cases outcome <;> exact ⟨rfl, rfl, rfl⟩

end EmissionResult

/-- The results for one schema: those for its types, and the one for its aggregate. -/
structure SchemaReport where
  types : List EmissionResult
  aggregate : Option EmissionResult

/-- The result is that of the call for a type, and has no code just if the call failed. -/
structure EmissionResult.AnswersType (b : Backend) (v : SchemaView) (e : TypeRef × LinkedType)
    (x : EmissionResult) : Prop where
  ofType : x.OfType v.schema e.2
  shows_outcome : x.Shows s!"Generated {e.2.kind.name} {e.2.fullName}" (b.emitType v e.1 e.2)
  noCode_iff : x.code = none ↔ ∃ err, b.emitType v e.1 e.2 = .error err

/-- The result is that of the call for the aggregate, and has no code just if the call failed. -/
structure EmissionResult.AnswersSchema (b : Backend) (v : SchemaView) (x : EmissionResult) :
    Prop where
  ofSchema : x.OfSchema v.schema
  shows_outcome : ∃ outcome, b.emitSchema v = outcome.map some ∧
    x.Shows s!"Generated aggregate for schema {v.schema.name}" outcome
  noCode_iff : x.code = none ↔ ∃ err, b.emitSchema v = .error err

/-- Each type has one result, in declaration order; the aggregate has one unless the schema needs
none. -/
structure SchemaReport.Answers (b : Backend) (v : SchemaView) (p : SchemaReport) : Prop where
  types : List.Forall₂ (EmissionResult.AnswersType b v) (v.schema.refs.zip v.schema.types) p.types
  aggregate_none_iff : p.aggregate = none ↔ b.emitSchema v = .ok none
  aggregate : ∀ x ∈ p.aggregate, x.AnswersSchema b v

namespace Backend

variable {b b' : Backend} {v : SchemaView} {w : Workspace} {units : List SourceId}

theorem answersType_typeResult (e : TypeRef × LinkedType) :
    (b.typeResult v e.1 e.2).AnswersType b v e := by
  have hshows := EmissionResult.shows_settle
    { severity := .success, message := s!"Generated {e.2.kind.name} {e.2.fullName}",
      kind := e.2.kind, schemaName := v.schema.name, typeName := e.2.name,
      «namespace» := e.2.namespace, code := none } (b.emitType v e.1 e.2)
  refine ⟨?_, hshows, hshows.code_eq_none_iff⟩
  rw [typeResult]
  cases b.emitType v e.1 e.2 <;> exact ⟨rfl, rfl, rfl, rfl⟩

theorem schemaResult?_eq_none_iff : b.schemaResult? v = none ↔ b.emitSchema v = .ok none := by
  rw [schemaResult?]
  rcases b.emitSchema v with e | _ | e <;> simp

theorem answersSchema_schemaResult {x : EmissionResult} (hx : b.schemaResult? v = some x) :
    x.AnswersSchema b v := by
  rw [schemaResult?] at hx
  rcases h : b.emitSchema v with err | _ | e <;> rw [h] at hx
  · obtain rfl := Option.some.inj hx
    exact ⟨⟨rfl, rfl, rfl, rfl⟩, ⟨.error err, h, EmissionResult.shows_settle _ _⟩,
      iff_of_true rfl ⟨err, h⟩⟩
  · contradiction
  · obtain rfl := Option.some.inj hx
    exact ⟨⟨rfl, rfl, rfl, rfl⟩, ⟨.ok e, h, EmissionResult.shows_settle _ _⟩,
      iff_of_false (Option.some_ne_none _) (by simp [h])⟩

def schemaReport (b : Backend) (v : SchemaView) : SchemaReport where
  types := (v.schema.refs.zip v.schema.types).map fun e => b.typeResult v e.1 e.2
  aggregate := b.schemaResult? v

theorem schemaResults_eq : b.schemaResults v =
    (b.schemaReport v).types ++ (b.schemaReport v).aggregate.toList := by
  rw [schemaResults, mapIdx_eq_zip_refs, schemaReport]

theorem answers_schemaReport : (b.schemaReport v).Answers b v where
  types := List.forall₂_map_right_iff.2 <|
    List.forall₂_same.2 fun e _ => answersType_typeResult e
  aggregate_none_iff := schemaResult?_eq_none_iff
  aggregate _ hx := answersSchema_schemaResult hx

/-- Units that are not published add nothing to a report. -/
theorem results_emit : (b.emit w units).results =
    (units.filterMap w.bySource?).flatMap fun s => b.schemaResults ⟨w, s⟩ := by
  simp only [emit]
  induction units with
  | nil => rfl
  | cons u units ih =>
      rw [List.flatMap_cons, ih]
      cases h : w.bySource? u with
      | none => rw [List.filterMap_cons_none h, List.nil_append]
      | some s => rw [List.filterMap_cons_some h, List.flatMap_cons]

/-! ### Errors -/

/-- What comes of the calls for a schema, in their order. -/
def outcomes (b : Backend) (v : SchemaView) : List (Except CompileError (Option Emitted)) :=
  (v.schema.refs.zip v.schema.types).map (fun e => (b.emitType v e.1 e.2).map some) ++
    [b.emitSchema v]

/-- The call failed, or there is an error among the notes on its code. -/
def Erroneous (outcome : Except CompileError (Option Emitted)) : Prop :=
  (∃ err, outcome = .error err) ∨
    ∃ e, outcome = .ok (some e) ∧ ∃ n ∈ e.notes, n.severity = .error

theorem isError_settle_iff (blank : EmissionResult) (outcome : Except CompileError Emitted) :
    (settle blank outcome).isError = true ↔ Erroneous (outcome.map some) := by
  cases outcome with
  | error err => simp [settle, EmissionResult.isError, Erroneous, Except.map]
  | ok e =>
      simp [settle, EmissionResult.isError, Erroneous, Except.map, Severity.eq_error_iff,
        Emitted.severity_lt_iff]

theorem hasErrors_schemaResults_iff : (b.schemaResults v).any EmissionResult.isError = true ↔
    ∃ outcome ∈ b.outcomes v, Erroneous outcome := by
  have haggregate : (b.schemaResult? v).toList.any EmissionResult.isError = true ↔
      Erroneous (b.emitSchema v) := by
    rw [schemaResult?]
    rcases b.emitSchema v with err | _ | e
    · rw [Option.toList_some, List.any_cons, List.any_nil, Bool.or_false]
      exact isError_settle_iff _ (.error err)
    · simp [Erroneous]
    · rw [Option.toList_some, List.any_cons, List.any_nil, Bool.or_false]
      exact isError_settle_iff _ (.ok e)
  rw [schemaResults_eq, List.any_append, Bool.or_eq_true, schemaReport, haggregate, List.any_map,
    List.any_eq_true, outcomes]
  simp only [List.mem_append, List.mem_singleton, or_and_right, exists_or, exists_eq_left]
  simp only [List.mem_map, Function.comp, typeResult, isError_settle_iff, exists_exists_and_eq_and]

theorem hasErrors_emit_iff : (b.emit w units).hasErrors = true ↔
    ∃ s ∈ units.filterMap w.bySource?, ∃ outcome ∈ b.outcomes ⟨w, s⟩, Erroneous outcome := by
  rw [Report.hasErrors, results_emit, List.any_flatMap, List.any_eq_true]
  simp only [hasErrors_schemaResults_iff]

/-! ### Two backends -/

/-- The backends answer all calls for published schemas alike but those for one type. -/
structure AgreesBut (b b' : Backend) (w : Workspace) (r : TypeRef) : Prop where
  language : b.language = b'.language
  emitType : ∀ u s, w.bySource? u = some s → ∀ e ∈ s.refs.zip s.types, e.1 ≠ r →
    b.emitType ⟨w, s⟩ e.1 e.2 = b'.emitType ⟨w, s⟩ e.1 e.2
  emitSchema : ∀ u s, w.bySource? u = some s → b.emitSchema ⟨w, s⟩ = b'.emitSchema ⟨w, s⟩

/-- The results are equal, or are those of the two backends for one type of a published schema. -/
def ResultsFor (b b' : Backend) (w : Workspace) (r : TypeRef) (x y : EmissionResult) : Prop :=
  x = y ∨ ∃ u s t, w.bySource? u = some s ∧ (r, t) ∈ s.refs.zip s.types ∧
    x = b.typeResult ⟨w, s⟩ r t ∧ y = b'.typeResult ⟨w, s⟩ r t

section AgreesBut

variable {r : TypeRef} {u : SourceId} {s : Schema}

theorem AgreesBut.schemaResults (h : AgreesBut b b' w r) (hs : w.bySource? u = some s) :
    List.Forall₂ (ResultsFor b b' w r) (b.schemaResults ⟨w, s⟩) (b'.schemaResults ⟨w, s⟩) := by
  rw [schemaResults_eq, schemaResults_eq]
  refine List.rel_append ?_ ?_
  · rw [schemaReport, schemaReport, List.forall₂_map_left_iff, List.forall₂_map_right_iff,
      List.forall₂_same]
    intro e he
    by_cases hr : e.1 = r
    · exact .inr ⟨u, s, e.2, hs, hr ▸ he, hr ▸ rfl, hr ▸ rfl⟩
    · exact .inl (by rw [typeResult, typeResult, h.emitType u s hs e he hr])
  · rw [schemaReport, schemaReport, schemaResult?, schemaResult?, h.emitSchema u s hs]
    exact List.forall₂_same.2 fun x _ => .inl rfl

theorem AgreesBut.results_emit (h : AgreesBut b b' w r) :
    List.Forall₂ (ResultsFor b b' w r) (b.emit w units).results (b'.emit w units).results := by
  rw [Backend.results_emit, Backend.results_emit]
  refine List.rel_flatMap (R := fun s t => s = t ∧ ∃ u, w.bySource? u = some s) ?_ ?_
  · refine List.forall₂_same.2 fun s hs => ⟨rfl, ?_⟩
    obtain ⟨u, -, hu⟩ := List.mem_filterMap.1 hs
    exact ⟨u, hu⟩
  · rintro s _ ⟨rfl, u, hu⟩
    exact h.schemaResults hu

end AgreesBut

/-! ### Schemas in order -/

theorem schemaName_of_mem_schemaResults {x : EmissionResult} (h : x ∈ b.schemaResults v) :
    x.schemaName = v.schema.name := by
  rw [schemaResults_eq, List.mem_append, Option.mem_toList] at h
  rcases h with h | h
  · obtain ⟨e, -, hx⟩ := exists_of_forall₂_right answers_schemaReport.types h
    exact hx.ofType.schemaName
  · exact (answers_schemaReport.aggregate x h).ofSchema.schemaName

end Backend

section Reached

variable {w : Workspace}

theorem Reached.bySource?_sources (h : Reached w) :
    (w.schemas.map fun s => s.source).filterMap w.bySource? = w.schemas := by
  rw [List.filterMap_map]
  refine (List.filterMap_congr fun s hs => ?_).trans List.filterMap_some
  exact h.indexed.bySource?_eq_some.2 ⟨h.indexed.mem_iff.1 hs, rfl⟩

theorem Reached.pairwise_key (h : Reached w) : w.schemas.Pairwise fun s t => s.key < t.key := by
  rw [List.pairwise_iff_getElem]
  intro i j hi hj hij
  rwa [h.indexed.key_eq i _ (List.getElem?_eq_getElem hi),
    h.indexed.key_eq j _ (List.getElem?_eq_getElem hj)]

/-- The result for one schema does not stand before that for another which it imports. -/
def Workspace.ImportsFirst (w : Workspace) (x y : EmissionResult) : Prop :=
  ∀ s ∈ w.schemas, ∀ t ∈ w.schemas, x.schemaName = s.name → y.schemaName = t.name →
    ¬w.Imports s.key t.key

theorem Reached.importsFirst_emitAll (h : Reached w) (b : Backend) :
    (b.emitAll w).results.Pairwise w.ImportsFirst := by
  have hname : ∀ s ∈ w.schemas, ∀ x ∈ b.schemaResults ⟨w, s⟩, ∀ s' ∈ w.schemas,
      x.schemaName = s'.name → s'.key = s.key := by
    intro s hs x hx s' hs' hx'
    rw [Backend.schemaName_of_mem_schemaResults hx] at hx'
    exact h.indexed.key_of_name (h.indexed.mem_iff.1 hs') (h.indexed.mem_iff.1 hs) hx'.symm
  rw [Backend.emitAll, Backend.results_emit, h.bySource?_sources, List.pairwise_flatMap]
  constructor
  · intro s hs
    refine List.pairwise_of_forall_mem_list fun x hx y hy s' hs' t' ht' hxs hyt himports => ?_
    obtain ⟨-, -, -, hne⟩ := himports
    exact hne ((hname s hs y hy t' ht' hyt).trans (hname s hs x hx s' hs' hxs).symm)
  · refine h.pairwise_key.imp_of_mem fun {s t} hs ht hlt x hx y hy s' hs' t' ht' hxs hyt himports =>
      ?_
    have hle := himports.lt h.indexed h.compiledFrom
    rw [hname s hs x hx s' hs' hxs, hname t ht y hy t' ht' hyt] at hle
    exact Nat.lt_asymm hlt hle

end Reached

/-- Whatever the backend and the units, the report has for each listed unit that is published, in
the order of the list, one result for every type in declaration order and then at most one for the
aggregate, and each of them shows what came of its own call. Backends that differ on one type only
differ only in the results for it. A report has errors just if a call failed or left a note of an
error. If all schemas are emitted, the results for a schema come after those for the other schemas
that it imports. -/
theorem report_shows_every_call (w : Workspace) (b : Backend) (units : List SourceId) :
    (∃ parts : List SchemaReport,
      (b.emit w units).results = parts.flatMap (fun p => p.types ++ p.aggregate.toList) ∧
      List.Forall₂ (fun s p => p.Answers b ⟨w, s⟩) (units.filterMap w.bySource?) parts) ∧
    (∀ b' r, b.AgreesBut b' w r → (b.emit w units).language = (b'.emit w units).language ∧
      List.Forall₂ (b.ResultsFor b' w r) (b.emit w units).results (b'.emit w units).results) ∧
    ((b.emit w units).hasErrors = true ↔ ∃ s ∈ units.filterMap w.bySource?,
      ∃ outcome ∈ b.outcomes ⟨w, s⟩, Backend.Erroneous outcome) ∧
    (Reached w → (w.schemas.map fun s => s.source).filterMap w.bySource? = w.schemas ∧
      (b.emitAll w).results.Pairwise w.ImportsFirst) := by
  refine ⟨⟨(units.filterMap w.bySource?).map fun s => b.schemaReport ⟨w, s⟩, ?_, ?_⟩,
    fun b' r h => ⟨h.language, h.results_emit⟩, Backend.hasErrors_emit_iff,
    fun h => ⟨h.bySource?_sources, h.importsFirst_emitAll b⟩⟩
  · rw [Backend.results_emit, List.flatMap_map]
    simp only [Backend.schemaResults_eq]
  · exact List.forall₂_map_right_iff.2 <|
      List.forall₂_same.2 fun s _ => Backend.answers_schemaReport

/-! ### A refused type -/

/-- The backend, but for one type that it refuses. -/
def Backend.refusing (b : Backend) (r : TypeRef) : Backend :=
  { b with
    emitType := fun v r' t =>
      if r' = r then .error (v.failure t.name "refused") else b.emitType v r' t }

theorem Backend.agreesBut_refusing (b : Backend) (w : Workspace) (r : TypeRef) :
    b.AgreesBut (b.refusing r) w r where
  language := rfl
  emitType _ _ _ _ _ hne := (if_neg hne).symm
  emitSchema _ _ _ := rfl

/-- A schema with two structs, and one that imports it and has another. -/
def reportSources : SourceTable :=
  [("a", { name := some "A", types := [
      .struct { name := some "S" }, .struct { name := some "T" }] }),
    ("b", { name := some "B", imports := [{ source := "a" }], types := [
      .struct { name := some "U" }] })]

def reportWorkspace : Workspace :=
  (({ primitives := [] } : Workspace).load reportSources.reader ["b"]).workspace

theorem reached_reportWorkspace : Reached reportWorkspace :=
  (Reached.empty [] {} none).load reportSources.reader ["b"]

/-- Of four units one is unknown and one is listed twice. If a type is refused, there are errors, and
the reports differ in its two results only. -/
theorem report_shows_every_call_refused :
    let b := Outline.backend { aggregate := .absent }
    let b' := b.refusing ⟨0, 0⟩
    let units := ["a", "none", "b", "a"]
    Reached reportWorkspace ∧
      (b.emit reportWorkspace units).results.map EmissionResult.code =
        [some "struct S [] key()", some "struct T [] key()", some "struct U [] key()",
          some "struct S [] key()", some "struct T [] key()"] ∧
      (b'.emit reportWorkspace units).hasErrors = true ∧
      List.Forall₂ (b.ResultsFor b' reportWorkspace ⟨0, 0⟩)
        (b.emit reportWorkspace units).results (b'.emit reportWorkspace units).results ∧
      (b.emitAll reportWorkspace).results.Pairwise reportWorkspace.ImportsFirst := by
  intro b b' units
  have hfound : ((reportWorkspace.bySource? "a").bind fun s =>
      (s.refs.zip s.types).head?.map Prod.fst) = some ⟨0, 0⟩ := by cbv
  obtain ⟨s, hs, hfound⟩ := Option.bind_eq_some_iff.1 hfound
  obtain ⟨⟨r, t⟩, ht, rfl : r = _⟩ := Option.map_eq_some_iff.1 hfound
  obtain ⟨-, htwo, -, hall⟩ := report_shows_every_call reportWorkspace b units
  obtain ⟨-, -, herrors, -⟩ := report_shows_every_call reportWorkspace b' units
  have hcall : (b'.emitType ⟨reportWorkspace, s⟩ ⟨0, 0⟩ t).map some ∈
      b'.outcomes ⟨reportWorkspace, s⟩ :=
    List.mem_append_left _ (List.mem_map_of_mem (List.mem_of_head? ht))
  have hlisted : s ∈ units.filterMap reportWorkspace.bySource? :=
    List.mem_filterMap.2 ⟨"a", List.mem_cons_self, hs⟩
  exact ⟨reached_reportWorkspace, by unfold units b; cbv,
    herrors.2 ⟨s, hlisted, _, hcall, .inl ⟨_, rfl⟩⟩,
    (htwo b' _ (b.agreesBut_refusing reportWorkspace _)).2, (hall reached_reportWorkspace).2⟩

end SchemaGraph
