import SchemaGraph.Proofs.Imports
import SchemaGraph.Proofs.ItemNames

/-!
Which schemas have a registry. The code for a registry has a map for each entity of its own that is
not abstract, and the registry of each imported schema that has one. A schema that has neither gets
no registry, and so there is one just if such an entity is declared in a schema that is reached
through imports. An import of the schema itself counts for nothing, and each alias of another schema
counts on its own.
-/

namespace SchemaGraph

open Relation RustNames RustSource

/-! ### Entities that have values -/

/-- The schema declares an entity that is not abstract. -/
def Schema.DeclaresEntity (s : Schema) : Prop :=
  ∃ u ∈ s.types, u.kind = .entity ∧ ∃ c, u.body = .composite c ∧ c.isAbstract = false

/-- The schema with this key, or one that it reaches through imports, declares an entity that is not
abstract. -/
def Workspace.ReachesEntity (w : Workspace) (key : SchemaKey) : Prop :=
  ∃ k s, ReflTransGen w.Imports key k ∧ w.schemas[k]? = some s ∧ s.DeclaresEntity

/-- An entity that is reached is declared by the schema itself or reached from an import. -/
theorem Workspace.reachesEntity_head_iff {w : Workspace} {key : SchemaKey} :
    w.ReachesEntity key ↔ (∃ s, w.schemas[key]? = some s ∧ s.DeclaresEntity) ∨
      ∃ k, w.Imports key k ∧ w.ReachesEntity k := by
  constructor
  · rintro ⟨k, t, hk, ht, hentity⟩
    rcases hk.cases_head with rfl | ⟨b, hb, hbk⟩
    · exact .inl ⟨t, ht, hentity⟩
    · exact .inr ⟨b, hb, k, t, hbk, ht, hentity⟩
  · rintro (⟨s, hs, hentity⟩ | ⟨b, hb, k, t, hbk, ht, hentity⟩)
    · exact ⟨key, s, .refl, hs, hentity⟩
    · exact ⟨k, t, .head hb hbk, ht, hentity⟩

theorem RustSource.isConcreteEntity_iff {u : LinkedType} :
    isConcreteEntity u = true ↔
      u.kind = .entity ∧ ∃ c, u.body = .composite c ∧ c.isAbstract = false := by
  obtain ⟨name, ns, kind, body, metadata⟩ := u
  cases body <;> simp [isConcreteEntity, UserType.composite?]

theorem Schema.declaresEntity_iff {s : Schema} :
    s.DeclaresEntity ↔ s.types.any isConcreteEntity = true := by
  simp only [DeclaresEntity, List.any_eq_true, isConcreteEntity_iff]

theorem RustSource.concreteEntities_eq_nil_iff {s : Schema} :
    concreteEntities s = [] ↔ ¬s.DeclaresEntity := by
  have hany : s.types.any isConcreteEntity =
      (s.refs.zip s.types).any fun e => isConcreteEntity e.2 := by
    conv_lhs => rw [← map_snd_zip_refs s.toSchemaOf, List.any_map]
    rfl
  rw [Schema.declaresEntity_iff, concreteEntities, List.filter_eq_nil_iff, hany, List.any_eq_true]
  simp only [not_exists, not_and]

/-! ### Imports -/

theorem RustSource.leads_importKeys (w : Workspace) : Leads (importKeys w) = w.Imports := by
  funext a b
  rw [Leads, importKeys, Workspace.Imports]
  cases w.schemas[a]? with
  | none => simp
  | some s => simp

section Reached

variable {w : Workspace} {s : Schema} {key : SchemaKey} {derives : List String}

/-- The search through imports finds what can be reached. -/
theorem Reached.hasRegistry_iff (h : Reached w) (hkey : key < w.schemas.length) :
    hasRegistry w key = true ↔ w.ReachesEntity key := by
  have hclosed : ∀ a ∈ List.range w.schemas.length, ∀ b ∈ importKeys w a,
      b ∈ List.range w.schemas.length := by
    intro a ha b hb
    have himports : w.Imports a b := leads_importKeys w ▸ hb
    have hlt := himports.lt h.indexed h.compiledFrom
    exact List.mem_range.2 (hlt.trans (List.mem_range.1 ha))
  have hroots : ∀ a ∈ [key], a ∈ List.range w.schemas.length := by simpa using hkey
  have hmem := fun k => DepthFirst.mem_reached_iff hclosed hroots (b := k)
  simp only [List.mem_singleton, exists_eq_left, leads_importKeys] at hmem
  rw [hasRegistry, List.any_eq_true]
  simp only [hmem, Option.any_eq_true, ← Schema.declaresEntity_iff]
  exact ⟨fun ⟨k, hk, t, ht, hentity⟩ => ⟨k, t, hk, ht, hentity⟩,
    fun ⟨k, t, hk, ht, hentity⟩ => ⟨k, hk, t, ht, hentity⟩⟩

theorem Reached.key_of_mem_imports (h : Reached w) {v : SchemaView} (hv : v.workspace = w)
    {i : String × Schema} (hi : i ∈ v.imports) : w.schemas[i.2.key]? = some i.2 := by
  obtain ⟨key, -, -, hget⟩ := SchemaView.mem_imports_iff.1 hi
  rw [hv] at hget
  rwa [h.indexed.key_eq key i.2 hget]

/-- A schema reaches an entity if it declares one or a schema that it imports reaches one. -/
theorem Reached.reachesEntity_iff (h : Reached w) (hs : s ∈ w.schemas) :
    w.ReachesEntity s.key ↔
      s.DeclaresEntity ∨ ∃ i ∈ (SchemaView.mk w s).imports, w.ReachesEntity i.2.key := by
  have hget := h.indexed.mem_iff.1 hs
  rw [Workspace.reachesEntity_head_iff]
  refine or_congr ⟨?_, fun hentity => ⟨s, hget, hentity⟩⟩ ⟨?_, ?_⟩
  · rintro ⟨t, ht, hentity⟩
    obtain rfl := Option.some.inj (hget.symm.trans ht)
    exact hentity
  · rintro ⟨b, himports, hb⟩
    have hlt := himports.lt h.indexed h.compiledFrom
    obtain ⟨s', hs', hmem, hne⟩ := himports
    obtain rfl := Option.some.inj (hget.symm.trans hs')
    obtain ⟨⟨a, b⟩, hentry, rfl⟩ := List.mem_map.1 hmem
    have hlength : b < w.schemas.length := hlt.trans (List.getElem?_eq_some_iff.1 hget).1
    have hgetb := List.getElem?_eq_getElem hlength
    refine ⟨(a, w.schemas[b]), SchemaView.mem_imports_iff.2 ⟨b, hentry, hne, hgetb⟩, ?_⟩
    exact (h.indexed.key_eq b _ hgetb).symm ▸ hb
  · rintro ⟨i, hi, hentity⟩
    obtain ⟨b, hmem, hne, hb⟩ := SchemaView.mem_imports_iff.1 hi
    obtain rfl := h.indexed.key_eq b i.2 hb
    exact ⟨i.2.key, ⟨s, hget, List.mem_map_of_mem hmem, hne⟩, hentity⟩

theorem Reached.nodup_importedAliases (h : Reached w) (hs : s ∈ w.schemas) :
    ((SchemaView.mk w s).imports.map Prod.fst).Nodup := by
  obtain ⟨declaration, v, v', -, -, -, hc⟩ := h.compiledFrom s hs
  have hnodup := List.pairwise_map.1 hc.declared.2.1
  rw [List.Nodup, List.pairwise_map, SchemaView.imports, List.pairwise_filterMap]
  refine hnodup.imp fun {i j} hij x hx y hy => ?_
  obtain ⟨-, hx⟩ := Option.ite_none_left_eq_some.1 hx
  obtain ⟨-, hy⟩ := Option.ite_none_left_eq_some.1 hy
  obtain ⟨_, -, rfl⟩ := Option.map_eq_some_iff.1 hx
  obtain ⟨_, -, rfl⟩ := Option.map_eq_some_iff.1 hy
  exact hij

theorem Reached.mem_registryImports (h : Reached w) {i : String × Schema} :
    i ∈ registryImports ⟨w, s⟩ ↔
      i ∈ (SchemaView.mk w s).imports ∧ w.ReachesEntity i.2.key := by
  rw [registryImports, List.mem_filter]
  refine and_congr_right fun hi => h.hasRegistry_iff ?_
  exact (List.getElem?_eq_some_iff.1 (h.key_of_mem_imports rfl hi)).1

/-! ### Registries -/

theorem RustSource.registryItems?_eq_none_iff {v : SchemaView} :
    registryItems? v = .ok none ↔ concreteEntities v.schema = [] ∧ registryImports v = [] := by
  simp only [registryItems?, List.isEmpty_iff]
  split
  · rename_i hnone
    exact iff_of_true rfl hnone
  · rename_i hsome
    refine iff_of_false (fun h => ?_) hsome
    obtain ⟨_, -, h⟩ := bind_eq_ok.1 h
    obtain ⟨_, -, h⟩ := bind_eq_ok.1 h
    obtain ⟨_, -, h⟩ := bind_eq_ok.1 h
    obtain ⟨_, -, h⟩ := bind_eq_ok.1 h
    exact Option.some_ne_none _ (pure_eq_ok.1 h)

theorem RustSource.backend_emitSchema_eq_none_iff {v : SchemaView} :
    (backend derives).emitSchema v = .ok none ↔ registryItems? v = .ok none := by
  simp only [backend]
  split
  · rename_i items hitems
    simp [hitems]
  · rename_i hfault
    simp [hfault]

theorem Reached.emitSchema_eq_none_iff (h : Reached w) (hs : s ∈ w.schemas) :
    (backend derives).emitSchema ⟨w, s⟩ = .ok none ↔ ¬w.ReachesEntity s.key := by
  rw [backend_emitSchema_eq_none_iff, registryItems?_eq_none_iff, concreteEntities_eq_nil_iff,
    h.reachesEntity_iff hs, not_or, List.eq_nil_iff_forall_not_mem]
  simp only [h.mem_registryImports, not_and, not_exists]

/-- No registry is made for a published schema just if neither the schema nor any schema that it
reaches through imports declares an entity that is not abstract. So what a registry holds of other
schemas are registries that are made: it has a field for each of its own entities that are not
abstract, and then one for each alias of another schema for which there is a registry. -/
theorem registry_iff_entity_reached (h : Reached w) (hs : s ∈ w.schemas) (derives : List String) :
    ((backend derives).emitSchema ⟨w, s⟩ = .ok none ↔ ¬w.ReachesEntity s.key) ∧
    ∀ e, (backend derives).emitSchema ⟨w, s⟩ = .ok (some e) →
      ∃ docs name own rest methods, typeName (registryName s.name) = .ok name ∧
        e.code = RustItem.renderFile s.name
          (.struct docs ["Default"] name (own ++ rest) :: methods) ∧
        ((own ++ rest).map RustMember.name).Nodup ∧
        List.Forall₂ EntityField (concreteEntities s) own ∧
        List.Forall₂ ImportField (registryImports ⟨w, s⟩) rest ∧
        ((registryImports ⟨w, s⟩).map Prod.fst).Nodup ∧
        ∀ a t, (a, t) ∈ registryImports ⟨w, s⟩ ↔
          (∃ key, (a, key) ∈ s.imports ∧ key ≠ s.key ∧ w.schemas[key]? = some t) ∧
            (backend derives).emitSchema ⟨w, t⟩ ≠ .ok none := by
  refine ⟨h.emitSchema_eq_none_iff hs, fun e he => ?_⟩
  obtain ⟨items, hitems, hcode⟩ := backend_emitSchema_ok he
  obtain ⟨docs, name, _, own, rest, maps, hname, hnodup, rfl, hown, hrest, -, rfl⟩ :=
    registryItems?_ok hitems
  refine ⟨docs, name, own, rest, _, hname, hcode, hnodup, hown, hrest, ?_, fun a t => ?_⟩
  · have hnodup := h.nodup_importedAliases hs
    exact hnodup.sublist (List.filter_sublist.map _)
  · rw [h.mem_registryImports, SchemaView.mem_imports_iff]
    refine and_congr_right ?_
    rintro ⟨key, -, -, hget⟩
    rw [ne_eq, h.emitSchema_eq_none_iff (List.mem_of_getElem? hget), not_not]

end Reached

/-! ### A registry of registries -/

/-- A schema with an abstract entity that imports itself, a schema with an entity, and a schema
without types that imports itself, the first, and the second under two aliases. -/
def registrySources : SourceTable :=
  [("a", { name := some "A", imports := [{ source := "a", localName := some "Me" }], types := [
      .entity { name := some "Base", isAbstract := true, properties := [
        { name := some "id", typeText := some "int", role := .primaryKey }] }] }),
    ("b", { name := some "B", types := [
      .entity { name := some "E", properties := [
        { name := some "id", typeText := some "int", role := .primaryKey }] }] }),
    ("c", { name := some "C", imports := [
      { source := "c" }, { source := "a" }, { source := "b" },
      { source := "b", localName := some "Again" }] })]

def registryWorkspace : Workspace :=
  (({ primitives := [.builtin "int" .int32] } : Workspace).load registrySources.reader
    ["c"]).workspace

theorem reached_registryWorkspace : Reached registryWorkspace :=
  (Reached.empty [.builtin "int" .int32] {} none).load registrySources.reader ["c"]

/-- The code of the registry. -/
def registryOfRegistries : List RustItem :=
  [.struct ["Repositories for the entities of schema `C`"] ["Default"] "CRegistry"
    [{ name := "b", type := .path ["super", "b", "BRegistry"] },
      { name := "again", type := .path ["super", "b", "BRegistry"] }]]

theorem registryWorkspace_items :
    ∃ a c, registryWorkspace.schemas[0]? = some a ∧ registryWorkspace.schemas[2]? = some c ∧
      registryItems? ⟨registryWorkspace, a⟩ = .ok none ∧
      registryItems? ⟨registryWorkspace, c⟩ = .ok (some registryOfRegistries) := by
  have hfound : (registryWorkspace.schemas[0]?.bind fun a =>
      registryWorkspace.schemas[2]?.map fun c =>
        (registryItems? ⟨registryWorkspace, a⟩, registryItems? ⟨registryWorkspace, c⟩)) =
      some (.ok none, .ok (some registryOfRegistries)) := by cbv
  obtain ⟨a, ha, hfound⟩ := Option.bind_eq_some_iff.1 hfound
  obtain ⟨c, hc, hfound⟩ := Option.map_eq_some_iff.1 hfound
  obtain ⟨hnone, hsome⟩ := Prod.mk.inj hfound
  exact ⟨a, c, ha, hc, hnone, hsome⟩

/-- Only the abstract entity can be reached from the first schema, and so it has no registry; the
third has one for the sake of the second, with a field for each of the two aliases. -/
theorem registry_iff_entity_reached_aliases :
    Reached registryWorkspace ∧ ∃ a c e, registryWorkspace.schemas[0]? = some a ∧
      registryWorkspace.schemas[2]? = some c ∧ ¬registryWorkspace.ReachesEntity a.key ∧
      registryWorkspace.ReachesEntity c.key ∧
      (backend []).emitSchema ⟨registryWorkspace, c⟩ = .ok (some e) ∧
      e.code = RustItem.renderFile c.name registryOfRegistries ∧
      ((registryImports ⟨registryWorkspace, c⟩).map Prod.fst).Nodup := by
  obtain ⟨a, c, ha, hc, hnone, hsome⟩ := registryWorkspace_items
  have hemit : (backend []).emitSchema ⟨registryWorkspace, c⟩ = .ok (some
      (file ⟨registryWorkspace, c⟩ registryOfRegistries
        (registryNotes ⟨registryWorkspace, c⟩))) := backend_emitSchema_of_ok hsome
  have hreached := reached_registryWorkspace
  obtain ⟨hfirst, -⟩ := registry_iff_entity_reached hreached (List.mem_of_getElem? ha) []
  obtain ⟨hthird, hregistry⟩ := registry_iff_entity_reached hreached (List.mem_of_getElem? hc) []
  obtain ⟨-, -, -, -, -, -, -, -, -, -, haliases, -⟩ := hregistry _ hemit
  refine ⟨hreached, a, c, _, ha, hc, hfirst.1 (backend_emitSchema_eq_none_iff.2 hnone), ?_, hemit,
    rfl, haliases⟩
  exact not_not.1 fun hno => by simpa [hemit] using hthird.2 hno

end SchemaGraph
