import SchemaGraph.Proofs.Declaring
import SchemaGraph.Proofs.Inheritance

/-!
The registry of published schemas and the imports between them. Whatever the readers of the loads
have answered, each schema was compiled when exactly the schemas before it were published. So what
it imports has a smaller key, unless it imports itself, and imports of other schemas form no cycle.
-/

namespace SchemaGraph

open Relation

variable {w w' : Workspace} {unit : SourceId} {declaration : Declaration} {s t : Schema}

/-! ### How schemas came about -/

/-- The schema was compiled from the declaration when exactly the schemas before it were
published. -/
def Schema.CompiledFrom (w : Workspace) (s : Schema) (declaration : Declaration) : Prop :=
  ∃ v v', v.Layered ∧ v.Flattened ∧ v.schemas = w.schemas.take s.key ∧
    Compiles v s.source declaration s v'

theorem Schema.CompiledFrom.publish (h : s.CompiledFrom w declaration)
    (hs : w.schemas[s.key]? = some s) (t : Schema) : s.CompiledFrom (w.publish t) declaration := by
  obtain ⟨v, v', hv, hflat, htake, hc⟩ := h
  have hle : s.key ≤ w.schemas.length := Nat.le_of_lt (List.getElem?_eq_some_iff.1 hs).1
  refine ⟨v, v', hv, hflat, ?_, hc⟩
  rw [htake, Workspace.publish, List.take_append_of_le_length hle]

theorem Compiles.compiledFrom (h : Compiles w unit declaration s w') (hw : w.Layered)
    (hflat : w.Flattened) : s.CompiledFrom w' declaration := by
  have htake : w.schemas = w'.schemas.take s.key := by
    rw [h.eq_publish, h.key_eq]
    exact (List.take_left' rfl).symm
  have hsource := h.source_eq
  subst hsource
  exact ⟨w, w', hw, hflat, htake, h⟩

theorem Reached.compiledFrom (h : Reached w) :
    ∀ s ∈ w.schemas, ∃ declaration, s.CompiledFrom w declaration := by
  suffices hall : (w.Layered ∧ w.Flattened) ∧
      ∀ s ∈ w.schemas, ∃ declaration, s.CompiledFrom w declaration from hall.2
  refine h.induction (P := fun w => (w.Layered ∧ w.Flattened) ∧
    ∀ s ∈ w.schemas, ∃ declaration, s.CompiledFrom w declaration) ?_ ?_
  · intro primitives containers enumDefault
    exact ⟨(Reached.empty primitives containers enumDefault).layered_flattened, by simp⟩
  · rintro w unit declaration s w' ⟨⟨hlayered, hflat⟩, hall⟩ hc
    have hlayered' := hc.layered hlayered
    refine ⟨⟨hlayered', hc.flattened hlayered hlayered' hflat⟩, fun t ht => ?_⟩
    rw [hc.eq_publish] at ht ⊢
    rcases List.mem_append.1 ht with ht | ht
    · obtain ⟨d, hd⟩ := hall t ht
      exact ⟨d, hd.publish (hlayered.indexed.mem_iff.1 ht) s⟩
    · obtain rfl := List.mem_singleton.1 ht
      rw [← hc.eq_publish]
      exact ⟨declaration, hc.compiledFrom hlayered hflat⟩

/-! ### Imports -/

/-- A published schema imports a schema other than itself. -/
def Workspace.Imports (w : Workspace) (a b : SchemaKey) : Prop :=
  ∃ s, w.schemas[a]? = some s ∧ b ∈ s.imports.map Prod.snd ∧ b ≠ a

/-- The schema with this key is the one that a declared import is of, and was published no later
than the schema that imports it: at the same time only if it is that schema itself. -/
structure Declaration.Import.LeadsTo (w : Workspace) (s : Schema) (i : Declaration.Import)
    (key : SchemaKey) : Prop where
  published : ∃ t, w.schemas[key]? = some t ∧ t.source = i.source
  le : key ≤ s.key
  self_iff : key = s.key ↔ i.source = s.source

/-- The imports of a schema are those of the declaration that it was compiled from. -/
theorem Compiles.declared (h : Compiles w unit declaration s w') :
    List.Forall₂ (Declaration.Import.StandsFor w unit s.name) declaration.imports s.imports ∧
      (s.imports.map Prod.fst).Nodup ∧ s.typeNames.Nodup := by
  obtain ⟨draft, hdraft, hlinked⟩ := h.exists_draft
  have hdrafts := Draft.ofDeclaration_eq_ok.1 hdraft
  refine ⟨?_, ?_, ?_⟩
  · rw [hlinked.imports, hlinked.name]
    exact hdrafts.imports
  · rw [hlinked.imports]
    exact hdrafts.nodup_aliases
  · rw [hlinked.typeNames_eq]
    exact hdrafts.nodup_names

/-- What a unit imports is published when it is compiled, or is the unit itself. -/
theorem Declaration.Import.StandsFor.leadsTo {v v' : Workspace} {i : Declaration.Import}
    {entry : String × SchemaKey} (hi : i.StandsFor v s.source s.name entry)
    (hs : w.schemas[s.key]? = some s) (hv : v.Indexed) (htake : v.schemas = w.schemas.take s.key)
    (hc : Compiles v s.source declaration s v') : i.LeadsTo w s entry.2 := by
  cases hi with
  | self hsource _ =>
      rw [← hc.key_eq]
      exact ⟨⟨s, hs, hsource.symm⟩, Nat.le_refl _, iff_of_true rfl hsource⟩
  | @published _ t hsource ht _ =>
      obtain ⟨hget, ht'⟩ := hv.bySource?_eq_some.1 ht
      obtain ⟨hlt, hget⟩ := Workspace.getElem?_of_eq_take htake hget
      exact ⟨⟨t, hget, ht'⟩, Nat.le_of_lt hlt, iff_of_false (Nat.ne_of_lt hlt) hsource⟩

theorem Schema.CompiledFrom.leadsTo (h : s.CompiledFrom w declaration)
    (hs : w.schemas[s.key]? = some s) :
    List.Forall₂ (fun i entry => Declaration.Import.LeadsTo w s i entry.2)
      declaration.imports s.imports := by
  obtain ⟨v, v', hv, -, htake, hc⟩ := h
  exact hc.declared.1.imp fun i entry hi => hi.leadsTo hs hv.indexed htake hc

theorem Workspace.Imports.lt (hw : w.Indexed)
    (hall : ∀ s ∈ w.schemas, ∃ declaration, s.CompiledFrom w declaration) {a b : SchemaKey}
    (h : w.Imports a b) : b < a := by
  obtain ⟨s, hs, hb, hne⟩ := h
  obtain ⟨entry, hentry, rfl⟩ := List.mem_map.1 hb
  obtain ⟨declaration, hcompiled⟩ := hall s (List.mem_of_getElem? hs)
  obtain rfl := hw.key_eq a s hs
  obtain ⟨i, -, hleads⟩ := exists_of_forall₂_right (hcompiled.leadsTo hs) hentry
  exact Nat.lt_of_le_of_ne hleads.le hne

/-! ### The registry -/

/-- A schema is found at its key, and the indices lead to exactly the published schemas, no two of
which have one source or one name. The aliases of a schema differ, each stands for the schema of the
source that the import declares, and that has a smaller key unless the import is of the schema
itself. So imports of other schemas form no cycle. -/
theorem registry_consistent (h : Reached w) :
    (∀ (key : SchemaKey) (s : Schema), w.schemas[key]? = some s → s.key = key) ∧
    (∀ source s, w.bySource? source = some s ↔ s ∈ w.schemas ∧ s.source = source) ∧
    (∀ name s, w.byName? name = some s ↔ s ∈ w.schemas ∧ s.name = name) ∧
    (w.schemas.map fun s => s.source).Nodup ∧ (w.schemas.map fun s => s.name).Nodup ∧
    (∀ s ∈ w.schemas, (s.imports.map Prod.fst).Nodup ∧
      ∃ declaration, s.CompiledFrom w declaration ∧
        List.Forall₂ (fun i entry => Declaration.Import.LeadsTo w s i entry.2)
          declaration.imports s.imports) ∧
    ∀ key, ¬TransGen w.Imports key key := by
  have hindexed := h.indexed
  have hcompiled := h.compiledFrom
  refine ⟨hindexed.key_eq, fun source s => ?_, fun name s => ?_, hindexed.nodup_sources,
    hindexed.nodup_names, fun s hs => ?_, fun key hcycle => ?_⟩
  · rw [hindexed.mem_iff, hindexed.bySource?_eq_some]
  · rw [hindexed.mem_iff, hindexed.byName?_eq_some]
  · obtain ⟨declaration, hs'⟩ := hcompiled s hs
    refine ⟨?_, declaration, hs', hs'.leadsTo (hindexed.mem_iff.1 hs)⟩
    obtain ⟨v, v', -, -, -, hc⟩ := hs'
    exact hc.declared.2.1
  · have hlt : ∀ b, TransGen w.Imports key b → b < key := fun b hb => by
      induction hb with
      | single hb => exact hb.lt hindexed hcompiled
      | tail _ hbc ih => exact (hbc.lt hindexed hcompiled).trans ih
    exact Nat.lt_irrefl key (hlt key hcycle)

/-- A schema that imports itself; and, read later, when the first source declares something else, a
schema that imports both the first and itself. -/
def selfImportingSources : SourceTable :=
  [("a", { name := some "A", imports := [{ source := "a", localName := some "Me" }] })]

def laterSources : SourceTable :=
  [("a", { name := some "Z" }),
    ("b", { name := some "B", imports := [{ source := "b" }, { source := "a" }] })]

theorem registry_consistent_later :
    let w := ((({ primitives := [] } : Workspace).load selfImportingSources.reader
      ["a"]).workspace.load laterSources.reader ["b"]).workspace
    Reached w ∧ w.schemas.map (fun s => s.imports) = [[("Me", 0)], [("B", 1), ("A", 0)]] ∧
      (w.bySource? "b").map (fun s => s.key) = some 1 ∧
      (w.byName? "A").map (fun s => s.source) = some "a" ∧
      (w.schemas.map fun s => s.name).Nodup ∧ ¬TransGen w.Imports 1 1 := by
  intro w
  have hreached : Reached w := ((Reached.empty [] {} none).load selfImportingSources.reader
    ["a"]).load laterSources.reader ["b"]
  have hfound : (w.schemas.map fun s => s.imports, (w.bySource? "b").map fun s => s.key,
      (w.byName? "A").map fun s => s.source) =
      ([[("Me", 0)], [("B", 1), ("A", 0)]], some 1, some "a") := by
    unfold w
    cbv
  simp only [Prod.mk.injEq] at hfound
  obtain ⟨himports, hkey, hsource⟩ := hfound
  obtain ⟨-, -, -, -, hnames, -, hacyclic⟩ := registry_consistent hreached
  exact ⟨hreached, himports, hkey, hsource, hnames, hacyclic 1⟩

end SchemaGraph
