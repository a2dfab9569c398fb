import SchemaGraph.Proofs.MemberNames
import SchemaGraph.Proofs.WellFormed

/-!
The names that the code of a schema defines. Types keep their names, which differ, and every entity
and the schema itself add a name that is made from theirs. Made names are never compared with
declared ones: a type can be declared under the name of an alias or of the registry. Likewise the
modules of two schemas differ just if the names of the schemas do in snake case.
-/

namespace SchemaGraph

open RustNames RustSource

/-- The name that an item brings into its module. -/
def RustItem.definedName? : RustItem → Option String
  | .struct _ _ name _ | .tupleAlias _ name _ | .trait _ name _ _ | .enum _ _ _ name _ => some name
  | .keyAccessor .. | .traitImpl .. | .valueAccessor .. | .inserters .. => none

/-! ### Emitted code -/

namespace SchemaView

variable (v : SchemaView) (derives : List String)

/-- The types of the schema that there is code for. -/
def emittedTypes : List LinkedType :=
  ((v.schema.refs.zip v.schema.types).filter fun e =>
    (typeItems v derives e.1 e.2).toOption.isSome).map Prod.snd

/-- The items of the registry, if there is code for one. -/
def registryFile? : Option (List RustItem) :=
  (registryItems? v).toOption.join

/-- The items of each file that is emitted for the schema. -/
def files : List (List RustItem) :=
  ((v.schema.refs.zip v.schema.types).filterMap fun e => (typeItems v derives e.1 e.2).toOption) ++
    v.registryFile?.toList

/-- All names that the code for the schema defines. -/
def definedNames : List String :=
  (v.files derives).flatMap fun items => items.filterMap RustItem.definedName?

end SchemaView

/-- The name that is made up for an entity. -/
def madeNames (t : LinkedType) : List String :=
  if t.kind = .entity then [keyAlias t.name] else []

section Emitted

variable {v : SchemaView} {derives : List String}

theorem typeResult_code (r : TypeRef) (t : LinkedType) :
    ((backend derives).typeResult v r t).code =
      (typeItems v derives r t).toOption.map (RustItem.renderFile v.schema.name) := by
  simp only [Backend.typeResult, backend]
  cases typeItems v derives r t <;> rfl

theorem schemaResult?_code :
    ((backend derives).schemaResult? v).toList.filterMap EmissionResult.code =
      v.registryFile?.toList.map (RustItem.renderFile v.schema.name) := by
  simp only [Backend.schemaResult?, backend, SchemaView.registryFile?]
  rcases registryItems? v with f | _ | items <;> rfl

theorem map_snd_zip_refs {β ι τ : Type} (s : SchemaOf β ι τ) :
    (s.refs.zip s.types).map Prod.snd = s.types :=
  List.map_snd_zip (by simp [SchemaOf.refs])

theorem mapIdx_eq_zip_refs {β ι τ α : Type} (s : SchemaOf β ι τ)
    (f : TypeRef → UserType β ι τ → α) :
    (s.types.mapIdx fun i t => f ⟨s.key, i⟩ t) = (s.refs.zip s.types).map fun e => f e.1 e.2 := by
  refine List.ext_getElem (by simp [SchemaOf.refs]) fun i hi _ => ?_
  simp [SchemaOf.refs]

/-- The code in the report for a schema is the text of the files. -/
theorem schemaResults_code :
    ((backend derives).schemaResults v).filterMap EmissionResult.code =
      (v.files derives).map (RustItem.renderFile v.schema.name) := by
  rw [Backend.schemaResults, mapIdx_eq_zip_refs, List.filterMap_append, schemaResult?_code,
    SchemaView.files, List.map_append, List.filterMap_map, List.map_filterMap]
  congr 2
  funext e
  exact typeResult_code e.1 e.2

/-! ### Defined names -/

theorem definedNames_compositeItems {r : TypeRef} {t : LinkedType} {c : LinkedComposite}
    {items : List RustItem} (h : compositeItems v derives r t c = .ok items) :
    items.filterMap RustItem.definedName? = spelled t.name :: madeNames t := by
  obtain ⟨id, fields, _, rfl, hid, -, key, impls, rfl, himpls, hkey⟩ := compositeItems_ok h
  obtain ⟨-, rfl⟩ := identifier_eq_ok.1 hid
  have himplNames : impls.filterMap RustItem.definedName? = [] := by
    refine List.filterMap_eq_nil_iff.2 fun item hitem => ?_
    obtain ⟨i, -, hi⟩ := exists_of_forall₂_right (mapM_eq_ok.1 himpls) hitem
    obtain ⟨path, getters, -, rfl, -⟩ := interfaceImpl_ok hi
    rfl
  have hkeyNames : key.filterMap RustItem.definedName? = madeNames t := by
    rw [madeNames]
    split at hkey
    · rename_i hentity
      obtain ⟨docs, types, parts, rfl, -⟩ := keyItems_ok hkey
      rw [if_pos hentity]
      rfl
    · rename_i hother
      obtain rfl := pure_eq_ok.1 hkey
      rw [if_neg hother]
      rfl
  show spelled t.name :: (key ++ impls).filterMap RustItem.definedName? = _
  rw [List.filterMap_append, himplNames, hkeyNames, List.append_nil]

/-- The code of a type defines the name of the type, and an alias for the key of an entity. -/
theorem definedNames_typeItems {r : TypeRef} {t : LinkedType} {items : List RustItem}
    (h : typeItems v derives r t = .ok items) :
    items.filterMap RustItem.definedName? = spelled t.name :: madeNames t := by
  rcases typeItems_cases h with ⟨c, -, -, h⟩ | ⟨c, -, hkind, h⟩ | ⟨e, -, hkind, h⟩
  · exact definedNames_compositeItems h
  · obtain ⟨docs, id, supertraits, getters, rfl, hid, -⟩ := interfaceItems_ok h
    obtain ⟨-, rfl⟩ := identifier_eq_ok.1 hid
    rw [madeNames, if_neg (by simp [hkind])]
    rfl
  · obtain ⟨repr?, id, variants, rest, rfl, hid, -, -, hrest⟩ := enumItems_ok h
    obtain ⟨-, rfl⟩ := identifier_eq_ok.1 hid
    rw [madeNames, if_neg (by simp [hkind])]
    rcases hrest with ⟨-, -, rfl⟩ | ⟨-, repr, -, -, rfl⟩ <;> rfl

theorem definedNames_registry {items : List RustItem} (h : v.registryFile? = some items) :
    items.filterMap RustItem.definedName? = [spelled (registryName v.schema.name)] := by
  have hitems : registryItems? v = .ok (some items) :=
    toOption_eq_some.1 (Option.join_eq_some_iff.1 h)
  obtain ⟨docs, id, fields, own, rest, maps, hid, -, -, -, -, -, rfl⟩ := registryItems?_ok hitems
  obtain ⟨-, rfl⟩ := identifier_eq_ok.1 hid
  cases maps <;> rfl

theorem definedNames_eq : v.definedNames derives =
    ((v.emittedTypes derives).flatMap fun t => spelled t.name :: madeNames t) ++
      v.registryFile?.toList.map fun _ => spelled (registryName v.schema.name) := by
  have htypes : ∀ es : List (TypeRef × LinkedType),
      ((es.filterMap fun e => (typeItems v derives e.1 e.2).toOption).flatMap
        fun items => items.filterMap RustItem.definedName?) =
      ((es.filter fun e => (typeItems v derives e.1 e.2).toOption.isSome).map Prod.snd).flatMap
        fun t => spelled t.name :: madeNames t := by
    intro es
    induction es with
    | nil => rfl
    | cons e es ih =>
        cases he : typeItems v derives e.1 e.2 with
        | error f => simpa [he, Except.toOption] using ih
        | ok items =>
            have hnames := definedNames_typeItems he
            simpa [he, Except.toOption, hnames] using ih
  rw [SchemaView.definedNames, SchemaView.files, List.flatMap_append, htypes,
    SchemaView.emittedTypes]
  cases hregistry : v.registryFile? with
  | none => rfl
  | some items => simp [definedNames_registry hregistry]

end Emitted

/-! ### Made names -/

section MadeNames

variable {name entity schema : String}

theorem eq_of_spelled_eq {other : String} (h : '#' ∉ name.toList) (h' : '#' ∉ other.toList)
    (hplain : other ∉ keywords) : spelled name = other ↔ name = other := by
  have hother : spelled other = other := if_neg hplain
  rw [← spelled_inj h h', hother]

theorem keyAlias_notMem_keywords : keyAlias entity ∉ keywords := fun hmem =>
  absurd (isLower_of_mem_keywords hmem 'K' (by simp [keyAlias])) (by decide)

theorem registryName_notMem_keywords : registryName schema ∉ keywords := fun hmem =>
  absurd (isLower_of_mem_keywords hmem 'R' (by simp [registryName])) (by decide)

/-- The name of an alias never is the name of a registry. -/
theorem keyAlias_ne_registryName : keyAlias entity ≠ registryName schema := by
  intro h
  have hends : entity.toList ++ "Key".toList = (schema.toList ++ "Regis".toList) ++ "try".toList := by
    rw [← String.toList_append, List.append_assoc]
    exact (congrArg String.toList h).trans String.toList_append
  exact absurd (List.append_inj_right' hends rfl) (by decide)

end MadeNames

/-! ### Clashes -/

section Clashes

theorem mem_madeNames {t : LinkedType} {name : String} :
    name ∈ madeNames t ↔ t.kind = .entity ∧ name = keyAlias t.name := by
  rw [madeNames]
  split <;> simp [*]

theorem nodup_madeNames {ts : List LinkedType} (hnodup : (ts.map UserType.name).Nodup) :
    (ts.flatMap madeNames).Nodup := by
  refine List.nodup_flatMap.2 ⟨fun t _ => ?_, (List.pairwise_map.1 hnodup).imp fun hne => ?_⟩
  · rw [madeNames]
    split <;> simp
  · rw [Function.onFun, List.disjoint_left]
    intro name hname hname'
    have heq := (mem_madeNames.1 hname).2.symm.trans (mem_madeNames.1 hname').2
    exact hne ((String.append_left_inj _).1 heq)

/-- Among types of different names, one is spelled like the name made up for another just if it is
declared under that name. -/
theorem nodup_spelled_madeNames_iff {ts : List LinkedType} (hnodup : (ts.map UserType.name).Nodup)
    (hplain : ∀ t ∈ ts, '#' ∉ t.name.toList) :
    (ts.flatMap fun t => spelled t.name :: madeNames t).Nodup ↔
      ∀ t ∈ ts, ∀ e ∈ ts, e.kind = .entity → t.name ≠ keyAlias e.name := by
  have hspelled : (ts.map fun t => spelled t.name).Nodup := by
    refine List.pairwise_map.2 ((List.pairwise_map.1 hnodup).imp_of_mem fun ht ht' hne heq => ?_)
    exact hne ((spelled_inj (hplain _ ht) (hplain _ ht')).1 heq)
  -- neither the spelled names nor the made ones clash among themselves
  rw [← (List.map_append_flatMap_perm ts _ _).nodup_iff, List.nodup_append, List.forall_mem_map]
  simp only [hspelled, nodup_madeNames hnodup, true_and, List.mem_flatMap, mem_madeNames]
  refine forall₂_congr fun t ht => ⟨fun h e he hentity heq => ?_, fun h name => ?_⟩
  · refine h _ ⟨e, he, hentity, rfl⟩ ((eq_of_spelled_eq (hplain t ht) ?_ ?_).2 heq)
    · exact heq ▸ hplain t ht
    · exact keyAlias_notMem_keywords
  · rintro ⟨e, he, hentity, rfl⟩ heq
    refine h e he hentity ((eq_of_spelled_eq (hplain t ht) ?_ keyAlias_notMem_keywords).1 heq)
    simpa [keyAlias] using hplain e he

variable {v : SchemaView} {derives : List String}

theorem SchemaView.emittedTypes_sublist : (v.emittedTypes derives).Sublist v.schema.types := by
  have hsub := (List.filter_sublist (p := fun e : TypeRef × LinkedType =>
    (typeItems v derives e.1 e.2).toOption.isSome) (l := v.schema.refs.zip v.schema.types)).map
      Prod.snd
  rwa [map_snd_zip_refs] at hsub

/-- Between the names of types, the aliases and the name of the registry there are no other clashes
than that a type is declared under one of the made names. -/
theorem nodup_definedNames_iff (hnodup : v.schema.typeNames.Nodup)
    (hnames : ∀ t ∈ v.schema.types, Text.isIdentifier t.name = true)
    (hschema : Text.isIdentifier v.schema.name = true) :
    (v.definedNames derives).Nodup ↔
      (∀ t ∈ v.emittedTypes derives, ∀ e ∈ v.emittedTypes derives, e.kind = .entity →
        t.name ≠ keyAlias e.name) ∧
      (v.registryFile?.isSome →
        ∀ t ∈ v.emittedTypes derives, t.name ≠ registryName v.schema.name) := by
  have hsub : (v.emittedTypes derives).Sublist v.schema.types := SchemaView.emittedTypes_sublist
  have hplain : ∀ t ∈ v.emittedTypes derives, '#' ∉ t.name.toList := fun t ht =>
    Text.rawMark_notMem_identifier (hnames t (hsub.subset ht))
  have hregistry : '#' ∉ (registryName v.schema.name).toList := by
    simpa [registryName] using Text.rawMark_notMem_identifier hschema
  have hspelled : spelled (registryName v.schema.name) = registryName v.schema.name :=
    if_neg registryName_notMem_keywords
  rw [definedNames_eq, List.nodup_append,
    nodup_spelled_madeNames_iff (hnodup.sublist (hsub.map _)) hplain, hspelled]
  refine and_congr_right fun _ => ?_
  cases v.registryFile? with
  | none => simp
  | some items =>
      simp only [Option.toList_some, List.map_singleton, List.nodup_singleton, true_and,
        List.mem_singleton, forall_eq, Option.isSome_some, forall_const]
      constructor
      · intro h t ht heq
        refine h (spelled t.name) (List.mem_flatMap.2 ⟨t, ht, List.mem_cons_self⟩) ?_
        exact (eq_of_spelled_eq (hplain t ht) hregistry registryName_notMem_keywords).2 heq
      · intro h name hname heq
        obtain ⟨t, ht, hname⟩ := List.mem_flatMap.1 hname
        rcases List.mem_cons.1 hname with rfl | hmade
        · refine h t ht ?_
          exact (eq_of_spelled_eq (hplain t ht) hregistry registryName_notMem_keywords).1 heq
        · rw [(mem_madeNames.1 hmade).2] at heq
          exact keyAlias_ne_registryName heq

end Clashes

/-- The code in the report for a published schema defines each name once, just if no type with code
is declared under the name of the alias for another or, if there is a registry, under the name of the
registry. The modules of two published schemas are the same just if the names of the schemas are in
snake case, so that these differ in case and in underscores only. -/
theorem defined_names_distinct_iff {w : Workspace} (h : Reached w) {s : Schema} (hs : s ∈ w.schemas)
    (derives : List String) :
    ((backend derives).schemaResults ⟨w, s⟩).filterMap EmissionResult.code =
        ((SchemaView.mk w s).files derives).map (RustItem.renderFile s.name) ∧
    (((SchemaView.mk w s).definedNames derives).Nodup ↔
      (∀ t ∈ (SchemaView.mk w s).emittedTypes derives,
        ∀ e ∈ (SchemaView.mk w s).emittedTypes derives, e.kind = .entity →
          t.name ≠ keyAlias e.name) ∧
      ((SchemaView.mk w s).registryFile?.isSome →
        ∀ t ∈ (SchemaView.mk w s).emittedTypes derives, t.name ≠ registryName s.name)) ∧
    ∀ s' ∈ w.schemas, ∀ m m', moduleName s.name = .ok m → moduleName s'.name = .ok m' →
      (m = m' ↔ snakeCase s.name = snakeCase s'.name) ∧
      (m = m' → folded s.name.toList = folded s'.name.toList) := by
  have hnames := h.permitted s hs
  refine ⟨schemaResults_code, ?_, fun s' hs' m m' hm hm' => ?_⟩
  · exact nodup_definedNames_iff (h.wellFormed.nodup_typeNames s hs)
      (fun t ht => (hnames.types t ht).name.isIdentifier) hnames.name.isIdentifier
  · have hsnake : m = m' → snakeCase s.name = snakeCase s'.name := by
      rintro rfl
      exact eq_of_snakeName hnames.name.isIdentifier (h.permitted s' hs').name.isIdentifier hm hm'
    refine ⟨⟨hsnake, fun heq => ?_⟩, fun heq => folded_eq_of_snakeCase (hsnake heq)⟩
    rw [moduleName, heq] at hm
    exact Except.ok.inj (hm.symm.trans hm')

/-! ### A schema with clashing names -/

/-- Two schemas for one module. In the first, structs have the names of the alias for the key of the
entity and of the registry. -/
def namesakeSources : SourceTable :=
  [("a", { name := some "FooBar", types := [
      .entity { name := some "Country", properties := [
        { name := some "id", typeText := some "int", role := .primaryKey }] },
      .struct { name := some "CountryKey" }, .struct { name := some "FooBarRegistry" }] }),
    ("b", { name := some "foo_bar", types := [
      .entity { name := some "City", properties := [
        { name := some "id", typeText := some "int", role := .primaryKey }] }] })]

def namesakeWorkspace : Workspace :=
  (({ primitives := [.builtin "int" .int32] } : Workspace).load namesakeSources.reader
    ["a", "b"]).workspace

theorem reached_namesakeWorkspace : Reached namesakeWorkspace :=
  (Reached.empty [.builtin "int" .int32] {} none).load namesakeSources.reader ["a", "b"]

theorem namesakeWorkspace_names :
    ∃ s s', namesakeWorkspace.schemas = [s, s'] ∧ moduleName s.name = .ok "foo_bar" ∧
      moduleName s'.name = .ok "foo_bar" ∧
      (SchemaView.mk namesakeWorkspace s).definedNames [] =
        ["Country", "CountryKey", "CountryKey", "FooBarRegistry", "FooBarRegistry"] ∧
      ((SchemaView.mk namesakeWorkspace s').emittedTypes []).map UserType.name = ["City"] ∧
      s'.name = "foo_bar" := by
  have hfound : (namesakeWorkspace.schemas.map fun s => (moduleName s.name,
      (SchemaView.mk namesakeWorkspace s).definedNames [],
      ((SchemaView.mk namesakeWorkspace s).emittedTypes []).map UserType.name, s.name)) =
      [(.ok "foo_bar", ["Country", "CountryKey", "CountryKey", "FooBarRegistry", "FooBarRegistry"],
          ["Country", "CountryKey", "FooBarRegistry"], "FooBar"),
        (.ok "foo_bar", ["City", "CityKey", "foo_barRegistry"], ["City"], "foo_bar")] := by cbv
  obtain ⟨s, ss, hs, hfirst, hrest⟩ := List.map_eq_cons_iff.1 hfound
  obtain ⟨s', ss, rfl, hsecond, hrest⟩ := List.map_eq_cons_iff.1 hrest
  obtain rfl := List.map_eq_nil_iff.1 hrest
  simp only [Prod.mk.injEq] at hfirst hsecond
  exact ⟨s, s', hs, hfirst.1, hsecond.1, hfirst.2.1, hsecond.2.2.1, hsecond.2.2.2⟩

/-- The first schema defines two names twice, and the two schemas have one module. -/
theorem defined_names_clash :
    Reached namesakeWorkspace ∧ ∃ s s', namesakeWorkspace.schemas = [s, s'] ∧
      ¬((SchemaView.mk namesakeWorkspace s).definedNames []).Nodup ∧
      moduleName s.name = moduleName s'.name := by
  obtain ⟨s, s', hs, hmodule, hmodule', hnames, -⟩ := namesakeWorkspace_names
  refine ⟨reached_namesakeWorkspace, s, s', hs, ?_, hmodule.trans hmodule'.symm⟩
  rw [hnames]
  decide

/-- The second schema defines no name twice, since its only type is neither. -/
theorem defined_names_distinct_iff_namesakes :
    Reached namesakeWorkspace ∧ ∃ s s', s ∈ namesakeWorkspace.schemas ∧
      s' ∈ namesakeWorkspace.schemas ∧
      ((SchemaView.mk namesakeWorkspace s').definedNames []).Nodup ∧
      snakeCase s'.name = snakeCase s.name := by
  obtain ⟨s, s', hs, hmodule, hmodule', -, htypes, hname⟩ := namesakeWorkspace_names
  have hmem : s ∈ namesakeWorkspace.schemas := by simp [hs]
  have hmem' : s' ∈ namesakeWorkspace.schemas := by simp [hs]
  obtain ⟨-, hnodup, hmodules⟩ := defined_names_distinct_iff reached_namesakeWorkspace hmem' []
  have hcity : ∀ t ∈ (SchemaView.mk namesakeWorkspace s').emittedTypes [], t.name = "City" :=
    fun t ht => by simpa [htypes] using List.mem_map_of_mem (f := UserType.name) ht
  refine ⟨reached_namesakeWorkspace, s, s', hmem, hmem', hnodup.2 ⟨fun t ht e he _ => ?_,
    fun _ t ht => ?_⟩, ((hmodules s hmem _ _ hmodule' hmodule).1.1 rfl)⟩
  · rw [hcity t ht, hcity e he]
    decide
  · rw [hcity t ht, hname]
    decide

end SchemaGraph
