import SchemaGraph.Proofs.TypePaths

/-!
Which types are conflated by their Rust types. Two paths are the same if they have the same modules
and the same word at the end, and the names that a schema declares are not all that words are made
from: there are the words for built-in kinds and the aliases for keys, and a module is a name in snake
case. Wherever these meet, two types look alike; nowhere else do they.
-/

namespace SchemaGraph

open RustNames RustSource Text

/-- No two primitives, and no two types of a schema, have one name. Names of types and schemas are
identifiers, and those of types are not names of primitives. The namespaces of custom primitives are
well-formed. -/
structure Workspace.WellNamed (w : Workspace) : Prop where
  nodup_primitives : w.primitives.names.Nodup
  namespaces : ∀ p ∈ w.primitives, p.kind = .custom → isNamespace p.namespace = true
  schemas : ∀ s ∈ w.schemas, isIdentifier s.name = true
  permits : ∀ r t, w.type? r = some t → w.Permits t.name
  eq_of_name : ∀ r r' t t', w.type? r = some t → w.type? r' = some t' → r.schema = r'.schema →
    t.name = t'.name → r = r'

/-- No two handles in a schema stand for types of one name. -/
theorem Reached.eq_of_typeName {w : Workspace} (h : Reached w) {r r' : TypeRef} {t t' : LinkedType}
    (ht : w.type? r = some t) (ht' : w.type? r' = some t') (hschema : r.schema = r'.schema)
    (hname : t.name = t'.name) : r = r' := by
  obtain ⟨schema, i⟩ := r
  obtain ⟨schema', j⟩ := r'
  obtain rfl : schema = schema' := hschema
  obtain ⟨s, hs, ht⟩ := Option.bind_eq_some_iff.1 ht
  obtain ⟨s', hs', ht'⟩ := Option.bind_eq_some_iff.1 ht'
  obtain rfl := Option.some.inj (hs.symm.trans hs')
  have hnodup := h.wellFormed.nodup_typeNames s (List.mem_of_getElem? hs)
  obtain rfl : i = j := position_eq_of_name hnodup ht ht' hname
  rfl

theorem Setup.Reaches.wellNamed {setup : Setup} {w : Workspace} (h : setup.Reaches w)
    (hcustom : ∀ p ∈ setup.custom, p.kind = .custom → isNamespace p.namespace = true) :
    w.WellNamed := by
  have hreached := h.reached
  obtain ⟨hprimitives, hnodup⟩ := h.primitives_eq
  refine ⟨hnodup, fun p hp hkind => ?_, fun s hs => (hreached.permitted s hs).name.isIdentifier,
    fun r t ht => (hreached.permitted_type ht).name, fun r r' t t' => hreached.eq_of_typeName⟩
  rw [hprimitives, Setup.primitives] at hp
  rcases List.mem_append.1 hp with hp | hp
  · obtain ⟨k, -, rfl⟩ := List.mem_map.1 hp
    rfl
  · exact hcustom p hp hkind

/-! ### Handles -/

theorem TypeKind.dataType_ne_primitive {k : TypeKind} {r : TypeRef} {i : PrimitiveId} :
    k.dataType r ≠ .primitive i := by
  cases k <;> nofun

/-! ### Clashes -/

namespace SchemaView

variable (v : SchemaView)

/-- The schemas of the types have one module: they are one schema, or both are imported and their
names have the same snake case. -/
def SameModule (r r' : TypeRef) : Prop :=
  r.schema = r'.schema ∨ r.schema ≠ v.schema.key ∧ r'.schema ≠ v.schema.key ∧
    snakeCase (v.schemaName r) = snakeCase (v.schemaName r')

/-- Two types are shown alike though they differ. -/
inductive Clash : DataType → DataType → Prop
  /-- The same built-in kind has two names. -/
  | kind {i j : PrimitiveId} {p q : Primitive} :
      v.workspace.primitives[i]? = some p → v.workspace.primitives[j]? = some q → i ≠ j →
      p.kind = q.kind → p.kind ≠ .custom → Clash (.primitive i) (.primitive j)
  /-- A custom primitive without a namespace has the name of a built-in type. -/
  | scalar {i j : PrimitiveId} {p q : Primitive} :
      v.workspace.primitives[i]? = some p → v.workspace.primitives[j]? = some q →
      q.kind = .custom → q.namespace = "" → p.kind.scalar? = some q.name →
      Clash (.primitive i) (.primitive j)
  /-- A type of the emitted schema has the name of a built-in type. -/
  | scalarType {i : PrimitiveId} {p : Primitive} {r : TypeRef} {t : LinkedType} :
      v.workspace.primitives[i]? = some p → v.workspace.type? r = some t →
      r.schema = v.schema.key → t.kind ≠ .entity → p.kind.scalar? = some t.name →
      Clash (.primitive i) (t.kind.dataType r)
  /-- A custom primitive without a namespace has the name of an alias in the emitted schema. -/
  | customAlias {i : PrimitiveId} {p : Primitive} {r : TypeRef} {t : LinkedType} :
      v.workspace.primitives[i]? = some p → v.workspace.type? r = some t →
      p.kind = .custom → p.namespace = "" → r.schema = v.schema.key → t.kind = .entity →
      p.name = keyAlias t.name → Clash (.primitive i) (.entity r)
  /-- A type has the name of the alias for the key of an entity in the same module. -/
  | typeAlias {r r' : TypeRef} {t t' : LinkedType} :
      v.workspace.type? r = some t → v.workspace.type? r' = some t' → v.SameModule r r' →
      t.kind = .entity → t'.kind ≠ .entity → t'.name = keyAlias t.name →
      Clash (.entity r) (t'.kind.dataType r')
  /-- Two schemas with types of the same name have the same module. -/
  | namesakes {r r' : TypeRef} {t t' : LinkedType} :
      v.workspace.type? r = some t → v.workspace.type? r' = some t' → v.SameModule r r' →
      r ≠ r' → (t.kind = .entity ↔ t'.kind = .entity) → t.name = t'.name →
      Clash (t.kind.dataType r) (t'.kind.dataType r')

/-- The same type, or two that are shown alike. -/
def LooksLike (t t' : DataType) : Prop :=
  t = t' ∨ v.Clash t t' ∨ v.Clash t' t

theorem LooksLike.symm {v : SchemaView} {t t' : DataType} (h : v.LooksLike t t') :
    v.LooksLike t' t :=
  h.imp Eq.symm Or.symm

end SchemaView

/-! ### Words -/

section Words

variable {k k' : PrimitiveKind} {text name entity ns : String}

theorem scalar?_inj (h : k.scalar? = some text) (h' : k'.scalar? = some text) : k = k' := by
  rw [← h'] at h
  cases k <;> cases k' <;> first | rfl | contradiction

theorem scalar?_plain (h : k.scalar? = some text) : '#' ∉ text.toList ∧ text ∉ keywords := by
  cases k <;> cases h <;> decide

theorem not_custom_of_scalar (h : k.scalar? = some text) : k ≠ .custom := by
  rintro rfl
  contradiction

theorem spelled_scalar (h : k.scalar? = some text) : spelled text = text :=
  if_neg (scalar?_plain h).2

theorem spelled_keyAlias : spelled (keyAlias entity) = keyAlias entity :=
  if_neg keyAlias_notMem_keywords

theorem scalar?_ne_keyAlias (h : k.scalar? = some text) : text ≠ keyAlias entity := by
  have hnone : ¬"Key".toList <:+ text.toList := by cases k <;> cases h <;> decide
  rintro rfl
  exact hnone ⟨entity.toList, by rw [keyAlias, String.toList_append]⟩

theorem namespaceModules_eq_nil (h : namespaceModules ns = []) : ns = "" := by
  rw [namespaceModules] at h
  split at h
  · exact String.isEmpty_iff.1 ‹_›
  · simp [segments, pieces_ne_nil] at h

theorem rawMark_notMem_keyAlias (h : isIdentifier entity = true) :
    '#' ∉ (keyAlias entity).toList := by
  simpa [keyAlias] using rawMark_notMem_identifier h

theorem spelled_eq_scalar (h : k.scalar? = some text) (hname : isIdentifier name = true) :
    spelled name = text ↔ name = text :=
  eq_of_spelled_eq (rawMark_notMem_identifier hname) (scalar?_plain h).1 (scalar?_plain h).2

theorem spelled_eq_keyAlias (hname : isIdentifier name = true)
    (hentity : isIdentifier entity = true) : spelled name = keyAlias entity ↔ name = keyAlias entity :=
  eq_of_spelled_eq (rawMark_notMem_identifier hname) (rawMark_notMem_keyAlias hentity)
    keyAlias_notMem_keywords

theorem spelled_inj_identifier (hname : isIdentifier name = true)
    (hother : isIdentifier text = true) : spelled name = spelled text ↔ name = text :=
  spelled_inj (rawMark_notMem_identifier hname) (rawMark_notMem_identifier hother)

end Words

/-! ### Modules -/

section Modules

variable {v : SchemaView} {r r' : TypeRef} {t t' : LinkedType}

theorem modulesTo_eq_nil_iff : v.modulesTo r = [] ↔ r.schema = v.schema.key := by
  rw [SchemaView.modulesTo]
  split <;> simp [*]

theorem modulesTo_ne_nil_imp (h : v.modulesTo r ≠ []) : "super" ∈ v.modulesTo r := by
  rw [SchemaView.modulesTo] at h ⊢
  split at h
  · contradiction
  · rename_i hother
    simp [hother]

/-- A path through a namespace never leads to a type, since it cannot begin like one to another
schema. -/
theorem namespaceModules_eq_modulesTo {ns : String} (hsuper : "super" ∉ namespaceModules ns)
    (h : namespaceModules ns = v.modulesTo r) : ns = "" ∧ r.schema = v.schema.key := by
  have hnil : v.modulesTo r = [] := by
    by_contra hne
    exact hsuper (h ▸ modulesTo_ne_nil_imp hne)
  exact ⟨namespaceModules_eq_nil (h.trans hnil), modulesTo_eq_nil_iff.1 hnil⟩

variable (hv : v.workspace.WellNamed)

include hv

theorem isIdentifier_schemaName (ht : v.workspace.type? r = some t) :
    isIdentifier (v.schemaName r) = true := by
  obtain ⟨s, hs, -⟩ := Option.bind_eq_some_iff.1 ht
  rw [SchemaView.schemaName, hs]
  exact hv.schemas s (List.mem_of_getElem? hs)

theorem modulesTo_eq_iff (ht : v.workspace.type? r = some t)
    (ht' : v.workspace.type? r' = some t') :
    v.modulesTo r = v.modulesTo r' ↔ v.SameModule r r' := by
  have hspelled := spelled_inj (rawMark_notMem_snakeCase (isIdentifier_schemaName hv ht))
    (rawMark_notMem_snakeCase (isIdentifier_schemaName hv ht'))
  rw [SchemaView.SameModule, SchemaView.modulesTo, SchemaView.modulesTo]
  by_cases hown : r.schema = v.schema.key <;> by_cases hown' : r'.schema = v.schema.key
  · simp [hown, hown']
  · simp [hown, hown', Ne.symm hown']
  · simp [hown, hown']
  · rw [if_neg hown, if_neg hown', List.cons.injEq, List.cons.injEq, hspelled]
    have hname : r.schema = r'.schema → v.schemaName r = v.schemaName r' := fun heq => by
      rw [SchemaView.schemaName, heq, ← SchemaView.schemaName]
    constructor
    · exact fun h => .inr ⟨hown, hown', h.2.1⟩
    · rintro (heq | ⟨-, -, hsnake⟩)
      · exact ⟨rfl, congrArg snakeCase (hname heq), rfl⟩
      · exact ⟨rfl, hsnake, rfl⟩

end Modules

/-! ### Types that are shown alike -/

namespace SchemaView

variable {v : SchemaView} {i j : PrimitiveId} {p q : Primitive} {r r' : TypeRef}
  {t t' : LinkedType} {text : String}

theorem Shows.of_primitive {modules : List String} {word : String} {d : DataType}
    (h : v.Shows modules word d) (hd : d = .primitive i)
    (hp : v.workspace.primitives[i]? = some p) :
    p.kind.scalar? = some word ∧ modules = [] ∨
      p.kind = .custom ∧ modules = namespaceModules p.namespace ∧ word = spelled p.name := by
  cases h with
  | scalar hq htext =>
      obtain rfl := DataType.primitive.inj hd
      obtain rfl := Option.some.inj (hp.symm.trans hq)
      exact .inl ⟨htext, rfl⟩
  | custom hq hcustom =>
      obtain rfl := DataType.primitive.inj hd
      obtain rfl := Option.some.inj (hp.symm.trans hq)
      exact .inr ⟨hcustom, rfl, rfl⟩
  | entity ht hkind => contradiction
  | type ht hkind => exact absurd hd TypeKind.dataType_ne_primitive

theorem Shows.of_scalar {modules : List String} {word : String}
    (h : v.Shows modules word (.primitive i)) (hp : v.workspace.primitives[i]? = some p)
    (htext : p.kind.scalar? = some text) : modules = [] ∧ word = text := by
  rcases h.of_primitive rfl hp with ⟨hword, rfl⟩ | ⟨hcustom, -⟩
  · exact ⟨rfl, Option.some.inj (hword.symm.trans htext)⟩
  · exact absurd hcustom (not_custom_of_scalar htext)

theorem Shows.of_custom {modules : List String} {word : String}
    (h : v.Shows modules word (.primitive i)) (hp : v.workspace.primitives[i]? = some p)
    (hcustom : p.kind = .custom) :
    modules = namespaceModules p.namespace ∧ word = spelled p.name := by
  rcases h.of_primitive rfl hp with ⟨htext, -⟩ | ⟨-, hshown⟩
  · exact absurd hcustom (not_custom_of_scalar htext)
  · exact hshown

theorem Shows.of_type {modules : List String} {word : String} {d : DataType}
    (h : v.Shows modules word d) (hd : d = t.kind.dataType r) (ht : v.workspace.type? r = some t) :
    modules = v.modulesTo r ∧
      word = if t.kind = .entity then keyAlias t.name else spelled t.name := by
  cases h with
  | scalar hq htext => exact absurd hd.symm TypeKind.dataType_ne_primitive
  | custom hq hcustom => exact absurd hd.symm TypeKind.dataType_ne_primitive
  | @entity x u hu hkind =>
      obtain ⟨-, rfl⟩ := (TypeKind.dataType_inj (k := .entity)).1 hd
      obtain rfl := Option.some.inj (ht.symm.trans hu)
      exact ⟨rfl, (if_pos hkind).symm⟩
  | @type x u hu hkind =>
      obtain ⟨-, rfl⟩ := TypeKind.dataType_inj.1 hd
      obtain rfl := Option.some.inj (ht.symm.trans hu)
      exact ⟨rfl, (if_neg hkind).symm⟩

theorem Shows.unique {modules modules' : List String} {word word' : String} {d : DataType}
    (h : v.Shows modules word d) (h' : v.Shows modules' word' d) :
    modules = modules' ∧ word = word' := by
  cases h with
  | scalar hp htext =>
      obtain ⟨rfl, rfl⟩ := h'.of_scalar hp htext
      exact ⟨rfl, rfl⟩
  | custom hp hcustom =>
      obtain ⟨rfl, rfl⟩ := h'.of_custom hp hcustom
      exact ⟨rfl, rfl⟩
  | entity ht hkind =>
      obtain ⟨rfl, rfl⟩ := h'.of_type (by rw [hkind]; rfl) ht
      exact ⟨rfl, (if_pos hkind).symm⟩
  | type ht hkind =>
      obtain ⟨rfl, rfl⟩ := h'.of_type rfl ht
      exact ⟨rfl, (if_neg hkind).symm⟩

theorem looksLike_scalars (hp : v.workspace.primitives[i]? = some p)
    (hq : v.workspace.primitives[j]? = some q) (htext : p.kind.scalar? = some text)
    (htext' : q.kind.scalar? = some text) : v.LooksLike (.primitive i) (.primitive j) := by
  by_cases heq : i = j
  · exact .inl (by rw [heq])
  · exact .inr (.inl (.kind hp hq heq (scalar?_inj htext htext') (not_custom_of_scalar htext)))

theorem looksLike_scalar_custom (hp : v.workspace.primitives[i]? = some p)
    (hq : v.workspace.primitives[j]? = some q) (htext : p.kind.scalar? = some text)
    (hkind : q.kind = .custom) (hname : isIdentifier q.name = true)
    (hmodules : namespaceModules q.namespace = []) (hword : spelled q.name = text) :
    v.LooksLike (.primitive i) (.primitive j) := by
  obtain rfl := (spelled_eq_scalar htext hname).1 hword
  exact .inr (.inl (.scalar hp hq hkind (namespaceModules_eq_nil hmodules) htext))

variable (hv : v.workspace.WellNamed)

include hv

theorem looksLike_entities (ht : v.workspace.type? r = some t)
    (ht' : v.workspace.type? r' = some t') (hkind : t.kind = .entity) (hkind' : t'.kind = .entity)
    (hmodules : v.modulesTo r = v.modulesTo r') (hname : t.name = t'.name) :
    v.LooksLike (.entity r) (.entity r') := by
  by_cases heq : r = r'
  · exact .inl (by rw [heq])
  · have hclash := Clash.namesakes ht ht' ((modulesTo_eq_iff hv ht ht').1 hmodules) heq
      (by rw [hkind, hkind']) hname
    rw [hkind, hkind'] at hclash
    exact .inr (.inl hclash)

theorem looksLike_types (ht : v.workspace.type? r = some t)
    (ht' : v.workspace.type? r' = some t') (hkind : t.kind ≠ .entity) (hkind' : t'.kind ≠ .entity)
    (hmodules : v.modulesTo r = v.modulesTo r') (hname : t.name = t'.name) :
    v.LooksLike (t.kind.dataType r) (t'.kind.dataType r') := by
  by_cases heq : r = r'
  · subst heq
    rw [ht] at ht'
    obtain rfl := Option.some.inj ht'
    exact .inl rfl
  · exact .inr (.inl (.namesakes ht ht' ((modulesTo_eq_iff hv ht ht').1 hmodules) heq
      (iff_of_false hkind hkind') hname))

theorem looksLike_scalar_type (hp : v.workspace.primitives[i]? = some p)
    (ht : v.workspace.type? r = some t) (htext : p.kind.scalar? = some text)
    (hkind : t.kind ≠ .entity) (hmodules : v.modulesTo r = []) (hword : spelled t.name = text) :
    v.LooksLike (.primitive i) (t.kind.dataType r) := by
  obtain rfl := (spelled_eq_scalar htext (hv.permits r t ht).isIdentifier).1 hword
  exact .inr (.inl (.scalarType hp ht (modulesTo_eq_nil_iff.1 hmodules) hkind htext))

theorem looksLike_custom_entity (hp : v.workspace.primitives[i]? = some p)
    (ht : v.workspace.type? r = some t) (hcustom : p.kind = .custom)
    (hname : isIdentifier p.name = true) (hsuper : "super" ∉ namespaceModules p.namespace)
    (hkind : t.kind = .entity) (hmodules : namespaceModules p.namespace = v.modulesTo r)
    (hword : spelled p.name = keyAlias t.name) : v.LooksLike (.primitive i) (.entity r) := by
  obtain ⟨hns, hown⟩ := namespaceModules_eq_modulesTo hsuper hmodules
  have halias := (spelled_eq_keyAlias hname (hv.permits r t ht).isIdentifier).1 hword
  exact .inr (.inl (.customAlias hp ht hcustom hns hown hkind halias))

theorem looksLike_entity_type (ht : v.workspace.type? r = some t)
    (ht' : v.workspace.type? r' = some t') (hkind : t.kind = .entity) (hkind' : t'.kind ≠ .entity)
    (hmodules : v.modulesTo r = v.modulesTo r') (hword : spelled t'.name = keyAlias t.name) :
    v.LooksLike (.entity r) (t'.kind.dataType r') := by
  have halias := (spelled_eq_keyAlias (hv.permits r' t' ht').isIdentifier
    (hv.permits r t ht).isIdentifier).1 hword
  exact .inr (.inl (.typeAlias ht ht' ((modulesTo_eq_iff hv ht ht').1 hmodules) hkind hkind' halias))

/-- A type cannot be declared under the name of a primitive. -/
theorem spelled_ne_type (hp : v.workspace.primitives[i]? = some p)
    (ht : v.workspace.type? r = some t) (hname : isIdentifier p.name = true) :
    spelled p.name ≠ spelled t.name := by
  obtain ⟨hidentifier, hfree⟩ := hv.permits r t ht
  intro heq
  have hmem : t.name ∈ v.workspace.reserved := by
    rw [← (spelled_inj_identifier hname hidentifier).1 heq]
    refine List.mem_append_left _ (List.mem_cons_of_mem _ ?_)
    exact List.mem_map_of_mem (List.mem_of_getElem? hp)
  rw [Workspace.isReserved, List.contains_iff_mem.2 hmem] at hfree
  contradiction

/-- Types that are shown by the same word in the same modules look alike. -/
theorem Shows.looksLike {modules modules' : List String} {word word' : String} {d d' : DataType}
    (h : v.Shows modules word d) (h' : v.Shows modules' word' d') (hmodules : modules = modules')
    (hword : word = word') : v.LooksLike d d' := by
  -- each pair of ways to be shown has its lemma above, in one of the two orders
  cases h with
  | scalar hp htext =>
      cases h' with
      | scalar hq htext' => exact looksLike_scalars hp hq htext (hword ▸ htext')
      | custom hq hkind hname hsuper =>
          exact looksLike_scalar_custom hp hq htext hkind hname hmodules.symm hword.symm
      | entity ht hkind => exact absurd hword (scalar?_ne_keyAlias htext)
      | type ht hkind => exact looksLike_scalar_type hv hp ht htext hkind hmodules.symm hword.symm
  | custom hp hcustom hname hsuper =>
      cases h' with
      | scalar hq htext =>
          exact (looksLike_scalar_custom hq hp htext hcustom hname hmodules hword).symm
      | custom hq hcustom' hname' hsuper' =>
          have heq := (spelled_inj_identifier hname hname').1 hword
          exact .inl (congrArg _ (position_eq_of_name hv.nodup_primitives hp hq heq))
      | entity ht hkind =>
          exact looksLike_custom_entity hv hp ht hcustom hname hsuper hkind hmodules hword
      | type ht hkind => exact absurd hword (spelled_ne_type hv hp ht hname)
  | entity ht hkind =>
      cases h' with
      | scalar hq htext => exact absurd hword.symm (scalar?_ne_keyAlias htext)
      | custom hq hcustom hname hsuper =>
          exact (looksLike_custom_entity hv hq ht hcustom hname hsuper hkind hmodules.symm
            hword.symm).symm
      | entity ht' hkind' =>
          exact looksLike_entities hv ht ht' hkind hkind' hmodules
            ((String.append_left_inj _).1 hword)
      | type ht' hkind' =>
          exact looksLike_entity_type hv ht ht' hkind hkind' hmodules hword.symm
  | type ht hkind =>
      have hidentifier := (hv.permits _ _ ht).isIdentifier
      cases h' with
      | scalar hq htext =>
          exact (looksLike_scalar_type hv hq ht htext hkind hmodules hword).symm
      | custom hq hcustom hname hsuper =>
          exact absurd hword.symm (spelled_ne_type hv hq ht hname)
      | entity ht' hkind' =>
          exact (looksLike_entity_type hv ht' ht hkind' hkind hmodules.symm hword).symm
      | type ht' hkind' =>
          refine looksLike_types hv ht ht' hkind hkind' hmodules ?_
          exact (spelled_inj_identifier hidentifier (hv.permits _ _ ht').isIdentifier).1 hword

/-- Types that clash are shown by the same word in the same modules. -/
theorem Clash.shown_alike {modules modules' : List String} {word word' : String} {d d' : DataType}
    (hclash : v.Clash d d') (h : v.Shows modules word d) (h' : v.Shows modules' word' d') :
    modules = modules' ∧ word = word' := by
  cases hclash with
  | kind hp hq hne hkind hbuiltin =>
      obtain ⟨text, htext⟩ := Option.ne_none_iff_exists'.1 (mt scalar?_eq_none_iff.1 hbuiltin)
      obtain ⟨rfl, rfl⟩ := h.of_scalar hp htext
      obtain ⟨rfl, rfl⟩ := h'.of_scalar hq (hkind ▸ htext)
      exact ⟨rfl, rfl⟩
  | scalar hp hq hcustom hns htext =>
      obtain ⟨rfl, rfl⟩ := h.of_scalar hp htext
      obtain ⟨rfl, rfl⟩ := h'.of_custom hq hcustom
      rw [hns, spelled_scalar htext]
      exact ⟨rfl, rfl⟩
  | scalarType hp ht hown hkind htext =>
      obtain ⟨rfl, rfl⟩ := h.of_scalar hp htext
      obtain ⟨rfl, rfl⟩ := h'.of_type rfl ht
      rw [if_neg hkind, spelled_scalar htext]
      exact ⟨(modulesTo_eq_nil_iff.2 hown).symm, rfl⟩
  | customAlias hp ht hcustom hns hown hkind hname =>
      obtain ⟨rfl, rfl⟩ := h.of_custom hp hcustom
      obtain ⟨rfl, rfl⟩ := h'.of_type (by rw [hkind]; rfl) ht
      rw [if_pos hkind, hns, hname, modulesTo_eq_nil_iff.2 hown, spelled_keyAlias]
      exact ⟨rfl, rfl⟩
  | @typeAlias r r' t t' ht ht' hsame hkind hkind' hname =>
      obtain ⟨rfl, rfl⟩ := h.of_type (by rw [hkind]; rfl) ht
      obtain ⟨rfl, rfl⟩ := h'.of_type rfl ht'
      rw [if_pos hkind, if_neg hkind', hname, spelled_keyAlias]
      exact ⟨(modulesTo_eq_iff hv ht ht').2 hsame, rfl⟩
  | @namesakes r r' t t' ht ht' hsame hne hkind hname =>
      obtain ⟨rfl, rfl⟩ := h.of_type rfl ht
      obtain ⟨rfl, rfl⟩ := h'.of_type rfl ht'
      exact ⟨(modulesTo_eq_iff hv ht ht').2 hsame, by simp only [hkind, hname]⟩

theorem ShownAs.eq_iff {d d' : DataType} {a a' : RustType} (h : v.ShownAs d a)
    (h' : v.ShownAs d' a') : a = a' ↔ v.LooksLike d d' := by
  obtain ⟨modules, word, hshows, rfl⟩ := h
  obtain ⟨modules', word', hshows', rfl⟩ := h'
  constructor
  · intro heq
    obtain ⟨hmodules, hword⟩ := List.append_inj' (RustType.path.inj heq) rfl
    exact hshows.looksLike hv hshows' hmodules (List.singleton_inj.1 hword)
  · rintro (rfl | hclash | hclash)
    · obtain ⟨rfl, rfl⟩ := hshows.unique hshows'
      rfl
    · obtain ⟨rfl, rfl⟩ := hclash.shown_alike hv hshows hshows'
      rfl
    · obtain ⟨rfl, rfl⟩ := hclash.shown_alike hv hshows' hshows
      rfl

end SchemaView

end SchemaGraph
