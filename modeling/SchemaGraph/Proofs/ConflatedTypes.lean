import SchemaGraph.Proofs.TypeClashes

/-!
Types that have one text. The text of a type tells its shape and the paths in it, so the texts of two
types are the same just if the types have one shape and their parts clash or are the same.
-/

namespace SchemaGraph

open RustNames RustSource Text

/-- What is equal to what for the parts that are there holds of optional parts. -/
theorem option_eq_iff_rel {α β : Type} {R : α → β → Prop} {S : α → α → Prop}
    (hR : ∀ {a a' b b'}, R a b → R a' b' → (b = b' ↔ S a a')) {x x' : Option α} {y y' : Option β}
    (h : Option.Rel R x y) (h' : Option.Rel R x' y') : y = y' ↔ Option.Rel S x x' := by
  cases h with
  | none =>
      cases h' with
      | none => exact iff_of_true rfl .none
      | some h' => exact iff_of_false nofun nofun
  | some h =>
      cases h' with
      | none => exact iff_of_false nofun nofun
      | some h' =>
          rw [Option.some.injEq, hR h h']
          exact ⟨.some, fun | .some hrel => hrel⟩

namespace SchemaView

variable {v : SchemaView} {r : TypeRef} {t : LinkedType}

/-- Types of one shape whose parts look alike. -/
structure Alike (v : SchemaView) (t t' : DataType) : Prop where
  shape : t.shape? = t'.shape?
  key : Option.Rel v.LooksLike t.key? t'.key?
  value : v.LooksLike t.leaf t'.leaf

variable (hv : v.workspace.WellNamed)

include hv

theorem Renders.eq_iff {d d' : DataType} {a a' : RustType} (h : v.Renders d a)
    (h' : v.Renders d' a') : a = a' ↔ v.Alike d d' := by
  have hkey : a.key? = a'.key? ↔ Option.Rel v.LooksLike d.key? d'.key? :=
    option_eq_iff_rel (fun hk hk' => hk.eq_iff hv hk') h.key h'.key
  obtain ⟨modules, word, -, hvalue⟩ := h.value
  obtain ⟨modules', word', -, hvalue'⟩ := h'.value
  rw [RustType.eq_iff_parts hvalue hvalue', hkey, h.value.eq_iff hv h'.value, ← h.shape, ← h'.shape]
  exact ⟨fun ⟨hs, hk, ht⟩ => ⟨hs, hk, ht⟩, fun ⟨hs, hk, ht⟩ => ⟨hs, hk, ht⟩⟩

/-! ### Texts -/

theorem isRustPart_modulesTo (ht : v.workspace.type? r = some t) :
    ∀ m ∈ v.modulesTo r, ∀ c ∈ m.toList, isRustPart c = true := by
  have hsuper : ∀ c ∈ "super".toList, isRustPart c = true := List.all_eq_true.1 (by decide)
  rw [modulesTo]
  split
  · simp
  · rw [List.forall_mem_cons, List.forall_mem_singleton]
    exact ⟨hsuper, isRustPart_spelled
      (isIdentifierPart_snakeCase (isIdentifier_schemaName hv ht))⟩

/-- The parts of a path that shows a type are words. -/
theorem Shows.worded {modules : List String} {word : String} {d : DataType}
    (h : v.Shows modules word d) : RustPath.Worded (modules ++ [word]) := by
  refine ⟨by simp, ?_⟩
  rw [List.forall_mem_append, List.forall_mem_singleton]
  cases h with
  | @scalar id p text hp htext =>
      refine ⟨by simp, List.all_eq_true.1 ?_⟩
      cases hk : p.kind <;> rw [hk] at htext <;> cases htext <;> decide
  | custom hp hcustom hname =>
      refine ⟨isRustPart_namespaceModules (hv.namespaces _ (List.mem_of_getElem? hp) hcustom), ?_⟩
      exact isRustPart_spelled fun c => isIdentifierPart_of_mem hname
  | entity ht hkind =>
      have hidentifier := (hv.permits _ _ ht).isIdentifier
      have hkey : ∀ c ∈ "Key".toList, isRustPart c = true := List.all_eq_true.1 (by decide)
      refine ⟨isRustPart_modulesTo hv ht, ?_⟩
      rw [keyAlias, String.toList_append, List.forall_mem_append]
      exact ⟨fun c hc => isRustPart_of_identifierPart (isIdentifierPart_of_mem hidentifier hc), hkey⟩
  | type ht hkind =>
      have hidentifier := (hv.permits _ _ ht).isIdentifier
      exact ⟨isRustPart_modulesTo hv ht,
        isRustPart_spelled fun c => isIdentifierPart_of_mem hidentifier⟩

theorem ShownAs.worded {d : DataType} {a : RustType} (h : v.ShownAs d a) : a.Worded := by
  obtain ⟨modules, word, hshows, rfl⟩ := h
  exact hshows.worded hv

theorem Renders.worded {d : DataType} {a : RustType} (h : v.Renders d a) : a.Worded := by
  obtain ⟨-, hkey, hvalue⟩ := h
  have hvalue := hvalue.worded hv
  cases a with
  | hashMap k t =>
      rw [RustType.key?] at hkey
      obtain ⟨d', hd'⟩ : ∃ d', v.ShownAs d' k := by
        generalize d.key? = key at hkey
        cases hkey with
        | some hshown => exact ⟨_, hshown⟩
      exact ⟨hd'.worded hv, hvalue⟩
  | _ => exact hvalue

end SchemaView

/-- The texts for the types of two published properties, less the boxes, are the same just if the
types have one shape and their parts look alike. A type stands for foreign keys in both properties or
in neither. -/
theorem type_texts_agree_iff {setup : Setup} {w : Workspace} (h : setup.Reaches w)
    (hcustom : ∀ p ∈ setup.custom, p.kind = .custom → isNamespace p.namespace = true)
    {x y : PropertyRef} {p q : LinkedProperty} (hp : w.property? x = some p)
    (hq : w.property? y = some q) {s : Schema} {r r' : TypeRef} {a b : RustType}
    (ha : propertyType ⟨w, s⟩ r p = .ok a) (hb : propertyType ⟨w, s⟩ r' q = .ok b) :
    (a.unboxed.render = b.unboxed.render ↔ (SchemaView.mk w s).Alike p.type q.type) ∧
      (p.type = q.type → (p.role = .foreignKey ↔ q.role = .foreignKey)) := by
  have hlayered := h.reached.layered_flattened.1
  have hnamed := h.wellNamed hcustom
  have hp' := hlayered.sound_property hp
  have hq' := hlayered.sound_property hq
  have hrenders := propertyType_ok hp' (h.reached.named_property hp) ha
  have hrenders' := propertyType_ok hq' (h.reached.named_property hq) hb
  constructor
  · rw [RustType.render_inj (hrenders.worded hnamed) (hrenders'.worded hnamed),
      hrenders.eq_iff hnamed hrenders']
  · intro heq
    rw [← hp'.leaf.isEntity_iff, ← hq'.leaf.isEntity_iff, heq]

/-! ### Types that are conflated -/

/-- In the first schema there is an entity. In the second a struct has the name of a Rust type, and
there are properties for both, for keys of the entity and for the custom primitive. -/
def conflatedSources : SourceTable :=
  [("m", { name := some "M", types := [
      .entity { name := some "T", properties := [
        { name := some "id", typeText := some "string", role := .primaryKey }] }] }),
    ("a", { name := some "A", imports := [{ source := "m" }], types := [
      .struct { name := some "String" },
      .struct { name := some "Person", properties := [
        { name := some "name", typeText := some "string" },
        { name := some "title", typeText := some "String" },
        { name := some "owner", typeText := some "M.T", role := .foreignKey },
        { name := some "key", typeText := some "TKey" }] }] })]

def conflatedSetup (ns : String) : Setup :=
  { custom := [.custom "TKey" ns true] }

def conflatedStart (ns : String) : Workspace where
  primitives := (conflatedSetup ns).primitives
  enumDefault := PrimitiveTable.ofKind? (conflatedSetup ns).primitives .int32

def conflatedWorkspace (ns : String) : Workspace :=
  ((conflatedStart ns).load conflatedSources.reader ["m", "a"]).workspace

theorem reaches_conflatedWorkspace (ns : String) :
    (conflatedSetup ns).Reaches (conflatedWorkspace ns) := by
  have hnames : ((conflatedSetup ns).primitives.map Primitive.name) =
      (PrimitiveKind.builtin.map PrimitiveKind.defaultName) ++ ["TKey"] := rfl
  have hnodup : ((conflatedSetup ns).primitives.map Primitive.name).Nodup := by
    rw [hnames]
    decide
  exact .load conflatedSources.reader ["m", "a"] (.build (Setup.build_of_nodup hnodup rfl))

/-- The types of the properties, with their Rust types. -/
def conflatedTypes (ns : String) : Option (List (Option (DataType × Except RustFault RustType))) :=
  (conflatedWorkspace ns).schemas[1]?.map fun s => (List.range 4).map fun i =>
    ((conflatedWorkspace ns).property? ⟨⟨1, 1⟩, i⟩).map fun p =>
      (p.type, propertyType ⟨conflatedWorkspace ns, s⟩ ⟨1, 1⟩ p)

theorem conflatedTypes_some {ns : String} {l : List (Option (DataType × Except RustFault RustType))}
    (h : conflatedTypes ns = some l) :
    ∃ s, (conflatedWorkspace ns).schemas[1]? = some s ∧
      ∀ i < 4, ∀ t a, l[i]? = some (some (t, .ok a)) →
        ∃ p, (conflatedWorkspace ns).property? ⟨⟨1, 1⟩, i⟩ = some p ∧ p.type = t ∧
          propertyType ⟨conflatedWorkspace ns, s⟩ ⟨1, 1⟩ p = .ok a := by
  obtain ⟨s, hs, rfl⟩ := Option.map_eq_some_iff.1 h
  refine ⟨s, hs, fun i hi t a ha => ?_⟩
  rw [List.getElem?_map, List.getElem?_range hi, Option.map_some, Option.some.injEq] at ha
  obtain ⟨p, hp, hfound⟩ := Option.map_eq_some_iff.1 ha
  obtain ⟨htype, htext⟩ := Prod.mk.inj hfound
  exact ⟨p, hp, htype, htext⟩

theorem conflatedTypes_eq {ns : String} {path : RustPath}
    (hpath : customPath (.custom "TKey" ns true) = .ok path) : conflatedTypes ns =
      some [some (.primitive 11, .ok (.path ["String"])),
        some (.struct ⟨1, 0⟩, .ok (.path ["String"])),
        some (.entity ⟨0, 0⟩, .ok (.path ["super", "m", "TKey"])),
        some (.primitive 12, .ok (.path path))] := by
  have hcustom : Except.ok (.path path) = RustType.path <$> customPath (.custom "TKey" ns true) := by
    rw [hpath]
    rfl
  rw [hcustom]
  cbv

/-- The properties have different types, but one text for both. -/
def SchemaView.Conflates (v : SchemaView) (owner : TypeRef) (p q : LinkedProperty) : Prop :=
  p.type ≠ q.type ∧ ∃ a b, propertyType v owner p = .ok a ∧ propertyType v owner q = .ok b ∧
    a.unboxed.render = b.unboxed.render

/-- A primitive clashes with an entity only if it has no namespace. -/
theorem SchemaView.Clash.namespace_eq {v : SchemaView} {d d' : DataType} {i : PrimitiveId}
    {r : TypeRef} (h : v.Clash d d')
    (hd : d = .primitive i ∧ d' = .entity r ∨ d = .entity r ∧ d' = .primitive i) :
    ∃ p, v.workspace.primitives[i]? = some p ∧ p.namespace = "" := by
  cases h with
  | kind | scalar => simp at hd
  | @scalarType j p x t hp ht hown hother =>
      exfalso
      cases hk : t.kind <;> simp_all [TypeKind.dataType]
  | @customAlias j p x t hp ht hcustom hns =>
      obtain ⟨rfl, -⟩ : j = i ∧ x = r := by simpa using hd
      exact ⟨p, hp, hns⟩
  | typeAlias => simp [TypeKind.dataType_ne_primitive] at hd
  | namesakes => simp [TypeKind.dataType_ne_primitive] at hd

/-- The built-in text and the struct have one Rust type. So have a primitive with a malformed
namespace and the key of the entity, and they do not even look alike. -/
theorem type_texts_conflated :
    (conflatedSetup "super::m").Reaches (conflatedWorkspace "super::m") ∧
      ∃ s ∈ (conflatedWorkspace "super::m").schemas, ∃ p q p' q',
        (conflatedWorkspace "super::m").property? ⟨⟨1, 1⟩, 0⟩ = some p ∧
        (conflatedWorkspace "super::m").property? ⟨⟨1, 1⟩, 1⟩ = some q ∧
        (conflatedWorkspace "super::m").property? ⟨⟨1, 1⟩, 2⟩ = some p' ∧
        (conflatedWorkspace "super::m").property? ⟨⟨1, 1⟩, 3⟩ = some q' ∧
        (SchemaView.mk (conflatedWorkspace "super::m") s).Conflates ⟨1, 1⟩ p q ∧
        (SchemaView.mk (conflatedWorkspace "super::m") s).Conflates ⟨1, 1⟩ p' q' ∧
        ¬(SchemaView.mk (conflatedWorkspace "super::m") s).Alike p'.type q'.type := by
  have hpath : customPath (.custom "TKey" "super::m" true) = .ok ["super::m", "TKey"] := by cbv
  obtain ⟨s, hs, hfound⟩ := conflatedTypes_some (conflatedTypes_eq hpath)
  obtain ⟨p, hp, htype, htext⟩ := hfound 0 (by decide) _ _ rfl
  obtain ⟨q, hq, htype', htext'⟩ := hfound 1 (by decide) _ _ rfl
  obtain ⟨p', hp', hkey, hkeyText⟩ := hfound 2 (by decide) _ _ rfl
  obtain ⟨q', hq', hkey', hkeyText'⟩ := hfound 3 (by decide) _ _ rfl
  refine ⟨reaches_conflatedWorkspace _, s, List.mem_of_getElem? hs, p, q, p', q', hp, hq, hp', hq',
    ⟨by rw [htype, htype']; decide, _, _, htext, htext', rfl⟩,
    ⟨by rw [hkey, hkey']; decide, _, _, hkeyText, hkeyText', by decide⟩, ?_⟩
  -- the primitive has a namespace, so it clashes with no entity
  have hcustom : ¬∃ c : Primitive, (conflatedWorkspace "super::m").primitives[12]? = some c ∧
      c.namespace = "" := by
    rw [(reaches_conflatedWorkspace _).primitives_eq.1]
    rintro ⟨c, hc, hns⟩
    obtain rfl := Option.some.inj hc
    contradiction
  rw [hkey, hkey']
  rintro ⟨-, -, heq | hclash | hclash⟩
  · contradiction
  · exact hcustom (hclash.namespace_eq (.inr ⟨rfl, rfl⟩))
  · exact hcustom (hclash.namespace_eq (.inl ⟨rfl, rfl⟩))

/-- The well-formed namespace keeps the primitive apart from the key, and nothing else does. -/
theorem type_texts_agree_iff_conflated :
    (conflatedSetup "geo").Reaches (conflatedWorkspace "geo") ∧
      ∃ s ∈ (conflatedWorkspace "geo").schemas, ∃ p q p' q',
        (conflatedWorkspace "geo").property? ⟨⟨1, 1⟩, 0⟩ = some p ∧
        (conflatedWorkspace "geo").property? ⟨⟨1, 1⟩, 1⟩ = some q ∧
        (conflatedWorkspace "geo").property? ⟨⟨1, 1⟩, 2⟩ = some p' ∧
        (conflatedWorkspace "geo").property? ⟨⟨1, 1⟩, 3⟩ = some q' ∧
        (SchemaView.mk (conflatedWorkspace "geo") s).Alike p.type q.type ∧
        ¬(SchemaView.mk (conflatedWorkspace "geo") s).Alike p'.type q'.type := by
  have hpath : customPath (.custom "TKey" "geo" true) = .ok ["geo", "TKey"] := by cbv
  obtain ⟨s, hs, hfound⟩ := conflatedTypes_some (conflatedTypes_eq hpath)
  obtain ⟨p, hp, -, htext⟩ := hfound 0 (by decide) _ _ rfl
  obtain ⟨q, hq, -, htext'⟩ := hfound 1 (by decide) _ _ rfl
  obtain ⟨p', hp', -, hkeyText⟩ := hfound 2 (by decide) _ _ rfl
  obtain ⟨q', hq', -, hkeyText'⟩ := hfound 3 (by decide) _ _ rfl
  have hreaches := reaches_conflatedWorkspace "geo"
  have hcustom : ∀ p ∈ (conflatedSetup "geo").custom, p.kind = .custom →
      isNamespace p.namespace = true := by decide
  have hagree := (type_texts_agree_iff hreaches hcustom hp hq htext htext').1
  have hdiffer := (type_texts_agree_iff hreaches hcustom hp' hq' hkeyText hkeyText').1
  refine ⟨hreaches, s, List.mem_of_getElem? hs, p, q, p', q', hp, hq, hp', hq', hagree.1 rfl,
    fun halike => ?_⟩
  exact absurd (hdiffer.2 halike) (by decide)

end SchemaGraph
