import SchemaGraph.Proofs.InlineStorage
import SchemaGraph.Proofs.ItemNames
import SchemaGraph.Proofs.PrimitiveNames
import SchemaGraph.Proofs.TypeTexts

/-!
The Rust types of properties. The type of a property is shown by at most two paths: one for the type
itself or for the values of a container, and one for the keys of a map. A path ends in a word that is
made from the name of a type, and the modules before the word tell where it comes from.
-/

namespace SchemaGraph

open RustNames RustSource

/-! ### Primitives -/

/-- The Rust type for the values of a built-in kind. -/
def PrimitiveKind.scalar? : PrimitiveKind → Option String
  | .float => some "f32"
  | .double => some "f64"
  | .bool => some "bool"
  | .string => some "String"
  | k => intType? k

theorem primitivePath_eq (p : Primitive) : primitivePath p =
    match p.kind.scalar? with
    | some text => .ok [text]
    | none => customPath p := by
  obtain ⟨name, ns, kind, canBeKey⟩ := p
  cases kind <;> rfl

theorem scalar?_eq_none_iff {k : PrimitiveKind} : k.scalar? = none ↔ k = .custom := by
  cases k <;> decide

/-- The modules in a namespace. -/
def namespaceModules (ns : String) : List String :=
  if ns.isEmpty then [] else (Text.segments ns).map fun n => spelled (snakeCase n)

theorem spelled_ne_super {name : String} (h : name ∉ forbidden) : spelled name ≠ "super" := by
  rw [spelled]
  split
  · intro heq
    simpa [rawMark] using congrArg String.toList heq
  · rintro rfl
    exact h (by decide)

/-- The names of the modules in a namespace. -/
def namespaceNames (ns : String) : List String :=
  if ns.isEmpty then [] else Text.segments ns

theorem namespaceModules_eq (ns : String) :
    namespaceModules ns = (namespaceNames ns).map fun n => spelled (snakeCase n) := by
  rw [namespaceModules, namespaceNames]
  split <;> rfl

theorem mapM_fieldName_eq_ok {names ids : List String} :
    names.mapM fieldName = .ok ids ↔
      ids = names.map (fun n => spelled (snakeCase n)) ∧ ∀ n ∈ names, snakeCase n ∉ forbidden := by
  simp only [mapM_eq_ok, fieldName, identifier_eq_ok, List.forall₂_and_left]
  rw [← List.forall₂_map_left_iff (f := fun n => spelled (snakeCase n)) (R := Eq),
    List.forall₂_eq_eq_eq, eq_comm, and_comm]

theorem customPath_eq_ok {p : Primitive} {path : RustPath} :
    customPath p = .ok path ↔ path = namespaceModules p.namespace ++ [spelled p.name] ∧
      p.name ∉ forbidden ∧ ∀ n ∈ namespaceNames p.namespace, snakeCase n ∉ forbidden := by
  rw [customPath, namespaceModules_eq, namespaceNames, bind_eq_ok]
  simp only [typeName, identifier_eq_ok]
  split
  · constructor
    · rintro ⟨_, ⟨hname, rfl⟩, h⟩
      exact ⟨(pure_eq_ok.1 h).symm, hname, by simp⟩
    · rintro ⟨rfl, hname, -⟩
      exact ⟨_, ⟨hname, rfl⟩, rfl⟩
  · simp only [bind_eq_ok, mapM_fieldName_eq_ok, pure_eq_ok]
    constructor
    · rintro ⟨_, ⟨hname, rfl⟩, _, ⟨rfl, hmodules⟩, rfl⟩
      exact ⟨rfl, hname, hmodules⟩
    · rintro ⟨rfl, hname, hmodules⟩
      exact ⟨_, ⟨hname, rfl⟩, _, ⟨rfl, hmodules⟩, rfl⟩

theorem super_notMem_namespaceModules {ns : String}
    (h : ∀ n ∈ namespaceNames ns, snakeCase n ∉ forbidden) : "super" ∉ namespaceModules ns := by
  rw [namespaceModules_eq, List.mem_map]
  rintro ⟨n, hn, heq⟩
  exact spelled_ne_super (h n hn) heq

/-! ### Words -/

theorem isRustPart_of_identifierPart {c : Char} (h : Text.isIdentifierPart c = true) :
    isRustPart c = true := by
  rw [isRustPart, h, Bool.true_or]

theorem isRustPart_spelled {name : String} (h : ∀ c ∈ name.toList, Text.isIdentifierPart c = true) :
    ∀ c ∈ (spelled name).toList, isRustPart c = true := by
  have hmark : ∀ c ∈ rawMark.toList, isRustPart c = true := List.all_eq_true.1 (by decide)
  rw [spelled]
  split
  · rw [String.toList_append, List.forall_mem_append]
    exact ⟨hmark, fun c hc => isRustPart_of_identifierPart (h c hc)⟩
  · exact fun c hc => isRustPart_of_identifierPart (h c hc)

theorem isRustPart_namespaceModules {ns : String} (h : Text.isNamespace ns = true) :
    ∀ m ∈ namespaceModules ns, ∀ c ∈ m.toList, isRustPart c = true := by
  rw [namespaceModules]
  split
  · simp
  · rename_i hne
    rw [Text.isNamespace, Bool.or_eq_true, or_iff_right hne, List.all_eq_true] at h
    intro m hm
    obtain ⟨n, hn, rfl⟩ := List.mem_map.1 hm
    obtain ⟨piece, hpiece, rfl⟩ := List.mem_map.1 hn
    refine isRustPart_spelled (Text.isIdentifierPart_snakeCase ?_)
    rw [Text.isIdentifier, String.toList_ofList]
    exact h piece hpiece

/-! ### Parts of types -/

/-- The shape of a container. -/
def DataType.shape? : DataType → Option Shape
  | .container shape _ _ => some shape
  | _ => none

/-- The type of the keys of a map. -/
def DataType.key? : DataType → Option DataType
  | .container _ key _ => key.map .primitive
  | _ => none

theorem DataType.mem_primitives_of_leaf (t : DataType) {id : PrimitiveId}
    (h : id ∈ t.leaf.primitives) : id ∈ t.primitives := by
  cases t with
  | container shape key value => exact List.mem_append_right _ h
  | _ => exact h

theorem DataType.mem_primitives_of_key (t : DataType) {k : DataType} (hk : k ∈ t.key?)
    {id : PrimitiveId} (h : id ∈ k.primitives) : id ∈ t.primitives := by
  cases t with
  | container shape key value =>
      obtain ⟨i, rfl, rfl⟩ := Option.map_eq_some_iff.1 hk
      exact List.mem_append_left _ h
  | _ => contradiction

namespace RustType

def shape? : RustType → Option Shape
  | .vec _ => some .list
  | .option _ => some .optional
  | .hashSet _ => some .set
  | .hashMap _ _ => some .map
  | .path _ | .boxed _ => none

def key? : RustType → Option RustType
  | .hashMap k _ => some k
  | _ => none

def value : RustType → RustType
  | .vec t | .option t | .hashSet t | .hashMap _ t => t
  | t => t

theorem eq_iff_parts {a b : RustType} {p q : RustPath} (ha : a.value = .path p)
    (hb : b.value = .path q) :
    a = b ↔ a.shape? = b.shape? ∧ a.key? = b.key? ∧ a.value = b.value := by
  refine ⟨by rintro rfl; exact ⟨rfl, rfl, rfl⟩, ?_⟩
  rintro ⟨hshape, hkey, hvalue⟩
  cases a <;> cases b <;> simp_all [shape?, key?, value]

end RustType

/-! ### Paths -/

namespace SchemaView

variable (v : SchemaView)

/-- The name of the schema of a type, or nothing for a handle outside the workspace. -/
def schemaName (r : TypeRef) : String :=
  (v.workspace.schemas[r.schema]?.map fun s => s.name).getD ""

/-- The modules that lead from the emitted schema to the schema of a type. -/
def modulesTo (r : TypeRef) : List String :=
  if r.schema = v.schema.key then [] else ["super", spelled (snakeCase (v.schemaName r))]

/-- The type is shown by a word in some modules. An entity is shown by the alias for its key. -/
inductive Shows : List String → String → DataType → Prop
  | scalar {id : PrimitiveId} {p : Primitive} {text : String} :
      v.workspace.primitives[id]? = some p → p.kind.scalar? = some text →
      Shows [] text (.primitive id)
  | custom {id : PrimitiveId} {p : Primitive} :
      v.workspace.primitives[id]? = some p → p.kind = .custom → Text.isIdentifier p.name = true →
      "super" ∉ namespaceModules p.namespace →
      Shows (namespaceModules p.namespace) (spelled p.name) (.primitive id)
  | entity {r : TypeRef} {t : LinkedType} :
      v.workspace.type? r = some t → t.kind = .entity →
      Shows (v.modulesTo r) (keyAlias t.name) (.entity r)
  | type {r : TypeRef} {t : LinkedType} :
      v.workspace.type? r = some t → t.kind ≠ .entity →
      Shows (v.modulesTo r) (spelled t.name) (t.kind.dataType r)

def ShownAs (t : DataType) (a : RustType) : Prop :=
  ∃ modules word, v.Shows modules word t ∧ a = .path (modules ++ [word])

/-- How a type that is no container is written: as a path to a primitive, to the alias for the key of
an entity, or to a type, which can be in a box. -/
inductive Refers : DataType → RustType → Prop
  | primitive {id : PrimitiveId} {a : RustType} :
      primitiveType v id = .ok a → Refers (.primitive id) a
  | key {r : TypeRef} {t : LinkedType} {path : RustPath} :
      v.workspace.type? r = some t → t.kind = .entity →
      pathTo v r (keyAlias t.name) = .ok path → Refers (.entity r) (.path path)
  | type {r : TypeRef} {t : LinkedType} {path : RustPath} {a : RustType} :
      v.workspace.type? r = some t → t.kind ≠ .entity → typePath v r = .ok path →
      a = .path path ∨ a = .boxed (.path path) → Refers (t.kind.dataType r) a

/-- The Rust type has the shape of the type, and its parts are written like those of the type. -/
structure Written (t : DataType) (a : RustType) : Prop where
  shape : t.shape? = a.shape?
  key : Option.Rel v.Refers t.key? a.key?
  value : v.Refers t.leaf a.value

/-- The Rust type has the shape of the type, and its parts show those of the type. -/
structure Renders (t : DataType) (a : RustType) : Prop where
  shape : t.shape? = a.shape?
  key : Option.Rel v.ShownAs t.key? a.key?
  value : v.ShownAs t.leaf a.value

end SchemaView

section Emitted

variable {w : Workspace} {s : Schema} {owner : TypeRef} {p : LinkedProperty} {bound : SchemaKey}
  {t : DataType} {a : RustType}

theorem pathTo_ok {v : SchemaView} {r : TypeRef} {id : String} {path : RustPath}
    (h : pathTo v r id = .ok path) : path = v.modulesTo r ++ [id] := by
  rw [pathTo] at h
  rw [SchemaView.modulesTo]
  split at h
  · rename_i hown
    obtain rfl := pure_eq_ok.1 h
    rw [if_pos hown, List.nil_append]
  · rename_i hother
    obtain ⟨m, hm, h⟩ := bind_eq_ok.1 h
    obtain ⟨-, rfl⟩ := identifier_eq_ok.1 hm
    obtain rfl := pure_eq_ok.1 h
    rw [if_neg hother]
    rfl

theorem primitiveType_ok {v : SchemaView} {id : PrimitiveId} {q : Primitive}
    (hq : v.workspace.primitives[id]? = some q) (hname : Text.isIdentifier q.name = true)
    (h : primitiveType v id = .ok a) :
    v.ShownAs (.primitive id) a := by
  rw [primitiveType, hq] at h
  obtain ⟨path, hpath, rfl⟩ := map_eq_ok.1 h
  rw [Option.getD_some, primitivePath_eq] at hpath
  split at hpath
  · rename_i text htext
    obtain rfl := Except.ok.inj hpath
    exact ⟨[], text, .scalar hq htext, rfl⟩
  · rename_i hnone
    obtain ⟨rfl, -, hmodules⟩ := customPath_eq_ok.1 hpath
    exact ⟨_, _, .custom hq (scalar?_eq_none_iff.1 hnone) hname
      (super_notMem_namespaceModules hmodules), rfl⟩

theorem nameOf_eq {v : SchemaView} {r : TypeRef} {u : LinkedType}
    (hu : v.workspace.type? r = some u) : nameOf v r = u.name := by
  rw [nameOf, TypeLookup.typeName, hu]
  rfl

theorem typePath_ok {v : SchemaView} {r : TypeRef} {u : LinkedType} {path : RustPath}
    (hu : v.workspace.type? r = some u) (h : typePath v r = .ok path) :
    path = v.modulesTo r ++ [spelled u.name] := by
  rw [typePath] at h
  obtain ⟨id, hid, h⟩ := bind_eq_ok.1 h
  obtain ⟨-, rfl⟩ := identifier_eq_ok.1 hid
  rw [pathTo_ok h, nameOf_eq hu]

theorem SchemaView.Refers.path_or_boxed {v : SchemaView} (h : v.Refers t a) :
    ∃ path, a = .path path ∨ a = .boxed (.path path) := by
  cases h with
  | primitive hid =>
      obtain ⟨path, -, rfl⟩ := map_eq_ok.1 hid
      exact ⟨path, .inl rfl⟩
  | key _ _ _ => exact ⟨_, .inl rfl⟩
  | type _ _ _ ha => exact ⟨_, ha⟩

/-- What a type is written as shows it, if boxes do not matter. -/
theorem SchemaView.Refers.shown {v : SchemaView} (h : v.Refers t a)
    (hnamed : t.Named v.workspace.primitives) : v.ShownAs t a.unboxed := by
  cases h with
  | primitive hid =>
      obtain ⟨q, hq, hname⟩ := hnamed _ (List.mem_singleton_self _)
      obtain ⟨modules, word, hshows, rfl⟩ := primitiveType_ok hq hname hid
      exact ⟨modules, word, hshows, rfl⟩
  | key hu hentity hpath => exact ⟨_, _, .entity hu hentity, by rw [pathTo_ok hpath]; rfl⟩
  | type hu hkind hpath ha =>
      refine ⟨_, _, .type hu hkind, ?_⟩
      rw [← typePath_ok hu hpath]
      rcases ha with rfl | rfl <;> rfl

theorem SchemaView.Written.renders {v : SchemaView} (h : v.Written t a)
    (hnamed : t.Named v.workspace.primitives) : v.Renders t a.unboxed := by
  obtain ⟨hshape, hkey, hvalue⟩ := h
  have hleaf : t.leaf.Named v.workspace.primitives := fun id hid =>
    hnamed id (t.mem_primitives_of_leaf hid)
  have hshown := hvalue.shown hleaf
  have hkey : Option.Rel v.ShownAs t.key? (a.key?.map RustType.unboxed) := by
    have hnamed : ∀ k ∈ t.key?, k.Named v.workspace.primitives := fun k hk id hid =>
      hnamed id (t.mem_primitives_of_key hk hid)
    generalize t.key? = key, a.key? = written at hkey hnamed
    cases hkey with
    | none => exact .none
    | some hrefers => exact .some (hrefers.shown (hnamed _ rfl))
  cases a with
  | boxed b =>
      obtain ⟨path, hpath | hpath⟩ := hvalue.path_or_boxed
      · contradiction
      · obtain rfl := RustType.boxed.inj hpath
        exact ⟨hshape, hkey, hshown⟩
  | _ => exact ⟨hshape, hkey, hshown⟩

/-- The type of a value that is no container is written as a reference. -/
theorem leafType_refers {inPlace : Bool} (hsound : t.SoundLeaf w bound p.role)
    (h : leafType ⟨w, s⟩ owner p inPlace t = .ok a) : (SchemaView.mk w s).Refers t a := by
  -- structs and enums are referred to alike, in a box if they lead back to the owner
  have hreference : ∀ {r u}, w.type? r = some u → u.kind ≠ .entity → t = u.kind.dataType r →
      (do
        let path := RustType.path (← typePath ⟨w, s⟩ r)
        if inPlace ∧ (r = owner ∨ inlines w r owner) then return .boxed path else return path) =
          Except.ok a →
      (SchemaView.mk w s).Refers t a := by
    rintro r u hu hkind rfl h
    obtain ⟨path, hpath, h⟩ := bind_eq_ok.1 h
    refine .type hu hkind hpath ?_
    split at h
    · exact .inr (pure_eq_ok.1 h).symm
    · exact .inl (pure_eq_ok.1 h).symm
  cases t with
  | primitive id => exact .primitive h
  | entity r =>
      obtain ⟨k, heq, -, u, hu, hkind⟩ := hsound.handle r rfl
      simp only [leafType, if_pos (hsound.isEntity_iff.1 rfl)] at h
      obtain ⟨path, hpath, rfl⟩ := map_eq_ok.1 h
      have hentity : u.kind = .entity := by
        rw [hkind]
        cases k <;> simp [TypeKind.dataType] at heq ⊢
      rw [nameOf_eq hu] at hpath
      exact .key hu hentity hpath
  | struct r | enum r =>
      obtain ⟨k, heq, -, u, hu, rfl⟩ := hsound.handle r rfl
      refine hreference hu ?_ heq h
      intro hentity
      simp [hentity, TypeKind.dataType] at heq
  | interface r | void | generic shape | container shape key value => contradiction

theorem propertyType_written (hsound : p.type.Sound w bound p.role)
    (h : propertyType ⟨w, s⟩ owner p = .ok a) : (SchemaView.mk w s).Written p.type a := by
  rw [propertyType] at h
  obtain ⟨hleaf, -, hnoKey⟩ := hsound
  cases htype : p.type with
  | container shape key value =>
      rw [htype] at h hleaf
      obtain ⟨leaf, hvalue, h⟩ := bind_eq_ok.1 h
      have hrefers := leafType_refers hleaf hvalue
      cases shape with
      | list | optional | set =>
          obtain rfl := hnoKey _ _ _ htype (by decide)
          obtain rfl := pure_eq_ok.1 h
          exact ⟨rfl, .none, hrefers⟩
      | map =>
          cases key with
          | none => contradiction
          | some id =>
              obtain ⟨k, hk, h⟩ := bind_eq_ok.1 h
              obtain rfl := pure_eq_ok.1 h
              exact ⟨rfl, .some (.primitive hk), hrefers⟩
  | _ =>
      rw [htype] at h hleaf
      have hrefers := leafType_refers hleaf h
      obtain ⟨path, rfl | rfl⟩ := hrefers.path_or_boxed <;> exact ⟨rfl, .none, hrefers⟩

theorem propertyType_ok (hsound : p.type.Sound w bound p.role)
    (hnamed : p.type.Named w.primitives) (h : propertyType ⟨w, s⟩ owner p = .ok a) :
    (SchemaView.mk w s).Renders p.type a.unboxed :=
  (propertyType_written hsound h).renders hnamed

end Emitted

end SchemaGraph
