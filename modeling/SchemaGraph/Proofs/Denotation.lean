import SchemaGraph.Proofs.WellFormed

/-!
What references stand for. `Draft.Denotes` gives each path its meaning without any search: a bare
name is a type of the draft itself, or else a primitive, or else `void`; a qualified name is a type
of the schema that the alias stands for.

Resolution finds this meaning and nothing else. It succeeds if and only if every reference of the
draft has an admissible meaning, and what it writes in the place of a reference is that meaning.
-/

namespace SchemaGraph

variable {w : Workspace} {unit : SourceId} {declaration : Declaration} {d : Draft}

/-! ### Names in lists -/

/-- In a list without repeated names the first item of a name is the only one. -/
theorem find?_name_eq_some_iff {α β : Type} [DecidableEq β] {name : α → β} {as : List α}
    (h : (as.map name).Nodup) {b : β} {a : α} :
    as.find? (fun a => name a = b) = some a ↔ a ∈ as ∧ name a = b := by
  constructor
  · intro hfind
    exact ⟨List.mem_of_find?_eq_some hfind, by simpa using List.find?_some hfind⟩
  · rintro ⟨ha, rfl⟩
    cases hfind : as.find? (fun a' => name a' = name a) with
    | none => simpa using List.find?_eq_none.1 hfind a ha
    | some a' =>
        have hname : name a' = name a := by simpa using List.find?_some hfind
        rw [List.inj_on_of_nodup_map h (List.mem_of_find?_eq_some hfind) ha hname]

theorem findIdx?_name_eq_some_iff {α β : Type} [DecidableEq β] {name : α → β} {as : List α}
    (h : (as.map name).Nodup) {b : β} {i : Nat} :
    as.findIdx? (fun a => name a = b) = some i ↔ ∃ a, as[i]? = some a ∧ name a = b := by
  rw [List.findIdx?_eq_some_iff_getElem]
  constructor
  · rintro ⟨hi, hname, -⟩
    exact ⟨as[i], List.getElem?_eq_getElem hi, by simpa using hname⟩
  · rintro ⟨a, ha, rfl⟩
    obtain ⟨hi, rfl⟩ := List.getElem?_eq_some_iff.1 ha
    refine ⟨hi, by simp, fun j hji heq => ?_⟩
    have hpairwise := List.pairwise_map.1 h
    exact List.pairwise_iff_getElem.1 hpairwise j i (hji.trans hi) hi hji (by simpa using heq)

namespace SchemaOf

variable {β ι τ : Type} {s : SchemaOf β ι τ}

theorem typeIndex?_eq_some_iff (h : s.typeNames.Nodup) {name : String} {i : Nat} :
    s.typeIndex? name = some i ↔ ∃ t, s.types[i]? = some t ∧ t.name = name :=
  findIdx?_name_eq_some_iff h

theorem import?_eq_some_iff (h : (s.imports.map Prod.fst).Nodup) {name : String}
    {key : SchemaKey} : s.import? name = some key ↔ (name, key) ∈ s.imports := by
  rw [import?, Option.map_eq_some_iff]
  constructor
  · rintro ⟨entry, hentry, rfl⟩
    obtain ⟨hmem, rfl⟩ := (find?_name_eq_some_iff h).1 hentry
    exact hmem
  · exact fun hmem => ⟨(name, key), (find?_name_eq_some_iff h).2 ⟨hmem, rfl⟩, rfl⟩

end SchemaOf

/-! ### Paths -/

/-- What a path stands for in a draft. -/
inductive Draft.Denotes (w : Workspace) (d : Draft) : TypePath → DataType → Prop
  /-- A type of the draft itself. -/
  | own {name : String} {i : Nat} {t : DraftType} (ht : d.types[i]? = some t)
      (hname : t.name = name) : Denotes w d ⟨none, name⟩ (t.kind.dataType ⟨d.key, i⟩)
  | primitive {name : String} {id : PrimitiveId} (hown : name ∉ d.typeNames)
      (hid : w.primitives.lookup? name = some id) : Denotes w d ⟨none, name⟩ (.primitive id)
  | void {name : String} (hown : name ∉ d.typeNames) (hprimitive : w.primitives.lookup? name = none)
      (hname : name = voidName) : Denotes w d ⟨none, name⟩ .void
  /-- An alias of the draft itself stands for the types of the draft alone. -/
  | selfImport {qualifier name : String} {i : Nat} {t : DraftType}
      (himport : (qualifier, d.key) ∈ d.imports) (ht : d.types[i]? = some t)
      (hname : t.name = name) : Denotes w d ⟨some qualifier, name⟩ (t.kind.dataType ⟨d.key, i⟩)
  /-- Any other alias stands for the types of a published schema. -/
  | imported {qualifier name : String} {s : Schema} {i : Nat} {t : LinkedType}
      (himport : (qualifier, s.key) ∈ d.imports) (hs : w.schemas[s.key]? = some s)
      (ht : s.types[i]? = some t) (hname : t.name = name) :
      Denotes w d ⟨some qualifier, name⟩ (t.kind.dataType ⟨s.key, i⟩)

namespace Resolution

theorem typeNamed?_eq_some_iff {β ι τ : Type} {s : SchemaOf β ι τ} (h : s.typeNames.Nodup)
    {name : String} {t : DataType} : typeNamed? s name = some t ↔
      ∃ i, ∃ u : UserType β ι τ,
        s.types[i]? = some u ∧ u.name = name ∧ u.kind.dataType ⟨s.key, i⟩ = t := by
  rw [typeNamed?, Option.bind_eq_some_iff]
  refine exists_congr fun i => ?_
  rw [SchemaOf.typeIndex?_eq_some_iff h, typeAt]
  constructor
  · rintro ⟨⟨u, hu, hname⟩, ht⟩
    rw [hu, Option.map_some, Option.some.injEq] at ht
    exact ⟨u, hu, hname, ht⟩
  · rintro ⟨u, hu, hname, ht⟩
    rw [hu, Option.map_some, ht]
    exact ⟨⟨u, rfl, hname⟩, rfl⟩

theorem typeNamed?_eq_none_iff {β ι τ : Type} {s : SchemaOf β ι τ} (h : s.typeNames.Nodup)
    {name : String} : typeNamed? s name = none ↔ name ∉ s.typeNames := by
  rw [Option.eq_none_iff_forall_ne_some, SchemaOf.typeNames, List.mem_map]
  constructor
  · rintro hnone ⟨u, hu, hname⟩
    obtain ⟨i, hi⟩ := List.getElem?_of_mem hu
    exact hnone _ ((typeNamed?_eq_some_iff h).2 ⟨i, u, hi, hname, rfl⟩)
  · intro hnot t ht
    obtain ⟨i, u, hu, hname, -⟩ := (typeNamed?_eq_some_iff h).1 ht
    exact hnot ⟨u, List.mem_of_getElem? hu, hname⟩

section Paths

variable (hw : w.WellFormed) (hd : declaration.DraftsTo w unit d)

include hd in
theorem denotes_bare_own {name : String} {t t' : DataType} (h : typeNamed? d name = some t') :
    d.Denotes w ⟨none, name⟩ t ↔ t' = t := by
  obtain ⟨i, u, hu, hname, rfl⟩ := (typeNamed?_eq_some_iff hd.nodup_names).1 h
  have hmem : name ∈ d.typeNames := hname ▸ List.mem_map_of_mem (List.mem_of_getElem? hu)
  constructor
  · intro hdenotes
    cases hdenotes with
    | own hu' hname' =>
        have hown := (typeNamed?_eq_some_iff hd.nodup_names).2 ⟨_, _, hu', hname', rfl⟩
        exact Option.some.inj (h.symm.trans hown)
    | primitive hnot _ | void hnot _ _ => exact absurd hmem hnot
  · rintro rfl
    exact .own hu hname

/-- What a bare name that is not declared denotes. -/
theorem denotes_bare_iff {name : String} {t : DataType} (hnot : name ∉ d.typeNames) :
    d.Denotes w ⟨none, name⟩ t ↔
      (∃ id, w.primitives.lookup? name = some id ∧ .primitive id = t) ∨
        w.primitives.lookup? name = none ∧ name = voidName ∧ .void = t := by
  constructor
  · intro hdenotes
    cases hdenotes with
    | own hu hname =>
        exact absurd (hname ▸ List.mem_map_of_mem (List.mem_of_getElem? hu)) hnot
    | primitive _ hid => exact .inl ⟨_, hid, rfl⟩
    | void _ hid hvoid => exact .inr ⟨hid, hvoid, rfl⟩
  · rintro (⟨id, hid, rfl⟩ | ⟨hid, hvoid, rfl⟩)
    · exact .primitive hnot hid
    · exact .void hnot hid hvoid

include hd in
theorem bareName?_eq_some_iff {name : String} {t : DataType} :
    bareName? w d name = some t ↔ d.Denotes w ⟨none, name⟩ t := by
  rw [bareName?]
  cases hown : typeNamed? d name with
  | some t' => rw [denotes_bare_own hd hown, Option.some.injEq]
  | none =>
      rw [denotes_bare_iff ((typeNamed?_eq_none_iff hd.nodup_names).1 hown)]
      cases w.primitives.lookup? name with
      | some id => simp
      | none => simp

include hd in
/-- An alias stands for one schema. -/
theorem import_unique {qualifier : String} {key key' : SchemaKey}
    (h : (qualifier, key) ∈ d.imports) (h' : (qualifier, key') ∈ d.imports) : key' = key := by
  rw [← SchemaOf.import?_eq_some_iff hd.nodup_aliases] at h h'
  exact Option.some.inj (h'.symm.trans h)

include hd in
/-- A published schema does not have the key that the draft is to get. -/
theorem key_unpublished : w.schemas[d.key]? = none := by
  rw [hd.key]
  exact List.getElem?_eq_none (Nat.le_refl _)

include hd in
theorem denotes_own_iff {qualifier name : String} {t : DataType}
    (h : (qualifier, d.key) ∈ d.imports) :
    d.Denotes w ⟨some qualifier, name⟩ t ↔ typeNamed? d name = some t := by
  rw [typeNamed?_eq_some_iff hd.nodup_names]
  constructor
  · intro hdenotes
    cases hdenotes with
    | selfImport _ hu hname => exact ⟨_, _, hu, hname, rfl⟩
    | imported h' hs _ _ =>
        rw [import_unique hd h h', key_unpublished hd] at hs
        contradiction
  · rintro ⟨i, u, hu, hname, rfl⟩
    exact .selfImport h hu hname

include hw hd in
theorem denotes_imported_iff {qualifier name : String} {s : Schema} {t : DataType}
    (h : (qualifier, s.key) ∈ d.imports) (hs : w.schemas[s.key]? = some s) :
    d.Denotes w ⟨some qualifier, name⟩ t ↔ typeNamed? s.toSchemaOf name = some t := by
  rw [typeNamed?_eq_some_iff (hw.nodup_typeNames s (List.mem_of_getElem? hs))]
  constructor
  · intro hdenotes
    cases hdenotes with
    | selfImport h' _ _ =>
        rw [← import_unique hd h h', key_unpublished hd] at hs
        contradiction
    | imported h' hs' hu hname =>
        rw [import_unique hd h h'] at hs' ⊢
        obtain rfl := Option.some.inj (hs.symm.trans hs')
        exact ⟨_, _, hu, hname, rfl⟩
  · rintro ⟨i, u, hu, hname, rfl⟩
    exact .imported h hs hu hname

include hw hd in
/-- A path is resolved to what it denotes and to nothing else. -/
theorem resolvePath_eq_ok_iff {owner : String} {path : TypePath} {t : DataType} :
    resolvePath w d owner path = .ok t ↔ d.Denotes w path t := by
  obtain ⟨qualifier, name⟩ := path
  cases qualifier with
  | none => exact elim_eq_ok.trans (bareName?_eq_some_iff hd)
  | some qualifier =>
      rw [resolvePath]
      simp only
      cases himport : d.import? qualifier with
      | none =>
          simp only [reduceCtorEq, false_iff]
          intro h
          cases h with
          | selfImport hmem _ _ | imported hmem _ _ _ =>
              rw [(SchemaOf.import?_eq_some_iff hd.nodup_aliases).2 hmem] at himport
              contradiction
      | some key =>
          simp only
          have hmem := (SchemaOf.import?_eq_some_iff hd.nodup_aliases).1 himport
          by_cases hself : key = d.key
          · subst hself
            rw [if_pos rfl, elim_eq_ok, denotes_own_iff hd hmem]
          · rw [if_neg hself]
            cases hs : w.schemas[key]? with
            | none =>
                simp only [reduceCtorEq, false_iff]
                intro h
                cases h with
                | selfImport hmem' _ _ => exact hself (import_unique hd hmem hmem').symm
                | imported hmem' hs' _ _ =>
                    rw [import_unique hd hmem hmem', hs] at hs'
                    contradiction
            | some s =>
                simp only
                obtain rfl := hw.indexed.key_eq key s hs
                rw [elim_eq_ok, denotes_imported_iff hw hd hmem hs]

end Paths

end Resolution

/-! ### Types of properties -/

/-- The type of a value with a role: not `void`, and an entity exactly for a foreign key. -/
structure Draft.DenotesValue (w : Workspace) (d : Draft) (role : PropertyRole) (path : TypePath)
    (t : DataType) : Prop where
  path : d.Denotes w path t
  not_void : t ≠ .void
  isEntity_iff : t.isEntity = true ↔ role = .foreignKey

/-- The key of a map: a primitive that can be a key. -/
structure Draft.DenotesKey (w : Workspace) (d : Draft) (path : TypePath) (id : PrimitiveId) :
    Prop where
  path : d.Denotes w path (.primitive id)
  canBeKey : ∃ p, w.primitives[id]? = some p ∧ p.canBeKey = true

/-- What the type expression of a property with a role stands for. -/
inductive TypeExpr.Denotes (w : Workspace) (d : Draft) (role : PropertyRole) :
    TypeExpr → DataType → Prop
  | named {path : TypePath} {t : DataType} (h : d.DenotesValue w role path t) :
      Denotes w d role (.named path) t
  | map {key value : TypePath} {id : PrimitiveId} {t : DataType} (hkey : d.DenotesKey w key id)
      (hvalue : d.DenotesValue w role value t) :
      Denotes w d role (.container .map (some key) value) (.container .map (some id) t)
  | keyless {shape : Shape} {value : TypePath} {t : DataType} (hshape : shape ≠ .map)
      (hvalue : d.DenotesValue w role value t) :
      Denotes w d role (.container shape none value) (.container shape none t)

namespace Resolution

variable (hw : w.WellFormed) (hd : declaration.DraftsTo w unit d)

include hw hd

theorem resolveSupertype_eq_ok_iff {owner : String} {expected : TypeKind} {path : TypePath}
    {r : TypeRef} : resolveSupertype w d owner expected path = .ok r ↔
      d.Denotes w path (expected.dataType r) := by
  rw [resolveSupertype_eq_ok]
  constructor
  · rintro ⟨t, ht, -, rfl⟩
    exact (resolvePath_eq_ok_iff hw hd).1 ht
  · exact fun h =>
      ⟨_, (resolvePath_eq_ok_iff hw hd).2 h, TypeKind.userType?_dataType expected r, rfl⟩

theorem resolveValue_eq_ok_iff {site : Site} {path : TypePath} {t : DataType} :
    resolveValue w d site path = .ok t ↔ d.DenotesValue w site.role path t := by
  rw [resolveValue_eq_ok, resolvePath_eq_ok_iff hw hd]
  exact ⟨fun ⟨hpath, hvoid, hrole⟩ => ⟨hpath, hvoid, hrole⟩,
    fun h => ⟨h.path, h.not_void, h.isEntity_iff⟩⟩

theorem resolveMapKey_eq_ok_iff {site : Site} {path : TypePath} {id : PrimitiveId} :
    resolveMapKey w d site path = .ok id ↔ d.DenotesKey w path id := by
  rw [resolveMapKey_eq_ok, resolvePath_eq_ok_iff hw hd]
  exact ⟨fun ⟨hpath, hkey⟩ => ⟨hpath, hkey⟩, fun h => ⟨h.path, h.canBeKey⟩⟩

theorem resolveExpr_eq_ok_iff {site : Site} {e : TypeExpr} (hfits : e.KeyFits) {t : DataType} :
    resolveExpr w d site e = .ok t ↔ e.Denotes w d site.role t := by
  cases e with
  | named path =>
      rw [resolveExpr, resolveValue_eq_ok_iff hw hd]
      exact ⟨.named, fun h => by cases h; assumption⟩
  | container shape key value =>
      have hkeyless : shape ≠ .map → key = none := fun hshape => by
        cases key with
        | none => rfl
        | some path => exact absurd (hfits.symm.trans rfl) (by simpa [Shape.hasKey] using hshape)
      rw [resolveExpr, bind_eq_ok]
      constructor
      · rintro ⟨key', hkey, h⟩
        obtain ⟨v, hv, h⟩ := bind_eq_ok.1 h
        obtain rfl := pure_eq_ok.1 h
        rw [resolveValue_eq_ok_iff hw hd] at hv
        by_cases hshape : shape = .map
        · subst hshape
          cases key with
          | none => contradiction
          | some path =>
              obtain ⟨id, hid, rfl⟩ := map_eq_ok.1 hkey
              exact .map ((resolveMapKey_eq_ok_iff hw hd).1 hid) hv
        · obtain rfl := hkeyless hshape
          obtain rfl := pure_eq_ok.1 hkey
          rw [DataType.instantiate, ite_self]
          exact .keyless hshape hv
      · intro h
        cases h with
        | map hkey hvalue =>
            exact ⟨_, map_eq_ok.2 ⟨_, (resolveMapKey_eq_ok_iff hw hd).2 hkey, rfl⟩,
              bind_eq_ok.2 ⟨_, (resolveValue_eq_ok_iff hw hd).2 hvalue, rfl⟩⟩
        | keyless hshape hvalue =>
            refine ⟨none, rfl, bind_eq_ok.2 ⟨_, (resolveValue_eq_ok_iff hw hd).2 hvalue, ?_⟩⟩
            rw [DataType.instantiate, ite_self]
            rfl

end Resolution

/-! ### Types of a draft -/

/-- The type of a property is what was written. -/
structure Property.Denotes (w : Workspace) (d : Draft) (p : Property TypeBinding)
    (q : LinkedProperty) : Prop where
  name : q.name = p.name
  role : q.role = p.role
  default : q.default = p.default
  metadata : q.metadata = p.metadata
  type : ∃ e, p.type = .pending e ∧ e.Denotes w d p.role q.type

/-- The base is a type of the kind of the type itself, the interfaces are interfaces, and all are
those that were written, in the order in which they were written. -/
structure Composite.Denotes (w : Workspace) (d : Draft) (kind : TypeKind)
    (c : Composite BaseBinding InterfacesBinding TypeBinding) (l : LinkedComposite) : Prop where
  isAbstract : l.isAbstract = c.isAbstract
  base : ∃ path, c.base = .pending path ∧
    Option.Rel (fun p r => d.Denotes w p (kind.dataType r)) path l.base
  interfaces : ∃ paths, c.interfaces = .pending paths ∧
    List.Forall₂ (fun p r => d.Denotes w p (.interface r)) paths l.interfaces
  properties : List.Forall₂ (Property.Denotes w d) c.properties l.properties

inductive TypeBody.Denotes (w : Workspace) (d : Draft) (kind : TypeKind) :
    TypeBody BaseBinding InterfacesBinding TypeBinding →
      TypeBody (Option TypeRef) (List TypeRef) DataType → Prop
  | composite {c : Composite BaseBinding InterfacesBinding TypeBinding}
      {l : LinkedComposite} (h : c.Denotes w d kind l) :
      Denotes w d kind (.composite c) (.composite l)
  | enum (e : EnumBody) : Denotes w d kind (.enum e) (.enum e)

structure DraftType.Denotes (w : Workspace) (d : Draft) (t : DraftType) (l : LinkedType) :
    Prop where
  name : l.name = t.name
  «namespace» : l.namespace = t.namespace
  kind : l.kind = t.kind
  metadata : l.metadata = t.metadata
  body : t.body.Denotes w d t.kind l.body

/-- Each reference of a composite type denotes something that is admissible in its place. -/
structure Composite.Admissible (w : Workspace) (d : Draft) (kind : TypeKind)
    (c : Composite BaseBinding InterfacesBinding TypeBinding) : Prop where
  base : ∃ path, c.base = .pending path ∧
    ∀ p ∈ path, ∃ r, d.Denotes w p (kind.dataType r)
  interfaces : ∃ paths, c.interfaces = .pending paths ∧
    ∀ p ∈ paths, ∃ r, d.Denotes w p (.interface r)
  properties : ∀ p ∈ c.properties, ∃ e, p.type = .pending e ∧ ∃ t, e.Denotes w d p.role t

def DraftType.Admissible (w : Workspace) (d : Draft) (t : DraftType) : Prop :=
  ∀ c, t.body = .composite c → c.Admissible w d t.kind

/-! ### What is admissible -/

theorem Property.exists_denotes_iff {p : Property TypeBinding} :
    (∃ q, p.Denotes w d q) ↔ ∃ e, p.type = .pending e ∧ ∃ t, e.Denotes w d p.role t := by
  constructor
  · rintro ⟨q, hq⟩
    obtain ⟨e, he, ht⟩ := hq.type
    exact ⟨e, he, q.type, ht⟩
  · rintro ⟨e, he, t, ht⟩
    exact ⟨{ p with type := t }, rfl, rfl, rfl, rfl, e, he, ht⟩

theorem Composite.exists_denotes_iff {kind : TypeKind}
    {c : Composite BaseBinding InterfacesBinding TypeBinding} :
    (∃ l, c.Denotes w d kind l) ↔ c.Admissible w d kind := by
  constructor
  · rintro ⟨⟨_, base, _, _⟩, -, ⟨path, hpath, hbase⟩, ⟨paths, hpaths, hinterfaces⟩, hproperties⟩
    refine ⟨⟨path, hpath, fun p hp => ?_⟩, ⟨paths, hpaths, ?_⟩, fun p hp => ?_⟩
    · obtain rfl := Option.mem_def.1 hp
      cases hbase with
      | some hr => exact ⟨_, hr⟩
    · exact exists_forall₂_iff.1 ⟨_, hinterfaces⟩
    · exact Property.exists_denotes_iff.1 (exists_forall₂_iff.1 ⟨_, hproperties⟩ p hp)
  · rintro ⟨⟨path, hpath, hbase⟩, ⟨paths, hpaths, hinterfaces⟩, hproperties⟩
    obtain ⟨base, hbase⟩ : ∃ base : Option TypeRef,
        Option.Rel (fun p r => d.Denotes w p (kind.dataType r)) path base := by
      cases path with
      | none => exact ⟨none, .none⟩
      | some p =>
          obtain ⟨r, hr⟩ := hbase p rfl
          exact ⟨some r, .some hr⟩
    obtain ⟨interfaces, hinterfaces⟩ := exists_forall₂_iff.2 hinterfaces
    obtain ⟨properties, hproperties⟩ := exists_forall₂_iff.2 fun p hp =>
      Property.exists_denotes_iff.2 (hproperties p hp)
    exact ⟨⟨c.isAbstract, base, interfaces, properties⟩, rfl, ⟨path, hpath, hbase⟩,
      ⟨paths, hpaths, hinterfaces⟩, hproperties⟩

theorem DraftType.exists_denotes_iff {t : DraftType} :
    (∃ l, DraftType.Denotes w d t l) ↔ t.Admissible w d := by
  obtain ⟨name, ns, kind, body, metadata⟩ := t
  cases body with
  | enum e =>
      refine iff_of_true ⟨⟨name, ns, kind, .enum e, metadata⟩, rfl, rfl, rfl, rfl, .enum e⟩ ?_
      rintro c ⟨⟩
  | composite c =>
      constructor
      · rintro ⟨⟨_, _, _, _, _⟩, -, -, -, -, hbody⟩ _ ⟨⟩
        cases hbody with
        | composite h => exact Composite.exists_denotes_iff.1 ⟨_, h⟩
      · intro h
        obtain ⟨l, hl⟩ := Composite.exists_denotes_iff.2 (h c rfl)
        exact ⟨⟨name, ns, kind, .composite l, metadata⟩, rfl, rfl, rfl, rfl, .composite hl⟩

/-! ### What references resolve to -/

section ResolvesTo

variable (hw : w.WellFormed) (hd : declaration.DraftsTo w unit d)

include hw hd

theorem Property.resolvesTo_iff_denotes {type : String} {p : Property TypeBinding}
    {q : LinkedProperty} (hwaits : ∃ e, p.type = .pending e ∧ e.KeyFits) :
    p.ResolvesTo w d type q ↔ p.Denotes w d q := by
  obtain ⟨e, he, hfits⟩ := hwaits
  constructor
  · rintro ⟨hname, hrole, hdefault, hmetadata, htype⟩
    exact ⟨hname, hrole, hdefault, hmetadata, e, he,
      (Resolution.resolveExpr_eq_ok_iff hw hd hfits).1 (htype e he)⟩
  · rintro ⟨hname, hrole, hdefault, hmetadata, e', he', htype⟩
    refine ⟨hname, hrole, hdefault, hmetadata, fun e'' he'' => ?_⟩
    obtain rfl := Binding.pending.inj (he''.symm.trans he)
    obtain rfl := Binding.pending.inj (he''.symm.trans he')
    exact (Resolution.resolveExpr_eq_ok_iff hw hd hfits).2 htype

theorem Composite.resolvesTo_iff_denotes {type : String} {kind : TypeKind}
    {c : Composite BaseBinding InterfacesBinding TypeBinding} {l : LinkedComposite}
    (hwaits : c.Waits kind) : c.ResolvesTo w d type kind l ↔ c.Denotes w d kind l := by
  obtain ⟨path, hpath, -⟩ := hwaits.base
  obtain ⟨paths, hpaths⟩ := hwaits.interfaces
  have hbase : path.mapM (Resolution.resolveSupertype w d type kind) = .ok l.base ↔
      Option.Rel (fun p r => d.Denotes w p (kind.dataType r)) path l.base := by
    rw [optionMapM_eq_ok]
    simp only [Resolution.resolveSupertype_eq_ok_iff hw hd]
  have hinterfaces : paths.mapM (Resolution.resolveSupertype w d type .interface) =
      .ok l.interfaces ↔
        List.Forall₂ (fun p r => d.Denotes w p (.interface r)) paths l.interfaces := by
    rw [mapM_eq_ok]
    simp only [Resolution.resolveSupertype_eq_ok_iff hw hd, TypeKind.dataType]
  have hproperties : List.Forall₂ (Property.ResolvesTo w d type) c.properties l.properties ↔
      List.Forall₂ (Property.Denotes w d) c.properties l.properties :=
    forall₂_congr_of_mem fun p hp q =>
      Property.resolvesTo_iff_denotes hw hd (hwaits.properties p hp)
  constructor
  · intro h
    exact ⟨h.isAbstract, ⟨path, hpath, hbase.1 (h.base path hpath)⟩,
      ⟨paths, hpaths, hinterfaces.1 (h.interfaces paths hpaths)⟩, hproperties.1 h.properties⟩
  · intro h
    refine ⟨h.isAbstract, fun _ h' => ?_, fun _ h' => ?_, hproperties.2 h.properties⟩
    · obtain ⟨path', hpath', hrel⟩ := h.base
      obtain rfl := Binding.pending.inj (hpath.symm.trans hpath')
      obtain rfl := Binding.pending.inj (hpath.symm.trans h')
      exact hbase.2 hrel
    · obtain ⟨paths', hpaths', hrel⟩ := h.interfaces
      obtain rfl := Binding.pending.inj (hpaths.symm.trans hpaths')
      obtain rfl := Binding.pending.inj (hpaths.symm.trans h')
      exact hinterfaces.2 hrel

theorem DraftType.resolvesTo_iff_denotes {t : DraftType} {l : LinkedType} (hwaits : t.Waits) :
    t.ResolvesTo w d l ↔ DraftType.Denotes w d t l := by
  obtain ⟨name, ns, kind, body, metadata⟩ := t
  obtain ⟨name', ns', kind', body', metadata'⟩ := l
  have hbody : body.ResolvesTo w d name kind body' ↔ body.Denotes w d kind body' := by
    constructor
    · intro h
      cases h with
      | enum e => exact .enum e
      | composite hc =>
          exact .composite ((Composite.resolvesTo_iff_denotes hw hd (hwaits _ rfl)).1 hc)
    · intro h
      cases h with
      | enum e => exact .enum e
      | composite hc =>
          exact .composite ((Composite.resolvesTo_iff_denotes hw hd (hwaits _ rfl)).2 hc)
  exact ⟨fun h => ⟨h.name, h.namespace, h.kind, h.metadata, hbody.1 h.body⟩,
    fun h => ⟨h.name, h.namespace, h.kind, h.metadata, hbody.2 h.body⟩⟩

/-- All references can be resolved if and only if each is admissible. -/
theorem Draft.resolve_ok_iff (hwaits : ∀ t ∈ d.types, DraftType.Waits t) :
    (∃ d', d.resolve w = (d', .ok ())) ↔ ∀ t ∈ d.types, DraftType.Admissible w d t := by
  have htypes : (∃ ls, List.Forall₂ (DraftType.ResolvesTo w d) d.types ls) ↔
      ∀ t ∈ d.types, DraftType.Admissible w d t := by
    rw [exists_forall₂_iff]
    refine forall₂_congr fun t ht => ?_
    rw [← DraftType.exists_denotes_iff]
    exact exists_congr fun l => DraftType.resolvesTo_iff_denotes hw hd (hwaits t ht)
  rw [← htypes]
  constructor
  · rintro ⟨d', hd'⟩
    obtain ⟨-, u, -, hu⟩ := Draft.resolve_ok hd'
    exact ⟨u.types, hu.types⟩
  · rintro ⟨ls, hls⟩
    obtain ⟨d', hd', -⟩ := Draft.resolve_of_resolvesTo hwaits
      (u := ⟨d.key, d.source, d.name, d.namespace, d.imports, ls, d.metadata⟩)
      ⟨rfl, rfl, rfl, rfl, rfl, rfl, hls⟩
    exact ⟨d', hd'⟩

end ResolvesTo

/-! ### Where handles lead -/

/-- A type of the draft is found under its handle once the unit is linked. -/
theorem Draft.ResolvesTo.type?_own {u : Linked} (hu : d.ResolvesTo w u) {i : Nat} {t : DraftType}
    (ht : d.types[i]? = some t) :
    ∃ l, (Scope.mk w u).type? ⟨d.key, i⟩ = some l ∧ l.name = t.name ∧ l.kind = t.kind := by
  obtain ⟨l, hl, hresolves⟩ := exists_of_forall₂_left hu.types ht
  refine ⟨l, ?_, hresolves.name, hresolves.kind⟩
  rw [Scope.type?_own hu.key.symm]
  exact hl

/-- The handle that a path denotes leads to a type of the name in the path. That is a type of the
draft itself, or of the schema that the alias stands for. -/
theorem Draft.Denotes.type? (hd : declaration.DraftsTo w unit d) {u : Linked}
    (hu : d.ResolvesTo w u) {path : TypePath} {t : DataType} (h : d.Denotes w path t)
    {r : TypeRef} (hr : t.userType? = some r) :
    (∃ l, (Scope.mk w u).type? r = some l ∧ l.name = path.name ∧ t = l.kind.dataType r) ∧
      (path.qualifier = none → r.schema = d.key) ∧
      ∀ qualifier, path.qualifier = some qualifier →
        ∃ i ∈ declaration.imports, i.StandsFor w unit d.name (qualifier, r.schema) := by
  have hown : ∀ {i : Nat} {t : DraftType} {name : String}, d.types[i]? = some t → t.name = name →
      ∃ l, (Scope.mk w u).type? ⟨d.key, i⟩ = some l ∧ l.name = name ∧
        t.kind.dataType ⟨d.key, i⟩ = l.kind.dataType ⟨d.key, i⟩ := fun ht hname => by
    obtain ⟨l, hl, hlname, hkind⟩ := hu.type?_own ht
    exact ⟨l, hl, hlname.trans hname, by rw [hkind]⟩
  have himport : ∀ {qualifier : String} {key : SchemaKey}, (qualifier, key) ∈ d.imports →
      ∀ qualifier', some qualifier = some qualifier' →
        ∃ i ∈ declaration.imports, i.StandsFor w unit d.name (qualifier', key) := by
    rintro qualifier key hmem _ ⟨⟩
    exact exists_of_forall₂_right hd.imports hmem
  cases h with
  | primitive _ _ => contradiction
  | void _ _ _ => contradiction
  | own ht hname =>
      rw [TypeKind.userType?_dataType] at hr
      obtain rfl := Option.some.inj hr
      exact ⟨hown ht hname, fun _ => rfl, by simp⟩
  | selfImport hmem ht hname =>
      rw [TypeKind.userType?_dataType] at hr
      obtain rfl := Option.some.inj hr
      exact ⟨hown ht hname, by simp, himport hmem⟩
  | @imported _ _ s i l hmem hs ht hname =>
      rw [TypeKind.userType?_dataType] at hr
      obtain rfl := Option.some.inj hr
      refine ⟨⟨l, ?_, hname, rfl⟩, by simp, himport hmem⟩
      have hne : s.key ≠ u.key := fun heq => by
        rw [heq, hu.key, Resolution.key_unpublished hd] at hs
        contradiction
      rw [Scope.type?_published hne, Workspace.type?, hs]
      exact ht

/-! ### Resolution -/

/-- Resolution that succeeds leaves a unit in which every type is what the declared one denotes. -/
theorem Draft.resolve_denotes (hw : w.WellFormed)
    (hd : Draft.ofDeclaration w unit declaration = .ok d) (h : d.resolve w = (d', .ok ())) :
    ∃ u : Linked, d'.link = .ok u ∧ d.ResolvesTo w u ∧
      List.Forall₂ (DraftType.Denotes w d) d.types u.types := by
  have hwaits := Draft.waits_of_ofDeclaration hd
  obtain ⟨-, u, hlink, hu⟩ := Draft.resolve_ok h
  refine ⟨u, hlink, hu, (forall₂_congr_of_mem fun t ht l => ?_).1 hu.types⟩
  exact DraftType.resolvesTo_iff_denotes hw (Draft.ofDeclaration_eq_ok.1 hd) (hwaits t ht)

/-- The references of a declared unit can be resolved if and only if each base, interface and
property type denotes something admissible; and then each is replaced by what it denotes, the only
thing that it denotes, in the order in which they were written. A handle that a path denotes leads to
a type of the name that was written, in the unit itself or in the schema that the alias stands for. -/
theorem references_resolve_to_denotation (hw : w.WellFormed)
    (hd : Draft.ofDeclaration w unit declaration = .ok d) :
    ((∃ d', d.resolve w = (d', .ok ())) ↔ ∀ t ∈ d.types, DraftType.Admissible w d t) ∧
    (∀ path t t', d.Denotes w path t → d.Denotes w path t' → t = t') ∧
    ∀ d', d.resolve w = (d', .ok ()) → ∃ u : Linked, d'.link = .ok u ∧ u.key = d.key ∧
      List.Forall₂ (DraftType.Denotes w d) d.types u.types ∧
      ∀ path t r, d.Denotes w path t → t.userType? = some r →
        (∃ l, (Scope.mk w u).type? r = some l ∧ l.name = path.name ∧ t = l.kind.dataType r) ∧
        (path.qualifier = none → r.schema = d.key) ∧
        ∀ qualifier, path.qualifier = some qualifier →
          ∃ i ∈ declaration.imports, i.StandsFor w unit d.name (qualifier, r.schema) := by
  have hwaits := Draft.waits_of_ofDeclaration hd
  have hdrafts := Draft.ofDeclaration_eq_ok.1 hd
  refine ⟨Draft.resolve_ok_iff hw hdrafts hwaits, fun path t t' ht ht' => ?_, fun d' hd' => ?_⟩
  · have hresolve : Resolution.resolvePath w d "" path = .ok t :=
      (Resolution.resolvePath_eq_ok_iff hw hdrafts).2 ht
    rw [Resolution.resolvePath_eq_ok_iff hw hdrafts |>.2 ht'] at hresolve
    exact (Except.ok.inj hresolve).symm
  · obtain ⟨u, hlink, hu, hdenotes⟩ := Draft.resolve_denotes hw hd hd'
    exact ⟨u, hlink, hu.key, hdenotes, fun path t r ht hr => ht.type? hdrafts hu hr⟩

/-- A unit that imports the schema of `importedWorkspace`, and itself under another name. -/
def importingDeclaration : Declaration :=
  { name := some "C"
    imports := [{ source := "a" }, { source := "c", localName := some "Me" }]
    types := [
      .struct { name := some "T", base := some "Me.S", interfaces := ["A.I"], properties := [
        { name := some "v", typeText := some "A.S[]" },
        { name := some "w", typeText := some "int" }] },
      .struct { name := some "S" }] }

/-- Every reference of the unit denotes, the base under the unit's own alias and the rest under that of
the import or by a bare name. -/
theorem references_resolve_importing :
    importedWorkspace.WellFormed ∧
      ∃ d, Draft.ofDeclaration importedWorkspace "c" importingDeclaration = .ok d ∧
        (∀ t ∈ d.types, DraftType.Admissible importedWorkspace d t) ∧
        ∃ d' u, d.resolve importedWorkspace = (d', .ok ()) ∧ d'.link = .ok u ∧
          List.Forall₂ (DraftType.Denotes importedWorkspace d) d.types u.types := by
  have hw : importedWorkspace.WellFormed :=
    ((Reached.empty [.builtin "int" .int32] {} none).load derivingSources.reader ["a"]).wellFormed
  have hrun : (Draft.ofDeclaration importedWorkspace "c" importingDeclaration).toOption.map
      (fun d => (d.resolve importedWorkspace).2.toOption) = some (some ()) := by cbv
  obtain ⟨d, hd, hresolve⟩ := Option.map_eq_some_iff.1 hrun
  rw [toOption_eq_some] at hd hresolve
  have hd' : d.resolve importedWorkspace = ((d.resolve importedWorkspace).1, .ok ()) :=
    Prod.ext rfl hresolve
  obtain ⟨hiff, -, hresolved⟩ := references_resolve_to_denotation hw hd
  obtain ⟨u, hlink, -, hdenotes, -⟩ := hresolved _ hd'
  exact ⟨hw, d, hd, hiff.1 ⟨_, hd'⟩, _, u, hd', hlink, hdenotes⟩

end SchemaGraph
