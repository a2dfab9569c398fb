import SchemaGraph.Proofs.Publication

/-!
Soundness of the graph of published types: every handle in a published schema leads to a type that
is published as well, in this schema or an earlier one, and that is of the kind asked for.

A draft can name its own types and those published before. Resolution finds nothing else, and what
is found stays where it is when the workspace grows.
-/

namespace SchemaGraph

/-! ### Sound types -/

/-- The handle stands for a published type of a kind, in a schema with a key up to `bound`. -/
def Workspace.HasType (w : Workspace) (bound : SchemaKey) (r : TypeRef) (k : TypeKind) : Prop :=
  r.schema ≤ bound ∧ ∃ t, w.type? r = some t ∧ t.kind = k

namespace DataType

/-- The type itself, or the type of the values of a container. -/
def leaf : DataType → DataType
  | .container _ _ value => value
  | t => t

/-- What the leaf of a property type has to be, given the role of the property. -/
structure SoundLeaf (w : Workspace) (bound : SchemaKey) (role : PropertyRole) (t : DataType) :
    Prop where
  handle : ∀ r, t.userType? = some r → ∃ k, t = k.dataType r ∧ w.HasType bound r k
  isEntity_iff : t.isEntity = true ↔ role = .foreignKey
  not_void : t ≠ .void
  not_generic : ∀ shape, t ≠ .generic shape
  not_container : ∀ shape key value, t ≠ .container shape key value

structure Sound (w : Workspace) (bound : SchemaKey) (role : PropertyRole) (t : DataType) :
    Prop where
  leaf : t.leaf.SoundLeaf w bound role
  mapKey : ∀ key value, t = .container .map key value →
    ∃ id p, key = some id ∧ w.primitives[id]? = some p ∧ p.canBeKey = true
  noKey : ∀ shape key value, t = .container shape key value → shape ≠ .map → key = none

end DataType

structure Composite.Sound (w : Workspace) (bound : SchemaKey) (kind : TypeKind)
    (c : LinkedComposite) : Prop where
  base : ∀ r, c.base = some r →
    (kind = .entity ∨ kind = .struct) ∧ w.HasType bound r kind
  interfaces : ∀ r ∈ c.interfaces, w.HasType bound r .interface
  properties : ∀ p ∈ c.properties, p.type.Sound w bound p.role

structure UserType.Sound (w : Workspace) (bound : SchemaKey) (t : LinkedType) : Prop where
  agrees : t.Agrees
  composite : ∀ c, t.body = .composite c → c.Sound w bound t.kind

def Workspace.Sound (w : Workspace) : Prop :=
  ∀ s ∈ w.schemas, ∀ t ∈ s.types, t.Sound w s.key

/-! ### Growth -/

theorem Workspace.type?_publish {w : Workspace} {r : TypeRef} {t : LinkedType} (s : Schema)
    (h : w.type? r = some t) : (w.publish s).type? r = some t := by
  obtain ⟨u, hu, ht⟩ := Option.bind_eq_some_iff.1 h
  exact Option.bind_eq_some_iff.2 ⟨u, getElem?_publish.2 (.inl hu), ht⟩

theorem Workspace.type?_publish_of_ne {w : Workspace} {r : TypeRef} (s : Schema)
    (h : r.schema ≠ w.nextKey) : (w.publish s).type? r = w.type? r := by
  rw [type?, getElem?_publish_of_ne s h, ← type?]

theorem Workspace.type?_publish_of_eq {w : Workspace} {r : TypeRef} (s : Schema)
    (h : r.schema = w.nextKey) : (w.publish s).type? r = s.types[r.index]? := by
  rw [type?, h, getElem?_publish_nextKey, Option.bind_some]

theorem Workspace.lt_nextKey_of_type? {w : Workspace} {r : TypeRef} {t : LinkedType}
    (h : w.type? r = some t) : r.schema < w.nextKey := by
  obtain ⟨s, hs, -⟩ := Option.bind_eq_some_iff.1 h
  exact (List.getElem?_eq_some_iff.1 hs).1

theorem Workspace.HasType.publish {w : Workspace} {bound : SchemaKey} {r : TypeRef} {k : TypeKind}
    (h : w.HasType bound r k) (s : Schema) : (w.publish s).HasType bound r k := by
  obtain ⟨hbound, t, ht, hkind⟩ := h
  exact ⟨hbound, t, type?_publish s ht, hkind⟩

theorem DataType.Sound.publish {w : Workspace} {bound : SchemaKey} {role : PropertyRole}
    {t : DataType} (h : t.Sound w bound role) (s : Schema) : t.Sound (w.publish s) bound role := by
  refine ⟨⟨fun r hr => ?_, h.leaf.isEntity_iff, h.leaf.not_void, h.leaf.not_generic,
    h.leaf.not_container⟩, h.mapKey, h.noKey⟩
  obtain ⟨k, heq, htype⟩ := h.leaf.handle r hr
  exact ⟨k, heq, htype.publish s⟩

theorem UserType.Sound.publish {w : Workspace} {bound : SchemaKey} {t : LinkedType}
    (h : t.Sound w bound) (s : Schema) : t.Sound (w.publish s) bound := by
  refine ⟨h.agrees, fun c hbody => ?_⟩
  obtain ⟨hbase, hinterfaces, hproperties⟩ := h.composite c hbody
  refine ⟨fun r hr => ?_, fun r hr => ?_, fun p hp => ?_⟩
  · exact ⟨(hbase r hr).1, (hbase r hr).2.publish s⟩
  · exact (hinterfaces r hr).publish s
  · exact (hproperties p hp).publish s

/-! ### What a draft can name -/

/-- The types of a draft, and those that it may import, are all there in a workspace. -/
structure Draft.NamesOnly (w : Workspace) (d : Draft) (w' : Workspace) : Prop where
  primitives : w'.primitives = w.primitives
  own : ∀ (i : Nat) (t : DraftType), d.types[i]? = some t → w'.HasType d.key ⟨d.key, i⟩ t.kind
  published : ∀ (key : SchemaKey) (s : Schema) (i : Nat) (t : LinkedType),
    w.schemas[key]? = some s → s.types[i]? = some t → w'.HasType d.key ⟨s.key, i⟩ t.kind

/-- The types that a path may stand for. -/
inductive DataType.Nameable (w : Workspace) (bound : SchemaKey) : DataType → Prop
  | primitive {id : PrimitiveId} (h : id < w.primitives.length) : Nameable w bound (.primitive id)
  | void : Nameable w bound .void
  | userType {r : TypeRef} {k : TypeKind} (h : w.HasType bound r k) :
      Nameable w bound (k.dataType r)

theorem TypeKind.userType?_dataType (k : TypeKind) (r : TypeRef) :
    (k.dataType r).userType? = some r := by
  cases k <;> rfl

theorem TypeKind.dataType_inj {k k' : TypeKind} {r r' : TypeRef} :
    k.dataType r = k'.dataType r' ↔ k = k' ∧ r = r' := by
  cases k <;> cases k' <;> simp [dataType]

theorem DataType.Nameable.hasType {w : Workspace} {bound : SchemaKey} {t : DataType}
    (h : t.Nameable w bound) {r : TypeRef} (hr : t.userType? = some r) :
    ∃ k, t = k.dataType r ∧ w.HasType bound r k := by
  cases h with
  | primitive _ => contradiction
  | void => contradiction
  | @userType r' k h =>
      rw [TypeKind.userType?_dataType] at hr
      obtain rfl := Option.some.inj hr
      exact ⟨k, rfl, h⟩

namespace Resolution

variable {w w' : Workspace} {d : Draft}

theorem typeNamed?_eq_some {β ι τ : Type} {s : SchemaOf β ι τ} {name : String} {t : DataType}
    (h : typeNamed? s name = some t) :
    ∃ i, ∃ u : UserType β ι τ, s.types[i]? = some u ∧ t = u.kind.dataType ⟨s.key, i⟩ := by
  obtain ⟨i, -, hi⟩ := Option.bind_eq_some_iff.1 h
  obtain ⟨u, hu, heq⟩ := Option.map_eq_some_iff.1 hi
  exact ⟨i, u, hu, heq.symm⟩

theorem nameable_of_typeNamed? (hw : d.NamesOnly w w') {name : String} {t : DataType}
    (h : typeNamed? d name = some t) : t.Nameable w' d.key := by
  obtain ⟨i, u, hu, rfl⟩ := typeNamed?_eq_some h
  exact .userType (hw.own i u hu)

theorem nameable_of_bareName? (hw : d.NamesOnly w w') {name : String} {t : DataType}
    (h : bareName? w d name = some t) : t.Nameable w' d.key := by
  rw [bareName?] at h
  split at h
  · rename_i u hu
    obtain rfl := Option.some.inj h
    exact nameable_of_typeNamed? hw hu
  · split at h
    · rename_i id hid
      obtain rfl := Option.some.inj h
      rw [PrimitiveTable.lookup?, List.findIdx?_eq_some_iff_getElem] at hid
      obtain ⟨hlt, -⟩ := hid
      exact .primitive (by rwa [hw.primitives])
    · split at h
      · obtain rfl := Option.some.inj h
        exact .void
      · contradiction

theorem resolvePath_ok (hw : d.NamesOnly w w') {owner : String} {path : TypePath} {t : DataType}
    (h : resolvePath w d owner path = .ok t) : t.Nameable w' d.key := by
  rw [resolvePath] at h
  split at h
  · exact nameable_of_bareName? hw (elim_eq_ok.1 h)
  · split at h
    · contradiction
    · split at h
      · exact nameable_of_typeNamed? hw (elim_eq_ok.1 h)
      · split at h
        · contradiction
        · rename_i s hs
          obtain ⟨i, u, hu, rfl⟩ := typeNamed?_eq_some (elim_eq_ok.1 h)
          exact .userType (hw.published _ s i u hs hu)

theorem resolveSupertype_ok (hw : d.NamesOnly w w') {owner : String} {expected : TypeKind}
    {path : TypePath} {r : TypeRef} (h : resolveSupertype w d owner expected path = .ok r) :
    w'.HasType d.key r expected := by
  obtain ⟨found, hfound, hr, rfl⟩ := resolveSupertype_eq_ok.1 h
  obtain ⟨k, heq, htype⟩ := (resolvePath_ok hw hfound).hasType hr
  rwa [(TypeKind.dataType_inj.1 heq).1]

theorem resolveValue_ok (hw : d.NamesOnly w w') {s : Site} {path : TypePath} {t : DataType}
    (h : resolveValue w d s path = .ok t) : t.leaf = t ∧ t.SoundLeaf w' d.key s.role := by
  obtain ⟨hfound, hvoid, hentity⟩ := resolveValue_eq_ok.1 h
  have hnameable := resolvePath_ok hw hfound
  have hplain : t.leaf = t ∧ (∀ shape, t ≠ .generic shape) ∧
      ∀ shape key value, t ≠ .container shape key value := by
    cases hnameable with
    | primitive _ => exact ⟨rfl, by simp, by simp⟩
    | void => contradiction
    | @userType r k _ => cases k <;> exact ⟨rfl, by simp [TypeKind.dataType], by
        simp [TypeKind.dataType]⟩
  exact ⟨hplain.1, fun r hr => hnameable.hasType hr, hentity, hvoid, hplain.2.1, hplain.2.2⟩

theorem resolveExpr_ok (hw : d.NamesOnly w w') {s : Site} {e : TypeExpr} {t : DataType}
    (hfits : e.KeyFits) (h : resolveExpr w d s e = .ok t) : t.Sound w' d.key s.role := by
  cases e with
  | named path =>
      obtain ⟨hleaf, hsound⟩ := resolveValue_ok hw h
      refine ⟨by rwa [hleaf], fun key value heq => ?_, fun shape key value heq => ?_⟩
      · exact absurd heq (hsound.not_container .map key value)
      · exact absurd heq (hsound.not_container shape key value)
  | container shape key value =>
      rw [resolveExpr] at h
      obtain ⟨key', hkey, h⟩ := bind_eq_ok.1 h
      obtain ⟨v, hv, h⟩ := bind_eq_ok.1 h
      obtain rfl := pure_eq_ok.1 h
      refine ⟨(resolveValue_ok hw hv).2, ?_, ?_⟩
      · rintro _ _ ⟨⟩
        cases key with
        | none => contradiction
        | some path =>
            obtain ⟨id, hid, rfl⟩ := map_eq_ok.1 hkey
            obtain ⟨-, p, hp, hcan⟩ := resolveMapKey_eq_ok.1 hid
            exact ⟨id, p, rfl, by rwa [hw.primitives], hcan⟩
      · rintro shape' _ _ ⟨⟩ hshape
        exact if_neg (by simpa [Shape.hasKey] using hshape)

end Resolution

/-! ### Publishing a unit -/

/-- What a draft can name is there when the unit that it becomes is published. -/
theorem Draft.ResolvesTo.namesOnly {w : Workspace} {d : Draft} {s : Schema}
    (hd : d.ResolvesTo w s.toSchemaOf) (hw : w.Indexed) (hkey : d.key = w.nextKey) :
    d.NamesOnly w (w.publish s) := by
  refine ⟨rfl, fun i t ht => ?_, fun key s' i t hs' ht => ?_⟩
  · obtain ⟨l, hl, hresolves⟩ := exists_of_forall₂_left hd.types ht
    refine ⟨Nat.le_refl _, l, ?_, hresolves.kind⟩
    rw [Workspace.type?_publish_of_eq s hkey]
    exact hl
  · have hlt : key < w.nextKey := (List.getElem?_eq_some_iff.1 hs').1
    rw [hw.key_eq key s' hs', hkey]
    refine ⟨Nat.le_of_lt hlt, t, Workspace.type?_publish s ?_, rfl⟩
    exact Option.bind_eq_some_iff.2 ⟨s', hs', ht⟩

theorem Composite.sound_of_resolvesTo {w w' : Workspace} {d : Draft} (hw : d.NamesOnly w w')
    {type : String} {kind : TypeKind} (hkind : kind ≠ .enum)
    {c : Composite BaseBinding InterfacesBinding TypeBinding} {l : LinkedComposite}
    (hwaits : c.Waits kind) (hl : c.ResolvesTo w d type kind l) : l.Sound w' d.key kind := by
  refine ⟨fun r hr => ?_, fun r hr => ?_, fun p hp => ?_⟩
  · obtain ⟨path, hpath, hinterface⟩ := hwaits.base
    have hbase := hl.base path hpath
    cases path with
    | none =>
        rw [← pure_eq_ok.1 hbase] at hr
        contradiction
    | some path =>
        obtain ⟨r', hr', heq⟩ := map_eq_ok.1 hbase
        obtain rfl : r' = r := Option.some.inj (heq.trans hr)
        refine ⟨?_, Resolution.resolveSupertype_ok hw hr'⟩
        cases kind with
        | entity => exact .inl rfl
        | struct => exact .inr rfl
        | interface => exact absurd (hinterface rfl) (by simp)
        | enum => contradiction
  · obtain ⟨paths, hpaths⟩ := hwaits.interfaces
    obtain ⟨path, -, hpath⟩ := exists_of_forall₂_right (mapM_eq_ok.1 (hl.interfaces paths hpaths)) hr
    exact Resolution.resolveSupertype_ok hw hpath
  · obtain ⟨q, hq, hqp⟩ := exists_of_forall₂_right hl.properties hp
    obtain ⟨e, he, hfits⟩ := hwaits.properties q hq
    rw [hqp.role]
    exact Resolution.resolveExpr_ok hw hfits (hqp.type e he)

/-- The unit is what a draft made in this workspace has become. -/
def Linked.DraftedIn (w : Workspace) (u : Linked) : Prop :=
  ∃ unit declaration draft, Draft.ofDeclaration w unit declaration = .ok draft ∧
    draft.ResolvesTo w u

namespace Linked.DraftedIn

variable {w : Workspace} {u : Linked}

theorem key_eq (h : u.DraftedIn w) : u.key = w.nextKey := by
  obtain ⟨unit, declaration, draft, hdraft, hu⟩ := h
  rw [hu.key, (Draft.ofDeclaration_ok hdraft).1]

/-- Each composite type is what a composite type of the draft has become. -/
theorem composite (h : u.DraftedIn w) {t : LinkedType} (ht : t ∈ u.types) {l : LinkedComposite}
    (hbody : t.body = .composite l) :
    ∃ (d : Draft) (type : String) (c : Composite BaseBinding InterfacesBinding TypeBinding),
      d.key = w.nextKey ∧ d.ResolvesTo w u ∧ c.Waits t.kind ∧ c.ResolvesTo w d type t.kind l := by
  obtain ⟨unit, declaration, draft, hdraft, hu⟩ := h
  obtain ⟨t', ht', hresolves⟩ := exists_of_forall₂_right hu.types ht
  have hwaits := Draft.waits_of_ofDeclaration hdraft t' ht'
  have hbody' := hresolves.body
  rw [hbody] at hbody'
  cases ht'body : t'.body with
  | enum e =>
      rw [ht'body] at hbody'
      nomatch hbody'
  | composite c =>
      rw [ht'body] at hbody'
      cases hbody' with
      | composite hl =>
          rw [hresolves.kind]
          exact ⟨draft, t'.name, c, (Draft.ofDeclaration_ok hdraft).1, hu, hwaits c ht'body, hl⟩

/-- The kind and the body that a type was drafted with agree, and neither is of another kind when it
is resolved. -/
theorem agrees (h : u.DraftedIn w) {t : LinkedType} (ht : t ∈ u.types) : t.Agrees := by
  obtain ⟨unit, declaration, draft, hdraft, hu⟩ := h
  obtain ⟨t', ht', hresolves⟩ := exists_of_forall₂_right hu.types ht
  exact hresolves.agrees (Draft.draws_of_ofDeclaration hdraft t' ht').agrees

end Linked.DraftedIn

/-- The graph stays sound when a unit is published that was drafted in it. -/
theorem Workspace.Sound.publish {w : Workspace} {s : Schema} (hw : w.Sound) (hindexed : w.Indexed)
    (h : Linked.DraftedIn w s.toSchemaOf) : (w.publish s).Sound := by
  intro t ht u hu
  rcases List.mem_append.1 ht with ht | ht
  · exact (hw t ht u hu).publish s
  · obtain rfl := List.mem_singleton.1 ht
    refine ⟨h.agrees hu, fun l hbody => ?_⟩
    obtain ⟨d, type, c, hkey, ht, hwaits, hl⟩ := h.composite hu hbody
    rw [ht.key]
    exact Composite.sound_of_resolvesTo (ht.namesOnly hindexed hkey) ((h.agrees hu).ne_enum hbody)
      hwaits hl

theorem Compiles.draftedIn {w w' : Workspace} {unit : SourceId} {declaration : Declaration}
    {s : Schema} (h : Compiles w unit declaration s w') : Linked.DraftedIn w s.toSchemaOf :=
  ⟨unit, declaration, h.exists_draft⟩

theorem Compiles.sound {w w' : Workspace} {unit : SourceId} {declaration : Declaration}
    {s : Schema} (hindexed : w.Indexed) (hw : w.Sound) (h : Compiles w unit declaration s w') :
    w'.Sound := by
  rw [h.eq_publish]
  exact hw.publish hindexed h.draftedIn

theorem Reached.sound {w : Workspace} (h : Reached w) : w.Sound := by
  suffices hboth : w.Indexed ∧ w.Sound from hboth.2
  refine h.induction (P := fun w => w.Indexed ∧ w.Sound)
    (fun primitives containers enumDefault => ?_) ?_
  · exact ⟨(Reached.empty primitives containers enumDefault).indexed, by simp [Workspace.Sound]⟩
  · rintro w unit declaration s w' ⟨hindexed, hsound⟩ hcompiles
    exact ⟨hcompiles.indexed hindexed, hcompiles.sound hindexed hsound⟩

/-! ### Published schemas -/

/-- The handles of a published schema stand for its types, in order. -/
theorem Workspace.type?_of_mem_zip {w : Workspace} {s : Schema} (hs : w.schemas[s.key]? = some s)
    {e : TypeRef × LinkedType} (he : e ∈ s.refs.zip s.types) : w.type? e.1 = some e.2 := by
  obtain ⟨i, hi⟩ := List.mem_iff_getElem?.1 he
  obtain ⟨hr, ht⟩ := List.getElem?_zip_eq_some.1 hi
  rw [SchemaOf.refs, List.getElem?_map,
    List.getElem?_range (List.getElem?_eq_some_iff.1 ht).1] at hr
  obtain ⟨r, t⟩ := e
  obtain rfl := Option.some.inj hr
  exact Option.bind_eq_some_iff.2 ⟨s, hs, ht⟩

/-- The schema was read from a draft of its source whose references had all been resolved. -/
def Schema.FullyResolved (s : Schema) : Prop :=
  ∃ (w : Workspace) (declaration : Declaration) (draft resolved : Draft),
    Draft.ofDeclaration w s.source declaration = .ok draft ∧
    draft.resolve w = (resolved, .ok ()) ∧ resolved.pendingCount = 0 ∧
    resolved.link = .ok s.toSchemaOf

theorem Compiles.fullyResolved {w w' : Workspace} {unit : SourceId} {declaration : Declaration}
    {s : Schema} (h : Compiles w unit declaration s w') : s.FullyResolved := by
  obtain ⟨draft, resolved, linked, hdraft, hresolve, hlink, -, hfinish⟩ := h.stages
  obtain ⟨rfl, -⟩ := Linked.finish_ok hfinish
  rw [← h.source_eq] at hdraft
  exact ⟨w, declaration, draft, resolved, hdraft, hresolve, (Draft.resolve_ok hresolve).1, hlink⟩

theorem Reached.fullyResolved {w : Workspace} (h : Reached w) :
    ∀ s ∈ w.schemas, s.FullyResolved := by
  refine h.induction (P := fun w => ∀ s ∈ w.schemas, s.FullyResolved) (by simp) ?_
  intro w unit declaration s w' hw hcompiles t ht
  rw [hcompiles.eq_publish] at ht
  rcases List.mem_append.1 ht with ht | ht
  · exact hw t ht
  · obtain rfl := List.mem_singleton.1 ht
    exact hcompiles.fullyResolved

/-- Every published schema is found at its key, was published with no reference left open, and is
sound: its handles lead to types of the right kinds in schemas published no later. Nothing that is
still open is ever read, and no load reports a schema with something open. -/
theorem published_types_sound {w : Workspace} (h : Reached w) :
    (∀ (key : SchemaKey) (s : Schema), w.schemas[key]? = some s → s.key = key) ∧
    (∀ s ∈ w.schemas, s.FullyResolved ∧ ∀ t ∈ s.types, t.Sound w s.key) ∧
    ∀ reader roots, (w.load reader roots).result ≠ .error .readTooEarly ∧
      ∀ s n, .published s n ∈ (w.load reader roots).events → n = 0 := by
  refine ⟨h.indexed.key_eq, fun s hs => ⟨h.fullyResolved s hs, h.sound s hs⟩, ?_⟩
  intro reader roots
  obtain ⟨houtcome, hevents⟩ := w.load_cases reader roots
  refine ⟨fun hearly => ?_, hevents⟩
  rcases houtcome with ⟨⟨e, hresult⟩, -⟩ | ⟨order, -, hresult, -⟩
  · rw [hresult] at hearly
    exact absurd (Except.error.inj hearly) (by simp)
  · rw [hresult] at hearly
    contradiction

/-- An interface and a struct with a map to it; and in a second schema a struct that has the first
for its base. -/
def derivingSources : SourceTable :=
  [("a", { name := some "A", types := [
      .interface { name := some "I", properties := [{ name := some "x", typeText := some "int" }] },
      .struct { name := some "S", interfaces := ["I"], properties := [
        { name := some "y", typeText := some "Map", key := some "int", value := some "I" }] }] }),
    ("b", { name := some "B", imports := [{ source := "a" }], types := [
      .struct { name := some "T", base := some "A.S", interfaces := ["A.I"], properties := [
        { name := some "z", typeText := some "A.S" }] }] })]

theorem published_types_sound_deriving :
    let w := (({ primitives := [.builtin "int" .int32] } : Workspace).load
      derivingSources.reader ["b"]).workspace
    Reached w ∧ TypeLookup.supertypes w.type? ⟨1, 0⟩ = [⟨0, 1⟩, ⟨0, 0⟩] ∧
      ∀ s ∈ w.schemas, s.FullyResolved ∧ ∀ t ∈ s.types, t.Sound w s.key := by
  have hreached := (Reached.empty [.builtin "int" .int32] {} none).load derivingSources.reader ["b"]
  exact ⟨hreached, by cbv, (published_types_sound hreached).2.1⟩

/-- The first schema of `derivingSources`, with an interface and a struct. -/
def importedWorkspace : Workspace :=
  (({ primitives := [.builtin "int" .int32] } : Workspace).load derivingSources.reader
    ["a"]).workspace

end SchemaGraph
