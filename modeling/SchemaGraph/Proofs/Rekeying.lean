import SchemaGraph.Proofs.Declaring
import SchemaGraph.Proofs.Renaming

/-!
Schemas under other keys. A workspace that holds some of the schemas of another under keys of its
own compiles a unit to the same schema, again up to the keys, provided that the unit imports only
what both hold.
-/

namespace SchemaGraph

open Relation

/-! ### Other keys -/

variable (ρ : SchemaKey → SchemaKey)

def TypeRef.rekey (r : TypeRef) : TypeRef :=
  { r with schema := ρ r.schema }

/-- The references of a draft wait to be resolved, so that only the imports hold keys. -/
def Draft.rekey (d : Draft) : Draft :=
  { d with key := ρ d.key, imports := d.imports.map (Prod.map id ρ) }

def Linked.rekey (u : Linked) : Linked :=
  { u with
    key := ρ u.key
    imports := u.imports.map (Prod.map id ρ)
    types := u.types.map (UserType.mapRefs (TypeRef.rekey ρ)) }

def Schema.rekey (s : Schema) : Schema :=
  { Linked.rekey ρ s.toSchemaOf with
    derived := s.derived.map (Derived.mapRefs (TypeRef.rekey ρ)) }

variable {ρ}

theorem TypeRef.rekey_injective (h : Function.Injective ρ) : Function.Injective (rekey ρ) := by
  rintro ⟨k, i⟩ ⟨k', i'⟩ heq
  simp only [rekey, TypeRef.mk.injEq] at heq
  rw [h heq.1, heq.2]

namespace Workspace

variable {w w' : Workspace}

/-- Primitives, container names and the default of enums are the same. -/
structure SameConfig (w w' : Workspace) : Prop where
  primitives : w'.primitives = w.primitives
  containers : w'.containers = w.containers
  enumDefault : w'.enumDefault = w.enumDefault

/-- The second workspace holds schemas of the first, those whose keys it has a place for, under
other keys. The next schema of the first may become the next of the second. -/
structure Rekeys (ρ : SchemaKey → SchemaKey) (w w' : Workspace) : Prop where
  config : w.SameConfig w'
  injective : Function.Injective ρ
  nextKey : ρ w.nextKey = w'.nextKey
  schemas : ∀ key s, w.schemas[key]? = some s → ρ key < w'.nextKey →
    w'.schemas[ρ key]? = some (s.rekey ρ)

/-- A key that both workspaces have a place for, be it the next one. -/
def SharesKey (ρ : SchemaKey → SchemaKey) (w w' : Workspace) (key : SchemaKey) : Prop :=
  key ≤ w.nextKey ∧ ρ key ≤ w'.nextKey

namespace Rekeys

theorem sharesKey_nextKey (h : Rekeys ρ w w') : SharesKey ρ w w' w.nextKey :=
  ⟨Nat.le_refl _, Nat.le_of_eq h.nextKey⟩

theorem lt_of_sharesKey (h : Rekeys ρ w w') {key : SchemaKey} (hkey : SharesKey ρ w w' key)
    (hne : key ≠ w.nextKey) : key < w.nextKey ∧ ρ key < w'.nextKey := by
  refine ⟨Nat.lt_of_le_of_ne hkey.1 hne, Nat.lt_of_le_of_ne hkey.2 fun heq => ?_⟩
  exact hne (h.injective (heq.trans h.nextKey.symm))

theorem schema_of_sharesKey (h : Rekeys ρ w w') {key : SchemaKey} (hkey : SharesKey ρ w w' key)
    {s : Schema} (hs : w.schemas[key]? = some s) : w'.schemas[ρ key]? = some (s.rekey ρ) := by
  have hne : key ≠ w.nextKey := Nat.ne_of_lt (List.getElem?_eq_some_iff.1 hs).1
  exact h.schemas key s hs (h.lt_of_sharesKey hkey hne).2

end Rekeys

end Workspace

/-! ### Drafts -/

theorem Workspace.SameConfig.admits_iff {w w' : Workspace} (h : w.SameConfig w')
    {text : Option String} {name : String} : w'.Admits text name ↔ w.Admits text name := by
  obtain ⟨p, c, e, _, _, _⟩ := w
  obtain ⟨_, _, _, _, _, _⟩ := w'
  obtain ⟨rfl, rfl, rfl⟩ := h
  rfl

theorem Workspace.SameConfig.properNamespace_eq {w w' : Workspace} (h : w.SameConfig w')
    (unit : SourceId) : Drafting.properNamespace w' unit = Drafting.properNamespace w unit := by
  obtain ⟨p, c, e, _, _, _⟩ := w
  obtain ⟨_, _, _, _, _, _⟩ := w'
  obtain ⟨rfl, rfl, rfl⟩ := h
  rfl

theorem Declaration.TypeDecl.draftsTo_iff {w w' : Workspace} (h : w.SameConfig w')
    {unit : SourceId} {schemaNamespace : String} {t : Declaration.TypeDecl} {d : DraftType} :
    t.DraftsTo w' unit schemaNamespace d ↔ t.DraftsTo w unit schemaNamespace d := by
  obtain ⟨p, c, e, _, _, _⟩ := w
  obtain ⟨_, _, _, _, _, _⟩ := w'
  obtain ⟨rfl, rfl, rfl⟩ := h
  rfl

/-- An import leads to a key that both workspaces share, if what it imports has one. -/
theorem Declaration.Import.StandsFor.rekey {w w' : Workspace} (h : w.Rekeys ρ w')
    (hw : w.Indexed) (hw' : w'.Indexed) {unit : SourceId} {schema : String}
    {i : Declaration.Import} {entry : String × SchemaKey}
    (hshared : ∀ s, w.bySource? i.source = some s → ρ s.key < w'.nextKey)
    (hi : i.StandsFor w unit schema entry) :
    i.StandsFor w' unit schema (entry.map id ρ) ∧ w.SharesKey ρ w' entry.2 := by
  cases hi with
  | self hsource hname =>
      rw [Prod.map_apply, h.nextKey]
      exact ⟨.self hsource (h.config.admits_iff.2 hname), h.sharesKey_nextKey⟩
  | @published name s hsource hs hname =>
      obtain ⟨hget, hsource'⟩ := hw.bySource?_eq_some.1 hs
      have hlt := hshared s hs
      have hs' : w'.bySource? i.source = some (s.rekey ρ) :=
        hw'.bySource?_eq_some.2 ⟨h.schemas _ s hget hlt, hsource'⟩
      refine ⟨.published hsource hs' (h.config.admits_iff.2 hname), ?_, Nat.le_of_lt hlt⟩
      exact Nat.le_of_lt (List.getElem?_eq_some_iff.1 hget).1

/-- The draft of a unit that imports only what both workspaces hold is the same up to the keys. -/
theorem Draft.ofDeclaration_rekey {w w' : Workspace} (h : w.Rekeys ρ w') (hw : w.Indexed)
    (hw' : w'.Indexed) {unit : SourceId} {declaration : Declaration} {d : Draft}
    (hshared : ∀ i ∈ declaration.imports, ∀ s, w.bySource? i.source = some s →
      ρ s.key < w'.nextKey)
    (hd : Draft.ofDeclaration w unit declaration = .ok d) :
    Draft.ofDeclaration w' unit declaration = .ok (d.rekey ρ) ∧
      ∀ i ∈ d.imports, w.SharesKey ρ w' i.2 := by
  rw [ofDeclaration_eq_ok] at hd ⊢
  have himports := forall₂_imp_of_mem (fun i hi _ hentry => hentry.rekey h hw hw' (hshared i hi))
    hd.imports
  have haliases : (d.rekey ρ).imports.map Prod.fst = d.imports.map Prod.fst := by
    rw [rekey, List.map_map]
    rfl
  constructor
  · refine ⟨?_, hd.source, h.config.admits_iff.2 hd.name, ?_, hd.metadata, ?_, ?_, ?_,
      hd.nodup_names⟩
    · rw [← h.nextKey, ← hd.key]
      rfl
    · rw [h.config.properNamespace_eq]
      exact hd.namespace
    · exact List.forall₂_map_right_iff.2 (himports.imp fun _ _ hentry => hentry.1)
    · rw [haliases]
      exact hd.nodup_aliases
    · exact hd.types.imp fun _ _ => (Declaration.TypeDecl.draftsTo_iff h.config).2
  · intro entry hentry
    obtain ⟨i, -, -, hkey⟩ := exists_of_forall₂_right himports hentry
    exact hkey

/-! ### Resolution -/

/-- A draft of the unit that is next in the first workspace, and imports only what both hold. -/
structure Draft.Shared (ρ : SchemaKey → SchemaKey) (w w' : Workspace) (d : Draft) : Prop where
  key : d.key = w.nextKey
  imports : ∀ i ∈ d.imports, w.SharesKey ρ w' i.2

/-- The handles in a type are those of schemas that both workspaces share. -/
def DataType.Shared (ρ : SchemaKey → SchemaKey) (w w' : Workspace) (t : DataType) : Prop :=
  ∀ r, t.userType? = some r → w.SharesKey ρ w' r.schema

namespace Resolution

variable {w w' : Workspace} {d : Draft}

theorem typeNamed?_mapRefs {β ι τ β' ι' τ' : Type} (s : SchemaOf β ι τ) (s' : SchemaOf β' ι' τ')
    (g : UserType β ι τ → UserType β' ι' τ') (hkey : s'.key = ρ s.key)
    (htypes : s'.types = s.types.map g)
    (hg : ∀ t, (g t).name = t.name ∧ (g t).kind = t.kind) (name : String) :
    typeNamed? s' name = (typeNamed? s name).map (DataType.mapRefs (TypeRef.rekey ρ)) := by
  have hindex : s'.typeIndex? name = s.typeIndex? name := by
    rw [SchemaOf.typeIndex?, SchemaOf.typeIndex?, htypes, List.findIdx?_map]
    congr 1
    funext t
    simp [(hg t).1]
  rw [typeNamed?, typeNamed?, hindex]
  cases s.typeIndex? name with
  | none => rfl
  | some i =>
      simp only [Option.bind_some, typeAt, htypes, hkey, List.getElem?_map, Option.map_map]
      congr 1
      funext t
      rw [Function.comp_apply, Function.comp_apply, (hg t).2, TypeKind.mapRefs_dataType]
      rfl

theorem typeNamed?_draft (d : Draft) (name : String) :
    typeNamed? (d.rekey ρ) name = (typeNamed? d name).map (DataType.mapRefs (TypeRef.rekey ρ)) :=
  typeNamed?_mapRefs d (d.rekey ρ) id rfl (List.map_id _).symm (fun _ => ⟨rfl, rfl⟩) name

theorem typeNamed?_schema (s : Schema) (name : String) :
    typeNamed? (s.rekey ρ).toSchemaOf name =
      (typeNamed? s.toSchemaOf name).map (DataType.mapRefs (TypeRef.rekey ρ)) :=
  typeNamed?_mapRefs s.toSchemaOf (s.rekey ρ).toSchemaOf (UserType.mapRefs (TypeRef.rekey ρ)) rfl
    rfl (fun t => ⟨rfl, UserType.kind_mapRefs t⟩) name

theorem shared_of_typeNamed? {β ι τ : Type} {s : SchemaOf β ι τ} {name : String} {t : DataType}
    (hkey : w.SharesKey ρ w' s.key) (h : typeNamed? s name = some t) : t.Shared ρ w w' := by
  obtain ⟨i, u, -, rfl⟩ := typeNamed?_eq_some h
  intro r hr
  rw [TypeKind.userType?_dataType] at hr
  obtain rfl := Option.some.inj hr
  exact hkey

theorem bareName?_rekey (h : w.Rekeys ρ w') (name : String) :
    bareName? w' (d.rekey ρ) name =
      (bareName? w d name).map (DataType.mapRefs (TypeRef.rekey ρ)) := by
  rw [bareName?, bareName?, typeNamed?_draft, h.config.primitives]
  cases typeNamed? d name with
  | some t => rfl
  | none =>
      simp only [Option.map_none]
      cases w.primitives.lookup? name with
      | some id => rfl
      | none =>
          simp only
          split <;> rfl

theorem shared_of_bareName? (h : w.Rekeys ρ w') (hd : d.Shared ρ w w') {name : String}
    {t : DataType} (ht : bareName? w d name = some t) : t.Shared ρ w w' := by
  have hkey : w.SharesKey ρ w' d.key := by
    rw [hd.key]
    exact h.sharesKey_nextKey
  rw [bareName?] at ht
  split at ht
  · rename_i u hu
    obtain rfl := Option.some.inj ht
    exact shared_of_typeNamed? hkey hu
  · split at ht
    · obtain rfl := Option.some.inj ht
      intro r hr
      contradiction
    · split at ht
      · obtain rfl := Option.some.inj ht
        intro r hr
        contradiction
      · contradiction

theorem import?_rekey (name : String) : (d.rekey ρ).import? name = (d.import? name).map ρ := by
  rw [SchemaOf.import?, SchemaOf.import?, Draft.rekey, List.find?_map, Option.map_map,
    Option.map_map]
  rfl

/-- A path that can be resolved stands for the same type on both sides, up to the keys. -/
theorem resolvePath_rekey (h : w.Rekeys ρ w') (hw : w.Indexed) (hd : d.Shared ρ w w')
    {owner : String} {path : TypePath} {t : DataType} (ht : resolvePath w d owner path = .ok t) :
    resolvePath w' (d.rekey ρ) owner path = .ok (t.mapRefs (TypeRef.rekey ρ)) ∧
      t.Shared ρ w w' := by
  rw [resolvePath] at ht ⊢
  cases hqualifier : path.qualifier with
  | none =>
      rw [hqualifier] at ht
      have hfound := elim_eq_ok.1 ht
      simp only [bareName?_rekey h, hfound]
      exact ⟨rfl, shared_of_bareName? h hd hfound⟩
  | some name =>
      rw [hqualifier] at ht
      simp only [import?_rekey]
      cases himport : d.import? name with
      | none =>
          simp only [himport] at ht
          contradiction
      | some key =>
          simp only [himport] at ht
          have hkey : w.SharesKey ρ w' key := by
            obtain ⟨i, hi, rfl⟩ := Option.map_eq_some_iff.1 himport
            exact hd.imports i (List.mem_of_find?_eq_some hi)
          simp only [Option.map_some]
          by_cases hself : key = d.key
          · rw [if_pos hself] at ht
            have hself' : ρ key = (d.rekey ρ).key := congrArg ρ hself
            have hfound := elim_eq_ok.1 ht
            rw [if_pos hself', typeNamed?_draft, hfound]
            exact ⟨rfl, shared_of_typeNamed? (hself ▸ hkey) hfound⟩
          · rw [if_neg hself] at ht
            have hself' : ρ key ≠ (d.rekey ρ).key := fun heq => hself (h.injective heq)
            rw [if_neg hself']
            cases hs : w.schemas[key]? with
            | none =>
                simp only [hs] at ht
                contradiction
            | some s =>
                simp only [hs] at ht
                have hfound := elim_eq_ok.1 ht
                simp only [h.schema_of_sharesKey hkey hs, typeNamed?_schema, hfound]
                rw [← hw.key_eq key s hs] at hkey
                exact ⟨rfl, shared_of_typeNamed? hkey hfound⟩

/-- What a draft resolves its references to is what it resolves them to on the other side. -/
theorem follows_rekey (h : w.Rekeys ρ w') (hw : w.Indexed) (hd : d.Shared ρ w w') :
    Follows (TypeRef.rekey ρ) w d w' (d.rekey ρ) :=
  ⟨h.config.primitives, fun _ _ _ ht => (resolvePath_rekey h hw hd ht).1⟩

theorem shared_of_resolveSupertype (h : w.Rekeys ρ w') (hw : w.Indexed) (hd : d.Shared ρ w w')
    {owner : String} {expected : TypeKind} {path : TypePath} {r : TypeRef}
    (hr : resolveSupertype w d owner expected path = .ok r) : w.SharesKey ρ w' r.schema := by
  obtain ⟨found, hfound, htype, -⟩ := resolveSupertype_eq_ok.1 hr
  exact (resolvePath_rekey h hw hd hfound).2 r htype

end Resolution

/-! ### Linked units -/

section Linked

variable {w w' : Workspace} {d : Draft} {type : String}

/-- A linked composite type extends only what is shared. -/
def Composite.Shared (ρ : SchemaKey → SchemaKey) (w w' : Workspace) (l : LinkedComposite) : Prop :=
  (∀ b, l.base = some b → w.SharesKey ρ w' b.schema) ∧
    ∀ i ∈ l.interfaces, w.SharesKey ρ w' i.schema

theorem Composite.ResolvesTo.shared (h : w.Rekeys ρ w') (hw : w.Indexed) (hd : d.Shared ρ w w')
    {kind : TypeKind} {c : Composite BaseBinding InterfacesBinding TypeBinding}
    {l : LinkedComposite} (hwaits : c.Waits kind) (hl : c.ResolvesTo w d type kind l) :
    l.Shared ρ w w' := by
  constructor
  · intro b hb
    obtain ⟨path, hpath, -⟩ := hwaits.base
    have hbase := hl.base path hpath
    rw [hb] at hbase
    cases path with
    | none =>
        have := pure_eq_ok.1 hbase
        contradiction
    | some path =>
        obtain ⟨r, hr, heq⟩ := map_eq_ok.1 hbase
        obtain rfl := Option.some.inj heq
        exact Resolution.shared_of_resolveSupertype h hw hd hr
  · intro i hi
    obtain ⟨paths, hpaths⟩ := hwaits.interfaces
    obtain ⟨path, -, hpath⟩ :=
      exists_of_forall₂_right (mapM_eq_ok.1 (hl.interfaces paths hpaths)) hi
    exact Resolution.shared_of_resolveSupertype h hw hd hpath

theorem DraftType.ResolvesTo.shared (h : w.Rekeys ρ w') (hw : w.Indexed) (hd : d.Shared ρ w w')
    {t : DraftType} {l : LinkedType} (hwaits : t.Waits) (hl : t.ResolvesTo w d l) :
    ∀ c, l.body = .composite c → c.Shared ρ w w' := by
  obtain ⟨name, ns, kind, body, metadata⟩ := t
  obtain ⟨name', ns', kind', body', metadata'⟩ := l
  cases hl.body with
  | @composite c l hc =>
      rintro _ ⟨⟩
      exact hc.shared h hw hd (hwaits c rfl)
  | enum e =>
      rintro c ⟨⟩

theorem Draft.ResolvesTo.rekey (h : w.Rekeys ρ w') (hw : w.Indexed) (hd : d.Shared ρ w w')
    {u : Linked} (hu : d.ResolvesTo w u) : (d.rekey ρ).ResolvesTo w' (u.rekey ρ) where
  key := congrArg ρ hu.key
  source := hu.source
  name := hu.name
  «namespace» := hu.namespace
  imports := congrArg (List.map (Prod.map id ρ)) hu.imports
  metadata := hu.metadata
  types := List.forall₂_map_right_iff.2
    (hu.types.imp fun _ _ hl => hl.mapRefs (Resolution.follows_rekey h hw hd))

end Linked

/-! ### Published types -/

theorem Schema.derivedOf_rekey (s : Schema) (i : Nat) :
    (s.rekey ρ).derivedOf i = (s.derivedOf i).mapRefs (TypeRef.rekey ρ) := by
  rw [derivedOf, derivedOf, rekey, List.getElem?_map]
  cases s.derived[i]? <;> rfl

namespace Workspace.Rekeys

variable {w w' : Workspace} {r x : TypeRef}

theorem type?_eq (h : w.Rekeys ρ w') (hr : w.SharesKey ρ w' r.schema) (hne : r.schema ≠ w.nextKey) :
    w'.type? (r.rekey ρ) = (w.type? r).map (UserType.mapRefs (TypeRef.rekey ρ)) := by
  have hs := List.getElem?_eq_getElem (h.lt_of_sharesKey hr hne).1
  rw [type?, type?, hs, TypeRef.rekey, h.schema_of_sharesKey hr hs, Option.bind_some,
    Option.bind_some]
  exact List.getElem?_map

theorem derivedOf_eq (h : w.Rekeys ρ w') (hr : w.SharesKey ρ w' r.schema)
    (hne : r.schema ≠ w.nextKey) :
    w'.derivedOf (r.rekey ρ) = (w.derivedOf r).mapRefs (TypeRef.rekey ρ) := by
  have hs := List.getElem?_eq_getElem (h.lt_of_sharesKey hr hne).1
  rw [derivedOf, derivedOf, hs, TypeRef.rekey, h.schema_of_sharesKey hr hs]
  exact Schema.derivedOf_rekey _ _

theorem lookup_renames (h : w.Rekeys ρ w') :
    TypeLookup.Renames (TypeRef.rekey ρ)
      (fun r => w.SharesKey ρ w' r.schema ∧ r.schema ≠ w.nextKey) w.type? w'.type? :=
  fun _ hr => h.type?_eq hr.1 hr.2

/-- What a published type extends is shared if the type is: in neither workspace it is published
later than the type. -/
theorem sharesKey_supertype (h : w.Rekeys ρ w') (hw : w.WellTyped) (hw' : w'.WellTyped)
    (hr : w.SharesKey ρ w' r.schema) (hne : r.schema ≠ w.nextKey) (hx : x ∈ w.supertypes r) :
    w.SharesKey ρ w' x.schema ∧ x.schema ≠ w.nextKey := by
  obtain ⟨k, hle, -⟩ := hw.hasType_of_supertype hx
  have hx' : x.rekey ρ ∈ w'.supertypes (r.rekey ρ) := by
    have heq := h.lookup_renames.supertypes_eq ⟨hr, hne⟩
    rw [supertypes, heq]
    exact List.mem_map_of_mem hx
  obtain ⟨k', hle', -⟩ := hw'.hasType_of_supertype hx'
  refine ⟨⟨Nat.le_trans hle hr.1, Nat.le_trans hle' hr.2⟩, ?_⟩
  exact Nat.ne_of_lt (Nat.lt_of_le_of_lt hle (h.lt_of_sharesKey hr hne).1)

theorem sharesKey_extends (h : w.Rekeys ρ w') (hw : w.WellTyped) (hw' : w'.WellTyped)
    (hr : w.SharesKey ρ w' r.schema) (hne : r.schema ≠ w.nextKey) (hx : w.Extends r x) :
    w.SharesKey ρ w' x.schema ∧ x.schema ≠ w.nextKey := by
  induction hx with
  | refl => exact ⟨hr, hne⟩
  | tail _ hyz ih => exact h.sharesKey_supertype hw hw' ih.1 ih.2 hyz

end Workspace.Rekeys

/-! ### Finishing a unit -/

namespace Compiles

variable {w w' w₁ : Workspace} {unit : SourceId} {declaration : Declaration} {s : Schema}

theorem scope_renames (hc : Compiles w unit declaration s w₁) (h : w.Rekeys ρ w')
    (hw : w.Layered) (hflat : w.Flattened) (hw' : w'.Layered)
    (hshared : ∀ t ∈ s.types, ∀ c, t.body = .composite c → c.Shared ρ w w') :
    Scope.Renames (TypeRef.rekey ρ) (fun r => w.SharesKey ρ w' r.schema) ⟨w, s.toSchemaOf⟩
      ⟨w', (s.rekey ρ).toSchemaOf⟩ := by
  have hkey := hc.key_eq
  have hkey' : (s.rekey ρ).key = w'.nextKey := (congrArg ρ hkey).trans h.nextKey
  have hne : ∀ r : TypeRef, r.schema ≠ s.key → r.schema ≠ w.nextKey := fun r hr => by rwa [← hkey]
  have htype : TypeLookup.Renames (TypeRef.rekey ρ) (fun r => w.SharesKey ρ w' r.schema)
      (Scope.mk w s.toSchemaOf).type? (Scope.mk w' (s.rekey ρ).toSchemaOf).type? := by
    intro r hr
    by_cases hown : r.schema = s.key
    · have hown' : (r.rekey ρ).schema = (s.rekey ρ).key := congrArg ρ hown
      rw [Scope.type?_own hown', Scope.type?_own hown]
      exact List.getElem?_map
    · have hown' : (r.rekey ρ).schema ≠ (s.rekey ρ).key := fun heq => hown (h.injective heq)
      rw [Scope.type?_published hown', Scope.type?_published hown]
      exact h.type?_eq hr (hne r hown)
  refine ⟨TypeRef.rekey_injective h.injective, h.config.primitives, htype, ?_, ?_, ?_, ?_, ?_⟩
  · intro r hr x hx
    by_cases hown : r.schema = s.key
    · have hget : ∀ t, (Scope.mk w s.toSchemaOf).type? r = some t → t ∈ s.types := fun t ht => by
        rw [Scope.type?_own hown] at ht
        exact List.mem_of_getElem? ht
      rcases TypeLookup.mem_supertypes.1 hx with hbase | hinterface
      · obtain ⟨t, c, ht, hbody, hb⟩ := TypeLookup.base?_eq_some.1 hbase
        exact (hshared t (hget t ht) c hbody).1 x hb
      · obtain ⟨t, c, ht, hbody, hi⟩ := TypeLookup.mem_interfacesOf.1 hinterface
        exact (hshared t (hget t ht) c hbody).2 x hi
    · have hx' : x ∈ w.supertypes r := by
        rwa [Scope.supertypes, TypeLookup.supertypes_congr (Scope.type?_published hown)] at hx
      exact (h.sharesKey_supertype hw.wellTyped hw'.wellTyped hr (hne r hown) hx').1
  · intro r hr
    have hmem := Scope.mem_refs (s := ⟨w, s.toSchemaOf⟩) (r := r) hw.indexed hkey
    have hmem' := Scope.mem_refs (s := ⟨w', (s.rekey ρ).toSchemaOf⟩) (r := r.rekey ρ)
      hw'.indexed hkey'
    rw [hmem, hmem', htype r hr]
    simp
  · exact fun r _ => h.injective.eq_iff
  · exact fun r hr hown => h.derivedOf_eq hr (hne r hown)
  · intro r hr hown p hp
    have hextends := ((hflat.flattens r).mem_iff p).1 hp
    exact (h.sharesKey_extends hw.wellTyped hw'.wellTyped hr (hne r hown) hextends.1).1

/-- The types of the unit extend each other in the same positions on both sides. -/
theorem hierarchyCycle?_rekey (hc : Compiles w unit declaration s w₁) (h : w.Rekeys ρ w')
    (hrenames : Scope.Renames (TypeRef.rekey ρ) (fun r => w.SharesKey ρ w' r.schema)
      ⟨w, s.toSchemaOf⟩ ⟨w', (s.rekey ρ).toSchemaOf⟩) :
    (Scope.mk w' (s.rekey ρ).toSchemaOf).hierarchyCycle? =
      (Scope.mk w s.toSchemaOf).hierarchyCycle? := by
  have hown : (Scope.mk w' (s.rekey ρ).toSchemaOf).ownSupertypes =
      (Scope.mk w s.toSchemaOf).ownSupertypes := by
    funext i
    have hshared : w.SharesKey ρ w' (TypeRef.mk s.key i).schema := by
      rw [hc.key_eq]
      exact h.sharesKey_nextKey
    have hsupertypes := hrenames.type?.supertypes_eq hshared
    rw [Scope.ownSupertypes, Scope.ownSupertypes, Scope.supertypes, Scope.supertypes]
    show ((TypeLookup.supertypes _ (TypeRef.rekey ρ ⟨s.key, i⟩)).filter fun r =>
      r.schema = ρ s.key).map TypeRef.index = _
    have hfilter : (fun r : TypeRef => decide (r.schema = ρ s.key)) ∘ TypeRef.rekey ρ =
        fun r => decide (r.schema = s.key) :=
      funext fun r => decide_eq_decide.2 h.injective.eq_iff
    rw [hsupertypes, List.filter_map, List.map_map, hfilter]
    rfl
  have hlen : (s.rekey ρ).types.length = s.types.length := List.length_map _
  rw [Scope.hierarchyCycle?, Scope.hierarchyCycle?, hown]
  show DepthFirst.cycle? _ (List.range (s.rekey ρ).types.length) = _
  rw [hlen]

/-- Finishing the unit gives the same schema up to the keys. -/
theorem finish_rekey (hc : Compiles w unit declaration s w₁) (h : w.Rekeys ρ w')
    (hw : w.Layered) (hrenames : Scope.Renames (TypeRef.rekey ρ)
      (fun r => w.SharesKey ρ w' r.schema) ⟨w, s.toSchemaOf⟩ ⟨w', (s.rekey ρ).toSchemaOf⟩) :
    (Linked.rekey ρ s.toSchemaOf).finish w' = .ok (s.rekey ρ) := by
  obtain ⟨-, hcycle, hderived⟩ := Linked.finish_ok hc.finish_eq
  have hcycle' := hc.hierarchyCycle?_rekey h hrenames
  rw [hcycle] at hcycle'
  have hzip : (s.rekey ρ).types.zipIdx =
      s.types.zipIdx.map fun t => (t.1.mapRefs (TypeRef.rekey ρ), t.2) := List.zipIdx_map
  have hderived' : (s.rekey ρ).types.zipIdx.mapM (fun t =>
      (Scope.mk w' (s.rekey ρ).toSchemaOf).derive t.2 t.1) = .ok (s.rekey ρ).derived := by
    rw [hzip]
    refine mapM_map_ok (fun t ht d hd => ?_) hderived
    have htype : w₁.type? ⟨s.key, t.2⟩ = some t.1 := by
      rw [hc.eq_publish, Workspace.type?_publish_of_eq s hc.key_eq]
      exact List.mk_mem_zipIdx_iff_getElem?.1 ht
    refine hrenames.derive_eq (hrenames.lineage_eq hc.shows (hc.layered hw).navigable ?_ htype) rfl hd
    show w.SharesKey ρ w' s.key
    rw [hc.key_eq]
    exact h.sharesKey_nextKey
  exact Linked.finish_of_derived hcycle' hderived'

/-- A unit compiles to the same schema, up to the keys, in a workspace that holds what the unit
imports under other keys, unless its source or its name is taken there. -/
theorem rekey (hc : Compiles w unit declaration s w₁) (h : w.Rekeys ρ w') (hw : w.Layered)
    (hflat : w.Flattened) (hw' : w'.Layered)
    (hshared : ∀ i ∈ declaration.imports, ∀ t, w.bySource? i.source = some t →
      ρ t.key < w'.nextKey)
    (hsource : w'.sources.key? unit = none) (hname : w'.names.key? s.name = none) :
    Compiles w' unit declaration (s.rekey ρ) (w'.publish (s.rekey ρ)) := by
  obtain ⟨draft, hdraft, hlinked⟩ := hc.exists_draft
  obtain ⟨hdraft', himports⟩ :=
    Draft.ofDeclaration_rekey h hw.indexed hw'.indexed hshared hdraft
  have hd : draft.Shared ρ w w' := ⟨(Draft.ofDeclaration_ok hdraft).1, himports⟩
  have hwaits := Draft.waits_of_ofDeclaration hdraft
  have hlinked' := hlinked.rekey h hw.indexed hd
  have htypes : ∀ t ∈ s.types, ∀ c, t.body = .composite c → c.Shared ρ w w' := by
    intro t ht
    obtain ⟨u, hu, hresolves⟩ := exists_of_forall₂_right hlinked.types ht
    exact hresolves.shared h hw.indexed hd (hwaits u hu)
  obtain ⟨resolved', hresolve', hlink'⟩ :=
    Draft.resolve_of_resolvesTo (d := draft.rekey ρ) hwaits hlinked'
  have hrenames := hc.scope_renames h hw hflat hw' htypes
  refine ⟨⟨draft.rekey ρ, resolved', _, hdraft', hresolve', hlink', hlinked',
    hc.finish_rekey h hw hrenames⟩, Workspace.register_eq_ok.2 ⟨?_, hname, rfl⟩⟩
  show w'.sources.key? s.source = none
  rw [hc.source_eq]
  exact hsource

end Compiles

end SchemaGraph
