import SchemaGraph.Proofs.Denotation

/-!
The order in which a unit declares its types. Another order gives the types other positions and so
other handles, and nothing else: the unit can be compiled in both orders or in neither, and the type
of a name is the same in both, up to the handles.
-/

namespace SchemaGraph

open Relation

/-! ### Handles under another order of names -/

/-- The handle of a type of one schema, when the names of its types come in another order. Handles
of other schemas stay. -/
def TypeRef.reorder (key : SchemaKey) (names names' : List String) (r : TypeRef) : TypeRef :=
  if r.schema = key then ⟨key, (names[r.index]?.map names'.idxOf).getD r.index⟩ else r

namespace TypeRef

variable {key : SchemaKey} {names names' : List String} {i j : Nat} {name : String} {r : TypeRef}

theorem reorder_of_ne (h : r.schema ≠ key) : r.reorder key names names' = r :=
  if_neg h

theorem schema_reorder (r : TypeRef) : (r.reorder key names names').schema = r.schema := by
  rw [reorder]
  split
  · exact Eq.symm ‹_›
  · rfl

/-- The handle of the type of a name becomes the handle of the type of that name. -/
theorem reorder_of_name (hnodup : names'.Nodup) (hi : names[i]? = some name)
    (hj : names'[j]? = some name) : reorder key names names' ⟨key, i⟩ = ⟨key, j⟩ := by
  obtain ⟨hlt, rfl⟩ := List.getElem?_eq_some_iff.1 hj
  rw [reorder, if_pos rfl, hi, Option.map_some, Option.getD_some, hnodup.idxOf_getElem]

theorem reorder_of_none (hi : names[i]? = none) : reorder key names names' ⟨key, i⟩ = ⟨key, i⟩ := by
  rw [reorder, if_pos rfl, hi]
  rfl

/-- Going back to the first order gives back the handle. -/
theorem reorder_reorder (hperm : names'.Perm names) (hnodup : names.Nodup) (r : TypeRef) :
    (r.reorder key names names').reorder key names' names = r := by
  by_cases hkey : r.schema = key
  · obtain ⟨_, i⟩ := r
    obtain rfl := hkey
    cases hi : names[i]? with
    | none =>
        have hi' : names'[i]? = none := by
          rw [List.getElem?_eq_none_iff] at hi ⊢
          rwa [hperm.length_eq]
        rw [reorder_of_none hi, reorder_of_none hi']
    | some name =>
        have hmem : name ∈ names' := hperm.mem_iff.2 (List.mem_of_getElem? hi)
        obtain ⟨j, hj⟩ := List.getElem?_of_mem hmem
        rw [reorder_of_name (hperm.nodup_iff.2 hnodup) hi hj, reorder_of_name hnodup hj hi]
  · rw [reorder_of_ne hkey, reorder_of_ne hkey]

theorem reorder_injective (hperm : names'.Perm names) (hnodup : names.Nodup) :
    Function.Injective (reorder key names names') :=
  Function.LeftInverse.injective (reorder_reorder hperm hnodup)

end TypeRef

/-- A type of the second order is found under the new handle of the type of its name. -/
theorem TypeRef.exists_reorder {β ι τ : Type} (key : SchemaKey) {names : List String}
    {ts : List (UserType β ι τ)} (hperm : (ts.map UserType.name).Perm names)
    (hnodup : names.Nodup) {i : Nat} {t : UserType β ι τ} (ht : t ∈ ts)
    (hi : names[i]? = some t.name) :
    ∃ j, reorder key names (ts.map UserType.name) ⟨key, i⟩ = ⟨key, j⟩ ∧ ts[j]? = some t := by
  obtain ⟨j, hj⟩ := List.getElem?_of_mem ht
  refine ⟨j, reorder_of_name (hperm.nodup_iff.2 hnodup) hi ?_, hj⟩
  rw [List.getElem?_map, hj]
  rfl

namespace SchemaOf

variable {β ι τ β' ι' τ' : Type} {s : SchemaOf β ι τ} {s' : SchemaOf β' ι' τ'} {r : TypeRef}

/-- The handles of types of one schema as handles of those of the same names in another. -/
def reorder (s : SchemaOf β ι τ) (s' : SchemaOf β' ι' τ') : TypeRef → TypeRef :=
  TypeRef.reorder s.key s.typeNames s'.typeNames

theorem reorder_of_ne (h : r.schema ≠ s.key) : s.reorder s' r = r :=
  TypeRef.reorder_of_ne h

theorem schema_reorder (r : TypeRef) : (s.reorder s' r).schema = r.schema :=
  TypeRef.schema_reorder r

theorem getElem?_typeNames {i : Nat} {t : UserType β ι τ} (ht : s.types[i]? = some t) :
    s.typeNames[i]? = some t.name := by
  rw [typeNames, List.getElem?_map, ht]
  rfl

end SchemaOf

/-! ### Drafts -/

variable {w : Workspace} {unit : SourceId} {declaration : Declaration} {d d' : Draft}
  {u u' : Linked} {s s' : Schema}

/-- The second draft has the types of the first in another order. -/
structure Draft.Reorders (d d' : Draft) : Prop where
  types : d'.types.Perm d.types
  rest : d' = { d with types := d'.types }

theorem Declaration.DraftsTo.reorder {types : List Declaration.TypeDecl}
    (h : declaration.DraftsTo w unit d) (htypes : types.Perm declaration.types) :
    ∃ d', { declaration with types }.DraftsTo w unit d' ∧ d.Reorders d' := by
  obtain ⟨ts, hts, hperm⟩ := List.perm_comp_forall₂ htypes h.types
  refine ⟨{ d with types := ts }, ?_, hperm, rfl⟩
  refine ⟨h.key, h.source, h.name, h.namespace, h.metadata, h.imports, h.nodup_aliases, hts, ?_⟩
  exact (hperm.map _).nodup_iff.2 h.nodup_names

theorem Draft.Denotes.reorder (hd : declaration.DraftsTo w unit d) (h : d.Reorders d')
    {path : TypePath} {t : DataType} (ht : d.Denotes w path t) :
    d'.Denotes w path (t.mapRefs (d.reorder d')) := by
  have hnames : d'.typeNames.Perm d.typeNames := h.types.map _
  have hkey : d'.key = d.key := by rw [h.rest]
  have himports : d'.imports = d.imports := by rw [h.rest]
  have hposition : ∀ {i : Nat} {t : DraftType}, d.types[i]? = some t →
      ∃ j, d.reorder d' ⟨d.key, i⟩ = ⟨d'.key, j⟩ ∧ d'.types[j]? = some t := fun ht => by
    rw [hkey]
    exact TypeRef.exists_reorder d.key hnames hd.nodup_names
      (h.types.mem_iff.2 (List.mem_of_getElem? ht)) (SchemaOf.getElem?_typeNames ht)
  cases ht with
  | primitive hnot hid => exact .primitive (by rwa [hnames.mem_iff]) hid
  | void hnot hid hvoid => exact .void (by rwa [hnames.mem_iff]) hid hvoid
  | own ht hname =>
      obtain ⟨j, hj, ht'⟩ := hposition ht
      rw [TypeKind.mapRefs_dataType, hj]
      exact .own ht' hname
  | selfImport hmem ht hname =>
      obtain ⟨j, hj, ht'⟩ := hposition ht
      rw [TypeKind.mapRefs_dataType, hj]
      exact .selfImport (by rwa [himports, hkey]) ht' hname
  | @imported _ _ s i _ hmem hs ht hname =>
      have hlt := (List.getElem?_eq_some_iff.1 hs).1
      have hne : TypeRef.schema ⟨s.key, i⟩ ≠ d.key := by
        rw [hd.key]
        exact Nat.ne_of_lt hlt
      rw [TypeKind.mapRefs_dataType, SchemaOf.reorder_of_ne hne]
      exact .imported (by rwa [himports]) hs ht hname

/-! ### Chains and cycles -/

theorem chain_map {α β : Type} {f : α → β} {next : α → Option α} {next' : β → Option β}
    (h : ∀ a, next' (f a) = (next a).map f) (n : Nat) (a : α) :
    chain next' n (f a) = (chain next n a).map f := by
  induction n generalizing a with
  | zero => rfl
  | succ n ih =>
      rw [chain, chain, h]
      cases next a with
      | none => rfl
      | some b => simp [ih]

/-! ### Linked units -/

/-- The second unit has the types of the first in another order, under the new handles. -/
structure Linked.Reorders (u u' : Linked) : Prop where
  nodup : u.typeNames.Nodup
  types : u'.types.Perm (u.types.map (UserType.mapRefs (u.reorder u')))
  rest : u' = { u with types := u'.types }

/-- The same references are written in both drafts, and so the types become the same, up to the
handles. -/
theorem Draft.ResolvesTo.reorder {declaration' : Declaration} (hw : w.WellFormed)
    (hd : declaration.DraftsTo w unit d) (hd' : declaration'.DraftsTo w unit d')
    (h : d.Reorders d') (hu : d.ResolvesTo w u) :
    ∃ u', d'.ResolvesTo w u' ∧ u.Reorders u' := by
  have hfollows : Resolution.Follows (d.reorder d') w d w d' := by
    refine ⟨rfl, fun owner path t ht => ?_⟩
    rw [Resolution.resolvePath_eq_ok_iff hw hd] at ht
    rw [Resolution.resolvePath_eq_ok_iff hw hd']
    exact ht.reorder hd h
  have htypes : List.Forall₂ (DraftType.ResolvesTo w d') d.types
      (u.types.map (UserType.mapRefs (d.reorder d'))) :=
    List.forall₂_map_right_iff.2 (hu.types.imp fun _ _ ht => ht.mapRefs hfollows)
  obtain ⟨ts, hts, hperm⟩ := List.perm_comp_forall₂ h.types htypes
  have hu' : d'.ResolvesTo w { u with types := ts } := by
    rw [h.rest] at hts ⊢
    exact ⟨hu.key, hu.source, hu.name, hu.namespace, hu.imports, hu.metadata, hts⟩
  refine ⟨{ u with types := ts }, hu', ?_, ?_, rfl⟩
  · rw [hu.typeNames_eq]
    exact hd.nodup_names
  · have hreorder : u.reorder { u with types := ts } = d.reorder d' := by
      rw [SchemaOf.reorder, SchemaOf.reorder, hu'.typeNames_eq, hu.typeNames_eq, hu.key]
    rw [hreorder]
    exact hperm

/-- The second schema has the types of the first in another order. The type of a name is the same in
both, and so is what is derived for it, under the new handles. -/
structure Schema.Reorders (s s' : Schema) : Prop where
  rest : s'.toSchemaOf = { s.toSchemaOf with types := s'.types }
  typeNames : s'.typeNames.Perm s.typeNames
  types : ∀ name i, s.typeIndex? name = some i → ∃ j, s'.typeIndex? name = some j ∧
    s'.types[j]? = s.types[i]?.map (UserType.mapRefs (s.reorder s'.toSchemaOf)) ∧
    s'.derivedOf j = (s.derivedOf i).mapRefs (s.reorder s'.toSchemaOf)

namespace Linked.Reorders

section

variable (h : u.Reorders u')

include h

theorem key_eq : u'.key = u.key := by rw [h.rest]

theorem typeNames_perm : u'.typeNames.Perm u.typeNames := by
  have hnames : (u.types.map (UserType.mapRefs (u.reorder u'))).map UserType.name = u.typeNames := by
    rw [List.map_map]
    rfl
  have hperm := h.types.map UserType.name
  rwa [hnames] at hperm

theorem nodup' : u'.typeNames.Nodup :=
  h.typeNames_perm.nodup_iff.2 h.nodup

/-- The type at one position is found under the new handle, with new handles in it. -/
theorem exists_position {i : Nat} {t : LinkedType} (ht : u.types[i]? = some t) :
    ∃ j, u.reorder u' ⟨u.key, i⟩ = ⟨u.key, j⟩ ∧
      u'.types[j]? = some (t.mapRefs (u.reorder u')) := by
  have hmem : t.mapRefs (u.reorder u') ∈ u'.types :=
    h.types.mem_iff.2 (List.mem_map_of_mem (List.mem_of_getElem? ht))
  have hname : u.typeNames[i]? = some t.name := SchemaOf.getElem?_typeNames ht
  exact TypeRef.exists_reorder u.key h.typeNames_perm h.nodup hmem hname

end

/-- Each type of the second unit is one of the first. -/
theorem exists_origin (h : u.Reorders u') {j : Nat} {t' : LinkedType}
    (ht' : u'.types[j]? = some t') : ∃ i t, u.types[i]? = some t ∧
      t.mapRefs (u.reorder u') = t' ∧ u.reorder u' ⟨u.key, i⟩ = ⟨u.key, j⟩ := by
  obtain ⟨t, ht, rfl⟩ := List.mem_map.1 (h.types.mem_iff.1 (List.mem_of_getElem? ht'))
  obtain ⟨i, hi⟩ := List.getElem?_of_mem ht
  have hj := SchemaOf.getElem?_typeNames ht'
  exact ⟨i, t, hi, rfl, TypeRef.reorder_of_name h.nodup' (SchemaOf.getElem?_typeNames hi) hj⟩

section Finish

variable (hw : w.WellFormed) (hkey : u.key = w.nextKey) (h : u.Reorders u')

include hkey in
omit h in
theorem fixes_published (r : TypeRef) (hr : r.schema < w.nextKey) : u.reorder u' r = r := by
  refine SchemaOf.reorder_of_ne ?_
  rw [hkey]
  exact Nat.ne_of_lt hr

include hw hkey h

/-- The second unit shows the types of the first under the new handles. -/
theorem type?_renames : TypeLookup.Renames (u.reorder u') (fun _ => True) (Scope.mk w u).type?
    (Scope.mk w u').type? := by
  intro r _
  have hschema : (u.reorder u' r).schema = r.schema := SchemaOf.schema_reorder r
  by_cases hown : r.schema = u.key
  · have hown' : (u.reorder u' r).schema = u'.key := by rw [hschema, h.key_eq, hown]
    rw [Scope.type?_own (s := ⟨w, u⟩) hown, Scope.type?_own (s := ⟨w, u'⟩) hown']
    obtain ⟨_, i⟩ := r
    obtain rfl := hown
    cases ht : u.types[i]? with
    | some t =>
        obtain ⟨j, hj, ht'⟩ := h.exists_position ht
        rw [hj]
        exact ht'
    | none =>
        -- Neither unit has a type at this position.
        have hlen := h.types.length_eq
        rw [List.length_map] at hlen
        have hi : u.typeNames[i]? = none := by
          rw [SchemaOf.typeNames, List.getElem?_map, ht]
          rfl
        rw [SchemaOf.reorder, TypeRef.reorder_of_none hi]
        rw [List.getElem?_eq_none_iff] at ht
        exact List.getElem?_eq_none (hlen ▸ ht)
  · have hown' : (u.reorder u' r).schema ≠ u'.key := by rwa [hschema, h.key_eq]
    rw [Scope.type?_published (s := ⟨w, u⟩) hown, Scope.type?_published (s := ⟨w, u'⟩) hown',
      hw.type?_mapRefs (fixes_published hkey), SchemaOf.reorder_of_ne hown]

theorem renames :
    Scope.Renames (u.reorder u') (fun _ => True) ⟨w, u⟩ ⟨w, u'⟩ where
  injective := TypeRef.reorder_injective h.typeNames_perm h.nodup
  primitives := rfl
  type? := h.type?_renames hw hkey
  closed _ _ _ _ := trivial
  mem_refs r _ := by
    have hkey' : u'.key = w.nextKey := h.key_eq.trans hkey
    have htype := h.type?_renames hw hkey r trivial
    rw [Scope.mem_refs (s := ⟨w, u⟩) hw.indexed hkey,
      Scope.mem_refs (s := ⟨w, u'⟩) hw.indexed hkey', htype]
    simp
  own_iff r _ := by
    show (u.reorder u' r).schema = u'.key ↔ r.schema = u.key
    rw [SchemaOf.schema_reorder, h.key_eq]
  derivedOf r _ hr := by
    show w.derivedOf (u.reorder u' r) = (w.derivedOf r).mapRefs (u.reorder u')
    rw [SchemaOf.reorder_of_ne hr, hw.derivedOf_mapRefs (fixes_published hkey)]
  owners _ _ _ _ _ := trivial

/-- The types of the second unit extend each other as those of the first. -/
theorem hierarchyCycle?_eq_none (hcycle : (Scope.mk w u).hierarchyCycle? = none) :
    (Scope.mk w u').hierarchyCycle? = none := by
  rw [Scope.hierarchyCycle?_eq_none_iff] at hcycle ⊢
  -- The position in the first unit of the type at a position in the second.
  let back : Nat → Nat := fun j => (u'.reorder u ⟨u'.key, j⟩).index
  have hback : ∀ j, u'.reorder u ⟨u'.key, j⟩ = ⟨u.key, back j⟩ := fun j => by
    have hschema : (u'.reorder u ⟨u'.key, j⟩).schema = u.key := by
      rw [SchemaOf.schema_reorder, h.key_eq]
    rw [← hschema]
  have hthere : ∀ j, u.reorder u' ⟨u.key, back j⟩ = ⟨u'.key, j⟩ := fun j => by
    rw [← hback, SchemaOf.reorder, SchemaOf.reorder, h.key_eq]
    exact TypeRef.reorder_reorder h.typeNames_perm.symm h.nodup' _
  have hedge : ∀ j k, Leads (Scope.mk w u').ownSupertypes j k →
      Leads (Scope.mk w u).ownSupertypes (back j) (back k) := by
    intro j k hjk
    have hsuper := Scope.mem_ownSupertypes.1 hjk
    have heq := (h.renames hw hkey).type?.supertypes_eq (r := ⟨u.key, back j⟩) trivial
    rw [hthere] at heq
    rw [Scope.supertypes, heq, ← hthere k] at hsuper
    have hinjective : Function.Injective (u.reorder u') :=
      TypeRef.reorder_injective h.typeNames_perm h.nodup
    exact Scope.mem_ownSupertypes.2 ((List.mem_map_of_injective hinjective).1 hsuper)
  exact fun j hj => hcycle (back j) (hj.lift back hedge)

theorem derive_eq {i j : Nat} {t : LinkedType} {derived : Derived}
    (hij : u.reorder u' ⟨u.key, i⟩ = ⟨u.key, j⟩)
    (hderive : (Scope.mk w u).derive i t = .ok derived) :
    (Scope.mk w u').derive j (t.mapRefs (u.reorder u')) =
      .ok (derived.mapRefs (u.reorder u')) := by
  have hrenames := h.renames hw hkey
  have hlen : (Scope.mk w u').refs.length = (Scope.mk w u).refs.length := by
    have hlen := h.types.length_eq
    rw [List.length_map] at hlen
    simp [Scope.refs, SchemaOf.refs, hlen]
  refine hrenames.derive_eq ⟨?_, fun _ _ => trivial⟩ (by rw [hij, h.key_eq]) hderive
  rw [Scope.lineage, Scope.lineage, hlen]
  exact chain_map (fun r => hrenames.base?_eq trivial) _ _

end Finish

/-- If one unit can be finished, so can the other, and the type of a name is the same in both. -/
theorem finish (hw : w.WellFormed) (hkey : u.key = w.nextKey) (h : u.Reorders u')
    (hs : u.finish w = .ok s) : ∃ s', u'.finish w = .ok s' ∧ s.Reorders s' := by
  obtain ⟨rfl, hcycle, -⟩ := Linked.finish_ok hs
  have hall : ∀ t ∈ u'.types.zipIdx, ∃ d, (Scope.mk w u').derive t.2 t.1 = .ok d := by
    rintro ⟨t', j⟩ ht'
    obtain ⟨i, t, ht, rfl, hij⟩ := h.exists_origin (List.mk_mem_zipIdx_iff_getElem?.1 ht')
    exact ⟨_, h.derive_eq hw hkey hij (Linked.derive_of_finish hs ht)⟩
  obtain ⟨derived, hderived⟩ := exists_forall₂_iff.2 hall
  have hs' : u'.finish w = .ok { u' with derived } :=
    Linked.finish_of_derived (h.hierarchyCycle?_eq_none hw hkey hcycle) (mapM_eq_ok.2 hderived)
  refine ⟨_, hs', h.rest, h.typeNames_perm, fun name i hi => ?_⟩
  obtain ⟨t, ht, hname⟩ := (SchemaOf.typeIndex?_eq_some_iff h.nodup).1 hi
  obtain ⟨j, hij, ht'⟩ := h.exists_position ht
  refine ⟨j, (SchemaOf.typeIndex?_eq_some_iff h.nodup').2 ⟨_, ht', hname⟩, ?_, ?_⟩
  · rw [ht]
    exact ht'
  · have hderive := h.derive_eq hw hkey hij (Linked.derive_of_finish hs ht)
    exact Except.ok.inj ((Linked.derive_of_finish hs' ht').symm.trans hderive)

end Linked.Reorders

/-! ### Declarations -/

/-- A unit is declared, its references are resolved, and it is finished. -/
def Declaration.Becomes (w : Workspace) (unit : SourceId) (declaration : Declaration)
    (s : Schema) : Prop :=
  ∃ d resolved : Draft, Draft.ofDeclaration w unit declaration = .ok d ∧
    d.resolve w = (resolved, .ok ()) ∧ resolved.finish w = .ok s

theorem Draft.finish_eq_ok : d.finish w = .ok s ↔ ∃ u, d.link = .ok u ∧ u.finish w = .ok s := by
  rw [finish]
  cases d.link with
  | error e => simp
  | ok u => simp [mapError_eq_ok]

namespace Declaration.Becomes

theorem unique (h : declaration.Becomes w unit s) (h' : declaration.Becomes w unit s') : s = s' := by
  obtain ⟨d, resolved, hd, hresolve, hs⟩ := h
  obtain ⟨d', resolved', hd', hresolve', hs'⟩ := h'
  obtain rfl := Except.ok.inj (hd.symm.trans hd')
  obtain rfl := (Prod.mk.inj (hresolve.symm.trans hresolve')).1
  exact Except.ok.inj (hs.symm.trans hs')

theorem reorder (hw : w.WellFormed) (h : declaration.Becomes w unit s)
    {types : List Declaration.TypeDecl} (htypes : types.Perm declaration.types) :
    ∃ s', { declaration with types }.Becomes w unit s' ∧ s.Reorders s' := by
  obtain ⟨d, resolved, hd, hresolve, hfinish⟩ := h
  have hdrafts := Draft.ofDeclaration_eq_ok.1 hd
  obtain ⟨d', hdrafts', hreorders⟩ := hdrafts.reorder htypes
  have hd' := Draft.ofDeclaration_eq_ok.2 hdrafts'
  obtain ⟨u, hlink, hs⟩ := Draft.finish_eq_ok.1 hfinish
  obtain ⟨-, u₁, hlink₁, hu⟩ := Draft.resolve_ok hresolve
  obtain rfl := Except.ok.inj (hlink.symm.trans hlink₁)
  obtain ⟨u', hu', hlinked⟩ := hu.reorder hw hdrafts hdrafts' hreorders
  obtain ⟨resolved', hresolve', hlink'⟩ :=
    Draft.resolve_of_resolvesTo (Draft.waits_of_ofDeclaration hd') hu'
  obtain ⟨s', hs', hschemas⟩ := hlinked.finish hw (hu.key.trans hdrafts.key) hs
  exact ⟨s', ⟨d', resolved', hd', hresolve', Draft.finish_eq_ok.2 ⟨u', hlink', hs'⟩⟩, hschemas⟩

end Declaration.Becomes

/-- The order in which a unit declares its types makes no difference: with the types in one order it
is declared, resolved and finished if and only if it is with the types in another, and then the type
of each name is the same, with the same effective properties and the same key, under the new
handles. -/
theorem declaration_order_irrelevant (hw : w.WellFormed) {types : List Declaration.TypeDecl}
    (htypes : types.Perm declaration.types) :
    ((∃ s, declaration.Becomes w unit s) ↔ ∃ s, { declaration with types }.Becomes w unit s) ∧
    ∀ s s', declaration.Becomes w unit s → { declaration with types }.Becomes w unit s' →
      s.Reorders s' := by
  refine ⟨⟨fun ⟨s, hs⟩ => ?_, fun ⟨s, hs⟩ => ?_⟩, fun s s' hs hs' => ?_⟩
  · obtain ⟨s', hs', -⟩ := hs.reorder hw htypes
    exact ⟨s', hs'⟩
  · obtain ⟨s', hs', -⟩ := hs.reorder hw htypes.symm
    exact ⟨s', hs'⟩
  · obtain ⟨s'', hs'', hreorders⟩ := hs.reorder hw htypes
    rwa [hs'.unique hs'']

/-- A struct may be declared before its base or after it. -/
theorem declaration_order_irrelevant_reversed :
    importedWorkspace.WellFormed ∧
      importingDeclaration.types.reverse.Perm importingDeclaration.types ∧
      ∃ s s', importingDeclaration.Becomes importedWorkspace "c" s ∧
        { importingDeclaration with types := importingDeclaration.types.reverse }.Becomes
          importedWorkspace "c" s' ∧ s.typeNames = ["T", "S"] ∧ s.Reorders s' := by
  have hw : importedWorkspace.WellFormed :=
    ((Reached.empty [.builtin "int" .int32] {} none).load derivingSources.reader ["a"]).wellFormed
  have hperm : importingDeclaration.types.reverse.Perm importingDeclaration.types :=
    List.reverse_perm _
  have hrun : (Draft.ofDeclaration importedWorkspace "c" importingDeclaration).toOption.map
      (fun d => ((d.resolve importedWorkspace).2.toOption,
        ((d.resolve importedWorkspace).1.finish importedWorkspace).toOption.map fun s =>
          s.typeNames)) = some (some (), some ["T", "S"]) := by cbv
  obtain ⟨d, hd, hrun⟩ := Option.map_eq_some_iff.1 hrun
  obtain ⟨hresolve, hfinish⟩ := Prod.mk.inj hrun
  obtain ⟨s, hs, hnames⟩ := Option.map_eq_some_iff.1 hfinish
  rw [toOption_eq_some] at hd hresolve hs
  have hbecomes : importingDeclaration.Becomes importedWorkspace "c" s :=
    ⟨d, _, hd, Prod.ext rfl hresolve, hs⟩
  obtain ⟨hiff, hreorders⟩ := declaration_order_irrelevant hw hperm
  obtain ⟨s', hs'⟩ := hiff.1 ⟨s, hbecomes⟩
  exact ⟨hw, hperm, s, s', hbecomes, hs', hnames, hreorders s s' hbecomes hs'⟩

end SchemaGraph
