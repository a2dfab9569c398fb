import SchemaGraph.Proofs.Drafts

/-!
Which declarations become drafts. Items are drawn up one by one, each with those before it at hand,
but all that an item looks for among them is its own name. So a declaration becomes a draft if and
only if each of its parts is in order by itself and no name comes twice.
-/

namespace SchemaGraph

/-! ### Items in order -/

/-- Items that ask of those before them only that none has their name are all drawn up if each is
in order by itself and their names differ. -/
theorem Drafting.inOrder_eq_ok_iff {α β γ ε : Type} {draw : List β → α → Except ε β}
    {drawn : α → β → Prop} {name : β → γ}
    (hdraw : ∀ done a b, draw done a = .ok b ↔ drawn a b ∧ name b ∉ done.map name)
    {as : List α} {bs : List β} :
    inOrder draw as = .ok bs ↔ List.Forall₂ drawn as bs ∧ (bs.map name).Nodup := by
  suffices hfrom : ∀ done : List β, (done.map name).Nodup →
      (as.foldlM (fun done a => do return done ++ [← draw done a]) done = .ok bs ↔
        ∃ new, bs = done ++ new ∧ List.Forall₂ drawn as new ∧ (bs.map name).Nodup) by
    refine (hfrom [] List.nodup_nil).trans ?_
    simp only [List.nil_append, exists_eq_left']
  induction as with
  | nil =>
      intro done hdone
      rw [List.foldlM_nil, pure_eq_ok]
      constructor
      · rintro rfl
        exact ⟨[], (List.append_nil _).symm, .nil, hdone⟩
      · rintro ⟨new, rfl, hnew, -⟩
        rw [List.forall₂_nil_left_iff.1 hnew, List.append_nil]
  | cons a as ih =>
      intro done hdone
      have hsnoc : ∀ b, name b ∉ done.map name → ((done ++ [b]).map name).Nodup := fun b hb => by
        rw [List.map_append, List.nodup_append]
        refine ⟨hdone, by simp, fun x hx y hy heq => hb ?_⟩
        rwa [← List.mem_singleton.1 hy, ← heq]
      rw [List.foldlM_cons, bind_eq_ok]
      constructor
      · rintro ⟨next, hnext, h⟩
        obtain ⟨b, hb, hnext⟩ := bind_eq_ok.1 hnext
        obtain rfl := pure_eq_ok.1 hnext
        obtain ⟨hab, hfresh⟩ := (hdraw done a b).1 hb
        obtain ⟨new, rfl, hnew, hnodup⟩ := (ih _ (hsnoc b hfresh)).1 h
        exact ⟨b :: new, List.append_cons .. |>.symm, .cons hab hnew, hnodup⟩
      · rintro ⟨new, rfl, hnew, hnodup⟩
        obtain ⟨b, rest, hab, hrest, rfl⟩ := List.forall₂_cons_left_iff.1 hnew
        have hfresh : name b ∉ done.map name := fun hmem => by
          rw [List.map_append, List.nodup_append] at hnodup
          exact hnodup.2.2 _ hmem _ (by simp) rfl
        have hstep : (do return done ++ [← draw done a] : Except ε (List β)) =
            .ok (done ++ [b]) := bind_eq_ok.2 ⟨b, (hdraw done a b).2 ⟨hab, hfresh⟩, rfl⟩
        refine ⟨_, hstep, (ih _ (hsnoc b hfresh)).2 ⟨rest, List.append_cons .., hrest, hnodup⟩⟩

/-! ### Names -/

/-- A text is there, and without the white space around it it is the name: an identifier that is not
reserved. -/
def Workspace.Admits (w : Workspace) (text : Option String) (name : String) : Prop :=
  ∃ t, text = some t ∧ Text.trim t = name ∧ Text.isIdentifier name = true ∧
    w.isReserved name = false

/-- A declaration may use the name: it is an identifier that is not reserved. -/
structure Workspace.Permits (w : Workspace) (name : String) : Prop where
  isIdentifier : Text.isIdentifier name = true
  notReserved : w.isReserved name = false

theorem Workspace.Admits.permits {w : Workspace} {text : Option String} {name : String}
    (h : w.Admits text name) : w.Permits name := by
  obtain ⟨-, -, -, hidentifier, hfree⟩ := h
  exact ⟨hidentifier, hfree⟩

namespace Drafting

variable {w : Workspace} {unit : SourceId}

theorem properName_eq_ok {role : NameRole} {owner : String} {text : Option String}
    {name : String} : properName w unit role owner text = .ok name ↔ w.Admits text name := by
  cases text with
  | none => simp [properName, Workspace.Admits]
  | some t =>
      rw [properName]
      constructor
      · intro h
        split at h
        · rename_i hproper
          obtain rfl := Except.ok.inj h
          rw [Bool.and_eq_true, Bool.not_eq_true'] at hproper
          exact ⟨t, rfl, rfl, hproper⟩
        · cases h
      · rintro ⟨_, ⟨⟩, rfl, hidentifier, hfree⟩
        exact if_pos (by rw [hidentifier, hfree]; rfl)

end Drafting

/-! ### Imports -/

/-- The alias that an import declares, or else the name of what it imports, stands for that: for the
schema itself if the import is of its own source, and otherwise for a published one. -/
inductive Declaration.Import.StandsFor (w : Workspace) (unit : SourceId) (schema : String)
    (i : Declaration.Import) : String × SchemaKey → Prop
  | self {name : String} (hsource : i.source = unit)
      (hname : w.Admits (some (i.localName.getD schema)) name) :
      StandsFor w unit schema i (name, w.nextKey)
  | published {name : String} {t : Schema} (hsource : i.source ≠ unit)
      (ht : w.bySource? i.source = some t)
      (hname : w.Admits (some (i.localName.getD t.name)) name) :
      StandsFor w unit schema i (name, t.key)

namespace Drafting

variable {w : Workspace} {unit : SourceId} {schema schemaNamespace : String}

theorem draftImport_eq_ok {done : List (String × SchemaKey)} {i : Declaration.Import}
    {entry : String × SchemaKey} :
    draftImport w unit schema done i = .ok entry ↔
      i.StandsFor w unit schema entry ∧ entry.1 ∉ done.map Prod.fst := by
  rw [draftImport, bind_eq_ok]
  constructor
  · rintro ⟨⟨own, key⟩, hown, h⟩
    obtain ⟨name, hname, h⟩ := bind_eq_ok.1 h
    obtain ⟨hfresh, h⟩ := check_eq_ok.1 h
    obtain rfl := pure_eq_ok.1 h
    refine ⟨?_, hfresh⟩
    rw [properName_eq_ok] at hname
    rw [importTarget] at hown
    split at hown
    · rename_i hself
      cases hown
      exact .self hself hname
    · rename_i hother
      split at hown
      · rename_i t ht
        cases hown
        exact .published hother ht hname
      · cases hown
  · rintro ⟨hstands, hfresh⟩
    cases hstands with
    | self hsource hname =>
        exact ⟨(schema, w.nextKey), if_pos hsource, bind_eq_ok.2
          ⟨_, properName_eq_ok.2 hname, check_eq_ok.2 ⟨hfresh, rfl⟩⟩⟩
    | published hsource ht hname =>
        refine ⟨(_, _), ?_, bind_eq_ok.2
          ⟨_, properName_eq_ok.2 hname, check_eq_ok.2 ⟨hfresh, rfl⟩⟩⟩
        rw [importTarget, if_neg hsource, ht]

theorem draftImports_eq_ok {imports : List Declaration.Import}
    {entries : List (String × SchemaKey)} :
    inOrder (draftImport w unit schema) imports = .ok entries ↔
      List.Forall₂ (Declaration.Import.StandsFor w unit schema) imports entries ∧
        (entries.map Prod.fst).Nodup := by
  refine inOrder_eq_ok_iff fun done i entry => ?_
  exact draftImport_eq_ok

end Drafting

/-! ### Key components -/

/-- What the roles of the own properties of a composite type may be: key components belong to
entities without a base, which have one to seven of them. -/
def TypeKind.AllowsRoles (kind : TypeKind) (hasBase : Bool)
    (roles : List PropertyRole) : Prop :=
  if kind = .entity ∧ hasBase = false then
    1 ≤ roles.count .primaryKey ∧ roles.count .primaryKey ≤ maxKeyArity
  else .primaryKey ∉ roles

namespace Drafting

variable {w : Workspace} {unit : SourceId} {type schemaNamespace : String}

theorem length_keyComponents (ps : List (Property TypeBinding)) :
    (keyComponents ps).length = (ps.map Property.role).count .primaryKey := by
  rw [keyComponents, List.length_map, List.count, List.countP_map, List.countP_eq_length_filter]
  rfl

theorem checkKeyComponents_eq_ok {kind : TypeKind} {hasBase : Bool}
    {ps : List (Property TypeBinding)} :
    checkKeyComponents unit kind type hasBase (keyComponents ps) = .ok () ↔
      kind.AllowsRoles hasBase (ps.map Property.role) := by
  have hlen := length_keyComponents ps
  rw [TypeKind.AllowsRoles, ← List.count_eq_zero, ← hlen]
  cases keyComponents ps with
  | nil =>
      rw [checkKeyComponents, check_eq_ok]
      by_cases hroot : kind = .entity ∧ hasBase = false <;> simp [hroot]
  | cons c cs =>
      rw [checkKeyComponents, check_eq_ok, check_eq_ok, check_eq_ok]
      by_cases hroot : kind = .entity ∧ hasBase = false
      · simp [hroot]
      · have hkind : ¬(¬kind ≠ .entity ∧ ¬hasBase = true) := by simpa using hroot
        rw [if_neg hroot]
        refine iff_of_false (fun h => hkind ⟨h.1, h.2.1⟩) (by simp)

end Drafting

/-! ### Types -/

/-- By itself, a declared type becomes a draft of that name. -/
def Declaration.TypeDecl.DraftsTo (w : Workspace) (unit : SourceId) (schemaNamespace : String)
    (t : Declaration.TypeDecl) (d : DraftType) : Prop :=
  ∃ name, w.Admits t.name name ∧ Drafting.draftBody w unit schemaNamespace name t = .ok d

namespace Drafting

variable {w : Workspace} {unit : SourceId} {schemaNamespace : String}

theorem draftType_eq_ok {done : List DraftType} {t : Declaration.TypeDecl} {d : DraftType} :
    draftType w unit schemaNamespace done t = .ok d ↔
      t.DraftsTo w unit schemaNamespace d ∧ d.name ∉ done.map UserType.name := by
  rw [draftType, bind_eq_ok]
  constructor
  · rintro ⟨name, hname, h⟩
    obtain ⟨hfresh, h⟩ := check_eq_ok.1 h
    refine ⟨⟨name, properName_eq_ok.1 hname, h⟩, ?_⟩
    rwa [(draws_of_draftBody h).name]
  · rintro ⟨⟨name, hname, h⟩, hfresh⟩
    rw [(draws_of_draftBody h).name] at hfresh
    exact ⟨name, properName_eq_ok.2 hname, check_eq_ok.2 ⟨hfresh, h⟩⟩

theorem draftTypes_eq_ok {types : List Declaration.TypeDecl} {drafts : List DraftType} :
    inOrder (draftType w unit schemaNamespace) types = .ok drafts ↔
      List.Forall₂ (Declaration.TypeDecl.DraftsTo w unit schemaNamespace) types drafts ∧
        (drafts.map UserType.name).Nodup := by
  refine inOrder_eq_ok_iff fun done t d => ?_
  exact draftType_eq_ok

end Drafting

/-! ### Declarations -/

/-- What the draft of a declaration is made of. -/
structure Declaration.DraftsTo (w : Workspace) (unit : SourceId) (declaration : Declaration)
    (d : Draft) : Prop where
  key : d.key = w.nextKey
  source : d.source = unit
  name : w.Admits declaration.name d.name
  «namespace» : Drafting.properNamespace w unit declaration.namespace = .ok d.namespace
  metadata : d.metadata = declaration.metadata
  imports : List.Forall₂ (Import.StandsFor w unit d.name) declaration.imports d.imports
  nodup_aliases : (d.imports.map Prod.fst).Nodup
  types : List.Forall₂ (TypeDecl.DraftsTo w unit d.namespace) declaration.types d.types
  nodup_names : d.typeNames.Nodup

theorem Draft.ofDeclaration_eq_ok {w : Workspace} {unit : SourceId} {declaration : Declaration}
    {d : Draft} : ofDeclaration w unit declaration = .ok d ↔ declaration.DraftsTo w unit d := by
  rw [ofDeclaration, bind_eq_ok]
  constructor
  · rintro ⟨name, hname, h⟩
    obtain ⟨ns, hns, h⟩ := bind_eq_ok.1 h
    obtain ⟨imports, hi, h⟩ := bind_eq_ok.1 h
    obtain ⟨types, ht, h⟩ := bind_eq_ok.1 h
    obtain rfl := pure_eq_ok.1 h
    obtain ⟨hi, hialiases⟩ := Drafting.draftImports_eq_ok.1 hi
    obtain ⟨ht, htnames⟩ := Drafting.draftTypes_eq_ok.1 ht
    exact ⟨rfl, rfl, Drafting.properName_eq_ok.1 hname, hns, rfl, hi, hialiases, ht, htnames⟩
  · intro h
    obtain ⟨key, source, name, ns, imports, types, metadata⟩ := d
    obtain ⟨rfl, rfl, hname, hns, rfl, hi, hialiases, ht, htnames⟩ := h
    refine ⟨name, Drafting.properName_eq_ok.2 hname, bind_eq_ok.2 ⟨ns, hns, ?_⟩⟩
    refine bind_eq_ok.2 ⟨imports, Drafting.draftImports_eq_ok.2 ⟨hi, hialiases⟩, ?_⟩
    exact bind_eq_ok.2 ⟨types, Drafting.draftTypes_eq_ok.2 ⟨ht, htnames⟩, rfl⟩

end SchemaGraph
