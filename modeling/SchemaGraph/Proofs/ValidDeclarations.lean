import SchemaGraph.Proofs.Declaring
import SchemaGraph.Proofs.TypeNotation

/-!
Which declarations are accepted, and what their drafts say. A declaration is valid if its names are
proper and differ where they have to, its imports are published, its references are written as the
notation of types has it, its key components are where they may be, and the values of its enums are
in range (`Declaration.Valid`). The draft of a valid declaration lists what is declared, in the
order of the declaration (`Declaration.Lists`).

Each rule is stated for the smallest part of a declaration that it is about. The items of a list are
drawn up with those before them at hand, but the rules for a list are that each item is valid by
itself and that names do not repeat.
-/

namespace SchemaGraph

open Text

/-! ### Names -/

-- Irreducible, so that two texts of types are not compared by trimming texts that are not known.
/-- The name that a text gives: the text without the white space around it. -/
@[irreducible] def givenName (text : Option String) : String :=
  trim (text.getD "")

theorem givenName_some (text : String) : givenName (some text) = trim text := by
  rw [givenName, Option.getD_some]

/-- The namespace of a type: its own, or else that of its schema. -/
def givenNamespace (schemaNamespace : String) (text : Option String) : String :=
  if givenName text = "" then schemaNamespace else givenName text

namespace Workspace

variable {w : Workspace} {text : Option String} {name : String}

/-- A name is there, and may be declared. -/
def Accepts (w : Workspace) (text : Option String) : Prop :=
  text.isSome ∧ w.Permits (givenName text)

theorem admits_iff : w.Admits text name ↔ w.Accepts text ∧ name = givenName text := by
  constructor
  · rintro ⟨t, rfl, rfl, hidentifier, hfree⟩
    rw [Accepts, givenName_some]
    exact ⟨⟨rfl, hidentifier, hfree⟩, rfl⟩
  · rintro ⟨⟨hsome, hidentifier, hfree⟩, rfl⟩
    obtain ⟨t, rfl⟩ := Option.isSome_iff_exists.1 hsome
    rw [givenName_some] at hidentifier hfree ⊢
    exact ⟨t, rfl, rfl, hidentifier, hfree⟩

/-- A namespace is empty, or names that may be declared with dots between them. -/
def AcceptsNamespace (w : Workspace) (text : Option String) : Prop :=
  givenName text = "" ∨ ∀ segment ∈ segments (givenName text), w.Permits segment

end Workspace

namespace Drafting

variable {w : Workspace} {unit : SourceId} {schemaNamespace ns : String} {text : Option String}

theorem isNamespace_iff_of_ne {name : String} (h : name ≠ "") :
    isNamespace name = true ↔ ∀ segment ∈ segments name, isIdentifier segment = true := by
  rw [isNamespace, Bool.or_eq_true, String.isEmpty_iff, or_iff_right h, List.all_eq_true, segments,
    List.forall_mem_map]
  simp only [isIdentifier, String.toList_ofList]

theorem properNamespace_eq_ok_of_ne (h : givenName text ≠ "") :
    properNamespace w unit text = .ok ns ↔ w.AcceptsNamespace text ∧ ns = givenName text := by
  have hproper : (isNamespace (givenName text) &&
      !(segments (givenName text)).any w.isReserved) = true ↔ w.AcceptsNamespace text := by
    rw [Workspace.AcceptsNamespace, or_iff_right h, Bool.and_eq_true, isNamespace_iff_of_ne h,
      Bool.not_eq_true', List.any_eq_false]
    exact ⟨fun h s hs => ⟨h.1 s hs, Bool.eq_false_iff.2 (h.2 s hs)⟩, fun h =>
      ⟨fun s hs => (h s hs).isIdentifier, fun s hs => Bool.eq_false_iff.1 (h s hs).notReserved⟩⟩
  simp only [properNamespace]
  rw [← hproper, givenName]
  split
  · rename_i hok
    simp [hok, eq_comm]
  · rename_i hok
    simp [hok]

/-- The empty namespace is accepted unless the empty name is reserved. -/
theorem properNamespace_eq_ok (hw : w.isReserved "" = false) :
    properNamespace w unit text = .ok ns ↔ w.AcceptsNamespace text ∧ ns = givenName text := by
  by_cases h : givenName text = ""
  · have hok : properNamespace w unit text = .ok "" := by
      rw [givenName] at h
      simp [properNamespace, h, isNamespace, segments, pieces, hw]
    rw [hok, h]
    exact ⟨fun hns => ⟨.inl h, (Except.ok.inj hns).symm⟩, fun hns => by rw [hns.2]⟩
  · exact properNamespace_eq_ok_of_ne h

theorem typeNamespace_eq_ok :
    typeNamespace w unit schemaNamespace text = .ok ns ↔
      w.AcceptsNamespace text ∧ ns = givenNamespace schemaNamespace text := by
  rw [typeNamespace, ← givenName, givenNamespace]
  by_cases h : givenName text = ""
  · rw [if_pos h, if_pos h]
    exact ⟨fun hns => ⟨.inl h, (Except.ok.inj hns).symm⟩, fun hns => by rw [hns.2]⟩
  · rw [if_neg h, if_neg h, properNamespace_eq_ok_of_ne h]

end Drafting

/-! ### Items with names -/

section Items

variable {α β ε : Type} {valid : α → Prop} {given : α → String} {lists : α → β → Prop}
  {name : β → String} {as : List α} {bs : List β}

/-- Each item is valid by itself, and no two items give one name. -/
structure ValidItems (valid : α → Prop) (given : α → String) (as : List α) : Prop where
  valid : ∀ a ∈ as, valid a
  nodup : (as.map given).Nodup

theorem map_name_eq (hname : ∀ a b, lists a b → name b = given a)
    (h : List.Forall₂ lists as bs) : bs.map name = as.map given := by
  induction h with
  | nil => rfl
  | cons hab _ ih => rw [List.map_cons, List.map_cons, ih, hname _ _ hab]

theorem ValidItems.exists_lists (h : ValidItems valid given as)
    (hlists : ∀ a, valid a → ∃ b, lists a b) : ∃ bs, List.Forall₂ lists as bs :=
  exists_forall₂_iff.2 fun a ha => hlists a (h.valid a ha)

theorem forall₂_valid_iff (hname : ∀ a b, lists a b → name b = given a) :
    List.Forall₂ (fun a b => valid a ∧ lists a b) as bs ∧ (bs.map name).Nodup ↔
      ValidItems valid given as ∧ List.Forall₂ lists as bs := by
  constructor
  · rintro ⟨h, hnodup⟩
    have hlists : List.Forall₂ lists as bs := h.imp fun _ _ hab => hab.2
    refine ⟨⟨fun a ha => ?_, map_name_eq hname hlists ▸ hnodup⟩, hlists⟩
    obtain ⟨b, hvalid, -⟩ := exists_forall₂_iff.1 ⟨bs, h⟩ a ha
    exact hvalid
  · rintro ⟨⟨hvalid, hnodup⟩, hlists⟩
    refine ⟨forall₂_imp_of_mem (fun a ha b hab => ⟨hvalid a ha, hab⟩) hlists, ?_⟩
    rwa [map_name_eq hname hlists]

/-- Items that go by the names they give are all drawn up if and only if they are valid together. -/
theorem Drafting.inOrder_eq_ok_iff_valid {draw : List β → α → Except ε β}
    (hdraw : ∀ done a b,
      draw done a = .ok b ↔ (valid a ∧ lists a b) ∧ name b ∉ done.map name)
    (hname : ∀ a b, lists a b → name b = given a) :
    inOrder draw as = .ok bs ↔ ValidItems valid given as ∧ List.Forall₂ lists as bs :=
  (inOrder_eq_ok_iff hdraw).trans (forall₂_valid_iff hname)

end Items

/-! ### Optional items -/

section Optional

variable {α β ε : Type} {R : α → β → Prop} {a : Option α}

theorem optionMapM_eq_ok_iff_forall₂ {f : α → Except ε β} {b : Option β} :
    a.mapM f = .ok b ↔ List.Forall₂ (fun a b => f a = .ok b) a.toList b.toList := by
  rw [optionMapM_eq_ok]
  cases a <;> cases b <;> simp [Option.rel_some_some]

theorem isSome_eq_of_forall₂ {b : Option β}
    (h : List.Forall₂ R a.toList b.toList) : b.isSome = a.isSome := by
  have hlength := h.length_eq
  cases a <;> cases b <;> simp at hlength ⊢

theorem exists_forall₂_toList (h : ∀ x ∈ a.toList, ∃ y, R x y) :
    ∃ b : Option β, List.Forall₂ R a.toList b.toList := by
  cases a with
  | none => exact ⟨none, .nil⟩
  | some x =>
      obtain ⟨y, hy⟩ := h x (by simp)
      exact ⟨some y, .cons hy .nil⟩

end Optional

/-! ### Properties -/

namespace Declaration.Property

/-- A property has a proper name and a type that can be read. -/
structure Valid (w : Workspace) (p : Declaration.Property) : Prop where
  name : w.Accepts p.name
  type : ∃ text, p.typeText = some text ∧
    ∃ e, TypeExpr.parse w.containers text p.key p.value = .ok e

/-- The drafted property has what is declared, and a type that waits to be resolved. -/
structure Lists (w : Workspace) (p : Declaration.Property) (q : SchemaGraph.Property TypeBinding) :
    Prop where
  name : q.name = givenName p.name
  role : q.role = p.role
  type : ∃ e, TypeExpr.parse w.containers (p.typeText.getD "") p.key p.value = .ok e ∧
    q.type = .pending e
  default : q.default = p.default
  metadata : q.metadata = p.metadata

theorem Valid.exists_lists {w : Workspace} {p : Declaration.Property} (h : p.Valid w) :
    ∃ q, p.Lists w q := by
  obtain ⟨-, text, htext, e, he⟩ := h
  exact ⟨⟨givenName p.name, p.role, .pending e, p.default, p.metadata⟩,
    rfl, rfl, ⟨e, by rwa [htext], rfl⟩, rfl, rfl⟩

end Declaration.Property

namespace Drafting

variable {w : Workspace} {unit : SourceId} {type : String}

theorem require_eq_ok {α : Type} {owner field : String} {text : Option α} {a : α} :
    require unit owner field text = .ok a ↔ text = some a := by
  cases text <;> simp [require]

theorem properName_eq_ok_iff {role : NameRole} {owner name : String} {text : Option String} :
    properName w unit role owner text = .ok name ↔ w.Accepts text ∧ name = givenName text :=
  properName_eq_ok.trans Workspace.admits_iff

theorem draftProperty_eq_ok {done : List (Property TypeBinding)} {p : Declaration.Property}
    {q : Property TypeBinding} :
    draftProperty w unit type done p = .ok q ↔
      (p.Valid w ∧ p.Lists w q) ∧ q.name ∉ done.map Property.name := by
  rw [draftProperty, bind_eq_ok]
  constructor
  · rintro ⟨name, hname, h⟩
    obtain ⟨hfresh, h⟩ := check_eq_ok.1 h
    obtain ⟨text, htext, h⟩ := bind_eq_ok.1 h
    obtain ⟨e, he, h⟩ := bind_eq_ok.1 h
    obtain rfl := pure_eq_ok.1 h
    obtain ⟨haccepts, rfl⟩ := properName_eq_ok_iff.1 hname
    rw [require_eq_ok] at htext
    rw [mapError_eq_ok] at he
    exact ⟨⟨⟨haccepts, text, htext, e, he⟩, rfl, rfl, ⟨e, by rwa [htext], rfl⟩, rfl, rfl⟩, hfresh⟩
  · rintro ⟨⟨⟨hname, text, htext, -⟩, hlists⟩, hfresh⟩
    obtain ⟨name, role, pending, default, metadata⟩ := q
    obtain ⟨rfl, rfl, ⟨e, he, rfl⟩, rfl, rfl⟩ := hlists
    rw [htext, Option.getD_some] at he
    exact ⟨_, properName_eq_ok_iff.2 ⟨hname, rfl⟩, check_eq_ok.2 ⟨hfresh,
      bind_eq_ok.2 ⟨text, require_eq_ok.2 htext, bind_eq_ok.2 ⟨e, mapError_eq_ok.2 he, rfl⟩⟩⟩⟩

theorem draftProperties_eq_ok {ps : List Declaration.Property}
    {qs : List (Property TypeBinding)} :
    draftProperties w unit type ps = .ok qs ↔
      ValidItems (Declaration.Property.Valid w) (givenName ·.name) ps ∧
        List.Forall₂ (Declaration.Property.Lists w) ps qs :=
  inOrder_eq_ok_iff_valid (fun _ _ _ => draftProperty_eq_ok) fun _ _ h => h.name

end Drafting

/-! ### Composite types -/

/-- An interface is drawn up as a composite type that is abstract and has no base. -/
def Declaration.Interface.asComposite (d : Declaration.Interface) : Declaration.Composite where
  name := d.name
  «namespace» := d.namespace
  interfaces := d.parents
  isAbstract := true
  properties := d.properties
  metadata := d.metadata

namespace Declaration.Composite

/-- A composite type has a proper name and namespace, its clauses are paths, its properties are
valid and differ in their names, and components of keys are where its kind has them. -/
structure Valid (w : Workspace) (kind : TypeKind) (c : Declaration.Composite) : Prop where
  name : w.Accepts c.name
  «namespace» : w.AcceptsNamespace c.namespace
  clauses : ∀ text ∈ c.base.toList ++ c.interfaces, ∃ path, SpacedPath text.toList path
  properties : ValidItems (Declaration.Property.Valid w) (givenName ·.name) c.properties
  key : kind.AllowsRoles c.base.isSome (c.properties.map Declaration.Property.role)

/-- The drafted type has what is declared, with its references as they were read. -/
structure Lists (w : Workspace) (schemaNamespace : String) (kind : TypeKind)
    (c : Declaration.Composite) (t : DraftType) : Prop where
  name : t.name = givenName c.name
  «namespace» : t.namespace = givenNamespace schemaNamespace c.namespace
  kind : t.kind = kind
  metadata : t.metadata = c.metadata
  body : ∃ base interfaces properties,
    t.body = .composite ⟨c.isAbstract, .pending base, .pending interfaces, properties⟩ ∧
      List.Forall₂ (fun text path => SpacedPath text.toList path) c.base.toList base.toList ∧
      List.Forall₂ (fun text path => SpacedPath text.toList path) c.interfaces interfaces ∧
      List.Forall₂ (Declaration.Property.Lists w) c.properties properties

theorem Valid.exists_lists {w : Workspace} {kind : TypeKind} {c : Declaration.Composite}
    (schemaNamespace : String) (h : c.Valid w kind) : ∃ t, c.Lists w schemaNamespace kind t := by
  obtain ⟨hbase, hinterfaces⟩ := List.forall_mem_append.1 h.clauses
  obtain ⟨base, hbase⟩ := exists_forall₂_toList hbase
  obtain ⟨interfaces, hinterfaces⟩ := exists_forall₂_iff.2 hinterfaces
  obtain ⟨properties, hproperties⟩ :=
    h.properties.exists_lists fun _ => Declaration.Property.Valid.exists_lists
  exact ⟨⟨_, _, kind, .composite ⟨c.isAbstract, .pending base, .pending interfaces, properties⟩, _⟩,
    rfl, rfl, rfl, rfl, base, interfaces, properties, rfl, hbase, hinterfaces, hproperties⟩

end Declaration.Composite

namespace Drafting

variable {w : Workspace} {unit : SourceId} {schemaNamespace name type clause : String}
  {kind : TypeKind} {t : DraftType}

theorem clausePath_eq_ok {text : String} {path : TypePath} :
    clausePath unit type clause text = .ok path ↔ SpacedPath text.toList path :=
  mapError_eq_ok.trans TypePath.parseChars_eq_ok

theorem roles_eq {ps : List Declaration.Property} {qs : List (Property TypeBinding)}
    (h : List.Forall₂ (Declaration.Property.Lists w) ps qs) :
    qs.map Property.role = ps.map Declaration.Property.role := by
  induction h with
  | nil => rfl
  | cons hpq _ ih => rw [List.map_cons, List.map_cons, ih, hpq.role]

/-- A composite type becomes a draft if and only if it is valid, and then one that lists it. -/
theorem draftComposite_eq_ok {c : Declaration.Composite} (hname : w.Accepts c.name) :
    draftComposite w unit schemaNamespace (givenName c.name) kind c = .ok t ↔
      c.Valid w kind ∧ c.Lists w schemaNamespace kind t := by
  rw [draftComposite, bind_eq_ok]
  constructor
  · rintro ⟨base, hbase, h⟩
    obtain ⟨interfaces, hinterfaces, h⟩ := bind_eq_ok.1 h
    obtain ⟨properties, hproperties, h⟩ := bind_eq_ok.1 h
    obtain ⟨_, hkey, h⟩ := bind_eq_ok.1 h
    obtain ⟨ns, hns, h⟩ := bind_eq_ok.1 h
    obtain rfl := pure_eq_ok.1 h
    obtain ⟨hvalid, hlists⟩ := draftProperties_eq_ok.1 hproperties
    obtain ⟨hnamespace, rfl⟩ := typeNamespace_eq_ok.1 hns
    have hbase := (optionMapM_eq_ok_iff_forall₂.1 hbase).imp fun _ _ => clausePath_eq_ok.1
    have hinterfaces := (mapM_eq_ok.1 hinterfaces).imp fun _ _ => clausePath_eq_ok.1
    rw [checkKeyComponents_eq_ok, roles_eq hlists, isSome_eq_of_forall₂ hbase] at hkey
    have hclauses : ∀ text ∈ c.base.toList ++ c.interfaces, ∃ path, SpacedPath text.toList path :=
      List.forall_mem_append.2
        ⟨exists_forall₂_iff.1 ⟨_, hbase⟩, exists_forall₂_iff.1 ⟨_, hinterfaces⟩⟩
    exact ⟨⟨hname, hnamespace, hclauses, hvalid, hkey⟩,
      rfl, rfl, rfl, rfl, base, interfaces, properties, rfl, hbase, hinterfaces, hlists⟩
  · rintro ⟨hvalid, hlists⟩
    obtain ⟨name, ns, kind, body, metadata⟩ := t
    obtain ⟨rfl, rfl, rfl, rfl, base, interfaces, properties, rfl, hbase, hinterfaces,
      hproperties⟩ := hlists
    have hkey := hvalid.key
    rw [← isSome_eq_of_forall₂ hbase, ← roles_eq hproperties] at hkey
    refine ⟨base, optionMapM_eq_ok_iff_forall₂.2 (hbase.imp fun _ _ => clausePath_eq_ok.2),
      bind_eq_ok.2 ⟨interfaces, mapM_eq_ok.2 (hinterfaces.imp fun _ _ => clausePath_eq_ok.2), ?_⟩⟩
    refine bind_eq_ok.2 ⟨properties, draftProperties_eq_ok.2 ⟨hvalid.properties, hproperties⟩, ?_⟩
    exact bind_eq_ok.2 ⟨(), checkKeyComponents_eq_ok.2 hkey,
      bind_eq_ok.2 ⟨_, typeNamespace_eq_ok.2 ⟨hvalid.namespace, rfl⟩, rfl⟩⟩

/-- Only the errors tell whether an interface is drawn up as such or as a composite type. -/
theorem draftInterface_eq_ok {d : Declaration.Interface} :
    draftInterface w unit schemaNamespace name d = .ok t ↔
      draftComposite w unit schemaNamespace name .interface d.asComposite = .ok t := by
  have hparents : ∀ {parents : List TypePath},
      d.parents.mapM (clausePath unit name "extends") = .ok parents ↔
        d.parents.mapM (clausePath unit name "implements") = .ok parents := by
    intro parents
    simp only [mapM_eq_ok, clausePath_eq_ok]
  rw [draftInterface, draftComposite, bind_eq_ok, bind_eq_ok]
  constructor
  · rintro ⟨parents, h, hrest⟩
    exact ⟨none, rfl, bind_eq_ok.2 ⟨parents, hparents.1 h, hrest⟩⟩
  · rintro ⟨base, hbase, h⟩
    obtain rfl : none = base := pure_eq_ok.1 hbase
    obtain ⟨parents, h, hrest⟩ := bind_eq_ok.1 h
    exact ⟨parents, hparents.2 h, hrest⟩

end Drafting

/-! ### Enums -/

namespace Declaration

/-- The underlying type that an enum names, or else the default one. -/
def Enum.underlying? (w : Workspace) (d : Declaration.Enum) : Option PrimitiveId :=
  match d.underlying with
  | some text => w.primitives.lookup? (trim text)
  | none => w.enumDefault

/-- The underlying type is a registered primitive of an integer kind with this range. -/
def Enum.Ranges (w : Workspace) (d : Declaration.Enum) (id : PrimitiveId) (low high : Int) : Prop :=
  d.underlying? w = some id ∧ ∃ p, w.primitives[id]? = some p ∧ p.kind.range? = some (low, high)

/-- An element has a proper name and an integer in range for its value. -/
structure Element.Valid (w : Workspace) (low high : Int) (e : Declaration.Element) : Prop where
  name : w.Accepts e.name
  value : ∃ written n, e.value = some written ∧ written.toInt? = some n ∧ low ≤ n ∧ n ≤ high

structure Element.Lists (e : Declaration.Element) (x : EnumElement) : Prop where
  name : x.name = givenName e.name
  value : ∃ written, e.value = some written ∧ written.toInt? = some x.value
  metadata : x.metadata = e.metadata

theorem Element.Valid.exists_lists {w : Workspace} {low high : Int} {e : Declaration.Element}
    (h : e.Valid w low high) : ∃ x, e.Lists x := by
  obtain ⟨-, written, n, hwritten, hn, -⟩ := h
  exact ⟨⟨givenName e.name, n, e.metadata⟩, rfl, ⟨written, hwritten, hn⟩, rfl⟩

structure Enum.Valid (w : Workspace) (d : Declaration.Enum) : Prop where
  name : w.Accepts d.name
  «namespace» : w.AcceptsNamespace d.namespace
  elements : ∃ id low high, d.Ranges w id low high ∧
    ValidItems (Element.Valid w low high) (givenName ·.name) d.elements

structure Enum.Lists (w : Workspace) (schemaNamespace : String) (d : Declaration.Enum)
    (t : DraftType) : Prop where
  name : t.name = givenName d.name
  «namespace» : t.namespace = givenNamespace schemaNamespace d.namespace
  kind : t.kind = .enum
  metadata : t.metadata = d.metadata
  body : ∃ id elements, t.body = .enum ⟨id, elements⟩ ∧ d.underlying? w = some id ∧
    List.Forall₂ Element.Lists d.elements elements

theorem Enum.Valid.exists_lists {w : Workspace} {d : Declaration.Enum} (schemaNamespace : String)
    (h : d.Valid w) : ∃ t, d.Lists w schemaNamespace t := by
  obtain ⟨id, low, high, hranges, helements⟩ := h.elements
  obtain ⟨elements, helements⟩ := helements.exists_lists fun _ => Element.Valid.exists_lists
  exact ⟨⟨_, _, .enum, .enum ⟨id, elements⟩, _⟩, rfl, rfl, rfl, rfl, id, elements, rfl, hranges.1,
    helements⟩

end Declaration

namespace Drafting

variable {w : Workspace} {unit : SourceId} {schemaNamespace name type : String} {low high : Int}
  {t : DraftType}

theorem enumUnderlying_eq_ok {d : Declaration.Enum} {found : PrimitiveId × Int × Int} :
    enumUnderlying w unit name d.underlying = .ok found ↔ d.Ranges w found.1 found.2.1 found.2.2 := by
  obtain ⟨id, low, high⟩ := found
  have hsearch : enumUnderlying w unit name d.underlying = .ok (id, low, high) ↔
      ((d.underlying? w).bind fun id =>
        (w.primitives[id]?.bind fun p => p.kind.range?).map fun r => (id, r)) =
          some (id, low, high) := by
    unfold enumUnderlying
    dsimp only
    split
    · rename_i found hfound
      have hfound : (d.underlying? w).bind _ = some found := hfound
      rw [hfound, Except.ok.injEq, Option.some.injEq]
    · rename_i hnone
      have hnone : (d.underlying? w).bind _ = none := hnone
      rw [hnone]
      exact iff_of_false nofun nofun
  simp only [hsearch, Declaration.Enum.Ranges, Option.bind_eq_some_iff, Option.map_eq_some_iff,
    Prod.mk.injEq]
  constructor
  · rintro ⟨_, hid, _, hp, rfl, rfl⟩
    exact ⟨hid, hp⟩
  · rintro ⟨hid, hp⟩
    exact ⟨id, hid, (low, high), hp, rfl, rfl⟩

theorem draftElement_eq_ok {done : List EnumElement} {e : Declaration.Element} {x : EnumElement} :
    draftElement w unit type low high done e = .ok x ↔
      (e.Valid w low high ∧ e.Lists x) ∧ x.name ∉ done.map EnumElement.name := by
  rw [draftElement, bind_eq_ok]
  constructor
  · rintro ⟨name, hname, h⟩
    obtain ⟨hfresh, h⟩ := check_eq_ok.1 h
    obtain ⟨written, hwritten, h⟩ := bind_eq_ok.1 h
    obtain ⟨haccepts, rfl⟩ := properName_eq_ok_iff.1 hname
    rw [require_eq_ok] at hwritten
    split at h
    · contradiction
    · rename_i n hn
      obtain ⟨hrange, h⟩ := check_eq_ok.1 h
      obtain rfl := pure_eq_ok.1 h
      exact ⟨⟨⟨haccepts, written, n, hwritten, hn, by omega⟩, rfl, ⟨written, hwritten, hn⟩, rfl⟩,
        hfresh⟩
  · rintro ⟨⟨⟨hname, written, n, hwritten, hn, hrange⟩, hlists⟩, hfresh⟩
    obtain ⟨name, value, metadata⟩ := x
    obtain ⟨rfl, ⟨written', hwritten', hvalue⟩, rfl⟩ := hlists
    obtain rfl : written = written' := Option.some.inj (hwritten.symm.trans hwritten')
    obtain rfl : n = value := Option.some.inj (hn.symm.trans hvalue)
    refine ⟨_, properName_eq_ok_iff.2 ⟨hname, rfl⟩, check_eq_ok.2 ⟨hfresh,
      bind_eq_ok.2 ⟨written, require_eq_ok.2 hwritten, ?_⟩⟩⟩
    rw [hn]
    exact check_eq_ok.2 ⟨by omega, rfl⟩

theorem draftElements_eq_ok {es : List Declaration.Element} {xs : List EnumElement} :
    inOrder (draftElement w unit type low high) es = .ok xs ↔
      ValidItems (Declaration.Element.Valid w low high) (givenName ·.name) es ∧
        List.Forall₂ Declaration.Element.Lists es xs :=
  inOrder_eq_ok_iff_valid (fun _ _ _ => draftElement_eq_ok) fun _ _ h => h.name

/-- An enum becomes a draft if and only if it is valid, and then one that lists it. -/
theorem draftEnum_eq_ok {d : Declaration.Enum} (hname : w.Accepts d.name) :
    draftEnum w unit schemaNamespace (givenName d.name) d = .ok t ↔
      d.Valid w ∧ d.Lists w schemaNamespace t := by
  rw [draftEnum, bind_eq_ok]
  constructor
  · rintro ⟨⟨id, low, high⟩, hfound, h⟩
    obtain ⟨elements, helements, h⟩ := bind_eq_ok.1 h
    obtain ⟨ns, hns, h⟩ := bind_eq_ok.1 h
    obtain rfl := pure_eq_ok.1 h
    have hranges := enumUnderlying_eq_ok.1 hfound
    obtain ⟨hvalid, hlists⟩ := draftElements_eq_ok.1 helements
    obtain ⟨hnamespace, rfl⟩ := typeNamespace_eq_ok.1 hns
    exact ⟨⟨hname, hnamespace, id, low, high, hranges, hvalid⟩,
      rfl, rfl, rfl, rfl, id, elements, rfl, hranges.1, hlists⟩
  · rintro ⟨⟨-, hnamespace, id, low, high, hranges, hvalid⟩, hlists⟩
    obtain ⟨name, ns, kind, body, metadata⟩ := t
    obtain ⟨rfl, rfl, rfl, rfl, id', elements, rfl, hid, hlists⟩ := hlists
    obtain rfl : id = id' := Option.some.inj (hranges.1.symm.trans hid)
    exact ⟨(id, low, high), enumUnderlying_eq_ok.2 hranges,
      bind_eq_ok.2 ⟨elements, draftElements_eq_ok.2 ⟨hvalid, hlists⟩,
        bind_eq_ok.2 ⟨_, typeNamespace_eq_ok.2 ⟨hnamespace, rfl⟩, rfl⟩⟩⟩

end Drafting

/-! ### Types -/

namespace Declaration.TypeDecl

def Valid (w : Workspace) : TypeDecl → Prop
  | .entity c => c.Valid w .entity
  | .struct c => c.Valid w .struct
  | .interface c => c.asComposite.Valid w .interface
  | .enum d => d.Valid w

/-- The drafted type is of the kind that is declared and has what is declared. -/
def Lists (w : Workspace) (schemaNamespace : String) : TypeDecl → DraftType → Prop
  | .entity c, t => c.Lists w schemaNamespace .entity t
  | .struct c, t => c.Lists w schemaNamespace .struct t
  | .interface c, t => c.asComposite.Lists w schemaNamespace .interface t
  | .enum d, t => d.Lists w schemaNamespace t

variable {w : Workspace} {unit : SourceId} {schemaNamespace : String} {t : TypeDecl}
  {d : DraftType}

theorem Valid.accepts (h : t.Valid w) : w.Accepts t.name := by
  cases t with
  | entity c => exact Composite.Valid.name h
  | struct c => exact Composite.Valid.name h
  | interface c => exact Composite.Valid.name h
  | enum c => exact Enum.Valid.name h

theorem Lists.name (h : t.Lists w schemaNamespace d) : d.name = givenName t.name := by
  cases t with
  | entity c => exact Composite.Lists.name h
  | struct c => exact Composite.Lists.name h
  | interface c => exact Composite.Lists.name h
  | enum c => exact Enum.Lists.name h

theorem Valid.exists_lists (schemaNamespace : String) (h : t.Valid w) :
    ∃ d, t.Lists w schemaNamespace d := by
  cases t with
  | entity c => exact Composite.Valid.exists_lists schemaNamespace h
  | struct c => exact Composite.Valid.exists_lists schemaNamespace h
  | interface c => exact Composite.Valid.exists_lists schemaNamespace h
  | enum c => exact Enum.Valid.exists_lists schemaNamespace h

/-- A type becomes a draft if and only if it is valid, and then one that lists it. -/
theorem draftsTo_iff_valid :
    t.DraftsTo w unit schemaNamespace d ↔ t.Valid w ∧ t.Lists w schemaNamespace d := by
  have hbody : w.Accepts t.name →
      (Drafting.draftBody w unit schemaNamespace (givenName t.name) t = .ok d ↔
        t.Valid w ∧ t.Lists w schemaNamespace d) := by
    intro haccepts
    cases t with
    | entity c => exact Drafting.draftComposite_eq_ok haccepts
    | struct c => exact Drafting.draftComposite_eq_ok haccepts
    | interface c =>
        exact Drafting.draftInterface_eq_ok.trans
          (Drafting.draftComposite_eq_ok (c := c.asComposite) haccepts)
    | enum c => exact Drafting.draftEnum_eq_ok haccepts
  simp only [DraftsTo, Workspace.admits_iff]
  constructor
  · rintro ⟨_, ⟨haccepts, rfl⟩, h⟩
    exact (hbody haccepts).1 h
  · intro h
    exact ⟨_, ⟨h.1.accepts, rfl⟩, (hbody h.1.accepts).2 h⟩

end Declaration.TypeDecl

/-! ### Imports -/

namespace Declaration.Import

/-- The name of the schema that an import is of: the declared one itself or a published one. -/
def ownName? (w : Workspace) (unit : SourceId) (schema : String) (i : Declaration.Import) :
    Option String :=
  if i.source = unit then some schema else (w.bySource? i.source).map (·.name)

/-- The alias that is written, or else the name of the schema. -/
def alias? (w : Workspace) (unit : SourceId) (schema : String) (i : Declaration.Import) :
    Option String :=
  i.localName <|> i.ownName? w unit schema

/-- An import is of the unit itself or of a published source, and has a proper alias. -/
structure Valid (w : Workspace) (unit : SourceId) (schema : String) (i : Declaration.Import) :
    Prop where
  source : i.source = unit ∨ (w.bySource? i.source).isSome
  name : w.Accepts (i.alias? w unit schema)

variable {w : Workspace} {unit : SourceId} {schema : String} {i : Declaration.Import}
  {entry : String × SchemaKey}

theorem alias?_eq {own : String} (h : i.ownName? w unit schema = some own) :
    i.alias? w unit schema = some (i.localName.getD own) := by
  rw [alias?, h]
  cases i.localName <;> rfl

theorem StandsFor.name_eq (h : i.StandsFor w unit schema entry) :
    entry.1 = givenName (i.alias? w unit schema) := by
  cases h with
  | self hsource hname =>
      rw [alias?_eq (if_pos hsource)]
      exact (Workspace.admits_iff.1 hname).2
  | published hsource ht hname =>
      rw [alias?_eq (by rw [ownName?, if_neg hsource, ht]; rfl)]
      exact (Workspace.admits_iff.1 hname).2

theorem StandsFor.valid (h : i.StandsFor w unit schema entry) : i.Valid w unit schema := by
  cases h with
  | self hsource hname =>
      refine ⟨.inl hsource, ?_⟩
      rw [alias?_eq (if_pos hsource)]
      exact (Workspace.admits_iff.1 hname).1
  | published hsource ht hname =>
      refine ⟨.inr (by rw [ht]; rfl), ?_⟩
      rw [alias?_eq (by rw [ownName?, if_neg hsource, ht]; rfl)]
      exact (Workspace.admits_iff.1 hname).1

theorem Valid.exists_standsFor (h : i.Valid w unit schema) :
    ∃ entry, i.StandsFor w unit schema entry := by
  have hname := h.name
  by_cases hsource : i.source = unit
  · rw [alias?_eq (if_pos hsource)] at hname
    exact ⟨_, .self hsource (Workspace.admits_iff.2 ⟨hname, rfl⟩)⟩
  · obtain ⟨t, ht⟩ := Option.isSome_iff_exists.1 (h.source.resolve_left hsource)
    rw [alias?_eq (by rw [ownName?, if_neg hsource, ht]; rfl)] at hname
    exact ⟨_, .published hsource ht (Workspace.admits_iff.2 ⟨hname, rfl⟩)⟩

end Declaration.Import

/-! ### Declarations -/

namespace Declaration

variable {w : Workspace} {unit : SourceId} {declaration : Declaration} {d : Draft}

/-- A declaration has a proper name and namespace, and its imports and its types are valid and
differ in the names they go by. -/
structure Valid (w : Workspace) (unit : SourceId) (declaration : Declaration) : Prop where
  name : w.Accepts declaration.name
  «namespace» : w.AcceptsNamespace declaration.namespace
  imports : ValidItems (Import.Valid w unit (givenName declaration.name))
    (fun i => givenName (i.alias? w unit (givenName declaration.name))) declaration.imports
  types : ValidItems (TypeDecl.Valid w) (givenName ·.name) declaration.types

/-- The draft of a unit has what is declared, its imports with the keys of the schemas they are of,
all in the order of the declaration. -/
structure Lists (w : Workspace) (unit : SourceId) (declaration : Declaration) (d : Draft) :
    Prop where
  key : d.key = w.nextKey
  source : d.source = unit
  name : d.name = givenName declaration.name
  «namespace» : d.namespace = givenName declaration.namespace
  metadata : d.metadata = declaration.metadata
  imports : List.Forall₂ (Import.StandsFor w unit d.name) declaration.imports d.imports
  types : List.Forall₂ (TypeDecl.Lists w d.namespace) declaration.types d.types

theorem draftsTo_iff_valid (hw : w.isReserved "" = false) :
    declaration.DraftsTo w unit d ↔ declaration.Valid w unit ∧ declaration.Lists w unit d := by
  have himport : Import.StandsFor w unit (givenName declaration.name) = fun i entry =>
      i.Valid w unit (givenName declaration.name) ∧
        i.StandsFor w unit (givenName declaration.name) entry := by
    funext i entry
    exact propext ⟨fun h => ⟨h.valid, h⟩, And.right⟩
  have htype : TypeDecl.DraftsTo w unit d.namespace = fun t dt =>
      t.Valid w ∧ t.Lists w d.namespace dt := by
    funext t dt
    exact propext TypeDecl.draftsTo_iff_valid
  constructor
  · rintro ⟨hkey, hsource, hname, hnamespace, hmetadata, hi, hialiases, ht, htnames⟩
    obtain ⟨haccepts, hname⟩ := Workspace.admits_iff.1 hname
    obtain ⟨hacceptsNamespace, hnamespace⟩ := (Drafting.properNamespace_eq_ok hw).1 hnamespace
    rw [hname, himport] at hi
    rw [htype] at ht
    obtain ⟨hivalid, hilists⟩ := (forall₂_valid_iff fun _ _ h => h.name_eq).1 ⟨hi, hialiases⟩
    obtain ⟨htvalid, htlists⟩ := (forall₂_valid_iff fun _ _ h => h.name).1 ⟨ht, htnames⟩
    exact ⟨⟨haccepts, hacceptsNamespace, hivalid, htvalid⟩,
      ⟨hkey, hsource, hname, hnamespace, hmetadata, hname ▸ hilists, htlists⟩⟩
  · rintro ⟨hvalid, hlists⟩
    have hi := hlists.imports
    rw [hlists.name] at hi
    obtain ⟨hi, hialiases⟩ :=
      (forall₂_valid_iff fun _ _ h => Import.StandsFor.name_eq h).2 ⟨hvalid.imports, hi⟩
    obtain ⟨ht, htnames⟩ :=
      (forall₂_valid_iff fun _ _ h => TypeDecl.Lists.name h).2 ⟨hvalid.types, hlists.types⟩
    rw [← himport, ← hlists.name] at hi
    rw [← htype] at ht
    exact ⟨hlists.key, hlists.source, Workspace.admits_iff.2 ⟨hvalid.name, hlists.name⟩,
      (Drafting.properNamespace_eq_ok hw).2 ⟨hvalid.namespace, hlists.namespace⟩, hlists.metadata,
      hi, hialiases, ht, htnames⟩

theorem Valid.exists_lists (h : declaration.Valid w unit) : ∃ d, declaration.Lists w unit d := by
  obtain ⟨imports, himports⟩ := h.imports.exists_lists fun _ => Import.Valid.exists_standsFor
  obtain ⟨types, htypes⟩ := h.types.exists_lists
    fun _ => TypeDecl.Valid.exists_lists (givenName declaration.namespace)
  exact ⟨⟨w.nextKey, unit, _, _, imports, types, _⟩, rfl, rfl, rfl, rfl, rfl, himports, htypes⟩

end Declaration

theorem Workspace.isReserved_empty {w : Workspace} (hprimitives : "" ∉ w.primitives.names)
    (hcontainers : "" ∉ w.containers.names) : w.isReserved "" = false := by
  have hvoid : "" ≠ voidName := by decide
  rw [isReserved, Bool.eq_false_iff, Ne, List.contains_iff_mem, reserved, List.cons_append,
    List.mem_cons, List.mem_append]
  exact fun h => h.elim hvoid fun h => h.elim hprimitives hcontainers

/-- A declaration is accepted if and only if it is valid, and its draft then lists what it
declares. -/
theorem declaration_accepted_iff_valid {w : Workspace} (hprimitives : "" ∉ w.primitives.names)
    (hcontainers : "" ∉ w.containers.names) (unit : SourceId) (declaration : Declaration) :
    ((∃ d, Draft.ofDeclaration w unit declaration = .ok d) ↔ declaration.Valid w unit) ∧
    ∀ d, Draft.ofDeclaration w unit declaration = .ok d → declaration.Lists w unit d := by
  have hw := Workspace.isReserved_empty hprimitives hcontainers
  have hdraft : ∀ d, Draft.ofDeclaration w unit declaration = .ok d ↔
      declaration.Valid w unit ∧ declaration.Lists w unit d :=
    fun d => Draft.ofDeclaration_eq_ok.trans (Declaration.draftsTo_iff_valid hw)
  refine ⟨⟨fun ⟨d, hd⟩ => ((hdraft d).1 hd).1, fun hvalid => ?_⟩, fun d hd => ((hdraft d).1 hd).2⟩
  obtain ⟨d, hlists⟩ := hvalid.exists_lists
  exact ⟨d, (hdraft d).2 ⟨hvalid, hlists⟩⟩

/-- A schema that imports itself, with an entity that has an interface and a property of an enum. -/
def stockDeclaration : Declaration where
  name := some " Stock "
  «namespace» := some "shop.stock"
  imports := [{ source := "u", localName := some "Me" }]
  types := [
    .interface { name := some "Named", properties := [
      { name := some "label", typeText := some "List", value := some "int" }] },
    .entity { name := some "Item", interfaces := ["Me.Named"], properties := [
      { name := some "id", typeText := some "int", role := .primaryKey },
      { name := some "color", typeText := some "Color ?" }] },
    .enum { name := some "Color", «namespace» := some " ", underlying := some "int", elements := [
      { name := some "red", value := some (.signed 1) },
      { name := some "blue", value := some (.signed (-2)) }] }]

theorem declaration_accepted_stock :
    let w : Workspace := { primitives := [.builtin "int" .int32] }
    stockDeclaration.Valid w "u" ∧
    ¬({ stockDeclaration with name := some "int" } : Declaration).Valid w "u" ∧
    ∃ d, Draft.ofDeclaration w "u" stockDeclaration = .ok d ∧
      stockDeclaration.Lists w "u" d ∧ d.typeNames = ["Named", "Item", "Color"] := by
  intro w
  obtain ⟨hiff, hlists⟩ :=
    declaration_accepted_iff_valid (w := w) (by decide) (by decide) "u" stockDeclaration
  have hnames : (Draft.ofDeclaration w "u" stockDeclaration).toOption.map SchemaOf.typeNames =
      some ["Named", "Item", "Color"] := by rfl
  obtain ⟨d, hd, htypes⟩ := Option.map_eq_some_iff.1 hnames
  have hd := toOption_eq_some.1 hd
  have hreserved : w.isReserved (givenName (some "int")) = true := by
    rw [givenName_some]
    decide
  refine ⟨hiff.1 ⟨d, hd⟩, fun hvalid => ?_, d, hd, hlists d hd, htypes⟩
  rw [hvalid.name.2.notReserved] at hreserved
  contradiction

end SchemaGraph
