import SchemaGraph.Proofs.ConfiguredNames
import SchemaGraph.Proofs.EnumValues
import SchemaGraph.Proofs.Handles

/-!
The display of the types of published properties. A resolved type is displayed as its declared
expression is, but for the aliases of imports: what a path denotes goes by the name in the path. So
the text that is displayed is itself compact notation, and is read as the expression without
aliases.

A type goes on being displayed as it is when more schemas are published, since its handles lead to
the same types.
-/

namespace SchemaGraph

open Text

/-! ### Expressions without aliases -/

def TypePath.unqualified (p : TypePath) : TypePath :=
  { p with qualifier := none }

/-- The same expression with bare names only. -/
def TypeExpr.unqualified : TypeExpr → TypeExpr
  | .named p => .named p.unqualified
  | .container shape key value =>
    .container shape (key.map TypePath.unqualified) value.unqualified

theorem SpacedPath.unqualified {s : List Char} {p : TypePath} (h : SpacedPath s p) :
    SpacedPath p.name.toList p.unqualified := by
  obtain ⟨l, core, r, -, -, hcore, -⟩ := h
  have hname : isIdentifier p.name = true := by
    cases hcore with
    | name hn | qualified _ hn => rwa [isIdentifier, String.toList_ofList]
  exact spacedPath_of_isIdentifier hname

theorem TypeSpelling.unqualified {s : List Char} {e : TypeExpr} (h : TypeSpelling s e) :
    ∃ s', TypeSpelling s' e.unqualified := by
  cases h with
  | named hp => exact ⟨_, .named hp.unqualified⟩
  | marked hshape hv => exact ⟨_, .marked hshape hv.unqualified⟩
  | map hk hv => exact ⟨_, .map hk.unqualified hv.unqualified⟩

/-- What is displayed for an expression that has a spelling is read as the expression. -/
theorem TypeSpelling.parse_render {s : List Char} {e : TypeExpr} (h : TypeSpelling s e)
    {catalog : ContainerCatalog} (hnames : e.render ∉ catalog.names) :
    TypeExpr.parse catalog e.render none none = .ok e := by
  obtain ⟨hspelled, hsolid⟩ := h.render
  have htrim : trim e.render = e.render := by
    rw [trim, trimChars_eq_self hsolid, String.ofList_toList]
  rw [TypeExpr.parse_eq_ok_of_notMem (htrim.symm ▸ hnames), htrim]
  exact hspelled

/-! ### What is denoted -/

theorem TypeKind.render_dataType (k : TypeKind) (r : TypeRef) (primitives : PrimitiveTable)
    (containers : ContainerCatalog) (names : TypeRef → String) :
    (k.dataType r).render primitives containers names = names r := by
  cases k <;> rfl

section Denoted

variable {w : Workspace} {unit : SourceId} {declaration : Declaration} {d : Draft} {u : Linked}
  (hd : declaration.DraftsTo w unit d) (hu : d.ResolvesTo w u)

include hd hu

/-- What a path denotes goes by the name in the path. -/
theorem Draft.Denotes.render_eq {path : TypePath} {t : DataType} (h : d.Denotes w path t)
    (containers : ContainerCatalog) :
    t.render w.primitives containers (TypeLookup.typeName (Scope.mk w u).type?) = path.name := by
  cases hr : t.userType? with
  | some r =>
      obtain ⟨⟨l, hl, hname, rfl⟩, -⟩ := h.type? hd hu hr
      rw [TypeKind.render_dataType, TypeLookup.typeName, hl]
      exact hname
  | none =>
      cases h with
      | own | selfImport | imported =>
          rw [TypeKind.userType?_dataType] at hr
          contradiction
      | primitive _ hid =>
          obtain ⟨p, hp, hname⟩ := PrimitiveTable.lookup?_eq_some hid
          rw [DataType.render, PrimitiveTable.nameOf, hp]
          exact hname
      | void _ _ hname => exact hname.symm

theorem TypeExpr.Denotes.render_eq {role : PropertyRole} {e : TypeExpr} {t : DataType}
    (h : e.Denotes w d role t) (containers : ContainerCatalog) :
    t.render w.primitives containers (TypeLookup.typeName (Scope.mk w u).type?) =
      e.unqualified.render := by
  cases h with
  | named h => exact h.path.render_eq hd hu containers
  | map hkey hvalue =>
      have hk := hkey.path.render_eq hd hu containers
      have hv := hvalue.path.render_eq hd hu containers
      rw [DataType.render] at hk
      simp only [DataType.render, Option.map_some, Option.getD_some, hk, hv]
      rfl
  | @keyless shape _ _ hshape hvalue =>
      have hv := hvalue.path.render_eq hd hu containers
      cases shape with
      | map => contradiction
      | list | set | optional =>
          simp only [DataType.render, hv]
          rfl

end Denoted

/-! ### Declared types -/

/-- A published property has the name that is declared, and its type is displayed as what is
declared without aliases, and reads back as that. -/
structure Declaration.Property.DisplayedAs (w : Workspace) (p : Declaration.Property)
    (q : LinkedProperty) : Prop where
  name : q.name = givenName p.name
  type : ∃ text e, p.typeText = some text ∧
    TypeExpr.parse w.containers text p.key p.value = .ok e ∧
    w.typeName q.type = e.unqualified.render ∧
    ∀ catalog : ContainerCatalog, w.typeName q.type ∉ catalog.names →
      TypeExpr.parse catalog (w.typeName q.type) none none = .ok e.unqualified

/-- The properties of a published type are those that are declared, in the same order, with their
types displayed as declared. -/
def Declaration.TypeDecl.DisplayedAs (w : Workspace) (decl : Declaration.TypeDecl)
    (t : LinkedType) : Prop :=
  List.Forall₂ (Declaration.Property.DisplayedAs w) (decl.properties?.getD []) t.properties

def Declaration.DisplayedAs (w : Workspace) (declaration : Declaration) (s : Schema) : Prop :=
  List.Forall₂ (Declaration.TypeDecl.DisplayedAs w) declaration.types s.types

theorem forall₂_trans {α β γ : Type} {R : α → β → Prop} {S : β → γ → Prop} {T : α → γ → Prop}
    {as : List α} {bs : List β} {cs : List γ} (h : List.Forall₂ R as bs)
    (h' : List.Forall₂ S bs cs) (hRS : ∀ a b c, R a b → S b c → T a c) : List.Forall₂ T as cs := by
  induction h generalizing cs with
  | nil =>
      cases h'
      exact .nil
  | cons hab _ ih =>
      cases h' with
      | cons hbc hrest => exact .cons (hRS _ _ _ hab hbc) (ih hrest)

section Compiled

variable {w w' : Workspace} {unit : SourceId} {declaration : Declaration} {d : Draft} {s : Schema}

theorem Declaration.Property.displayedAs (hd : declaration.DraftsTo w unit d)
    (hu : d.ResolvesTo w s.toSchemaOf) (hkey : s.key = w.nextKey) {p : Declaration.Property}
    {q : SchemaGraph.Property TypeBinding} {l : LinkedProperty} (hq : p.Lists w q)
    (hl : q.Denotes w d l) : p.DisplayedAs (w.publish s) l := by
  obtain ⟨e, he, hpending⟩ := hq.type
  obtain ⟨e', hpending', hdenotes⟩ := hl.type
  obtain rfl := Binding.pending.inj (hpending.symm.trans hpending')
  have hname : (w.publish s).typeName l.type = e.unqualified.render := by
    rw [Workspace.typeName, ← Scope.type?_eq_publish hkey]
    exact hdenotes.render_eq hd hu _
  refine ⟨hl.name.trans hq.name, ?_⟩
  cases htext : p.typeText with
  | none =>
      rw [htext] at he
      contradiction
  | some text =>
      rw [htext, Option.getD_some] at he
      refine ⟨text, e, rfl, he, hname, fun catalog hnames => ?_⟩
      obtain ⟨_, hspelled⟩ := TypeExpr.spelled_of_parse he
      obtain ⟨_, hbare⟩ := hspelled.unqualified
      rw [hname] at hnames ⊢
      exact hbare.parse_render hnames

theorem Declaration.TypeDecl.displayedAs (hd : declaration.DraftsTo w unit d)
    (hu : d.ResolvesTo w s.toSchemaOf) (hkey : s.key = w.nextKey) {decl : TypeDecl}
    {t : DraftType} {l : LinkedType} {schemaNamespace : String}
    (ht : decl.Lists w schemaNamespace t) (hl : t.Denotes w d l) :
    decl.DisplayedAs (w.publish s) l := by
  obtain ⟨name, ns, kind, body, metadata⟩ := t
  obtain ⟨name', ns', kind', body', metadata'⟩ := l
  have hbody := hl.body
  have hcomposite : ∀ {k : TypeKind} {c : Composite},
      c.Lists w schemaNamespace k ⟨name, ns, kind, body, metadata⟩ → List.Forall₂
        (Property.DisplayedAs (w.publish s)) c.properties
        (UserType.properties ⟨name', ns', kind', body', metadata'⟩) := by
    intro k c hc
    obtain ⟨base, interfaces, properties, rfl, -, -, hproperties⟩ := hc.body
    cases hbody with
    | composite hdenotes =>
        exact forall₂_trans hproperties hdenotes.properties fun _ _ _ =>
          Property.displayedAs hd hu hkey
  cases decl with
  | entity c | struct c => exact hcomposite ht
  | interface c => exact hcomposite (c := c.asComposite) ht
  | enum c =>
      obtain ⟨id, elements, rfl, -⟩ := Enum.Lists.body ht
      cases hbody
      exact .nil

/-- What is compiled is displayed as declared. -/
theorem Compiles.displayedAs (h : Compiles w unit declaration s w') (hw : w.WellFormed) :
    declaration.DisplayedAs w' s := by
  obtain ⟨draft, resolved, linked, hdraft, hresolve, hlink, hlinked, hfinish⟩ := h.stages
  have hkey := h.key_eq
  obtain rfl := h.eq_publish
  obtain ⟨rfl, -⟩ := Linked.finish_ok hfinish
  obtain ⟨u, hlink', -, hdenotes⟩ := Draft.resolve_denotes hw hdraft hresolve
  obtain rfl := Except.ok.inj (hlink.symm.trans hlink')
  have hdrafts := Draft.ofDeclaration_eq_ok.1 hdraft
  refine forall₂_trans hdrafts.types hdenotes fun decl t l ht hl => ?_
  exact Declaration.TypeDecl.displayedAs hdrafts hlinked hkey
    (Declaration.TypeDecl.draftsTo_iff_valid.1 ht).2 hl

end Compiled

/-! ### Growth -/

theorem DataType.Readable.render_eq {primitives : PrimitiveTable} {look look' : TypeLookup}
    (hgrows : ∀ r t, look r = some t → look' r = some t) {t : DataType}
    (h : t.Readable primitives look) (containers : ContainerCatalog) :
    t.render primitives containers look'.typeName =
      t.render primitives containers look.typeName := by
  have hhandle : ∀ r, (look r).isSome → look'.typeName r = look.typeName r := fun r hr => by
    obtain ⟨t, ht⟩ := Option.isSome_iff_exists.1 hr
    rw [TypeLookup.typeName, TypeLookup.typeName, ht, hgrows r t ht]
  induction t with
  | primitive id | generic shape | void => rfl
  | container shape key value ih =>
      simp only [DataType.render, ih h.2]
  | entity r | struct r | interface r | enum r => exact hhandle r h

section Growth

variable {w w' : Workspace} {unit : SourceId} {declaration : Declaration} {s : Schema}

theorem Declaration.Property.DisplayedAs.publish {p : Declaration.Property} {q : LinkedProperty}
    (h : p.DisplayedAs w q) (hq : q.type.Readable w.primitives w.type?) (t : Schema) :
    p.DisplayedAs (w.publish t) q := by
  have hname : (w.publish t).typeName q.type = w.typeName q.type :=
    hq.render_eq (fun _ _ => Workspace.type?_publish t) w.containers
  refine ⟨h.name, ?_⟩
  rw [hname]
  exact h.type

theorem Declaration.DisplayedAs.publish (h : declaration.DisplayedAs w s) (hw : w.Readable)
    (hs : w.schemas[s.key]? = some s) (t : Schema) : declaration.DisplayedAs (w.publish t) s := by
  refine (forall₂_imp_of_mem (fun l hl decl hdecl => ?_) h.flip).flip
  obtain ⟨i, hi⟩ := List.getElem?_of_mem hl
  have htype : w.type? ⟨s.key, i⟩ = some l := Option.bind_eq_some_iff.2 ⟨s, hs, hi⟩
  refine (forall₂_imp_of_mem (fun q hq p hp => ?_) hdecl.flip).flip
  exact hp.publish ((hw _ _ htype).properties q hq) t

/-! ### Published schemas -/

/-- Every published schema is displayed as a declaration that it was compiled from. -/
structure Workspace.DisplaysDeclared (w : Workspace) : Prop where
  layered : w.Layered
  flattened : w.Flattened
  readable : w.Readable
  declared : ∀ s ∈ w.schemas, ∃ declaration, s.CompiledFrom w declaration ∧
    declaration.DisplayedAs w s

theorem Workspace.DisplaysDeclared.wellFormed (hw : w.DisplaysDeclared) : w.WellFormed := by
  refine ⟨hw.layered.indexed, fun s hs => ?_, fun s hs => ?_⟩
  · obtain ⟨declaration, ⟨v, v', -, -, -, hc⟩, -⟩ := hw.declared s hs
    exact hc.declared.2.2
  · obtain ⟨declaration, hcompiled, -⟩ := hw.declared s hs
    have hlt := (List.getElem?_eq_some_iff.1 (hw.layered.indexed.mem_iff.1 hs)).1
    exact hcompiled.closed hw.layered.sound hs hlt

theorem Compiles.displaysDeclared (h : Compiles w unit declaration s w')
    (hw : w.DisplaysDeclared) : w'.DisplaysDeclared := by
  have hlayered := h.layered hw.layered
  have hcompiled := h.compiledFrom hw.layered hw.flattened
  have hdisplayed := h.displayedAs hw.wellFormed
  refine ⟨hlayered, h.flattened hw.layered hlayered hw.flattened, ?_, fun t ht => ?_⟩
  · rw [h.eq_publish]
    exact hw.readable.publish hw.layered.indexed h.draftedIn
  · rw [h.eq_publish] at ht
    rcases List.mem_append.1 ht with ht | ht
    · have hkey := hw.layered.indexed.mem_iff.1 ht
      obtain ⟨d, hd, hdisplay⟩ := hw.declared t ht
      rw [h.eq_publish]
      exact ⟨d, hd.publish hkey s, hdisplay.publish hw.readable hkey s⟩
    · obtain rfl := List.mem_singleton.1 ht
      exact ⟨declaration, hcompiled, hdisplayed⟩

theorem Reached.displaysDeclared (h : Reached w) : w.DisplaysDeclared := by
  refine h.induction (fun primitives containers enumDefault => ?_)
    fun _ _ _ _ _ hw hc => hc.displaysDeclared hw
  obtain ⟨hlayered, hflat⟩ := (Reached.empty primitives containers enumDefault).layered_flattened
  exact ⟨hlayered, hflat, by simp [Workspace.Readable, Workspace.type?], by simp⟩

theorem Grows.displayedAs (h : Grows w w') (hw : w.DisplaysDeclared)
    (hs : w.schemas[s.key]? = some s) (hd : declaration.DisplayedAs w s) :
    declaration.DisplayedAs w' s := by
  induction h with
  | refl => exact hd
  | compile hgrows hc ih =>
      have hw' := hgrows.preserves (fun _ _ _ _ _ hw hc => hc.displaysDeclared hw) hw
      have hmem := hgrows.schemas_prefix.subset (List.mem_of_getElem? hs)
      rw [hc.eq_publish]
      exact ih.publish hw'.readable (hw'.layered.indexed.mem_iff.1 hmem) _

/-- A unit that a load publishes is displayed as the declaration that was read for it. -/
theorem Builds.displayedAs {reader : SourceReader} {us : List SourceId} (h : Builds reader w us w')
    (hw : w.DisplaysDeclared) (hunit : unit ∈ us) (hnew : w.bySource? unit = none) :
    ∃ declaration s, reader.read unit = .ok declaration ∧ w'.bySource? unit = some s ∧
      declaration.DisplayedAs w' s := by
  induction h with
  | nil => simp at hunit
  | known hknown _ ih =>
      rcases List.mem_cons.1 hunit with rfl | hunit
      · rw [hnew] at hknown
        contradiction
      · exact ih hw hunit hnew
  | @compile w w₁ w' unit' us declaration s hread hc hbuilds ih =>
      have hw₁ := hc.displaysDeclared hw
      by_cases heq : unit = unit'
      · subst heq
        have hs := (hw₁.layered.indexed.bySource?_eq_some.1 hc.published).1
        exact ⟨declaration, s, hread, hbuilds.grows.bySource? hc.published,
          hbuilds.grows.displayedAs hw₁ hs (hc.displayedAs hw.wellFormed)⟩
      · exact ih hw₁ ((List.mem_cons.1 hunit).resolve_left heq)
          ((hc.bySource?_eq_none_iff hw.layered.indexed heq).2 hnew)

/-- The type of every published property is displayed as the compact notation of the expression that
is declared for it, in compact or long form, without the aliases of imports; and where no container
has this text for its name, it is read as that expression. The declaration is one that the schema
was compiled from, and for a schema that a load publishes the one that its reader gives. -/
theorem displayed_types_declared (h : Reached w) :
    (∀ s ∈ w.schemas, ∃ declaration, s.CompiledFrom w declaration ∧
      declaration.DisplayedAs w s) ∧
    ∀ reader roots order, (w.load reader roots).result = .ok order →
      ∀ unit ∈ order, w.bySource? unit = none →
      ∃ declaration s, reader.read unit = .ok declaration ∧
        (w.load reader roots).workspace.bySource? unit = some s ∧
        declaration.DisplayedAs (w.load reader roots).workspace s := by
  refine ⟨h.displaysDeclared.declared, fun reader roots order hload unit hunit hnew => ?_⟩
  exact (Workspace.builds_of_load hload).2.displayedAs h.displaysDeclared hunit hnew

end Growth

/-- A declaration that names types of another schema in both forms, with white space. -/
def displayedDeclaration : Declaration where
  name := some "Routes"
  imports := [{ source := "geo", localName := some "G" }]
  types := [.struct {
    name := some "Route"
    properties := [
      { name := some "stops", typeText := some " G.Point [] " },
      { name := some "marks", typeText := some "Map", key := some " text ",
        value := some "G.Point" },
      { name := some "home", typeText := some "G.Country?", role := .foreignKey }] }]

def displayedSources : SourceTable :=
  [("geo", {
      name := some "Geo"
      types := [.struct { name := some "Point" }, .entity {
        name := some "Country"
        properties := [{ name := some "code", typeText := some "text", role := .primaryKey }] }] }),
    ("routes", displayedDeclaration)]

theorem displayed_types_declared_routes :
    let w : Workspace := { primitives := [.builtin "text" .string] }
    let loaded := (w.load displayedSources.reader ["routes"]).workspace
    Reached w ∧ ∃ s, loaded.bySource? "routes" = some s ∧
      displayedDeclaration.DisplayedAs loaded s ∧
      s.types.map (fun t => t.properties.map fun q => loaded.typeName q.type) =
        [["Point[]", "text->Point", "Country?"]] := by
  intro w loaded
  have hreached : Reached w := .empty _ _ _
  have hfound : ((w.load displayedSources.reader ["routes"]).result,
      (loaded.bySource? "routes").map fun s => s.types.map fun t =>
        t.properties.map fun q => loaded.typeName q.type) =
      (.ok ["geo", "routes"], some [["Point[]", "text->Point", "Country?"]]) := by
    unfold loaded w
    cbv
  obtain ⟨hload, hnames⟩ := Prod.mk.inj hfound
  obtain ⟨declaration, s, hread, hs, hdisplay⟩ := (displayed_types_declared hreached).2
    displayedSources.reader ["routes"] ["geo", "routes"] hload "routes" (by simp) (by rfl)
  obtain rfl := Except.ok.inj (hread.symm.trans (by rfl : _ = Except.ok displayedDeclaration))
  rw [hs] at hnames
  exact ⟨hreached, s, hs, hdisplay, Option.some.inj hnames⟩

end SchemaGraph
