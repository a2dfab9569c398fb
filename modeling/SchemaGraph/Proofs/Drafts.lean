import SchemaGraph.Drafting
import SchemaGraph.Proofs.Success

/-!
What drafts look like. Every reference of a draft waits to be resolved, an interface asks for no
base, exactly the maps among the containers have a key, and types are asked for by identifiers.
-/

namespace SchemaGraph

/-! ### Type expressions -/

/-- A container has a key if and only if its shape takes one. -/
def TypeExpr.KeyFits : TypeExpr → Prop
  | .named _ => True
  | .container shape key _ => key.isSome = shape.hasKey

def TypeExpr.paths : TypeExpr → List TypePath
  | .named path => [path]
  | .container _ key value => value :: key.toList

/-- Every type that the expression asks for has an identifier for its name. -/
def TypeExpr.Named (e : TypeExpr) : Prop :=
  ∀ path ∈ e.paths, Text.isIdentifier path.name = true

theorem TypePath.parseChars_ok {s : List Char} {path : TypePath} (h : parseChars s = .ok path) :
    Text.isIdentifier path.name = true := by
  simp only [parseChars] at h
  split at h
  · split at h
    · rename_i hname
      obtain rfl := Except.ok.inj h
      rwa [Text.isIdentifier, String.toList_ofList]
    · contradiction
  · split at h
    · rename_i hname
      obtain rfl := Except.ok.inj h
      rw [Text.isIdentifier, String.toList_ofList]
      exact hname.2
    · contradiction
  · contradiction

namespace TypeExpr

variable {e : TypeExpr}

theorem parseLong_ok {shape : Shape} {key value : Option String}
    (h : parseLong shape key value = .ok e) : e.KeyFits ∧ e.Named := by
  rw [parseLong] at h
  split at h
  · obtain ⟨v, hv, h⟩ := bind_eq_ok.1 h
    have hvalue := TypePath.parseChars_ok hv
    cases hshape : shape.hasKey with
    | true =>
        rw [hshape] at h
        simp only at h
        split at h
        · obtain ⟨k, hk, h⟩ := bind_eq_ok.1 h
          obtain rfl := pure_eq_ok.1 h
          have hkey := TypePath.parseChars_ok hk
          exact ⟨hshape.symm, by simp [Named, paths, hvalue, hkey]⟩
        · contradiction
    | false =>
        rw [hshape] at h
        cases key with
        | none =>
            obtain rfl := pure_eq_ok.1 h
            exact ⟨hshape.symm, by simp [Named, paths, hvalue]⟩
        | some _ => contradiction
  · contradiction

theorem parseCompact_ok {s : List Char} (h : parseCompact s = .ok e) : e.KeyFits ∧ e.Named := by
  have hcontainer : ∀ {shape : Shape} {r : List Char}, shape.hasKey = false →
      TypeExpr.container shape none <$> TypePath.parseChars r = .ok e → e.KeyFits ∧ e.Named := by
    intro shape r hshape h
    obtain ⟨v, hv, rfl⟩ := map_eq_ok.1 h
    exact ⟨hshape.symm, by simp [Named, paths, TypePath.parseChars_ok hv]⟩
  rw [parseCompact] at h
  split at h
  · exact hcontainer rfl h
  · exact hcontainer rfl h
  · exact hcontainer rfl h
  · split at h
    · obtain ⟨k, hk, h⟩ := bind_eq_ok.1 h
      obtain ⟨v, hv, h⟩ := bind_eq_ok.1 h
      obtain rfl := pure_eq_ok.1 h
      have hkey := TypePath.parseChars_ok hk
      exact ⟨rfl, by simp [Named, paths, hkey, TypePath.parseChars_ok hv]⟩
    · contradiction
    · obtain ⟨v, hv, rfl⟩ := map_eq_ok.1 h
      exact ⟨trivial, by simp [Named, paths, TypePath.parseChars_ok hv]⟩

theorem parse_ok {catalog : ContainerCatalog} {text : String} {key value : Option String}
    (h : parse catalog text key value = .ok e) : e.KeyFits ∧ e.Named := by
  rw [parse] at h
  split at h
  · cases h
  · split at h
    · exact parseLong_ok h
    · split at h
      · cases h
      · exact parseCompact_ok h

end TypeExpr

/-! ### Drafted types -/

namespace UserType

variable {β ι τ : Type} {t : UserType β ι τ}

theorem composite?_eq_some {c : Composite β ι τ} :
    t.composite? = some c ↔ t.body = .composite c := by
  rw [composite?]
  cases t.body <;> simp

theorem enum?_eq_some {e : EnumBody} : t.enum? = some e ↔ t.body = .enum e := by
  rw [enum?]
  cases t.body <;> simp

theorem properties_eq {c : Composite β ι τ} (hbody : t.body = .composite c) :
    t.properties = c.properties := by
  rw [properties, composite?_eq_some.2 hbody, Option.map_some, Option.getD_some]

end UserType

/-- The body of a type is of its kind: that of an enum has elements, any other is composite. -/
def UserType.Agrees {β ι τ : Type} (t : UserType β ι τ) : Prop :=
  match t.body with
  | .composite _ => t.kind ≠ .enum
  | .enum _ => t.kind = .enum

namespace UserType.Agrees

variable {β ι τ : Type} {t : UserType β ι τ}

theorem ne_enum (h : t.Agrees) {c : Composite β ι τ} (hbody : t.body = .composite c) :
    t.kind ≠ .enum := by
  rwa [Agrees, hbody] at h

theorem eq_enum (h : t.Agrees) {e : EnumBody} (hbody : t.body = .enum e) : t.kind = .enum := by
  rwa [Agrees, hbody] at h

theorem exists_composite (h : t.Agrees) (hkind : t.kind ≠ .enum) :
    ∃ c, t.body = .composite c := by
  cases hbody : t.body with
  | composite c => exact ⟨c, rfl⟩
  | enum e => exact absurd (h.eq_enum hbody) hkind

theorem exists_enum (h : t.Agrees) (hkind : t.kind = .enum) : ∃ e, t.body = .enum e := by
  cases hbody : t.body with
  | composite c => exact absurd hkind (h.ne_enum hbody)
  | enum e => exact ⟨e, rfl⟩

end UserType.Agrees

/-- All references of a composite type wait to be resolved. -/
structure Composite.Waits (kind : TypeKind)
    (c : Composite BaseBinding InterfacesBinding TypeBinding) : Prop where
  base : ∃ path, c.base = .pending path ∧ (kind = .interface → path = none)
  interfaces : ∃ paths, c.interfaces = .pending paths
  properties : ∀ p ∈ c.properties, ∃ e, p.type = .pending e ∧ e.KeyFits

def DraftType.Waits (t : DraftType) : Prop :=
  ∀ c, t.body = .composite c → c.Waits t.kind

namespace Drafting

variable {w : Workspace} {unit : SourceId} {type schemaNamespace : String}

/-- What holds before anything is drawn up, and is kept by each item that is drawn up, holds at the
end. -/
theorem inOrder_induction {α β ε : Type} {draw : List β → α → Except ε β} {P : List β → Prop}
    {as : List α} {bs : List β} (hnil : P [])
    (hstep : ∀ done a b, P done → draw done a = .ok b → P (done ++ [b]))
    (h : inOrder draw as = .ok bs) : P bs := by
  suffices hfrom : ∀ done, P done →
      as.foldlM (fun done a => do return done ++ [← draw done a]) done = .ok bs → P bs from
    hfrom [] hnil h
  clear h hnil
  induction as with
  | nil =>
      intro done hdone h
      obtain rfl := pure_eq_ok.1 h
      exact hdone
  | cons a as ih =>
      intro done hdone h
      rw [List.foldlM_cons] at h
      obtain ⟨next, hnext, h⟩ := bind_eq_ok.1 h
      obtain ⟨b, hb, hnext⟩ := bind_eq_ok.1 hnext
      obtain rfl := pure_eq_ok.1 hnext
      exact ih _ (hstep done a b hdone hb) h

/-- What holds of each item that is drawn up holds of all of them. -/
theorem inOrder_forall {α β ε : Type} {draw : List β → α → Except ε β} {P : β → Prop}
    {as : List α} {bs : List β} (hdraw : ∀ done a b, draw done a = .ok b → P b)
    (h : inOrder draw as = .ok bs) : ∀ b ∈ bs, P b := by
  refine inOrder_induction (P := fun bs => ∀ b ∈ bs, P b) (by simp) ?_ h
  intro done a b hdone hb c hc
  rcases List.mem_append.1 hc with hc | hc
  · exact hdone c hc
  · obtain rfl := List.mem_singleton.1 hc
    exact hdraw done a c hb

theorem draftProperty_ok {done : List (Property TypeBinding)} {p : Declaration.Property}
    {q : Property TypeBinding} (h : draftProperty w unit type done p = .ok q) :
    ∃ e, q.type = .pending e ∧ e.KeyFits ∧ e.Named := by
  rw [draftProperty] at h
  obtain ⟨name, -, h⟩ := bind_eq_ok.1 h
  obtain ⟨-, h⟩ := check_eq_ok.1 h
  obtain ⟨text, -, h⟩ := bind_eq_ok.1 h
  obtain ⟨e, he, h⟩ := bind_eq_ok.1 h
  obtain rfl := pure_eq_ok.1 h
  exact ⟨e, rfl, TypeExpr.parse_ok (mapError_eq_ok.1 he)⟩

theorem draftProperties_ok {ps : List Declaration.Property} {qs : List (Property TypeBinding)}
    (h : draftProperties w unit type ps = .ok qs) :
    ∀ q ∈ qs, ∃ e, q.type = .pending e ∧ e.KeyFits := by
  refine inOrder_forall (fun _ _ _ hq => ?_) h
  obtain ⟨e, he, hfits, -⟩ := draftProperty_ok hq
  exact ⟨e, he, hfits⟩

/-- What the body of a drafted type is drawn up from: the properties or the elements one by one,
under the name that the type has by then. -/
inductive DrawsBody (w : Workspace) (unit : SourceId) (type : String) :
    TypeKind → TypeBody BaseBinding InterfacesBinding TypeBinding → Prop
  | composite {kind : TypeKind} {isAbstract : Bool} {base : Option TypePath}
      {interfaces : List TypePath} {declared : List Declaration.Property}
      {properties : List (Property TypeBinding)} (hkind : kind ≠ .enum)
      (hbase : kind = .interface → base = none)
      (hproperties : draftProperties w unit type declared = .ok properties)
      (hkey : checkKeyComponents unit kind type base.isSome (keyComponents properties) = .ok ()) :
      DrawsBody w unit type kind (.composite
        { isAbstract, base := .pending base, interfaces := .pending interfaces, properties })
  | enum {text : Option String} {underlying : PrimitiveId} {low high : Int}
      {declared : List Declaration.Element} {elements : List EnumElement}
      (hunderlying : enumUnderlying w unit type text = .ok (underlying, low, high))
      (helements : inOrder (draftElement w unit type low high) declared = .ok elements) :
      DrawsBody w unit type .enum (.enum { underlying, elements })

/-- What the draft of a declared type is made of, whatever its kind. -/
structure Draws (w : Workspace) (unit : SourceId) (schemaNamespace type : String)
    (t : DraftType) : Prop where
  name : t.name = type
  «namespace» : ∃ text, typeNamespace w unit schemaNamespace text = .ok t.namespace
  body : DrawsBody w unit type t.kind t.body

theorem draws_of_draftComposite {kind : TypeKind} {d : Declaration.Composite} {t : DraftType}
    (hkind : kind = .entity ∨ kind = .struct)
    (h : draftComposite w unit schemaNamespace type kind d = .ok t) :
    Draws w unit schemaNamespace type t := by
  rw [draftComposite] at h
  obtain ⟨base, -, h⟩ := bind_eq_ok.1 h
  obtain ⟨interfaces, -, h⟩ := bind_eq_ok.1 h
  obtain ⟨properties, hproperties, h⟩ := bind_eq_ok.1 h
  obtain ⟨_, hkey, h⟩ := bind_eq_ok.1 h
  obtain ⟨ns, hns, h⟩ := bind_eq_ok.1 h
  obtain rfl := pure_eq_ok.1 h
  have hkinds : kind ≠ .enum ∧ kind ≠ .interface := by
    rcases hkind with rfl | rfl <;> decide
  exact ⟨rfl, ⟨_, hns⟩, .composite hkinds.1 (fun h => absurd h hkinds.2) hproperties hkey⟩

theorem draws_of_draftInterface {d : Declaration.Interface} {t : DraftType}
    (h : draftInterface w unit schemaNamespace type d = .ok t) :
    Draws w unit schemaNamespace type t := by
  rw [draftInterface] at h
  obtain ⟨parents, -, h⟩ := bind_eq_ok.1 h
  obtain ⟨properties, hproperties, h⟩ := bind_eq_ok.1 h
  obtain ⟨_, hkey, h⟩ := bind_eq_ok.1 h
  obtain ⟨ns, hns, h⟩ := bind_eq_ok.1 h
  obtain rfl := pure_eq_ok.1 h
  exact ⟨rfl, ⟨_, hns⟩, .composite (by simp) (fun _ => rfl) hproperties hkey⟩

theorem draws_of_draftEnum {d : Declaration.Enum} {t : DraftType}
    (h : draftEnum w unit schemaNamespace type d = .ok t) : Draws w unit schemaNamespace type t := by
  rw [draftEnum] at h
  obtain ⟨⟨underlying, low, high⟩, hunderlying, h⟩ := bind_eq_ok.1 h
  obtain ⟨elements, helements, h⟩ := bind_eq_ok.1 h
  obtain ⟨ns, hns, h⟩ := bind_eq_ok.1 h
  obtain rfl := pure_eq_ok.1 h
  exact ⟨rfl, ⟨_, hns⟩, .enum hunderlying helements⟩

/-- Later proofs read what they need of a drafted type off this, and do not open the functions that
draw it up. -/
theorem draws_of_draftBody {d : Declaration.TypeDecl} {t : DraftType}
    (h : draftBody w unit schemaNamespace type d = .ok t) :
    Draws w unit schemaNamespace type t := by
  cases d with
  | entity d => exact draws_of_draftComposite (.inl rfl) h
  | struct d => exact draws_of_draftComposite (.inr rfl) h
  | interface d => exact draws_of_draftInterface h
  | enum d => exact draws_of_draftEnum h

theorem draws_of_draftType {done : List DraftType} {d : Declaration.TypeDecl} {t : DraftType}
    (h : draftType w unit schemaNamespace done d = .ok t) :
    Draws w unit schemaNamespace t.name t := by
  rw [draftType] at h
  obtain ⟨name, -, h⟩ := bind_eq_ok.1 h
  obtain ⟨-, h⟩ := check_eq_ok.1 h
  have hdraws := draws_of_draftBody h
  rwa [← hdraws.name] at hdraws

theorem Draws.waits {t : DraftType} (h : Draws w unit schemaNamespace type t) : t.Waits := by
  obtain ⟨_, _, kind, body, _⟩ := t
  cases h.body with
  | composite _ hbase hproperties _ =>
      rintro _ ⟨⟩
      exact ⟨⟨_, rfl, hbase⟩, ⟨_, rfl⟩, draftProperties_ok hproperties⟩
  | enum _ _ => rintro _ ⟨⟩

theorem Draws.agrees {t : DraftType} (h : Draws w unit schemaNamespace type t) : t.Agrees := by
  obtain ⟨_, _, kind, body, _⟩ := t
  cases h.body with
  | composite hkind _ _ _ => exact hkind
  | enum _ _ => rfl

end Drafting

/-! ### Drafts -/

theorem Draft.ofDeclaration_ok {w : Workspace} {unit : SourceId} {declaration : Declaration}
    {d : Draft} (h : Draft.ofDeclaration w unit declaration = .ok d) :
    d.key = w.nextKey ∧ d.source = unit ∧
      Drafting.inOrder (Drafting.draftImport w unit d.name) declaration.imports = .ok d.imports ∧
      Drafting.inOrder (Drafting.draftType w unit d.namespace) declaration.types = .ok d.types := by
  rw [Draft.ofDeclaration] at h
  obtain ⟨name, -, h⟩ := bind_eq_ok.1 h
  obtain ⟨ns, -, h⟩ := bind_eq_ok.1 h
  obtain ⟨imports, himports, h⟩ := bind_eq_ok.1 h
  obtain ⟨types, htypes, h⟩ := bind_eq_ok.1 h
  obtain rfl := pure_eq_ok.1 h
  exact ⟨rfl, rfl, himports, htypes⟩

theorem Draft.draws_of_ofDeclaration {w : Workspace} {unit : SourceId} {declaration : Declaration}
    {d : Draft} (h : Draft.ofDeclaration w unit declaration = .ok d) :
    ∀ t ∈ d.types, Drafting.Draws w unit d.namespace t.name t := by
  obtain ⟨-, -, -, htypes⟩ := Draft.ofDeclaration_ok h
  exact Drafting.inOrder_forall (fun _ _ _ => Drafting.draws_of_draftType) htypes

/-- All references of the draft of a unit wait to be resolved. -/
theorem Draft.waits_of_ofDeclaration {w : Workspace} {unit : SourceId} {declaration : Declaration}
    {d : Draft} (h : Draft.ofDeclaration w unit declaration = .ok d) :
    ∀ t ∈ d.types, DraftType.Waits t :=
  fun t ht => (Draft.draws_of_ofDeclaration h t ht).waits

end SchemaGraph
