import SchemaGraph.Proofs.InlineStorage

/-!
The getters of traits and of their implementations. Both are written from the same properties, but
boxes depend on the type that a property is seen from: an interface is never stored, so a trait has
no boxes, while an implementation has one where the implementing struct would hold itself. There the
two signatures differ.
-/

namespace SchemaGraph

open Relation RustNames RustSource

/-! ### What an owner decides -/

namespace RustSource

variable {v : SchemaView} {owner owner' : TypeRef} {p : LinkedProperty}

/-- The owner of a property decides on boxes alone. -/
theorem leafType_congr {inPlace : Bool} {t : DataType}
    (h : inPlace = true → ∀ r, t = .struct r ∨ t = .enum r ∨ t = .entity r ∧ p.role ≠ .foreignKey →
      (r = owner ∨ inlines v.workspace r owner = true ↔
        r = owner' ∨ inlines v.workspace r owner' = true)) :
    leafType v owner p inPlace t = leafType v owner' p inPlace t := by
  cases inPlace with
  | false => cases t <;> simp [leafType]
  | true =>
      have h := h rfl
      cases t with
      | struct r => simp only [leafType, h r (.inl rfl)]
      | enum r => simp only [leafType, h r (.inr (.inl rfl))]
      | entity r =>
          by_cases hrole : p.role = .foreignKey
          · simp only [leafType, if_pos hrole]
          · simp only [leafType, if_neg hrole, h r (.inr (.inr ⟨rfl, hrole⟩))]
      | _ => rfl

end RustSource

namespace Workspace.Layered

variable {w : Workspace} {s : Schema} {r t t' : TypeRef} {p : LinkedProperty} {bound : SchemaKey}

/-- An enum stores nothing, so it leads to no type. -/
theorem not_inlines_enum (hw : w.Layered) (hflat : w.Flattened) (hr : w.HasType bound r .enum) :
    ¬inlines w r t = true := by
  obtain ⟨-, u, hu, henum⟩ := hr
  rw [hw.inlines_iff (hw.indexed.mem_refs.2 ⟨u, hu⟩)]
  intro hreach
  obtain ⟨b, ⟨q, hq, -⟩, -⟩ := TransGen.head'_iff.1 hreach
  rw [hflat.effectiveProperties_of_enum hu (hw.agrees hu) henum] at hq
  contradiction

/-- What is not a struct, or not stored in place, is never boxed. -/
theorem leafType_eq (hw : w.Layered) (hflat : w.Flattened)
    (ht : ∀ b, ¬w.HasType b t .enum) (ht' : ∀ b, ¬w.HasType b t' .enum) {inPlace : Bool}
    {leaf : DataType} (hsound : leaf.SoundLeaf w bound p.role)
    (hleaf : inPlace = true → ∀ x, leaf ≠ .struct x) :
    leafType ⟨w, s⟩ t p inPlace leaf = leafType ⟨w, s⟩ t' p inPlace leaf := by
  apply leafType_congr
  intro hplace r hr
  rcases hr with rfl | rfl | ⟨rfl, hrole⟩
  · exact absurd rfl (hleaf hplace r)
  · obtain ⟨k, heq, htype⟩ := hsound.handle r rfl
    have henum : w.HasType bound r .enum := by
      cases k <;> simp [TypeKind.dataType] at heq
      exact htype
    have hne : ∀ x, (∀ b, ¬w.HasType b x .enum) → ¬(r = x ∨ inlines w r x = true) := by
      rintro x hx (rfl | hinlines)
      · exact hx bound henum
      · exact hw.not_inlines_enum hflat henum hinlines
    exact iff_of_false (hne t ht) (hne t' ht')
  · exact absurd (hsound.isEntity_iff.1 rfl) hrole

/-- A property that stores no struct has one type for all composite types. -/
theorem propertyType_eq (hw : w.Layered) (hflat : w.Flattened)
    (ht : ∀ b, ¬w.HasType b t .enum) (ht' : ∀ b, ¬w.HasType b t' .enum)
    (hsound : p.type.Sound w bound p.role) (hp : ∀ x, ¬p.Stores x) :
    propertyType ⟨w, s⟩ t p = propertyType ⟨w, s⟩ t' p := by
  have hleaf := hsound.leaf
  rw [propertyType, propertyType]
  cases htype : p.type with
  | container shape key value =>
      rw [htype] at hleaf
      have heq : leafType ⟨w, s⟩ t p (shape = .optional) value =
          leafType ⟨w, s⟩ t' p (shape = .optional) value := by
        apply hw.leafType_eq hflat ht ht' hleaf
        intro hshape x hx
        obtain rfl := of_decide_eq_true hshape
        exact hp x (.inr ⟨key, htype.trans (by rw [← hx]; rfl)⟩)
      simp only [heq]
  | struct x => exact absurd (.inl htype) (hp x)
  | _ =>
      rw [htype] at hleaf
      exact hw.leafType_eq hflat ht ht' hleaf fun _ x hx => by contradiction

end Workspace.Layered

/-! ### Texts -/

/-- The length of a text between two others. -/
theorem length_between (before text after : String) :
    (before ++ text ++ after).length = before.length + text.length + after.length := by
  rw [String.length_append, String.length_append]

theorem RustType.length_render_lt_boxed (t : RustType) :
    t.render.length < (RustType.boxed t).render.length := by
  have hopen : 0 < "Box<".length := by decide
  show t.render.length < ("Box<" ++ t.render ++ ">").length
  generalize "Box<" = before at hopen ⊢
  rw [length_between]
  omega

theorem Property.length_render_lt_boxed (p : LinkedProperty) (stored : RustType) :
    (p.inPlace stored).render.length < (p.inPlace (.boxed stored)).render.length := by
  have hlt := stored.length_render_lt_boxed
  rcases p.inPlace_eq with heq | heq
  · rw [heq, heq]
    show ("Option<" ++ stored.render ++ ">").length <
      ("Option<" ++ (stored.boxed).render ++ ">").length
    generalize "Option<" = before
    rw [length_between, length_between]
    omega
  · rwa [heq, heq]

/-- A box shows in the text of a getter. -/
theorem RustItem.signature_ne_of_boxed {g d : RustMember} {p : LinkedProperty} {stored : RustType}
    (hname : g.name = d.name) (hg : g.type = p.inPlace (.boxed stored))
    (hd : d.type = p.inPlace stored) : RustItem.signature g ≠ RustItem.signature d := by
  intro heq
  have hlt := p.length_render_lt_boxed stored
  rw [← hg, ← hd] at hlt
  rw [signature, signature, hname] at heq
  rw [(String.append_right_inj _).1 heq] at hlt
  exact Nat.lt_irrefl _ hlt

/-! ### Implementations -/

namespace Workspace

variable {w : Workspace} {r i : TypeRef}

/-- The type has a trait for the interface: one of its bases or itself names the interface or one
that extends it. -/
def Implements (w : Workspace) (r i : TypeRef) : Prop :=
  ∃ a, ReflTransGen (fun x y => w.base? x = some y) r a ∧
    ∃ j ∈ w.interfacesOf a, ReflTransGen (Leads w.interfacesOf) j i

/-- All but interfaces implement each interface that they extend. -/
theorem WellTyped.implements_of_extends (hw : w.WellTyped) {b b' : SchemaKey} {k : TypeKind}
    (hr : w.HasType b r k) (hk : k ≠ .interface) (hi : w.HasType b' i .interface)
    (h : w.Extends r i) : w.Implements r i := by
  induction h using ReflTransGen.head_induction_on generalizing b k with
  | refl => exact absurd (hr.kind_unique hi) hk
  | @head x y hxy hyi ih =>
      rcases TypeLookup.mem_supertypes.1 hxy with hbase | hinterface
      · obtain ⟨kind, hkind, -, hy⟩ := hw.base x y hbase
        have hne : kind ≠ .interface := by rcases hkind with rfl | rfl <;> simp
        obtain ⟨a, ha, hreach⟩ := ih hy hne
        exact ⟨a, ha.head hbase, hreach⟩
      · have hy := hw.interfaces x y hinterface
        exact ⟨x, .refl, y, hinterface, (hw.extends_interface_iff hy).1 hyi⟩

theorem Implements.extends (h : w.Implements r i) : w.Extends r i := by
  obtain ⟨a, ha, j, hj, hji⟩ := h
  have hinterfaces : ReflTransGen (Leads w.interfacesOf) a i := .head hj hji
  exact (extends_of_bases ha).trans (extends_of_interfaces hinterfaces)

/-- The interfaces for which code is written are all that the type implements. -/
theorem Layered.mem_implementedInterfaces (hw : w.Layered) (s : Schema) {u : LinkedType}
    (hu : w.type? r = some u) : i ∈ implementedInterfaces ⟨w, s⟩ r ↔ w.Implements r i := by
  have hclosed : ∀ x, ∀ y ∈ w.interfacesOf x, y ∈ w.refs := fun _ _ hy =>
    hw.navigable.grounded.interfaces hy
  have hroots : ∀ j, j ∈ (chain w.base? w.refs.length r).flatMap w.interfacesOf ↔
      ∃ a, ReflTransGen (fun x y => w.base? x = some y) r a ∧ j ∈ w.interfacesOf a := by
    intro j
    simp only [List.mem_flatMap, (hw.navigable.lineage hu).mem_iff]
  show i ∈ DepthFirst.postorder w.interfacesOf w.refs
    ((chain w.base? w.refs.length r).flatMap w.interfacesOf) [] ↔ _
  rw [DepthFirst.mem_postorder_iff fun x _ => hclosed x]
  · simp only [hroots, Implements]
    constructor
    · rintro ⟨-, j, ⟨a, ha, hj⟩, hji⟩
      exact ⟨a, ha, j, hj, hji⟩
    · rintro ⟨a, ha, j, hj, hji⟩
      exact ⟨by simp, j, ⟨a, ha, hj⟩, hji⟩
  · intro x hx
    obtain ⟨y, -, hy⟩ := (hroots x).1 hx
    exact hclosed y x hy
  · simp

end Workspace

/-- A getter of a property as seen from a type. -/
def SchemaView.Getter (v : SchemaView) (owner : TypeRef) (p : LinkedProperty) (g : RustMember) :
    Prop :=
  fieldName p.name = .ok g.name ∧ propertyType v owner p = .ok g.type

namespace RustSource

variable {v : SchemaView} {owner i : TypeRef}

theorem interfaceImpl_ok {name : String} {item : RustItem}
    (h : interfaceImpl v owner name i = .ok item) :
    ∃ path getters, typePath v i = .ok path ∧ item = .traitImpl path name getters ∧
      List.Forall₂ (v.Getter owner) (interfaceProperties v i) getters := by
  rw [interfaceImpl] at h
  obtain ⟨path, hpath, h⟩ := bind_eq_ok.1 h
  obtain ⟨getters, hgetters, h⟩ := bind_eq_ok.1 h
  obtain rfl := pure_eq_ok.1 h
  refine ⟨path, getters, hpath, rfl, (mapM_eq_ok.1 hgetters).imp fun p g hg => ?_⟩
  obtain ⟨field, hfield, hg⟩ := bind_eq_ok.1 hg
  obtain ⟨type, htype, hg⟩ := bind_eq_ok.1 hg
  obtain rfl := pure_eq_ok.1 hg
  exact ⟨hfield, htype⟩

theorem typeItems_of_interface {derives : List String} {t : LinkedType} {items : List RustItem}
    (hkind : t.kind = .interface) (h : typeItems v derives owner t = .ok items) :
    ∃ c, t.body = .composite c ∧ interfaceItems v owner t c = .ok items := by
  rcases typeItems_cases h with ⟨_, -, hother, -⟩ | ⟨c, hbody, -, hitems⟩ | ⟨_, -, henum, -⟩
  · simp [hkind] at hother
  · exact ⟨c, hbody, hitems⟩
  · simp [hkind] at henum

theorem interfaceItems_ok {t : LinkedType} {c : LinkedComposite} {items : List RustItem}
    (h : interfaceItems v i t c = .ok items) :
    ∃ docs name supertraits getters, items = [.trait docs name supertraits getters] ∧
      typeName t.name = .ok name ∧ List.Forall₂ (v.Getter i) c.properties getters ∧
      List.Forall₂ (fun r path => typePath v r = .ok path) c.interfaces supertraits := by
  rw [interfaceItems] at h
  obtain ⟨name, hname, h⟩ := bind_eq_ok.1 h
  obtain ⟨supertraits, hsupertraits, h⟩ := bind_eq_ok.1 h
  obtain ⟨getters, hgetters, h⟩ := bind_eq_ok.1 h
  obtain rfl := pure_eq_ok.1 h
  refine ⟨_, name, supertraits, getters, rfl, hname,
    (mapM_eq_ok.1 hgetters).imp fun p g hg => ?_, mapM_eq_ok.1 hsupertraits⟩
  obtain ⟨type, htype, hg⟩ := bind_eq_ok.1 hg
  obtain ⟨field, hfield, hg⟩ := bind_eq_ok.1 hg
  obtain rfl := pure_eq_ok.1 hg
  exact ⟨hfield, htype⟩

end RustSource

/-! ### Signatures -/

namespace Workspace.Layered

variable {w : Workspace} {s : Schema} {i t : TypeRef} {b b' : SchemaKey}

/-- Nothing leads to an interface through what is stored. -/
theorem not_leads_interface (hw : w.Layered) (hi : w.HasType b i .interface) {x : TypeRef}
    (hx : w.HasType b' x .struct) : ¬ReflTransGen w.Stores x i := by
  intro h
  have hstruct : ∃ u, w.type? i = some u ∧ u.kind = .struct := by
    rcases h.cases_tail with rfl | ⟨y, -, hy⟩
    · exact hx.2
    · exact hw.struct_of_stores hy
  obtain ⟨u, hu, hkind⟩ := hstruct
  have := hi.kind_unique ⟨Nat.le_refl _, u, hu, hkind⟩
  contradiction

/-- Seen from an interface and from a type that implements it, a property has getters with one
signature, unless it stores a struct that leads back to the type. -/
theorem signature_eq_iff (hw : w.Layered) (hflat : w.Flattened) (hi : w.HasType b i .interface)
    (ht : ∀ b, ¬w.HasType b t .enum) {p : LinkedProperty} (hsound : p.type.Sound w b p.role)
    {g d : RustMember} (hg : (SchemaView.mk w s).Getter t p g)
    (hd : (SchemaView.mk w s).Getter i p d) :
    RustItem.signature g = RustItem.signature d ↔
      ¬∃ x, p.Stores x ∧ ReflTransGen w.Stores x t := by
  have hname : g.name = d.name := Except.ok.inj (hg.1.symm.trans hd.1)
  by_cases hstores : ∃ x, p.Stores x
  · obtain ⟨x, hx⟩ := hstores
    have htype := hsound.hasType_of_stores hx
    have hback : ∀ y, (x = y ∨ inlines w x y = true) ↔ ReflTransGen w.Stores x y := by
      obtain ⟨u, hu, -⟩ := htype.2
      exact fun y => hw.leads_back_iff (hw.indexed.mem_refs.2 ⟨u, hu⟩)
    have hunique : ∀ y, p.Stores y → y = x := fun y hy =>
      DataType.struct.inj (hy.leaf_eq.symm.trans hx.leaf_eq)
    obtain ⟨path, hpath, hgtype⟩ := propertyType_of_stores hx hg.2
    obtain ⟨path', hpath', hdtype⟩ := propertyType_of_stores hx hd.2
    obtain rfl := Except.ok.inj (hpath.symm.trans hpath')
    simp only [hback, hw.not_leads_interface hi htype, false_and, not_false_eq_true, true_and,
      false_or] at hgtype hdtype
    rcases hgtype with ⟨hleads, hgtype⟩ | ⟨hleads, hgtype⟩
    · refine iff_of_false (RustItem.signature_ne_of_boxed hname hgtype hdtype) fun hnone => ?_
      exact hnone ⟨x, hx, hleads⟩
    · refine iff_of_true ?_ fun ⟨y, hy, hyt⟩ => hleads (hunique y hy ▸ hyt)
      rw [RustItem.signature, RustItem.signature, hname, hgtype, hdtype]
  · have hnone : ∀ x, ¬p.Stores x := fun x hx => hstores ⟨x, hx⟩
    have hnotEnum : ∀ b, ¬w.HasType b i .enum := fun b henum => by
      have := henum.kind_unique hi
      contradiction
    have heq := hw.propertyType_eq (s := s) hflat ht hnotEnum hsound hnone
    rw [hg.2, hd.2] at heq
    refine iff_of_true ?_ fun ⟨x, hx, _⟩ => hstores ⟨x, hx⟩
    rw [RustItem.signature, RustItem.signature, hname, Except.ok.inj heq]

end Workspace.Layered

/-- A struct or entity and an interface that it extends are emitted with a getter for each property
of the interface: one in the implementation and one in the trait. The two have the same signature if
and only if the property stores no struct that leads back to the type; a struct that does is boxed
in the implementation and not in the trait. -/
theorem signatures_agree_iff_no_box {w : Workspace} (h : Reached w) {s : Schema}
    {derives : List String} {t i : TypeRef} {u j : LinkedType} {e e' : Emitted}
    (hu : w.type? t = some u) (hkind : u.kind = .entity ∨ u.kind = .struct)
    (hj : w.type? i = some j) (hinterface : j.kind = .interface) (hextends : w.Extends t i)
    (htype : (backend derives).emitType ⟨w, s⟩ t u = .ok e)
    (htrait : (backend derives).emitType ⟨w, s⟩ i j = .ok e') :
    ∃ items path name getters docs traitName supertraits declared,
      e.code = RustItem.renderFile s.name items ∧ typePath ⟨w, s⟩ i = .ok path ∧
      .traitImpl path name getters ∈ items ∧
      e'.code = RustItem.renderFile s.name [.trait docs traitName supertraits declared] ∧
      ∀ (k : Nat) (p : LinkedProperty), j.properties[k]? = some p →
        ∃ g d, getters[k]? = some g ∧ declared[k]? = some d ∧
          (RustItem.signature g = RustItem.signature d ↔
            ¬∃ x, p.Stores x ∧ ReflTransGen w.Stores x t) := by
  obtain ⟨hw, hflat⟩ := h.layered_flattened
  have hi : w.HasType i.schema i .interface := ⟨Nat.le_refl _, j, hj, hinterface⟩
  have hnotEnum : ∀ b, ¬w.HasType b t .enum := by
    rintro b ⟨-, u', hu', henum⟩
    obtain rfl := Option.some.inj (hu.symm.trans hu')
    rcases hkind with hkind | hkind <;> simp [hkind] at henum
  obtain ⟨items, hitems, hcode⟩ := backend_emitType_ok htype
  obtain ⟨traitItems, htraitItems, htraitCode⟩ := backend_emitType_ok htrait
  obtain ⟨c, hcomposite⟩ := typeItems_of_composite hkind hitems
  obtain ⟨name, _, _, rfl, -, -, key, impls, rfl, himpls, -⟩ := compositeItems_ok hcomposite
  have hmem : i ∈ implementedInterfaces ⟨w, s⟩ t := by
    have hne : u.kind ≠ .interface := by rcases hkind with hkind | hkind <;> simp [hkind]
    apply (hw.mem_implementedInterfaces s hu).2
    exact hw.wellTyped.implements_of_extends ⟨Nat.le_refl _, u, hu, rfl⟩ hne hi hextends
  obtain ⟨k, hk⟩ := List.getElem?_of_mem hmem
  obtain ⟨item, hitem, himpl⟩ := exists_of_forall₂_left (mapM_eq_ok.1 himpls) hk
  obtain ⟨path, getters, hpath, rfl, hgetters⟩ := interfaceImpl_ok himpl
  obtain ⟨c', hbody, hinterfaceItems⟩ := typeItems_of_interface hinterface htraitItems
  obtain ⟨docs, traitName, supertraits, declared, rfl, -, hdeclared, -⟩ :=
    interfaceItems_ok hinterfaceItems
  refine ⟨_, path, name, getters, docs, traitName, supertraits, declared, hcode, hpath, ?_,
    htraitCode, fun k p hp => ?_⟩
  · exact List.mem_cons_of_mem _ (List.mem_append_right _ (List.mem_of_getElem? hitem))
  · have hproperties := UserType.properties_eq hbody
    have himplProperties : interfaceProperties ⟨w, s⟩ i = j.properties := by
      show TypeLookup.properties w.type? i = j.properties
      rw [TypeLookup.properties, hj]
      rfl
    rw [himplProperties] at hgetters
    obtain ⟨g, hget, hg⟩ := exists_of_forall₂_left hgetters hp
    rw [hproperties] at hp
    obtain ⟨d, hdget, hd⟩ := exists_of_forall₂_left hdeclared hp
    have hsound :=
      (hw.sound.composite hw.indexed.positioned hj hbody).properties p (List.mem_of_getElem? hp)
    exact ⟨g, d, hget, hdget, hw.signature_eq_iff hflat hi hnotEnum hsound hg hd⟩

/-! ### A getter with two signatures -/

def mutualGetter : RustMember := { name := "a", type := .boxed (.path ["A"]) }

def mutualDeclared : RustMember := { name := "a", type := .path ["A"] }

/-- What is emitted for the struct `B` and its interface in the workspace of structs that hold each
other. -/
theorem mutualWorkspace_items :
    mutualWorkspace.interfacesOf ⟨0, 2⟩ = [⟨0, 0⟩] ∧
      ∃ s u j, mutualWorkspace.schemas[0]? = some s ∧ mutualWorkspace.type? ⟨0, 2⟩ = some u ∧
        mutualWorkspace.type? ⟨0, 0⟩ = some j ∧ u.kind = .struct ∧ j.kind = .interface ∧
        typeItems ⟨mutualWorkspace, s⟩ [] ⟨0, 2⟩ u =
          .ok [.struct ["Struct `B`"] [] "B" [mutualGetter],
            .traitImpl ["I"] "B" [mutualGetter]] ∧
        typeItems ⟨mutualWorkspace, s⟩ [] ⟨0, 0⟩ j =
          .ok [.trait ["Interface `I`"] "I" [] [mutualDeclared]] := by
  have hfound : (mutualWorkspace.schemas[0]?.bind fun s =>
      (mutualWorkspace.type? ⟨0, 2⟩).bind fun u => (mutualWorkspace.type? ⟨0, 0⟩).map fun j =>
        (mutualWorkspace.interfacesOf ⟨0, 2⟩, u.kind, j.kind,
          typeItems ⟨mutualWorkspace, s⟩ [] ⟨0, 2⟩ u, typeItems ⟨mutualWorkspace, s⟩ [] ⟨0, 0⟩ j)) =
      some ([⟨0, 0⟩], .struct, .interface,
        .ok [.struct ["Struct `B`"] [] "B" [mutualGetter], .traitImpl ["I"] "B" [mutualGetter]],
        .ok [.trait ["Interface `I`"] "I" [] [mutualDeclared]]) := by cbv
  obtain ⟨s, hs, hfound⟩ := Option.bind_eq_some_iff.1 hfound
  obtain ⟨u, hu, hfound⟩ := Option.bind_eq_some_iff.1 hfound
  obtain ⟨j, hj, hfound⟩ := Option.map_eq_some_iff.1 hfound
  simp only [Prod.mk.injEq] at hfound
  obtain ⟨hinterfaces, hukind, hjkind, hitems, htrait⟩ := hfound
  exact ⟨hinterfaces, s, u, j, hs, hu, hj, hukind, hjkind, hitems, htrait⟩

theorem mutualWorkspace_extends :
    Reached mutualWorkspace ∧ mutualWorkspace.Extends ⟨0, 2⟩ ⟨0, 0⟩ := by
  obtain ⟨hinterfaces, -⟩ := mutualWorkspace_items
  refine ⟨(Reached.empty [] {} none).load mutualSources.reader ["a"], .single ?_⟩
  apply TypeLookup.mem_supertypes.2
  show _ ∨ ⟨0, 0⟩ ∈ mutualWorkspace.interfacesOf ⟨0, 2⟩
  simp [hinterfaces]

/-- The trait `I` declares a getter without a box, and `B` implements it with one. -/
theorem signatures_differ_mutual :
    Reached mutualWorkspace ∧ mutualWorkspace.Extends ⟨0, 2⟩ ⟨0, 0⟩ ∧
      ∃ s u j, mutualWorkspace.schemas[0]? = some s ∧
        mutualWorkspace.type? ⟨0, 2⟩ = some u ∧ mutualWorkspace.type? ⟨0, 0⟩ = some j ∧
        u.kind = .struct ∧ j.kind = .interface ∧
        typeItems ⟨mutualWorkspace, s⟩ [] ⟨0, 2⟩ u =
          .ok [.struct ["Struct `B`"] [] "B" [mutualGetter],
            .traitImpl ["I"] "B" [mutualGetter]] ∧
        typeItems ⟨mutualWorkspace, s⟩ [] ⟨0, 0⟩ j =
          .ok [.trait ["Interface `I`"] "I" [] [mutualDeclared]] ∧
        RustItem.signature mutualGetter ≠ RustItem.signature mutualDeclared := by
  obtain ⟨-, s, u, j, hs, hu, hj, hukind, hjkind, hitems, htrait⟩ := mutualWorkspace_items
  obtain ⟨hreached, hextends⟩ := mutualWorkspace_extends
  exact ⟨hreached, hextends, s, u, j, hs, hu, hj, hukind, hjkind, hitems, htrait, by decide⟩

theorem signatures_agree_iff_no_box_mutual :
    Reached mutualWorkspace ∧ ∃ s u j e e', mutualWorkspace.schemas[0]? = some s ∧
      mutualWorkspace.type? ⟨0, 2⟩ = some u ∧ mutualWorkspace.type? ⟨0, 0⟩ = some j ∧
      (backend []).emitType ⟨mutualWorkspace, s⟩ ⟨0, 2⟩ u = .ok e ∧
      (backend []).emitType ⟨mutualWorkspace, s⟩ ⟨0, 0⟩ j = .ok e' ∧
      ∃ items path name getters docs traitName supertraits declared,
        e.code = RustItem.renderFile s.name items ∧
        .traitImpl path name getters ∈ items ∧
        e'.code = RustItem.renderFile s.name [.trait docs traitName supertraits declared] := by
  obtain ⟨-, s, u, j, hs, hu, hj, hukind, hjkind, hitems, htrait⟩ := mutualWorkspace_items
  obtain ⟨hreached, hextends⟩ := mutualWorkspace_extends
  have hemit := backend_emitType_of_ok hitems
  have htraitEmit := backend_emitType_of_ok htrait
  obtain ⟨items, path, name, getters, docs, traitName, supertraits, declared, hcode, -, hmem,
    htraitCode, -⟩ := signatures_agree_iff_no_box hreached hu (.inr hukind) hj hjkind hextends
      hemit htraitEmit
  exact ⟨hreached, s, u, j, _, _, hs, hu, hj, hemit, htraitEmit, items, path, name, getters, docs,
    traitName, supertraits, declared, hcode, hmem, htraitCode⟩

end SchemaGraph
