import SchemaGraph.Emission.RustSource
import SchemaGraph.Proofs.Declaring
import SchemaGraph.Proofs.Inheritance

/-!
Values stored in place. A type stores a struct if one of its effective properties has the struct for
its type, directly or as an optional. A field boxes what it stores exactly if the struct leads back
to the type that the field is in, so that no emitted struct contains itself.
-/

namespace SchemaGraph

open Relation

/-- A value of the property holds a value of the struct in place, unless it is boxed. -/
def Property.Stores (p : LinkedProperty) (r : TypeRef) : Prop :=
  p.type = .struct r ∨ ∃ key, p.type = .container .optional key (.struct r)

theorem Property.Stores.leaf_eq {p : LinkedProperty} {r : TypeRef} (h : p.Stores r) :
    p.type.leaf = .struct r := by
  rcases h with h | ⟨key, h⟩
  · rw [h, DataType.leaf]
    simp
  · rw [h, DataType.leaf]

/-- A type with an effective property that stores the struct. -/
def Workspace.Stores (w : Workspace) (t r : TypeRef) : Prop :=
  ∃ p ∈ w.effectiveProperties t, p.Stores r

/-- The type stores the struct, which leads back to the type, if it is not the type itself. -/
def Workspace.StoresOnCycle (w : Workspace) (t r : TypeRef) : Prop :=
  w.Stores t r ∧ ReflTransGen w.Stores r t

namespace Workspace

variable {w : Workspace} {r t : TypeRef} {p : LinkedProperty}

/-! ### Effective properties -/

theorem mem_effectiveProperties :
    p ∈ w.effectiveProperties r ↔ ∃ q ∈ (w.derivedOf r).effective, w.property? q = some p :=
  List.mem_filterMap

theorem Layered.sound_property (hw : w.Layered) {q : PropertyRef} (hq : w.property? q = some p) :
    p.type.Sound w q.owner.schema p.role := by
  obtain ⟨t, ht, hp⟩ := Option.bind_eq_some_iff.1 hq
  have hmem := List.mem_of_getElem? hp
  obtain ⟨name, ns, kind, body, metadata⟩ := t
  cases body with
  | enum e => simp [UserType.properties, UserType.composite?] at hmem
  | composite c => exact (hw.sound.composite hw.indexed.positioned ht rfl).properties p hmem

theorem Layered.sound_effective (hw : w.Layered) (hp : p ∈ w.effectiveProperties r) :
    ∃ bound, p.type.Sound w bound p.role := by
  obtain ⟨q, -, hq⟩ := mem_effectiveProperties.1 hp
  exact ⟨_, hw.sound_property hq⟩

/-- An enum has no effective properties. -/
theorem Flattened.effectiveProperties_of_enum (hw : w.Flattened) {u : LinkedType}
    (hu : w.type? r = some u) (hagrees : u.Agrees) (henum : u.kind = .enum) :
    w.effectiveProperties r = [] := by
  obtain ⟨e, hbody⟩ := hagrees.exists_enum henum
  have hnone := TypeLookup.composite?_eq_none hu hbody
  have heffective : (w.derivedOf r).effective = [] := by
    refine List.eq_nil_iff_forall_not_mem.2 fun q hq => ?_
    have hnil := ((flattens_nil hnone).mem_iff q).2 (((hw.flattens r).mem_iff q).1 hq)
    simp at hnil
  rw [effectiveProperties, heffective, List.filterMap_nil]

end Workspace

/-! ### What is stored in place -/

open RustNames RustSource

namespace DataType.Sound

variable {w : Workspace} {bound : SchemaKey} {p : LinkedProperty} {r : TypeRef}

/-- A container that is an entity's would be one for a foreign key, and those store keys. -/
theorem inlineTarget?_eq_some_iff (h : p.type.Sound w bound p.role) :
    inlineTarget? p = some r ↔ p.Stores r := by
  have hforeign := h.leaf.isEntity_iff
  rw [inlineTarget?, Property.Stores]
  cases htype : p.type with
  | container shape key value =>
      rw [htype] at hforeign
      cases shape <;> cases value <;> simp_all [DataType.leaf, DataType.isEntity]
  | _ => simp_all [DataType.leaf, DataType.isEntity]

/-- What is stored is a published struct. -/
theorem hasType_of_stores (h : p.type.Sound w bound p.role) (hp : p.Stores r) :
    w.HasType bound r .struct := by
  obtain ⟨k, heq, htype⟩ := h.leaf.handle r (by rw [hp.leaf_eq]; rfl)
  rw [hp.leaf_eq] at heq
  cases k <;> simp [TypeKind.dataType] at heq
  exact htype

end DataType.Sound

namespace Workspace.Layered

variable {w : Workspace} {r t : TypeRef}

theorem mem_inlineTargets (hw : w.Layered) : r ∈ inlineTargets w t ↔ w.Stores t r := by
  rw [inlineTargets, List.mem_filterMap]
  refine exists_congr fun p => and_congr_right fun hp => ?_
  obtain ⟨bound, hsound⟩ := hw.sound_effective hp
  exact hsound.inlineTarget?_eq_some_iff

theorem leads_inlineTargets (hw : w.Layered) : Leads (inlineTargets w) = w.Stores := by
  funext a b
  exact propext hw.mem_inlineTargets

theorem struct_of_stores (hw : w.Layered) (h : w.Stores t r) :
    ∃ u, w.type? r = some u ∧ u.kind = .struct := by
  obtain ⟨p, hp, hstores⟩ := h
  obtain ⟨bound, hsound⟩ := hw.sound_effective hp
  exact (hsound.hasType_of_stores hstores).2

theorem closed_inlineTargets (hw : w.Layered) :
    ∀ a ∈ w.refs, ∀ b ∈ inlineTargets w a, b ∈ w.refs := by
  intro a _ b hb
  obtain ⟨u, hu, -⟩ := hw.struct_of_stores (hw.mem_inlineTargets.1 hb)
  exact hw.indexed.mem_refs.2 ⟨u, hu⟩

/-- The search finds out whether a type leads to another through what is stored in place. -/
theorem inlines_iff (hw : w.Layered) (hr : r ∈ w.refs) :
    inlines w r t = true ↔ TransGen w.Stores r t := by
  have hroots : ∀ a ∈ [r], a ∈ w.refs := by simpa using hr
  simp only [inlines, List.any_eq_true, decide_eq_true_eq, hw.mem_inlineTargets,
    DepthFirst.mem_reached_iff hw.closed_inlineTargets hroots, List.mem_singleton,
    exists_eq_left, hw.leads_inlineTargets]
  exact TransGen.tail'_iff.symm

/-- A struct that is stored, or leads to the type that stores it, leads back there. -/
theorem leads_back_iff (hw : w.Layered) (hr : r ∈ w.refs) :
    (r = t ∨ inlines w r t = true) ↔ ReflTransGen w.Stores r t := by
  rw [hw.inlines_iff hr, reflTransGen_iff_eq_or_transGen, eq_comm]

end Workspace.Layered

/-! ### Fields -/

/-- How the field of a property shows what is stored in it. -/
def Property.inPlace (p : LinkedProperty) (stored : RustType) : RustType :=
  match p.type with
  | .container .. => .option stored
  | _ => stored

theorem Property.inPlace_eq (p : LinkedProperty) :
    (∀ stored, p.inPlace stored = .option stored) ∨ ∀ stored, p.inPlace stored = stored := by
  unfold Property.inPlace
  split
  · exact .inl fun _ => rfl
  · exact .inr fun _ => rfl

theorem Property.inPlace_injective (p : LinkedProperty) : Function.Injective p.inPlace := by
  intro a b h
  rcases p.inPlace_eq with heq | heq
  · rw [heq, heq] at h
    exact RustType.option.inj h
  · rwa [heq, heq] at h

theorem Property.unboxed_inPlace (p : LinkedProperty) (stored : RustType) :
    (p.inPlace stored).unboxed = p.inPlace stored.unboxed := by
  rcases p.inPlace_eq with heq | heq
  · rw [heq, heq, RustType.unboxed]
  · rw [heq, heq]

/-- The field of a property in the struct for a type. -/
structure SchemaView.Field (v : SchemaView) (owner : TypeRef) (p : LinkedProperty)
    (f : RustMember) : Prop where
  docs : f.docs = propertyDocs p
  name : fieldName p.name = .ok f.name
  type : propertyType v owner p = .ok f.type

namespace RustSource

variable {v : SchemaView} {owner : TypeRef} {p : LinkedProperty}

theorem propertyType_of_stores {r : TypeRef} (hp : p.Stores r) {type : RustType}
    (h : propertyType v owner p = .ok type) :
    ∃ path, typePath v r = .ok path ∧
      ((r = owner ∨ inlines v.workspace r owner = true) ∧ type = p.inPlace (.boxed (.path path)) ∨
        ¬(r = owner ∨ inlines v.workspace r owner = true) ∧ type = p.inPlace (.path path)) := by
  have hleaf : ∃ leaf, leafType v owner p true (.struct r) = .ok leaf ∧
      type = p.inPlace leaf := by
    rcases hp with hp | ⟨key, hp⟩
    · rw [propertyType, hp] at h
      exact ⟨type, h, by rw [Property.inPlace, hp]⟩
    · rw [propertyType, hp] at h
      obtain ⟨leaf, hleaf, h⟩ := bind_eq_ok.1 h
      obtain rfl := pure_eq_ok.1 h
      exact ⟨leaf, hleaf, by rw [Property.inPlace, hp]⟩
  obtain ⟨leaf, hleaf, rfl⟩ := hleaf
  simp only [leafType, true_and] at hleaf
  obtain ⟨path, hpath, hleaf⟩ := bind_eq_ok.1 hleaf
  refine ⟨path, hpath, ?_⟩
  split at hleaf
  · rename_i hback
    obtain rfl := pure_eq_ok.1 hleaf
    exact .inl ⟨hback, rfl⟩
  · rename_i hback
    obtain rfl := pure_eq_ok.1 hleaf
    exact .inr ⟨hback, rfl⟩

theorem structField_eq_ok {done : List RustMember} {f : RustMember} :
    structField v owner done p = .ok f ↔ v.Field owner p f ∧ f.name ∉ done.map RustMember.name := by
  rw [structField]
  constructor
  · intro h
    obtain ⟨name, hname, h⟩ := bind_eq_ok.1 h
    obtain ⟨hfresh, h⟩ := check_eq_ok.1 h
    obtain ⟨type, htype, h⟩ := bind_eq_ok.1 h
    obtain rfl := pure_eq_ok.1 h
    exact ⟨⟨rfl, hname, htype⟩, hfresh⟩
  · rintro ⟨hf, hfresh⟩
    refine bind_eq_ok.2 ⟨f.name, hf.name, check_eq_ok.2 ⟨hfresh, ?_⟩⟩
    refine bind_eq_ok.2 ⟨f.type, hf.type, pure_eq_ok.2 ?_⟩
    rw [← hf.docs]

/-- A struct has one field for each property, and all have different names. -/
theorem structFields_eq_ok {ps : List LinkedProperty} {fields : List RustMember} :
    structFields v owner ps = .ok fields ↔
      List.Forall₂ (v.Field owner) ps fields ∧ (fields.map RustMember.name).Nodup := by
  refine Drafting.inOrder_eq_ok_iff fun done p f => ?_
  exact structField_eq_ok

/-- The code of an entity or a struct begins with the struct itself; then come the key of an entity,
and the implementations. -/
theorem compositeItems_ok {derives : List String} {t : LinkedType} {c : LinkedComposite}
    {items : List RustItem} (h : compositeItems v derives owner t c = .ok items) :
    ∃ name fields rest,
      items = .struct (typeDocs t ++ baseDocs v c.base) derives name fields :: rest ∧
      typeName t.name = .ok name ∧
      structFields v owner (v.workspace.effectiveProperties owner) = .ok fields ∧
      ∃ key impls, rest = key ++ impls ∧
        (implementedInterfaces v owner).mapM (interfaceImpl v owner name) = .ok impls ∧
        (if t.kind = .entity then keyItems v owner t name else pure []) = .ok key := by
  rw [compositeItems] at h
  obtain ⟨name, hname, h⟩ := bind_eq_ok.1 h
  obtain ⟨fields, hfields, h⟩ := bind_eq_ok.1 h
  have hkey : ∃ key, (if t.kind = .entity then keyItems v owner t name else pure []) = .ok key ∧
      ((implementedInterfaces v owner).mapM (interfaceImpl v owner name) >>=
        fun impls => pure (.struct (typeDocs t ++ baseDocs v c.base) derives name fields ::
          key ++ impls)) = .ok items := by
    simp only at h
    split at h
    · rename_i hentity
      rw [if_pos hentity]
      exact bind_eq_ok.1 h
    · rename_i hentity
      rw [if_neg hentity]
      exact ⟨[], rfl, h⟩
  obtain ⟨key, hkey, h⟩ := hkey
  obtain ⟨impls, himpls, h⟩ := bind_eq_ok.1 h
  obtain rfl := pure_eq_ok.1 h
  exact ⟨name, fields, key ++ impls, rfl, hname, hfields, key, impls, rfl, himpls, hkey⟩

theorem ofBody_eq_ok {α : Type} {t : LinkedType} {missing : RustFault}
    {make : α → Except RustFault (List RustItem)} {body? : Option α} {items : List RustItem} :
    ofBody t missing make body? = .ok items ↔
      ∃ body, body? = some body ∧ make body = .ok items := by
  cases body? with
  | some body => simp [ofBody]
  | none =>
      refine iff_of_false (fun h => ?_) (by simp)
      obtain ⟨_, -, h⟩ := bind_eq_ok.1 h
      contradiction

/-- A type that has code has a body of its kind, and the code is made of that. -/
theorem typeItems_cases {derives : List String} {t : LinkedType} {items : List RustItem}
    (h : typeItems v derives owner t = .ok items) :
    (∃ c, t.body = .composite c ∧ (t.kind = .entity ∨ t.kind = .struct) ∧
      compositeItems v derives owner t c = .ok items) ∨
    (∃ c, t.body = .composite c ∧ t.kind = .interface ∧ interfaceItems v owner t c = .ok items) ∨
    ∃ e, t.body = .enum e ∧ t.kind = .enum ∧ enumItems v t e = .ok items := by
  rw [typeItems] at h
  cases hkind : t.kind with
  | entity | struct =>
      rw [hkind] at h
      obtain ⟨c, hc, hitems⟩ := ofBody_eq_ok.1 h
      exact .inl ⟨c, UserType.composite?_eq_some.1 hc, by simp, hitems⟩
  | interface =>
      rw [hkind] at h
      obtain ⟨c, hc, hitems⟩ := ofBody_eq_ok.1 h
      exact .inr (.inl ⟨c, UserType.composite?_eq_some.1 hc, rfl, hitems⟩)
  | enum =>
      rw [hkind] at h
      obtain ⟨e, he, hitems⟩ := ofBody_eq_ok.1 h
      exact .inr (.inr ⟨e, UserType.enum?_eq_some.1 he, rfl, hitems⟩)

theorem typeItems_of_composite {derives : List String} {t : LinkedType} {items : List RustItem}
    (hkind : t.kind = .entity ∨ t.kind = .struct) (h : typeItems v derives owner t = .ok items) :
    ∃ c, compositeItems v derives owner t c = .ok items := by
  rcases typeItems_cases h with ⟨c, -, -, hitems⟩ | ⟨_, -, hinterface, -⟩ | ⟨_, -, henum, -⟩
  · exact ⟨c, hitems⟩
  · simp [hinterface] at hkind
  · simp [henum] at hkind

theorem typeItems_of_enum {derives : List String} {t : LinkedType} {e : EnumBody}
    (hbody : t.body = .enum e) {items : List RustItem}
    (h : typeItems v derives owner t = .ok items) : enumItems v t e = .ok items := by
  rcases typeItems_cases h with ⟨_, hother, -⟩ | ⟨_, hother, -⟩ | ⟨e', hbody', -, hitems⟩
  · simp [hbody] at hother
  · simp [hbody] at hother
  · obtain rfl := TypeBody.enum.inj (hbody.symm.trans hbody')
    exact hitems

theorem backend_emitType_ok {derives : List String} {t : LinkedType} {e : Emitted}
    (h : (backend derives).emitType v owner t = .ok e) :
    ∃ items, typeItems v derives owner t = .ok items ∧
      e.code = RustItem.renderFile v.schema.name items := by
  simp only [backend] at h
  split at h
  · rename_i items hitems
    obtain rfl := Except.ok.inj h
    exact ⟨items, hitems, rfl⟩
  · contradiction

theorem backend_emitType_of_ok {derives : List String} {t : LinkedType} {items : List RustItem}
    (h : typeItems v derives owner t = .ok items) :
    (backend derives).emitType v owner t = .ok (file v items (typeNotes v owner t)) := by
  simp only [backend, h]

/-- The code of an entity or a struct begins with a struct that has a field of the right type for
each effective property. -/
theorem typeItems_ok {derives : List String} {t : LinkedType} {items : List RustItem}
    (hkind : t.kind = .entity ∨ t.kind = .struct) (h : typeItems v derives owner t = .ok items) :
    ∃ docs name fields rest, items = .struct docs derives name fields :: rest ∧
      List.Forall₂ (fun p f => propertyType v owner p = .ok f.type)
        (v.workspace.effectiveProperties owner) fields := by
  obtain ⟨c, hcomposite⟩ := typeItems_of_composite hkind h
  obtain ⟨name, fields, rest, heq, -, hfields, -⟩ := compositeItems_ok hcomposite
  refine ⟨_, name, fields, rest, heq, ?_⟩
  exact (structFields_eq_ok.1 hfields).1.imp fun _ _ hf => hf.type

end RustSource

/-! ### Emitted structs -/

/-- The field of the property boxes the struct that the property stores if that leads back to the
type, and else holds it. -/
def SchemaView.Boxes (v : SchemaView) (t : TypeRef) (p : LinkedProperty) (f : RustMember) : Prop :=
  ∀ r, p.Stores r → ∃ path, typePath v r = .ok path ∧
    (v.workspace.StoresOnCycle t r ∧ f.type = p.inPlace (.boxed (.path path)) ∨
      ¬v.workspace.StoresOnCycle t r ∧ f.type = p.inPlace (.path path))

/-- An emitted struct for the type has a field without a box for a property that stores the other
struct. -/
def Workspace.HoldsUnboxed (w : Workspace) (derives : List String) (t r : TypeRef) : Prop :=
  ∃ s u docs name fields rest, w.schemas[t.schema]? = some s ∧ w.type? t = some u ∧
    (u.kind = .entity ∨ u.kind = .struct) ∧
    typeItems ⟨w, s⟩ derives t u = .ok (.struct docs derives name fields :: rest) ∧
    ∃ (i : Nat) (p : LinkedProperty) (f : RustMember), (w.effectiveProperties t)[i]? = some p ∧
      fields[i]? = some f ∧ p.Stores r ∧ f.type.unboxed = f.type

namespace Workspace.Layered

variable {w : Workspace} {s : Schema} {t r : TypeRef}

theorem boxes (hw : w.Layered) {p : LinkedProperty} {f : RustMember}
    (hp : p ∈ w.effectiveProperties t) (h : propertyType ⟨w, s⟩ t p = .ok f.type) :
    (SchemaView.mk w s).Boxes t p f := by
  intro r hr
  have hstores : w.Stores t r := ⟨p, hp, hr⟩
  obtain ⟨u, hu, -⟩ := hw.struct_of_stores hstores
  obtain ⟨path, hpath, htype⟩ := propertyType_of_stores hr h
  rw [hw.leads_back_iff (hw.indexed.mem_refs.2 ⟨u, hu⟩)] at htype
  refine ⟨path, hpath, ?_⟩
  simpa [StoresOnCycle, hstores] using htype

theorem forall₂_boxes (hw : w.Layered) {fields : List RustMember}
    (h : List.Forall₂ (fun p f => propertyType ⟨w, s⟩ t p = .ok f.type)
      (w.effectiveProperties t) fields) :
    List.Forall₂ ((SchemaView.mk w s).Boxes t) (w.effectiveProperties t) fields :=
  forall₂_imp_of_mem (fun _ hp _ hf => hw.boxes hp hf) h

theorem not_leads_back (hw : w.Layered) {derives : List String}
    (h : w.HoldsUnboxed derives t r) : w.Stores t r ∧ ¬ReflTransGen w.Stores r t := by
  obtain ⟨s, u, docs, name, fields, rest, -, -, hkind, hitems, i, p, f, hp, hf, hr, hunboxed⟩ := h
  have hmem := List.mem_of_getElem? hp
  refine ⟨⟨p, hmem, hr⟩, fun hback => ?_⟩
  obtain ⟨_, _, _, _, heq, hfields⟩ := typeItems_ok hkind hitems
  obtain ⟨-, -, -, rfl⟩ := RustItem.struct.inj (List.cons.inj heq).1
  obtain ⟨f', hf', htype⟩ := exists_of_forall₂_left hfields hp
  obtain rfl := Option.some.inj (hf.symm.trans hf')
  obtain ⟨path, -, ⟨-, htype⟩ | ⟨hnot, -⟩⟩ := hw.boxes hmem htype r hr
  · rw [htype] at hunboxed
    have heq := p.inPlace_injective ((p.unboxed_inPlace _).symm.trans hunboxed)
    simp [RustType.unboxed] at heq
  · exact hnot ⟨⟨p, hmem, hr⟩, hback⟩

end Workspace.Layered

/-- In the struct that is emitted for an entity or a struct, the field of a property that stores a
struct boxes it if and only if it is stored on a cycle. So no emitted struct holds itself without a
box, whatever schemas the structs between are from. -/
theorem boxes_cut_cycles {w : Workspace} (h : Reached w) (derives : List String) :
    (∀ s t u e, w.schemas[t.schema]? = some s → w.type? t = some u →
      u.kind = .entity ∨ u.kind = .struct → (backend derives).emitType ⟨w, s⟩ t u = .ok e →
        ∃ docs name fields rest,
          typeItems ⟨w, s⟩ derives t u = .ok (.struct docs derives name fields :: rest) ∧
          e.code = RustItem.renderFile s.name (.struct docs derives name fields :: rest) ∧
          List.Forall₂ ((SchemaView.mk w s).Boxes t) (w.effectiveProperties t) fields) ∧
    ∀ t, ¬TransGen (w.HoldsUnboxed derives) t t := by
  obtain ⟨hlayered, hflat⟩ := h.layered_flattened
  refine ⟨fun s t u e hs hu hkind he => ?_, fun t hcycle => ?_⟩
  · obtain ⟨items, hitems, hcode⟩ := backend_emitType_ok he
    obtain ⟨docs, name, fields, rest, rfl, hfields⟩ := typeItems_ok hkind hitems
    exact ⟨docs, name, fields, rest, hitems, hcode, hlayered.forall₂_boxes hfields⟩
  · obtain ⟨r, hfirst, hrest⟩ := TransGen.head'_iff.1 hcycle
    have hback : ReflTransGen w.Stores r t :=
      hrest.lift id fun _ _ hab => (hlayered.not_leads_back hab).1
    exact (hlayered.not_leads_back hfirst).2 hback

/-- Two structs that hold each other, one of them through a property of its interface. -/
def mutualSources : SourceTable :=
  [("a", { name := some "M", types := [
      .interface { name := some "I", properties := [{ name := some "a", typeText := some "A" }] },
      .struct { name := some "A", properties := [
        { name := some "b", typeText := some "B?" }, { name := some "c", typeText := some "C" }] },
      .struct { name := some "B", interfaces := ["I"] },
      .struct { name := some "C" }] })]

def mutualWorkspace : Workspace :=
  (({ primitives := [] } : Workspace).load mutualSources.reader ["a"]).workspace

/-- The struct for `A`. -/
def mutualItems : List RustItem :=
  [.struct ["Struct `A`"] [] "A"
    [{ name := "b", type := .option (.boxed (.path ["B"])) }, { name := "c", type := .path ["C"] }]]

theorem boxes_cut_cycles_mutual :
    Reached mutualWorkspace ∧
      ∃ s u, mutualWorkspace.schemas[0]? = some s ∧ mutualWorkspace.type? ⟨0, 1⟩ = some u ∧
        u.kind = .struct ∧
        (backend []).emitType ⟨mutualWorkspace, s⟩ ⟨0, 1⟩ u =
          .ok { code := RustItem.renderFile s.name mutualItems } ∧
        (∃ docs name fields rest, mutualItems = .struct docs [] name fields :: rest ∧
          List.Forall₂ ((SchemaView.mk mutualWorkspace s).Boxes ⟨0, 1⟩)
            (mutualWorkspace.effectiveProperties ⟨0, 1⟩) fields) ∧
        ¬TransGen (mutualWorkspace.HoldsUnboxed []) ⟨0, 1⟩ ⟨0, 1⟩ := by
  have hreached : Reached mutualWorkspace :=
    (Reached.empty [] {} none).load mutualSources.reader ["a"]
  have hfound : (mutualWorkspace.schemas[0]?.bind fun s =>
      (mutualWorkspace.type? ⟨0, 1⟩).map fun u => (u.kind,
        typeItems ⟨mutualWorkspace, s⟩ [] ⟨0, 1⟩ u, typeNotes ⟨mutualWorkspace, s⟩ ⟨0, 1⟩ u)) =
      some (.struct, .ok mutualItems, []) := by cbv
  obtain ⟨s, hs, hfound⟩ := Option.bind_eq_some_iff.1 hfound
  obtain ⟨u, hu, hfound⟩ := Option.map_eq_some_iff.1 hfound
  simp only [Prod.mk.injEq] at hfound
  obtain ⟨hkind, hitems, hnotes⟩ := hfound
  have hemit : (backend []).emitType ⟨mutualWorkspace, s⟩ ⟨0, 1⟩ u =
      .ok { code := RustItem.renderFile s.name mutualItems } := by
    rw [backend_emitType_of_ok hitems, hnotes]
    rfl
  obtain ⟨hemitted, hacyclic⟩ := boxes_cut_cycles hreached []
  obtain ⟨docs, name, fields, rest, heq, -, hfields⟩ :=
    hemitted s ⟨0, 1⟩ u _ hs hu (.inr hkind) hemit
  exact ⟨hreached, s, u, hs, hu, hkind, hemit,
    ⟨docs, name, fields, rest, Except.ok.inj (hitems.symm.trans heq), hfields⟩, hacyclic ⟨0, 1⟩⟩

end SchemaGraph
