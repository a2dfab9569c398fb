import SchemaGraph.Proofs.DepthFirst
import SchemaGraph.Proofs.TypeGraph

/-!
The supertypes of published types. A type extends itself, its base and interfaces, and whatever
those extend. Bases are of the kind of the type and never interfaces, interfaces have none, and no
type extends one that extends it, so that the supertypes can be descended.
-/

namespace SchemaGraph

open Relation

namespace Workspace

variable (w : Workspace)

abbrev base? : TypeRef → Option TypeRef := TypeLookup.base? w.type?

abbrev interfacesOf : TypeRef → List TypeRef := TypeLookup.interfacesOf w.type?

abbrev supertypes : TypeRef → List TypeRef := TypeLookup.supertypes w.type?

/-- A handle extends itself and whatever its supertypes extend. -/
def Extends : TypeRef → TypeRef → Prop := ReflTransGen (Leads w.supertypes)

/-- From any handle the supertypes can be followed only finitely far. -/
def Descends : Prop := WellFounded (flip (Leads w.supertypes))

end Workspace

namespace TypeLookup

variable {look look' : TypeLookup} {r x : TypeRef}

theorem base?_eq_some : look.base? r = some x ↔
    ∃ t c, look r = some t ∧ t.body = .composite c ∧ c.base = some x := by
  rw [base?, composite?]
  cases look r with
  | none => simp
  | some t =>
      obtain ⟨_, _, _, body, _⟩ := t
      cases body <;> simp [UserType.composite?]

theorem mem_interfacesOf : x ∈ look.interfacesOf r ↔
    ∃ t c, look r = some t ∧ t.body = .composite c ∧ x ∈ c.interfaces := by
  rw [interfacesOf, composite?]
  cases look r with
  | none => simp
  | some t =>
      obtain ⟨_, _, _, body, _⟩ := t
      cases body <;> simp [UserType.composite?]

section OfBody

variable {t : LinkedType} (ht : look r = some t)

include ht

theorem composite?_eq_none {e : EnumBody} (hbody : t.body = .enum e) :
    look.composite? r = none := by
  rw [composite?, ht, Option.bind_some, UserType.composite?, hbody]

theorem composite?_eq {c : LinkedComposite} (hbody : t.body = .composite c) :
    look.composite? r = some c := by
  rw [composite?, ht, Option.bind_some, UserType.composite?_eq_some.2 hbody]

theorem base?_eq {c : LinkedComposite} (hbody : t.body = .composite c) :
    look.base? r = c.base := by
  rw [base?, composite?_eq ht hbody, Option.bind_some]

theorem interfacesOf_eq {c : LinkedComposite} (hbody : t.body = .composite c) :
    look.interfacesOf r = c.interfaces := by
  rw [interfacesOf, composite?_eq ht hbody, Option.map_some, Option.getD_some]

end OfBody

theorem mem_supertypes : x ∈ look.supertypes r ↔ look.base? r = some x ∨ x ∈ look.interfacesOf r := by
  simp [supertypes, eq_comm]

section Nothing

variable (h : look.composite? r = none)

include h

theorem base?_eq_none : look.base? r = none := by
  rw [base?, h, Option.bind_none]

theorem interfacesOf_eq_nil : look.interfacesOf r = [] := by
  rw [interfacesOf, h]
  rfl

theorem properties_eq_nil : look.properties r = [] := by
  rw [composite?] at h
  rw [properties]
  cases ht : look r with
  | none => rfl
  | some t =>
      rw [ht, Option.bind_some] at h
      simp [UserType.properties, h]

end Nothing

/-- The supertypes of a handle depend on its type alone. -/
theorem supertypes_congr (h : look r = look' r) : look.supertypes r = look'.supertypes r := by
  simp only [supertypes, base?, interfacesOf, composite?, h]

end TypeLookup

namespace Workspace

variable {w : Workspace} {r b x : TypeRef}

/-! ### Kinds of supertypes -/

theorem Sound.userType (hw : w.Sound) (hposition : w.Positioned) {t : LinkedType}
    (ht : w.type? r = some t) : t.Sound w r.schema := by
  obtain ⟨s, hs, hget⟩ := Option.bind_eq_some_iff.1 ht
  rw [← hposition r.schema s hs]
  exact hw s (List.mem_of_getElem? hs) t (List.mem_of_getElem? hget)

theorem Sound.composite (hw : w.Sound) (hposition : w.Positioned) {t : LinkedType}
    (ht : w.type? r = some t) {c : LinkedComposite} (hbody : t.body = .composite c) :
    c.Sound w r.schema t.kind :=
  (hw.userType hposition ht).composite c hbody

/-- What the soundness of a workspace says about the edges between its types. -/
structure WellTyped (w : Workspace) : Prop where
  base : ∀ r b, w.base? r = some b →
    ∃ kind, (kind = .entity ∨ kind = .struct) ∧ w.HasType r.schema r kind ∧
      w.HasType r.schema b kind
  interfaces : ∀ r, ∀ i ∈ w.interfacesOf r, w.HasType r.schema i .interface

theorem Sound.wellTyped (hw : w.Sound) (hposition : w.Positioned) : w.WellTyped := by
  refine ⟨fun r b hb => ?_, fun r i hi => ?_⟩
  · obtain ⟨t, c, ht, hbody, hbase⟩ := TypeLookup.base?_eq_some.1 hb
    obtain ⟨hkind, htype⟩ := (hw.composite hposition ht hbody).base b hbase
    exact ⟨t.kind, hkind, ⟨Nat.le_refl _, t, ht, rfl⟩, htype⟩
  · obtain ⟨t, c, ht, hbody, hmem⟩ := TypeLookup.mem_interfacesOf.1 hi
    exact (hw.composite hposition ht hbody).interfaces i hmem

theorem HasType.kind_unique {bound bound' : SchemaKey} {k k' : TypeKind}
    (h : w.HasType bound r k) (h' : w.HasType bound' r k') : k = k' := by
  obtain ⟨-, t, ht, rfl⟩ := h
  obtain ⟨-, t', ht', rfl⟩ := h'
  rw [Option.some.inj (ht.symm.trans ht')]

theorem extends_of_bases (h : ReflTransGen (fun a b => w.base? a = some b) r x) :
    w.Extends r x :=
  h.lift id fun _ _ hab => TypeLookup.mem_supertypes.2 (.inl hab)

theorem extends_of_interfaces (h : ReflTransGen (Leads w.interfacesOf) r x) : w.Extends r x :=
  h.lift id fun _ _ hab => TypeLookup.mem_supertypes.2 (.inr hab)

namespace WellTyped

theorem hasType_of_supertype (hw : w.WellTyped) (hx : x ∈ w.supertypes r) :
    ∃ k, w.HasType r.schema x k := by
  rcases TypeLookup.mem_supertypes.1 hx with hb | hi
  · obtain ⟨kind, -, -, hx⟩ := hw.base r x hb
    exact ⟨kind, hx⟩
  · exact ⟨.interface, hw.interfaces r x hi⟩

theorem base?_of_interface (hw : w.WellTyped) {bound : SchemaKey}
    (hr : w.HasType bound r .interface) : w.base? r = none := by
  cases hb : w.base? r with
  | none => rfl
  | some b =>
      obtain ⟨kind, hkind, hr', -⟩ := hw.base r b hb
      obtain rfl := hr'.kind_unique hr
      simp at hkind

theorem supertypes_of_interface (hw : w.WellTyped) {bound : SchemaKey}
    (hr : w.HasType bound r .interface) : w.supertypes r = w.interfacesOf r := by
  show (w.base? r).toList ++ w.interfacesOf r = _
  rw [hw.base?_of_interface hr]
  rfl

/-- An interface extends only what it reaches through interfaces. -/
theorem extends_interface_iff (hw : w.WellTyped) {bound : SchemaKey}
    (hr : w.HasType bound r .interface) :
    w.Extends r x ↔ ReflTransGen (Leads w.interfacesOf) r x := by
  constructor
  · intro h
    suffices hboth : ReflTransGen (Leads w.interfacesOf) r x ∧
        ∃ bound, w.HasType bound x .interface from hboth.1
    induction h with
    | refl => exact ⟨.refl, bound, hr⟩
    | tail _ hbc ih =>
        obtain ⟨hrb, bound', hb⟩ := ih
        rw [Leads, hw.supertypes_of_interface hb] at hbc
        exact ⟨hrb.tail hbc, _, hw.interfaces _ _ hbc⟩
  · exact extends_of_interfaces

/-- What is not an interface has the interfaces that it extends from one of its bases, or itself. -/
theorem interface_of_extends (hw : w.WellTyped) {bound : SchemaKey} (hx : w.HasType bound x .interface)
    (hr : ∀ bound, ¬w.HasType bound r .interface) (h : w.Extends r x) :
    ∃ b, ReflTransGen (fun a b => w.base? a = some b) r b ∧
      ∃ i ∈ w.interfacesOf b, ReflTransGen (Leads w.interfacesOf) i x := by
  induction h using ReflTransGen.head_induction_on with
  | refl => exact absurd hx (hr bound)
  | @head a c hac hcx ih =>
      rcases TypeLookup.mem_supertypes.1 hac with hbase | hinterface
      · obtain ⟨kind, hkind, -, hc⟩ := hw.base a c hbase
        obtain ⟨b, hb, hix⟩ := ih fun bound hcinterface => by
          obtain rfl := hc.kind_unique hcinterface
          simp at hkind
        exact ⟨b, hb.head hbase, hix⟩
      · refine ⟨a, .refl, c, hinterface, ?_⟩
        exact (hw.extends_interface_iff (hw.interfaces a c hinterface)).1 hcx

end WellTyped

theorem extends_iff : w.Extends r x ↔ x = r ∨ (∃ b, w.base? r = some b ∧ w.Extends b x) ∨
    ∃ i ∈ w.interfacesOf r, w.Extends i x := by
  rw [Extends, ReflTransGen.cases_head_iff]
  simp only [Leads, TypeLookup.mem_supertypes, eq_comm]
  constructor
  · rintro (h | ⟨b, hb | hi, hbx⟩)
    · exact .inl h
    · exact .inr (.inl ⟨b, hb, hbx⟩)
    · exact .inr (.inr ⟨b, hi, hbx⟩)
  · rintro (h | ⟨b, hb, hbx⟩ | ⟨i, hi, hix⟩)
    · exact .inl h
    · exact .inr ⟨b, .inl hb, hbx⟩
    · exact .inr ⟨i, .inr hi, hix⟩

/-- No supertype of a type that a handle extends is the handle itself. -/
theorem Descends.not_mem_supertypes (hw : w.Descends) (h : w.Extends r x) :
    r ∉ w.supertypes x := by
  intro hr
  exact not_transGen_self (hw.apply r) (TransGen.tail' h hr)

end Workspace

theorem Scope.mem_ownSupertypes {s : Scope} {i j : Nat} :
    j ∈ s.ownSupertypes i ↔ ⟨s.unit.key, j⟩ ∈ s.supertypes ⟨s.unit.key, i⟩ := by
  rw [ownSupertypes]
  simp only [List.mem_map, List.mem_filter, decide_eq_true_eq]
  constructor
  · rintro ⟨⟨key, k⟩, ⟨hmem, rfl⟩, rfl⟩
    exact hmem
  · exact fun hmem => ⟨⟨s.unit.key, j⟩, ⟨hmem, rfl⟩, rfl⟩

theorem Scope.type?_own {s : Scope} {r : TypeRef} (h : r.schema = s.unit.key) :
    s.type? r = s.unit.types[r.index]? :=
  if_pos h

theorem Scope.type?_published {s : Scope} {r : TypeRef} (h : r.schema ≠ s.unit.key) :
    s.type? r = s.workspace.type? r :=
  if_neg h

theorem Scope.mem_range_of_ownSupertypes {s : Scope} (i j : Nat) (hij : j ∈ s.ownSupertypes i) :
    i ∈ List.range s.unit.types.length := by
  have htype : ∃ t, s.type? ⟨s.unit.key, i⟩ = some t := by
    rcases TypeLookup.mem_supertypes.1 (mem_ownSupertypes.1 hij) with hb | hi
    · obtain ⟨t, -, ht, -⟩ := TypeLookup.base?_eq_some.1 hb
      exact ⟨t, ht⟩
    · obtain ⟨t, -, ht, -⟩ := TypeLookup.mem_interfacesOf.1 hi
      exact ⟨t, ht⟩
  obtain ⟨t, ht⟩ := htype
  rw [type?_own rfl] at ht
  exact List.mem_range.2 (List.getElem?_eq_some_iff.1 ht).1

/-- A unit is found to have no cycle if and only if none of its types extends itself. -/
theorem Scope.hierarchyCycle?_eq_none_iff {s : Scope} :
    s.hierarchyCycle? = none ↔ ∀ i, ¬TransGen (Leads s.ownSupertypes) i i :=
  DepthFirst.cycle?_eq_none_iff mem_range_of_ownSupertypes

/-! ### Publishing a unit -/

section Publishing

variable {w : Workspace} {s : Schema}

/-- What finishing a unit sees of the types is what the workspace shows when it is published. -/
theorem Scope.type?_eq_publish (hkey : s.key = w.nextKey) :
    (Scope.mk w s.toSchemaOf).type? = (w.publish s).type? := by
  funext r
  rw [Scope.type?]
  by_cases heq : r.schema = w.nextKey
  · rw [if_pos (heq.trans hkey.symm), Workspace.type?_publish_of_eq s heq]
  · rw [if_neg (fun hr => heq (hr.trans hkey)), Workspace.type?_publish_of_ne s heq]

theorem Scope.refs_eq_publish : (Scope.mk w s.toSchemaOf).refs = (w.publish s).refs := by
  simp [Scope.refs, Workspace.refs, Workspace.publish]

namespace Workspace

/-- Handles of earlier schemas have the supertypes they had. -/
theorem supertypes_publish {r : TypeRef} (hr : r.schema ≠ w.nextKey) :
    (w.publish s).supertypes r = w.supertypes r :=
  TypeLookup.supertypes_congr (Workspace.type?_publish_of_ne s hr)

theorem mem_ownSupertypes_publish (hkey : s.key = w.nextKey) {i j : Nat} :
    j ∈ (Scope.mk w s.toSchemaOf).ownSupertypes i ↔
      (⟨w.nextKey, j⟩ : TypeRef) ∈ (w.publish s).supertypes ⟨w.nextKey, i⟩ := by
  rw [Scope.mem_ownSupertypes, Scope.supertypes, Scope.type?_eq_publish hkey, ← hkey]

/-- Handles outside the new schema can be descended from as before. -/
theorem Descends.acc_publish (hdescends : w.Descends) (hw : w.WellTyped) {r : TypeRef}
    (hr : r.schema ≠ w.nextKey) : Acc (flip (Leads (w.publish s).supertypes)) r := by
  -- The supertypes of such a handle are those it had, and outside the new schema as well.
  induction r using hdescends.induction with
  | _ r ih =>
      refine Acc.intro r fun x hx => ?_
      have hx' : x ∈ w.supertypes r := by
        rw [← supertypes_publish hr]
        exact hx
      obtain ⟨k, -, t, ht, -⟩ := hw.hasType_of_supertype hx'
      exact ih x hx' (Nat.ne_of_lt (Workspace.lt_nextKey_of_type? ht))

/-- The types of a unit without a cycle, in an order that puts each after its supertypes. -/
theorem exists_ordered_publish (hkey : s.key = w.nextKey)
    (hcycle : (Scope.mk w s.toSchemaOf).hierarchyCycle? = none) :
    ∃ rs, (∀ r t, r.schema = w.nextKey → (w.publish s).type? r = some t → r ∈ rs) ∧
      Ordered (w.publish s).supertypes rs := by
  obtain ⟨is, his, hordered⟩ := DepthFirst.exists_ordered_of_cycle? hcycle
  refine ⟨is.map (TypeRef.mk w.nextKey), ?_, fun r hr => ?_, ?_⟩
  · rintro ⟨key, i⟩ t rfl ht
    rw [Workspace.type?_publish_of_eq s rfl] at ht
    exact List.mem_map_of_mem ((his i).2 (List.mem_range.2 (List.getElem?_eq_some_iff.1 ht).1))
  · obtain ⟨i, hi, rfl⟩ := List.mem_map.1 hr
    rw [← mem_ownSupertypes_publish hkey]
    exact hordered.not_self i hi
  · rw [List.pairwise_map]
    refine hordered.not_later.imp fun hij => ?_
    rwa [← mem_ownSupertypes_publish hkey]

/-- Supertypes can be descended after a unit without a cycle has been published. -/
theorem Descends.publish (hdescends : w.Descends) (hw : w.WellTyped)
    (hw' : (w.publish s).WellTyped) (hkey : s.key = w.nextKey)
    (hcycle : (Scope.mk w s.toSchemaOf).hierarchyCycle? = none) : (w.publish s).Descends := by
  obtain ⟨rs, hrs, hordered⟩ := exists_ordered_publish hkey hcycle
  have hsupertype : ∀ r x, x ∈ (w.publish s).supertypes r →
      x ∈ rs ∨ Acc (flip (Leads (w.publish s).supertypes)) x := by
    intro r x hx
    obtain ⟨k, -, t, ht, -⟩ := hw'.hasType_of_supertype hx
    by_cases hkey : x.schema = w.nextKey
    · exact .inl (hrs x t hkey ht)
    · exact .inr (hdescends.acc_publish hw hkey)
  have hnew := hordered.acc fun r _ x hx => hsupertype r x hx
  exact ⟨fun r => Acc.intro r fun x hx => (hsupertype r x hx).elim (hnew x) id⟩

end Workspace

end Publishing

namespace Compiles

variable {w w' : Workspace} {unit : SourceId} {declaration : Declaration} {s : Schema}

theorem scope_type? (h : Compiles w unit declaration s w') :
    (Scope.mk w s.toSchemaOf).type? = w'.type? := by
  rw [h.eq_publish, Scope.type?_eq_publish h.key_eq]

theorem scope_refs (h : Compiles w unit declaration s w') :
    (Scope.mk w s.toSchemaOf).refs = w'.refs := by
  rw [h.eq_publish, Scope.refs_eq_publish]

theorem supertypes_eq (h : Compiles w unit declaration s w') {r : TypeRef}
    (hr : r.schema ≠ w.nextKey) : w'.supertypes r = w.supertypes r := by
  rw [h.eq_publish, Workspace.supertypes_publish hr]

/-- A unit that is compiled has no cycle in its hierarchy. -/
theorem hierarchyCycle?_eq (h : Compiles w unit declaration s w') :
    (Scope.mk w s.toSchemaOf).hierarchyCycle? = none :=
  (Linked.finish_ok h.finish_eq).2.1

end Compiles

/-! ### Layered workspaces -/

/-- A workspace in which types can be followed upwards: handles lead where they should, and
supertypes can be descended. -/
structure Workspace.Layered (w : Workspace) : Prop where
  indexed : w.Indexed
  sound : w.Sound
  descends : w.Descends

/-- What following types upwards asks of a workspace, whatever its sources and names lead to. -/
structure Workspace.Navigable (w : Workspace) : Prop where
  positioned : w.Positioned
  sound : w.Sound
  descends : w.Descends

theorem Workspace.Navigable.wellTyped {w : Workspace} (h : w.Navigable) : w.WellTyped :=
  h.sound.wellTyped h.positioned

theorem Workspace.Layered.navigable {w : Workspace} (h : w.Layered) : w.Navigable :=
  ⟨h.indexed.positioned, h.sound, h.descends⟩

theorem Workspace.Layered.wellTyped {w : Workspace} (h : w.Layered) : w.WellTyped :=
  h.navigable.wellTyped

theorem Workspace.Layered.agrees {w : Workspace} {r : TypeRef} {t : LinkedType} (h : w.Layered)
    (ht : w.type? r = some t) : t.Agrees :=
  (h.sound.userType h.indexed.positioned ht).agrees

/-- A unit without a cycle can be followed upwards as if it were published, also if its source or
its name is taken. -/
theorem Linked.DraftedIn.navigable {w : Workspace} {s : Schema} (hw : w.Layered)
    (h : Linked.DraftedIn w s.toSchemaOf)
    (hcycle : (Scope.mk w s.toSchemaOf).hierarchyCycle? = none) : (w.publish s).Navigable := by
  have hsound := hw.sound.publish hw.indexed h
  have hpositioned := hw.indexed.positioned.publish h.key_eq
  exact ⟨hpositioned, hsound,
    hw.descends.publish hw.wellTyped (hsound.wellTyped hpositioned) h.key_eq hcycle⟩

theorem Compiles.layered {w w' : Workspace} {unit : SourceId} {declaration : Declaration}
    {s : Schema} (h : Compiles w unit declaration s w') (hw : w.Layered) : w'.Layered := by
  have hnavigable := h.draftedIn.navigable hw h.hierarchyCycle?_eq
  rw [← h.eq_publish] at hnavigable
  exact ⟨h.indexed hw.indexed, hnavigable.sound, hnavigable.descends⟩

theorem Workspace.layered_empty (primitives : PrimitiveTable) (containers : ContainerCatalog)
    (enumDefault : Option PrimitiveId) :
    Workspace.Layered { primitives, containers, enumDefault } := by
  refine ⟨(Reached.empty primitives containers enumDefault).indexed, by simp [Sound], ?_⟩
  refine ⟨fun r => Acc.intro r fun x hx => ?_⟩
  rcases TypeLookup.mem_supertypes.1 hx with hb | hi
  · obtain ⟨t, _, ht, -⟩ := TypeLookup.base?_eq_some.1 hb
    simp [type?] at ht
  · obtain ⟨t, _, ht, -⟩ := TypeLookup.mem_interfacesOf.1 hi
    simp [type?] at ht

end SchemaGraph
