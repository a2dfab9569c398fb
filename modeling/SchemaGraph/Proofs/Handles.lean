import SchemaGraph.Proofs.Declaring
import SchemaGraph.Proofs.EntityKeys
import SchemaGraph.Proofs.Imports
import SchemaGraph.Proofs.Renaming
import SchemaGraph.Setup

/-!
Where handles and positions lead. Whatever a published schema holds is the handle of a published
type, the key of a published schema or the position of a primitive, and so is whatever a unit holds
that is about to join them. That a unit may still be refused makes no difference: its references
have been resolved, and that is all its handles depend on.
-/

namespace SchemaGraph

open Relation

/-! ### Readable types -/

/-- All positions of primitives and all handles in a type lead somewhere. -/
def DataType.Readable (primitives : PrimitiveTable) (look : TypeLookup) : DataType → Prop
  | .primitive id => id < primitives.length
  | .generic _ | .void => True
  | .container _ key value =>
    (∀ id, key = some id → id < primitives.length) ∧ value.Readable primitives look
  | .entity r | .struct r | .interface r | .enum r => (look r).isSome

structure UserType.Readable (primitives : PrimitiveTable) (look : TypeLookup) (t : LinkedType) :
    Prop where
  properties : ∀ p ∈ t.properties, p.type.Readable primitives look
  underlying : ∀ e, t.body = .enum e → e.underlying < primitives.length

section Growth

variable {primitives : PrimitiveTable} {look look' : TypeLookup}
  (hgrows : ∀ r t, look r = some t → look' r = some t)

include hgrows

theorem DataType.Readable.grow {t : DataType} (h : t.Readable primitives look) :
    t.Readable primitives look' := by
  have hhandle : ∀ r, (look r).isSome → (look' r).isSome := fun r hr => by
    obtain ⟨t, ht⟩ := Option.isSome_iff_exists.1 hr
    exact Option.isSome_iff_exists.2 ⟨t, hgrows r t ht⟩
  induction t with
  | primitive id => exact h
  | generic shape => trivial
  | void => trivial
  | container shape key value ih => exact ⟨h.1, ih h.2⟩
  | entity r | struct r | interface r | enum r => exact hhandle r h

theorem UserType.Readable.grow {t : LinkedType} (h : t.Readable primitives look) :
    t.Readable primitives look' :=
  ⟨fun p hp => (h.properties p hp).grow hgrows, h.underlying⟩

end Growth

/-! ### Resolved references -/

theorem Workspace.HasType.isSome {w : Workspace} {bound : SchemaKey} {r : TypeRef} {k : TypeKind}
    (h : w.HasType bound r k) : (w.type? r).isSome := by
  obtain ⟨-, t, ht, -⟩ := h
  exact Option.isSome_iff_exists.2 ⟨t, ht⟩

theorem DataType.Nameable.readable {w : Workspace} {bound : SchemaKey} {t : DataType}
    (h : t.Nameable w bound) : t.Readable w.primitives w.type? := by
  cases h with
  | primitive hid => exact hid
  | void => trivial
  | @userType r k h => cases k <;> exact h.isSome

theorem Resolution.resolveExpr_readable {w w' : Workspace} {d : Draft} (hw : d.NamesOnly w w')
    {s : Site} {e : TypeExpr} {t : DataType} (h : resolveExpr w d s e = .ok t) :
    t.Readable w'.primitives w'.type? := by
  cases e with
  | named path => exact (resolvePath_ok hw (resolveValue_eq_ok.1 h).1).readable
  | container shape key value =>
      rw [resolveExpr] at h
      obtain ⟨key', hkey, h⟩ := bind_eq_ok.1 h
      obtain ⟨v, hv, h⟩ := bind_eq_ok.1 h
      obtain rfl := pure_eq_ok.1 h
      refine ⟨fun id hid => ?_, (resolvePath_ok hw (resolveValue_eq_ok.1 hv).1).readable⟩
      -- A key that is kept is the one that was resolved.
      have hkey' : key' = some id := by
        split at hid
        · exact hid
        · contradiction
      subst hkey'
      cases optionMapM_eq_ok.1 hkey with
      | some hid =>
          obtain ⟨-, p, hp, -⟩ := resolveMapKey_eq_ok.1 hid
          rw [hw.primitives]
          exact (List.getElem?_eq_some_iff.1 hp).1

/-! ### Drafted units -/

theorem Drafting.lt_of_enumUnderlying {w : Workspace} {unit : SourceId} {type : String}
    {text : Option String} {underlying : PrimitiveId} {low high : Int}
    (h : enumUnderlying w unit type text = .ok (underlying, low, high)) :
    underlying < w.primitives.length := by
  unfold enumUnderlying at h
  simp only at h
  split at h
  · rename_i found hrange
    obtain rfl := Except.ok.inj h
    obtain ⟨id, -, hid⟩ := Option.bind_eq_some_iff.1 hrange
    obtain ⟨range, hrange, heq⟩ := Option.map_eq_some_iff.1 hid
    obtain ⟨p, hp, -⟩ := Option.bind_eq_some_iff.1 hrange
    obtain ⟨rfl, -⟩ := Prod.mk.inj heq
    exact (List.getElem?_eq_some_iff.1 hp).1
  · contradiction

theorem Drafting.Draws.underlying {w : Workspace} {unit : SourceId} {schemaNamespace type : String}
    {t : DraftType} (h : Draws w unit schemaNamespace type t) {e : EnumBody}
    (he : t.body = .enum e) : e.underlying < w.primitives.length := by
  obtain ⟨_, _, kind, body, _⟩ := t
  obtain rfl : body = .enum e := he
  cases h.body with
  | enum hunderlying _ => exact lt_of_enumUnderlying hunderlying

theorem Linked.DraftedIn.readable {w : Workspace} {s : Schema} (hw : w.Indexed)
    (h : Linked.DraftedIn w s.toSchemaOf) {t : LinkedType} (ht : t ∈ s.types) :
    t.Readable w.primitives (w.publish s).type? := by
  obtain ⟨unit, declaration, draft, hdraft, hu⟩ := h
  obtain ⟨u, hu', hresolves⟩ := exists_of_forall₂_right hu.types ht
  obtain ⟨name, ns, kind, body, metadata⟩ := t
  have hbody := hresolves.body
  cases body with
  | enum e =>
      refine ⟨by simp [UserType.properties, UserType.composite?], ?_⟩
      rintro e' ⟨⟩
      cases hubody : u.body with
      | enum e' =>
          rw [hubody] at hbody
          cases hbody with
          | enum => exact (Draft.draws_of_ofDeclaration hdraft u hu').underlying hubody
      | composite c =>
          rw [hubody] at hbody
          cases hbody
  | composite l =>
      refine ⟨fun p hp => ?_, by simp⟩
      obtain ⟨d, type, c, hkey, hd, hcwaits, hl⟩ :=
        Linked.DraftedIn.composite ⟨unit, declaration, draft, hdraft, hu⟩ ht rfl
      obtain ⟨q, hq, hresolved⟩ := exists_of_forall₂_right hl.properties hp
      obtain ⟨e, he, -⟩ := hcwaits.properties q hq
      exact Resolution.resolveExpr_readable (hd.namesOnly hw hkey) (hresolved.type e he)

/-! ### Units that are about to join -/

section Joining

variable {w : Workspace} {s : Schema} (hw : w.Layered) (h : Linked.DraftedIn w s.toSchemaOf)

include hw h

theorem Linked.DraftedIn.wellTyped : (w.publish s).WellTyped :=
  (hw.sound.publish hw.indexed h).wellTyped (hw.indexed.positioned.publish h.key_eq)

/-- Finishing a unit finds every supertype that it asks for. -/
theorem Linked.DraftedIn.grounded :
    TypeLookup.Grounded (Scope.mk w s.toSchemaOf).type? (Scope.mk w s.toSchemaOf).refs := by
  have hkey := h.key_eq
  refine ⟨Scope.mem_refs (s := ⟨w, s.toSchemaOf⟩) hw.indexed hkey, fun r x hx => ?_⟩
  rw [Scope.mem_refs (s := ⟨w, s.toSchemaOf⟩) hw.indexed hkey, Scope.type?_eq_publish hkey]
  rw [Scope.type?_eq_publish hkey] at hx
  obtain ⟨k, -, t, ht, -⟩ := (h.wellTyped hw).hasType_of_supertype hx
  exact ⟨t, ht⟩

/-- Without a cycle among the types of the unit, bases can be descended. -/
theorem Linked.DraftedIn.wellFounded_base
    (hcycle : (Scope.mk w s.toSchemaOf).hierarchyCycle? = none) :
    WellFounded fun b a => (Scope.mk w s.toSchemaOf).base? a = some b := by
  rw [Scope.base?, Scope.type?_eq_publish h.key_eq]
  exact (h.navigable hw hcycle).descends.wellFounded_base

end Joining

/-! ### Published types -/

/-- Whatever the published types hold leads somewhere. -/
def Workspace.Readable (w : Workspace) : Prop :=
  ∀ r t, w.type? r = some t → t.Readable w.primitives w.type?

theorem Workspace.Readable.publish {w : Workspace} {s : Schema} (hw : w.Readable)
    (hindexed : w.Indexed) (h : Linked.DraftedIn w s.toSchemaOf) : (w.publish s).Readable := by
  intro r t ht
  by_cases hr : r.schema = w.nextKey
  · rw [type?_publish_of_eq s hr] at ht
    exact h.readable hindexed (List.mem_of_getElem? ht)
  · rw [type?_publish_of_ne s hr] at ht
    exact (hw r t ht).grow fun _ _ => type?_publish s

/-! ### Imports -/

section Imports

variable {w : Workspace} {unit : SourceId}

theorem Declaration.Import.StandsFor.le {schema : String} {i : Declaration.Import}
    {entry : String × SchemaKey} (hw : w.Indexed) (h : i.StandsFor w unit schema entry) :
    entry.2 ≤ w.nextKey := by
  cases h with
  | self _ _ => exact Nat.le_refl _
  | published _ ht _ =>
      exact Nat.le_of_lt (List.getElem?_eq_some_iff.1 (hw.bySource?_eq_some.1 ht).1).1

/-- An alias of a draft stands for a published schema or for the one that the draft will become. -/
theorem Draft.imports_le {declaration : Declaration} {d : Draft} (hw : w.Indexed)
    (hd : Draft.ofDeclaration w unit declaration = .ok d) {i : String × SchemaKey}
    (hi : i ∈ d.imports) : i.2 ≤ w.nextKey := by
  obtain ⟨_, -, hi⟩ := exists_of_forall₂_right (Draft.ofDeclaration_eq_ok.1 hd).imports hi
  exact hi.le hw

theorem Linked.DraftedIn.imports_le {u : Linked} (hw : w.Indexed) (h : u.DraftedIn w)
    {i : String × SchemaKey} (hi : i ∈ u.imports) : i.2 ≤ w.nextKey := by
  obtain ⟨unit, declaration, draft, hdraft, hu⟩ := h
  rw [hu.imports] at hi
  exact draft.imports_le hw hdraft hi

end Imports

/-! ### Intact workspaces -/

/-- A workspace in which every position and every handle leads somewhere. -/
structure Workspace.Intact (w : Workspace) : Prop where
  layered : w.Layered
  flattened : w.Flattened
  keyed : w.Keyed
  readable : w.Readable
  imports : ∀ s ∈ w.schemas, ∀ i ∈ s.imports, i.2 < w.schemas.length
  enumDefault : ∀ id, w.enumDefault = some id → id < w.primitives.length

theorem PrimitiveTable.lookup?_lt {t : PrimitiveTable} {name : String} {id : PrimitiveId}
    (h : t.lookup? name = some id) : id < t.length :=
  (List.findIdx?_eq_some_iff_getElem.1 h).1

namespace Workspace.Intact

theorem empty {primitives : PrimitiveTable} (containers : ContainerCatalog)
    {enumDefault : Option PrimitiveId}
    (hdefault : ∀ id, enumDefault = some id → id < primitives.length) :
    Intact { primitives, containers, enumDefault } := by
  have hreached := Reached.empty primitives containers enumDefault
  obtain ⟨hlayered, hflattened⟩ := hreached.layered_flattened
  exact ⟨hlayered, hflattened, hreached.keyed, by simp [Readable, type?], by simp, hdefault⟩

/-- A workspace that has just been set up is intact. -/
theorem of_build {setup : Setup} {w : Workspace} (h : setup.build = .ok w) : w.Intact := by
  rw [Setup.build] at h
  obtain ⟨primitives, -, h⟩ := bind_eq_ok.1 h
  split at h
  · obtain rfl := pure_eq_ok.1 h
    exact empty _ fun _ hid => (List.findIdx?_eq_some_iff_getElem.1 hid).1
  · split at h
    · rename_i hlookup
      obtain rfl := pure_eq_ok.1 h
      refine empty _ fun id hid => ?_
      obtain rfl := Option.some.inj hid
      exact PrimitiveTable.lookup?_lt hlookup
    · contradiction

variable {w w' : Workspace}

theorem compiles {unit : SourceId} {declaration : Declaration} {s : Schema} (hw : w.Intact)
    (h : Compiles w unit declaration s w') : w'.Intact := by
  have hlayered := h.layered hw.layered
  have hflattened := h.flattened hw.layered hlayered hw.flattened
  have hkeyed := h.keyed hw.layered hlayered hw.keyed
  obtain rfl := h.eq_publish
  refine ⟨hlayered, hflattened, hkeyed, hw.readable.publish hw.layered.indexed h.draftedIn, ?_,
    hw.enumDefault⟩
  intro t ht i hi
  rw [publish, List.length_append, List.length_singleton, Nat.lt_succ_iff]
  rcases List.mem_append.1 ht with ht | ht
  · exact Nat.le_of_lt (hw.imports t ht i hi)
  · obtain rfl := List.mem_singleton.1 ht
    exact h.draftedIn.imports_le hw.layered.indexed hi

/-- Loads, those that fail included, leave a workspace intact. -/
theorem load (hw : w.Intact) (reader : SourceReader) (roots : List SourceId) :
    (w.load reader roots).workspace.Intact := by
  rcases (w.load_cases reader roots).1 with ⟨-, heq⟩ | ⟨_, -, -, hgrows, -⟩
  · rwa [heq]
  · exact hgrows.preserves (fun _ _ _ _ _ hw h => hw.compiles h) hw

end Workspace.Intact

end SchemaGraph
