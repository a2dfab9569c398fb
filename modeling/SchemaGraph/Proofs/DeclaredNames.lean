import SchemaGraph.Proofs.Declaring
import SchemaGraph.Proofs.Publication

/-!
The names that published schemas declare. A declaration is refused unless all its names are
identifiers that are not reserved; resolution leaves the names as they are, and what is reserved is
the same in all workspaces that loads lead to from one.
-/

namespace SchemaGraph

variable {w w' : Workspace} {unit : SourceId} {declaration : Declaration} {s : Schema}

theorem Workspace.Permits.publish {name : String} (h : w.Permits name) (s : Schema) :
    (w.publish s).Permits name :=
  ⟨h.isIdentifier, h.notReserved⟩

/-- All names in a type are permitted, and the elements of an enum have different ones. -/
structure UserType.Permitted {β ι τ : Type} (w : Workspace) (t : UserType β ι τ) : Prop where
  name : w.Permits t.name
  properties : ∀ p ∈ t.properties, w.Permits p.name
  elements : ∀ e, t.body = .enum e → ∀ x ∈ e.elements, w.Permits x.name
  nodup_elements : ∀ e, t.body = .enum e → (e.elements.map EnumElement.name).Nodup

structure SchemaOf.Permitted {β ι τ : Type} (w : Workspace) (s : SchemaOf β ι τ) : Prop where
  name : w.Permits s.name
  types : ∀ t ∈ s.types, t.Permitted w

/-! ### Drafts -/

namespace Drafting

variable {type schemaNamespace name : String} {d : DraftType}

theorem draftProperty_permits {done : List (Property TypeBinding)} {p : Declaration.Property}
    {q : Property TypeBinding} (h : draftProperty w unit type done p = .ok q) :
    w.Permits q.name := by
  rw [draftProperty] at h
  obtain ⟨name, hname, h⟩ := bind_eq_ok.1 h
  obtain ⟨-, h⟩ := check_eq_ok.1 h
  obtain ⟨text, -, h⟩ := bind_eq_ok.1 h
  obtain ⟨expr, -, h⟩ := bind_eq_ok.1 h
  obtain rfl := pure_eq_ok.1 h
  exact (properName_eq_ok.1 hname).permits

/-- The property is drawn up from a declared one of the type. -/
def Drawn (w : Workspace) (unit : SourceId) (type : String) (q : Property TypeBinding) : Prop :=
  ∃ done p, draftProperty w unit type done p = .ok q

theorem draftProperties_drawn {ps : List Declaration.Property} {qs : List (Property TypeBinding)}
    (h : draftProperties w unit type ps = .ok qs) : ∀ q ∈ qs, Drawn w unit type q :=
  inOrder_forall (fun done p _ hq => ⟨done, p, hq⟩) h

theorem draftElement_ok {low high : Int} {done : List EnumElement} {e : Declaration.Element}
    {x : EnumElement} (h : draftElement w unit type low high done e = .ok x) :
    w.Permits x.name ∧ x.name ∉ done.map EnumElement.name := by
  rw [draftElement] at h
  obtain ⟨name, hname, h⟩ := bind_eq_ok.1 h
  obtain ⟨hfresh, h⟩ := check_eq_ok.1 h
  obtain ⟨written, -, h⟩ := bind_eq_ok.1 h
  split at h
  · contradiction
  · obtain ⟨-, h⟩ := check_eq_ok.1 h
    obtain rfl := pure_eq_ok.1 h
    exact ⟨(properName_eq_ok.1 hname).permits, hfresh⟩

theorem draftElements_ok {low high : Int} {es : List Declaration.Element} {xs : List EnumElement}
    (h : inOrder (draftElement w unit type low high) es = .ok xs) :
    (∀ x ∈ xs, w.Permits x.name) ∧ (xs.map EnumElement.name).Nodup := by
  refine ⟨inOrder_forall (fun _ _ _ hx => (draftElement_ok hx).1) h, ?_⟩
  refine inOrder_induction (P := fun xs => (xs.map EnumElement.name).Nodup) List.nodup_nil ?_ h
  intro done e x hdone hx
  rw [List.map_append, List.map_singleton, ← List.concat_eq_append]
  exact List.Nodup.concat (draftElement_ok hx).2 hdone

theorem Draws.drawn (h : Draws w unit schemaNamespace name d) :
    (∀ q ∈ d.properties, Drawn w unit name q) ∧
      ∀ e, d.body = .enum e →
        (∀ x ∈ e.elements, w.Permits x.name) ∧ (e.elements.map EnumElement.name).Nodup := by
  have hbody := h.body
  obtain ⟨dname, ns, kind, body, metadata⟩ := d
  cases hbody with
  | composite _ _ hproperties _ =>
      exact ⟨draftProperties_drawn hproperties, fun e he => by cases he⟩
  | enum _ helements =>
      refine ⟨fun _ hq => (List.not_mem_nil hq).elim, ?_⟩
      rintro _ ⟨⟩
      exact draftElements_ok helements

theorem Draws.permitted (h : Draws w unit schemaNamespace name d) (hname : w.Permits name) :
    d.Permitted w := by
  obtain ⟨hproperties, helements⟩ := h.drawn
  refine ⟨by rwa [h.name], fun q hq => ?_, fun e he => (helements e he).1,
    fun e he => (helements e he).2⟩
  obtain ⟨done, p, hdraws⟩ := hproperties q hq
  exact draftProperty_permits hdraws

end Drafting

theorem Declaration.DraftsTo.permitted {d : Draft} (h : declaration.DraftsTo w unit d) :
    d.Permitted w := by
  refine ⟨h.name.permits, fun t ht => ?_⟩
  obtain ⟨decl, -, name, hname, hbody⟩ := exists_of_forall₂_right h.types ht
  exact (Drafting.draws_of_draftBody hbody).permitted hname.permits

/-! ### Published schemas -/

theorem DraftType.ResolvesTo.permitted {d : Draft} {t : DraftType} {l : LinkedType}
    (h : t.ResolvesTo w d l) (ht : UserType.Permitted w t) : l.Permitted w := by
  obtain ⟨name, ns, kind, body, metadata⟩ := t
  obtain ⟨name', ns', kind', body', metadata'⟩ := l
  obtain ⟨rfl, rfl, rfl, rfl, hbody⟩ := h
  obtain ⟨hname, hproperties, helements, hnodup⟩ := ht
  cases hbody with
  | enum e =>
      refine ⟨hname, nofun, ?_, ?_⟩
      · rintro _ ⟨⟩
        exact helements e rfl
      · rintro _ ⟨⟩
        exact hnodup e rfl
  | @composite c l hl =>
      refine ⟨hname, fun q hq => ?_, nofun, nofun⟩
      obtain ⟨p, hp, hresolves⟩ := exists_of_forall₂_right hl.properties hq
      rw [hresolves.name]
      exact hproperties p hp

theorem Compiles.permitted (h : Compiles w unit declaration s w') :
    s.toSchemaOf.Permitted w := by
  obtain ⟨draft, hdraft, hlinked⟩ := h.exists_draft
  have hpermitted := (Draft.ofDeclaration_eq_ok.1 hdraft).permitted
  refine ⟨hlinked.name ▸ hpermitted.name, fun t ht => ?_⟩
  obtain ⟨d, hd, hresolves⟩ := exists_of_forall₂_right hlinked.types ht
  exact DraftType.ResolvesTo.permitted hresolves (hpermitted.types d hd)

theorem SchemaOf.Permitted.publish {β ι τ : Type} {u : SchemaOf β ι τ} (h : u.Permitted w)
    (s : Schema) : u.Permitted (w.publish s) := by
  refine ⟨h.name.publish s, fun t ht => ?_⟩
  obtain ⟨hname, hproperties, helements, hnodup⟩ := h.types t ht
  exact ⟨hname.publish s, fun p hp => (hproperties p hp).publish s,
    fun e he x hx => (helements e he x hx).publish s, hnodup⟩

theorem Reached.permitted (h : Reached w) : ∀ s ∈ w.schemas, s.toSchemaOf.Permitted w := by
  refine h.induction (P := fun w => ∀ s ∈ w.schemas, s.toSchemaOf.Permitted w) (by simp) ?_
  intro w unit declaration s w' hw hcompiles t ht
  rw [hcompiles.eq_publish] at ht ⊢
  rcases List.mem_append.1 ht with ht | ht
  · exact (hw t ht).publish s
  · obtain rfl := List.mem_singleton.1 ht
    exact hcompiles.permitted.publish t

theorem Reached.permitted_type (h : Reached w) {r : TypeRef} {t : LinkedType}
    (ht : w.type? r = some t) : t.Permitted w := by
  obtain ⟨s, hs, ht⟩ := Option.bind_eq_some_iff.1 ht
  exact (h.permitted s (List.mem_of_getElem? hs)).types t (List.mem_of_getElem? ht)

end SchemaGraph
