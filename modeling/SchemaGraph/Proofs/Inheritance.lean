import SchemaGraph.Proofs.Supertypes

/-!
The effective properties of types. Those of a type are the own properties of everything it extends,
each once, and those of a supertype come before those of the types below it.

The list of a type starts with the list of its base. The interfaces that the base chain brings in
are passed over when the interfaces of the type are gathered, so that nothing comes twice.
-/

namespace SchemaGraph

open Relation

/-! ### Chains -/

/-- A whole chain, up to the item that nothing follows. -/
inductive Lineage {α : Type} (next : α → Option α) : α → List α → Prop
  | last {a : α} : next a = none → Lineage next a [a]
  | step {a b : α} {bs : List α} : next a = some b → Lineage next b bs → Lineage next a (a :: bs)

namespace Lineage

variable {α : Type} {next : α → Option α} {a : α} {as : List α}

theorem chain_eq (h : Lineage next a as) {n : Nat} (hlen : as.length ≤ n) :
    chain next n a = as := by
  induction h generalizing n with
  | last hnone =>
      obtain ⟨n, rfl⟩ := Nat.exists_eq_add_one_of_ne_zero (Nat.ne_zero_of_lt hlen)
      simp [chain, hnone]
  | step hsome _ ih =>
      obtain ⟨n, rfl⟩ := Nat.exists_eq_add_one_of_ne_zero (Nat.ne_zero_of_lt hlen)
      simp [chain, hsome, ih (Nat.le_of_succ_le_succ hlen)]

/-- A lineage depends only on what follows its own members. -/
theorem congr {next' : α → Option α} (h : Lineage next a as) (heq : ∀ b ∈ as, next' b = next b) :
    Lineage next' a as := by
  induction h with
  | last hnone => exact .last ((heq _ (by simp)).trans hnone)
  | step hsome _ ih =>
      refine .step ((heq _ (by simp)).trans hsome) (ih fun b hb => ?_)
      exact heq b (List.mem_cons_of_mem _ hb)

theorem reachable (h : Lineage next a as) {b : α} (hb : b ∈ as) :
    ReflTransGen (fun a b => next a = some b) a b := by
  induction h with
  | last _ =>
      obtain rfl := List.mem_singleton.1 hb
      exact .refl
  | step hsome _ ih =>
      rcases List.mem_cons.1 hb with rfl | hb
      · exact .refl
      · exact (ih hb).head hsome

theorem mem_iff (h : Lineage next a as) {b : α} :
    b ∈ as ↔ ReflTransGen (fun a b => next a = some b) a b := by
  refine ⟨h.reachable, fun hb => ?_⟩
  induction h with
  | @last a hnone =>
      rcases hb.cases_head with rfl | ⟨c, hc, -⟩
      · simp
      · rw [hnone] at hc
        contradiction
  | @step a c cs hsome _ ih =>
      rcases hb.cases_head with rfl | ⟨d, hd, hdb⟩
      · simp
      · obtain rfl := Option.some.inj (hsome.symm.trans hd)
        exact List.mem_cons_of_mem _ (ih hdb)

theorem eq_cons (h : Lineage next a as) : ∃ bs, as = a :: bs := by
  cases h with
  | last _ => exact ⟨[], rfl⟩
  | step _ _ => exact ⟨_, rfl⟩

theorem unique {bs : List α} (h : Lineage next a as) (h' : Lineage next a bs) : as = bs := by
  induction h generalizing bs with
  | last hnone =>
      cases h' with
      | last _ => rfl
      | step hsome _ => simp [hnone] at hsome
  | step hsome _ ih =>
      cases h' with
      | last hnone => simp [hsome] at hnone
      | step hsome' h' =>
          obtain rfl := Option.some.inj (hsome.symm.trans hsome')
          rw [ih h']

theorem nodup (hwf : WellFounded fun b a => next a = some b) (h : Lineage next a as) :
    as.Nodup := by
  induction h with
  | last _ => simp
  | @step a b bs hsome hbs ih =>
      refine List.nodup_cons.2 ⟨fun ha => ?_, ih⟩
      have hcycle : TransGen (fun a b => next a = some b) a a := .head' hsome (hbs.reachable ha)
      exact (hwf.transGen.irrefl).irrefl a (transGen_swap.1 hcycle)

theorem exists_of_wellFounded (hwf : WellFounded fun b a => next a = some b) (a : α) :
    ∃ as, Lineage next a as := by
  induction a using hwf.induction with
  | _ a ih =>
      cases hnext : next a with
      | none => exact ⟨[a], .last hnext⟩
      | some b =>
          obtain ⟨bs, hbs⟩ := ih b hnext
          exact ⟨a :: bs, .step hnext hbs⟩

end Lineage

/-! ### Own properties -/

namespace TypeLookup

variable {look : TypeLookup} {r : TypeRef} {p : PropertyRef}

theorem isSome_property? : (look.property? p).isSome ↔ p.index < (look.properties p.owner).length := by
  rw [property?, properties]
  cases look p.owner <;> simp

theorem mem_ownProperties :
    p ∈ look.ownProperties r ↔ p.owner = r ∧ (look.property? p).isSome := by
  rw [ownProperties, isSome_property?]
  simp only [List.mem_map, List.mem_range]
  constructor
  · rintro ⟨i, hi, rfl⟩
    exact ⟨rfl, hi⟩
  · rintro ⟨rfl, hi⟩
    exact ⟨p.index, hi, rfl⟩

end TypeLookup

theorem Scope.nodup_of_repeated? {before ns : List String} (h : repeated? before ns = none) :
    ns.Nodup ∧ ∀ n ∈ ns, n ∉ before := by
  induction ns generalizing before with
  | nil => simp
  | cons n ns ih =>
      rw [repeated?] at h
      split at h
      · contradiction
      · rename_i hn
        obtain ⟨hnodup, hfresh⟩ := ih h
        refine ⟨List.nodup_cons.2 ⟨fun hmem => hfresh n hmem (by simp), hnodup⟩, ?_⟩
        rintro m (_ | ⟨_, hm⟩)
        · exact hn
        · exact fun hbefore => hfresh m hm (List.mem_cons_of_mem _ hbefore)

/-! ### Flattened types -/

/-- A list of properties that flattens the hierarchy above a handle: the own properties of all that
the handle extends, under different names, and no property before one of a supertype. -/
structure Workspace.Flattens (w : Workspace) (r : TypeRef) (ps : List PropertyRef) : Prop where
  mem_iff : ∀ p, p ∈ ps ↔ w.Extends r p.owner ∧ (w.property? p).isSome
  nodup_names : (ps.map (TypeLookup.propertyName w.type?)).Nodup
  ordered : ps.Pairwise fun p q => q.owner ∉ w.supertypes p.owner

namespace Workspace

variable {w : Workspace} {r : TypeRef} {ps : List PropertyRef}

theorem Flattens.nodup (h : w.Flattens r ps) : ps.Nodup :=
  h.nodup_names.of_map _

/-- In a flattened hierarchy the properties of a supertype have the smaller positions. -/
theorem Flattens.lt_of_supertype (h : w.Flattens r ps) (hw : w.Descends) {i j : Nat}
    {p q : PropertyRef} (hp : ps[i]? = some p) (hq : ps[j]? = some q)
    (hsuper : p.owner ∈ w.supertypes q.owner) : i < j := by
  obtain ⟨hi, rfl⟩ := List.getElem?_eq_some_iff.1 hp
  obtain ⟨hj, rfl⟩ := List.getElem?_eq_some_iff.1 hq
  rcases Nat.lt_trichotomy i j with hlt | rfl | hlt
  · exact hlt
  · exact absurd hsuper (hw.not_mem_supertypes .refl)
  · exact absurd hsuper (List.pairwise_iff_getElem.1 h.ordered j i hj hi hlt)

/-- A handle that stands for no composite type has nothing to flatten. -/
theorem flattens_nil (h : TypeLookup.composite? w.type? r = none) : w.Flattens r [] := by
  have hbase : w.base? r = none := TypeLookup.base?_eq_none h
  have hinterfaces : w.interfacesOf r = [] := TypeLookup.interfacesOf_eq_nil h
  have hproperties : TypeLookup.properties w.type? r = [] := TypeLookup.properties_eq_nil h
  refine ⟨fun p => ?_, by simp, by simp⟩
  simp only [List.not_mem_nil, false_iff, not_and]
  intro hextends hsome
  rcases extends_iff.1 hextends with heq | ⟨b, hb, -⟩ | ⟨i, hi, -⟩
  · rw [property?, TypeLookup.isSome_property?, heq, hproperties] at hsome
    simp at hsome
  · simp [hbase] at hb
  · simp [hinterfaces] at hi

/-- What is gathered for one type: the properties inherited from its base, those of its new
interfaces, and its own. -/
structure Gathered (w : Workspace) (r : TypeRef) (inherited : List PropertyRef)
    (seen new : List TypeRef) : Prop where
  mem_inherited : ∀ p, p ∈ inherited ↔
    (∃ b, w.base? r = some b ∧ w.Extends b p.owner) ∧ (w.property? p).isSome
  nodup_inherited : inherited.Nodup
  ordered : inherited.Pairwise fun p q => q.owner ∉ w.supertypes p.owner
  extends_seen : ∀ x ∈ seen, ∃ b, w.base? r = some b ∧ w.Extends b x
  interface_seen : ∀ x b bound, w.base? r = some b → w.Extends b x → w.HasType bound x .interface →
    x ∈ seen
  mem_new : ∀ x, x ∈ new ↔
    x ∉ seen ∧ ∃ i ∈ w.interfacesOf r, ReflTransGen (Leads w.interfacesOf) i x
  nodup_new : new.Nodup
  ordered_new : new.Pairwise fun a b => b ∉ w.interfacesOf a

namespace Gathered

variable {inherited : List PropertyRef} {seen new : List TypeRef}

theorem extends_new (h : w.Gathered r inherited seen new) (hw : w.WellTyped) {x : TypeRef}
    (hx : x ∈ new) : w.Extends r x := by
  obtain ⟨-, i, hi, hix⟩ := (h.mem_new x).1 hx
  exact extends_iff.2 (.inr (.inr ⟨i, hi, (hw.extends_interface_iff (hw.interfaces r i hi)).2 hix⟩))

theorem hasType_new (h : w.Gathered r inherited seen new) (hw : w.WellTyped) {x : TypeRef}
    (hx : x ∈ new) : ∃ bound, w.HasType bound x .interface := by
  obtain ⟨-, i, hi, hix⟩ := (h.mem_new x).1 hx
  rcases ReflTransGen.cases_tail hix with heq | ⟨y, -, hyx⟩
  · rw [heq]
    exact ⟨_, hw.interfaces r i hi⟩
  · exact ⟨_, hw.interfaces y x hyx⟩

theorem supertypes_new (h : w.Gathered r inherited seen new) (hw : w.WellTyped) {x : TypeRef}
    (hx : x ∈ new) : w.supertypes x = w.interfacesOf x := by
  obtain ⟨bound, hinterface⟩ := h.hasType_new hw hx
  exact hw.supertypes_of_interface hinterface

theorem mem_iff (h : w.Gathered r inherited seen new) (hw : w.WellTyped) (p : PropertyRef) :
    p ∈ inherited ++ new.flatMap (TypeLookup.ownProperties w.type?) ++
        TypeLookup.ownProperties w.type? r ↔
      w.Extends r p.owner ∧ (w.property? p).isSome := by
  simp only [List.mem_append, List.mem_flatMap, TypeLookup.mem_ownProperties, h.mem_inherited]
  constructor
  · rintro ((⟨hbase, hsome⟩ | ⟨x, hx, rfl, hsome⟩) | ⟨rfl, hsome⟩)
    · exact ⟨extends_iff.2 (.inr (.inl hbase)), hsome⟩
    · exact ⟨h.extends_new hw hx, hsome⟩
    · exact ⟨.refl, hsome⟩
  · rintro ⟨hextends, hsome⟩
    rcases extends_iff.1 hextends with heq | hbase | ⟨i, hi, hip⟩
    · exact .inr ⟨heq, hsome⟩
    · exact .inl (.inl ⟨hbase, hsome⟩)
    -- What an interface brings in is new, or the base has brought it in already.
    · by_cases hseen : p.owner ∈ seen
      · exact .inl (.inl ⟨h.extends_seen _ hseen, hsome⟩)
      · refine .inl (.inr ⟨p.owner, (h.mem_new _).2 ⟨hseen, i, hi, ?_⟩, rfl, hsome⟩)
        exact (hw.extends_interface_iff (hw.interfaces r i hi)).1 hip

/-- Whatever names they have, no property is gathered twice. -/
theorem nodup (h : w.Gathered r inherited seen new) (hw : w.Navigable) :
    (inherited ++ new.flatMap (TypeLookup.ownProperties w.type?) ++
      TypeLookup.ownProperties w.type? r).Nodup := by
  have hown : ∀ x, (TypeLookup.ownProperties w.type? x).Nodup := by
    intro x
    refine List.nodup_range.map fun i j hij => ?_
    exact congrArg PropertyRef.index hij
  have howner : ∀ {x p}, p ∈ TypeLookup.ownProperties w.type? x → p.owner = x := fun hp =>
    (TypeLookup.mem_ownProperties.1 hp).1
  rw [List.nodup_append, List.nodup_append, List.nodup_flatMap]
  refine ⟨⟨h.nodup_inherited, ⟨fun x _ => hown x, h.nodup_new.imp fun hne p hp hq => ?_⟩, ?_⟩,
    hown r, ?_⟩
  · exact hne ((howner hp).symm.trans (howner hq))
  -- What the base extends is seen, so no new interface is among it.
  · rintro p hp q hq rfl
    obtain ⟨x, hx, hq⟩ := List.mem_flatMap.1 hq
    obtain ⟨⟨b, hb, hbp⟩, -⟩ := (h.mem_inherited p).1 hp
    obtain ⟨bound, hinterface⟩ := h.hasType_new hw.wellTyped hx
    rw [howner hq] at hbp
    exact ((h.mem_new x).1 hx).1 (h.interface_seen x b bound hb hbp hinterface)
  -- The type itself is above none of its supertypes.
  · rintro p hp q hq rfl
    have hstrict : ∃ y ∈ w.supertypes r, w.Extends y p.owner := by
      rcases List.mem_append.1 hp with hp | hp
      · obtain ⟨⟨b, hb, hbp⟩, -⟩ := (h.mem_inherited p).1 hp
        exact ⟨b, TypeLookup.mem_supertypes.2 (.inl hb), hbp⟩
      · obtain ⟨x, hx, hp⟩ := List.mem_flatMap.1 hp
        obtain ⟨-, i, hi, hix⟩ := (h.mem_new x).1 hx
        rw [howner hp]
        exact ⟨i, TypeLookup.mem_supertypes.2 (.inr hi), extends_of_interfaces hix⟩
    obtain ⟨y, hy, hyp⟩ := hstrict
    rw [howner hq] at hyp
    exact not_transGen_self (hw.descends.apply r) (TransGen.head' hy hyp)

theorem flattens (h : w.Gathered r inherited seen new) (hw : w.Navigable)
    (hnames : ((inherited ++ new.flatMap (TypeLookup.ownProperties w.type?) ++
      TypeLookup.ownProperties w.type? r).map (TypeLookup.propertyName w.type?)).Nodup) :
    w.Flattens r (inherited ++ new.flatMap (TypeLookup.ownProperties w.type?) ++
      TypeLookup.ownProperties w.type? r) := by
  refine ⟨h.mem_iff hw.wellTyped, hnames, ?_⟩
  have hown : ∀ x, (TypeLookup.ownProperties w.type? x).Pairwise fun p q =>
      q.owner ∉ w.supertypes p.owner := by
    intro x
    refine List.pairwise_of_forall_mem_list fun p hp q hq => ?_
    rw [(TypeLookup.mem_ownProperties.1 hp).1, (TypeLookup.mem_ownProperties.1 hq).1]
    exact hw.descends.not_mem_supertypes .refl
  rw [List.pairwise_append, List.pairwise_append, List.pairwise_flatMap]
  refine ⟨⟨h.ordered, ⟨fun x _ => hown x, ?_⟩, fun p hp q hq hsuper => ?_⟩, hown r, ?_⟩
  · refine h.ordered_new.imp_of_mem fun ha _ hab p hp q hq => ?_
    rw [(TypeLookup.mem_ownProperties.1 hp).1, (TypeLookup.mem_ownProperties.1 hq).1,
      h.supertypes_new hw.wellTyped ha]
    exact hab
  -- A new interface above the base would have its properties inherited, and so twice in the list.
  · obtain ⟨⟨b, hb, hbp⟩, -⟩ := (h.mem_inherited p).1 hp
    obtain ⟨x, -, hx⟩ := List.mem_flatMap.1 hq
    have hinherited : q ∈ inherited :=
      (h.mem_inherited q).2 ⟨⟨b, hb, hbp.tail hsuper⟩, (TypeLookup.mem_ownProperties.1 hx).2⟩
    have hnodup := hnames.of_map _
    rw [List.nodup_append, List.nodup_append] at hnodup
    exact hnodup.1.2.2 q hinherited q hq rfl
  · intro p hp q hq
    rw [(TypeLookup.mem_ownProperties.1 hq).1]
    refine hw.descends.not_mem_supertypes ((h.mem_iff hw.wellTyped p).1 ?_).1
    exact List.mem_append_left _ hp

end Gathered

end Workspace

/-! ### Effective properties -/

theorem Workspace.Positioned.mem_refs {w : Workspace} (h : w.Positioned) {r : TypeRef} :
    r ∈ w.refs ↔ ∃ t, w.type? r = some t := by
  simp only [refs, SchemaOf.refs, List.mem_flatMap, List.mem_map, List.mem_range]
  constructor
  · rintro ⟨s, hs, i, hi, rfl⟩
    obtain ⟨key, hkey⟩ := List.getElem?_of_mem hs
    refine ⟨s.types[i], Option.bind_eq_some_iff.2 ⟨s, ?_, List.getElem?_eq_getElem hi⟩⟩
    rwa [h key s hkey]
  · rintro ⟨t, ht⟩
    obtain ⟨s, hs, hget⟩ := Option.bind_eq_some_iff.1 ht
    refine ⟨s, List.mem_of_getElem? hs, r.index, (List.getElem?_eq_some_iff.1 hget).1, ?_⟩
    rw [h r.schema s hs]

theorem Workspace.Indexed.mem_refs {w : Workspace} (h : w.Indexed) {r : TypeRef} :
    r ∈ w.refs ↔ ∃ t, w.type? r = some t :=
  h.positioned.mem_refs

/-- The handles of a lookup are those of its types, and the supertypes of types are among them. -/
structure TypeLookup.Grounded (look : TypeLookup) (refs : List TypeRef) : Prop where
  mem_refs : ∀ {r}, r ∈ refs ↔ ∃ t, look r = some t
  supertypes : ∀ r, ∀ x ∈ look.supertypes r, x ∈ refs

namespace TypeLookup.Grounded

variable {look : TypeLookup} {refs rs : List TypeRef} {r : TypeRef}

theorem base (h : look.Grounded refs) {b : TypeRef} (hb : look.base? r = some b) : b ∈ refs :=
  h.supertypes r b (mem_supertypes.2 (.inl hb))

theorem interfaces (h : look.Grounded refs) {i : TypeRef} (hi : i ∈ look.interfacesOf r) :
    i ∈ refs :=
  h.supertypes r i (mem_supertypes.2 (.inr hi))

theorem lineage_subset (h : look.Grounded refs) (hr : r ∈ refs) (hrs : Lineage look.base? r rs) :
    rs ⊆ refs := by
  intro a ha
  rcases ReflTransGen.cases_tail (hrs.reachable ha) with heq | ⟨b, -, hba⟩
  · rwa [heq]
  · exact h.base hba

/-- Bases that can be descended form a chain that is no longer than there are types. -/
theorem lineage (h : look.Grounded refs) (hwf : WellFounded fun b a => look.base? a = some b)
    (hr : r ∈ refs) : Lineage look.base? r (chain look.base? refs.length r) := by
  obtain ⟨rs, hrs⟩ := Lineage.exists_of_wellFounded hwf r
  rw [hrs.chain_eq ((hrs.nodup hwf).subperm (h.lineage_subset hr hrs)).length_le]
  exact hrs

end TypeLookup.Grounded

theorem Workspace.WellTyped.grounded {w : Workspace} (hw : w.WellTyped)
    (hpositioned : w.Positioned) : TypeLookup.Grounded w.type? w.refs := by
  refine ⟨hpositioned.mem_refs, fun r x hx => ?_⟩
  obtain ⟨k, -, t, ht, -⟩ := hw.hasType_of_supertype hx
  exact hpositioned.mem_refs.2 ⟨t, ht⟩

theorem Workspace.Descends.wellFounded_base {w : Workspace} (hw : w.Descends) :
    WellFounded fun b a => w.base? a = some b :=
  Subrelation.wf (fun hba => TypeLookup.mem_supertypes.2 (.inl hba)) hw

namespace Workspace.Navigable

variable {w : Workspace} {r : TypeRef} {rs : List TypeRef}

theorem grounded (hw : w.Navigable) : TypeLookup.Grounded w.type? w.refs :=
  hw.wellTyped.grounded hw.positioned

/-- The bases of a published type are published, and no type comes twice among them. -/
theorem lineage_published (hw : w.Navigable) {t : LinkedType} (ht : w.type? r = some t)
    (hrs : Lineage w.base? r rs) : rs ⊆ w.refs ∧ rs.Nodup :=
  ⟨hw.grounded.lineage_subset (hw.positioned.mem_refs.2 ⟨t, ht⟩) hrs,
    hrs.nodup hw.descends.wellFounded_base⟩

/-- The bases of a published type form a chain that is no longer than there are types. -/
theorem lineage (hw : w.Navigable) {t : LinkedType} (ht : w.type? r = some t) :
    Lineage w.base? r (chain w.base? w.refs.length r) :=
  hw.grounded.lineage hw.descends.wellFounded_base (hw.positioned.mem_refs.2 ⟨t, ht⟩)

end Workspace.Navigable

namespace Scope

variable {s : Scope} {w : Workspace} {r : TypeRef}

/-- The published schemas and the unit that joins them are what a workspace shows. -/
structure Shows (s : Scope) (w : Workspace) : Prop where
  type?_eq : s.type? = w.type?
  refs_eq : s.refs = w.refs

namespace Shows

theorem interfacesOf_eq (h : s.Shows w) : s.interfacesOf = w.interfacesOf := by
  rw [Scope.interfacesOf, h.type?_eq]

theorem closed (h : s.Shows w) (hw : w.Navigable) :
    ∀ a, ∀ b ∈ s.interfacesOf a, b ∈ s.refs := by
  intro a b hb
  rw [h.interfacesOf_eq] at hb
  rw [h.refs_eq, hw.positioned.mem_refs]
  obtain ⟨-, t, ht, -⟩ := hw.wellTyped.interfaces a b hb
  exact ⟨t, ht⟩

theorem mem_interfacesReached (h : s.Shows w) (hw : w.Navigable) {rs : List TypeRef} {x : TypeRef} :
    x ∈ s.interfacesReached rs ↔
      ∃ a ∈ rs, ∃ i ∈ w.interfacesOf a, ReflTransGen (Leads w.interfacesOf) i x := by
  have hclosed := h.closed hw
  rw [interfacesReached, DepthFirst.mem_reached_iff fun a _ => hclosed a, h.interfacesOf_eq]
  · simp only [List.mem_flatMap]
    constructor
    · rintro ⟨i, ⟨a, ha, hi⟩, hix⟩
      exact ⟨a, ha, i, hi, hix⟩
    · rintro ⟨a, ha, i, hi, hix⟩
      exact ⟨i, ⟨a, ha, hi⟩, hix⟩
  · intro i hi
    obtain ⟨a, -, hi⟩ := List.mem_flatMap.1 hi
    exact hclosed a i hi

theorem mem_newInterfaces (h : s.Shows w) (hw : w.Navigable) {bases : List TypeRef} {x : TypeRef} :
    x ∈ s.newInterfaces r bases ↔ x ∉ s.interfacesReached bases ∧
      ∃ i ∈ w.interfacesOf r, ReflTransGen (Leads w.interfacesOf) i x := by
  have hclosed := h.closed hw
  rw [newInterfaces,
    DepthFirst.mem_postorder_iff (fun a _ => hclosed a) (hclosed r) ?_, h.interfacesOf_eq]
  intro a ha b hb
  rw [h.interfacesOf_eq] at hb
  obtain ⟨c, hc, i, hi, hia⟩ := (h.mem_interfacesReached hw).1 ha
  exact (h.mem_interfacesReached hw).2 ⟨c, hc, i, hi, hia.tail hb⟩

theorem pairwise_newInterfaces (h : s.Shows w) (hw : w.Navigable) (bases : List TypeRef) :
    (s.newInterfaces r bases).Pairwise fun a b => b ∉ w.interfacesOf a := by
  rw [newInterfaces, h.interfacesOf_eq]
  refine DepthFirst.pairwise_left (fun a hcycle => ?_) _ _
  refine not_transGen_self (hw.descends.apply a) (hcycle.lift id fun _ _ hab => ?_)
  exact TypeLookup.mem_supertypes.2 (.inr hab)

/-- Along the bases of a type everything that they bring in is seen. -/
theorem gathered (h : s.Shows w) (hw : w.Navigable) {bases : List TypeRef}
    {inherited : List PropertyRef}
    (hbases : ∀ a, a ∈ bases ↔
      ∃ b, w.base? r = some b ∧ ReflTransGen (fun a b => w.base? a = some b) b a)
    (hmem : ∀ p, p ∈ inherited ↔
      (∃ b, w.base? r = some b ∧ w.Extends b p.owner) ∧ (w.property? p).isSome)
    (hnodup : inherited.Nodup)
    (hordered : inherited.Pairwise fun p q => q.owner ∉ w.supertypes p.owner) :
    w.Gathered r inherited (s.interfacesReached bases) (s.newInterfaces r bases) := by
  refine ⟨hmem, hnodup, hordered, fun x hx => ?_, fun x b bound hb hbx hx => ?_,
    fun x => h.mem_newInterfaces hw, DepthFirst.nodup_left_visits _ _,
    h.pairwise_newInterfaces hw bases⟩
  · obtain ⟨a, ha, i, hi, hix⟩ := (h.mem_interfacesReached hw).1 hx
    obtain ⟨b, hb, hba⟩ := (hbases a).1 ha
    have hiext := (hw.wellTyped.extends_interface_iff (hw.wellTyped.interfaces a i hi)).2 hix
    have hba := Workspace.extends_of_bases hba
    exact ⟨b, hb, (hba.tail (TypeLookup.mem_supertypes.2 (.inr hi))).trans hiext⟩
  · obtain ⟨kind, hkind, -, hbtype⟩ := hw.wellTyped.base r b hb
    obtain ⟨c, hbc, i, hi, hix⟩ := hw.wellTyped.interface_of_extends hx (fun bound hinterface => by
      obtain rfl := hbtype.kind_unique hinterface
      simp at hkind) hbx
    exact (h.mem_interfacesReached hw).2 ⟨c, (hbases c).2 ⟨b, hb, hbc⟩, i, hi, hix⟩

theorem lineage (h : s.Shows w) (hw : w.Navigable) {t : LinkedType} (ht : w.type? r = some t) :
    Lineage w.base? r (s.lineage r) := by
  rw [Scope.lineage, Scope.base?, h.type?_eq, h.refs_eq]
  exact hw.lineage ht

end Shows

theorem effectiveAlong_of_published {rs : List TypeRef} (hr : r.schema ≠ s.unit.key) :
    s.effectiveAlong (r :: rs) = .ok (s.workspace.derivedOf r).effective := by
  rw [effectiveAlong, if_pos hr]

/-- The properties of a type of the unit start with those of its bases, and no name comes twice. -/
theorem effectiveAlong_ok {bases : List TypeRef} {ps : List PropertyRef}
    (hr : r.schema = s.unit.key) (h : s.effectiveAlong (r :: bases) = .ok ps) :
    ∃ inherited, s.effectiveAlong bases = .ok inherited ∧
      ps = inherited ++ (s.newInterfaces r bases).flatMap s.ownProperties ++ s.ownProperties r ∧
      (ps.map (TypeLookup.propertyName s.type?)).Nodup := by
  rw [effectiveAlong, if_neg (not_not.2 hr)] at h
  obtain ⟨inherited, hinherited, h⟩ := bind_eq_ok.1 h
  simp only at h
  split at h
  · contradiction
  · rename_i hcollision
    obtain rfl := pure_eq_ok.1 h
    exact ⟨inherited, hinherited, rfl, (nodup_of_repeated? hcollision).1⟩

theorem Shows.flattens_cons (hs : s.Shows w) (hw : w.Navigable)
    (hstored : ∀ r, r.schema ≠ s.unit.key → w.Flattens r (s.workspace.derivedOf r).effective)
    {bases : List TypeRef} {ps : List PropertyRef}
    (hgathered : ∀ inherited, s.effectiveAlong bases = .ok inherited →
      w.Gathered r inherited (s.interfacesReached bases) (s.newInterfaces r bases))
    (h : s.effectiveAlong (r :: bases) = .ok ps) : w.Flattens r ps := by
  by_cases hr : r.schema = s.unit.key
  · obtain ⟨inherited, hinherited, rfl, hnames⟩ := effectiveAlong_ok hr h
    have hown : s.ownProperties = TypeLookup.ownProperties w.type? := by
      rw [Scope.ownProperties, hs.type?_eq]
    rw [hs.type?_eq] at hnames
    rw [hown] at hnames ⊢
    exact (hgathered inherited hinherited).flattens hw hnames
  · rw [effectiveAlong_of_published hr] at h
    obtain rfl := Except.ok.inj h
    exact hstored r hr

theorem Shows.gathered_last (hs : s.Shows w) (hw : w.Navigable) (hnone : w.base? r = none) :
    w.Gathered r [] (s.interfacesReached []) (s.newInterfaces r []) :=
  hs.gathered hw (by simp [hnone]) (by simp [hnone]) .nil .nil

theorem Shows.gathered_step (hs : s.Shows w) (hw : w.Navigable) {b : TypeRef}
    {bases : List TypeRef} {inherited : List PropertyRef} (hbase : w.base? r = some b)
    (hbases : Lineage w.base? b bases) (hflattens : w.Flattens b inherited) :
    w.Gathered r inherited (s.interfacesReached bases) (s.newInterfaces r bases) := by
  refine hs.gathered hw (fun a => ?_) (fun p => ?_) hflattens.nodup hflattens.ordered
  · rw [hbases.mem_iff]
    simp [hbase]
  · rw [hflattens.mem_iff]
    simp [hbase]

/-- If the stored lists flatten the hierarchies above published types, the list that is gathered
along a lineage flattens the hierarchy above its first type. -/
theorem Shows.flattens (hs : s.Shows w) (hw : w.Navigable)
    (hstored : ∀ r, r.schema ≠ s.unit.key → w.Flattens r (s.workspace.derivedOf r).effective)
    {rs : List TypeRef} (hrs : Lineage w.base? r rs) {ps : List PropertyRef}
    (h : s.effectiveAlong rs = .ok ps) : w.Flattens r ps := by
  induction hrs generalizing ps with
  | @last r hnone =>
      refine hs.flattens_cons hw hstored (fun inherited hinherited => ?_) h
      obtain rfl : [] = inherited := Except.ok.inj hinherited
      exact hs.gathered_last hw hnone
  | @step r b bases hbase hbases ih =>
      exact hs.flattens_cons hw hstored
        (fun _ hinherited => hs.gathered_step hw hbase hbases (ih hinherited)) h

/-- The derived facts of a composite type hold its effective properties; enums have none. -/
theorem derive_ok {i : Nat} {t : LinkedType} {d : Derived} (h : s.derive i t = .ok d) :
    (∀ c, t.body = .composite c → s.effective ⟨s.unit.key, i⟩ = .ok d.effective) ∧
      ∀ e, t.body = .enum e → d.effective = [] := by
  rw [derive] at h
  split at h
  · rename_i e hbody
    obtain rfl := Except.ok.inj h
    exact ⟨by simp [hbody], fun _ _ => rfl⟩
  · rename_i c hbody
    refine ⟨fun _ _ => ?_, by simp [hbody]⟩
    obtain ⟨effective, heffective, h⟩ := bind_eq_ok.1 h
    rw [heffective]
    split at h
    · simp only at h
      split at h
      · obtain ⟨layout, -, h⟩ := bind_eq_ok.1 h
        obtain rfl := pure_eq_ok.1 h
        rfl
      · obtain rfl := pure_eq_ok.1 h
        rfl
    · obtain rfl := pure_eq_ok.1 h
      rfl

end Scope

/-- What is stored for a type of a unit is what is derived for it. -/
theorem Linked.derive_of_finish {w : Workspace} {u : Linked} {s : Schema} (h : u.finish w = .ok s)
    {i : Nat} {t : LinkedType} (ht : u.types[i]? = some t) :
    (Scope.mk w u).derive i t = .ok (s.derivedOf i) := by
  obtain ⟨-, -, hderived⟩ := Linked.finish_ok h
  have hzip : u.types.zipIdx[i]? = some (t, i) := by
    simp [List.getElem?_zipIdx, ht]
  obtain ⟨d, hd, hderive⟩ := exists_of_forall₂_left (mapM_eq_ok.1 hderived) hzip
  rw [Schema.derivedOf, hd]
  exact hderive

/-! ### Compiling a unit -/

/-- Every stored list flattens the hierarchy above its type, and starts with the list of the base. -/
structure Workspace.Flattened (w : Workspace) : Prop where
  flattens : ∀ r, w.Flattens r (w.derivedOf r).effective
  base_prefix : ∀ r b, w.base? r = some b →
    (w.derivedOf b).effective <+: (w.derivedOf r).effective

section Publishing

variable {w : Workspace} {s : Schema} {r x : TypeRef}

/-- What a published type extends was published with it or before. -/
theorem Workspace.WellTyped.schema_ne_of_extends (hw : w.WellTyped) (hr : r.schema ≠ w.nextKey)
    (h : w.Extends r x) : x.schema ≠ w.nextKey := by
  rcases ReflTransGen.cases_tail h with rfl | ⟨z, -, hzx⟩
  · exact hr
  · obtain ⟨k, -, t, ht, -⟩ := hw.hasType_of_supertype hzx
    exact Nat.ne_of_lt (lt_nextKey_of_type? ht)

theorem Workspace.WellTyped.extends_publish (hw : w.WellTyped) (hr : r.schema ≠ w.nextKey) :
    (w.publish s).Extends r x ↔ w.Extends r x := by
  constructor <;> intro hx
  · induction hx with
    | refl => exact .refl
    | @tail y z _ hyz ih =>
        rw [Leads, supertypes_publish (hw.schema_ne_of_extends hr ih)] at hyz
        exact ih.tail hyz
  · induction hx with
    | refl => exact .refl
    | @tail y z hy hyz ih =>
        rw [Leads, ← supertypes_publish (s := s) (hw.schema_ne_of_extends hr hy)] at hyz
        exact ih.tail hyz

/-- What flattens the hierarchy above an earlier type still does. -/
theorem Workspace.Flattens.publish {ps : List PropertyRef} (hps : w.Flattens r ps)
    (hw : w.WellTyped) (hr : r.schema ≠ w.nextKey) : (w.publish s).Flattens r ps := by
  have hproperty : ∀ p : PropertyRef, p.owner.schema ≠ w.nextKey →
      (w.publish s).property? p = w.property? p := by
    intro p hp
    rw [property?, property?, TypeLookup.property?, TypeLookup.property?, type?_publish_of_ne s hp]
  have howner : ∀ p ∈ ps, p.owner.schema ≠ w.nextKey := fun p hp =>
    hw.schema_ne_of_extends hr ((hps.mem_iff p).1 hp).1
  refine ⟨fun p => ?_, ?_, hps.ordered.imp_of_mem fun {p q} hp _ hpq => ?_⟩
  · rw [hps.mem_iff, hw.extends_publish hr]
    refine and_congr_right fun hextends => ?_
    rw [hproperty p (hw.schema_ne_of_extends hr hextends)]
  · have hnames : ps.map (TypeLookup.propertyName (w.publish s).type?) =
        ps.map (TypeLookup.propertyName w.type?) := by
      refine List.map_congr_left fun p hp => ?_
      have hp := hproperty p (howner p hp)
      rw [property?, property?] at hp
      rw [TypeLookup.propertyName, TypeLookup.propertyName, hp]
    rw [hnames]
    exact hps.nodup_names
  · rwa [supertypes_publish (howner p hp)]

end Publishing

namespace Compiles

variable {w w' : Workspace} {unit : SourceId} {declaration : Declaration} {s : Schema}
  {r x : TypeRef}

theorem shows (h : Compiles w unit declaration s w') : (Scope.mk w s.toSchemaOf).Shows w' :=
  ⟨h.scope_type?, h.scope_refs⟩

theorem derivedOf_of_ne (h : Compiles w unit declaration s w') (hr : r.schema ≠ w.nextKey) :
    w'.derivedOf r = w.derivedOf r := by
  rw [h.eq_publish, Workspace.derivedOf, Workspace.getElem?_publish_of_ne s hr,
    Workspace.derivedOf]

theorem derivedOf_of_eq (h : Compiles w unit declaration s w') (hr : r.schema = w.nextKey) :
    w'.derivedOf r = s.derivedOf r.index := by
  rw [h.eq_publish, Workspace.derivedOf, hr, Workspace.getElem?_publish_nextKey]
  rfl

theorem derived_forall₂ (h : Compiles w unit declaration s w') :
    List.Forall₂ (fun t d => (Scope.mk w s.toSchemaOf).derive t.2 t.1 = .ok d)
      s.types.zipIdx s.derived := by
  obtain ⟨-, -, hderived⟩ := Linked.finish_ok h.finish_eq
  exact mapM_eq_ok.1 hderived

theorem derive_eq (h : Compiles w unit declaration s w') (hr : r.schema = w.nextKey)
    {t : LinkedType} (ht : w'.type? r = some t) :
    (Scope.mk w s.toSchemaOf).derive r.index t = .ok (w'.derivedOf r) := by
  rw [h.derivedOf_of_eq hr]
  rw [h.eq_publish, Workspace.type?_publish_of_eq s hr] at ht
  exact Linked.derive_of_finish h.finish_eq ht

theorem derivedOf_of_none (h : Compiles w unit declaration s w') (hr : r.schema = w.nextKey)
    (ht : w'.type? r = none) : w'.derivedOf r = {} := by
  rw [h.derivedOf_of_eq hr, Schema.derivedOf]
  rw [h.eq_publish, Workspace.type?_publish_of_eq s hr, List.getElem?_eq_none_iff] at ht
  have hlen := h.derived_forall₂.length_eq
  rw [List.length_zipIdx] at hlen
  rw [List.getElem?_eq_none (hlen ▸ ht)]
  rfl

/-- Along the lineage of any composite type, finishing the unit has gathered what is stored. -/
theorem effectiveAlong_eq (h : Compiles w unit declaration s w') (hw' : w'.Layered)
    {t : LinkedType} (ht : w'.type? r = some t) {c : LinkedComposite}
    (hbody : t.body = .composite c) {rs : List TypeRef} (hrs : Lineage w'.base? r rs) :
    (Scope.mk w s.toSchemaOf).effectiveAlong rs = .ok (w'.derivedOf r).effective := by
  by_cases hr : r.schema = w.nextKey
  · have heffective := (Scope.derive_ok (h.derive_eq hr ht)).1 c hbody
    obtain rfl := (h.shows.lineage hw'.navigable ht).unique hrs
    obtain ⟨key, i⟩ := r
    obtain rfl : key = s.key := hr.trans h.key_eq.symm
    exact heffective
  · obtain ⟨bs, rfl⟩ := hrs.eq_cons
    have hkey : r.schema ≠ s.key := fun heq => hr (heq.trans h.key_eq)
    rw [h.derivedOf_of_ne hr]
    exact Scope.effectiveAlong_of_published hkey

theorem extends_of_ne (h : Compiles w unit declaration s w') (hw : w.WellTyped)
    (hr : r.schema ≠ w.nextKey) :
    (w'.Extends r x ↔ w.Extends r x) ∧ (w.Extends r x → x.schema ≠ w.nextKey) := by
  rw [h.eq_publish]
  exact ⟨hw.extends_publish hr, hw.schema_ne_of_extends hr⟩

theorem flattens_of_eq (h : Compiles w unit declaration s w') (hw : w.WellTyped)
    (hw' : w'.Layered) (hstored : ∀ r, w.Flattens r (w.derivedOf r).effective)
    (hr : r.schema = w.nextKey) : w'.Flattens r (w'.derivedOf r).effective := by
  cases ht : w'.type? r with
  | none =>
      rw [h.derivedOf_of_none hr ht]
      exact Workspace.flattens_nil (by rw [TypeLookup.composite?, ht, Option.bind_none])
  | some t =>
      cases hbody : t.body with
      | enum e =>
          rw [(Scope.derive_ok (h.derive_eq hr ht)).2 e hbody]
          exact Workspace.flattens_nil (TypeLookup.composite?_eq_none ht hbody)
      | composite c =>
          have hlineage := h.shows.lineage hw'.navigable ht
          refine h.shows.flattens hw'.navigable (fun x hx => ?_) hlineage
            (h.effectiveAlong_eq hw' ht hbody hlineage)
          have hx : x.schema ≠ w.nextKey := fun heq => hx (heq.trans h.key_eq.symm)
          rw [h.eq_publish]
          exact (hstored x).publish hw hx

/-- The list of a type of the new schema starts with the list of its base. -/
theorem base_prefix_of_eq (h : Compiles w unit declaration s w') (hw' : w'.Layered)
    (hr : r.schema = w.nextKey) (hx : w'.base? r = some x) :
    (w'.derivedOf x).effective <+: (w'.derivedOf r).effective := by
  obtain ⟨t, c, ht, hbody, -⟩ := TypeLookup.base?_eq_some.1 hx
  obtain ⟨kind, hkind, -, -, u, hu, rfl⟩ := hw'.wellTyped.base r x hx
  obtain ⟨c', hubody⟩ := (hw'.agrees hu).exists_composite
    (by rcases hkind with hkind | hkind <;> simp [hkind])
  have hbases := h.shows.lineage hw'.navigable hu
  have heffective := h.effectiveAlong_eq hw' ht hbody (.step hx hbases)
  obtain ⟨inherited, hinherited, heq, -⟩ :=
    Scope.effectiveAlong_ok (hr.trans h.key_eq.symm) heffective
  obtain rfl := Except.ok.inj (hinherited.symm.trans (h.effectiveAlong_eq hw' hu hubody hbases))
  rw [heq, List.append_assoc]
  exact List.prefix_append _ _

theorem flattened (h : Compiles w unit declaration s w') (hw : w.Layered) (hw' : w'.Layered)
    (hflat : w.Flattened) : w'.Flattened := by
  refine ⟨fun r => ?_, fun r b hb => ?_⟩
  · by_cases hr : r.schema = w.nextKey
    · exact h.flattens_of_eq hw.wellTyped hw' hflat.flattens hr
    · rw [h.derivedOf_of_ne hr]
      rw [h.eq_publish]
      exact (hflat.flattens r).publish hw.wellTyped hr
  · by_cases hr : r.schema = w.nextKey
    · exact h.base_prefix_of_eq hw' hr hb
    · have hb' : w.base? r = some b := by
        rw [h.eq_publish] at hb
        simp only [Workspace.base?, TypeLookup.base?, TypeLookup.composite?,
          Workspace.type?_publish_of_ne s hr] at hb ⊢
        exact hb
      have hbkey := (h.extends_of_ne hw.wellTyped hr).2
        (.single (TypeLookup.mem_supertypes.2 (.inl hb')))
      rw [h.derivedOf_of_ne hr, h.derivedOf_of_ne hbkey]
      exact hflat.base_prefix r b hb'

end Compiles

theorem Reached.layered_flattened {w : Workspace} (h : Reached w) : w.Layered ∧ w.Flattened := by
  refine h.induction (P := fun w => w.Layered ∧ w.Flattened) ?_ ?_
  · intro primitives containers enumDefault
    have hlayered := Workspace.layered_empty primitives containers enumDefault
    refine ⟨hlayered, fun r => ?_, fun r b hb => ?_⟩
    · exact Workspace.flattens_nil rfl
    · contradiction
  · rintro w unit declaration s w' ⟨hlayered, hflat⟩ hcompiles
    have hlayered' := hcompiles.layered hlayered
    exact ⟨hlayered', hcompiles.flattened hlayered hlayered' hflat⟩

/-! ### Published types -/

theorem Workspace.names_of_isSome {w : Workspace} {ps : List PropertyRef}
    (h : ∀ p ∈ ps, (w.property? p).isSome) :
    (ps.filterMap w.property?).map Property.name = ps.map (TypeLookup.propertyName w.type?) := by
  induction ps with
  | nil => rfl
  | cons p ps ih =>
      obtain ⟨q, hq⟩ := Option.isSome_iff_exists.1 (h p (by simp))
      have hname : TypeLookup.propertyName w.type? p = q.name := by
        rw [property?] at hq
        rw [TypeLookup.propertyName, hq]
        rfl
      rw [List.filterMap_cons_some hq, List.map_cons, List.map_cons, hname,
        ih fun p hp => h p (by simp [hp])]

/-- The stored list of a type consists of the own properties of everything that the type extends,
each once and no two with one name. The properties of a direct supertype come before those of the
type below it, and the list of the base comes first as a whole. -/
theorem effective_properties_inherited_once {w : Workspace} (h : Reached w) (r : TypeRef) :
    (∀ p, p ∈ (w.derivedOf r).effective ↔ w.Extends r p.owner ∧ (w.property? p).isSome) ∧
    (w.derivedOf r).effective.Nodup ∧
    ((w.effectiveProperties r).map Property.name).Nodup ∧
    (∀ (i j : Nat) (p q : PropertyRef), (w.derivedOf r).effective[i]? = some p →
      (w.derivedOf r).effective[j]? = some q → p.owner ∈ w.supertypes q.owner → i < j) ∧
    ∀ b, w.base? r = some b → (w.derivedOf b).effective <+: (w.derivedOf r).effective := by
  obtain ⟨hlayered, hflat⟩ := h.layered_flattened
  have hr := hflat.flattens r
  refine ⟨hr.mem_iff, hr.nodup, ?_, fun i j p q hp hq hsuper => ?_, hflat.base_prefix r⟩
  · rw [Workspace.effectiveProperties,
      Workspace.names_of_isSome fun p hp => ((hr.mem_iff p).1 hp).2]
    exact hr.nodup_names
  · exact hr.lt_of_supertype hlayered.descends hp hq hsuper

/-- The struct of the second schema has the properties of its interface first, though both it and
its base implement that, then those of its base and its own. -/
theorem effective_properties_deriving :
    let w := (({ primitives := [.builtin "int" .int32] } : Workspace).load
      derivingSources.reader ["b"]).workspace
    Reached w ∧ w.base? ⟨1, 0⟩ = some ⟨0, 1⟩ ∧
      (w.derivedOf ⟨1, 0⟩).effective = [⟨⟨0, 0⟩, 0⟩, ⟨⟨0, 1⟩, 0⟩, ⟨⟨1, 0⟩, 0⟩] ∧
      (w.derivedOf ⟨0, 1⟩).effective <+: (w.derivedOf ⟨1, 0⟩).effective ∧
      (w.derivedOf ⟨1, 0⟩).effective.Nodup := by
  intro w
  have hreached : Reached w :=
    (Reached.empty [.builtin "int" .int32] {} none).load derivingSources.reader ["b"]
  have hfound : (w.base? ⟨1, 0⟩, (w.derivedOf ⟨1, 0⟩).effective) =
      (some ⟨0, 1⟩, [⟨⟨0, 0⟩, 0⟩, ⟨⟨0, 1⟩, 0⟩, ⟨⟨1, 0⟩, 0⟩]) := by
    unfold w
    cbv
  obtain ⟨hbase, heffective⟩ := Prod.mk.inj hfound
  obtain ⟨-, hnodup, -, -, hprefix⟩ := effective_properties_inherited_once hreached ⟨1, 0⟩
  exact ⟨hreached, hbase, heffective, hprefix ⟨0, 1⟩ hbase, hnodup⟩

end SchemaGraph
