import SchemaGraph.Proofs.EntityKeys

/-!
Which units are finished. The hierarchy of a unit is sound if no type of the unit extends itself, no
two properties that come together in one of its types have the same name, and the key components of
its entities without a base are primitives that can be keys. Exactly the units with a sound
hierarchy are finished.

A unit in which a type extends itself is refused for that before anything else is looked at. What a
name collides in may be a base of the type that is being finished; then the base is named.

Which type of a cycle is named is the choice of the search. The results hold for every search that
finds the cycles of a graph (`DepthFirst.FindsCycles`).
-/

namespace SchemaGraph

open Relation

/-! ### Sound hierarchies -/

/-- A type of a unit has another for its base or among its interfaces, by position. -/
def Linked.Under (u : Linked) (i j : Nat) : Prop :=
  ∃ t c, u.types[i]? = some t ∧ t.body = .composite c ∧
    (c.base = some ⟨u.key, j⟩ ∨ ⟨u.key, j⟩ ∈ c.interfaces)

namespace TypeLookup

variable (look : TypeLookup)

/-- A type, or something that it extends, declares a property under a name. -/
def Declares (r : TypeRef) (p : PropertyRef) (name : String) : Prop :=
  ReflTransGen (Leads look.supertypes) r p.owner ∧
    ∃ q, look.property? p = some q ∧ q.name = name

/-- Two different properties come together in a type under one name. -/
def Collides (r : TypeRef) (name : String) : Prop :=
  ∃ p q, p ≠ q ∧ look.Declares r p name ∧ look.Declares r q name

end TypeLookup

def DataType.CanBeKey (primitives : PrimitiveTable) (t : DataType) : Prop :=
  ∃ id q, t = .primitive id ∧ primitives[id]? = some q ∧ q.canBeKey = true

/-- No type extends itself, no two properties come together under one name, and what makes up a key
can be a key. -/
structure Scope.SoundHierarchy (s : Scope) : Prop where
  acyclic : ∀ i, ¬TransGen s.unit.Under i i
  unambiguous : ∀ i t name, s.unit.types[i]? = some t →
    ¬TypeLookup.Collides s.type? ⟨s.unit.key, i⟩ name
  keys : ∀ t ∈ s.unit.types, t.kind = .entity → ∀ c, t.body = .composite c → c.base = none →
    ∀ p ∈ c.properties, p.role = .primaryKey → p.type.CanBeKey s.workspace.primitives

/-! ### Cycles -/

namespace Scope

variable {s : Scope}

theorem leads_ownSupertypes : Leads s.ownSupertypes = s.unit.Under := by
  funext i j
  rw [Leads, mem_ownSupertypes, Scope.supertypes, TypeLookup.mem_supertypes,
    TypeLookup.base?_eq_some, TypeLookup.mem_interfacesOf, type?_own rfl]
  refine propext ⟨?_, ?_⟩
  · rintro (⟨t, c, ht, hbody, hbase⟩ | ⟨t, c, ht, hbody, hmem⟩)
    · exact ⟨t, c, ht, hbody, .inl hbase⟩
    · exact ⟨t, c, ht, hbody, .inr hmem⟩
  · rintro ⟨t, c, ht, hbody, hbase | hmem⟩
    · exact .inl ⟨t, c, ht, hbody, hbase⟩
    · exact .inr ⟨t, c, ht, hbody, hmem⟩

theorem acyclic_iff : s.hierarchyCycle? = none ↔ ∀ i, ¬TransGen s.unit.Under i i := by
  rw [hierarchyCycle?_eq_none_iff, leads_ownSupertypes]

/-- What is found is a type of the unit that extends itself. -/
theorem hierarchyCycle?_eq_some {i : Nat} (h : s.hierarchyCycle? = some i) :
    (∃ t, s.unit.types[i]? = some t) ∧ TransGen s.unit.Under i i := by
  have hlt : i < s.unit.types.length := List.mem_range.1 (DepthFirst.mem_of_cycle? h)
  refine ⟨⟨_, List.getElem?_eq_getElem hlt⟩, ?_⟩
  rw [← leads_ownSupertypes]
  exact DepthFirst.transGen_of_cycle? h

end Scope

/-! ### Collisions -/

namespace TypeLookup

variable {look : TypeLookup} {r x : TypeRef} {p : PropertyRef} {name : String}

theorem propertyName_eq {q : LinkedProperty} (h : look.property? p = some q) :
    look.propertyName p = q.name := by
  rw [propertyName, h]
  rfl

theorem declares_iff : look.Declares r p name ↔
    (ReflTransGen (Leads look.supertypes) r p.owner ∧ (look.property? p).isSome) ∧
      look.propertyName p = name := by
  rw [Declares, and_assoc]
  refine and_congr_right fun _ => ⟨?_, ?_⟩
  · rintro ⟨q, hq, rfl⟩
    exact ⟨Option.isSome_of_eq_some hq, propertyName_eq hq⟩
  · rintro ⟨hsome, rfl⟩
    obtain ⟨q, hq⟩ := Option.isSome_iff_exists.1 hsome
    exact ⟨q, hq, (propertyName_eq hq).symm⟩

/-- What comes together in a type comes together in every type that extends it. -/
theorem Collides.of_extends (h : look.Collides x name)
    (hx : ReflTransGen (Leads look.supertypes) r x) : look.Collides r name := by
  obtain ⟨p, q, hne, ⟨hp, hpname⟩, hq, hqname⟩ := h
  exact ⟨p, q, hne, ⟨hx.trans hp, hpname⟩, hx.trans hq, hqname⟩

/-- Only in types can properties come together. -/
theorem Collides.exists_type (h : look.Collides r name) : ∃ t, look r = some t := by
  obtain ⟨p, -, -, ⟨hextends, q, hq, -⟩, -⟩ := h
  rcases hextends.cases_head with rfl | ⟨x, hx, -⟩
  · obtain ⟨t, ht, -⟩ := Option.bind_eq_some_iff.1 hq
    exact ⟨t, ht⟩
  · rcases mem_supertypes.1 hx with hbase | hinterface
    · obtain ⟨t, -, ht, -⟩ := base?_eq_some.1 hbase
      exact ⟨t, ht⟩
    · obtain ⟨t, -, ht, -⟩ := mem_interfacesOf.1 hinterface
      exact ⟨t, ht⟩

end TypeLookup

namespace Workspace

variable {w : Workspace} {r : TypeRef} {ps : List PropertyRef} {name : String}

/-- In a type that can be flattened nothing collides. -/
theorem Flattens.not_collides (h : w.Flattens r ps) : ¬TypeLookup.Collides w.type? r name := by
  rintro ⟨p, q, hne, hp, hq⟩
  obtain ⟨hp, hpname⟩ := TypeLookup.declares_iff.1 hp
  obtain ⟨hq, hqname⟩ := TypeLookup.declares_iff.1 hq
  exact hne (List.inj_on_of_nodup_map h.nodup_names ((h.mem_iff p).2 hp) ((h.mem_iff q).2 hq)
    (hpname.trans hqname.symm))

end Workspace

namespace Scope

variable {s : Scope}

/-- A name that comes again comes after itself. -/
theorem eq_append_of_repeated? {before ns : List String} {n : String}
    (h : repeated? before ns = some n) :
    ∃ ms ks, ns = ms ++ n :: ks ∧ (n ∈ before ∨ n ∈ ms) := by
  induction ns generalizing before with
  | nil => contradiction
  | cons m ns ih =>
      rw [repeated?] at h
      split at h
      · rename_i hm
        obtain rfl := Option.some.inj h
        exact ⟨[], ns, rfl, .inl hm⟩
      · obtain ⟨ms, ks, rfl, hn⟩ := ih h
        refine ⟨m :: ms, ks, rfl, ?_⟩
        simp only [List.mem_cons] at hn ⊢
        tauto

/-- The property that is found comes after another one of its name. -/
theorem eq_append_of_collision? {ps : List PropertyRef} {name : String}
    (h : s.collision? ps = some name) :
    ∃ before p q after, ps = before ++ q :: after ∧ p ∈ before ∧
      TypeLookup.propertyName s.type? p = name ∧ TypeLookup.propertyName s.type? q = name := by
  obtain ⟨ms, ks, heq, hmem⟩ := eq_append_of_repeated? h
  obtain ⟨before, rest, rfl, rfl, hrest⟩ := List.map_eq_append_iff.1 heq
  obtain ⟨q, after, rfl, hq, -⟩ := List.map_eq_cons_iff.1 hrest
  obtain ⟨p, hp, hpname⟩ := List.mem_map.1 (hmem.resolve_left List.not_mem_nil)
  exact ⟨before, p, q, after, rfl, hp, hpname, hq⟩

section Flattening

variable {w : Workspace} (hs : s.Shows w) (hw : w.Navigable)
  (hstored : ∀ r, r.schema ≠ s.unit.key → w.Flattens r (s.workspace.derivedOf r).effective)
  {r : TypeRef} {rs : List TypeRef} {e : CompileError}

include hs hw

/-- A type whose bases are flattened is refused for a name that collides in it. -/
theorem Shows.effectiveAlong_cons_error {bases : List TypeRef}
    (hgathered : ∀ inherited, s.effectiveAlong bases = .ok inherited →
      w.Gathered r inherited (s.interfacesReached bases) (s.newInterfaces r bases))
    (h : s.effectiveAlong (r :: bases) = .error e) :
    s.effectiveAlong bases = .error e ∨ r.schema = s.unit.key ∧ ∃ name,
      e = .propertyCollision s.unit.source (TypeLookup.typeName w.type? r) name ∧
      TypeLookup.Collides w.type? r name := by
  rw [effectiveAlong] at h
  split at h
  · contradiction
  · rename_i hr
    rcases bind_eq_error.1 h with h | ⟨inherited, hinherited, h⟩
    · exact .inl h
    simp only at h
    split at h
    · rename_i name hcollision
      obtain rfl := Except.error.inj h
      refine .inr ⟨not_not.1 hr, name, by rw [hs.type?_eq], ?_⟩
      have hgathered := hgathered inherited hinherited
      have hnodup := hgathered.nodup hw
      have hmem := hgathered.mem_iff hw.wellTyped
      obtain ⟨before, p, q, after, heq, hp, hpname, hqname⟩ := eq_append_of_collision? hcollision
      rw [ownProperties, hs.type?_eq] at heq
      rw [hs.type?_eq] at hpname hqname
      rw [heq] at hnodup hmem
      exact ⟨p, q, (List.nodup_append.1 hnodup).2.2 p hp q (by simp),
        TypeLookup.declares_iff.2 ⟨(hmem p).1 (by simp [hp]), hpname⟩,
        TypeLookup.declares_iff.2 ⟨(hmem q).1 (by simp), hqname⟩⟩
    · contradiction

include hstored

/-- A lineage is refused for a name that collides in one of its types, the first from the top. -/
theorem Shows.effectiveAlong_error (hrs : Lineage w.base? r rs)
    (h : s.effectiveAlong rs = .error e) : ∃ x name, w.Extends r x ∧ x.schema = s.unit.key ∧
      e = .propertyCollision s.unit.source (TypeLookup.typeName w.type? x) name ∧
      TypeLookup.Collides w.type? x name := by
  induction hrs with
  | @last r hnone =>
      rcases hs.effectiveAlong_cons_error hw (fun inherited hinherited => by
        obtain rfl : [] = inherited := Except.ok.inj hinherited
        exact hs.gathered_last hw hnone) h with h | ⟨hr, name, he, hcollides⟩
      · contradiction
      · exact ⟨r, name, .refl, hr, he, hcollides⟩
  | @step r b bases hbase hbases ih =>
      rcases hs.effectiveAlong_cons_error hw (fun _ hinherited =>
        hs.gathered_step hw hbase hbases (hs.flattens hw hstored hbases hinherited)) h
        with h | ⟨hr, name, he, hcollides⟩
      · obtain ⟨x, name, hbx, hx, he, hcollides⟩ := ih h
        exact ⟨x, name, hbx.head (TypeLookup.mem_supertypes.2 (.inl hbase)), hx, he, hcollides⟩
      · exact ⟨r, name, .refl, hr, he, hcollides⟩

/-- A type has effective properties if and only if nothing collides in it. -/
theorem Shows.effectiveAlong_isOk_iff (hrs : Lineage w.base? r rs) :
    (∃ ps, s.effectiveAlong rs = .ok ps) ↔ ∀ name, ¬TypeLookup.Collides w.type? r name := by
  constructor
  · rintro ⟨ps, hps⟩ name
    exact (hs.flattens hw hstored hrs hps).not_collides
  · intro hfree
    cases h : s.effectiveAlong rs with
    | ok ps => exact ⟨ps, rfl⟩
    | error e =>
        obtain ⟨x, name, hrx, -, -, hcollides⟩ := hs.effectiveAlong_error hw hstored hrs h
        exact absurd (hcollides.of_extends hrx) (hfree name)

end Flattening

/-! ### Keys -/

theorem keyComponent_isOk_iff {r : TypeRef} {type : String} {p : LinkedProperty} {i : Nat} :
    (∃ c, s.keyComponent r type p i = .ok c) ↔ p.type.CanBeKey s.workspace.primitives := by
  constructor
  · rintro ⟨c, hc⟩
    have hreads := keyComponent_ok hc
    obtain ⟨q, hq, hkey, -⟩ := hreads.primitive
    exact ⟨c.primitive, q, hreads.type, hq, hkey⟩
  · rintro ⟨id, q, htype, hq, hkey⟩
    rw [keyComponent, htype]
    simp only [hq, hkey, if_true]
    exact ⟨_, rfl⟩

/-- A type has a layout if and only if its own key components can be keys. -/
theorem keyLayout_isOk_iff {r : TypeRef} {t : LinkedType} : (∃ l, s.keyLayout r t = .ok l) ↔
    ∀ p ∈ t.properties, p.role = .primaryKey → p.type.CanBeKey s.workspace.primitives := by
  have hcomponents : (∃ l, s.keyLayout r t = .ok l) ↔
      ∃ cs, List.Forall₂ (fun p c => s.keyComponent r t.name p.1 p.2 = .ok c) t.keyProperties cs := by
    simp only [keyLayout, bind_eq_ok, pure_eq_ok, mapM_eq_ok, UserType.keyProperties]
    constructor
    · rintro ⟨_, cs, hcs, -⟩
      exact ⟨cs, hcs⟩
    · rintro ⟨cs, hcs⟩
      exact ⟨_, cs, hcs, rfl⟩
  rw [hcomponents, exists_forall₂_iff]
  simp only [keyComponent_isOk_iff, UserType.keyProperties, List.mem_filter, decide_eq_true_eq]
  constructor
  · intro h p hp hrole
    obtain ⟨i, hi⟩ := List.getElem?_of_mem hp
    exact h (p, i) ⟨List.mk_mem_zipIdx_iff_getElem?.2 hi, hrole⟩
  · rintro h ⟨p, i⟩ ⟨hp, hrole⟩
    exact h p (List.mem_of_getElem? (List.mk_mem_zipIdx_iff_getElem?.1 hp)) hrole

theorem keyComponent_error {r : TypeRef} {type : String} {p : LinkedProperty} {i : Nat}
    {e : CompileError} (h : s.keyComponent r type p i = .error e) :
    e = .keyNotCapable s.unit.source type p.name (s.typeName p.type) .primaryKey := by
  rw [keyComponent] at h
  split at h
  · split at h
    · split at h
      · contradiction
      · exact (Except.error.inj h).symm
    · exact (Except.error.inj h).symm
  · exact (Except.error.inj h).symm

theorem keyLayout_error {r : TypeRef} {t : LinkedType} {e : CompileError}
    (h : s.keyLayout r t = .error e) :
    ∃ property found, e = .keyNotCapable s.unit.source t.name property found .primaryKey := by
  rw [keyLayout] at h
  rcases bind_eq_error.1 h with h | ⟨_, -, h⟩
  · obtain ⟨_, p, _, -, -, hp⟩ := mapM_eq_error h
    exact ⟨p.1.name, s.typeName p.1.type, keyComponent_error hp⟩
  · contradiction

/-! ### Types of a unit -/

theorem derive_enum_isOk {i : Nat} {t : LinkedType} {b : EnumBody} (hbody : t.body = .enum b) :
    ∃ d, s.derive i t = .ok d := by
  rw [derive, hbody]
  exact ⟨_, rfl⟩

theorem derive_composite_isOk_iff {i : Nat} {t : LinkedType} {c : LinkedComposite}
    (hbody : t.body = .composite c) :
    (∃ d, s.derive i t = .ok d) ↔ (∃ ps, s.effective ⟨s.unit.key, i⟩ = .ok ps) ∧
      (t.kind = .entity → s.root ⟨s.unit.key, i⟩ = ⟨s.unit.key, i⟩ →
        ∃ l, s.keyLayout ⟨s.unit.key, i⟩ t = .ok l) := by
  rw [derive, hbody]
  simp only [bind_eq_ok]
  constructor
  · rintro ⟨d, ps, hps, hd⟩
    refine ⟨⟨ps, hps⟩, fun hentity hroot => ?_⟩
    rw [if_pos hentity, if_pos hroot] at hd
    obtain ⟨l, hl, -⟩ := bind_eq_ok.1 hd
    exact ⟨l, hl⟩
  · rintro ⟨⟨ps, hps⟩, hlayout⟩
    by_cases hentity : t.kind = .entity
    · by_cases hroot : s.root ⟨s.unit.key, i⟩ = ⟨s.unit.key, i⟩
      · obtain ⟨l, hl⟩ := hlayout hentity hroot
        simp only [if_pos hentity, if_pos hroot, hl]
        exact ⟨_, ps, hps, rfl⟩
      · simp only [if_pos hentity, if_neg hroot]
        exact ⟨_, ps, hps, rfl⟩
    · simp only [if_neg hentity]
      exact ⟨_, ps, hps, rfl⟩

theorem derive_error {i : Nat} {t : LinkedType} {e : CompileError} (h : s.derive i t = .error e) :
    s.effective ⟨s.unit.key, i⟩ = .error e ∨ s.keyLayout ⟨s.unit.key, i⟩ t = .error e := by
  rw [derive] at h
  split at h
  · contradiction
  · rcases bind_eq_error.1 h with h | ⟨_, -, h⟩
    · exact .inl h
    · split at h
      · simp only at h
        split at h
        · rcases bind_eq_error.1 h with h | ⟨_, -, h⟩
          · exact .inr h
          · contradiction
        · contradiction
      · contradiction

/-- The workspace shows the types of the unit under its key. -/
theorem Shows.type?_unit {w : Workspace} (h : s.Shows w) (i : Nat) :
    w.type? ⟨s.unit.key, i⟩ = s.unit.types[i]? := by
  rw [← h.type?_eq, type?_own rfl]

section Deriving

variable {w : Workspace} (hs : s.Shows w) (hw : w.Navigable)
  (hstored : ∀ r, r.schema ≠ s.unit.key → w.Flattens r (s.workspace.derivedOf r).effective)
  {i : Nat} {t : LinkedType} (ht : s.unit.types[i]? = some t)

include hs hw hstored ht

/-- Everything can be derived of a type in which nothing collides and whose key, if it has one of
its own, consists of primitives that can be keys. -/
theorem Shows.derive_isOk_iff : (∃ d, s.derive i t = .ok d) ↔
    (∀ name, ¬TypeLookup.Collides w.type? ⟨s.unit.key, i⟩ name) ∧
      (t.kind = .entity → ∀ c, t.body = .composite c → c.base = none →
        ∀ p ∈ c.properties, p.role = .primaryKey → p.type.CanBeKey s.workspace.primitives) := by
  have ht : w.type? ⟨s.unit.key, i⟩ = some t := (hs.type?_unit i).trans ht
  cases hbody : t.body with
  | enum b =>
      have hnil : w.Flattens ⟨s.unit.key, i⟩ [] :=
        Workspace.flattens_nil (TypeLookup.composite?_eq_none ht hbody)
      simp [derive_enum_isOk hbody, hnil.not_collides]
  | composite c =>
      have hbase : w.base? ⟨s.unit.key, i⟩ = c.base := TypeLookup.base?_eq ht hbody
      rw [derive_composite_isOk_iff hbody, hs.root_eq_iff hw ht, hbase, keyLayout_isOk_iff,
        UserType.properties_eq hbody, effective,
        hs.effectiveAlong_isOk_iff hw hstored (hs.lineage hw ht)]
      refine and_congr_right fun _ => ⟨?_, fun h hentity => h hentity c rfl⟩
      rintro h hentity c' ⟨⟩
      exact h hentity

/-- A type of which something cannot be derived is refused for a name that collides in it or in a
base of it, or for a key component. -/
theorem Shows.derive_error_cases {e : CompileError} (h : s.derive i t = .error e) :
    (∃ j t' name, s.unit.types[j]? = some t' ∧
      e = .propertyCollision s.unit.source t'.name name ∧
      TypeLookup.Collides w.type? ⟨s.unit.key, j⟩ name) ∨
    ∃ property found, e = .keyNotCapable s.unit.source t.name property found .primaryKey := by
  rcases derive_error h with h | h
  · have ht : w.type? ⟨s.unit.key, i⟩ = some t := (hs.type?_unit i).trans ht
    obtain ⟨⟨key, j⟩, name, -, rfl, rfl, hcollides⟩ :=
      hs.effectiveAlong_error hw hstored (hs.lineage hw ht) h
    obtain ⟨t', ht'⟩ := hcollides.exists_type
    refine .inl ⟨j, t', name, ?_, ?_, hcollides⟩
    · rwa [hs.type?_unit] at ht'
    · rw [TypeLookup.typeName, ht']
      rfl
  · exact .inr (keyLayout_error h)

end Deriving

end Scope

/-! ### Finished units -/

/-- Finishing a unit with another search for cycles. -/
def Linked.finishBy (find : (Nat → List Nat) → List Nat → Option Nat) (w : Workspace)
    (u : Linked) : Except CompileError Schema :=
  let s : Scope := ⟨w, u⟩
  match find s.ownSupertypes (List.range u.types.length) with
  | some i => .error (.inheritanceCycle u.source ((u.types[i]?.map UserType.name).getD ""))
  | none => do
    let derived ← u.types.zipIdx.mapM fun t => s.derive t.2 t.1
    return { u with derived }

/-- Finishing a draft with another search for cycles. -/
def Draft.finishBy (find : (Nat → List Nat) → List Nat → Option Nat) (w : Workspace)
    (d : Draft) : Except Failure Schema :=
  match d.link with
  | .error _ => .error .readTooEarly
  | .ok u => (u.finishBy find w).mapError .refused

namespace Linked

variable {w : Workspace} {u : Linked}

/-- With any search that finds the cycles, a unit is refused for a type that extends itself if there
is one, and finished as ever if there is none. -/
theorem finishBy_cases {find : (Nat → List Nat) → List Nat → Option Nat}
    (hfind : DepthFirst.FindsCycles find) :
    (∃ i t, u.types[i]? = some t ∧ TransGen u.Under i i ∧
      u.finishBy find w = .error (.inheritanceCycle u.source t.name)) ∨
    (∀ i, ¬TransGen u.Under i i) ∧ u.finishBy find w = u.finish w := by
  have hnodes := Scope.mem_range_of_ownSupertypes (s := ⟨w, u⟩)
  rw [finishBy]
  cases hfound : find (Scope.mk w u).ownSupertypes (List.range u.types.length) with
  | some i =>
      have hi := hfind.transGen_self hnodes hfound
      rw [Scope.leads_ownSupertypes] at hi
      obtain ⟨j, ⟨t, _, ht, -⟩, -⟩ := TransGen.head'_iff.1 hi
      exact .inl ⟨i, t, ht, hi, by simp only [ht]; rfl⟩
  | none =>
      have hacyclic := (hfind.eq_none_iff hnodes).1 hfound
      rw [Scope.leads_ownSupertypes] at hacyclic
      exact .inr ⟨hacyclic, by rw [finish, Scope.acyclic_iff.2 hacyclic]⟩

theorem finish_isOk_iff : (∃ s, u.finish w = .ok s) ↔
    (Scope.mk w u).hierarchyCycle? = none ∧
      ∀ i t, u.types[i]? = some t → ∃ d, (Scope.mk w u).derive i t = .ok d := by
  have hderived : (∃ ds, u.types.zipIdx.mapM (fun t => (Scope.mk w u).derive t.2 t.1) = .ok ds) ↔
      ∀ i t, u.types[i]? = some t → ∃ d, (Scope.mk w u).derive i t = .ok d := by
    simp only [mapM_eq_ok, exists_forall₂_iff, Prod.forall, List.mk_mem_zipIdx_iff_getElem?]
    exact forall_comm
  rw [← hderived]
  constructor
  · rintro ⟨s, hs⟩
    obtain ⟨-, hcycle, hderived⟩ := finish_ok hs
    exact ⟨hcycle, s.derived, hderived⟩
  · rintro ⟨hcycle, ds, hds⟩
    refine ⟨{ u with derived := ds }, ?_⟩
    simp only [finish, hcycle, hds]
    rfl

/-- A unit is refused for a type that extends itself before anything else is looked at. -/
theorem finish_error {e : CompileError} (h : u.finish w = .error e) :
    (∃ i t, u.types[i]? = some t ∧ TransGen u.Under i i ∧ e = .inheritanceCycle u.source t.name) ∨
    (Scope.mk w u).hierarchyCycle? = none ∧
      ∃ i t, u.types[i]? = some t ∧ (Scope.mk w u).derive i t = .error e := by
  rw [finish] at h
  split at h
  · rename_i i hcycle
    obtain ⟨⟨t, (ht : u.types[i]? = some t)⟩, hi⟩ := Scope.hierarchyCycle?_eq_some hcycle
    obtain rfl := Except.error.inj h
    refine .inl ⟨i, t, ht, hi, ?_⟩
    rw [ht]
    rfl
  · rename_i hcycle
    rcases bind_eq_error.1 h with h | ⟨_, -, h⟩
    · obtain ⟨before, ⟨t, i⟩, after, heq, -, h⟩ := mapM_eq_error h
      have hmem : (t, i) ∈ u.types.zipIdx := by simp [heq]
      exact .inr ⟨hcycle, i, t, List.mk_mem_zipIdx_iff_getElem?.1 hmem, h⟩
    · contradiction

namespace DraftedIn

variable (hw : w.Layered) (hflat : w.Flattened) (h : u.DraftedIn w)

include hw hflat h

/-- What finishing a unit without a cycle sees can be followed upwards, and what is stored of the
published types still flattens the hierarchies above them. -/
theorem exists_shows (hcycle : (Scope.mk w u).hierarchyCycle? = none) :
    ∃ v, (Scope.mk w u).Shows v ∧ v.Navigable ∧
      ∀ r, r.schema ≠ u.key → v.Flattens r (w.derivedOf r).effective := by
  let s : Schema := { u with derived := [] }
  have hs : DraftedIn w s.toSchemaOf := h
  refine ⟨w.publish s, ⟨Scope.type?_eq_publish hs.key_eq, Scope.refs_eq_publish (s := s)⟩,
    hs.navigable hw hcycle, fun r hr => ?_⟩
  exact (hflat.flattens r).publish hw.wellTyped fun heq => hr (heq.trans h.key_eq.symm)

theorem finish_isOk_iff_sound : (∃ s, u.finish w = .ok s) ↔ (Scope.mk w u).SoundHierarchy := by
  rw [finish_isOk_iff]
  constructor
  · rintro ⟨hcycle, hderived⟩
    obtain ⟨v, hs, hv, hstored⟩ := h.exists_shows hw hflat hcycle
    refine ⟨Scope.acyclic_iff.1 hcycle, fun i t name ht => ?_, fun t ht c hbody => ?_⟩
    · rw [hs.type?_eq]
      exact ((hs.derive_isOk_iff hv hstored ht).1 (hderived i t ht)).1 name
    · obtain ⟨i, hi⟩ := List.getElem?_of_mem ht
      exact ((hs.derive_isOk_iff hv hstored hi).1 (hderived i t hi)).2 c hbody
  · rintro ⟨hacyclic, hfree, hkeys⟩
    have hcycle := Scope.acyclic_iff.2 hacyclic
    obtain ⟨v, hs, hv, hstored⟩ := h.exists_shows hw hflat hcycle
    rw [hs.type?_eq] at hfree
    exact ⟨hcycle, fun i t ht => (hs.derive_isOk_iff hv hstored ht).2
      ⟨fun name => hfree i t name ht, hkeys t (List.mem_of_getElem? ht)⟩⟩

/-- What a unit is refused for is there. -/
theorem finish_error_cases {e : CompileError} (he : u.finish w = .error e) :
    (∃ i t, u.types[i]? = some t ∧ TransGen u.Under i i ∧ e = .inheritanceCycle u.source t.name) ∨
    (∃ i t name, u.types[i]? = some t ∧ e = .propertyCollision u.source t.name name ∧
      TypeLookup.Collides (Scope.mk w u).type? ⟨u.key, i⟩ name) ∨
    ∃ type property found, e = .keyNotCapable u.source type property found .primaryKey := by
  rcases finish_error he with hcycle | ⟨hcycle, i, t, ht, hderive⟩
  · exact .inl hcycle
  · obtain ⟨v, hs, hv, hstored⟩ := h.exists_shows hw hflat hcycle
    rw [hs.type?_eq]
    rcases hs.derive_error_cases hv hstored ht hderive with hcollision | ⟨property, found, hkey⟩
    · exact .inr (.inl hcollision)
    · exact .inr (.inr ⟨t.name, property, found, hkey⟩)

variable {find : (Nat → List Nat) → List Nat → Option Nat} (hfind : DepthFirst.FindsCycles find)

include hfind

theorem finishBy_isOk_iff_sound :
    (∃ s, u.finishBy find w = .ok s) ↔ (Scope.mk w u).SoundHierarchy := by
  rcases finishBy_cases hfind (w := w) (u := u) with ⟨i, t, -, hi, heq⟩ | ⟨-, heq⟩
  · rw [heq]
    exact iff_of_false (fun ⟨_, h⟩ => by cases h) fun hsound => hsound.acyclic i hi
  · rw [heq]
    exact h.finish_isOk_iff_sound hw hflat

theorem finishBy_error_cases {e : CompileError} (he : u.finishBy find w = .error e) :
    (∃ i t, u.types[i]? = some t ∧ TransGen u.Under i i ∧ e = .inheritanceCycle u.source t.name) ∨
    (∃ i t name, u.types[i]? = some t ∧ e = .propertyCollision u.source t.name name ∧
      TypeLookup.Collides (Scope.mk w u).type? ⟨u.key, i⟩ name) ∨
    ∃ type property found, e = .keyNotCapable u.source type property found .primaryKey := by
  rcases finishBy_cases hfind (w := w) (u := u) with ⟨i, t, ht, hi, heq⟩ | ⟨-, heq⟩
  · exact .inl ⟨i, t, ht, hi, Except.error.inj (he.symm.trans heq)⟩
  · exact h.finish_error_cases hw hflat (heq.symm.trans he)

end DraftedIn

end Linked

/-- In a workspace whose stored lists flatten the hierarchies above its types, a unit that is drafted
and fully resolved is finished if and only if its own hierarchy is sound. It is refused for a cycle
exactly when one of its types extends itself, whatever else is wrong with it; the type that is named
does. A name for which it is refused collides in the type that is named. All this holds whichever
search for cycles is used, of which the depth-first one of `Draft.finish` is an instance. -/
theorem finish_accepts_sound_hierarchies {w : Workspace} {unit : SourceId}
    {declaration : Declaration} {draft resolved : Draft} (hw : w.Layered) (hflat : w.Flattened)
    (hdraft : Draft.ofDeclaration w unit declaration = .ok draft)
    (hresolve : draft.resolve w = (resolved, .ok ())) :
    ∃ u, resolved.link = .ok u ∧
      DepthFirst.FindsCycles (DepthFirst.cycle? (α := Nat)) ∧
      resolved.finish w = resolved.finishBy DepthFirst.cycle? w ∧
      ∀ find, DepthFirst.FindsCycles find →
        ((∃ s, resolved.finishBy find w = .ok s) ↔ (Scope.mk w u).SoundHierarchy) ∧
        ((∃ source name,
            resolved.finishBy find w = .error (.refused (.inheritanceCycle source name))) ↔
          ∃ i, TransGen u.Under i i) ∧
        (∀ source name,
          resolved.finishBy find w = .error (.refused (.inheritanceCycle source name)) →
          ∃ i t, u.types[i]? = some t ∧ t.name = name ∧ TransGen u.Under i i) ∧
        ∀ source type name,
          resolved.finishBy find w = .error (.refused (.propertyCollision source type name)) →
          ∃ i t, u.types[i]? = some t ∧ t.name = type ∧
            TypeLookup.Collides (Scope.mk w u).type? ⟨u.key, i⟩ name := by
  obtain ⟨-, u, hlink, hu⟩ := Draft.resolve_ok hresolve
  have h : u.DraftedIn w := ⟨unit, declaration, draft, hdraft, hu⟩
  refine ⟨u, hlink, DepthFirst.findsCycles_cycle?, rfl, fun find hfind => ?_⟩
  have hok : ∀ s, resolved.finishBy find w = .ok s ↔ u.finishBy find w = .ok s := by
    intro s
    simp only [Draft.finishBy, hlink, mapError_eq_ok]
  have herror : ∀ e,
      resolved.finishBy find w = .error (.refused e) ↔ u.finishBy find w = .error e := by
    intro e
    simp only [Draft.finishBy, hlink]
    cases u.finishBy find w <;> simp [Except.mapError]
  simp only [hok, herror]
  have hnamed : ∀ source name, u.finishBy find w = .error (.inheritanceCycle source name) →
      ∃ i t, u.types[i]? = some t ∧ t.name = name ∧ TransGen u.Under i i := by
    intro source name he
    rcases h.finishBy_error_cases hw hflat hfind he with
      ⟨i, t, ht, hi, heq⟩ | ⟨_, _, _, -, heq, -⟩ | ⟨_, _, _, heq⟩
    · injection heq with _ hname
      exact ⟨i, t, ht, hname.symm, hi⟩
    · contradiction
    · contradiction
  refine ⟨h.finishBy_isOk_iff_sound hw hflat hfind, ⟨?_, ?_⟩, hnamed, ?_⟩
  · rintro ⟨source, name, he⟩
    obtain ⟨i, -, -, -, hi⟩ := hnamed source name he
    exact ⟨i, hi⟩
  · rintro ⟨i, hi⟩
    rcases Linked.finishBy_cases hfind (w := w) (u := u) with ⟨_, t, -, -, heq⟩ | ⟨hacyclic, -⟩
    · exact ⟨_, _, heq⟩
    · exact absurd hi (hacyclic i)
  · intro source type name he
    rcases h.finishBy_error_cases hw hflat hfind he with
      ⟨_, _, -, -, heq⟩ | ⟨i, t, _, ht, heq, hcollides⟩ | ⟨_, _, _, heq⟩
    · contradiction
    · injection heq with _ htype hname
      rw [htype, hname]
      exact ⟨i, t, ht, rfl, hcollides⟩
    · contradiction

/-- A struct with an interface that its base has as well, both of another schema, and an entity with
that interface. The name is that of the only property of the struct. -/
def diamondDeclaration (name : String) : Declaration where
  name := some "D"
  imports := [{ source := "a" }]
  types := [
    .struct { name := some "T", base := some "A.S", interfaces := ["A.I"], properties := [
      { name := some name, typeText := some "int" }] },
    .entity { name := some "E", interfaces := ["A.I"], properties := [
      { name := some "id", typeText := some "int", role := .primaryKey }] }]

/-- The interface that comes in on both ways does not collide with itself, but with a property of the
struct that has the name of its own. -/
theorem finish_accepts_sound_hierarchies_diamond :
    importedWorkspace.Layered ∧ importedWorkspace.Flattened ∧
    (∃ d resolved u, Draft.ofDeclaration importedWorkspace "d" (diamondDeclaration "z") = .ok d ∧
      d.resolve importedWorkspace = (resolved, .ok ()) ∧ resolved.link = .ok u ∧
      (Scope.mk importedWorkspace u).SoundHierarchy) ∧
    ∃ d resolved u, Draft.ofDeclaration importedWorkspace "d" (diamondDeclaration "x") = .ok d ∧
      d.resolve importedWorkspace = (resolved, .ok ()) ∧ resolved.link = .ok u ∧
      ∃ i t, u.types[i]? = some t ∧ t.name = "T" ∧
        TypeLookup.Collides (Scope.mk importedWorkspace u).type? ⟨u.key, i⟩ "x" := by
  obtain ⟨hlayered, hflat⟩ := ((Reached.empty [.builtin "int" .int32] {} none).load
    derivingSources.reader ["a"]).layered_flattened
  refine ⟨hlayered, hflat, ?_, ?_⟩
  · have hrun : (Draft.ofDeclaration importedWorkspace "d" (diamondDeclaration "z")).toOption.map
        (fun d => ((d.resolve importedWorkspace).2.toOption,
          ((d.resolve importedWorkspace).1.finish importedWorkspace).toOption.isSome)) =
            some (some (), true) := by cbv
    obtain ⟨d, hd, hrun⟩ := Option.map_eq_some_iff.1 hrun
    obtain ⟨hresolve, hfinish⟩ := Prod.mk.inj hrun
    obtain ⟨s, hs⟩ := Option.isSome_iff_exists.1 hfinish
    rw [toOption_eq_some] at hd hresolve hs
    have hresolve : d.resolve importedWorkspace = ((d.resolve importedWorkspace).1, .ok ()) :=
      Prod.ext rfl hresolve
    obtain ⟨u, hlink, hfinds, heq, hall⟩ :=
      finish_accepts_sound_hierarchies hlayered hflat hd hresolve
    obtain ⟨hsound, -⟩ := hall _ hfinds
    exact ⟨d, _, u, hd, hresolve, hlink, hsound.1 ⟨s, heq.symm.trans hs⟩⟩
  · have hrun : (Draft.ofDeclaration importedWorkspace "d" (diamondDeclaration "x")).toOption.map
        (fun d => ((d.resolve importedWorkspace).2.toOption,
          (d.resolve importedWorkspace).1.finish importedWorkspace)) =
            some (some (), .error (.refused (.propertyCollision "d" "T" "x"))) := by cbv
    obtain ⟨d, hd, hrun⟩ := Option.map_eq_some_iff.1 hrun
    obtain ⟨hresolve, hfinish⟩ := Prod.mk.inj hrun
    rw [toOption_eq_some] at hd hresolve
    have hresolve : d.resolve importedWorkspace = ((d.resolve importedWorkspace).1, .ok ()) :=
      Prod.ext rfl hresolve
    obtain ⟨u, hlink, hfinds, heq, hall⟩ :=
      finish_accepts_sound_hierarchies hlayered hflat hd hresolve
    obtain ⟨-, -, -, hcollides⟩ := hall _ hfinds
    exact ⟨d, _, u, hd, hresolve, hlink, hcollides "d" "T" "x" (heq.symm.trans hfinish)⟩

end SchemaGraph
