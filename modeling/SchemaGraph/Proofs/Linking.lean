import SchemaGraph.Proofs.Drafts
import SchemaGraph.Resolution

/-!
What a draft becomes when all its references are resolved. Resolution that succeeds leaves nothing
pending, so that the draft can be read, and each part of the unit read from it stands for the
reference that was written in its place.
-/

namespace SchemaGraph

variable {w : Workspace} {d : Draft}

/-! ### Bindings -/

theorem Binding.resolveWith_ok {R T ε : Type} {find : R → Except ε T} {b b' : Binding R T} {v : T}
    (h : b.resolveWith find = (b', .ok v)) :
    b' = .resolved v ∧ ∀ r, b = .pending r → find r = .ok v := by
  cases b with
  | resolved u =>
      simp only [resolveWith, Prod.mk.injEq, Except.ok.injEq] at h
      obtain ⟨rfl, rfl⟩ := h
      simp
  | pending r =>
      rw [resolveWith] at h
      split at h
      · rename_i u hu
        simp only [Prod.mk.injEq, Except.ok.injEq] at h
        obtain ⟨rfl, rfl⟩ := h
        exact ⟨rfl, fun s hs => by rwa [← Binding.pending.inj hs]⟩
      · simp at h

/-! ### References -/

namespace Resolution

theorem elim_eq_ok {α ε : Type} {o : Option α} {e : ε} {a : α} :
    o.elim (.error e) Except.ok = .ok a ↔ o = some a := by
  cases o <;> simp

/-- A clause that resolves names a user-defined type of the expected kind. -/
theorem resolveSupertype_eq_ok {owner : String} {expected : TypeKind} {path : TypePath}
    {r : TypeRef} : resolveSupertype w d owner expected path = .ok r ↔
      ∃ t, resolvePath w d owner path = .ok t ∧ t.userType? = some r ∧
        t = expected.dataType r := by
  rw [resolveSupertype, bind_eq_ok]
  refine exists_congr fun t => and_congr_right fun _ => ?_
  cases ht : t.userType? with
  | none => simp
  | some r' =>
      simp only
      constructor
      · intro h
        split at h
        · rename_i hkind
          obtain rfl := pure_eq_ok.1 h
          exact ⟨rfl, hkind.symm⟩
        · contradiction
      · rintro ⟨hr, hkind⟩
        obtain rfl := Option.some.inj hr
        rw [if_pos hkind.symm]
        rfl

theorem resolveValue_eq_ok {s : Site} {path : TypePath} {t : DataType} :
    resolveValue w d s path = .ok t ↔
      resolvePath w d s.owner path = .ok t ∧ t ≠ .void ∧
        (t.isEntity = true ↔ s.role = .foreignKey) := by
  have hrole : decide (s.role = .foreignKey) = t.isEntity ↔
      (t.isEntity = true ↔ s.role = .foreignKey) := by
    rw [Bool.eq_iff_iff, decide_eq_true_iff]
    exact iff_comm
  rw [resolveValue, bind_eq_ok]
  constructor
  · rintro ⟨found, hfound, h⟩
    obtain ⟨hvoid, h⟩ := check_eq_ok.1 h
    split at h
    · obtain rfl := pure_eq_ok.1 h
      exact ⟨hfound, hvoid, hrole.1 ‹_›⟩
    · contradiction
  · rintro ⟨hfound, hvoid, hentity⟩
    exact ⟨t, hfound, check_eq_ok.2 ⟨hvoid, if_pos (hrole.2 hentity)⟩⟩

theorem resolveMapKey_eq_ok {s : Site} {path : TypePath} {id : PrimitiveId} :
    resolveMapKey w d s path = .ok id ↔
      resolvePath w d s.owner path = .ok (.primitive id) ∧
        ∃ p, w.primitives[id]? = some p ∧ p.canBeKey = true := by
  rw [resolveMapKey, bind_eq_ok]
  constructor
  · rintro ⟨found, hfound, h⟩
    split at h
    · split at h
      · rename_i hkey
        obtain rfl := pure_eq_ok.1 h
        exact ⟨hfound, (Option.any_eq_true _ _).1 hkey⟩
      · contradiction
    · contradiction
  · rintro ⟨hfound, hkey⟩
    exact ⟨_, hfound, if_pos ((Option.any_eq_true _ _).2 hkey)⟩

end Resolution

/-! ### Lists of items -/

/-- If each item that is changed without failure has nothing pending afterwards and can be read, the
same holds of a list of items. -/
theorem Resolution.untilFailure_ok {α β ε ε' : Type} {f : α → α × Except ε Unit} {count : α → Nat}
    {read : α → Except ε' β} {becomes : α → β → Prop} {as bs : List α}
    (hstep : ∀ a b, f a = (b, .ok ()) → count b = 0 ∧ ∃ c, read b = .ok c ∧ becomes a c)
    (h : untilFailure f as = (bs, .ok ())) :
    (∀ b ∈ bs, count b = 0) ∧ ∃ cs, bs.mapM read = .ok cs ∧ List.Forall₂ becomes as cs := by
  induction as generalizing bs with
  | nil =>
      simp only [untilFailure, Prod.mk.injEq, and_true] at h
      subst h
      exact ⟨by simp, [], mapM_eq_ok.2 .nil, .nil⟩
  | cons a as ih =>
      rw [untilFailure] at h
      split at h
      · simp at h
      · rename_i b hb
        simp only [Prod.mk.injEq] at h
        obtain ⟨rfl, hr⟩ := h
        obtain ⟨hcount, c, hread, hc⟩ := hstep a b hb
        obtain ⟨hcounts, cs, hreads, hcs⟩ := ih (Prod.ext rfl hr)
        refine ⟨?_, c :: cs, mapM_eq_ok.2 (.cons hread (mapM_eq_ok.1 hreads)), .cons hc hcs⟩
        rintro e (_ | ⟨_, he⟩)
        · exact hcount
        · exact hcounts e he

/-! ### Parts of a draft and what they become -/

/-- What a property of the type with a name becomes. -/
structure Property.ResolvesTo (w : Workspace) (d : Draft) (type : String)
    (p : Property TypeBinding) (q : LinkedProperty) : Prop where
  name : q.name = p.name
  role : q.role = p.role
  default : q.default = p.default
  metadata : q.metadata = p.metadata
  type : ∀ e, p.type = .pending e →
    Resolution.resolveExpr w d ⟨type, p.name, p.role⟩ e = .ok q.type

structure Composite.ResolvesTo (w : Workspace) (d : Draft) (type : String) (kind : TypeKind)
    (c : Composite BaseBinding InterfacesBinding TypeBinding) (l : LinkedComposite) : Prop where
  isAbstract : l.isAbstract = c.isAbstract
  base : ∀ path, c.base = .pending path →
    path.mapM (Resolution.resolveSupertype w d type kind) = .ok l.base
  interfaces : ∀ paths, c.interfaces = .pending paths →
    paths.mapM (Resolution.resolveSupertype w d type .interface) = .ok l.interfaces
  properties : List.Forall₂ (Property.ResolvesTo w d type) c.properties l.properties

inductive TypeBody.ResolvesTo (w : Workspace) (d : Draft) (type : String) (kind : TypeKind) :
    TypeBody BaseBinding InterfacesBinding TypeBinding →
      TypeBody (Option TypeRef) (List TypeRef) DataType → Prop
  | composite {c : Composite BaseBinding InterfacesBinding TypeBinding}
      {l : LinkedComposite} (h : c.ResolvesTo w d type kind l) :
      ResolvesTo w d type kind (.composite c) (.composite l)
  | enum (e : EnumBody) : ResolvesTo w d type kind (.enum e) (.enum e)

structure DraftType.ResolvesTo (w : Workspace) (d : Draft) (t : DraftType) (l : LinkedType) :
    Prop where
  name : l.name = t.name
  «namespace» : l.namespace = t.namespace
  kind : l.kind = t.kind
  metadata : l.metadata = t.metadata
  body : t.body.ResolvesTo w d t.name t.kind l.body

structure Draft.ResolvesTo (w : Workspace) (d : Draft) (u : Linked) : Prop where
  key : u.key = d.key
  source : u.source = d.source
  name : u.name = d.name
  «namespace» : u.namespace = d.namespace
  imports : u.imports = d.imports
  metadata : u.metadata = d.metadata
  types : List.Forall₂ (DraftType.ResolvesTo w d) d.types u.types

theorem DraftType.ResolvesTo.agrees {t : DraftType} {l : LinkedType} (h : t.ResolvesTo w d l)
    (ht : t.Agrees) : l.Agrees := by
  obtain ⟨_, _, kind, body, _⟩ := t
  obtain ⟨_, _, kind', body', _⟩ := l
  obtain rfl := h.kind
  cases h.body <;> exact ht

theorem Draft.ResolvesTo.typeNames_eq {u : Linked} (h : d.ResolvesTo w u) :
    u.typeNames = d.typeNames := by
  refine List.forall₂_eq_eq_eq ▸ ?_
  rw [SchemaOf.typeNames, SchemaOf.typeNames, List.forall₂_map_left_iff,
    List.forall₂_map_right_iff]
  exact h.types.flip.imp fun _ _ ht => ht.name

/-! ### Resolution -/

theorem foldr_add_eq_zero {α : Type} {f : α → Nat} {as : List α} :
    as.foldr (fun a n => f a + n) 0 = 0 ↔ ∀ a ∈ as, f a = 0 := by
  induction as with
  | nil => simp
  | cons a as ih => simp [ih]

namespace Resolution

theorem resolveProperty_ok {type : String} {p p' : Property TypeBinding}
    (h : resolveProperty w d type p = (p', .ok ())) :
    p'.type.pendingCount = 0 ∧ ∃ q, p'.link = .ok q ∧ p.ResolvesTo w d type q := by
  simp only [resolveProperty, Prod.mk.injEq, map_eq_ok] at h
  obtain ⟨rfl, t, ht, -⟩ := h
  obtain ⟨hb, hfind⟩ := Binding.resolveWith_ok (Prod.ext rfl ht)
  refine ⟨by simp [hb, Binding.pendingCount, Binding.isResolved], { p with type := t }, ?_, ?_⟩
  · simp only [Property.link, hb, Binding.get]
    rfl
  · exact ⟨rfl, rfl, rfl, rfl, hfind⟩

theorem resolveComposite_ok {type : String} {kind : TypeKind}
    {c c' : Composite BaseBinding InterfacesBinding TypeBinding}
    (h : resolveComposite w d type kind c = (c', .ok ())) :
    c'.base.pendingCount = 0 ∧ c'.interfaces.pendingCount = 0 ∧
      (∀ p ∈ c'.properties, p.type.pendingCount = 0) ∧
      ∃ l, c'.link = .ok l ∧ c.ResolvesTo w d type kind l := by
  rw [resolveComposite] at h
  split at h
  · simp at h
  · rename_i base b hbase
    split at h
    · simp at h
    · rename_i interfaces is hinterfaces
      simp only [Prod.mk.injEq] at h
      obtain ⟨rfl, hproperties⟩ := h
      obtain ⟨rfl, hfindBase⟩ := Binding.resolveWith_ok hbase
      obtain ⟨rfl, hfindInterfaces⟩ := Binding.resolveWith_ok hinterfaces
      obtain ⟨hcounts, qs, hlinks, hqs⟩ :=
        untilFailure_ok (fun _ _ => resolveProperty_ok) (Prod.ext rfl hproperties)
      refine ⟨rfl, rfl, hcounts, ⟨c.isAbstract, b, is, qs⟩, ?_, ⟨rfl, ?_, ?_, hqs⟩⟩
      · simp only [Composite.link, Binding.get, hlinks]
        rfl
      · exact hfindBase
      · exact hfindInterfaces

theorem resolveType_ok {t t' : DraftType} (h : resolveType w d t = (t', .ok ())) :
    DraftType.pendingCount t' = 0 ∧ ∃ l, DraftType.link t' = .ok l ∧ t.ResolvesTo w d l := by
  obtain ⟨name, ns, kind, body, metadata⟩ := t
  rw [resolveType] at h
  split at h
  · rename_i e he
    simp only at he
    subst he
    simp only [Prod.mk.injEq, and_true] at h
    subst h
    refine ⟨rfl, ⟨name, ns, kind, .enum e, metadata⟩, rfl, ⟨rfl, rfl, rfl, rfl, .enum e⟩⟩
  · rename_i c hc
    simp only at hc
    subst hc
    simp only [Prod.mk.injEq] at h
    obtain ⟨rfl, hr⟩ := h
    obtain ⟨hbase, hinterfaces, hproperties, l, hlink, hl⟩ := resolveComposite_ok (Prod.ext rfl hr)
    refine ⟨?_, ⟨name, ns, kind, .composite l, metadata⟩, ?_, ⟨rfl, rfl, rfl, rfl, .composite hl⟩⟩
    · simp [DraftType.pendingCount, UserType.composite?, hbase, hinterfaces,
        foldr_add_eq_zero.2 hproperties]
    · simp only [DraftType.link, TypeBody.link, hlink]
      rfl

end Resolution

/-- A draft that is resolved has nothing pending and can be read. -/
theorem Draft.resolve_ok {d' : Draft} (h : d.resolve w = (d', .ok ())) :
    d'.pendingCount = 0 ∧ ∃ u, d'.link = .ok u ∧ d.ResolvesTo w u := by
  simp only [Draft.resolve, Prod.mk.injEq] at h
  obtain ⟨rfl, hr⟩ := h
  obtain ⟨hcounts, ls, hlinks, hls⟩ :=
    Resolution.untilFailure_ok (fun _ _ => Resolution.resolveType_ok) (Prod.ext rfl hr)
  refine ⟨foldr_add_eq_zero.2 hcounts,
    ⟨d.key, d.source, d.name, d.namespace, d.imports, ls, d.metadata⟩, ?_,
    ⟨rfl, rfl, rfl, rfl, rfl, rfl, hls⟩⟩
  simp only [Draft.link, hlinks]
  rfl

/-! ### Resolution succeeds -/

theorem Binding.resolveWith_pending {R T ε : Type} {find : R → Except ε T} {r : R} {v : T}
    (h : find r = .ok v) :
    (Binding.pending r).resolveWith find = (.resolved v, .ok v) := by
  rw [resolveWith, h]

namespace Resolution

/-- If each item that can become something is changed without failure and read as that, the same
holds of a list of items. -/
theorem untilFailure_of_forall₂ {α β ε ε' : Type} {f : α → α × Except ε Unit}
    {read : α → Except ε' β} {becomes : α → β → Prop} {as : List α} {cs : List β}
    (hstep : ∀ a ∈ as, ∀ c, becomes a c → ∃ b, f a = (b, .ok ()) ∧ read b = .ok c)
    (h : List.Forall₂ becomes as cs) :
    ∃ bs, untilFailure f as = (bs, .ok ()) ∧ bs.mapM read = .ok cs := by
  induction h with
  | nil => exact ⟨[], rfl, rfl⟩
  | @cons a c as cs hc _ ih =>
      obtain ⟨b, hb, hread⟩ := hstep a (by simp) c hc
      obtain ⟨bs, hbs, hreads⟩ := ih fun a ha => hstep a (List.mem_cons_of_mem _ ha)
      refine ⟨b :: bs, ?_, mapM_eq_ok.2 (.cons hread (mapM_eq_ok.1 hreads))⟩
      simp only [untilFailure, hb, hbs]

theorem resolveProperty_of_resolvesTo {type : String} {p : Property TypeBinding}
    {q : LinkedProperty} {e : TypeExpr} (hp : p.type = .pending e)
    (h : p.ResolvesTo w d type q) :
    ∃ p', resolveProperty w d type p = (p', .ok ()) ∧ p'.link = .ok q := by
  refine ⟨{ p with type := .resolved q.type }, ?_, ?_⟩
  · simp only [resolveProperty, hp, Binding.resolveWith_pending (h.type e hp)]
    rfl
  · obtain ⟨_, _, type', _, _⟩ := q
    obtain ⟨rfl, rfl, rfl, rfl, -⟩ := h
    rfl

theorem resolveComposite_of_resolvesTo {type : String} {kind : TypeKind}
    {c : Composite BaseBinding InterfacesBinding TypeBinding} {l : LinkedComposite}
    (hwaits : c.Waits kind) (h : c.ResolvesTo w d type kind l) :
    ∃ c', resolveComposite w d type kind c = (c', .ok ()) ∧ c'.link = .ok l := by
  obtain ⟨path, hpath, -⟩ := hwaits.base
  obtain ⟨paths, hpaths⟩ := hwaits.interfaces
  obtain ⟨ps, hps, hlinks⟩ := untilFailure_of_forall₂ (fun p hp q hq => by
    obtain ⟨e, he, -⟩ := hwaits.properties p hp
    exact resolveProperty_of_resolvesTo he hq) h.properties
  refine ⟨⟨c.isAbstract, .resolved l.base, .resolved l.interfaces, ps⟩, ?_, ?_⟩
  · simp only [resolveComposite, hpath, hpaths, hps,
      Binding.resolveWith_pending (h.base path hpath),
      Binding.resolveWith_pending (h.interfaces paths hpaths)]
  · obtain ⟨_, base, interfaces, properties⟩ := l
    obtain ⟨rfl, -, -, -⟩ := h
    simp only [Composite.link, Binding.get, hlinks]
    rfl

theorem resolveType_of_resolvesTo {t : DraftType} {l : LinkedType} (hwaits : t.Waits)
    (h : t.ResolvesTo w d l) :
    ∃ t', resolveType w d t = (t', .ok ()) ∧ DraftType.link t' = .ok l := by
  obtain ⟨name, ns, kind, body, metadata⟩ := t
  obtain ⟨name', ns', kind', body', metadata'⟩ := l
  obtain ⟨rfl, rfl, rfl, rfl, hbody⟩ := h
  cases hbody with
  | enum e => exact ⟨_, rfl, rfl⟩
  | @composite c l hl =>
      obtain ⟨c', hc', hlink⟩ := resolveComposite_of_resolvesTo (hwaits c rfl) hl
      refine ⟨⟨name', ns', kind', .composite c', metadata'⟩, ?_, ?_⟩
      · simp only [resolveType, hc']
      · simp only [DraftType.link, TypeBody.link, hlink]
        rfl

end Resolution

/-- A draft whose references wait can be resolved to every unit that it stands for. -/
theorem Draft.resolve_of_resolvesTo {u : Linked} (hwaits : ∀ t ∈ d.types, DraftType.Waits t)
    (h : d.ResolvesTo w u) : ∃ d', d.resolve w = (d', .ok ()) ∧ d'.link = .ok u := by
  obtain ⟨ts, hts, hlinks⟩ := Resolution.untilFailure_of_forall₂
    (fun t ht l hl => Resolution.resolveType_of_resolvesTo (hwaits t ht) hl) h.types
  refine ⟨{ d with types := ts }, ?_, ?_⟩
  · simp only [Draft.resolve, hts]
  · obtain ⟨_, _, _, _, _, types, _⟩ := u
    obtain ⟨rfl, rfl, rfl, rfl, rfl, rfl, -⟩ := h
    simp only [Draft.link, hlinks]
    rfl

end SchemaGraph
