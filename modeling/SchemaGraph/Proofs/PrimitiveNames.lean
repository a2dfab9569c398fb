import SchemaGraph.Proofs.DeclaredNames
import SchemaGraph.Proofs.TypeGraph
import SchemaGraph.Setup

/-!
The primitives of a workspace. They have different names and stay what they were set up to be,
whatever is loaded. Their names can be any texts, but a property can only ask for a primitive whose
name is an identifier.
-/

namespace SchemaGraph

/-! ### Tables -/

namespace PrimitiveTable

variable {t : PrimitiveTable} {name : String} {id : PrimitiveId}

theorem lookup?_eq_none_iff : t.lookup? name = none ↔ name ∉ t.names := by
  simp [lookup?, names]

theorem lookup?_eq_some (h : t.lookup? name = some id) : ∃ p, t[id]? = some p ∧ p.name = name := by
  obtain ⟨hlt, hname, -⟩ := List.findIdx?_eq_some_iff_getElem.1 h
  exact ⟨t[id], List.getElem?_eq_getElem hlt, of_decide_eq_true hname⟩

end PrimitiveTable

/-! ### Setups -/

namespace Setup

variable {setup : Setup} {w : Workspace}

/-- A primitive, unless there is one of its name before it. -/
def entry (done : PrimitiveTable) (p : Primitive) : Except CompileError Primitive :=
  if (done.lookup? p.name).isSome then .error (.duplicatePrimitive p.name) else .ok p

theorem table_eq_inOrder (ps : List Primitive) : table ps = Drafting.inOrder entry ps := by
  rw [table, Drafting.inOrder]
  congr
  funext done p
  rw [PrimitiveTable.register?, entry]
  split <;> rfl

theorem entry_eq_ok {done : PrimitiveTable} {p q : Primitive} :
    entry done p = .ok q ↔ p = q ∧ q.name ∉ done.map Primitive.name := by
  rw [entry, check_eq_ok, Option.not_isSome_iff_eq_none, PrimitiveTable.lookup?_eq_none_iff,
    Except.ok.injEq]
  constructor
  · rintro ⟨hfresh, rfl⟩
    exact ⟨rfl, hfresh⟩
  · rintro ⟨rfl, hfresh⟩
    exact ⟨hfresh, rfl⟩

/-- A table is made of all primitives that it is asked for, and no two of them have one name. -/
theorem table_eq_ok {ps : List Primitive} {t : PrimitiveTable} :
    table ps = .ok t ↔ ps = t ∧ t.names.Nodup := by
  have hentries : Drafting.inOrder entry ps = .ok t ↔
      List.Forall₂ Eq ps t ∧ (t.map Primitive.name).Nodup := by
    refine Drafting.inOrder_eq_ok_iff fun done p q => ?_
    exact entry_eq_ok
  rw [table_eq_inOrder, hentries, List.forall₂_eq_eq_eq, PrimitiveTable.names]

theorem build_ok (h : setup.build = .ok w) :
    w.primitives.names.Nodup ∧ ∃ enumDefault,
      w = { primitives := setup.primitives, containers := setup.containers, enumDefault } := by
  rw [build] at h
  obtain ⟨primitives, htable, h⟩ := bind_eq_ok.1 h
  obtain ⟨rfl, hnodup⟩ := table_eq_ok.1 htable
  split at h
  · obtain rfl := pure_eq_ok.1 h
    exact ⟨hnodup, _, rfl⟩
  · split at h
    · obtain rfl := pure_eq_ok.1 h
      exact ⟨hnodup, _, rfl⟩
    · contradiction

/-- The workspace that a setup of which no name repeats is built to. -/
def start (setup : Setup) : Workspace where
  primitives := setup.primitives
  containers := setup.containers
  enumDefault := PrimitiveTable.ofKind? setup.primitives .int32

/-- Primitives with different names are accepted. -/
theorem build_of_nodup (hnames : (setup.primitives.map Primitive.name).Nodup)
    (hdefault : setup.enumDefault = none) : setup.build = .ok setup.start := by
  rw [build, table_eq_ok.2 ⟨rfl, hnames⟩, hdefault]
  rfl

/-- The workspaces that loads lead to from one that is set up like this. -/
inductive Reaches (setup : Setup) : Workspace → Prop
  | build {w : Workspace} : setup.build = .ok w → Reaches setup w
  | load {w : Workspace} (reader : SourceReader) (roots : List SourceId) :
      Reaches setup w → Reaches setup (w.load reader roots).workspace

end Setup

theorem Grows.primitives_eq {w w' : Workspace} (h : Grows w w') : w'.primitives = w.primitives := by
  induction h with
  | refl => rfl
  | compile _ hstep ih =>
      rw [hstep.eq_publish]
      exact ih

namespace Setup.Reaches

variable {setup : Setup} {w : Workspace}

theorem reached (h : setup.Reaches w) : Reached w := by
  induction h with
  | build hbuild =>
      obtain ⟨-, enumDefault, rfl⟩ := build_ok hbuild
      exact .empty _ _ _
  | load reader roots _ ih => exact ih.load reader roots

theorem primitives_eq (h : setup.Reaches w) :
    w.primitives = setup.primitives ∧ w.primitives.names.Nodup := by
  induction h with
  | build hbuild =>
      obtain ⟨hnodup, enumDefault, rfl⟩ := build_ok hbuild
      exact ⟨rfl, hnodup⟩
  | @load w reader roots _ ih =>
      have hload : (w.load reader roots).workspace.primitives = w.primitives := by
        rcases (w.load_cases reader roots).1 with ⟨-, heq⟩ | ⟨order, -, -, hgrows, -⟩
        · rw [heq]
        · exact hgrows.primitives_eq
      rwa [hload]

end Setup.Reaches

/-! ### Primitives in the types of properties -/

/-- The primitives that a type is made of. -/
def DataType.primitives : DataType → List PrimitiveId
  | .primitive id => [id]
  | .container _ key value => key.toList ++ value.primitives
  | .generic _ | .void | .entity _ | .struct _ | .interface _ | .enum _ => []

/-- The type is made of primitives whose names are identifiers. -/
def DataType.Named (ps : PrimitiveTable) (t : DataType) : Prop :=
  ∀ id ∈ t.primitives, ∃ p, ps[id]? = some p ∧ Text.isIdentifier p.name = true

namespace Resolution

variable {w : Workspace} {d : Draft}

theorem primitives_typeNamed? {β ι τ : Type} {s : SchemaOf β ι τ} {name : String} {t : DataType}
    (h : typeNamed? s name = some t) : t.primitives = [] := by
  obtain ⟨i, u, -, rfl⟩ := typeNamed?_eq_some h
  cases u.kind <;> rfl

theorem named_of_resolvePath {owner : String} {path : TypePath} {t : DataType}
    (hpath : Text.isIdentifier path.name = true) (h : resolvePath w d owner path = .ok t) :
    t.Named w.primitives := by
  -- only a bare name can be that of a primitive; behind an alias there are declared types alone
  have hnone : t.primitives = [] → t.Named w.primitives := fun hnil => by simp [DataType.Named, hnil]
  rw [resolvePath] at h
  split at h
  · have hbare := elim_eq_ok.1 h
    rw [bareName?] at hbare
    split at hbare
    · rename_i u hu
      obtain rfl := Option.some.inj hbare
      exact hnone (primitives_typeNamed? hu)
    · split at hbare
      · rename_i id hid
        obtain rfl := Option.some.inj hbare
        obtain ⟨p, hp, hname⟩ := PrimitiveTable.lookup?_eq_some hid
        simpa [DataType.Named, DataType.primitives, hp, hname] using hpath
      · split at hbare
        · obtain rfl := Option.some.inj hbare
          exact hnone rfl
        · contradiction
  · split at h
    · contradiction
    · split at h
      · exact hnone (primitives_typeNamed? (elim_eq_ok.1 h))
      · split at h
        · contradiction
        · exact hnone (primitives_typeNamed? (elim_eq_ok.1 h))

theorem named_of_resolveExpr {s : Site} {e : TypeExpr} {t : DataType} (he : e.Named)
    (h : resolveExpr w d s e = .ok t) : t.Named w.primitives := by
  cases e with
  | named path =>
      exact named_of_resolvePath (he path (by simp [TypeExpr.paths])) (resolveValue_eq_ok.1 h).1
  | container shape key value =>
      rw [resolveExpr] at h
      obtain ⟨key', hkey, h⟩ := bind_eq_ok.1 h
      obtain ⟨v, hv, h⟩ := bind_eq_ok.1 h
      obtain rfl := pure_eq_ok.1 h
      have hvalue := named_of_resolvePath (he value (by simp [TypeExpr.paths]))
        (resolveValue_eq_ok.1 hv).1
      have hkeys : ∀ id, key' = some id → DataType.Named w.primitives (.primitive id) := by
        rintro id rfl
        cases optionMapM_eq_ok.1 hkey with
        | @some path _ hid =>
            exact named_of_resolvePath (he path (by simp [TypeExpr.paths]))
              (resolveMapKey_eq_ok.1 hid).1
      intro id hid
      rcases List.mem_append.1 hid with hid | hid
      · split at hid
        · exact hkeys id (Option.mem_toList.1 hid) id (by simp [DataType.primitives])
        · simp at hid
      · exact hvalue id hid

end Resolution

section Published

variable {w w' : Workspace} {unit : SourceId} {declaration : Declaration} {s : Schema}

theorem DraftType.ResolvesTo.named {d : Draft} {t : DraftType} {l : LinkedType}
    (h : t.ResolvesTo w d l)
    (ht : ∀ p ∈ UserType.properties t, ∃ e, p.type = .pending e ∧ e.Named) :
    ∀ q ∈ l.properties, q.type.Named w.primitives := by
  obtain ⟨name, ns, kind, body, metadata⟩ := t
  obtain ⟨name', ns', kind', body', metadata'⟩ := l
  obtain ⟨rfl, rfl, rfl, rfl, hbody⟩ := h
  cases hbody with
  | enum e => nofun
  | @composite c l hl =>
      intro q hq
      obtain ⟨p, hp, hresolves⟩ := exists_of_forall₂_right hl.properties hq
      obtain ⟨e, he, hnamed⟩ := ht p hp
      exact Resolution.named_of_resolveExpr hnamed (hresolves.type e he)

theorem Compiles.named (h : Compiles w unit declaration s w') :
    ∀ t ∈ s.types, ∀ q ∈ t.properties, q.type.Named w.primitives := by
  obtain ⟨draft, hdraft, hlinked⟩ := h.exists_draft
  intro t ht
  obtain ⟨d, hd, hresolves⟩ := exists_of_forall₂_right hlinked.types ht
  refine DraftType.ResolvesTo.named hresolves fun p hp => ?_
  obtain ⟨done, q, hdraws⟩ := (Draft.draws_of_ofDeclaration hdraft d hd).drawn.1 p hp
  obtain ⟨e, he, -, hnamed⟩ := Drafting.draftProperty_ok hdraws
  exact ⟨e, he, hnamed⟩

theorem Reached.named (h : Reached w) :
    ∀ s ∈ w.schemas, ∀ t ∈ s.types, ∀ q ∈ t.properties, q.type.Named w.primitives := by
  refine h.induction (P := fun w => ∀ s ∈ w.schemas, ∀ t ∈ s.types, ∀ q ∈ t.properties,
    q.type.Named w.primitives) (by simp) ?_
  intro w unit declaration s w' hw hcompiles t ht
  rw [hcompiles.eq_publish] at ht ⊢
  rcases List.mem_append.1 ht with ht | ht
  · exact hw t ht
  · obtain rfl := List.mem_singleton.1 ht
    exact hcompiles.named

/-- The primitives in the type of a published property have identifiers for names. -/
theorem Reached.named_property (h : Reached w) {q : PropertyRef} {p : LinkedProperty}
    (hp : w.property? q = some p) : p.type.Named w.primitives := by
  obtain ⟨t, ht, hp⟩ := Option.bind_eq_some_iff.1 hp
  obtain ⟨s, hs, ht⟩ := Option.bind_eq_some_iff.1 ht
  exact h.named s (List.mem_of_getElem? hs) t (List.mem_of_getElem? ht) p (List.mem_of_getElem? hp)

end Published

end SchemaGraph
