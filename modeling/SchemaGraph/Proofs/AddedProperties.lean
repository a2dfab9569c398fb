import SchemaGraph.Proofs.Denotation
import SchemaGraph.Proofs.ValidDeclarations

/-!
Declarations to which a property is added. A plain property with a fresh name, put among the
properties of a composite type, changes nothing about what the other references stand for: they look
at the names and kinds of the types alone. So the declaration is accepted and resolved with it just
when the text of its type is read, and what is read has a meaning in the declaration without it.
-/

namespace SchemaGraph

/-! ### Insertion into lists -/

section Insertion

variable {α β : Type} {R : α → β → Prop} {as : List α} {bs : List β}

theorem forall₂_insertIdx (h : List.Forall₂ R as bs) {a : α} {b : β} (hab : R a b) (k : Nat) :
    List.Forall₂ R (as.insertIdx k a) (bs.insertIdx k b) := by
  induction h generalizing k with
  | nil =>
      cases k with
      | zero => exact .cons hab .nil
      | succ k => exact .nil
  | cons hcd hrest ih =>
      cases k with
      | zero => exact .cons hab (.cons hcd hrest)
      | succ k => exact .cons hcd (ih k)

theorem forall₂_modify (h : List.Forall₂ R as bs) {i : Nat} {f : α → α} {g : β → β}
    (hfg : ∀ a b, as[i]? = some a → R a b → R (f a) (g b)) :
    List.Forall₂ R (as.modify i f) (bs.modify i g) := by
  induction h generalizing i with
  | nil => simp
  | cons hab hrest ih =>
      cases i with
      | zero => simpa using ⟨hfg _ _ rfl hab, hrest⟩
      | succ i => simpa using ⟨hab, ih fun a b ha => hfg a b (by simpa using ha)⟩

theorem map_modify_of_eq {f : α → α} {g : α → β} (h : ∀ a, g (f a) = g a) (as : List α) (i : Nat) :
    (as.modify i f).map g = as.map g := by
  induction as generalizing i with
  | nil => simp
  | cons a as ih => cases i <;> simp [h, ih]

theorem mem_modify {f : α → α} {i : Nat} {b : α} (h : b ∈ as.modify i f) :
    b ∈ as ∨ ∃ a ∈ as, b = f a := by
  obtain ⟨j, hj⟩ := List.getElem?_of_mem h
  rw [List.getElem?_modify] at hj
  obtain ⟨a, ha, rfl⟩ := Option.map_eq_some_iff.1 hj
  have hmem := List.mem_of_getElem? ha
  split
  · exact .inr ⟨a, hmem, rfl⟩
  · exact .inl hmem

end Insertion

/-! ### Declarations -/

namespace Declaration

/-- The own properties of a composite type. -/
def TypeDecl.properties? : TypeDecl → Option (List Property)
  | .entity c | .struct c => some c.properties
  | .interface c => some c.properties
  | .enum _ => none

/-- Puts a property before the `k`th of a composite type. -/
def TypeDecl.insertProperty (k : Nat) (p : Property) : TypeDecl → TypeDecl
  | .entity c => .entity { c with properties := c.properties.insertIdx k p }
  | .struct c => .struct { c with properties := c.properties.insertIdx k p }
  | .interface c => .interface { c with properties := c.properties.insertIdx k p }
  | .enum e => .enum e

/-- Puts a property before the `k`th of the `i`th type. -/
def insertProperty (declaration : Declaration) (i k : Nat) (p : Property) : Declaration :=
  { declaration with types := declaration.types.modify i (.insertProperty k p) }

/-- A plain property with a proper name that the `i`th type, a composite type, does not have yet. -/
structure HasPlace (w : Workspace) (declaration : Declaration) (i k : Nat) (p : Property) :
    Prop where
  type : ∃ t ps, declaration.types[i]? = some t ∧ t.properties? = some ps ∧ k ≤ ps.length ∧
    givenName p.name ∉ ps.map (givenName ·.name)
  name : w.Accepts p.name
  plain : p.role = .plain

end Declaration

/-- Puts a property before the `k`th of a composite type. -/
def DraftType.insertProperty (k : Nat) (q : Property TypeBinding) (t : DraftType) : DraftType :=
  { t with body := match t.body with
      | .composite c => .composite { c with properties := c.properties.insertIdx k q }
      | .enum e => .enum e }

/-- Puts a property before the `k`th of the `i`th type. -/
def Draft.insertProperty (d : Draft) (i k : Nat) (q : Property TypeBinding) : Draft :=
  { d with types := d.types.modify i (DraftType.insertProperty k q) }

variable {w : Workspace} {unit : SourceId} {declaration : Declaration} {d : Draft} {i k : Nat}
  {p : Declaration.Property} {q : SchemaGraph.Property TypeBinding}

namespace DraftType

@[simp] theorem insertProperty_name (t : DraftType) : (insertProperty k q t).name = t.name := rfl

@[simp] theorem insertProperty_kind (t : DraftType) : (insertProperty k q t).kind = t.kind := rfl

end DraftType

/-! ### What is valid with the property -/

namespace Declaration

theorem Composite.valid_insertProperty {kind : TypeKind} {c : Composite} (hc : c.Valid w kind)
    (hk : k ≤ c.properties.length) (hfresh : givenName p.name ∉ c.properties.map (givenName ·.name))
    (hplain : p.role = .plain) :
    ({ c with properties := c.properties.insertIdx k p } : Composite).Valid w kind ↔ p.Valid w := by
  have hperm : (c.properties.insertIdx k p).Perm (p :: c.properties) := List.perm_insertIdx p _ hk
  constructor
  · intro h
    exact h.properties.valid p (hperm.mem_iff.2 (List.mem_cons_self ..))
  · intro hp
    refine ⟨hc.name, hc.namespace, hc.clauses, ⟨fun p' hp' => ?_, ?_⟩, ?_⟩
    · rcases List.mem_cons.1 (hperm.mem_iff.1 hp') with rfl | hp'
      · exact hp
      · exact hc.properties.valid p' hp'
    · rw [(hperm.map _).nodup_iff, List.map_cons, List.nodup_cons]
      exact ⟨hfresh, hc.properties.nodup⟩
    · have hroles := hperm.map Property.role
      have hkey := hc.key
      rw [TypeKind.AllowsRoles] at hkey ⊢
      simp only [hroles.count_eq, hroles.mem_iff, List.map_cons, hplain]
      simpa using hkey

theorem Composite.lists_insertProperty {ns : String} {kind : TypeKind} {c : Composite}
    {t : DraftType} (hc : c.Lists w ns kind t) (hq : p.Lists w q) :
    ({ c with properties := c.properties.insertIdx k p } : Composite).Lists w ns kind
      (DraftType.insertProperty k q t) := by
  obtain ⟨name, ns, kind, body, metadata⟩ := t
  obtain ⟨hname, hnamespace, hkind, hmetadata, base, interfaces, properties, rfl, hbase,
    hinterfaces, hps⟩ := hc
  exact ⟨hname, hnamespace, hkind, hmetadata, base, interfaces, _, rfl, hbase, hinterfaces,
    forall₂_insertIdx hps hq k⟩

namespace TypeDecl

variable {t : TypeDecl} {ps : List Property} {ns : String} {dt : DraftType}

theorem valid_insertProperty (ht : t.Valid w) (hps : t.properties? = some ps) (hk : k ≤ ps.length)
    (hfresh : givenName p.name ∉ ps.map (givenName ·.name)) (hplain : p.role = .plain) :
    (t.insertProperty k p).Valid w ↔ p.Valid w := by
  cases t with
  | entity c | struct c =>
      obtain rfl := Option.some.inj hps
      exact Composite.valid_insertProperty ht hk hfresh hplain
  | interface c =>
      obtain rfl := Option.some.inj hps
      exact Composite.valid_insertProperty (c := c.asComposite) ht hk hfresh hplain
  | enum e => contradiction

theorem Lists.composite (ht : t.Lists w ns dt) (hps : t.properties? = some ps) :
    ∃ c, dt.body = .composite c ∧ c.properties.length = ps.length := by
  have hcomposite : ∀ {kind : TypeKind} {c : Composite}, c.Lists w ns kind dt →
      ∃ body, dt.body = .composite body ∧ body.properties.length = c.properties.length := by
    intro kind c hc
    obtain ⟨base, interfaces, properties, hbody, -, -, hproperties⟩ := hc.body
    exact ⟨_, hbody, hproperties.length_eq.symm⟩
  cases t with
  | entity c | struct c =>
      obtain rfl := Option.some.inj hps
      exact hcomposite ht
  | interface c =>
      obtain rfl := Option.some.inj hps
      exact hcomposite (c := c.asComposite) ht
  | enum e => contradiction

theorem lists_insertProperty (ht : t.Lists w ns dt) (hps : t.properties? = some ps)
    (hq : p.Lists w q) : (t.insertProperty k p).Lists w ns (dt.insertProperty k q) := by
  cases t with
  | entity c => exact Composite.lists_insertProperty ht hq
  | struct c => exact Composite.lists_insertProperty ht hq
  | interface c => exact Composite.lists_insertProperty (c := c.asComposite) ht hq
  | enum e => contradiction

end TypeDecl

/-- With the property, a declaration has the draft with the property. -/
theorem DraftsTo.insertProperty (hd : declaration.DraftsTo w unit d)
    (hplace : declaration.HasPlace w i k p) (hp : p.Valid w) (hq : p.Lists w q) :
    (declaration.insertProperty i k p).DraftsTo w unit (d.insertProperty i k q) := by
  obtain ⟨t, ps, ht, hps, hk, hfresh⟩ := hplace.type
  refine ⟨hd.key, hd.source, hd.name, hd.namespace, hd.metadata, hd.imports, hd.nodup_aliases, ?_,
    ?_⟩
  · refine forall₂_modify hd.types fun t' dt ht' hdt => ?_
    obtain rfl := Option.some.inj (ht.symm.trans ht')
    obtain ⟨hvalid, hlists⟩ := TypeDecl.draftsTo_iff_valid.1 hdt
    exact TypeDecl.draftsTo_iff_valid.2
      ⟨(TypeDecl.valid_insertProperty hvalid hps hk hfresh hplace.plain).2 hp,
        TypeDecl.lists_insertProperty hlists hps hq⟩
  · have hnames : (d.insertProperty i k q).typeNames = d.typeNames :=
      map_modify_of_eq DraftType.insertProperty_name d.types i
    rw [hnames]
    exact hd.nodup_names

/-- No other draft is made of the declaration with the property, and none if the property is not
valid. -/
theorem draftsTo_insertProperty_iff (hd : declaration.DraftsTo w unit d)
    (hplace : declaration.HasPlace w i k p) {d' : Draft} :
    (declaration.insertProperty i k p).DraftsTo w unit d' ↔
      p.Valid w ∧ ∃ q, p.Lists w q ∧ d' = d.insertProperty i k q := by
  constructor
  · intro hd'
    obtain ⟨t, ps, ht, hps, hk, hfresh⟩ := hplace.type
    have hget : (declaration.insertProperty i k p).types[i]? = some (t.insertProperty k p) := by
      simp [Declaration.insertProperty, ht]
    obtain ⟨dt, -, hdt⟩ := exists_of_forall₂_left hd.types ht
    obtain ⟨dt', -, hdt'⟩ := exists_of_forall₂_left hd'.types hget
    have hp := (TypeDecl.valid_insertProperty (TypeDecl.draftsTo_iff_valid.1 hdt).1 hps hk hfresh
      hplace.plain).1 (TypeDecl.draftsTo_iff_valid.1 hdt').1
    obtain ⟨q, hq⟩ := hp.exists_lists
    have hsame := Draft.ofDeclaration_eq_ok.2 (hd.insertProperty hplace hp hq)
    rw [Draft.ofDeclaration_eq_ok.2 hd'] at hsame
    exact ⟨hp, q, hq, Except.ok.inj hsame⟩
  · rintro ⟨hp, q, hq, rfl⟩
    exact hd.insertProperty hplace hp hq

end Declaration

/-! ### What references stand for -/

/-- What a path stands for depends on the imports of a draft and on the names and kinds of its
types, and on nothing else in it. -/
theorem Draft.Denotes.congr {d' : Draft} (hkey : d'.key = d.key) (himports : d'.imports = d.imports)
    (htypes : d'.types.map (fun t => (t.name, t.kind)) = d.types.map fun t => (t.name, t.kind))
    {path : TypePath} {t : DataType} (h : d.Denotes w path t) : d'.Denotes w path t := by
  have hnames : d'.typeNames = d.typeNames := by
    simpa [SchemaOf.typeNames, Function.comp_def] using congrArg (List.map Prod.fst) htypes
  have hget : ∀ {i : Nat} {t : DraftType}, d.types[i]? = some t →
      ∃ t', d'.types[i]? = some t' ∧ t'.name = t.name ∧ t'.kind = t.kind := by
    intro i t ht
    have hi := congrArg (fun ts => ts[i]?) htypes
    simp only [List.getElem?_map, ht, Option.map_some, Option.map_eq_some_iff, Prod.mk.injEq] at hi
    exact hi
  cases h with
  | own ht hname =>
      obtain ⟨t', ht', hname', hkind⟩ := hget ht
      rw [← hkind, ← hkey]
      exact .own ht' (hname'.trans hname)
  | primitive hown hid => exact .primitive (hnames ▸ hown) hid
  | void hown hprimitive hname => exact .void (hnames ▸ hown) hprimitive hname
  | selfImport himport ht hname =>
      obtain ⟨t', ht', hname', hkind⟩ := hget ht
      rw [← hkind, ← hkey]
      exact .selfImport (himports ▸ hkey ▸ himport) ht' (hname'.trans hname)
  | imported himport hs ht hname => exact .imported (himports ▸ himport) hs ht hname

theorem Draft.denotes_insertProperty {path : TypePath} {t : DataType} :
    (d.insertProperty i k q).Denotes w path t ↔ d.Denotes w path t := by
  have htypes : (d.insertProperty i k q).types.map (fun t => (t.name, t.kind)) =
      d.types.map fun t => (t.name, t.kind) :=
    map_modify_of_eq (fun t => by rw [DraftType.insertProperty_name, DraftType.insertProperty_kind])
      d.types i
  have hkey : (d.insertProperty i k q).key = d.key := rfl
  have himports : (d.insertProperty i k q).imports = d.imports := rfl
  exact ⟨.congr hkey.symm himports.symm htypes.symm, .congr hkey himports htypes⟩

section Transport

variable {d' : Draft}
  (hsame : ∀ (path : TypePath) (t : DataType), d.Denotes w path t → d'.Denotes w path t)
include hsame

theorem TypeExpr.Denotes.transport {role : PropertyRole} {e : TypeExpr} {t : DataType}
    (h : e.Denotes w d role t) : e.Denotes w d' role t := by
  have hvalue : ∀ {path : TypePath} {t : DataType}, d.DenotesValue w role path t →
      d'.DenotesValue w role path t := fun h => ⟨hsame _ _ h.path, h.not_void, h.isEntity_iff⟩
  cases h with
  | named h => exact .named (hvalue h)
  | map hkey hv => exact .map ⟨hsame _ _ hkey.path, hkey.canBeKey⟩ (hvalue hv)
  | keyless hshape hv => exact .keyless hshape (hvalue hv)

theorem Composite.Admissible.transport {kind : TypeKind}
    {c : Composite BaseBinding InterfacesBinding TypeBinding} (h : c.Admissible w d kind) :
    c.Admissible w d' kind := by
  obtain ⟨⟨path, hpath, hbase⟩, ⟨paths, hpaths, hinterfaces⟩, hproperties⟩ := h
  refine ⟨⟨path, hpath, fun p hp => ?_⟩, ⟨paths, hpaths, fun p hp => ?_⟩, fun p hp => ?_⟩
  · obtain ⟨r, hr⟩ := hbase p hp
    exact ⟨r, hsame _ _ hr⟩
  · obtain ⟨r, hr⟩ := hinterfaces p hp
    exact ⟨r, hsame _ _ hr⟩
  · obtain ⟨e, he, t, ht⟩ := hproperties p hp
    exact ⟨e, he, t, ht.transport hsame⟩

theorem DraftType.Admissible.transport {t : DraftType} (h : DraftType.Admissible w d t) :
    DraftType.Admissible w d' t := fun c hbody => (h c hbody).transport hsame

end Transport

theorem DraftType.Admissible.insertProperty {t : DraftType} (h : DraftType.Admissible w d t)
    (hq : ∃ e, q.type = .pending e ∧ ∃ dt, e.Denotes w d q.role dt) :
    DraftType.Admissible w d (t.insertProperty k q) := by
  obtain ⟨name, ns, kind, body, metadata⟩ := t
  cases body with
  | enum e => rintro c ⟨⟩
  | composite c =>
      rintro c' ⟨⟩
      obtain ⟨hbase, hinterfaces, hproperties⟩ := h c rfl
      refine ⟨hbase, hinterfaces, fun p hp => ?_⟩
      rcases List.eq_or_mem_of_mem_insertIdx hp with rfl | hp
      · exact hq
      · exact hproperties p hp

/-- A property that denotes something can be added to what can be resolved. -/
theorem Draft.admissible_insertProperty (h : ∀ t ∈ d.types, DraftType.Admissible w d t)
    (hq : ∃ e, q.type = .pending e ∧ ∃ dt, e.Denotes w (d.insertProperty i k q) q.role dt) :
    ∀ t ∈ (d.insertProperty i k q).types,
      DraftType.Admissible w (d.insertProperty i k q) t := by
  have hkept : ∀ t ∈ d.types, DraftType.Admissible w (d.insertProperty i k q) t := fun t ht =>
    (h t ht).transport fun _ _ => Draft.denotes_insertProperty.2
  intro t ht
  rcases mem_modify ht with ht | ⟨t', ht', rfl⟩
  · exact hkept t ht
  · exact (hkept t' ht').insertProperty hq

/-! ### Resolution -/

/-- The declaration is accepted and resolves, and then the `k`th property of its `i`th type has the
type. -/
def Declaration.GivesProperty (w : Workspace) (unit : SourceId) (declaration : Declaration)
    (i k : Nat) (t : DataType) : Prop :=
  ∃ d d' u, Draft.ofDeclaration w unit declaration = .ok d ∧ d.resolve w = (d', .ok ()) ∧
    Draft.link d' = .ok u ∧ ∃ l q, u.types[i]? = some l ∧ l.properties[k]? = some q ∧ q.type = t

section Resolution

variable (hw : w.WellFormed) (hd : declaration.DraftsTo w unit d)
include hw hd

theorem TypeExpr.Denotes.unique {role : PropertyRole} {e : TypeExpr} (hfits : e.KeyFits)
    {t t' : DataType} (h : e.Denotes w d role t) (h' : e.Denotes w d role t') : t = t' := by
  have hok : ∀ {x}, e.Denotes w d role x →
      Resolution.resolveExpr w d ⟨"", "", role⟩ e = .ok x := fun hx => by
    rwa [Resolution.resolveExpr_eq_ok_iff hw hd hfits]
  exact Except.ok.inj ((hok h).symm.trans (hok h'))

omit hw in
/-- The property that was added stands where it was put, with the type that its expression
denotes. -/
theorem Draft.linked_insertProperty (hplace : declaration.HasPlace w i k p)
    {u : Linked} (hu : List.Forall₂ (DraftType.Denotes w (d.insertProperty i k q))
      (d.insertProperty i k q).types u.types) :
    ∃ l q', u.types[i]? = some l ∧ l.properties[k]? = some q' ∧
      q.Denotes w (d.insertProperty i k q) q' := by
  obtain ⟨t, ps, ht, hps, hk, -⟩ := hplace.type
  obtain ⟨dt, hdt, hdrafts⟩ := exists_of_forall₂_left hd.types ht
  obtain ⟨c, hbody, hlength⟩ :=
    (Declaration.TypeDecl.draftsTo_iff_valid.1 hdrafts).2.composite hps
  have hget : (d.insertProperty i k q).types[i]? = some (dt.insertProperty k q) := by
    simp [Draft.insertProperty, hdt]
  obtain ⟨l, hl, hdenotes⟩ := exists_of_forall₂_left hu hget
  obtain ⟨name, ns, kind, body, metadata⟩ := dt
  obtain rfl : body = .composite c := hbody
  obtain ⟨name', ns', kind', body', metadata'⟩ := l
  have hcomposite := hdenotes.body
  cases hcomposite with
  | composite hc =>
      have hq : (c.properties.insertIdx k q)[k]? = some q :=
        List.getElem?_insertIdx_self.trans (if_pos (hlength ▸ hk))
      obtain ⟨q', hq', hqq'⟩ := exists_of_forall₂_left hc.properties hq
      exact ⟨_, q', hl, hq', hqq'⟩

/-- With the property, a declaration that resolves is accepted and resolves if and only if the text
of the type of the property is read and what is read denotes a type in it. -/
theorem Declaration.givesProperty_iff (hresolve : ∃ d', d.resolve w = (d', .ok ()))
    (hplace : declaration.HasPlace w i k p) {t : DataType} :
    (declaration.insertProperty i k p).GivesProperty w unit i k t ↔ ∃ text e,
      p.typeText = some text ∧ TypeExpr.parse w.containers text p.key p.value = .ok e ∧
        e.Denotes w d .plain t := by
  have hadmissible := (Draft.resolve_ok_iff hw hd
    (Draft.waits_of_ofDeclaration (Draft.ofDeclaration_eq_ok.2 hd))).1 hresolve
  constructor
  · rintro ⟨d₁, d₂, u, hof, hres, hlink, l, q', hl, hq', rfl⟩
    obtain ⟨hp, q, hq, rfl⟩ := (draftsTo_insertProperty_iff hd hplace).1
      (Draft.ofDeclaration_eq_ok.1 hof)
    obtain ⟨u', hlink', -, hu⟩ := Draft.resolve_denotes hw hof hres
    obtain rfl := Except.ok.inj (hlink.symm.trans hlink')
    obtain ⟨l', q'', hl', hq'', hdenotes⟩ := Draft.linked_insertProperty hd hplace hu
    obtain rfl := Option.some.inj (hl.symm.trans hl')
    obtain rfl := Option.some.inj (hq'.symm.trans hq'')
    obtain ⟨text, htext, -⟩ := hp.type
    obtain ⟨e, hpending, he⟩ := hdenotes.type
    obtain ⟨e', hparse, hpending'⟩ := hq.type
    obtain rfl := Binding.pending.inj (hpending.symm.trans hpending')
    rw [htext, Option.getD_some] at hparse
    rw [hq.role, hplace.plain] at he
    exact ⟨text, e, htext, hparse, he.transport fun _ _ => Draft.denotes_insertProperty.1⟩
  · rintro ⟨text, e, htext, hparse, he⟩
    have hp : p.Valid w := ⟨hplace.name, text, htext, e, hparse⟩
    obtain ⟨q, hq⟩ := hp.exists_lists
    have hd₁ := hd.insertProperty hplace hp hq
    have hof := Draft.ofDeclaration_eq_ok.2 hd₁
    obtain ⟨e', hparse', hpending⟩ := hq.type
    rw [htext, Option.getD_some, hparse] at hparse'
    obtain rfl := Except.ok.inj hparse'
    have hrole : q.role = .plain := hq.role.trans hplace.plain
    have he₁ : e.Denotes w (d.insertProperty i k q) .plain t :=
      he.transport fun _ _ => Draft.denotes_insertProperty.2
    have hall := Draft.admissible_insertProperty (i := i) (k := k) hadmissible
      ⟨e, hpending, t, hrole ▸ he₁⟩
    obtain ⟨d₂, hres⟩ := (Draft.resolve_ok_iff hw hd₁ (Draft.waits_of_ofDeclaration hof)).2 hall
    obtain ⟨u, hlink, -, hu⟩ := Draft.resolve_denotes hw hof hres
    obtain ⟨l, q', hl, hq', hdenotes⟩ := Draft.linked_insertProperty hd hplace hu
    refine ⟨_, d₂, u, hof, hres, hlink, l, q', hl, hq', ?_⟩
    obtain ⟨e', hpending', he'⟩ := hdenotes.type
    obtain rfl := Binding.pending.inj (hpending.symm.trans hpending')
    rw [hrole] at he'
    exact TypeExpr.Denotes.unique hw hd₁ (TypeExpr.parse_ok hparse).1 he' he₁

end Resolution

end SchemaGraph
