import SchemaGraph.Proofs.Handles

/-!
Guarded computations. The functions of the library are total: a position or a handle that leads
nowhere is passed over or stands for a blank. Here it is a fault, which ends the computation, and so
is a binding that is read while it is pending.

A function has a guarded twin that makes the same accesses one by one. If the twin has the result of
the function and no fault, then no access of the function leads nowhere.
-/

namespace SchemaGraph

open Relation

/-- An access that finds nothing. -/
inductive Fault where
  | schema (key : SchemaKey)
  | type (r : TypeRef)
  | property (p : PropertyRef)
  | primitive (id : PrimitiveId)
  | unit (index : Nat)
  /-- No number of missing imports is kept for a unit. -/
  | importCount (unit : Nat)
  /-- A number of missing imports is lowered that is zero already. -/
  | importCountZero (unit : Nat)
  /-- A binding is read before it is resolved. -/
  | pending
  /-- The bases of a type go on for longer than there are types. -/
  | endlessBases
  /-- A schema is published that was not declared with the next key. -/
  | staleKey (key : SchemaKey)
  /-- Fewer schemas are published than withdrawal is to leave. -/
  | withdrawal (count : Nat)
  deriving DecidableEq

abbrev Guarded := Except Fault

/-- A guarded computation that may also refuse its input. -/
abbrev Attempt (ε : Type) := ExceptT ε Guarded

namespace Guarded

variable {α β ε σ : Type}

/-! ### Outcomes without a fault -/

/-- The attempt that comes to an outcome without a fault. -/
def settled (x : Except ε α) : Attempt ε α :=
  ExceptT.mk (.ok x)

/-- The attempt that ends with a fault. -/
def fault (f : Fault) : Attempt ε α :=
  ExceptT.mk (.error f)

/-- Peels off the first step of an attempt, with what came of it at hand. -/
theorem settled_bind {x : Attempt ε α} {y : Except ε α} {f : α → Attempt ε β}
    {g : α → Except ε β} (hx : x = settled y) (hf : ∀ a, y = .ok a → f a = settled (g a)) :
    x >>= f = settled (y >>= g) := by
  subst hx
  cases y with
  | error e => rfl
  | ok a => exact hf a rfl

/-- Peels off a first step of which there are two kinds. -/
theorem settled_ite_bind {c : Prop} [Decidable c] {x₁ x₂ : Attempt ε α} {y₁ y₂ : Except ε α}
    {f : α → Attempt ε β} {g : α → Except ε β} (hx₁ : c → x₁ = settled y₁)
    (hx₂ : ¬c → x₂ = settled y₂) (hf : ∀ a, f a = settled (g a)) :
    (if c then x₁ >>= f else x₂ >>= f) = settled (if c then y₁ >>= g else y₂ >>= g) := by
  split
  · exact settled_bind (hx₁ ‹_›) fun a _ => hf a
  · exact settled_bind (hx₂ ‹_›) fun a _ => hf a

/-- Peels off an access. -/
theorem lift_bind {x : Guarded α} {a : α} {f : α → Attempt ε β} (hx : x = .ok a) :
    (liftM x : Attempt ε α) >>= f = f a := by
  subst hx
  rfl

theorem ok_bind {x : Guarded α} {a : α} {f : α → Guarded β} (hx : x = .ok a) :
    x >>= f = f a := by
  subst hx
  rfl

theorem mapM_ok {f : α → Guarded β} {g : α → β} {as : List α} (h : ∀ a ∈ as, f a = .ok (g a)) :
    as.mapM f = .ok (as.map g) := by
  rw [mapM_eq_ok, List.forall₂_map_right_iff, List.forall₂_same]
  exact h

theorem mapM_filterMap {f : α → Guarded β} {g : α → Option β} {as : List α}
    (h : ∀ a ∈ as, ∃ b, f a = .ok b ∧ g a = some b) : as.mapM f = .ok (as.filterMap g) := by
  induction as with
  | nil => rfl
  | cons a as ih =>
      rw [List.forall_mem_cons] at h
      obtain ⟨⟨b, hf, hg⟩, has⟩ := h
      rw [List.mapM_cons, ok_bind hf, ok_bind (ih has), List.filterMap_cons_some hg]
      rfl

theorem filterM_ok {f : α → Guarded Bool} {g : α → Bool} {as : List α}
    (h : ∀ a ∈ as, f a = .ok (g a)) : as.filterM f = .ok (as.filter g) := by
  have hkept : ∀ kept, as.filterAuxM f kept = .ok ((as.filter g).reverse ++ kept) := by
    induction as with
    | nil => exact fun _ => rfl
    | cons a as ih =>
        intro kept
        rw [List.forall_mem_cons] at h
        rw [List.filterAuxM, ok_bind h.1, ih h.2, List.filter_cons]
        cases g a <;> simp
  rw [List.filterM, ok_bind (hkept []), List.append_nil, List.reverse_reverse]
  rfl

theorem mapM_settled {f : α → Attempt ε β} {g : α → Except ε β} {as : List α}
    (h : ∀ a ∈ as, f a = settled (g a)) : as.mapM f = settled (as.mapM g) := by
  induction as with
  | nil => rfl
  | cons a as ih =>
      rw [List.forall_mem_cons] at h
      rw [List.mapM_cons, List.mapM_cons]
      exact settled_bind h.1 fun b _ => settled_bind (ih h.2) fun bs _ => rfl

theorem optionMapM_settled {f : α → Attempt ε β} {g : α → Except ε β} {a : Option α}
    (h : ∀ b, a = some b → f b = settled (g b)) : a.mapM f = settled (a.mapM g) := by
  cases a with
  | none => rfl
  | some a =>
      rw [Option.mapM_some, Option.mapM_some, h a rfl]
      cases g a <;> rfl

theorem foldlM_settled {f : σ → α → Attempt ε σ} {g : σ → α → Except ε σ} {as : List α}
    (h : ∀ s, ∀ a ∈ as, f s a = settled (g s a)) (s : σ) :
    as.foldlM f s = settled (as.foldlM g s) := by
  induction as generalizing s with
  | nil => rfl
  | cons a as ih =>
      rw [List.foldlM_cons, List.foldlM_cons]
      exact settled_bind (h s a (by simp)) fun t _ =>
        ih (fun s a ha => h s a (List.mem_cons_of_mem _ ha)) t

/-! ### Accesses -/

/-- The item at a position. -/
def entry (fault : Fault) (as : List α) (i : Nat) : Guarded α :=
  as[i]?.elim (.error fault) .ok

theorem entry_eq_ok {fault : Fault} {as : List α} {i : Nat} {a : α} :
    entry fault as i = .ok a ↔ as[i]? = some a :=
  Resolution.elim_eq_ok

variable (w : Workspace)

def schemaAt (key : SchemaKey) : Guarded Schema :=
  entry (.schema key) w.schemas key

def primitiveAt (id : PrimitiveId) : Guarded Primitive :=
  entry (.primitive id) w.primitives id

/-- The type at a position of a schema. -/
def typeIn (s : Linked) (index : Nat) : Guarded LinkedType :=
  entry (.type ⟨s.key, index⟩) s.types index

/-- The type that a handle stands for: first the schema is found, and then the type in it. -/
def typeAt (r : TypeRef) : Guarded LinkedType := do
  typeIn (← schemaAt w r.schema).toSchemaOf r.index

def derivedAt (r : TypeRef) : Guarded Derived :=
  return (← schemaAt w r.schema).derivedOf r.index

def bySource? (source : SourceId) : Guarded (Option Schema) :=
  match w.sources.key? source with
  | some key => some <$> schemaAt w key
  | none => return none

variable {w}

theorem exists_primitiveAt {id : PrimitiveId} (h : id < w.primitives.length) :
    ∃ p, primitiveAt w id = .ok p ∧ w.primitives[id]? = some p :=
  ⟨w.primitives[id], entry_eq_ok.2 (List.getElem?_eq_getElem h), List.getElem?_eq_getElem h⟩

theorem nameOf_of_get {id : PrimitiveId} {p : Primitive} (h : w.primitives[id]? = some p) :
    w.primitives.nameOf id = p.name := by
  rw [PrimitiveTable.nameOf, h]
  rfl

theorem schemaAt_eq_ok {key : SchemaKey} {s : Schema} :
    schemaAt w key = .ok s ↔ w.schemas[key]? = some s :=
  entry_eq_ok

theorem typeIn_eq_ok {s : Linked} {index : Nat} {t : LinkedType} :
    typeIn s index = .ok t ↔ s.types[index]? = some t :=
  entry_eq_ok

theorem typeAt_eq_ok {r : TypeRef} {t : LinkedType} (h : w.type? r = some t) :
    typeAt w r = .ok t := by
  obtain ⟨s, hs, ht⟩ := Option.bind_eq_some_iff.1 h
  exact (ok_bind (schemaAt_eq_ok.2 hs)).trans (typeIn_eq_ok.2 ht)

theorem derivedAt_eq {r : TypeRef} (hr : (w.type? r).isSome) :
    derivedAt w r = .ok (w.derivedOf r) := by
  obtain ⟨t, ht⟩ := Option.isSome_iff_exists.1 hr
  obtain ⟨s, hs, -⟩ := Option.bind_eq_some_iff.1 ht
  rw [derivedAt, ok_bind (schemaAt_eq_ok.2 hs), Workspace.derivedOf, hs]
  rfl

theorem bySource?_eq (hw : w.Indexed) (source : SourceId) :
    bySource? w source = .ok (w.bySource? source) := by
  rw [bySource?, Workspace.bySource?]
  cases hkey : w.sources.key? source with
  | none => rfl
  | some key =>
      obtain ⟨s, hs, -⟩ := (hw.sources_iff source key).1 hkey
      simp only [schemaAt_eq_ok.2 hs, Option.bind_some, hs]
      rfl

/-! ### Walks -/

section Walks

variable {α : Type}

/-- A walk that looks up whatever it comes to. -/
def walk [DecidableEq α] (next : α → Guarded (List α)) (nodes : List α) :
    List (DepthFirst.Task α) → List α → Guarded (List (DepthFirst.Event α))
  | [], _ => return []
  | .leave a :: ts, seen => return .leave a :: (← walk next nodes ts seen)
  | .visit a :: ts, seen =>
    if _h : a ∈ nodes ∧ a ∉ seen then do
      let as ← next a
      return .enter a :: (← walk next nodes (as.map .visit ++ .leave a :: ts) (a :: seen))
    else do
      if a ∉ seen then discard (next a)
      walk next nodes ts seen
termination_by ts seen => (DepthFirst.unseen nodes seen, ts.length)
decreasing_by
  · exact Prod.Lex.right _ (by simp)
  · exact Prod.Lex.left _ _ (DepthFirst.unseen_cons_lt _h)
  · exact Prod.Lex.right _ (by simp)

def reached [DecidableEq α] (next : α → Guarded (List α)) (nodes roots : List α) :
    Guarded (List α) :=
  return DepthFirst.entered (← walk next nodes (roots.map .visit) [])

def postorder [DecidableEq α] (next : α → Guarded (List α)) (nodes roots seen : List α) :
    Guarded (List α) :=
  return DepthFirst.left (← walk next nodes (roots.map .visit) seen)

section Closed

variable [DecidableEq α] {next : α → Guarded (List α)} {plain : α → List α} {nodes : List α}
  (hnext : ∀ a ∈ nodes, next a = .ok (plain a)) (hclosed : ∀ a ∈ nodes, ∀ b ∈ plain a, b ∈ nodes)

include hnext hclosed

/-- Among nodes that lead to nodes only, a walk comes to nothing else. -/
theorem walk_eq {ts : List (DepthFirst.Task α)} {seen : List α}
    (hts : ∀ a, .visit a ∈ ts → a ∈ nodes) :
    walk next nodes ts seen = .ok (DepthFirst.walk plain nodes ts seen) := by
  fun_induction DepthFirst.walk plain nodes ts seen with
  | case1 seen => rw [walk]; rfl
  | case2 a ts seen ih =>
      rw [walk, ih fun b hb => hts b (List.mem_cons_of_mem _ hb)]
      rfl
  | case3 a ts seen h ih =>
      rw [walk, dif_pos h, hnext a h.1]
      refine ok_bind (ih fun b hb => ?_)
      rcases List.mem_append.1 hb with hb | hb
      · obtain ⟨c, hc, heq⟩ := List.mem_map.1 hb
        obtain rfl := DepthFirst.Task.visit.inj heq
        exact hclosed a h.1 c hc
      · exact hts b (List.mem_cons_of_mem _ (by simpa using hb))
  | case4 a ts seen h ih =>
      have hseen : ¬a ∉ seen := fun ha => h ⟨hts a (by simp), ha⟩
      rw [walk, dif_neg h, if_neg hseen]
      exact ih fun b hb => hts b (List.mem_cons_of_mem _ hb)

theorem reached_eq {roots : List α} (hroots : ∀ a ∈ roots, a ∈ nodes) :
    reached next nodes roots = .ok (DepthFirst.reached plain nodes roots) :=
  ok_bind (walk_eq hnext hclosed (by simpa using hroots))

theorem postorder_eq {roots : List α} (seen : List α) (hroots : ∀ a ∈ roots, a ∈ nodes) :
    postorder next nodes roots seen = .ok (DepthFirst.postorder plain nodes roots seen) :=
  ok_bind (walk_eq hnext hclosed (by simpa using hroots))

end Closed

/-- A chain that has to come to its end. -/
def chain (next : α → Guarded (Option α)) : Nat → α → Guarded (List α)
  | 0, _ => .error .endlessBases
  | n + 1, a => do
    match ← next a with
    | none => return [a]
    | some b => return a :: (← chain next n b)

theorem chain_eq {next : α → Guarded (Option α)} {plain : α → Option α} {a : α} {as : List α}
    {n : Nat} (h : Lineage plain a as) (hnext : ∀ b ∈ as, next b = .ok (plain b))
    (hlen : as.length ≤ n) : chain next n a = .ok as := by
  induction h generalizing n with
  | last hnone =>
      obtain ⟨n, rfl⟩ := Nat.exists_eq_add_one_of_ne_zero (Nat.ne_zero_of_lt hlen)
      rw [chain, hnext _ (by simp), hnone]
      rfl
  | step hsome _ ih =>
      obtain ⟨n, rfl⟩ := Nat.exists_eq_add_one_of_ne_zero (Nat.ne_zero_of_lt hlen)
      rw [chain, hnext _ (by simp), hsome]
      exact ok_bind (ih (fun b hb => hnext b (List.mem_cons_of_mem _ hb))
        (Nat.le_of_succ_le_succ hlen))

end Walks

/-! ### Lookups -/

end Guarded

/-- The type that a handle stands for; a handle that stands for none is a fault. -/
abbrev Finder := TypeRef → Guarded LinkedType

/-- What the lookup knows is found. -/
def Finder.Finds (find : Finder) (look : TypeLookup) : Prop :=
  ∀ r t, look r = some t → find r = .ok t

namespace Guarded

theorem typeAt_finds (w : Workspace) : Finder.Finds (typeAt w) w.type? :=
  fun _ _ => typeAt_eq_ok

section Lookups

variable (find : Finder)

def base? (r : TypeRef) : Guarded (Option TypeRef) :=
  return (← find r).composite?.bind Composite.base

def interfacesOf (r : TypeRef) : Guarded (List TypeRef) :=
  return ((← find r).composite?.map Composite.interfaces).getD []

def properties (r : TypeRef) : Guarded (List LinkedProperty) :=
  return (← find r).properties

def ownProperties (r : TypeRef) : Guarded (List PropertyRef) :=
  return (List.range (← properties find r).length).map fun i => ⟨r, i⟩

def propertyAt (p : PropertyRef) : Guarded LinkedProperty := do
  entry (.property p) (← find p.owner).properties p.index

def nameOf (r : TypeRef) : Guarded String :=
  return (← find r).name

def propertyNameOf (p : PropertyRef) : Guarded String :=
  return (← propertyAt find p).name

/-- A type in compact notation. -/
def render (w : Workspace) : DataType → Guarded String
  | .primitive id => return (← primitiveAt w id).name
  | .generic shape => return w.containers.name shape
  | .container shape key value => do
    let v ← render w value
    match shape with
    | .list => return v ++ "[]"
    | .set => return v ++ "\x7b\x7d"
    | .optional => return v ++ "?"
    | .map =>
      match key with
      | none => return "" ++ "->" ++ v
      | some id => return (← primitiveAt w id).name ++ "->" ++ v
  | .void => return voidName
  | .entity r | .struct r | .interface r | .enum r => nameOf find r

/-- A type, its base and so on to the last of them. -/
def lineage (refs : List TypeRef) (r : TypeRef) : Guarded (List TypeRef) :=
  chain (base? find) refs.length r

section Known

variable {find} {look : TypeLookup} (hfind : find.Finds look) {r : TypeRef}

include hfind

theorem ok_bind_find {β : Type} {t : LinkedType} (ht : look r = some t)
    (f : LinkedType → Guarded β) : find r >>= f = f t :=
  ok_bind (hfind r t ht)

theorem base?_eq (hr : (look r).isSome) : base? find r = .ok (look.base? r) := by
  obtain ⟨t, ht⟩ := Option.isSome_iff_exists.1 hr
  rw [base?, ok_bind_find hfind ht, TypeLookup.base?, TypeLookup.composite?, ht]
  rfl

theorem interfacesOf_eq (hr : (look r).isSome) :
    interfacesOf find r = .ok (look.interfacesOf r) := by
  obtain ⟨t, ht⟩ := Option.isSome_iff_exists.1 hr
  rw [interfacesOf, ok_bind_find hfind ht, TypeLookup.interfacesOf, TypeLookup.composite?, ht]
  rfl

theorem properties_eq (hr : (look r).isSome) : properties find r = .ok (look.properties r) := by
  obtain ⟨t, ht⟩ := Option.isSome_iff_exists.1 hr
  rw [properties, ok_bind_find hfind ht, TypeLookup.properties, ht]
  rfl

theorem ownProperties_eq (hr : (look r).isSome) :
    ownProperties find r = .ok (look.ownProperties r) := by
  rw [ownProperties, properties_eq hfind hr, TypeLookup.ownProperties]
  rfl

theorem propertyAt_eq_ok {p : PropertyRef} {q : LinkedProperty} (hp : look.property? p = some q) :
    propertyAt find p = .ok q := by
  obtain ⟨t, ht, hq⟩ := Option.bind_eq_some_iff.1 hp
  rw [propertyAt, ok_bind_find hfind ht]
  exact entry_eq_ok.2 hq

theorem nameOf_eq (hr : (look r).isSome) : nameOf find r = .ok (look.typeName r) := by
  obtain ⟨t, ht⟩ := Option.isSome_iff_exists.1 hr
  rw [nameOf, ok_bind_find hfind ht, TypeLookup.typeName, ht]
  rfl

theorem propertyNameOf_eq {p : PropertyRef} (hp : (look.property? p).isSome) :
    propertyNameOf find p = .ok (look.propertyName p) := by
  obtain ⟨q, hq⟩ := Option.isSome_iff_exists.1 hp
  rw [propertyNameOf, propertyAt_eq_ok hfind hq, TypeLookup.propertyName, hq]
  rfl

theorem render_eq {w : Workspace} {d : DataType} (hd : d.Readable w.primitives look) :
    render find w d = .ok (d.render w.primitives w.containers look.typeName) := by
  induction d with
  | primitive id =>
      obtain ⟨p, hp, hget⟩ := exists_primitiveAt hd
      rw [render, ok_bind hp, ← nameOf_of_get hget]
      rfl
  | generic shape => rfl
  | void => rfl
  | container shape key value ih =>
      rw [render, ok_bind (ih hd.2)]
      cases shape with
      | map =>
          cases key with
          | none => rfl
          | some id =>
              obtain ⟨p, hp, hget⟩ := exists_primitiveAt (hd.1 id rfl)
              exact (ok_bind hp).trans (by rw [← nameOf_of_get hget]; rfl)
      | _ => rfl
  | entity r | struct r | interface r | enum r => exact nameOf_eq hfind hd

section Grounded

variable {refs : List TypeRef} (hlook : look.Grounded refs)

include hlook

theorem interfacesOf_refs : ∀ a ∈ refs, interfacesOf find a = .ok (look.interfacesOf a) :=
  fun _ ha => interfacesOf_eq hfind (Option.isSome_iff_exists.2 (hlook.mem_refs.1 ha))

theorem lineage_eq (hwf : WellFounded fun b a => look.base? a = some b) (hr : r ∈ refs) :
    lineage find refs r = .ok (SchemaGraph.chain look.base? refs.length r) := by
  have hchain := hlook.lineage hwf hr
  refine chain_eq hchain (fun b hb => ?_) ?_
  · exact base?_eq hfind (Option.isSome_iff_exists.2
      (hlook.mem_refs.1 (hlook.lineage_subset hr hchain hb)))
  · exact ((hchain.nodup hwf).subperm (hlook.lineage_subset hr hchain)).length_le

end Grounded

end Known

end Lookups

end Guarded

end SchemaGraph
