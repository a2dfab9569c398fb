import SchemaGraph.Proofs.EnumValues
import SchemaGraph.Proofs.Failures
import SchemaGraph.Proofs.HashedTypes

/-!
Why published types and schemas can be without code. Four reasons are up to the schema: a name that
no identifier is spelled like, two names with one field, a property of an interface type, and an
enum that repeats a value. Emission guards against further faults, among them a body that is not of
the kind of its type, an entity without a key and an enum over something else than integers; what
has been compiled has none of them.
-/

namespace SchemaGraph

open RustNames RustSource

/-! ### Faults -/

/-- The faults for which a published type can be without code. -/
inductive SchemaView.TypeFault (v : SchemaView) (r : TypeRef) (t : LinkedType) : RustFault → Prop
  | inexpressible {name : String} : name ∈ forbidden → TypeFault v r t (.inexpressible name)
  /-- An earlier property has the field already. -/
  | fieldTaken {before after : List LinkedProperty} {p q : LinkedProperty} {field : String} :
    v.workspace.effectiveProperties r = before ++ p :: after → q ∈ before →
      fieldName q.name = .ok field → fieldName p.name = .ok field →
      TypeFault v r t (.fieldTaken p.name field)
  | interfaceTyped {p : LinkedProperty} {i : TypeRef} :
    p ∈ v.writtenProperties r t → p.type.leaf = .interface i →
      TypeFault v r t (.interfaceTyped p.name (nameOf v i))
  /-- An earlier element has the value already. -/
  | valueRepeated {e : EnumBody} {before after : List EnumElement} {x y : EnumElement} :
    t.body = .enum e → e.elements = before ++ x :: after → y ∈ before → y.value = x.value →
      TypeFault v r t (.valueRepeated x.name x.value)

/-- The names that a registry has fields for: its entities, then the aliases of its imports. -/
def SchemaView.registryFields (v : SchemaView) : List String :=
  (concreteEntities v.schema).map (fun e => e.2.name) ++ (registryImports v).map Prod.fst

/-- The faults for which a published schema can be without its registry. -/
inductive SchemaView.RegistryFault (v : SchemaView) : RustFault → Prop
  | inexpressible {name : String} : name ∈ forbidden → RegistryFault v (.inexpressible name)
  /-- An earlier entity or import has the field already. -/
  | fieldTaken {before after : List String} {name earlier field : String} :
    v.registryFields = before ++ name :: after → earlier ∈ before →
      fieldName earlier = .ok field → fieldName name = .ok field →
      RegistryFault v (.registryFieldTaken field)

/-- A fault that is up to the schema. -/
def RustFault.IsReported : RustFault → Prop
  | inexpressible _ | fieldTaken .. | registryFieldTaken _ | interfaceTyped .. | valueRepeated .. =>
    True
  | underlyingNotInteger | noPrimaryKey _ | mapWithoutKey _ | unsupportedType ..
  | noCompositeBody | noInterfaceBody | noEnumBody => False

/-- The texts of the faults that emission guards against and that nothing published has. The first
three are for a type whose body is not of its kind. -/
inductive InternalText : String → Prop
  | noCompositeBody : InternalText RustFault.noCompositeBody.message
  | noInterfaceBody : InternalText RustFault.noInterfaceBody.message
  | noEnumBody : InternalText RustFault.noEnumBody.message
  | underlyingNotInteger : InternalText RustFault.underlyingNotInteger.message
  | noPrimaryKey (entity : String) : InternalText (RustFault.noPrimaryKey entity).message
  | mapWithoutKey (property : String) : InternalText (RustFault.mapWithoutKey property).message
  | unsupportedType (property type : String) :
    InternalText (RustFault.unsupportedType property type).message

/-! ### Texts -/

section Texts

variable {m : String} {cs : List Char}

theorem prefix_toList_append {a b : String} (h : cs <+: a.toList) : cs <+: (a ++ b).toList := by
  rw [String.toList_append]
  exact h.trans (List.prefix_append _ _)

theorem suffix_toList_append {a b : String} (h : cs <:+ b.toList) : cs <:+ (a ++ b).toList := by
  rw [String.toList_append]
  exact h.trans (List.suffix_append _ _)

/-- How an internal text begins, and how it ends where that is not enough. -/
theorem InternalText.marks (h : InternalText m) :
    ∃ cs ∈ [['c'], ['i'], ['m'], ['e', 'n'], ['p']], cs <+: m.toList ∧
      (cs = ['p'] → ['\''] <:+ m.toList) := by
  cases h with
  | noCompositeBody => exact ⟨['c'], by decide, by decide, nofun⟩
  | noInterfaceBody => exact ⟨['i'], by decide, by decide, nofun⟩
  | noEnumBody | underlyingNotInteger => exact ⟨['e', 'n'], by decide, by decide, nofun⟩
  | noPrimaryKey entity =>
      refine ⟨['e', 'n'], by decide, ?_, nofun⟩
      exact prefix_toList_append (prefix_toList_append (a := "entity '") (by decide))
  | mapWithoutKey property =>
      refine ⟨['m'], by decide, ?_, nofun⟩
      exact prefix_toList_append (prefix_toList_append (a := "map '") (by decide))
  | unsupportedType property type =>
      refine ⟨['p'], by decide, ?_, fun _ => suffix_toList_append (b := "'") (by decide)⟩
      exact prefix_toList_append (prefix_toList_append (prefix_toList_append
        (prefix_toList_append (a := "property '") (by decide))))

/-- How the text of a fault that is up to the schema begins, and how it ends where that is not
enough. -/
theorem RustFault.IsReported.marks {f : RustFault} (h : f.IsReported) :
    ∃ cs ∈ [['\''], ['r'], ['e', 'l'], ['p']], cs <+: f.message.toList ∧
      (cs = ['p'] → ['n'] <:+ f.message.toList) := by
  cases f with
  | inexpressible name =>
      refine ⟨['\''], by decide, ?_, nofun⟩
      exact prefix_toList_append (prefix_toList_append (a := "'") (by decide))
  | registryFieldTaken field =>
      refine ⟨['r'], by decide, ?_, nofun⟩
      exact prefix_toList_append (prefix_toList_append (a := "registry field '") (by decide))
  | valueRepeated element value =>
      refine ⟨['e', 'l'], by decide, ?_, nofun⟩
      exact prefix_toList_append (prefix_toList_append (prefix_toList_append
        (prefix_toList_append (a := "element '") (by decide))))
  | fieldTaken property field =>
      refine ⟨['p'], by decide, ?_, fun _ =>
        suffix_toList_append (b := "', which is already taken") (by decide)⟩
      exact prefix_toList_append (prefix_toList_append (prefix_toList_append
        (prefix_toList_append (a := "property '") (by decide))))
  | interfaceTyped property interface =>
      refine ⟨['p'], by decide, ?_, fun _ =>
        suffix_toList_append (b := "which has no concrete Rust representation") (by decide)⟩
      exact prefix_toList_append (prefix_toList_append (prefix_toList_append
        (prefix_toList_append (prefix_toList_append (a := "property '") (by decide)))))
  | underlyingNotInteger | noPrimaryKey _ | mapWithoutKey _ | unsupportedType _ _
  | noCompositeBody | noInterfaceBody | noEnumBody => exact h.elim

theorem RustFault.IsReported.not_internal {f : RustFault} (h : f.IsReported) :
    ¬InternalText f.message := by
  intro hm
  obtain ⟨cs, hcs, hbegins, hends⟩ := h.marks
  obtain ⟨ds, hds, hbegins', hends'⟩ := hm.marks
  have hboth : ∀ cs ∈ [['\''], ['r'], ['e', 'l'], ['p']],
      ∀ ds ∈ [['c'], ['i'], ['m'], ['e', 'n'], ['p']],
        cs <+: ds ∨ ds <+: cs → cs = ['p'] ∧ ds = ['p'] := by decide
  obtain ⟨rfl, rfl⟩ := hboth cs hcs ds hds (List.prefix_or_prefix_of_prefix hbegins hbegins')
  have hlast := List.suffix_or_suffix_of_suffix (hends rfl) (hends' rfl)
  exact absurd hlast (by decide)

end Texts

/-! ### Names -/

namespace RustSource

variable {v : SchemaView} {P : RustFault → Prop}

section Names

variable (hP : ∀ name ∈ forbidden, P (.inexpressible name))

include hP

theorem fails_identifier (name : String) : Fails P (identifier name) := by
  rw [identifier]
  split
  · rename_i hname
    exact .error (hP name hname)
  · split <;> exact .ok _

theorem fails_customPath (p : Primitive) : Fails P (customPath p) := by
  refine .bind (fails_identifier hP _) fun name _ => ?_
  split
  · exact .pure _
  · exact .bind (.mapM fun part _ => fails_identifier hP _) fun _ _ => .pure _

theorem fails_primitiveType (id : PrimitiveId) : Fails P (primitiveType v id) := by
  refine .map ?_
  rw [primitivePath]
  split <;> first | exact .ok _ | exact fails_customPath hP _

theorem fails_pathTo (r : TypeRef) (id : String) : Fails P (pathTo v r id) := by
  rw [pathTo]
  split
  · exact .pure _
  · exact .bind (fails_identifier hP _) fun _ _ => .pure _

theorem fails_typePath (r : TypeRef) : Fails P (typePath v r) :=
  .bind (fails_identifier hP _) fun _ _ => fails_pathTo hP r _

end Names

/-! ### Properties -/

section Properties

variable {owner : TypeRef} {p : LinkedProperty} {bound : SchemaKey}
  (hP : ∀ name ∈ forbidden, P (.inexpressible name))

include hP

/-- Of the types that no value can have, only interfaces occur as leaves. -/
theorem fails_leafType {inPlace : Bool} {t : DataType}
    (hsound : t.SoundLeaf v.workspace bound p.role)
    (hinterface : ∀ i, t = .interface i → P (.interfaceTyped p.name (nameOf v i))) :
    Fails P (leafType v owner p inPlace t) := by
  have hreference : ∀ r, Fails P (do
      let path := RustType.path (← typePath v r)
      if inPlace ∧ (r = owner ∨ inlines v.workspace r owner) then return .boxed path
      else return path) := fun r => .bind (fails_typePath hP r) fun path _ => by
    split <;> exact .pure _
  cases t with
  | primitive id => exact fails_primitiveType hP id
  | interface i => exact .error (hinterface i rfl)
  | entity r =>
      rw [leafType]
      split
      · exact .map (fails_pathTo hP r _)
      · exact hreference r
  | struct r | enum r => exact hreference r
  | void => exact absurd rfl hsound.not_void
  | generic shape => exact absurd rfl (hsound.not_generic shape)
  | container shape key value => exact absurd rfl (hsound.not_container shape key value)

/-- A map has a key, and the keys of maps are primitives. -/
theorem fails_propertyType (hsound : p.type.Sound v.workspace bound p.role)
    (hinterface : ∀ i, p.type.leaf = .interface i → P (.interfaceTyped p.name (nameOf v i))) :
    Fails P (propertyType v owner p) := by
  have hleaf : ∀ inPlace, Fails P (leafType v owner p inPlace p.type.leaf) := fun _ =>
    fails_leafType hP hsound.leaf hinterface
  obtain ⟨name, role, type, default, metadata⟩ := p
  cases type with
  | container shape key value =>
      refine .bind (hleaf _) fun leaf _ => ?_
      cases shape with
      | list | optional | set => exact .pure _
      | map =>
          obtain ⟨id, _, rfl, -⟩ := hsound.mapKey key value rfl
          exact .bind (fails_primitiveType hP id) fun _ _ => .pure _
  | primitive id | generic shape | void | entity r | struct r | interface r | enum r =>
      exact hleaf true

/-- A struct fails for one of its properties, or for two with one field. -/
theorem fails_structFields {ps : List LinkedProperty}
    (hps : ∀ p ∈ ps, Fails P (propertyType v owner p))
    (htaken : ∀ before (p : LinkedProperty) after (q : LinkedProperty) field,
      ps = before ++ p :: after → q ∈ before →
        fieldName q.name = .ok field → fieldName p.name = .ok field →
          P (.fieldTaken p.name field)) :
    Fails P (structFields v owner ps) := by
  refine .foldlM fun before p after done hsplit hdone => ?_
  refine .bind (.bind (fails_identifier hP _) fun field hfield => ?_) fun _ _ => .pure _
  split
  · rename_i htaken'
    -- the fields so far are those of the properties before this one
    have hbefore : List.Forall₂ (v.Field owner) before done := (structFields_eq_ok.1 hdone).1
    obtain ⟨f, hf, hname⟩ := List.mem_map.1 htaken'
    obtain ⟨q, hq, hqf⟩ := exists_of_forall₂_right hbefore hf
    exact .error (htaken before p after q field hsplit hq (hname ▸ hqf.name) hfield)
  · exact .bind (hps p (by simp [hsplit])) fun _ _ => .pure _

end Properties

/-! ### Types -/

section Types

variable {r : TypeRef} {t : LinkedType} {c : LinkedComposite} {e : EnumBody} {derives : List String}
  (hP : ∀ name ∈ forbidden, P (.inexpressible name))

include hP

theorem fails_keyItems (hkey : ∃ l, v.workspace.primaryKey? r = some l) (name : String) :
    Fails P (keyItems v r t name) := by
  obtain ⟨l, hl⟩ := hkey
  rw [keyItems, hl]
  refine .bind (.mapM fun c _ => ?_) fun _ _ => .pure _
  exact .bind (fails_primitiveType hP _) fun _ _ => .bind (fails_identifier hP _) fun _ _ => .pure _

theorem fails_interfaceImpl {i : TypeRef}
    (hi : ∀ p ∈ interfaceProperties v i, Fails P (propertyType v r p)) (name : String) :
    Fails P (interfaceImpl v r name i) := by
  refine .bind (fails_typePath hP i) fun _ _ => .bind (.mapM fun p hp => ?_) fun _ _ => .pure _
  exact .bind (fails_identifier hP _) fun _ _ => .bind (hi p hp) fun _ _ => .pure _

theorem fails_compositeItems (hkey : t.kind = .entity → ∃ l, v.workspace.primaryKey? r = some l)
    (hfields : Fails P (structFields v r (v.workspace.effectiveProperties r)))
    (himpls : ∀ i ∈ implementedInterfaces v r, ∀ p ∈ interfaceProperties v i,
      Fails P (propertyType v r p)) :
    Fails P (compositeItems v derives r t c) := by
  refine .bind (fails_identifier hP _) fun name _ => .bind hfields fun _ _ => ?_
  have hrest : ∀ (key : List RustItem) (f : List RustItem → List RustItem → List RustItem),
      Fails P ((implementedInterfaces v r).mapM (interfaceImpl v r name) >>= fun impls =>
        pure (f key impls)) := fun _ _ =>
    .bind (.mapM fun i hi => fails_interfaceImpl hP (himpls i hi) name) fun _ _ => .pure _
  split
  · rename_i hentity
    exact .bind (fails_keyItems hP (hkey hentity) name) fun _ _ => hrest _ _
  · exact hrest _ _

theorem fails_interfaceItems (hps : ∀ p ∈ c.properties, Fails P (propertyType v r p)) :
    Fails P (interfaceItems v r t c) := by
  refine .bind (fails_identifier hP _) fun _ _ => ?_
  refine .bind (.mapM fun i _ => fails_typePath hP i) fun _ _ => ?_
  refine .bind (.mapM fun p hp => ?_) fun _ _ => .pure _
  exact .bind (hps p hp) fun _ _ => .bind (fails_identifier hP _) fun _ _ => .pure _

omit hP in
theorem repeatedElement?_eq_some {before : List Int} {xs : List EnumElement} {x : EnumElement}
    (h : repeatedElement? before xs = some x) :
    ∃ front after, xs = front ++ x :: after ∧
      (x.value ∈ before ∨ ∃ y ∈ front, y.value = x.value) := by
  induction xs generalizing before with
  | nil => contradiction
  | cons z xs ih =>
      rw [repeatedElement?] at h
      split at h
      · rename_i hz
        obtain rfl := Option.some.inj h
        exact ⟨[], xs, rfl, .inl hz⟩
      · obtain ⟨front, after, rfl, hx⟩ := ih h
        refine ⟨z :: front, after, rfl, ?_⟩
        rcases hx with hx | ⟨y, hy, heq⟩
        · rcases List.mem_cons.1 hx with hx | hx
          · exact .inr ⟨z, List.mem_cons_self, hx.symm⟩
          · exact .inl hx
        · exact .inr ⟨y, List.mem_cons_of_mem _ hy, heq⟩

/-- The underlying type of an enum that fits is an integer type. -/
theorem fails_enumItems {f : IntFormat} (hfits : e.Fits v.workspace.primitives f)
    (hrepeated : ∀ before (x : EnumElement) after (y : EnumElement),
      e.elements = before ++ x :: after → y ∈ before →
        y.value = x.value → P (.valueRepeated x.name x.value)) :
    Fails P (enumItems v t e) := by
  obtain ⟨p, hp, hf⟩ := Option.bind_eq_some_iff.1 hfits.1
  simp only [enumItems, hp, Option.getD_some, PrimitiveKind.intType?_eq, hf, Option.map_some]
  refine .bind (fails_identifier hP _) fun name _ => ?_
  cases hfound : repeatedElement? [] e.elements with
  | some x =>
      obtain ⟨before, after, hsplit, hx | ⟨y, hy, heq⟩⟩ := repeatedElement?_eq_some hfound
      · contradiction
      · exact .error (hrepeated before x after y hsplit hy heq)
  | none =>
      refine .bind (.mapM fun x _ => .bind (fails_identifier hP _) fun _ _ => .pure _) fun _ _ => ?_
      split <;> exact .pure _

end Types

/-! ### Registries -/

section Registries

variable {α : Type}

theorem fails_addField {done : List RustMember} {name : String} {type : Except RustFault RustType}
    (htaken : name ∈ done.map RustMember.name → P (.registryFieldTaken name))
    (htype : Fails P type) : Fails P (addField done name type) := by
  rw [addField]
  split
  · rename_i hname
    exact .error (htaken hname)
  · exact .bind htype fun _ _ => .pure _

/-- The fields are those of the names, in their order and all different. -/
structure Stand (names : List String) (fields : List RustMember) : Prop where
  named : List.Forall₂ (fun name f => fieldName name = .ok f.name) names fields
  nodup : (fields.map RustMember.name).Nodup

theorem Stand.nil : Stand [] [] :=
  ⟨.nil, List.nodup_nil⟩

theorem Stand.foldlM {add : List RustMember → α → Except RustFault (List RustMember)}
    (Kind : α → RustMember → Prop) (name : α → String) {names : List String}
    {done fields : List RustMember} {as : List α} (hdone : Stand names done)
    (hadd : ∀ {done fields a}, add done a = .ok fields → Adds (Kind a) done fields)
    (hname : ∀ a f, Kind a f → fieldName (name a) = .ok f.name)
    (h : as.foldlM add done = .ok fields) : Stand (names ++ as.map name) fields := by
  obtain ⟨new, rfl, hnodup, hnew⟩ := foldlM_adds Kind hadd hdone.nodup h
  exact ⟨List.rel_append hdone.named (List.forall₂_map_left_iff.2 (hnew.imp hname)), hnodup⟩

variable (hP : ∀ name ∈ forbidden, P (.inexpressible name))

include hP

/-- One more field fails if an earlier name has it. -/
theorem fails_addNamed {names : List String} {done : List RustMember} {name : String}
    {type : Except RustFault RustType} (hdone : Stand names done)
    (htaken : ∀ earlier ∈ names, ∀ field, fieldName earlier = .ok field →
      fieldName name = .ok field → P (.registryFieldTaken field)) (htype : Fails P type) :
    Fails P (fieldName name >>= fun field => addField done field type) := by
  refine .bind (fails_identifier hP _) fun field hfield => fails_addField (fun hmem => ?_) htype
  obtain ⟨f, hf, rfl⟩ := List.mem_map.1 hmem
  obtain ⟨earlier, hearlier, hname⟩ := exists_of_forall₂_right hdone.named hf
  exact htaken earlier hearlier f.name hname hfield

theorem fails_registryItems
    (htaken : ∀ before name after, v.registryFields = before ++ name :: after →
      ∀ earlier ∈ before, ∀ field, fieldName earlier = .ok field → fieldName name = .ok field →
        P (.registryFieldTaken field)) : Fails P (registryItems? v) := by
  have hentity : ∀ {done fields : List RustMember} {es : List (TypeRef × LinkedType)},
      es.foldlM addEntity done = .ok fields → ∀ {names}, Stand names done →
        Stand (names ++ es.map fun e => e.2.name) fields := fun h _ hdone =>
    hdone.foldlM EntityField (fun e => e.2.name) addEntity_ok (fun _ _ hf => hf.name) h
  have himport : ∀ {done fields : List RustMember} {is : List (String × Schema)},
      is.foldlM addImport done = .ok fields → ∀ {names}, Stand names done →
        Stand (names ++ is.map Prod.fst) fields := fun h _ hdone =>
    hdone.foldlM ImportField Prod.fst addImport_ok (fun _ _ hf => hf.name) h
  rw [registryItems?]
  split
  · exact .pure _
  refine .bind (fails_identifier hP _) fun name _ => ?_
  refine .bind (.foldlM fun before e after done hsplit hdone => ?_) fun own hown => ?_
  · have hnames : v.registryFields = (before.map fun e => e.2.name) ++ e.2.name ::
        ((after.map fun e => e.2.name) ++ (registryImports v).map Prod.fst) := by
      simp [SchemaView.registryFields, hsplit]
    refine fails_addNamed hP (hentity hdone .nil) (htaken _ _ _ hnames) ?_
    exact .bind (fails_identifier hP _) fun _ _ => .pure _
  refine .bind (.foldlM fun before i after done hsplit hdone => ?_) fun fields _ => ?_
  · have hnames : v.registryFields = ((concreteEntities v.schema).map fun e => e.2.name) ++
        before.map Prod.fst ++ i.1 :: after.map Prod.fst := by
      simp [SchemaView.registryFields, hsplit]
    refine fails_addNamed hP (himport hdone (hentity hown .nil)) (htaken _ _ _ hnames) ?_
    exact .bind (fails_identifier hP _) fun _ _ => .pure _
  refine .bind (.mapM fun e _ => ?_) fun _ _ => .pure _
  exact .bind (fails_identifier hP _) fun _ _ => .bind (fails_identifier hP _) fun _ _ => .pure _

end Registries

end RustSource

theorem RustSource.backend_emitType_error {v : SchemaView} {derives : List String} {r : TypeRef}
    {t : LinkedType} {e : CompileError} (h : (backend derives).emitType v r t = .error e) :
    ∃ f, typeItems v derives r t = .error f ∧ e = v.failure t.name f.message := by
  simp only [backend] at h
  cases hitems : typeItems v derives r t with
  | ok items =>
      rw [hitems] at h
      contradiction
  | error f =>
      rw [hitems] at h
      exact ⟨f, rfl, (Except.error.inj h).symm⟩

theorem RustSource.backend_emitSchema_error {v : SchemaView} {derives : List String}
    {e : CompileError} (h : (backend derives).emitSchema v = .error e) :
    ∃ f, registryItems? v = .error f ∧ e = v.failure (registryName v.schema.name) f.message := by
  simp only [backend] at h
  cases hitems : registryItems? v with
  | ok items =>
      rw [hitems] at h
      contradiction
  | error f =>
      rw [hitems] at h
      exact ⟨f, rfl, (Except.error.inj h).symm⟩

/-! ### Published types -/

section Published

variable {w : Workspace} {s : Schema} {r : TypeRef} {u : LinkedType} {derives : List String}

theorem Reached.fails_typeItems (h : Reached w) (hu : w.type? r = some u) :
    Fails ((SchemaView.mk w s).TypeFault r u) (typeItems ⟨w, s⟩ derives r u) := by
  have hnames : ∀ name ∈ forbidden, (SchemaView.mk w s).TypeFault r u (.inexpressible name) :=
    fun _ => .inexpressible
  have hproperty : ∀ p ∈ (SchemaView.mk w s).writtenProperties r u,
      Fails ((SchemaView.mk w s).TypeFault r u) (propertyType ⟨w, s⟩ r p) := fun p hp => by
    obtain ⟨bound, hsound⟩ := h.sound_written hu hp
    exact fails_propertyType hnames hsound fun i hi => .interfaceTyped hp hi
  have hw := h.layered_flattened.1
  -- what is published has a body of its kind, so that none is missing below
  have hagrees := hw.agrees hu
  rw [typeItems]
  rw [SchemaView.writtenProperties] at hproperty
  cases hkind : u.kind with
  | entity | struct =>
      obtain ⟨c, hbody⟩ := hagrees.exists_composite (by simp [hkind])
      rw [hkind, List.forall_mem_append] at hproperty
      rw [UserType.composite?_eq_some.2 hbody]
      refine fails_compositeItems hnames (fun hentity => ?_) ?_ fun i hi p hp => ?_
      · obtain ⟨-, -, l, -, -, -, -, -, hl⟩ := h.keyed.exists_key hw.wellTyped hu hentity
        exact ⟨l, hl⟩
      · exact fails_structFields hnames hproperty.1 fun before p after q field hsplit hq hfq hfp =>
          .fieldTaken hsplit hq hfq hfp
      · exact hproperty.2 p (List.mem_flatMap_of_mem hi hp)
  | interface =>
      obtain ⟨c, hbody⟩ := hagrees.exists_composite (by simp [hkind])
      simp only [hkind, UserType.properties_eq hbody] at hproperty
      rw [UserType.composite?_eq_some.2 hbody]
      exact fails_interfaceItems hnames hproperty
  | enum =>
      obtain ⟨e, hbody⟩ := hagrees.exists_enum hkind
      obtain ⟨x, hx, hmem⟩ := Option.bind_eq_some_iff.1 hu
      obtain ⟨f, hfits⟩ :=
        h.enumsFit x (List.mem_of_getElem? hx) u (List.mem_of_getElem? hmem) e hbody
      rw [UserType.enum?_eq_some.2 hbody]
      exact fails_enumItems hnames hfits fun before x after y hsplit hy heq =>
        .valueRepeated hbody hsplit hy heq

theorem SchemaView.TypeFault.isReported {v : SchemaView} {f : RustFault} (h : v.TypeFault r u f) :
    f.IsReported := by
  cases h <;> trivial

theorem SchemaView.RegistryFault.isReported {v : SchemaView} {f : RustFault}
    (h : v.RegistryFault f) : f.IsReported := by
  cases h <;> trivial

theorem SchemaView.fails_registry (v : SchemaView) : Fails v.RegistryFault (registryItems? v) :=
  fails_registryItems (fun _ => .inexpressible) fun _ _ _ hsplit _ hearlier _ hfield hname =>
    .fieldTaken hsplit hearlier hfield hname

/-- The kind and the body of a published type agree. Where it is without code it has a name that no
identifier is spelled like, two properties with one field, a property of an interface type or two
elements with one value, and a schema without its registry has such a name or two entities or
imports with one field. The error tells which it is, and its text is none of those for what cannot
be. -/
theorem generation_faults_of_published (h : Reached w) (hs : s ∈ w.schemas)
    (derives : List String) :
    (∀ t ∈ s.types, t.Agrees) ∧
    (∀ i t e, s.types[i]? = some t →
      (backend derives).emitType ⟨w, s⟩ ⟨s.key, i⟩ t = .error e →
        ∃ f, (SchemaView.mk w s).TypeFault ⟨s.key, i⟩ t f ∧ ¬InternalText f.message ∧
          e = .generation s.source t.name f.message) ∧
      ∀ e, (backend derives).emitSchema ⟨w, s⟩ = .error e →
        ∃ f, (SchemaView.mk w s).RegistryFault f ∧ ¬InternalText f.message ∧
          e = .generation s.source (registryName s.name) f.message := by
  refine ⟨fun t ht => (h.sound s hs t ht).agrees, ?_, ?_⟩
  · intro i t e ht he
    have hu : w.type? ⟨s.key, i⟩ = some t :=
      Option.bind_eq_some_iff.2 ⟨s, h.indexed.mem_iff.1 hs, ht⟩
    obtain ⟨f, hitems, rfl⟩ := backend_emitType_error he
    have hf := h.fails_typeItems hu f hitems
    exact ⟨f, hf, hf.isReported.not_internal, rfl⟩
  · intro e he
    obtain ⟨f, hitems, rfl⟩ := backend_emitSchema_error he
    have hf := (SchemaView.mk w s).fails_registry f hitems
    exact ⟨f, hf, hf.isReported.not_internal, rfl⟩

end Published

/-! ### A type and a registry without code -/

/-- A struct with a property of an interface type, and two entities whose names have one snake
case. -/
def faultySources : SourceTable :=
  [("a", { name := some "A", types := [
    .interface { name := some "I" },
    .struct { name := some "S", properties := [{ name := some "p", typeText := some "I" }] },
    .entity { name := some "FooBar", properties := [
      { name := some "id", typeText := some "int", role := .primaryKey }] },
    .entity { name := some "Foo_Bar", properties := [
      { name := some "id", typeText := some "int", role := .primaryKey }] }] })]

def faultyWorkspace : Workspace :=
  (({ primitives := [.builtin "int" .int32] } : Workspace).load faultySources.reader
    ["a"]).workspace

theorem generation_faults_of_published_faulty :
    Reached faultyWorkspace ∧ ∃ s t, s ∈ faultyWorkspace.schemas ∧ s.types[1]? = some t ∧
      t.Agrees ∧
      (backend []).emitType ⟨faultyWorkspace, s⟩ ⟨s.key, 1⟩ t = .error (.generation s.source t.name
        (RustFault.interfaceTyped "p" "I").message) ∧
      (∃ f, (SchemaView.mk faultyWorkspace s).TypeFault ⟨s.key, 1⟩ t f ∧
        ¬InternalText f.message ∧ f.message = (RustFault.interfaceTyped "p" "I").message) ∧
      (backend []).emitSchema ⟨faultyWorkspace, s⟩ = .error (.generation s.source
        (registryName s.name) (RustFault.registryFieldTaken "foo_bar").message) ∧
      ∃ f, (SchemaView.mk faultyWorkspace s).RegistryFault f ∧
        ¬InternalText f.message ∧ f.message = (RustFault.registryFieldTaken "foo_bar").message := by
  have hreached : Reached faultyWorkspace :=
    (Reached.empty [.builtin "int" .int32] {} none).load faultySources.reader ["a"]
  have hfound : (faultyWorkspace.schemas[0]?.bind fun s => s.types[1]?.map fun t =>
      (typeItems ⟨faultyWorkspace, s⟩ [] ⟨s.key, 1⟩ t, registryItems? ⟨faultyWorkspace, s⟩)) =
      some (.error (.interfaceTyped "p" "I"), .error (.registryFieldTaken "foo_bar")) := by cbv
  obtain ⟨s, hs, hfound⟩ := Option.bind_eq_some_iff.1 hfound
  obtain ⟨t, ht, hfound⟩ := Option.map_eq_some_iff.1 hfound
  obtain ⟨hitems, hregistry⟩ := Prod.mk.inj hfound
  have hmem := List.mem_of_getElem? hs
  have htype : (backend []).emitType ⟨faultyWorkspace, s⟩ ⟨s.key, 1⟩ t = .error (.generation
      s.source t.name (RustFault.interfaceTyped "p" "I").message) := by
    simp only [backend, hitems]
    rfl
  have hschema : (backend []).emitSchema ⟨faultyWorkspace, s⟩ = .error (.generation s.source
      (registryName s.name) (RustFault.registryFieldTaken "foo_bar").message) := by
    simp only [backend, hregistry]
    rfl
  obtain ⟨hagrees, htypes, hregistries⟩ := generation_faults_of_published hreached hmem []
  obtain ⟨f, hf, htext, heq⟩ := htypes 1 t _ ht htype
  obtain ⟨g, hg, htext', heq'⟩ := hregistries _ hschema
  exact ⟨hreached, s, t, hmem, ht, hagrees t (List.mem_of_getElem? ht), htype,
    ⟨f, hf, htext, by injection heq with _ _ h; exact h.symm⟩, hschema, g, hg, htext',
    by injection heq' with _ _ h; exact h.symm⟩

end SchemaGraph
