import SchemaGraph.Proofs.AddedProperties
import SchemaGraph.Proofs.PrimitiveNames

/-!
What configured names are good for. A setup is accepted as long as no two primitives share a name.
A property can ask for a primitive under its name just when that is an identifier and not the name
of a container, and for a container under its name just when that is a text without white space at
its ends and not the name of an earlier container. The types and aliases of a schema do not matter:
they cannot have configured names.
-/

namespace SchemaGraph

open Text

theorem Grows.containers_eq {w w' : Workspace} (h : Grows w w') : w'.containers = w.containers := by
  induction h with
  | refl => rfl
  | compile _ hstep ih =>
      rw [hstep.eq_publish]
      exact ih

theorem Setup.Reaches.containers_eq {setup : Setup} {w : Workspace} (h : setup.Reaches w) :
    w.containers = setup.containers := by
  induction h with
  | build hbuild =>
      obtain ⟨-, enumDefault, rfl⟩ := build_ok hbuild
      rfl
  | @load w reader roots _ ih =>
      rcases (w.load_cases reader roots).1 with ⟨-, heq⟩ | ⟨order, -, -, hgrows, -⟩
      · rw [heq]
        exact ih
      · exact hgrows.containers_eq.trans ih

/-- A shape goes by its name: no white space is lost from it, and no earlier shape has it. -/
def ContainerCatalog.Names (catalog : ContainerCatalog) (shape : Shape) : Prop :=
  trim (catalog.name shape) = catalog.name shape ∧ catalog.name shape ≠ "" ∧
    catalog.shape? (catalog.name shape) = some shape

instance (catalog : ContainerCatalog) (shape : Shape) : Decidable (catalog.Names shape) :=
  inferInstanceAs (Decidable (_ ∧ _))

/-! ### Texts -/

section Texts

variable {name text : String} {catalog : ContainerCatalog} {shape : Shape} {key value : Option String}
  {e : TypeExpr}

theorem solid_of_isIdentifier (h : isIdentifier name = true) : Solid name.toList := fun _ hc =>
  isBlank_of_isIdentifierPart (isIdentifierPart_of_mem h hc)

theorem trim_of_isIdentifier (h : isIdentifier name = true) : trim name = name := by
  rw [trim, trimChars_eq_self (solid_of_isIdentifier h), String.ofList_toList]

theorem spacedPath_of_isIdentifier (h : isIdentifier name = true) :
    SpacedPath name.toList ⟨none, name⟩ := by
  refine ⟨[], name.toList, [], nofun, nofun, ?_, by simp⟩
  simpa using PathSpelling.name h

theorem ContainerCatalog.name_of_shape? (h : catalog.shape? name = some shape) :
    catalog.name shape = name := by
  simpa using List.find?_some h

namespace TypeExpr

/-- A key or value is only read for the name of a container. -/
theorem parse_eq_ok_of_isSome (hvalue : value.isSome) :
    parse catalog text key value = .ok e ↔ trim text ≠ "" ∧ ∃ shape,
      catalog.shape? (trim text) = some shape ∧ parseLong shape key value = .ok e := by
  rw [parse, trim]
  split
  · rename_i hempty
    simp [hempty]
  · rename_i hne
    have hne : String.ofList (trimChars text.toList) ≠ "" := fun hempty => hne (by simpa using hempty)
    cases hshape : catalog.shape? (String.ofList (trimChars text.toList)) with
    | none => simp [hvalue]
    | some shape => simp [hne]

theorem nonblank_of_isIdentifier (h : isIdentifier name = true) :
    nonblank (some name) = some name.toList := by
  have hne := ne_nil_of_identifier h
  simp [nonblank, trimChars_eq_self (solid_of_isIdentifier h), hne]

theorem parseLong_shape {shape' : Shape} {inner : Option TypePath} {path : TypePath}
    (h : parseLong shape key value = .ok (.container shape' inner path)) : shape = shape' := by
  rw [parseLong] at h
  split at h
  · obtain ⟨v, -, h⟩ := bind_eq_ok.1 h
    split at h
    · split at h
      · obtain ⟨_, -, h⟩ := bind_eq_ok.1 h
        exact (TypeExpr.container.inj (pure_eq_ok.1 h)).1
      · contradiction
    · contradiction
    · exact (TypeExpr.container.inj (pure_eq_ok.1 h)).1
  · contradiction

theorem parseLong_keyless (hshape : shape ≠ .map) (hvalue : isIdentifier name = true) :
    parseLong shape none (some name) = .ok (.container shape none ⟨none, name⟩) := by
  have hkey : shape.hasKey = false := decide_eq_false hshape
  rw [parseLong, nonblank_of_isIdentifier hvalue, hkey]
  simp only [TypePath.parseChars_eq_ok.2 (spacedPath_of_isIdentifier hvalue)]
  rfl

theorem parseLong_map {keyName : String} (hkey : isIdentifier keyName = true)
    (hvalue : isIdentifier name = true) : parseLong .map (some keyName) (some name) =
      .ok (.container .map (some ⟨none, keyName⟩) ⟨none, name⟩) := by
  rw [parseLong, nonblank_of_isIdentifier hvalue]
  simp only [TypePath.parseChars_eq_ok.2 (spacedPath_of_isIdentifier hvalue), Shape.hasKey,
    decide_true, nonblank_of_isIdentifier hkey,
    TypePath.parseChars_eq_ok.2 (spacedPath_of_isIdentifier hkey)]
  rfl

end TypeExpr

end Texts

/-! ### Meanings -/

section Meanings

variable {w : Workspace} {unit : SourceId} {declaration : Declaration} {d : Draft}
  {path : TypePath} {id : PrimitiveId} {q : Primitive} {e : TypeExpr}

theorem Draft.Denotes.ne_container {t : DataType} (h : d.Denotes w path t) (shape : Shape)
    (key : Option PrimitiveId) (value : DataType) : t ≠ .container shape key value := by
  have huser : ∀ (kind : TypeKind) (r : TypeRef), kind.dataType r ≠ .container shape key value := by
    intro kind r
    cases kind <;> exact nofun
  cases h with
  | own | selfImport | imported => exact huser _ _
  | primitive => exact nofun
  | void => exact nofun

section

variable (hnames : w.primitives.names.Nodup) (hd : declaration.DraftsTo w unit d)
  (hq : w.primitives[id]? = some q)
include hnames hd hq

/-- A path stands for a primitive if and only if it is the name of the primitive. -/
theorem Draft.denotes_primitive_iff : d.Denotes w path (.primitive id) ↔ path = ⟨none, q.name⟩ := by
  have huser : ∀ (kind : TypeKind) (r : TypeRef), kind.dataType r ≠ .primitive id := by
    intro kind r
    cases kind <;> exact nofun
  have hlookup : w.primitives.lookup? q.name = some id :=
    (findIdx?_name_eq_some_iff hnames).2 ⟨q, hq, rfl⟩
  constructor
  · intro h
    generalize ht : DataType.primitive id = t at h
    cases h with
    | own | selfImport | imported => exact absurd ht.symm (huser _ _)
    | @primitive name id' _ hid =>
        obtain rfl := DataType.primitive.inj ht
        obtain ⟨p, hp, rfl⟩ := PrimitiveTable.lookup?_eq_some hid
        rw [Option.some.inj (hq.symm.trans hp)]
    | void => contradiction
  · rintro rfl
    refine .primitive (fun hown => ?_) hlookup
    obtain ⟨t, ht, hname⟩ := List.mem_map.1 hown
    obtain ⟨decl, -, name, hadmits, hbody⟩ := exists_of_forall₂_right hd.types ht
    have hfree := hadmits.permits.notReserved
    rw [← (Drafting.draws_of_draftBody hbody).name, hname] at hfree
    have hreserved : w.isReserved q.name = true := by
      rw [Workspace.isReserved, List.contains_iff_mem, Workspace.reserved, List.cons_append]
      exact List.mem_cons_of_mem _ (List.mem_append_left _
        (List.mem_map_of_mem (List.mem_of_getElem? hq)))
    rw [hreserved] at hfree
    contradiction

theorem Draft.denotesValue_primitive_iff :
    d.DenotesValue w .plain path (.primitive id) ↔ path = ⟨none, q.name⟩ := by
  rw [← Draft.denotes_primitive_iff hnames hd hq]
  exact ⟨fun h => h.path, fun h => ⟨h, nofun, by simp [DataType.isEntity]⟩⟩

theorem TypeExpr.denotes_primitive_iff :
    e.Denotes w d .plain (.primitive id) ↔ e = .named ⟨none, q.name⟩ := by
  constructor
  · intro h
    cases h with
    | named h => rw [(Draft.denotesValue_primitive_iff hnames hd hq).1 h]
  · rintro rfl
    exact .named ((Draft.denotesValue_primitive_iff hnames hd hq).2 rfl)

theorem TypeExpr.denotes_keyless_iff {shape : Shape} (hshape : shape ≠ .map) :
    e.Denotes w d .plain (.container shape none (.primitive id)) ↔
      e = .container shape none ⟨none, q.name⟩ := by
  constructor
  · intro h
    cases h with
    | named h => exact absurd rfl (h.path.ne_container _ _ _)
    | keyless _ h => rw [(Draft.denotesValue_primitive_iff hnames hd hq).1 h]
  · rintro rfl
    exact .keyless hshape ((Draft.denotesValue_primitive_iff hnames hd hq).2 rfl)

theorem TypeExpr.denotes_map_iff {key : PrimitiveId} {kq : Primitive}
    (hkq : w.primitives[key]? = some kq) (hcan : kq.canBeKey = true) :
    e.Denotes w d .plain (.container .map (some key) (.primitive id)) ↔
      e = .container .map (some ⟨none, kq.name⟩) ⟨none, q.name⟩ := by
  constructor
  · intro h
    cases h with
    | named h => exact absurd rfl (h.path.ne_container _ _ _)
    | map hkey h =>
        rw [(Draft.denotesValue_primitive_iff hnames hd hq).1 h,
          (Draft.denotes_primitive_iff hnames hd hkq).1 hkey.path]
  · rintro rfl
    exact .map ⟨(Draft.denotes_primitive_iff hnames hd hkq).2 rfl, kq, hkq, hcan⟩
      ((Draft.denotesValue_primitive_iff hnames hd hq).2 rfl)

end

end Meanings

/-! ### Reading names -/

namespace TypeExpr

variable {catalog : ContainerCatalog} {name keyName : String} {shape : Shape} {e : TypeExpr}

/-- A text is read as the bare name that it is if it is an identifier and not the name of a
container. -/
theorem parse_eq_named_iff : parse catalog name none none = .ok (.named ⟨none, name⟩) ↔
    isIdentifier name = true ∧ name ∉ catalog.names := by
  constructor
  · intro h
    have hname : isIdentifier name = true := (parse_ok h).2 ⟨none, name⟩ (by simp [paths])
    refine ⟨hname, fun hmem => ?_⟩
    rw [parse_eq_error_of_mem (trim_of_isIdentifier hname |>.symm ▸ hmem)] at h
    contradiction
  · rintro ⟨hname, hmem⟩
    have htrim := trim_of_isIdentifier hname
    rw [parse_eq_ok_of_notMem (by rwa [htrim]), htrim]
    exact .named (spacedPath_of_isIdentifier hname)

/-- The name of a shape is read as the container of that shape if the shape goes by it. -/
theorem parse_shape_iff {key value : Option String} (hvalue : value.isSome)
    {inner : Option TypePath} {path : TypePath} :
    parse catalog (catalog.name shape) key value = .ok (.container shape inner path) ↔
      catalog.Names shape ∧ parseLong shape key value = .ok (.container shape inner path) := by
  rw [parse_eq_ok_of_isSome hvalue]
  constructor
  · rintro ⟨hne, shape', hshape, h⟩
    obtain rfl : shape' = shape := parseLong_shape h
    have htrim := ContainerCatalog.name_of_shape? hshape
    rw [← htrim] at hne hshape
    exact ⟨⟨htrim.symm, hne, hshape⟩, h⟩
  · rintro ⟨⟨htrim, hne, hshape⟩, h⟩
    rw [htrim]
    exact ⟨hne, shape, hshape, h⟩

theorem parse_keyless_iff (hshape : shape ≠ .map) :
    parse catalog (catalog.name shape) none (some name) =
        .ok (.container shape none ⟨none, name⟩) ↔
      catalog.Names shape ∧ isIdentifier name = true := by
  rw [parse_shape_iff rfl]
  refine and_congr_right fun _ => ⟨fun h => ?_, parseLong_keyless hshape⟩
  exact (parseLong_ok h).2 ⟨none, name⟩ (by simp [paths])

theorem parse_map_iff :
    parse catalog (catalog.name .map) (some keyName) (some name) =
        .ok (.container .map (some ⟨none, keyName⟩) ⟨none, name⟩) ↔
      catalog.Names .map ∧ isIdentifier keyName = true ∧ isIdentifier name = true := by
  rw [parse_shape_iff rfl]
  refine and_congr_right fun _ => ⟨fun h => ?_, fun ⟨hkey, hvalue⟩ => parseLong_map hkey hvalue⟩
  have hnamed := (parseLong_ok h).2
  exact ⟨hnamed ⟨none, keyName⟩ (by simp [paths]), hnamed ⟨none, name⟩ (by simp [paths])⟩

end TypeExpr

/-! ### Configured names -/

/-- Under every setup that is accepted, a plain property can be added to any composite type of a unit
that compiles, with the name of a primitive for its type; it resolves to that primitive if and only
if the name is an identifier and not the name of a container. With the name of a container, and those
of primitives for its value and for the key of a map, it resolves to that container of these
primitives if and only if the container goes by its name and the other names are identifiers. -/
theorem configured_names_resolve {setup : Setup} {w : Workspace} (hreaches : setup.Reaches w)
    {unit : SourceId} {declaration : Declaration} {d : Draft}
    (hd : Draft.ofDeclaration w unit declaration = .ok d)
    (hresolve : ∃ d', d.resolve w = (d', .ok ())) {i k : Nat} {p : Declaration.Property}
    (hplace : declaration.HasPlace w i k p) :
    (∀ id q, setup.primitives[id]? = some q → p.typeText = some q.name → p.key = none →
      p.value = none →
      ((declaration.insertProperty i k p).GivesProperty w unit i k (.primitive id) ↔
        isIdentifier q.name = true ∧ q.name ∉ setup.containers.names)) ∧
    (∀ shape, shape ≠ .map → ∀ id q, setup.primitives[id]? = some q →
      p.typeText = some (setup.containers.name shape) → p.key = none → p.value = some q.name →
      ((declaration.insertProperty i k p).GivesProperty w unit i k
          (.container shape none (.primitive id)) ↔
        setup.containers.Names shape ∧ isIdentifier q.name = true)) ∧
    ∀ key kq id q, setup.primitives[key]? = some kq → kq.canBeKey = true →
      setup.primitives[id]? = some q → p.typeText = some (setup.containers.name .map) →
      p.key = some kq.name → p.value = some q.name →
      ((declaration.insertProperty i k p).GivesProperty w unit i k
          (.container .map (some key) (.primitive id)) ↔
        setup.containers.Names .map ∧ isIdentifier kq.name = true ∧ isIdentifier q.name = true) := by
  obtain ⟨hprimitives, hnames⟩ := hreaches.primitives_eq
  have hdrafts := Draft.ofDeclaration_eq_ok.1 hd
  have hgives := fun t =>
    Declaration.givesProperty_iff hreaches.reached.wellFormed hdrafts hresolve hplace (t := t)
  simp only [hgives]
  rw [← hprimitives, ← hreaches.containers_eq]
  refine ⟨fun id q hq htext hkey hvalue => ?_, fun shape hshape id q hq htext hkey hvalue => ?_,
    fun key kq id q hkq hcan hq htext hkey hvalue => ?_⟩
  · simp only [htext, hkey, hvalue, Option.some.injEq, exists_and_left, exists_eq_left',
      TypeExpr.denotes_primitive_iff hnames hdrafts hq, exists_eq_right]
    exact TypeExpr.parse_eq_named_iff
  · simp only [htext, hkey, hvalue, Option.some.injEq, exists_and_left, exists_eq_left',
      TypeExpr.denotes_keyless_iff hnames hdrafts hq hshape, exists_eq_right]
    exact TypeExpr.parse_keyless_iff hshape
  · simp only [htext, hkey, hvalue, Option.some.injEq, exists_and_left, exists_eq_left',
      TypeExpr.denotes_map_iff hnames hdrafts hq hkq hcan, exists_eq_right]
    exact TypeExpr.parse_map_iff

/-! A struct to which properties are added, under the names that a setup gives by itself and under a
setup with a primitive of the name of a container. -/

def pointDeclaration : Declaration where
  name := some "A"
  types := [.struct { name := some "Point", properties := [
    { name := some "x", typeText := some "int32" }] }]

def pointHeight : Declaration.Property where
  name := some "y"
  typeText := some "int32"

def pointTags : Declaration.Property where
  name := some "tags"
  typeText := some "Map"
  key := some "string"
  value := some "bool"

def pointList : Declaration.Property where
  name := some "list"
  typeText := some "List"

def listSetup : Setup where
  custom := [.custom "List" "" false]

theorem resolve_point (setup : Setup)
    (h : (Draft.ofDeclaration setup.start "a" pointDeclaration).toOption.map
      (fun d => (d.resolve setup.start).2.toOption) = some (some ())) :
    ∃ d, Draft.ofDeclaration setup.start "a" pointDeclaration = .ok d ∧
      ∃ d', d.resolve setup.start = (d', .ok ()) := by
  obtain ⟨d, hd, hresolve⟩ := Option.map_eq_some_iff.1 h
  rw [toOption_eq_some] at hd hresolve
  exact ⟨d, hd, _, Prod.ext rfl hresolve⟩

theorem hasPlace_point {setup : Setup} {p : Declaration.Property} {name : String} {k : Nat}
    (hk : k ≤ 1) (hname : p.name = some name) (hplain : p.role = .plain)
    (hproper : isIdentifier (trim name) = true ∧ setup.start.isReserved (trim name) = false ∧
      trim name ≠ "x") : pointDeclaration.HasPlace setup.start 0 k p := by
  obtain ⟨hidentifier, hfree, hfresh⟩ := hproper
  rw [← givenName_some, ← hname] at hidentifier hfree hfresh
  refine ⟨⟨_, _, rfl, rfl, hk, ?_⟩, ⟨by rw [hname]; rfl, hidentifier, hfree⟩, hplain⟩
  have hx : givenName (some "x") = "x" := by
    rw [givenName_some]
    decide
  simpa [hx] using hfresh

theorem configured_names_resolve_point :
    ({} : Setup).build = .ok (({} : Setup).start) ∧
    (pointDeclaration.insertProperty 0 1 pointHeight).GivesProperty ({} : Setup).start "a" 0 1
      (.primitive 6) ∧
    (pointDeclaration.insertProperty 0 0 pointTags).GivesProperty ({} : Setup).start "a" 0 0
      (.container .map (some 11) (.primitive 10)) := by
  have hbuild : ({} : Setup).build = .ok (({} : Setup).start) := Setup.build_of_nodup (by decide) rfl
  obtain ⟨d, hd, hresolve⟩ := resolve_point {} (by cbv)
  have hheight : pointDeclaration.HasPlace ({} : Setup).start 0 1 pointHeight :=
    hasPlace_point (by decide) rfl rfl (by decide)
  have htags : pointDeclaration.HasPlace ({} : Setup).start 0 0 pointTags :=
    hasPlace_point (by decide) rfl rfl (by decide)
  exact ⟨hbuild,
    ((configured_names_resolve (.build hbuild) hd hresolve hheight).1 6 _ rfl rfl rfl rfl).2
      (by decide),
    ((configured_names_resolve (.build hbuild) hd hresolve htags).2.2 11 _ 10 _ rfl rfl rfl rfl rfl
      rfl).2 (by decide)⟩

/-- A setup that is accepted registers a primitive, and no property can have its name for a type. -/
theorem list_primitive_refused : listSetup.build = .ok listSetup.start ∧
    listSetup.start.primitives.lookup? "List" = some 12 ∧
    (∃ d, Draft.ofDeclaration listSetup.start "a" pointDeclaration = .ok d ∧
      ∃ d', d.resolve listSetup.start = (d', .ok ())) ∧
    pointDeclaration.HasPlace listSetup.start 0 1 pointList ∧
    ∀ t, ¬(pointDeclaration.insertProperty 0 1 pointList).GivesProperty listSetup.start "a" 0 1 t := by
  have hbuild : listSetup.build = .ok listSetup.start := Setup.build_of_nodup (by decide) rfl
  obtain ⟨d, hd, hresolve⟩ := resolve_point listSetup (by cbv)
  have hplace : pointDeclaration.HasPlace listSetup.start 0 1 pointList :=
    hasPlace_point (by decide) rfl rfl (by decide)
  refine ⟨hbuild, by decide, ⟨d, hd, hresolve⟩, hplace, fun t ht => ?_⟩
  obtain ⟨text, e, htext, hparse, -⟩ := (Declaration.givesProperty_iff
    (Setup.Reaches.build hbuild).reached.wellFormed (Draft.ofDeclaration_eq_ok.1 hd) hresolve
    hplace).1 ht
  obtain rfl := Option.some.inj htext
  have hrefused : TypeExpr.parse listSetup.start.containers "List" pointList.key pointList.value =
      .error .missingValue := by rfl
  rw [hrefused] at hparse
  contradiction

end SchemaGraph
