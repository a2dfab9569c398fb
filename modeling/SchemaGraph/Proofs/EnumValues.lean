import SchemaGraph.Proofs.Batches
import SchemaGraph.Proofs.Decimals
import SchemaGraph.Proofs.Events
import SchemaGraph.Proofs.MemberNames
import SchemaGraph.Proofs.ValidDeclarations

/-!
The values of enums, from the text of a declaration to the discriminants in the code. A value is
read as a decimal, is compared with the range of the underlying type, and is written as a decimal
under the name of an integer type. The range and the name come from tables of their own; both are
those of one format, a sign and a number of bits.
-/

namespace SchemaGraph

/-! ### Integer types -/

/-- The form of an integer type: with or without a sign, and of how many bits. -/
structure IntFormat where
  signed : Bool
  bits : Nat

namespace IntFormat

/-- The integers that a type of this form has. -/
def Holds (f : IntFormat) (n : Int) : Prop :=
  if f.signed then -2 ^ (f.bits - 1) ≤ n ∧ n < 2 ^ (f.bits - 1) else 0 ≤ n ∧ n < 2 ^ f.bits

def rustName (f : IntFormat) : String :=
  (if f.signed then "i" else "u") ++ toString f.bits

end IntFormat

namespace PrimitiveKind

/-- The form of the integers of a kind; none if the kind is not one of integers. -/
def format? : PrimitiveKind → Option IntFormat
  | uint8 => some ⟨false, 8⟩
  | uint16 => some ⟨false, 16⟩
  | uint32 => some ⟨false, 32⟩
  | uint64 => some ⟨false, 64⟩
  | int8 => some ⟨true, 8⟩
  | int16 => some ⟨true, 16⟩
  | int32 => some ⟨true, 32⟩
  | int64 => some ⟨true, 64⟩
  | _ => none

variable {k : PrimitiveKind} {f : IntFormat}

theorem range?_eq_none_iff : k.range? = none ↔ k.format? = none := by
  cases k <;> decide

/-- The bounds of a kind are exactly those of its format. -/
theorem holds_iff {low high : Int} (hf : k.format? = some f) (hrange : k.range? = some (low, high))
    (n : Int) : f.Holds n ↔ low ≤ n ∧ n ≤ high := by
  cases k <;> cases hf <;> cases hrange <;> simp only [IntFormat.Holds] <;> norm_num <;> omega

theorem exists_range (hf : k.format? = some f) : ∃ low high, k.range? = some (low, high) := by
  cases hrange : k.range? with
  | none =>
      rw [range?_eq_none_iff, hf] at hrange
      contradiction
  | some bounds => exact ⟨bounds.1, bounds.2, rfl⟩

theorem intType?_eq (k : PrimitiveKind) :
    RustSource.intType? k = k.format?.map IntFormat.rustName := by
  cases k <;> rfl

end PrimitiveKind

/-! ### Declared enums -/

namespace Declaration

open Text

/-- What a value says, whether it was written as a number or as a text. -/
def EnumValue.Denotes : EnumValue → Int → Prop
  | .signed v, n => n = v
  | .unsigned v, n => n = v
  | .text s, n => Decimal.Spells (trimChars s.toList) n ∧ (IntFormat.mk true 128).Holds n

theorem EnumValue.toInt?_eq_some {v : EnumValue} {n : Int} : v.toInt? = some n ↔ v.Denotes n := by
  cases v with
  | signed v => exact Option.some_inj.trans eq_comm
  | unsigned v => exact Option.some_inj.trans eq_comm
  | text s =>
      have hwide : (minWide ≤ n ∧ n ≤ maxWide) ↔ (IntFormat.mk true 128).Holds n := by
        simp only [minWide, maxWide, IntFormat.Holds]
        norm_num
        omega
      rw [toInt?, Option.filter_eq_some_iff, Decimal.readInt?_eq_some, decide_eq_true_eq, hwide]
      rfl

/-- The underlying type of an enum is a registered primitive of an integer kind; its elements have
proper names, no two the same, and values that the kind has. -/
structure Enum.Fits (w : Workspace) (d : Declaration.Enum) (id : PrimitiveId) (f : IntFormat) :
    Prop where
  underlying : d.underlying? w = some id
  format : (w.primitives[id]?.bind fun p => p.kind.format?) = some f
  names : ∀ e ∈ d.elements, w.Accepts e.name
  nodup : (d.elements.map (givenName ·.name)).Nodup
  values : ∀ e ∈ d.elements, ∃ v n, e.value = some v ∧ v.Denotes n ∧ f.Holds n

/-- The element has the name and the integer that are declared. -/
structure Element.Gives (e : Declaration.Element) (x : EnumElement) : Prop where
  name : x.name = givenName e.name
  value : ∃ v, e.value = some v ∧ v.Denotes x.value
  metadata : x.metadata = e.metadata

theorem Element.lists_iff {e : Declaration.Element} {x : EnumElement} : e.Lists x ↔ e.Gives x := by
  constructor
  · rintro ⟨hname, ⟨v, hv, hvalue⟩, hmetadata⟩
    exact ⟨hname, ⟨v, hv, EnumValue.toInt?_eq_some.1 hvalue⟩, hmetadata⟩
  · rintro ⟨hname, ⟨v, hv, hvalue⟩, hmetadata⟩
    exact ⟨hname, ⟨v, hv, EnumValue.toInt?_eq_some.2 hvalue⟩, hmetadata⟩

theorem Enum.ranges_iff {w : Workspace} {d : Declaration.Enum} {id : PrimitiveId}
    {low high : Int} : d.Ranges w id low high ↔ d.underlying? w = some id ∧
      ∃ p f, w.primitives[id]? = some p ∧ p.kind.format? = some f ∧
        p.kind.range? = some (low, high) := by
  refine and_congr_right fun _ => exists_congr fun p => ?_
  constructor
  · rintro ⟨hp, hrange⟩
    obtain ⟨f, hf⟩ := Option.ne_none_iff_exists'.1 fun hnone => by
      rw [PrimitiveKind.range?_eq_none_iff.2 hnone] at hrange
      contradiction
    exact ⟨f, hp, hf, hrange⟩
  · rintro ⟨f, hp, -, hrange⟩
    exact ⟨hp, hrange⟩

/-- The rules by which an enum is judged are those above. -/
theorem Enum.valid_iff {w : Workspace} {d : Declaration.Enum} : d.Valid w ↔
    w.Accepts d.name ∧ w.AcceptsNamespace d.namespace ∧ ∃ id f, d.Fits w id f := by
  constructor
  · rintro ⟨hname, hnamespace, id, low, high, hranges, helements⟩
    obtain ⟨hid, p, f, hp, hf, hrange⟩ := Enum.ranges_iff.1 hranges
    refine ⟨hname, hnamespace, id, f, hid, ?_, fun e he => (helements.valid e he).name,
      helements.nodup, fun e he => ?_⟩
    · rw [hp, Option.bind_some, hf]
    · obtain ⟨v, n, hv, hn, hlow, hhigh⟩ := (helements.valid e he).value
      exact ⟨v, n, hv, EnumValue.toInt?_eq_some.1 hn,
        (PrimitiveKind.holds_iff hf hrange n).2 ⟨hlow, hhigh⟩⟩
  · rintro ⟨hname, hnamespace, id, f, hfits⟩
    obtain ⟨p, hp, hf⟩ := Option.bind_eq_some_iff.1 hfits.format
    obtain ⟨low, high, hrange⟩ := PrimitiveKind.exists_range hf
    refine ⟨hname, hnamespace, id, low, high,
      Enum.ranges_iff.2 ⟨hfits.underlying, p, f, hp, hf, hrange⟩, fun e he => ?_, hfits.nodup⟩
    obtain ⟨v, n, hv, hn, hholds⟩ := hfits.values e he
    exact ⟨hfits.names e he, v, n, hv, EnumValue.toInt?_eq_some.2 hn,
      (PrimitiveKind.holds_iff hf hrange n).1 hholds⟩

theorem Enum.valid_iff_fits {w : Workspace} {d : Declaration.Enum} (hname : w.Accepts d.name)
    (hnamespace : w.AcceptsNamespace d.namespace) : d.Valid w ↔ ∃ id f, d.Fits w id f := by
  rw [Enum.valid_iff, and_iff_right hname, and_iff_right hnamespace]

end Declaration

/-- An enum with a proper name that is not taken becomes a draft if and only if it fits. -/
theorem Drafting.draftType_enum_isOk_iff {w : Workspace} {unit : SourceId}
    {schemaNamespace : String} {done : List DraftType} {d : Declaration.Enum}
    (hname : w.Accepts d.name) (hfresh : givenName d.name ∉ done.map UserType.name)
    (hnamespace : w.AcceptsNamespace d.namespace) :
    (∃ t, draftType w unit schemaNamespace done (.enum d) = .ok t) ↔ ∃ id f, d.Fits w id f := by
  rw [← Declaration.Enum.valid_iff_fits hname hnamespace]
  simp only [draftType_eq_ok, Declaration.TypeDecl.draftsTo_iff_valid]
  constructor
  · rintro ⟨t, ⟨hvalid, -⟩, -⟩
    exact hvalid
  · intro hvalid
    obtain ⟨t, hlists⟩ := hvalid.exists_lists schemaNamespace
    refine ⟨t, ⟨hvalid, hlists⟩, ?_⟩
    rwa [hlists.name]

/-! ### Published enums -/

/-- The underlying type of an enum is of an integer kind that has the values of all elements. -/
def EnumBody.Fits (primitives : PrimitiveTable) (e : EnumBody) (f : IntFormat) : Prop :=
  (primitives[e.underlying]?.bind fun p => p.kind.format?) = some f ∧
    ∀ x ∈ e.elements, f.Holds x.value

theorem Declaration.EnumValue.Denotes.unique {v : EnumValue} {m n : Int} (hm : v.Denotes m)
    (hn : v.Denotes n) : m = n :=
  Option.some.inj ((toInt?_eq_some.2 hm).symm.trans (toInt?_eq_some.2 hn))

theorem Declaration.Enum.Fits.body {w : Workspace} {d : Declaration.Enum} {id : PrimitiveId}
    {f : IntFormat} {elements : List EnumElement} (h : d.Fits w id f)
    (helements : List.Forall₂ Element.Gives d.elements elements) :
    EnumBody.Fits w.primitives ⟨id, elements⟩ f := by
  refine ⟨h.format, fun x hx => ?_⟩
  obtain ⟨e, he, hgives⟩ := exists_of_forall₂_right helements hx
  obtain ⟨v, n, hv, hn, hholds⟩ := h.values e he
  obtain ⟨v', hv', hvalue⟩ := hgives.value
  obtain rfl := Option.some.inj (hv.symm.trans hv')
  rwa [hvalue.unique hn]

/-- What a declared type is published as, if it is an enum: its elements have the integers that are
declared, in the order of the declaration. -/
def Declaration.TypeDecl.GivesEnum (w : Workspace) (decl : TypeDecl) (t : LinkedType) : Prop :=
  (∀ d, decl = .enum d → ∃ id f elements, t.body = .enum ⟨id, elements⟩ ∧ d.Fits w id f ∧
    List.Forall₂ Element.Gives d.elements elements) ∧
  ∀ e, t.body = .enum e → ∃ d, decl = .enum d

theorem Declaration.TypeDecl.givesEnum {w : Workspace} {unit : SourceId} {schemaNamespace : String}
    {decl : TypeDecl} {dt : DraftType} {draft : Draft} {t : LinkedType}
    (hdraft : decl.DraftsTo w unit schemaNamespace dt)
    (hresolves : DraftType.ResolvesTo w draft dt t) : decl.GivesEnum w t := by
  obtain ⟨hvalid, hlists⟩ := draftsTo_iff_valid.1 hdraft
  have hbody := hresolves.body
  have hcomposite : ∀ {c}, dt.body = .composite c → ∀ e, t.body ≠ .enum e := by
    intro c hdt e he
    rw [hdt, he] at hbody
    cases hbody
  cases decl with
  | entity c | struct c =>
      obtain ⟨_, _, _, hdt, -⟩ := Composite.Lists.body hlists
      exact ⟨nofun, fun e he => absurd he (hcomposite hdt e)⟩
  | interface c =>
      obtain ⟨_, _, _, hdt, -⟩ := Composite.Lists.body (c := c.asComposite) hlists
      exact ⟨nofun, fun e he => absurd he (hcomposite hdt e)⟩
  | enum d =>
      refine ⟨?_, fun _ _ => ⟨d, rfl⟩⟩
      rintro _ ⟨⟩
      obtain ⟨-, -, id, f, hfits⟩ := Enum.valid_iff.1 hvalid
      obtain ⟨id', elements, hdt, hid, helements⟩ := Enum.Lists.body hlists
      obtain rfl := Option.some.inj (hfits.underlying.symm.trans hid)
      rw [hdt] at hbody
      have ht : t.body = .enum ⟨id, elements⟩ := by
        generalize t.body = body at hbody
        cases hbody
        rfl
      exact ⟨id, f, elements, ht, hfits, helements.imp fun _ _ => Element.lists_iff.1⟩

theorem Compiles.givesEnums {w w' : Workspace} {unit : SourceId} {declaration : Declaration}
    {s : Schema} (h : Compiles w unit declaration s w') :
    List.Forall₂ (Declaration.TypeDecl.GivesEnum w) declaration.types s.types := by
  obtain ⟨draft, hdraft, hlinked⟩ := h.exists_draft
  have hdrafts := (Draft.ofDeclaration_eq_ok.1 hdraft).types
  have htypes := hlinked.types
  refine List.forall₂_iff_get.2 ⟨hdrafts.length_eq.trans htypes.length_eq, fun i hi hi' => ?_⟩
  have hmid : i < draft.types.length := hdrafts.length_eq ▸ hi
  exact Declaration.TypeDecl.givesEnum (hdrafts.get hi hmid) (htypes.get hmid hi')

/-- All published enums fit. -/
def Workspace.EnumsFit (w : Workspace) : Prop :=
  ∀ s ∈ w.schemas, ∀ t ∈ s.types, ∀ e, t.body = .enum e → ∃ f, e.Fits w.primitives f

theorem Reached.enumsFit {w : Workspace} (h : Reached w) : w.EnumsFit := by
  refine h.induction (fun _ _ _ => by simp [Workspace.EnumsFit]) fun w _ _ s w' ih hc => ?_
  rw [hc.eq_publish]
  intro u hu t ht e he
  rcases List.mem_append.1 hu with hu | hu
  · exact ih u hu t ht e he
  · obtain rfl := List.mem_singleton.1 hu
    obtain ⟨decl, -, hgives⟩ := exists_of_forall₂_right hc.givesEnums ht
    obtain ⟨d, hd⟩ := hgives.2 e he
    obtain ⟨id, f, elements, hbody, hfits, helements⟩ := hgives.1 d hd
    obtain rfl := TypeBody.enum.inj (he.symm.trans hbody)
    exact ⟨f, hfits.body helements⟩

/-- A unit that a load publishes has been compiled on the way, in a workspace with the primitives
that there were. -/
theorem Builds.exists_compiles {reader : SourceReader} {w w' : Workspace} {us : List SourceId}
    (h : Builds reader w us w') (hw : w.Indexed) {unit : SourceId} (hunit : unit ∈ us)
    (hnew : w.bySource? unit = none) :
    ∃ v v' declaration s, w.SameConfig v ∧ reader.read unit = .ok declaration ∧
      Compiles v unit declaration s v' ∧ w'.bySource? unit = some s := by
  induction h with
  | nil => simp at hunit
  | known hknown hbuilds ih =>
      rcases List.mem_cons.1 hunit with rfl | hunit
      · rw [hnew] at hknown
        contradiction
      · exact ih hw hunit hnew
  | @compile w w₁ w' unit' us declaration s hread hc hbuilds ih =>
      by_cases heq : unit = unit'
      · subst heq
        exact ⟨w, w₁, declaration, s, ⟨rfl, rfl, rfl⟩, hread, hc,
          hbuilds.grows.bySource? hc.published⟩
      · obtain ⟨v, v', d, t, hconfig, hread', hc', ht⟩ :=
          ih (hc.indexed hw) ((List.mem_cons.1 hunit).resolve_left heq)
            ((hc.bySource?_eq_none_iff hw heq).2 hnew)
        rw [hc.eq_publish] at hconfig
        exact ⟨v, v', d, t, .trans (.publish _ _) hconfig, hread', hc', ht⟩

theorem Workspace.SameConfig.accepts_iff {w w' : Workspace} (h : w.SameConfig w')
    {text : Option String} : w'.Accepts text ↔ w.Accepts text := by
  have hadmits : w'.Admits text (givenName text) ↔ w.Admits text (givenName text) := h.admits_iff
  rwa [Workspace.admits_iff, Workspace.admits_iff, and_iff_left rfl, and_iff_left rfl] at hadmits

theorem Declaration.Enum.Fits.of_sameConfig {w w' : Workspace} (h : w.SameConfig w')
    {d : Declaration.Enum} {id : PrimitiveId} {f : IntFormat} (hd : d.Fits w' id f) :
    d.Fits w id f := by
  refine ⟨?_, h.primitives ▸ hd.format, fun e he => h.accepts_iff.1 (hd.names e he), hd.nodup,
    hd.values⟩
  have hunderlying := hd.underlying
  rwa [underlying?, h.primitives, h.enumDefault] at hunderlying

/-! ### Discriminants -/

/-- The text of a variant gives it this integer. -/
def RustVariant.Writes (v : RustVariant) (n : Int) : Prop :=
  ∃ before number, RustItem.variantText v = before ++ v.name ++ " = " ++ number ++ ",\n" ∧
    Decimal.Spells number.toList n

theorem RustVariant.writes_value (v : RustVariant) : v.Writes v.value :=
  ⟨_, _, rfl, Decimal.spells_toString v.value⟩

namespace RustSource

open RustNames

theorem repeatedElement?_eq_none_iff {before : List Int} {xs : List EnumElement} :
    repeatedElement? before xs = none ↔
      (xs.map EnumElement.value).Nodup ∧ ∀ x ∈ xs, x.value ∉ before := by
  induction xs generalizing before with
  | nil => simp [repeatedElement?]
  | cons x xs ih =>
      rw [repeatedElement?, List.map_cons, List.nodup_cons, List.forall_mem_cons]
      by_cases hx : x.value ∈ before
      · simp [hx]
      · rw [if_neg hx, ih]
        simp only [List.mem_cons, not_or, List.mem_map]
        constructor
        · rintro ⟨hnodup, hfresh⟩
          refine ⟨⟨?_, hnodup⟩, hx, fun y hy => (hfresh y hy).2⟩
          rintro ⟨y, hy, heq⟩
          exact (hfresh y hy).1 heq
        · rintro ⟨⟨hne, hnodup⟩, -, hfresh⟩
          exact ⟨hnodup, fun y hy => ⟨fun heq => hne ⟨y, hy, heq⟩, hfresh y hy⟩⟩

variable {v : SchemaView} {t : LinkedType} {e : EnumBody} {f : IntFormat} {items : List RustItem}

/-- The code of an enum that fits: the integers of its elements, all different, under the name of an
integer type that has them all. -/
theorem enumItems_values (hfits : e.Fits v.workspace.primitives f)
    (h : enumItems v t e = .ok items) : ∃ repr? name variants rest,
      items = .enum (typeDocs t) enumDerives repr? name variants :: rest ∧
      List.Forall₂ (fun x y => typeName x.name = .ok y.name ∧ y.value = x.value) e.elements
        variants ∧
      (e.elements.map EnumElement.value).Nodup ∧
      repr? = if e.elements = [] then none else some f.rustName := by
  obtain ⟨repr?, name, variants, rest, rfl, -, hvariants, hrepeated, hrepr⟩ := enumItems_ok h
  refine ⟨repr?, name, variants, rest, rfl, hvariants, ?_, ?_⟩
  · exact (repeatedElement?_eq_none_iff.1 hrepeated).1
  · obtain ⟨p, hp, hf⟩ := Option.bind_eq_some_iff.1 hfits.1
    rcases hrepr with ⟨hempty, rfl, -⟩ | ⟨hne, repr, hrepr, rfl, -⟩
    · exact (if_pos hempty).symm
    · rw [hp, Option.getD_some, PrimitiveKind.intType?_eq, hf] at hrepr
      rw [if_neg hne, ← hrepr]
      rfl

end RustSource

/-! ### From declarations to discriminants -/

/-- The code of an enum gives its elements their integers, in their order; these are all different,
and the integer type that the code names has them all. An enum without elements names no type. -/
def EnumBody.WrittenAs (e : EnumBody) (schema : String) (code : String) : Prop :=
  ∃ docs derives repr? name variants rest,
    code = RustItem.renderFile schema (.enum docs derives repr? name variants :: rest) ∧
    List.Forall₂ (fun x y => RustNames.typeName x.name = .ok y.name ∧ y.Writes x.value) e.elements
      variants ∧
    (e.elements.map EnumElement.value).Nodup ∧ (repr? = none ↔ e.elements = []) ∧
    ∀ repr, repr? = some repr →
      ∃ f : IntFormat, f.rustName = repr ∧ ∀ x ∈ e.elements, f.Holds x.value

/-- An enum with a proper name and namespace is accepted if and only if its underlying type is of an
integer kind, its elements have proper names, and their values are integers that the kind has. A
load publishes it with these integers, and code for it has them for its discriminants. -/
theorem enum_values_survive (w : Workspace) :
    (∀ unit schemaNamespace done (d : Declaration.Enum), w.Accepts d.name →
      givenName d.name ∉ done.map UserType.name → w.AcceptsNamespace d.namespace →
      ((∃ t, Drafting.draftType w unit schemaNamespace done (.enum d) = .ok t) ↔
        ∃ id f, d.Fits w id f)) ∧
    (Reached w → ∀ reader roots order, (w.load reader roots).result = .ok order →
      ∀ unit ∈ order, w.bySource? unit = none →
      ∃ declaration s, reader.read unit = .ok declaration ∧
        (w.load reader roots).workspace.bySource? unit = some s ∧
        ∀ (i : Nat) (d : Declaration.Enum), declaration.types[i]? = some (.enum d) →
          ∃ t id elements f, s.types[i]? = some t ∧ t.body = .enum ⟨id, elements⟩ ∧
            d.Fits w id f ∧ List.Forall₂ Declaration.Element.Gives d.elements elements) ∧
    (Reached w → ∀ s ∈ w.schemas, ∀ t ∈ s.types, ∀ e, t.body = .enum e → ∀ derives r emitted,
      (RustSource.backend derives).emitType ⟨w, s⟩ r t = .ok emitted →
        e.WrittenAs s.name emitted.code) := by
  refine ⟨fun _ _ _ _ hname hfresh hnamespace =>
    Drafting.draftType_enum_isOk_iff hname hfresh hnamespace, ?_, ?_⟩
  · intro h reader roots order hload unit hunit hnew
    obtain ⟨v, v', declaration, s, hconfig, hread, hc, hs⟩ :=
      (Workspace.builds_of_load hload).2.exists_compiles h.indexed hunit hnew
    refine ⟨declaration, s, hread, hs, fun i d hd => ?_⟩
    obtain ⟨t, ht, hgives⟩ := exists_of_forall₂_left hc.givesEnums hd
    obtain ⟨id, f, elements, hbody, hfits, helements⟩ := hgives.1 d rfl
    exact ⟨t, id, elements, f, ht, hbody, hfits.of_sameConfig hconfig, helements⟩
  · intro h s hs t ht e he derives r emitted hemitted
    obtain ⟨f, hfits⟩ := h.enumsFit s hs t ht e he
    obtain ⟨items, hitems, hcode⟩ := RustSource.backend_emitType_ok hemitted
    obtain ⟨repr?, name, variants, rest, rfl, hvariants, hnodup, rfl⟩ :=
      RustSource.enumItems_values hfits (RustSource.typeItems_of_enum he hitems)
    refine ⟨_, _, _, name, variants, rest, hcode, hvariants.imp fun x y hxy => ?_, hnodup, ?_, ?_⟩
    · exact ⟨hxy.1, hxy.2 ▸ y.writes_value⟩
    · rw [ite_eq_left_iff]
      simp
    · intro repr hrepr
      obtain ⟨-, hrepr⟩ := Option.ite_none_left_eq_some.1 hrepr
      exact ⟨f, Option.some.inj hrepr, hfits.2⟩

/-! ### Least and greatest values -/

/-- An enum of unsigned integers of 64 bits with the least and the greatest of them. -/
def wideEnum : Declaration.Enum where
  name := some "Wide"
  underlying := some " word "
  elements := [
    { name := some "least", value := some (.text "-0") },
    { name := some "greatest", value := some (.text " +18446744073709551615 ") }]

/-- An enum of the default type, one of 8 bits, with a value just out of range. -/
def tightEnum : Declaration.Enum where
  name := some "Tight"
  elements := [{ name := some "x", value := some (.signed 128) }]

def boundsSources : SourceTable :=
  [("a", { name := some "A", types := [.enum wideEnum] })]

def boundsWorkspace : Workspace :=
  { primitives := [.builtin "word" .uint64, .builtin "byte" .int8], enumDefault := some 1 }

/-- One enum does not fit; the other is published and written with its two values. -/
theorem enum_values_survive_bounds :
    let loaded := (boundsWorkspace.load boundsSources.reader ["a"]).workspace
    Reached boundsWorkspace ∧ boundsWorkspace.Accepts tightEnum.name ∧
      (¬∃ id f, tightEnum.Fits boundsWorkspace id f) ∧
      (boundsWorkspace.load boundsSources.reader ["a"]).result = .ok ["a"] ∧
      ∃ s t e emitted, loaded.bySource? "a" = some s ∧ s.types[0]? = some t ∧ t.body = .enum e ∧
        e.elements.map EnumElement.value = [0, 18446744073709551615] ∧
        List.Forall₂ Declaration.Element.Gives wideEnum.elements e.elements ∧
        (RustSource.backend []).emitType ⟨loaded, s⟩ ⟨0, 0⟩ t = .ok emitted ∧
        e.WrittenAs s.name emitted.code := by
  intro loaded
  have hreached : Reached boundsWorkspace := .empty _ _ _
  have hfound : ((boundsWorkspace.load boundsSources.reader ["a"]).result,
      (loaded.bySource? "a").bind fun s => s.types[0]?.map fun t =>
        ((RustSource.typeItems ⟨loaded, s⟩ [] ⟨0, 0⟩ t).isOk, t.body)) =
      (.ok ["a"], some (true,
        .enum ⟨0, [⟨"least", 0, []⟩, ⟨"greatest", 18446744073709551615, []⟩]⟩)) := by
    unfold loaded
    cbv
  obtain ⟨hload, hstored⟩ := Prod.mk.inj hfound
  obtain ⟨haccepted, hpublished, -⟩ := enum_values_survive boundsWorkspace
  obtain ⟨-, -, hwritten⟩ := enum_values_survive loaded
  have hname : boundsWorkspace.Accepts tightEnum.name := by
    have hproper : Drafting.properName boundsWorkspace "a" .type "" tightEnum.name =
        .ok "Tight" := by cbv
    exact (Drafting.properName_eq_ok_iff.1 hproper).1
  have hnamespace : boundsWorkspace.AcceptsNamespace tightEnum.namespace := by
    left
    rw [givenName]
    cbv
  have hrefused : (Drafting.draftType boundsWorkspace "a" "" [] (.enum tightEnum)).toOption.isNone =
      true := by cbv
  have htight := haccepted "a" "" [] tightEnum hname (by simp) hnamespace
  refine ⟨hreached, hname, fun hfits => ?_, hload, ?_⟩
  · obtain ⟨t, ht⟩ := htight.2 hfits
    rw [ht] at hrefused
    contradiction
  · obtain ⟨declaration, s, hread, hs, hgives⟩ :=
      hpublished hreached boundsSources.reader ["a"] ["a"] hload "a" (by simp) (by cbv)
    have hread' : boundsSources.reader.read "a" =
        .ok { name := some "A", types := [.enum wideEnum] } := by rfl
    obtain rfl := Except.ok.inj (hread.symm.trans hread')
    obtain ⟨t, id, elements, f, ht, hbody, -, helements⟩ := hgives 0 wideEnum rfl
    rw [hs, Option.bind_some, ht, Option.map_some, hbody] at hstored
    obtain ⟨hcode, helements'⟩ := Prod.mk.inj (Option.some.inj hstored)
    obtain ⟨rfl, rfl⟩ := EnumBody.mk.inj (TypeBody.enum.inj helements')
    cases hitems : RustSource.typeItems ⟨loaded, s⟩ [] ⟨0, 0⟩ t with
    | error fault =>
        rw [hitems] at hcode
        contradiction
    | ok items =>
        have hemitted := RustSource.backend_emitType_of_ok hitems
        have hs' := (hreached.load _ _).indexed.mem_of_bySource? hs
        exact ⟨s, t, _, _, hs, ht, hbody, rfl, helements, hemitted,
          hwritten (hreached.load _ _) s hs'.1 t (List.mem_of_getElem? ht) _ hbody [] ⟨0, 0⟩ _
            hemitted⟩

end SchemaGraph
