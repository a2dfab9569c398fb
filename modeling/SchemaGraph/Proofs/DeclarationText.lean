import Mathlib
import SchemaGraph.Declaration.Encode
import SchemaGraph.Proofs.JsonText
import SchemaGraph.Proofs.Reading

/-!
Declarations and their JSON text. What is written for a declaration is read back as that
declaration, if its enum values are canonical: an integer counts as one without a sign only where it
does not fit with one. Nothing else is ever read, so the text of a declaration that was read gives
it again.
-/

namespace SchemaGraph

open Json (Document Fault Nests)

/-! ### Readers on the documents of values -/

namespace Json.Document

variable {α : Type}

/-- The fields of a record are read one after another if each of them is known and none is there
twice. -/
theorem readFields_fieldDocuments {layout : Layout} {step : String → Document → α → Except Fault α}
    {fields : List (String × Json)} {seen : List String} {a b : α}
    (hnames : ∀ f ∈ fields, f.1 ∈ layout.names) (hnodup : (fields.map Prod.fst).Nodup)
    (hfresh : ∀ f ∈ fields, f.1 ∉ seen)
    (h : fields.foldlM (fun a f => step f.1 f.2.document a) a = .ok b) :
    readFields layout step (fieldDocuments fields) seen a =
      .ok (b, (fields.map Prod.fst).reverse ++ seen) := by
  induction fields generalizing seen a with
  | nil =>
      obtain rfl := Except.ok.inj h
      rfl
  | cons f fs ih =>
      rw [List.foldlM_cons] at h
      obtain ⟨c, hc, h⟩ := bind_eq_ok.1 h
      rw [List.forall_mem_cons] at hnames hfresh
      rw [List.map_cons, List.nodup_cons] at hnodup
      have hrest : ∀ g ∈ fs, g.1 ∉ f.1 :: seen := by
        intro g hg hmem
        rcases List.mem_cons.1 hmem with heq | hmem
        · exact hnodup.1 (heq ▸ List.mem_map_of_mem hg)
        · exact hfresh.2 g hg hmem
      rw [fieldDocuments, readFields_cons_eq_ok]
      refine ⟨f.1, rfl, ?_⟩
      rw [if_pos hnames.1]
      refine ⟨hfresh.1, c, hc, ?_⟩
      rw [ih hnames.2 hnodup.2 hrest h]
      simp

/-- A record with all its fields is read field by field. -/
theorem readRecord_document {layout : Layout} {step : String → Document → α → Except Fault α}
    {fields : List (String × Json)} {init a : α} (hnames : fields.map Prod.fst = layout.names)
    (hnodup : layout.names.Nodup) (hrequired : ∀ n ∈ layout.required, n ∈ layout.names)
    (h : fields.foldlM (fun a f => step f.1 f.2.document a) init = .ok a) :
    readRecord layout step init (Json.record fields).document = .ok a := by
  have hfields : readFields layout step (fieldDocuments fields) [] init = .ok (a, _) :=
    readFields_fieldDocuments (fun f hf => hnames ▸ List.mem_map_of_mem hf) (hnames ▸ hnodup)
      (by simp) h
  have hall : layout.required.all ((fields.map Prod.fst).reverse ++ []).contains = true := by
    simpa [hnames] using hrequired
  rw [Json.document, readRecord, hfields]
  exact if_pos hall

theorem readList_document {β : Type} {read : Document → Except Fault β} {encode : β → Json}
    {bs : List β} (h : ∀ b ∈ bs, read (encode b).document = .ok b) :
    readList read (Json.list (bs.map encode)).document = .ok bs := by
  have hitems : ((bs.map encode).map Json.document).mapM read = .ok bs := by
    rw [mapM_eq_ok, List.forall₂_map_left_iff, List.forall₂_map_left_iff]
    exact List.forall₂_same.2 h
  rw [Json.document, documents_eq_map, readList, hitems]
  rfl

/-! ### Invariants of readers -/

theorem readOptional_forall {P : α → Prop} {read : Document → Except Fault α}
    (hread : ∀ d a, read d = .ok a → P a) {d : Document} {o : Option α}
    (h : readOptional read d = .ok o) : ∀ a, o = some a → P a := by
  rintro a rfl
  unfold readOptional at h
  split at h
  · simp at h
  · obtain ⟨b, hb, h⟩ := map_eq_ok.1 h
    obtain rfl := Option.some.inj h
    exact hread d b hb

theorem readList_forall {P : α → Prop} {read : Document → Except Fault α}
    (hread : ∀ d a, read d = .ok a → P a) {d : Document} {as : List α}
    (h : readList read d = .ok as) : ∀ a ∈ as, P a := by
  unfold readList at h
  split at h
  · obtain ⟨bs, hbs, h⟩ := bind_eq_ok.1 h
    obtain ⟨_, -, h⟩ := bind_eq_ok.1 h
    obtain rfl := pure_eq_ok.1 h
    intro a ha
    obtain ⟨d, -, hd⟩ := exists_of_forall₂_right (mapM_eq_ok.1 hbs) ha
    exact hread d a hd
  · contradiction

section Records

variable {P : α → Prop} {layout : Layout} {step : String → Document → α → Except Fault α}

theorem readFields_invariant (hstep : ∀ n d a b, P a → step n d a = .ok b → P b)
    {fields : List (Except Fault String × Document)} {seen : List String} {a : α}
    {r : α × List String} (ha : P a) (h : readFields layout step fields seen a = .ok r) :
    P r.1 := by
  induction fields generalizing seen a with
  | nil =>
      obtain rfl := Except.ok.inj h
      exact ha
  | cons f fs ih =>
      obtain ⟨k, -, h⟩ := readFields_cons_eq_ok.1 h
      split at h
      · obtain ⟨-, b, hb, h⟩ := h
        exact ih (hstep k _ a b ha hb) h
      · exact ih ha h

theorem readPositions_invariant (hstep : ∀ n d a b, P a → step n d a = .ok b → P b)
    {names : List String} {ds : List Document} {a b : α} (ha : P a)
    (h : readPositions step names ds a = .ok b) : P b := by
  induction names generalizing ds a with
  | nil =>
      obtain rfl := Except.ok.inj h
      exact ha
  | cons n ns ih =>
      cases ds with
      | nil =>
          obtain rfl := Except.ok.inj h
          exact ha
      | cons d ds =>
          obtain ⟨c, hc, h⟩ := bind_eq_ok.1 h
          exact ih (hstep n d a c ha hc) h

/-- What every field keeps holds of every record that is read. -/
theorem readRecord_invariant {init : α} (hinit : P init)
    (hstep : ∀ n d a b, P a → step n d a = .ok b → P b) {d : Document} {a : α}
    (h : readRecord layout step init d = .ok a) : P a := by
  unfold readRecord at h
  split at h
  · obtain ⟨r, hr, h⟩ := bind_eq_ok.1 h
    obtain ⟨_, -, h⟩ := bind_eq_ok.1 h
    split at h
    · obtain rfl := Except.ok.inj h
      exact readFields_invariant hstep hinit hr
    · contradiction
  · obtain ⟨b, hb, h⟩ := bind_eq_ok.1 h
    obtain ⟨_, -, h⟩ := bind_eq_ok.1 (check_eq_ok.1 h).2
    obtain rfl := pure_eq_ok.1 (check_eq_ok.1 h).2
    exact readPositions_invariant hstep hinit hb
  · contradiction

end Records

end Json.Document

namespace Declaration

open Json.Document

@[simp] theorem readOptional_optionalText (s : Option String) :
    readOptional readText (optionalText s).document = .ok s := by
  cases s <;> rfl

@[simp] theorem readText_text (s : String) : readText (Json.text s).document = .ok s := rfl

@[simp] theorem readList_encodeTexts (ss : List String) :
    readList readText (encodeTexts ss).document = .ok ss :=
  readList_document fun _ _ => rfl

@[simp] theorem readFlag_bool (b : Bool) : readFlag (Json.bool b).document = .ok b := rfl

@[simp] theorem readRole_name (r : PropertyRole) :
    readRole (Json.text r.name).document = .ok r := by
  cases r <;> rfl

@[simp] theorem readMetadata_encodeMetadata (m : Metadata) :
    readMetadata (encodeMetadata m).document = .ok m := by
  refine readList_document fun entry _ => ?_
  exact readRecord_document rfl (by decide) (by decide) rfl

theorem Import.read_encode (i : Import) : Import.read i.encode.document = .ok i := by
  refine readRecord_document rfl (by decide) (by decide) ?_
  simp only [List.foldlM_cons, List.foldlM_nil, readText_text, readOptional_optionalText]
  rfl

theorem Property.read_encode (p : Property) : Property.read p.encode.document = .ok p := by
  refine readRecord_document rfl (by decide) (by decide) ?_
  simp only [List.foldlM_cons, List.foldlM_nil, readOptional_optionalText, readRole_name,
    readMetadata_encodeMetadata]
  rfl

@[simp] theorem readList_encode_properties (ps : List Property) :
    readList Property.read (Json.list (ps.map Property.encode)).document = .ok ps :=
  readList_document fun p _ => p.read_encode

theorem Composite.read_fields (c : Composite) :
    Composite.read (Json.record c.fields).document = .ok c := by
  refine readRecord_document rfl (by decide) (by decide) ?_
  simp only [Composite.fields, List.foldlM_cons, List.foldlM_nil, readOptional_optionalText,
    readList_encodeTexts, readFlag_bool, readList_encode_properties, readMetadata_encodeMetadata]
  rfl

theorem Interface.read_fields (i : Interface) :
    Interface.read (Json.record i.fields).document = .ok i := by
  refine readRecord_document rfl (by decide) (by decide) ?_
  simp only [Interface.fields, List.foldlM_cons, List.foldlM_nil, readOptional_optionalText,
    readList_encodeTexts, readList_encode_properties, readMetadata_encodeMetadata]
  rfl

/-! ### Enum values -/

/-- An integer of 64 bits, and one without a sign only where it does not fit with one. -/
def EnumValue.Canonical : EnumValue → Prop
  | .signed v => Decimal.leastInt64 ≤ v ∧ v ≤ Decimal.greatestInt64
  | .unsigned v => Decimal.greatestInt64 < v ∧ v ≤ Decimal.greatestUInt64
  | .text _ => True

def Enum.Canonical (d : Declaration.Enum) : Prop :=
  ∀ e ∈ d.elements, ∀ v, e.value = some v → v.Canonical

theorem isInt64_iff {i : Int} : Decimal.isInt64 i = true ↔
    Decimal.leastInt64 ≤ i ∧ i ≤ Decimal.greatestInt64 := by
  rw [Decimal.isInt64, Bool.and_eq_true, decide_eq_true_eq, decide_eq_true_eq]

theorem EnumValue.read_encode {v : EnumValue} (h : v.Canonical) :
    EnumValue.read v.encode.document = .ok v := by
  cases v with
  | signed v => exact if_pos (isInt64_iff.2 h)
  | unsigned v =>
      obtain ⟨hlow, hhigh⟩ := h
      have hsigned : ¬Decimal.isInt64 v = true := fun hv =>
        absurd (isInt64_iff.1 hv).2 (Int.not_le.2 hlow)
      exact (if_neg hsigned).trans (if_pos ⟨Int.natCast_nonneg v, Int.ofNat_le.2 hhigh⟩)
  | text s => rfl

theorem EnumValue.readOptional_encode {v : EnumValue} (h : v.Canonical) :
    readOptional EnumValue.read v.encode.document = .ok (some v) := by
  have hread := read_encode h
  cases v with
  | signed v | unsigned v | text s => exact congrArg (some <$> ·) hread

theorem EnumValue.canonical_of_read {d : Document} {v : EnumValue} (h : EnumValue.read d = .ok v) :
    v.Canonical := by
  unfold EnumValue.read at h
  split at h
  · rename_i i
    split at h
    · rename_i hsigned
      obtain rfl := Except.ok.inj h
      exact isInt64_iff.1 hsigned
    · rename_i hsigned
      split at h
      · rename_i hrange
        obtain rfl := Except.ok.inj h
        rw [isInt64_iff] at hsigned
        have hleast : Decimal.leastInt64 ≤ 0 := by decide
        exact ⟨by omega, by omega⟩
      · contradiction
  · obtain ⟨s, -, rfl⟩ := map_eq_ok.1 h
    trivial
  · contradiction

/-! ### Types -/

theorem Element.read_encode {e : Element} (h : ∀ v, e.value = some v → v.Canonical) :
    Element.read e.encode.document = .ok e := by
  refine readRecord_document rfl (by decide) (by decide) ?_
  obtain ⟨name, value, metadata⟩ := e
  cases value with
  | none =>
      simp only [List.foldlM_cons, List.foldlM_nil, readOptional_optionalText,
        readMetadata_encodeMetadata]
      rfl
  | some v =>
      simp only [List.foldlM_cons, List.foldlM_nil, readOptional_optionalText,
        EnumValue.readOptional_encode (h v rfl), readMetadata_encodeMetadata]
      rfl

theorem Enum.read_fields {d : Declaration.Enum} (h : d.Canonical) :
    Enum.read (Json.record d.fields).document = .ok d := by
  refine readRecord_document rfl (by decide) (by decide) ?_
  have helements : readList Element.read (Json.list (d.elements.map Element.encode)).document =
      .ok d.elements := readList_document fun e he => Element.read_encode (h e he)
  simp only [Enum.fields, List.foldlM_cons, List.foldlM_nil, readOptional_optionalText, helements,
    readMetadata_encodeMetadata]
  rfl

def TypeDecl.Canonical : TypeDecl → Prop
  | .enum d => d.Canonical
  | _ => True

/-- The fields of a type beside its kind. -/
def TypeDecl.fields : TypeDecl → List (String × Json)
  | .entity d | .struct d => d.fields
  | .interface d => d.fields
  | .enum d => d.fields

theorem TypeDecl.encode_eq (t : TypeDecl) :
    t.encode = .record (("kind", .text t.kindName) :: t.fields) := by
  cases t <;> rfl

theorem exists_readerOfKind {t : TypeDecl} (h : t.Canonical) : ∃ read,
    readerOfKind? t.kindName = some read ∧ read (Json.record t.fields).document = .ok t := by
  cases t with
  | entity d => exact ⟨_, rfl, congrArg (TypeDecl.entity <$> ·) d.read_fields⟩
  | struct d => exact ⟨_, rfl, congrArg (TypeDecl.struct <$> ·) d.read_fields⟩
  | interface d => exact ⟨_, rfl, congrArg (TypeDecl.interface <$> ·) d.read_fields⟩
  | enum d => exact ⟨_, rfl, congrArg (TypeDecl.enum <$> ·) (Enum.read_fields h)⟩

/-! ### Nesting -/

theorem nests_optionalText {n : Nat} (s : Option String) : Nests n (optionalText s) := by
  cases s with
  | none => exact .null
  | some s => exact .text s

theorem nests_encodeTexts {n : Nat} (ss : List String) : Nests (n + 1) (encodeTexts ss) :=
  .list (List.forall_mem_map.2 fun s _ => .text s)

theorem nests_encodeMetadata {n : Nat} (m : Metadata) : Nests (n + 2) (encodeMetadata m) := by
  refine .list (List.forall_mem_map.2 fun entry _ => .record ?_)
  simp only [List.forall_mem_cons]
  exact ⟨.text _, .text _, nofun⟩

theorem Import.nests_encode {n : Nat} (i : Import) : Nests (n + 1) i.encode := by
  refine .record ?_
  simp only [List.forall_mem_cons]
  exact ⟨.text _, nests_optionalText _, nofun⟩

theorem nests_encode_properties {n : Nat} (ps : List Property) :
    Nests (n + 4) (.list (ps.map Property.encode)) := by
  refine .list (List.forall_mem_map.2 fun p _ => .record ?_)
  simp only [List.forall_mem_cons]
  exact ⟨nests_optionalText _, nests_optionalText _, .text _, nests_optionalText _,
    nests_optionalText _, nests_optionalText _, nests_encodeMetadata _, nofun⟩

theorem EnumValue.nests_encode {n : Nat} {v : EnumValue} (h : v.Canonical) : Nests n v.encode := by
  cases v with
  | signed v =>
      have hwide : Decimal.greatestInt64 ≤ Decimal.greatestUInt64 := by decide
      exact .int h.1 (Int.le_trans h.2 hwide)
  | unsigned v =>
      have hleast : Decimal.leastInt64 ≤ 0 := by decide
      exact .int (Int.le_trans hleast (Int.natCast_nonneg v)) (Int.ofNat_le.2 h.2)
  | text s => exact .text s

theorem Element.nests_encode {n : Nat} {e : Element} (h : ∀ v, e.value = some v → v.Canonical) :
    Nests (n + 3) e.encode := by
  obtain ⟨name, value, metadata⟩ := e
  refine .record ?_
  simp only [List.forall_mem_cons]
  refine ⟨nests_optionalText _, ?_, nests_encodeMetadata _, nofun⟩
  cases value with
  | none => exact .null
  | some v => exact EnumValue.nests_encode (h v rfl)

theorem TypeDecl.nests_fields {n : Nat} {t : TypeDecl} (h : t.Canonical) :
    ∀ f ∈ t.fields, Nests (n + 4) f.2 := by
  cases t with
  | entity d | struct d =>
      simp only [TypeDecl.fields, Composite.fields, List.forall_mem_cons]
      exact ⟨nests_optionalText _, nests_optionalText _, nests_optionalText _, nests_encodeTexts _,
        .bool _, nests_encode_properties _, nests_encodeMetadata _, nofun⟩
  | interface d =>
      simp only [TypeDecl.fields, Interface.fields, List.forall_mem_cons]
      exact ⟨nests_optionalText _, nests_optionalText _, nests_encodeTexts _,
        nests_encode_properties _, nests_encodeMetadata _, nofun⟩
  | enum d =>
      have helements : Nests (n + 4) (.list (d.elements.map Element.encode)) :=
        .list (List.forall_mem_map.2 fun e he => Element.nests_encode (h e he))
      simp only [TypeDecl.fields, Enum.fields, List.forall_mem_cons]
      exact ⟨nests_optionalText _, nests_optionalText _, nests_optionalText _, helements,
        nests_encodeMetadata _, nofun⟩

def Canonical (d : Declaration) : Prop :=
  ∀ t ∈ d.types, t.Canonical

theorem nests_encode {d : Declaration} (h : d.Canonical) : Nests 7 d.encode := by
  have htypes : Nests 6 (.list (d.types.map TypeDecl.encode)) := by
    refine .list (List.forall_mem_map.2 fun t ht => ?_)
    rw [TypeDecl.encode_eq]
    exact .record (List.forall_mem_cons.2 ⟨.text _, TypeDecl.nests_fields (n := 0) (h t ht)⟩)
  refine .record ?_
  simp only [List.forall_mem_cons]
  exact ⟨nests_optionalText _, nests_optionalText _,
    .list (List.forall_mem_map.2 fun i _ => i.nests_encode), nests_encodeMetadata _, htypes, nofun⟩

/-! ### Sources -/

theorem TypeDecl.ne_kind_of_mem_fields (t : TypeDecl) : ∀ f ∈ t.fields, f.1 ≠ "kind" := by
  cases t <;> simp [TypeDecl.fields, Composite.fields, Interface.fields, Enum.fields]

/-- Members other than the kind are only looked at as values. -/
theorem readMembers_fieldDocuments {fields : List (String × Json)}
    {read : Option (Document → Except Fault TypeDecl)} (hkind : ∀ f ∈ fields, f.1 ≠ "kind")
    (h : ∀ f ∈ fields, Nests 4 f.2) :
    readMembers (Json.fieldDocuments fields) read = .ok read := by
  induction fields with
  | nil => rfl
  | cons f fs ih =>
      rw [List.forall_mem_cons] at hkind h
      have hvalue : f.2.document.value partDepth = .ok f.2 := h.1.value_document (by decide)
      rw [Json.fieldDocuments, readMembers]
      refine bind_eq_ok.2 ⟨f.1, rfl, ?_⟩
      rw [if_neg hkind.1]
      exact bind_eq_ok.2 ⟨_, hvalue, ih hkind.2 h.2⟩

theorem filter_fieldDocuments {fields : List (String × Json)} (hkind : ∀ f ∈ fields, f.1 ≠ "kind") :
    (Json.fieldDocuments fields).filter (fun f => !isKind f) = Json.fieldDocuments fields := by
  rw [Json.fieldDocuments_eq_map, List.filter_eq_self, List.forall_mem_map]
  intro f hf
  simpa [isKind] using hkind f hf

theorem TypeDecl.read_encode {t : TypeDecl} (h : t.Canonical) :
    TypeDecl.read t.encode.document = .ok t := by
  obtain ⟨read, hkind, hread⟩ := exists_readerOfKind h
  have hreadKind : readKind (.text (.ok t.kindName)) = .ok read := by
    refine bind_eq_ok.2 ⟨_, rfl, ?_⟩
    rw [hkind]
    rfl
  have hmembers : readMembers (Json.fieldDocuments (("kind", .text t.kindName) :: t.fields)) none =
      .ok (some read) := by
    rw [Json.fieldDocuments, readMembers]
    refine bind_eq_ok.2 ⟨_, rfl, bind_eq_ok.2 ⟨read, hreadKind, ?_⟩⟩
    exact readMembers_fieldDocuments t.ne_kind_of_mem_fields (TypeDecl.nests_fields (n := 0) h)
  rw [TypeDecl.encode_eq, Json.document, TypeDecl.read]
  refine bind_eq_ok.2 ⟨_, hmembers, bind_eq_ok.2 ⟨(), rfl, ?_⟩⟩
  rw [Json.fieldDocuments, List.filter_cons_of_neg (by simp [isKind]),
    filter_fieldDocuments t.ne_kind_of_mem_fields]
  exact mapError_eq_ok.2 hread

theorem read_encode {d : Declaration} (h : d.Canonical) : read d.encode.document = .ok d := by
  refine readRecord_document rfl (by decide) (by decide) ?_
  have himports : readList Import.read (Json.list (d.imports.map Import.encode)).document =
      .ok d.imports := readList_document fun i _ => i.read_encode
  have htypes : readList TypeDecl.read (Json.list (d.types.map TypeDecl.encode)).document =
      .ok d.types := readList_document fun t ht => TypeDecl.read_encode (h t ht)
  simp only [List.foldlM_cons, List.foldlM_nil, readOptional_optionalText, himports,
    readMetadata_encodeMetadata, htypes]
  rfl

/-! ### Declarations that are read -/

theorem Element.canonical_of_read {d : Document} {e : Element} (h : Element.read d = .ok e) :
    ∀ v, e.value = some v → v.Canonical := by
  refine readRecord_invariant (P := fun e => ∀ v, Element.value e = some v → v.Canonical)
    (fun v hv => by contradiction) ?_ h
  intro name d e e' he hstep
  split at hstep
  all_goals
    obtain ⟨_, hread, hstep⟩ := bind_eq_ok.1 hstep
    obtain rfl := pure_eq_ok.1 hstep
  · exact he
  · exact readOptional_forall (fun _ _ => EnumValue.canonical_of_read) hread
  · exact he

theorem Enum.canonical_of_read {d : Document} {e : Declaration.Enum} (h : Enum.read d = .ok e) :
    e.Canonical := by
  refine readRecord_invariant (P := Enum.Canonical) (fun e he => by contradiction) ?_ h
  intro name d e e' he hstep
  split at hstep
  all_goals
    obtain ⟨_, hread, hstep⟩ := bind_eq_ok.1 hstep
    obtain rfl := pure_eq_ok.1 hstep
  · exact he
  · exact he
  · exact he
  · exact readList_forall (fun _ _ => Element.canonical_of_read) hread
  · exact he

theorem canonical_of_readerOfKind {kind : String} {read : Document → Except Fault TypeDecl}
    (hread : readerOfKind? kind = some read) {d : Document} {t : TypeDecl} (h : read d = .ok t) :
    t.Canonical := by
  unfold readerOfKind? at hread
  split at hread
  case h_5 => contradiction
  all_goals
    obtain rfl := Option.some.inj hread
    obtain ⟨d, hd, rfl⟩ := map_eq_ok.1 h
  · trivial
  · trivial
  · trivial
  · exact Enum.canonical_of_read hd

theorem readKind_eq_ok {d : Document} {read : Document → Except Fault TypeDecl} :
    readKind d = .ok read ↔ ∃ kind, readText d = .ok kind ∧ readerOfKind? kind = some read := by
  rw [readKind, bind_eq_ok]
  refine exists_congr fun kind => and_congr_right fun _ => ?_
  split
  · rename_i found hfound
    rw [pure_eq_ok, hfound, Option.some_inj]
  · rename_i hnone
    simp [hnone]

/-- The reader that the members of a type choose is that of some kind. -/
theorem exists_kind_of_readMembers {members : List (Except Fault String × Document)}
    {read read' : Option (Document → Except Fault TypeDecl)}
    (hread : ∀ r, read = some r → ∃ kind, readerOfKind? kind = some r)
    (h : readMembers members read = .ok read') :
    ∀ r, read' = some r → ∃ kind, readerOfKind? kind = some r := by
  induction members generalizing read with
  | nil =>
      obtain rfl := Except.ok.inj h
      exact hread
  | cons m ms ih =>
      obtain ⟨key, -, h⟩ := bind_eq_ok.1 h
      split at h
      · obtain ⟨r, hr, h⟩ := bind_eq_ok.1 (check_eq_ok.1 h).2
        refine ih (fun r' hr' => ?_) h
        obtain rfl := Option.some.inj hr'
        obtain ⟨kind, -, hkind⟩ := readKind_eq_ok.1 hr
        exact ⟨kind, hkind⟩
      · obtain ⟨_, -, h⟩ := bind_eq_ok.1 h
        exact ih hread h

theorem TypeDecl.canonical_of_read {d : Document} {t : TypeDecl} (h : TypeDecl.read d = .ok t) :
    t.Canonical := by
  unfold TypeDecl.read at h
  split at h
  · obtain ⟨choice, hmembers, h⟩ := bind_eq_ok.1 h
    obtain ⟨_, -, h⟩ := bind_eq_ok.1 h
    cases choice with
    | none => contradiction
    | some read =>
        obtain ⟨kind, hkind⟩ := exists_kind_of_readMembers (by simp) hmembers read rfl
        exact canonical_of_readerOfKind hkind (mapError_eq_ok.1 h)
  · split at h
    · obtain ⟨_, -, h⟩ := bind_eq_ok.1 h
      contradiction
    · obtain ⟨read, hread, h⟩ := bind_eq_ok.1 h
      obtain ⟨_, -, h⟩ := bind_eq_ok.1 h
      obtain ⟨_, -, h⟩ := bind_eq_ok.1 h
      obtain ⟨kind, -, hkind⟩ := readKind_eq_ok.1 hread
      exact canonical_of_readerOfKind hkind (mapError_eq_ok.1 h)
  · contradiction

theorem canonical_of_read {d : Document} {declaration : Declaration}
    (h : read d = .ok declaration) : declaration.Canonical := by
  refine readRecord_invariant (P := Canonical) (fun t ht => by contradiction) ?_ h
  intro name d s s' hs hstep
  split at hstep
  all_goals
    obtain ⟨_, hread, hstep⟩ := bind_eq_ok.1 hstep
    obtain rfl := pure_eq_ok.1 hstep
  · exact hs
  · exact hs
  · exact hs
  · exact hs
  · exact readList_forall (fun _ _ => TypeDecl.canonical_of_read) hread

/-! ### Texts -/

theorem ofText_render {d : Declaration} (h : d.Canonical) : ofText d.encode.render = .ok d := by
  refine Json.decode_eq_ok.2 ?_
  rw [Json.readDocument_render (nests_encode h)]
  exact ⟨read_encode h, rfl⟩

/-- The text of a declaration is read as that declaration if and only if its enum values are
canonical, and whatever is read from a text is read again from its own text. -/
theorem ofText_render_iff :
    (∀ d : Declaration, ofText d.encode.render = .ok d ↔ d.Canonical) ∧
    ∀ text d, ofText text = .ok d → ofText d.encode.render = .ok d := by
  have hcanonical : ∀ text d, ofText text = .ok d → d.Canonical := fun text d h =>
    canonical_of_read (Json.decode_eq_ok.1 h).1
  refine ⟨fun d => ⟨hcanonical _ d, ofText_render⟩, fun text d h => ?_⟩
  exact ofText_render (hcanonical text d h)

/-- A source with a type of every kind, characters that are escaped, and the extreme integers. -/
def ledger : Declaration where
  name := some "The \"Ledger\"\n"
  imports := [{ source := "a\\b" }, { source := "", localName := some "B" }]
  metadata := [("note", "\x01\x1f\x7f")]
  types := [
    .entity
      { name := some "Account", base := some "B.Base", isAbstract := true
        properties := [{ name := some "id", typeText := some "int32", role := .primaryKey }] },
    .struct { name := some "Entry", interfaces := ["Noted", "B.Dated"] },
    .interface { «namespace» := some "", parents := ["B.Dated"], metadata := [("k", "")] },
    .enum
      { underlying := some "uint64"
        elements := [
          { name := some "Last", value := some (.unsigned 18446744073709551615) },
          { name := some "First", value := some (.signed (-9223372036854775808)) },
          { value := some (.text "007") }, {}] }]

/-- A source whose parts are all written as lists. -/
def listText : String :=
  "[\"L\", null, [], [[\"k\"]], [[\"enum\", \"E\", null, null, [[\"Top\", 9223372036854775808]]]]]"

theorem ofText_render_ledger :
    ledger.Canonical ∧ ofText ledger.encode.render = .ok ledger ∧
      ∃ d, ofText listText = .ok d ∧ ofText d.encode.render = .ok d := by
  have hcanonical : ledger.Canonical := by
    simp [ledger, Canonical, TypeDecl.Canonical, Enum.Canonical, EnumValue.Canonical,
      Decimal.leastInt64, Decimal.greatestInt64, Decimal.greatestUInt64]
  have htext : ofText listText = .ok
      { name := some "L", metadata := [("k", "")]
        types := [.enum { name := some "E", elements := [
          { name := some "Top", value := some (.unsigned 9223372036854775808) }] }] } := by
    cbv
  exact ⟨hcanonical, (ofText_render_iff.1 ledger).2 hcanonical, _, htext,
    ofText_render_iff.2 listText _ htext⟩

end Declaration

end SchemaGraph
