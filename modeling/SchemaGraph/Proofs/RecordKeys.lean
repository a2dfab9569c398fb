import Mathlib.Data.List.Permutation
import SchemaGraph.Key
import SchemaGraph.Proofs.Success

/-!
Keys of records and keys composed from values. The values that a record gives can be composed to the
same key, and a record that has the JSON forms of composed values gives their key back, whatever else
it has and in whatever order. A record gives no key only if some component is without a value there
that it takes, and the error is about the first such component of the layout.
-/

namespace SchemaGraph

/-! ### Kinds -/

namespace PrimitiveKind

/-- Numbers and what is none: the kinds are told apart by what their values are. -/
theorem classes (k : PrimitiveKind) :
    k.isInteger = true ∨ k.isFloating = true ∨ k = .bool ∨ k = .string ∨ k = .custom := by
  cases k <;> simp [isInteger, isFloating, range?]

theorem range?_of_isFloating (k : PrimitiveKind) (hk : k.isFloating = true) : k.range? = none := by
  cases k <;> simp [isFloating] at hk <;> rfl

end PrimitiveKind

/-! ### Values in JSON -/

/-- The JSON values of a kind. The representation of custom scalars is opaque, so all will do. -/
inductive Json.OfKind : PrimitiveKind → Json → Prop
  | integer {k : PrimitiveKind} (hk : k.isInteger = true) (i : Int) : OfKind k (.number (.int i))
  | number {k : PrimitiveKind} (hk : k.isFloating = true) (n : Json.Number) : OfKind k (.number n)
  | bool (b : Bool) : OfKind .bool (.bool b)
  | string (s : String) : OfKind .string (.text s)
  | custom (j : Json) : OfKind .custom j

/-- An integer for an integer kind is within the range of the kind. -/
def Json.InRange (k : PrimitiveKind) (j : Json) : Prop :=
  ∀ i low high, j = .number (.int i) → k.range? = some (low, high) → low ≤ i ∧ i ≤ high

/-- What a key keeps of a JSON value for a custom scalar: its text, without quotes if it is one. -/
def Json.plainText : Json → String
  | .text s => s
  | j => j.sorted.render

namespace KeyValue

/-- The JSON form of a value. JSON has no number for an infinity, or for what is no number. -/
def toJson : KeyValue → Json
  | integer i => .number (.int i)
  | float x => if x.isFinite then .number (.float x) else .null
  | bool b => .bool b
  | string s => .text s
  | custom s => .text s

/-- The value that a JSON value of a kind is read as. -/
inductive ReadFrom : PrimitiveKind → Json → KeyValue → Prop
  | integer {k : PrimitiveKind} (hk : k.isInteger = true) (i : Int) :
      ReadFrom k (.number (.int i)) (.integer i)
  | number {k : PrimitiveKind} (hk : k.isFloating = true) (n : Json.Number) :
      ReadFrom k (.number n) (.float n.toBinary64)
  | bool (b : Bool) : ReadFrom .bool (.bool b) (.bool b)
  | string (s : String) : ReadFrom .string (.text s) (.string s)
  | custom (j : Json) : ReadFrom .custom j (.custom j.plainText)

variable {k : PrimitiveKind} {j : Json} {v : KeyValue}

theorem valueOf?_of_isFloating (hk : k.isFloating = true) :
    KeyComponent.valueOf? k j =
      match j with
      | .number n => some (.float n.toBinary64)
      | _ => none := by
  have hinteger : ¬k.isInteger = true := by simp [PrimitiveKind.isInteger, k.range?_of_isFloating hk]
  rw [KeyComponent.valueOf?.eq_def, if_neg hinteger]
  refine (if_pos hk).trans ?_
  cases j <;> rfl

theorem valueOf?_eq_some_iff : KeyComponent.valueOf? k j = some v ↔ ReadFrom k j v := by
  constructor
  · intro h
    rcases k.classes with hk | hk | rfl | rfl | rfl
    · rw [KeyComponent.valueOf?.eq_def, if_pos hk] at h
      rcases j with _ | _ | (i | _) | _ | _ | _ <;> simp only [Option.some.injEq, reduceCtorEq] at h
      exact h ▸ .integer hk i
    · rw [valueOf?_of_isFloating hk] at h
      cases j with
      | number n => exact Option.some.inj h ▸ .number hk n
      | _ => contradiction
    · cases j with
      | bool b => exact Option.some.inj h ▸ .bool b
      | _ => contradiction
    · cases j with
      | text s => exact Option.some.inj h ▸ .string s
      | _ => contradiction
    · have hv : KeyComponent.valueOf? .custom j = some (.custom j.plainText) := by cases j <;> rfl
      exact Option.some.inj (hv.symm.trans h) ▸ .custom j
  · intro h
    cases h with
    | integer hk i => rw [KeyComponent.valueOf?.eq_def, if_pos hk]
    | number hk n => rw [valueOf?_of_isFloating hk]
    | bool b | string s => rfl
    | custom => cases j <;> rfl

theorem exists_readFrom_iff : (∃ v, ReadFrom k j v) ↔ j.OfKind k := by
  constructor
  · rintro ⟨v, hv⟩
    cases hv with
    | integer hk i => exact .integer hk i
    | number hk n => exact .number hk n
    | bool b => exact .bool b
    | string s => exact .string s
    | custom => exact .custom j
  · intro h
    cases h with
    | integer hk i => exact ⟨_, .integer hk i⟩
    | number hk n => exact ⟨_, .number hk n⟩
    | bool b => exact ⟨_, .bool b⟩
    | string s => exact ⟨_, .string s⟩
    | custom => exact ⟨_, .custom j⟩

theorem ReadFrom.fits_iff (h : ReadFrom k j v) : v.fits k = true ↔ j.InRange k := by
  cases h with
  | integer hk i =>
      obtain ⟨⟨low, high⟩, hrange⟩ := Option.isSome_iff_exists.1 hk
      simp [fits, hrange, Json.InRange]
  | number hk n =>
      simp [fits, hk, Json.InRange, k.range?_of_isFloating hk]
  | bool b | string s | custom => simp [fits, Json.InRange, PrimitiveKind.range?]

/-- Only integers can be out of range. -/
theorem ReadFrom.integer_of_not_inRange (h : ReadFrom k j v) (hrange : ¬j.InRange k) :
    k.isInteger = true ∧ ∃ i, j = .number (.int i) ∧ v = .integer i := by
  cases h with
  | integer hk i => exact ⟨hk, i, rfl, rfl⟩
  | number hk n => exact absurd (fun i low high _ hk' => by
      rw [k.range?_of_isFloating hk] at hk'
      contradiction) hrange
  | bool b | string s | custom => exact absurd (fun i low high _ hk => by contradiction) hrange

/-- What fits a component is read back from its JSON form. -/
theorem readFrom_toJson (hfits : v.fits k = true)
    (hfinite : ∀ x, v = .float x → x.isFinite = true) : ReadFrom k v.toJson v := by
  cases v with
  | integer i =>
      have hk : k.isInteger = true := by
        cases hrange : k.range? with
        | none => simp [fits, hrange] at hfits
        | some r => simp [PrimitiveKind.isInteger, hrange]
      exact .integer hk i
  | float x =>
      rw [toJson, if_pos (hfinite x rfl)]
      exact .number hfits (.float x)
  | bool b =>
      obtain rfl := of_decide_eq_true hfits
      exact .bool b
  | string s =>
      obtain rfl := of_decide_eq_true hfits
      exact .string s
  | custom s =>
      obtain rfl := of_decide_eq_true hfits
      exact .custom (.text s)

end KeyValue

/-! ### Components -/

namespace KeyComponent

variable {c : KeyComponent} {record j : Json} {v : KeyValue} {e : KeyError}

theorem check_eq_ok : c.check v = .ok () ↔ v.fits c.kind = true := by
  rw [check]
  split <;> simp_all

theorem read_eq_ok : c.read j = .ok v ↔ KeyValue.ReadFrom c.kind j v ∧ j.InRange c.kind := by
  rw [read]
  constructor
  · intro h
    split at h
    · contradiction
    · rename_i u hu
      obtain ⟨_, hcheck, h⟩ := bind_eq_ok.1 h
      obtain rfl := pure_eq_ok.1 h
      have hread := KeyValue.valueOf?_eq_some_iff.1 hu
      exact ⟨hread, hread.fits_iff.1 (check_eq_ok.1 hcheck)⟩
  · rintro ⟨hread, hrange⟩
    rw [KeyValue.valueOf?_eq_some_iff.2 hread]
    exact bind_eq_ok.2 ⟨(), check_eq_ok.2 (hread.fits_iff.2 hrange), rfl⟩

/-- The record has a value for the component: one of its kind, and within its range. -/
def SuppliedBy (c : KeyComponent) (record : Json) : Prop :=
  ∃ j, record.field? c.name = some j ∧ j.OfKind c.kind ∧ j.InRange c.kind

/-- What is wrong with a component that the record does not supply. The error has its name, and
shows the value that is not of the kind, or the integer that is out of range. -/
inductive Faults (c : KeyComponent) (record : Json) : KeyError → Prop
  | missing (h : record.field? c.name = none) : Faults c record (.missingField c.name)
  | otherKind {j : Json} (h : record.field? c.name = some j) (hkind : ¬j.OfKind c.kind) :
      Faults c record (.typeMismatch c.name c.kind j.sorted.render)
  | outOfRange {i : Int} (h : record.field? c.name = some (.number (.int i)))
      (hkind : c.kind.isInteger = true) (hrange : ¬(Json.number (.int i)).InRange c.kind) :
      Faults c record (.typeMismatch c.name c.kind ("integer " ++ toString i))

/-- The value of the component in a record. -/
def valueIn (c : KeyComponent) (record : Json) : Except KeyError KeyValue :=
  match record.field? c.name with
  | none => .error (.missingField c.name)
  | some j => c.read j

theorem valueIn_eq_ok : c.valueIn record = .ok v ↔
    ∃ j, record.field? c.name = some j ∧ KeyValue.ReadFrom c.kind j v ∧ j.InRange c.kind := by
  rw [valueIn]
  split
  · rename_i hnone
    simp [hnone]
  · rename_i j hj
    simp [hj, read_eq_ok]

theorem exists_valueIn_iff : (∃ v, c.valueIn record = .ok v) ↔ c.SuppliedBy record := by
  simp only [valueIn_eq_ok, SuppliedBy, ← KeyValue.exists_readFrom_iff]
  constructor
  · rintro ⟨v, j, hj, hread, hrange⟩
    exact ⟨j, hj, ⟨v, hread⟩, hrange⟩
  · rintro ⟨j, hj, ⟨v, hread⟩, hrange⟩
    exact ⟨v, j, hj, hread, hrange⟩

theorem faults_of_valueIn (h : c.valueIn record = .error e) : c.Faults record e := by
  rw [valueIn] at h
  split at h
  · rename_i hnone
    obtain rfl := Except.error.inj h
    exact .missing hnone
  · rename_i j hj
    rw [read] at h
    split at h
    · rename_i hnone
      obtain rfl := Except.error.inj h
      refine .otherKind hj fun hkind => ?_
      obtain ⟨v, hv⟩ := KeyValue.exists_readFrom_iff.2 hkind
      rw [KeyValue.valueOf?_eq_some_iff.2 hv] at hnone
      contradiction
    · rename_i v hv
      -- a value of the kind was read, so it was the range that it failed
      have hread := KeyValue.valueOf?_eq_some_iff.1 hv
      have hcheck : c.check v = .error e := by
        rcases bind_eq_error.1 h with hcheck | ⟨_, -, hpure⟩
        · exact hcheck
        · contradiction
      rw [check] at hcheck
      split at hcheck
      · contradiction
      · rename_i hfits
        obtain rfl := Except.error.inj hcheck
        have hrange : ¬j.InRange c.kind := fun hrange => hfits (hread.fits_iff.2 hrange)
        obtain ⟨hk, i, rfl, rfl⟩ := hread.integer_of_not_inRange hrange
        exact .outOfRange hj hk hrange

end KeyComponent

/-! ### Layouts -/

namespace KeyLayout

variable {l : KeyLayout} {record : Json} {values : List KeyValue} {key : Key}

theorem keyOf_eq_ok : l.keyOf record = .ok key ↔ key.entity = l.entity ∧
    List.Forall₂ (fun c v => c.valueIn record = .ok v) l.components key.values := by
  obtain ⟨entity, values⟩ := key
  constructor
  · intro h
    obtain ⟨vs, hvs, h⟩ := bind_eq_ok.1 h
    cases pure_eq_ok.1 h
    exact ⟨rfl, mapM_eq_ok.1 hvs⟩
  · rintro ⟨rfl, hvs⟩
    exact bind_eq_ok.2 ⟨values, mapM_eq_ok.2 hvs, rfl⟩

theorem compose_eq_ok : l.compose values = .ok key ↔ key = ⟨l.entity, values⟩ ∧
    List.Forall₂ (fun c v => v.fits c.kind = true) l.components values := by
  have hchecks : (l.components.zip values).forM (fun cv => cv.1.check cv.2) = .ok () ↔
      ∀ cv ∈ l.components.zip values, cv.2.fits cv.1.kind = true := by
    simp only [forM_eq_ok, KeyComponent.check_eq_ok]
  rw [compose, List.forall₂_iff_zip]
  constructor
  · intro h
    obtain ⟨hlength, h⟩ := check_eq_ok.1 h
    obtain ⟨_, hall, h⟩ := bind_eq_ok.1 h
    obtain rfl := pure_eq_ok.1 h
    refine ⟨rfl, (not_not.1 hlength).symm, fun {c v} hcv => hchecks.1 hall (c, v) hcv⟩
  · rintro ⟨rfl, hlength, hall⟩
    refine check_eq_ok.2 ⟨not_not.2 hlength.symm, bind_eq_ok.2 ⟨(), hchecks.2 ?_, rfl⟩⟩
    exact fun cv hcv => hall hcv

/-- The fields that have the JSON forms of values for the components. -/
def fieldsOf (l : KeyLayout) (values : List KeyValue) : List (String × Json) :=
  (l.components.zip values).map fun cv => (cv.1.name, cv.2.toJson)

end KeyLayout

/-- A field that is there under a name that no other field has is found. -/
theorem Json.field?_of_mem {fields : List (String × Json)} {name : String} {j : Json}
    (hmem : (name, j) ∈ fields) (hunique : ∀ j', (name, j') ∈ fields → j' = j) :
    (Json.record fields).field? name = some j := by
  obtain ⟨⟨name', j'⟩, hfound⟩ : ∃ f, fields.reverse.find? (fun f => f.1 = name) = some f :=
    Option.isSome_iff_exists.1 (List.find?_isSome.2 ⟨_, List.mem_reverse.2 hmem, by simp⟩)
  have hname : name' = name := by simpa using List.find?_some hfound
  subst hname
  rw [Json.field?, hfound, hunique j' (List.mem_reverse.1 (List.mem_of_find?_eq_some hfound))]
  rfl

namespace KeyLayout

variable {l : KeyLayout} {record : Json} {values : List KeyValue} {key : Key} {e : KeyError}

/-- A component is found in every record that has its value in JSON among other fields. -/
theorem field?_of_perm (hnames : (l.components.map KeyComponent.name).Nodup)
    (hlength : l.components.length = values.length) {others fields : List (String × Json)}
    (hothers : ∀ c ∈ l.components, c.name ∉ others.map Prod.fst)
    (hfields : fields.Perm (l.fieldsOf values ++ others)) {c : KeyComponent} {v : KeyValue}
    (hcv : (c, v) ∈ l.components.zip values) :
    (Json.record fields).field? c.name = some v.toJson := by
  have hmem : ∀ f, f ∈ fields ↔ f ∈ l.fieldsOf values ∨ f ∈ others := fun f => by
    rw [hfields.mem_iff, List.mem_append]
  have hnodup : ((l.components.zip values).map fun cv => cv.1.name).Nodup := by
    rw [← List.map_fst_zip (Nat.le_of_eq hlength), List.map_map] at hnames
    exact hnames
  refine Json.field?_of_mem ((hmem _).2 (.inl (List.mem_map.2 ⟨_, hcv, rfl⟩))) fun j hj => ?_
  rcases (hmem _).1 hj with hj | hj
  · obtain ⟨⟨c', v'⟩, hcv', heq⟩ := List.mem_map.1 hj
    obtain ⟨hname, rfl⟩ := Prod.mk.inj heq
    cases List.inj_on_of_nodup_map hnodup hcv' hcv hname
    rfl
  · exact absurd (List.mem_map.2 ⟨_, hj, rfl⟩) (hothers c (List.of_mem_zip hcv).1)

/-- Composition takes the values that are read from a record. -/
theorem compose_of_keyOf (h : l.keyOf record = .ok key) : l.compose key.values = .ok key := by
  obtain ⟨hentity, hvalues⟩ := keyOf_eq_ok.1 h
  refine compose_eq_ok.2 ⟨?_, hvalues.imp fun c v hv => ?_⟩
  · rw [← hentity]
  · obtain ⟨j, -, hread, hrange⟩ := KeyComponent.valueIn_eq_ok.1 hv
    exact hread.fits_iff.2 hrange

theorem keyOf_of_compose (hnames : (l.components.map KeyComponent.name).Nodup)
    (h : l.compose values = .ok key) (hfinite : ∀ x, .float x ∈ values → x.isFinite = true)
    {others fields : List (String × Json)}
    (hothers : ∀ c ∈ l.components, c.name ∉ others.map Prod.fst)
    (hfields : fields.Perm (l.fieldsOf values ++ others)) :
    l.keyOf (.record fields) = .ok key := by
  obtain ⟨rfl, hfits⟩ := compose_eq_ok.1 h
  obtain ⟨hlength, hfits⟩ := List.forall₂_iff_zip.1 hfits
  refine keyOf_eq_ok.2 ⟨rfl, List.forall₂_iff_zip.2 ⟨hlength, fun {c v} hcv => ?_⟩⟩
  have hread := KeyValue.readFrom_toJson (hfits hcv) fun x hx =>
    hfinite x (hx ▸ (List.of_mem_zip hcv).2)
  refine KeyComponent.valueIn_eq_ok.2 ⟨_, field?_of_perm hnames hlength hothers hfields hcv, hread, ?_⟩
  exact hread.fits_iff.1 (hfits hcv)

theorem exists_keyOf_iff : (∃ key, l.keyOf record = .ok key) ↔
    ∀ c ∈ l.components, c.SuppliedBy record := by
  simp only [← KeyComponent.exists_valueIn_iff, ← exists_forall₂_iff]
  constructor
  · rintro ⟨key, h⟩
    exact ⟨key.values, (keyOf_eq_ok.1 h).2⟩
  · rintro ⟨values, hvalues⟩
    exact ⟨⟨l.entity, values⟩, keyOf_eq_ok.2 ⟨rfl, hvalues⟩⟩

/-- The error is about the first component that the record does not supply. -/
theorem faults_of_keyOf (h : l.keyOf record = .error e) :
    ∃ (before : List KeyComponent) (c : KeyComponent) (after : List KeyComponent),
      l.components = before ++ c :: after ∧
      (∀ b ∈ before, b.SuppliedBy record) ∧ ¬c.SuppliedBy record ∧ c.Faults record e := by
  have hmapM : l.components.mapM (fun c => c.valueIn record) = .error e := by
    rcases bind_eq_error.1 h with hvalues | ⟨_, -, hpure⟩
    · exact hvalues
    · contradiction
  obtain ⟨before, c, after, heq, hbefore, hc⟩ := mapM_eq_error hmapM
  refine ⟨before, c, after, heq, fun b hb => KeyComponent.exists_valueIn_iff.1 (hbefore b hb), ?_,
    KeyComponent.faults_of_valueIn hc⟩
  rw [← KeyComponent.exists_valueIn_iff, hc]
  simp

end KeyLayout

/-- A key that a record gives is what its values compose to. A key composed of values, whose floating
point numbers are finite, is that of every record with the JSON forms of the values under the names
of the components, whatever other fields there are and in whatever order. A record gives no key if
and only if some component has no value there, or one of another kind or out of its range; then the
error names the first of these in the order of the layout. -/
theorem keys_of_records_composed (l : KeyLayout)
    (hnames : (l.components.map KeyComponent.name).Nodup) :
    (∀ record key, l.keyOf record = .ok key → l.compose key.values = .ok key) ∧
    (∀ values key, l.compose values = .ok key → (∀ x, .float x ∈ values → x.isFinite = true) →
      ∀ others fields : List (String × Json),
        (∀ c ∈ l.components, c.name ∉ others.map Prod.fst) →
        fields.Perm (l.fieldsOf values ++ others) → l.keyOf (.record fields) = .ok key) ∧
    ∀ record, ((∃ e, l.keyOf record = .error e) ↔ ∃ c ∈ l.components, ¬c.SuppliedBy record) ∧
      ∀ e, l.keyOf record = .error e → ∃ before c after, l.components = before ++ c :: after ∧
        (∀ b ∈ before, b.SuppliedBy record) ∧ ¬c.SuppliedBy record ∧ c.Faults record e := by
  refine ⟨fun record key => KeyLayout.compose_of_keyOf, fun values key hkey hfinite others fields =>
    KeyLayout.keyOf_of_compose hnames hkey hfinite, fun record => ⟨?_, fun e =>
    KeyLayout.faults_of_keyOf⟩⟩
  constructor
  · rintro ⟨e, he⟩
    obtain ⟨before, c, after, heq, -, hc, -⟩ := KeyLayout.faults_of_keyOf he
    exact ⟨c, by simp [heq], hc⟩
  · rintro ⟨c, hc, hunsupplied⟩
    cases hkey : l.keyOf record with
    | error e => exact ⟨e, rfl⟩
    | ok key => exact absurd (KeyLayout.exists_keyOf_iff.1 ⟨key, hkey⟩ c hc) hunsupplied

/-- A layout of a small number, a double and a custom scalar. -/
def mixedLayout : KeyLayout where
  entity := ⟨0, 0⟩
  components :=
    [⟨⟨⟨0, 0⟩, 0⟩, "n", 0, .uint8⟩, ⟨⟨⟨0, 0⟩, 1⟩, "x", 9, .double⟩, ⟨⟨⟨0, 0⟩, 2⟩, "id", 12, .custom⟩]

/-- One and a half. -/
def sesqui : Decimal.Binary64 := ⟨0x3ff8000000000000⟩

/-- Values are found in a record that has them in another order. Of two faults the first in the
order of the layout is told. -/
theorem keys_of_records_composed_mixed :
    let key : Key := ⟨⟨0, 0⟩, [.integer 255, .float sesqui, .custom "7"]⟩
    let error : KeyError := .typeMismatch "n" .uint8 "integer 256"
    let faulty : Json := .record [("id", .null), ("n", .number (.int 256))]
    (mixedLayout.components.map KeyComponent.name).Nodup ∧ mixedLayout.compose key.values = .ok key ∧
      mixedLayout.keyOf (.record [("id", .text "7"), ("label", .null), ("n", .number (.int 255)),
        ("x", .number (.float sesqui))]) = .ok key ∧
      mixedLayout.keyOf faulty = .error error ∧
      ∃ before c after, mixedLayout.components = before ++ c :: after ∧
        (∀ b ∈ before, b.SuppliedBy faulty) ∧ ¬c.SuppliedBy faulty ∧ c.Faults faulty error := by
  intro key error faulty
  have hnames : (mixedLayout.components.map KeyComponent.name).Nodup := by decide
  have hcompose : mixedLayout.compose key.values = .ok key := by cbv
  have herror : mixedLayout.keyOf faulty = .error error := by cbv
  have hsesqui : sesqui.isFinite = true := by decide
  have hfinite : ∀ x, .float x ∈ key.values → x.isFinite = true := by
    intro x hx
    obtain rfl : x = sesqui := by simpa [key] using hx
    exact hsesqui
  have hfields : mixedLayout.fieldsOf key.values = [("n", .number (.int 255)),
      ("x", .number (.float sesqui)), ("id", .text "7")] := by
    simp [KeyLayout.fieldsOf, mixedLayout, key, KeyValue.toJson, hsesqui]
  obtain ⟨-, hback, hfault⟩ := keys_of_records_composed mixedLayout hnames
  refine ⟨hnames, hcompose, ?_, herror, (hfault faulty).2 error herror⟩
  refine hback key.values key hcompose hfinite [("label", .null)] _ (by simp [mixedLayout]) ?_
  rw [hfields]
  let last : List (String × Json) := [("id", .text "7"), ("label", .null)]
  show (last ++ [_, _]).Perm ([_, _] ++ last)
  exact List.perm_append_comm

end SchemaGraph
