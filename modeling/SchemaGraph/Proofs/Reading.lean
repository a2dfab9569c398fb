import SchemaGraph.Proofs.Success
import SchemaGraph.SourceDirectory

/-!
What readers say of the same source. The imports of a file are read without its types, and its
declaration is read whole. From a record both readers find the same imports; a list is a
declaration too, and there only the whole declaration can be read.
-/

namespace SchemaGraph

open Json (Document Fault)

/-! ### Records -/

namespace Json.Document

theorem readFields_cons_eq_ok {α : Type} {layout : Layout}
    {step : String → Document → α → Except Fault α} {key : Except Fault String} {d : Document}
    {fields : List (Except Fault String × Document)} {seen : List String} {a : α}
    {r : α × List String} :
    readFields layout step ((key, d) :: fields) seen a = .ok r ↔ ∃ k, key = .ok k ∧
      if k ∈ layout.names then
        k ∉ seen ∧ ∃ a', step k d a = .ok a' ∧ readFields layout step fields (k :: seen) a' = .ok r
      else readFields layout step fields seen a = .ok r := by
  rw [readFields, bind_eq_ok]
  refine exists_congr fun k => and_congr_right fun _ => ?_
  simp only [List.contains_eq_mem, decide_eq_true_eq]
  split
  · rw [check_eq_ok, bind_eq_ok]
  · rfl

/-- A reader of some of the fields of a record succeeds where a reader of all of them does, if it
reads each of its fields where that one does. -/
theorem exists_readFields {α β : Type} {layout : Layout}
    {step : String → Document → α → Except Fault α} (R : α → β → Prop) (layout' : Layout)
    (step' : String → Document → β → Except Fault β)
    (hnames : ∀ k ∈ layout'.names, k ∈ layout.names)
    (hboth : ∀ k ∈ layout'.names, ∀ d a b a', R a b → step k d a = .ok a' →
      ∃ b', step' k d b = .ok b' ∧ R a' b')
    (hother : ∀ k, k ∉ layout'.names → ∀ d a b a', R a b → step k d a = .ok a' → R a' b)
    {fields : List (Except Fault String × Document)} {seen seen' : List String} {a : α} {b : β}
    {r : α × List String} (hseen : ∀ k ∈ seen', k ∈ seen) (hab : R a b)
    (h : readFields layout step fields seen a = .ok r) :
    ∃ r', readFields layout' step' fields seen' b = .ok r' ∧ R r.1 r'.1 := by
  induction fields generalizing seen seen' a b with
  | nil =>
      obtain rfl := Except.ok.inj h
      exact ⟨_, rfl, hab⟩
  | cons field fields ih =>
      obtain ⟨key, d⟩ := field
      simp only [readFields_cons_eq_ok] at h ⊢
      obtain ⟨k, hkey, h⟩ := h
      by_cases hmem : k ∈ layout'.names
      · rw [if_pos (hnames k hmem)] at h
        obtain ⟨hfresh, a', ha, h⟩ := h
        obtain ⟨b', hb, hab'⟩ := hboth k hmem d a b a' hab ha
        obtain ⟨r', hr', hr⟩ := ih (List.cons_subset_cons k hseen) hab' h
        refine ⟨r', ⟨k, hkey, ?_⟩, hr⟩
        rw [if_pos hmem]
        exact ⟨fun hk => hfresh (hseen k hk), b', hb, hr'⟩
      · obtain ⟨r', hr', hr⟩ : ∃ r', readFields layout' step' fields seen' b = .ok r' ∧
            R r.1 r'.1 := by
          split at h
          · obtain ⟨-, a', ha, h⟩ := h
            exact ih (fun x hx => List.mem_cons_of_mem k (hseen x hx))
              (hother k hmem d a b a' hab ha) h
          · exact ih hseen hab h
        refine ⟨r', ⟨k, hkey, ?_⟩, hr⟩
        rwa [if_neg hmem]

end Json.Document

namespace Json

theorem decode_eq_ok {α : Type} {read : Document → Except Fault α} {text : String} {a : α} :
    decode read text = .ok a ↔
      read (readDocument text).1 = .ok a ∧ (readDocument text).2 = .ok () := by
  rw [decode]
  generalize readDocument text = found
  obtain ⟨document, rest⟩ := found
  simp only [bind_eq_ok, pure_eq_ok]
  exact ⟨fun ⟨_, hread, (), hrest, rfl⟩ => ⟨hread, hrest⟩, fun ⟨hread, hrest⟩ =>
    ⟨a, hread, (), hrest, rfl⟩⟩

theorem decode_of_error {α : Type} {read : Document → Except Fault α} {text : String} {f : Fault}
    (h : read (readDocument text).1 = .error f) : decode read text = .error f := by
  rw [decode]
  generalize readDocument text = found at h
  obtain ⟨document, rest⟩ := found
  exact congrArg (· >>= _) h

/-- The text of a record, as far as its first character tells. -/
def OpensRecord (text : String) : Prop :=
  (skipSpace text.toList).head? = some '\x7b'

instance (text : String) : Decidable (OpensRecord text) :=
  inferInstanceAs (Decidable (_ = _))

theorem opensRecord_iff {text : String} :
    OpensRecord text ↔ ∃ fields ending, (readDocument text).1 = .record fields ending := by
  have hword : ∀ word value s, (∀ fields ending, value ≠ Document.record fields ending) →
      ∀ fields ending, (readWord word value s).1 ≠ .record fields ending := by
    intro word value s hvalue fields ending
    rw [readWord]
    split
    · exact hvalue fields ending
    · simp
  simp only [OpensRecord, readDocument, readValue]
  split
  · simp [*]
  · simp [*]
  · simp [*]
  · simp [*]
  · simp [*]
  · simp only [*]
    split <;> simp
  · simp only [*]
    split <;> simp
  · rename_i c r h1 h2 h3 h4 h5 h6 h
    rw [h]
    split <;> simp_all

end Json

/-! ### Declarations -/

namespace Declaration

open Json.Document

/-- A declaration that is a record says in its field for imports what it imports. -/
theorem readImports_of_read_record {fields : List (Except Fault String × Document)}
    {ending : Option Fault} {declaration : Declaration}
    (h : read (.record fields ending) = .ok declaration) :
    readImports (.record fields ending) = .ok declaration.imports := by
  rw [read, readRecord] at h
  obtain ⟨⟨declaration', seen⟩, hfields, h⟩ := bind_eq_ok.1 h
  obtain ⟨_, hending, h⟩ := bind_eq_ok.1 h
  split at h
  · obtain rfl := Except.ok.inj h
    obtain ⟨⟨is, seen'⟩, hfields', his⟩ := exists_readFields
      (fun (s : Declaration) is => s.imports = is)
      { names := ["imports"], required := [], least := 0 }
      (fun _ d _ => readList Import.read d) (by simp)
      (fun k hk d a b a' _ ha => by
        obtain rfl := List.mem_singleton.1 hk
        obtain ⟨is, his, ha⟩ := bind_eq_ok.1 ha
        obtain rfl := pure_eq_ok.1 ha
        exact ⟨is, his, rfl⟩)
      (fun k hk d a b a' hab ha => by
        split at ha <;> obtain ⟨_, -, ha⟩ := bind_eq_ok.1 ha <;> obtain rfl := pure_eq_ok.1 ha
        · exact hab
        · exact hab
        · exact absurd (List.mem_singleton.2 rfl) hk
        · exact hab
        · exact hab)
      (List.forall_mem_nil _) rfl hfields
    obtain rfl := his
    exact bind_eq_ok.2 ⟨_, hfields', bind_eq_ok.2 ⟨_, hending, rfl⟩⟩
  · contradiction

/-- A declaration that is a list begins with its name, which is no list of imports. -/
theorem readImports_of_read_list {items : List Document} {ending : Option Fault}
    {declaration : Declaration} (h : read (.list items ending) = .ok declaration) :
    readImports (.list items ending) = .error .mismatched := by
  rw [read, readRecord] at h
  cases items with
  | nil =>
      obtain ⟨_, -, h⟩ := bind_eq_ok.1 h
      obtain ⟨_, -, h⟩ := bind_eq_ok.1 (check_eq_ok.1 h).2
      exact absurd Nat.one_pos (check_eq_ok.1 h).1
  | cons first rest =>
      rw [readPositions] at h
      obtain ⟨_, h, -⟩ := bind_eq_ok.1 h
      obtain ⟨_, h, -⟩ := bind_eq_ok.1 h
      obtain ⟨name, hname, -⟩ := bind_eq_ok.1 h
      have hmismatch : readList Import.read first = .error .mismatched := by
        cases first with
        | null => rfl
        | text s =>
            obtain ⟨text, hs, -⟩ := map_eq_ok.1 hname
            obtain rfl : s = .ok text := hs
            rfl
        | _ => contradiction
      rw [readImports, readRecord, readPositions, hmismatch]
      rfl

/-- A text whose declaration can be read says what it imports if it is a record; a list cannot say
it in a form that is understood. -/
theorem importsOfText_of_ofText {text : String} {declaration : Declaration}
    (h : ofText text = .ok declaration) :
    importsOfText text =
      if Json.OpensRecord text then .ok declaration.imports else .error .mismatched := by
  obtain ⟨hread, hrest⟩ := Json.decode_eq_ok.1 h
  split
  · rename_i hrecord
    obtain ⟨fields, ending, hdocument⟩ := Json.opensRecord_iff.1 hrecord
    rw [hdocument] at hread
    exact Json.decode_eq_ok.2 ⟨hdocument ▸ readImports_of_read_record hread, hrest⟩
  · rename_i hlist
    refine Json.decode_of_error ?_
    rw [Json.opensRecord_iff] at hlist
    generalize (Json.readDocument text).1 = document at *
    cases document with
    | record fields ending => exact absurd ⟨fields, ending, rfl⟩ hlist
    | list items ending => exact readImports_of_read_list hread
    | _ => contradiction

theorem imports_of_ofText {text : String} {declaration : Declaration} {is : List Import}
    (h : ofText text = .ok declaration) (h' : importsOfText text = .ok is) :
    declaration.imports = is := by
  rw [importsOfText_of_ofText h] at h'
  split at h'
  · exact Except.ok.inj h'
  · contradiction

end Declaration

/-! ### Readers -/

/-- What a reader promises: asked for the imports of a source, it answers with those that the source
declares, and leaves none out. Readers of tables and of directories keep the promise. -/
def SourceReader.ListsImports (reader : SourceReader) : Prop :=
  ∀ id is declaration, reader.imports id = .ok is → reader.read id = .ok declaration →
    ∀ i ∈ declaration.importSources, i ∈ is

theorem SourceTable.listsImports (t : SourceTable) : t.reader.ListsImports := by
  intro id is declaration himports hread i hi
  obtain ⟨declaration', hread', rfl⟩ := map_eq_ok.1 himports
  obtain rfl := Except.ok.inj (hread.symm.trans hread')
  exact hi

namespace SourceDirectory

theorem read_of_decode {α : Type} {s : SourceDirectory} {t : FileTree}
    {read : String → Except Fault α} {id : SourceId} {a : α} (h : s.decode t read id = .ok a) :
    ∃ path text, s.locate t id = .ok path ∧ textAt t path = .ok text ∧ read text = .ok a := by
  rw [decode] at h
  obtain ⟨path, hpath, h⟩ := bind_eq_ok.1 h
  obtain ⟨text, htext, h⟩ := bind_eq_ok.1 h
  refine ⟨path, text, hpath, htext, ?_⟩
  split at h
  · rename_i value hvalue
    obtain rfl := Except.ok.inj h
    exact hvalue
  · contradiction

theorem listsImports (s : SourceDirectory) (t : FileTree) : (s.reader t).ListsImports := by
  intro id is declaration himports hread i hi
  obtain ⟨path, text, hpath, htext, himports⟩ := read_of_decode himports
  obtain ⟨path', text', hpath', htext', hread⟩ := read_of_decode hread
  obtain rfl := Except.ok.inj (hpath.symm.trans hpath')
  obtain rfl := Except.ok.inj (htext.symm.trans htext')
  obtain ⟨is', himports', rfl⟩ := map_eq_ok.1 himports
  rw [← Declaration.imports_of_ofText hread himports']
  exact hi

end SourceDirectory

end SchemaGraph
