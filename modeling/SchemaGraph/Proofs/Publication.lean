import Mathlib
import SchemaGraph.Compilation
import SchemaGraph.Proofs.Drafts
import SchemaGraph.Proofs.Linking

/-!
What a load does to the workspace. A unit that is compiled adds one schema, so that a load makes the
workspace grow at its end; withdrawing what was added since gives back exactly what there was.

`Reached` are the workspaces that loads lead to. What every compiled unit preserves holds of all of
them (`Reached.induction`).
-/

namespace SchemaGraph

/-! ### Compiling a unit -/

theorem Linked.finish_ok {w : Workspace} {u : Linked} {s : Schema} (h : u.finish w = .ok s) :
    s.toSchemaOf = u ∧ (Scope.mk w u).hierarchyCycle? = none ∧
      u.types.zipIdx.mapM (fun t => (Scope.mk w u).derive t.2 t.1) = .ok s.derived := by
  rw [Linked.finish] at h
  split at h
  · simp at h
  · rename_i hcycle
    obtain ⟨derived, hderived, heq⟩ := bind_eq_ok.1 h
    obtain rfl := pure_eq_ok.1 heq
    exact ⟨rfl, hcycle, hderived⟩

/-- A declaration of a unit passes all stages and becomes a schema, whose publication leads from one
workspace to the next. -/
structure Compiles (w : Workspace) (unit : SourceId) (declaration : Declaration) (s : Schema)
    (w' : Workspace) : Prop where
  stages : ∃ draft resolved : Draft, ∃ linked : Linked,
    Draft.ofDeclaration w unit declaration = .ok draft ∧
    draft.resolve w = (resolved, .ok ()) ∧ resolved.link = .ok linked ∧
    draft.ResolvesTo w linked ∧ linked.finish w = .ok s
  registers : w.register s = .ok w'

namespace Compiles

variable {w w' : Workspace} {unit : SourceId} {declaration : Declaration} {s : Schema}

theorem eq_publish (h : Compiles w unit declaration s w') : w' = w.publish s :=
  (Workspace.register_eq_ok.1 h.registers).2.2

/-- What is published is the draft of the declaration with all its references resolved. -/
theorem exists_draft (h : Compiles w unit declaration s w') :
    ∃ draft, Draft.ofDeclaration w unit declaration = .ok draft ∧
      draft.ResolvesTo w s.toSchemaOf := by
  obtain ⟨draft, resolved, linked, hdraft, -, -, hlinked, hfinish⟩ := h.stages
  obtain ⟨rfl, -⟩ := Linked.finish_ok hfinish
  exact ⟨draft, hdraft, hlinked⟩

theorem finish_eq (h : Compiles w unit declaration s w') :
    Linked.finish w s.toSchemaOf = .ok s := by
  obtain ⟨draft, resolved, linked, -, -, -, -, hfinish⟩ := h.stages
  obtain ⟨rfl, -⟩ := Linked.finish_ok hfinish
  exact hfinish

theorem key_eq (h : Compiles w unit declaration s w') : s.key = w.nextKey := by
  obtain ⟨draft, hdraft, hlinked⟩ := h.exists_draft
  rw [hlinked.key, (Draft.ofDeclaration_ok hdraft).1]

theorem source_eq (h : Compiles w unit declaration s w') : s.source = unit := by
  obtain ⟨draft, hdraft, hlinked⟩ := h.exists_draft
  rw [hlinked.source, (Draft.ofDeclaration_ok hdraft).2.1]

end Compiles

namespace Progress

/-- A draft is published with nothing pending, or refused for a stated reason. -/
theorem publish_cases (p : Progress) (d : Draft) :
    (∃ resolved linked s w', d.resolve p.workspace = (resolved, .ok ()) ∧
        resolved.link = .ok linked ∧ d.ResolvesTo p.workspace linked ∧
        linked.finish p.workspace = .ok s ∧ p.workspace.register s = .ok w' ∧
        p.publish d = (⟨w', p.events ++ [UnitEvent.published s 0]⟩, .ok ())) ∨
      ∃ e, p.publish d = (p, .error (.refused e)) := by
  rw [publish]
  rcases hresolve : d.resolve p.workspace with ⟨resolved, r⟩
  cases r with
  | error e => exact .inr ⟨e, rfl⟩
  | ok _ =>
      obtain ⟨hcount, linked, hlink, hlinked⟩ := Draft.resolve_ok hresolve
      cases hfinish : linked.finish p.workspace with
      | error e =>
          refine .inr ⟨e, ?_⟩
          simp [Draft.finish, hlink, hfinish, Except.mapError, bind, Except.bind]
      | ok s =>
          cases hregister : p.workspace.register s with
          | error e =>
              refine .inr ⟨e, ?_⟩
              simp [Draft.finish, hlink, hfinish, hregister, Except.mapError, bind, Except.bind]
          | ok w' =>
              refine .inl ⟨resolved, linked, s, w', rfl, hlink, hlinked, hfinish, hregister, ?_⟩
              simp [Draft.finish, hlink, hfinish, hregister, hcount, note, Except.mapError, bind,
                Except.bind, pure, Except.pure]

/-- A unit is published already, or is compiled, or is refused for a stated reason. -/
theorem compileUnit_cases (reader : SourceReader) (p : Progress) (unit : SourceId) :
    ((p.workspace.bySource? unit).isSome ∧ compileUnit reader p unit = (p, .ok ())) ∨
    (∃ declaration s w', reader.read unit = .ok declaration ∧
      Compiles p.workspace unit declaration s w' ∧
      compileUnit reader p unit =
        (⟨w', p.events ++ [UnitEvent.fixupStarted unit, .published s 0]⟩, .ok ())) ∨
    ∃ e events, compileUnit reader p unit = (⟨p.workspace, events⟩, .error (.refused e)) ∧
      (events = p.events ∨ events = p.events ++ [UnitEvent.fixupStarted unit]) := by
  by_cases hknown : (p.workspace.bySource? unit).isSome
  · exact .inl ⟨hknown, if_pos hknown⟩
  · rw [compileUnit, if_neg hknown]
    cases hread : reader.read unit with
    | error e => exact .inr (.inr ⟨e, p.events, rfl, .inl rfl⟩)
    | ok declaration =>
        rw [Except.bind]
        cases hdraft : Draft.ofDeclaration p.workspace unit declaration with
        | error e => exact .inr (.inr ⟨e, p.events, rfl, .inl rfl⟩)
        | ok draft =>
            simp only
            rcases (p.note (.fixupStarted unit)).publish_cases draft with
              ⟨resolved, linked, s, w', hresolve, hlink, hlinked, hfinish, hregister, heq⟩ | ⟨e, heq⟩
            · refine .inr (.inl ⟨declaration, s, w', rfl, ⟨⟨draft, resolved, linked, hdraft,
                hresolve, hlink, hlinked, hfinish⟩, hregister⟩, ?_⟩)
              rw [heq]
              simp [note]
            · exact .inr (.inr ⟨e, (p.note (.fixupStarted unit)).events, heq, .inr rfl⟩)

end Progress

/-! ### Growth -/

/-- One workspace comes from another by compiling units. -/
inductive Grows (w : Workspace) : Workspace → Prop
  | refl : Grows w w
  | compile {w₁ w₂ : Workspace} {unit : SourceId} {declaration : Declaration} {s : Schema} :
      Grows w w₁ → Compiles w₁ unit declaration s w₂ → Grows w w₂

theorem Workspace.bySource?_publish {w : Workspace} {source : SourceId} {s t : Schema}
    (h : w.bySource? source = some t) (hfresh : w.sources.key? s.source = none) :
    (w.publish s).bySource? source = some t := by
  obtain ⟨key, hkey, ht⟩ := Option.bind_eq_some_iff.1 h
  have hne : source ≠ s.source := by
    rintro rfl
    rw [hfresh] at hkey
    contradiction
  have hlt := (List.getElem?_eq_some_iff.1 ht).1
  rw [bySource?, publish, SchemaIndex.key?_insert, if_neg hne, hkey, Option.bind_some,
    List.getElem?_append_left hlt, ht]

/-- A schema that is published is found under its source. -/
theorem Workspace.bySource?_publish_self (w : Workspace) (s : Schema) :
    (w.publish s).bySource? s.source = some s := by
  simp [bySource?, publish, SchemaIndex.key?_insert, nextKey]

namespace Grows

variable {w w' : Workspace}

theorem trans {w'' : Workspace} (h : Grows w w') (h' : Grows w' w'') : Grows w w'' := by
  induction h' with
  | refl => exact h
  | compile _ hstep ih => exact ih.compile hstep

theorem schemas_prefix (h : Grows w w') : w.schemas <+: w'.schemas := by
  induction h with
  | refl => exact List.prefix_rfl
  | compile _ hstep ih =>
      rw [hstep.eq_publish]
      exact ih.trans (List.prefix_append _ _)

theorem bySource? (h : Grows w w') {source : SourceId} {s : Schema}
    (hs : w.bySource? source = some s) : w'.bySource? source = some s := by
  induction h with
  | refl => exact hs
  | compile _ hstep ih =>
      rw [hstep.eq_publish]
      exact Workspace.bySource?_publish ih (Workspace.register_eq_ok.1 hstep.registers).1

/-- What is published stays published. -/
theorem bySource?_isSome (h : Grows w w') {source : SourceId}
    (hs : (w.bySource? source).isSome) : (w'.bySource? source).isSome := by
  obtain ⟨s, hs⟩ := Option.isSome_iff_exists.1 hs
  exact Option.isSome_iff_exists.2 ⟨s, h.bySource? hs⟩

end Grows

/-! ### Withdrawal -/

theorem Workspace.forget_publish {w : Workspace} {s : Schema} (schemas : List Schema)
    (hsource : w.sources.key? s.source = none) (hname : w.names.key? s.name = none) :
    ({ w.publish s with schemas } : Workspace).forget s = { w with schemas } := by
  simp only [forget, publish, SchemaIndex.remove_insert hsource, SchemaIndex.remove_insert hname]

theorem Workspace.forget_comm (w : Workspace) (s t : Schema) :
    (w.forget s).forget t = (w.forget t).forget s := by
  simp only [forget, SchemaIndex.remove_comm]

theorem Workspace.foldl_forget_forget (ss : List Schema) (w : Workspace) (t : Schema) :
    (ss.foldl forget w).forget t = ss.foldl forget (w.forget t) := by
  induction ss generalizing w with
  | nil => rfl
  | cons s ss ih => rw [List.foldl_cons, List.foldl_cons, ih, forget_comm]

/-- What has been added since can be withdrawn without a trace. -/
theorem Grows.truncate {w w' : Workspace} (h : Grows w w') :
    w'.truncate w.schemas.length = w := by
  induction h with
  | refl => simp [Workspace.truncate]
  | @compile w₁ w₂ unit declaration s hgrows hstep ih =>
      obtain ⟨hsource, hname, rfl⟩ := Workspace.register_eq_ok.1 hstep.registers
      have hle := hgrows.schemas_prefix.length_le
      have hdrop : (w₁.publish s).schemas.drop w.schemas.length =
          w₁.schemas.drop w.schemas.length ++ [s] := List.drop_append_of_le_length hle
      have htake : (w₁.publish s).schemas.take w.schemas.length =
          w₁.schemas.take w.schemas.length := List.take_append_of_le_length hle
      -- Entries can be taken out in any order: those of the last schema go first.
      rw [Workspace.truncate, hdrop, htake, List.foldl_append, List.foldl_cons, List.foldl_nil,
        Workspace.foldl_forget_forget, Workspace.forget_publish _ hsource hname]
      exact ih

/-! ### Loads -/

/-- Compiling units makes the workspace grow; if it succeeds, all of them are published. What is
reported as published has nothing pending, and nothing pending is ever read. -/
theorem Progress.compileUnits_spec (reader : SourceReader) (p : Progress) (units : List SourceId) :
    Grows p.workspace (compileUnits reader p units).1.workspace ∧
    (∀ f, (compileUnits reader p units).2 = .error f → ∃ e, f = .refused e) ∧
    ((compileUnits reader p units).2 = .ok () →
      ∀ unit ∈ units, ((compileUnits reader p units).1.workspace.bySource? unit).isSome) ∧
    ∀ s n, .published s n ∈ (compileUnits reader p units).1.events →
      .published s n ∈ p.events ∨ n = 0 := by
  induction units generalizing p with
  | nil => exact ⟨.refl, by simp [compileUnits], by simp, fun s n hs => .inl hs⟩
  | cons unit units ih =>
      rw [compileUnits]
      rcases p.compileUnit_cases reader unit with ⟨hknown, heq⟩ | ⟨_, s, w', _, hstep, heq⟩ |
        ⟨e, events, heq, hevents⟩
      -- The unit is published already.
      · rw [heq]
        obtain ⟨hgrows, hfail, hall, hpending⟩ := ih p
        refine ⟨hgrows, hfail, fun hok => ?_, hpending⟩
        rintro u (_ | ⟨_, hu⟩)
        · exact hgrows.bySource?_isSome hknown
        · exact hall hok u hu
      -- The unit is compiled, and the others after it.
      · rw [heq]
        obtain ⟨hgrows, hfail, hall, hpending⟩ :=
          ih ⟨w', p.events ++ [UnitEvent.fixupStarted unit, .published s 0]⟩
        refine ⟨(Grows.refl.compile hstep).trans hgrows, hfail, fun hok => ?_, fun t n ht => ?_⟩
        · have hs : w'.bySource? unit = some s := by
            rw [hstep.eq_publish, ← hstep.source_eq]
            exact Workspace.bySource?_publish_self _ s
          rintro u (_ | ⟨_, hu⟩)
          · exact Option.isSome_iff_exists.2 ⟨s, hgrows.bySource? hs⟩
          · exact hall hok u hu
        · rcases hpending t n ht with ht | ht
          · simp only [List.mem_append, List.mem_cons, reduceCtorEq, UnitEvent.published.injEq,
              List.not_mem_nil, or_false, false_or] at ht
            tauto
          · exact .inr ht
      -- The unit is refused, and the others are not tried.
      · rw [heq]
        refine ⟨.refl, fun f hf => ⟨e, ?_⟩, by simp, fun s n hs => ?_⟩
        · exact (Except.error.inj hf).symm
        · rcases hevents with rfl | rfl
          · exact .inl hs
          · exact .inl (by simpa using hs)

/-- A load fails for a stated reason and leaves the workspace as it was, or it makes the workspace
grow until all units of the order are published. -/
theorem Workspace.load_cases (w : Workspace) (reader : SourceReader) (roots : List SourceId) :
    ((∃ e, (w.load reader roots).result = .error (.refused e)) ∧
      (w.load reader roots).workspace = w ∨
    ∃ order, (reader.graph roots).bind ImportGraph.sequence = .ok order ∧
      (w.load reader roots).result = .ok order ∧ Grows w (w.load reader roots).workspace ∧
      ∀ unit ∈ order, ((w.load reader roots).workspace.bySource? unit).isSome) ∧
    ∀ s n, .published s n ∈ (w.load reader roots).events → n = 0 := by
  rw [load]
  split
  · rename_i e _
    exact ⟨.inl ⟨⟨e, rfl⟩, rfl⟩, by simp⟩
  · rename_i order horder
    obtain ⟨hgrows, hfail, hall, hpending⟩ :=
      Progress.compileUnits_spec reader { workspace := w } order
    split
    · rename_i p hunits
      rw [hunits] at hgrows hall hpending
      exact ⟨.inr ⟨order, horder, rfl, hgrows, hall rfl⟩, by simpa using hpending⟩
    · rename_i p f hunits
      rw [hunits] at hgrows hfail hpending
      obtain ⟨e, rfl⟩ := hfail f rfl
      exact ⟨.inl ⟨⟨e, rfl⟩, hgrows.truncate⟩, by simpa using hpending⟩

/-! ### Reached workspaces -/

/-- The workspaces that loads lead to, from one without schemas. -/
inductive Reached : Workspace → Prop
  | empty (primitives : PrimitiveTable) (containers : ContainerCatalog)
      (enumDefault : Option PrimitiveId) : Reached { primitives, containers, enumDefault }
  | load {w : Workspace} (reader : SourceReader) (roots : List SourceId) :
      Reached w → Reached (w.load reader roots).workspace

theorem Grows.preserves {P : Workspace → Prop} {w w' : Workspace} (h : Grows w w')
    (hstep : ∀ w unit declaration s w', P w → Compiles w unit declaration s w' → P w')
    (hw : P w) : P w' := by
  induction h with
  | refl => exact hw
  | compile _ hcompiles ih => exact hstep _ _ _ _ _ ih hcompiles

/-- What holds of every workspace without schemas, and is preserved whenever a unit is compiled,
holds of every workspace reached. -/
theorem Reached.induction {P : Workspace → Prop} {w : Workspace} (h : Reached w)
    (hempty : ∀ primitives containers enumDefault, P { primitives, containers, enumDefault })
    (hstep : ∀ w unit declaration s w', P w → Compiles w unit declaration s w' → P w') : P w := by
  induction h with
  | empty primitives containers enumDefault => exact hempty primitives containers enumDefault
  | @load w reader roots _ ih =>
      rcases (w.load_cases reader roots).1 with ⟨-, heq⟩ | ⟨order, -, -, hgrows, -⟩
      · rw [heq]
        exact ih
      · exact hgrows.preserves hstep ih

/-! ### Indices -/

/-- A schema is found at its key, and the indices lead to exactly the published schemas. -/
structure Workspace.Indexed (w : Workspace) : Prop where
  key_eq : ∀ (key : SchemaKey) (s : Schema), w.schemas[key]? = some s → s.key = key
  sources_iff : ∀ source key,
    w.sources.key? source = some key ↔ ∃ s, w.schemas[key]? = some s ∧ s.source = source
  names_iff : ∀ name key,
    w.names.key? name = some key ↔ ∃ s, w.schemas[key]? = some s ∧ s.name = name

namespace Workspace

variable {w : Workspace} {s : Schema}

theorem getElem?_publish {key : SchemaKey} {t : Schema} :
    (w.publish s).schemas[key]? = some t ↔
      w.schemas[key]? = some t ∨ key = w.nextKey ∧ t = s := by
  rw [publish, nextKey, List.getElem?_append]
  by_cases hlt : key < w.schemas.length
  · simp [hlt, Nat.ne_of_lt hlt]
  · rw [if_neg hlt, List.getElem?_eq_none (Nat.not_lt.1 hlt), List.getElem?_singleton]
    by_cases heq : key = w.schemas.length
    · simp [heq, eq_comm]
    · have hpos : key - w.schemas.length ≠ 0 :=
        Nat.sub_ne_zero_of_lt (Nat.lt_of_le_of_ne (Nat.not_lt.1 hlt) (Ne.symm heq))
      simp [heq, hpos]

theorem getElem?_publish_of_ne {key : SchemaKey} (s : Schema)
    (h : key ≠ w.nextKey) : (w.publish s).schemas[key]? = w.schemas[key]? := by
  refine Option.ext fun t => getElem?_publish.trans ?_
  simp [h]

theorem getElem?_publish_nextKey (w : Workspace) (s : Schema) :
    (w.publish s).schemas[w.nextKey]? = some s :=
  getElem?_publish.2 (.inr ⟨rfl, rfl⟩)

theorem getElem?_of_eq_take {w' : Workspace} {count key : SchemaKey} {t : Schema}
    (htake : w'.schemas = w.schemas.take count) (ht : w'.schemas[key]? = some t) :
    key < count ∧ w.schemas[key]? = some t := by
  rw [htake, List.getElem?_take] at ht
  split at ht
  · exact ⟨‹_›, ht⟩
  · contradiction

theorem index_publish {t : SchemaIndex} {text : Schema → String}
    (hindex : ∀ a key, t.key? a = some key ↔ ∃ u, w.schemas[key]? = some u ∧ text u = a)
    (hfresh : t.key? (text s) = none) (a : String) (key : SchemaKey) :
    (t.insert (text s) w.nextKey).key? a = some key ↔
      ∃ u, (w.publish s).schemas[key]? = some u ∧ text u = a := by
  simp only [SchemaIndex.key?_insert, getElem?_publish]
  by_cases ha : a = text s
  · subst ha
    -- No schema published before has the text of the new one.
    have hnone : ∀ u, w.schemas[key]? = some u → text u ≠ text s := fun u hu heq => by
      have hkey := (hindex _ key).2 ⟨u, hu, heq⟩
      rw [hfresh] at hkey
      contradiction
    rw [if_pos rfl, Option.some.injEq]
    constructor
    · rintro rfl
      exact ⟨s, .inr ⟨rfl, rfl⟩, rfl⟩
    · rintro ⟨u, hu | ⟨rfl, -⟩, heq⟩
      · exact absurd heq (hnone u hu)
      · rfl
  · rw [if_neg ha, hindex]
    constructor
    · rintro ⟨u, hu, heq⟩
      exact ⟨u, .inl hu, heq⟩
    · rintro ⟨u, hu | ⟨-, rfl⟩, heq⟩
      · exact ⟨u, hu, heq⟩
      · exact absurd heq.symm ha

/-- Every schema is found at its key. -/
def Positioned (w : Workspace) : Prop :=
  ∀ (key : SchemaKey) (s : Schema), w.schemas[key]? = some s → s.key = key

theorem Positioned.publish (hw : w.Positioned) (hs : s.key = w.nextKey) :
    (w.publish s).Positioned := by
  intro key t ht
  rcases getElem?_publish.1 ht with ht | ⟨rfl, rfl⟩
  · exact hw key t ht
  · exact hs

theorem Indexed.positioned (hw : w.Indexed) : w.Positioned := hw.key_eq

end Workspace

theorem Compiles.indexed {w w' : Workspace} {unit : SourceId} {declaration : Declaration}
    {s : Schema} (h : Compiles w unit declaration s w') (hw : w.Indexed) : w'.Indexed := by
  obtain ⟨hsource, hname, rfl⟩ := Workspace.register_eq_ok.1 h.registers
  refine ⟨hw.positioned.publish h.key_eq, ?_, ?_⟩
  · exact Workspace.index_publish hw.sources_iff hsource
  · exact Workspace.index_publish hw.names_iff hname

theorem Reached.indexed {w : Workspace} (h : Reached w) : w.Indexed := by
  refine h.induction (fun _ _ _ => ?_) fun _ _ _ _ _ hw hcompiles => hcompiles.indexed hw
  constructor <;> simp [SchemaIndex.key?]

namespace Workspace

variable {w : Workspace} {s s' : Schema} {key key' : SchemaKey}

section Index

variable {t : SchemaIndex} {text : Schema → String}
  (hindex : ∀ a key, t.key? a = some key ↔ ∃ u, w.schemas[key]? = some u ∧ text u = a)

include hindex

/-- What an index leads to is found at its own key. -/
theorem Indexed.index_eq_some (hw : w.Indexed) {a : String} :
    ((t.key? a).bind fun key => w.schemas[key]?) = some s ↔
      w.schemas[s.key]? = some s ∧ text s = a := by
  rw [Option.bind_eq_some_iff]
  constructor
  · rintro ⟨key, hkey, hs⟩
    obtain ⟨u, hu, rfl⟩ := (hindex a key).1 hkey
    obtain rfl := Option.some.inj (hs.symm.trans hu)
    rw [hw.key_eq key s hs]
    exact ⟨hs, rfl⟩
  · rintro ⟨hs, rfl⟩
    exact ⟨s.key, (hindex _ _).2 ⟨s, hs, rfl⟩, hs⟩

theorem key_of_index (hs : w.schemas[key]? = some s) (hs' : w.schemas[key']? = some s')
    (h : text s = text s') : key = key' := by
  have hkey := (hindex (text s) key).2 ⟨s, hs, rfl⟩
  have hkey' := (hindex (text s) key').2 ⟨s', hs', h.symm⟩
  exact Option.some.inj (hkey.symm.trans hkey')

/-- No two schemas have the same text in an index. -/
theorem nodup_of_index : (w.schemas.map text).Nodup := by
  refine List.pairwise_map.2 (List.pairwise_iff_getElem.2 fun i j hi hj hij heq => ?_)
  exact Nat.ne_of_lt hij
    (key_of_index hindex (List.getElem?_eq_getElem hi) (List.getElem?_eq_getElem hj) heq)

end Index

namespace Indexed

theorem mem_iff (h : w.Indexed) : s ∈ w.schemas ↔ w.schemas[s.key]? = some s := by
  refine ⟨fun hs => ?_, List.mem_of_getElem?⟩
  obtain ⟨key, hkey⟩ := List.getElem?_of_mem hs
  rwa [h.key_eq key s hkey]

theorem bySource?_eq_some (h : w.Indexed) {source : SourceId} :
    w.bySource? source = some s ↔ w.schemas[s.key]? = some s ∧ s.source = source :=
  h.index_eq_some h.sources_iff

theorem byName?_eq_some (h : w.Indexed) {name : String} :
    w.byName? name = some s ↔ w.schemas[s.key]? = some s ∧ s.name = name :=
  h.index_eq_some h.names_iff

theorem mem_of_bySource? (h : w.Indexed) {source : SourceId} (hs : w.bySource? source = some s) :
    s ∈ w.schemas ∧ s.source = source := by
  rw [h.mem_iff]
  exact h.bySource?_eq_some.1 hs

theorem key_of_source (h : w.Indexed) (hs : w.schemas[key]? = some s)
    (hs' : w.schemas[key']? = some s') (heq : s.source = s'.source) : key = key' :=
  key_of_index h.sources_iff hs hs' heq

theorem key_of_name (h : w.Indexed) (hs : w.schemas[key]? = some s)
    (hs' : w.schemas[key']? = some s') (heq : s.name = s'.name) : key = key' :=
  key_of_index h.names_iff hs hs' heq

theorem nodup_sources (h : w.Indexed) : (w.schemas.map fun s => s.source).Nodup :=
  nodup_of_index h.sources_iff

theorem nodup_names (h : w.Indexed) : (w.schemas.map fun s => s.name).Nodup :=
  nodup_of_index h.names_iff

end Indexed

end Workspace

/-! ### Publication -/

/-- A load that fails leaves the workspace as it was, to the last entry of the indices. A load that
succeeds keeps all published schemas in front, and every unit of the order it returns is published
and found under its source. -/
theorem load_rolls_back_or_appends {w : Workspace} (h : Reached w) (reader : SourceReader)
    (roots : List SourceId) :
    (∀ f, (w.load reader roots).result = .error f → (w.load reader roots).workspace = w) ∧
    ∀ order, (w.load reader roots).result = .ok order →
      w.schemas <+: (w.load reader roots).workspace.schemas ∧
      ∀ unit ∈ order, ∃ s ∈ (w.load reader roots).workspace.schemas,
        s.source = unit ∧ (w.load reader roots).workspace.bySource? unit = some s := by
  rcases (w.load_cases reader roots).1 with ⟨⟨e, hresult⟩, heq⟩ | ⟨order, -, hresult, hgrows, hall⟩
  · refine ⟨fun _ _ => heq, fun order horder => ?_⟩
    rw [hresult] at horder
    contradiction
  · refine ⟨fun f hf => ?_, fun order' horder => ⟨hgrows.schemas_prefix, fun unit hunit => ?_⟩⟩
    · rw [hresult] at hf
      contradiction
    · rw [hresult] at horder
      obtain rfl := Except.ok.inj horder
      obtain ⟨s, hs⟩ := Option.isSome_iff_exists.1 (hall unit hunit)
      obtain ⟨hmem, hsource⟩ := (h.load reader roots).indexed.mem_of_bySource? hs
      exact ⟨s, hmem, hsource, hs⟩

/-- Two sources whose schemas have the same name, where the second imports the first. -/
def clashingSources : SourceTable :=
  [("a", { name := some "A" }),
    ("b", { name := some "A", imports := [{ source := "a", localName := some "X" }] })]

/-- The first source stays published when the second fails for its name. -/
theorem load_rolls_back_clash :
    let w := (({ primitives := [] } : Workspace).load clashingSources.reader ["a"]).workspace
    Reached w ∧ (w.bySource? "a").map (fun s => s.name) = some "A" ∧
      (w.load clashingSources.reader ["b"]).result =
        .error (.refused (.duplicateSchemaName "A" "a" "b")) ∧
      (w.load clashingSources.reader ["b"]).workspace = w := by
  intro w
  have hreached : Reached w := (Reached.empty [] {} none).load clashingSources.reader ["a"]
  have hfound : ((w.bySource? "a").map (fun s => s.name),
      (w.load clashingSources.reader ["b"]).result) =
      (some "A", .error (.refused (.duplicateSchemaName "A" "a" "b"))) := by
    unfold w
    cbv
  obtain ⟨hname, hrefused⟩ := Prod.mk.inj hfound
  obtain ⟨hback, -⟩ := load_rolls_back_or_appends hreached clashingSources.reader ["b"]
  exact ⟨hreached, hname, hrefused, hback _ hrefused⟩

end SchemaGraph
