import SchemaGraph.Compilation
import SchemaGraph.Proofs.Failures

/-!
The phases of compile errors. Each step of the compilation of a unit fails in a phase of its own:
drawing up a declaration fails for its structure, or because a source that it imports is not
published; resolving and finishing fail for what the references lead to; and registering fails for
a name or a source that is taken.
-/

namespace SchemaGraph

/-! ### Drafts -/

theorem Fails.inOrder {α β ε : Type} {P : ε → Prop} {draw : List β → α → Except ε β} {as : List α}
    (h : ∀ done, ∀ a ∈ as, Fails P (draw done a)) : Fails P (Drafting.inOrder draw as) :=
  .foldlM fun _ a _ done hsplit _ => .bind (h done a (by simp [hsplit])) fun _ _ => .pure _

namespace Drafting

variable {w : Workspace} {unit : SourceId} {α : Type}

/-- The fault is one of the declaration alone. -/
abbrev FailsAlone (x : Except CompileError α) : Prop :=
  Fails (fun e => e.phase = .structural) x

theorem failsAlone_properName {role : NameRole} {owner : String} {text : Option String} :
    FailsAlone (properName w unit role owner text) := by
  cases text with
  | none => exact .error rfl
  | some text =>
      rw [properName]
      split
      · exact .ok _
      · exact .error rfl

theorem failsAlone_properNamespace {text : Option String} :
    FailsAlone (properNamespace w unit text) := by
  rw [properNamespace]
  split
  · exact .ok _
  · exact .error rfl

theorem failsAlone_typeNamespace {schemaNamespace : String} {text : Option String} :
    FailsAlone (typeNamespace w unit schemaNamespace text) := by
  rw [typeNamespace]
  split
  · exact .ok _
  · exact failsAlone_properNamespace

theorem failsAlone_require {owner field : String} {a : Option α} :
    FailsAlone (require unit owner field a) := by
  cases a with
  | none => exact .error rfl
  | some a => exact .ok a

theorem failsAlone_draftProperty {type : String} {done : List (Property TypeBinding)}
    {p : Declaration.Property} : FailsAlone (draftProperty w unit type done p) := by
  refine .bind failsAlone_properName fun name _ => ?_
  split
  · exact .error rfl
  · refine .bind failsAlone_require fun text _ => ?_
    exact .bind (.mapError fun _ => rfl) fun _ _ => .pure _

theorem failsAlone_checkKeyComponents {kind : TypeKind} {type : String} {hasBase : Bool}
    {cs : List String} : FailsAlone (checkKeyComponents unit kind type hasBase cs) := by
  cases cs with
  | nil =>
      rw [checkKeyComponents]
      split
      · exact .error rfl
      · exact .ok _
  | cons c cs =>
      rw [checkKeyComponents]
      repeat' split
      all_goals first | exact .error rfl | exact .ok _

theorem failsAlone_draftComposite {schemaNamespace name : String} {kind : TypeKind}
    {d : Declaration.Composite} :
    FailsAlone (draftComposite w unit schemaNamespace name kind d) := by
  refine .bind (.optionMapM fun _ _ => .mapError fun _ => rfl) fun base _ => ?_
  refine .bind (.mapM fun _ _ => .mapError fun _ => rfl) fun interfaces _ => ?_
  refine .bind (.inOrder fun _ _ _ => failsAlone_draftProperty) fun properties _ => ?_
  refine .bind failsAlone_checkKeyComponents fun _ _ => ?_
  exact .bind failsAlone_typeNamespace fun _ _ => .pure _

theorem failsAlone_draftInterface {schemaNamespace name : String} {d : Declaration.Interface} :
    FailsAlone (draftInterface w unit schemaNamespace name d) := by
  refine .bind (.mapM fun _ _ => .mapError fun _ => rfl) fun parents _ => ?_
  refine .bind (.inOrder fun _ _ _ => failsAlone_draftProperty) fun properties _ => ?_
  refine .bind failsAlone_checkKeyComponents fun _ _ => ?_
  exact .bind failsAlone_typeNamespace fun _ _ => .pure _

theorem failsAlone_draftElement {type : String} {low high : Int} {done : List EnumElement}
    {e : Declaration.Element} : FailsAlone (draftElement w unit type low high done e) := by
  refine .bind failsAlone_properName fun name _ => ?_
  split
  · exact .error rfl
  · refine .bind failsAlone_require fun written _ => ?_
    split
    · exact .error rfl
    · split
      · exact .error rfl
      · exact .pure _

theorem failsAlone_draftEnum {schemaNamespace name : String} {d : Declaration.Enum} :
    FailsAlone (draftEnum w unit schemaNamespace name d) := by
  have hunderlying : FailsAlone (enumUnderlying w unit name d.underlying) := by
    simp only [enumUnderlying]
    split
    · exact .ok _
    · exact .error rfl
  refine .bind hunderlying fun range _ => ?_
  refine .bind (.inOrder fun _ _ _ => failsAlone_draftElement) fun elements _ => ?_
  exact .bind failsAlone_typeNamespace fun _ _ => .pure _

theorem failsAlone_draftType {schemaNamespace : String} {done : List DraftType}
    {t : Declaration.TypeDecl} : FailsAlone (draftType w unit schemaNamespace done t) := by
  refine .bind failsAlone_properName fun name _ => ?_
  split
  · exact .error rfl
  · cases t with
    | entity d | struct d => exact failsAlone_draftComposite
    | interface d => exact failsAlone_draftInterface
    | enum d => exact failsAlone_draftEnum

/-- The source that an import asks for in vain. -/
def Unpublished (w : Workspace) (unit : SourceId) (i : Declaration.Import) : CompileError → Prop :=
  fun e => e = .sourceNotFound i.source ∧ i.source ≠ unit ∧ w.bySource? i.source = none

theorem fails_importTarget {schema : String} {i : Declaration.Import} :
    Fails (Unpublished w unit i) (importTarget w unit schema i) := by
  rw [importTarget]
  split
  · exact .ok _
  · rename_i hne
    cases htarget : w.bySource? i.source with
    | some target => exact .ok _
    | none => exact .error ⟨rfl, hne, htarget⟩

theorem fails_draftImport {schema : String} {done : List (String × SchemaKey)}
    {i : Declaration.Import} :
    Fails (fun e => e.phase = .structural ∨ Unpublished w unit i e)
      (draftImport w unit schema done i) := by
  have htarget : Fails (fun e => e.phase = .structural ∨ Unpublished w unit i e)
      (importTarget w unit schema i) := fails_importTarget.imp fun _ => .inr
  refine .bind htarget fun target _ => ?_
  refine .bind (failsAlone_properName.imp fun _ => .inl) fun name _ => ?_
  split
  · exact .error (.inl rfl)
  · exact .pure _

end Drafting

/-- A declaration is not drawn up because something is wrong with it, or because it imports another
source that is not published. -/
theorem Draft.fails_ofDeclaration {w : Workspace} {unit : SourceId} {d : Declaration} :
    Fails (fun e => e.phase = .structural ∨ ∃ i ∈ d.imports, Drafting.Unpublished w unit i e)
      (Draft.ofDeclaration w unit d) := by
  refine .bind (Drafting.failsAlone_properName.imp fun _ => .inl) fun name _ => ?_
  refine .bind (Drafting.failsAlone_properNamespace.imp fun _ => .inl) fun ns _ => ?_
  refine .bind (.inOrder fun _ i hi => ?_) fun imports _ => ?_
  · exact Drafting.fails_draftImport.imp fun e he => he.imp_right fun hmissing => ⟨i, hi, hmissing⟩
  · refine .bind (.inOrder fun _ _ _ => ?_) fun _ _ => .pure _
    exact Drafting.failsAlone_draftType.imp fun _ => .inl

/-! ### References -/

namespace Resolution

variable {w : Workspace} {d : Draft} {α : Type}

/-- What a reference leads to does not fit the place of the reference. -/
def Unfit : CompileError → Prop
  | .kindMismatch .. | .voidProperty .. | .roleMismatch .. | .keyNotCapable .. => True
  | _ => False

/-- The fault is one of a reference: it leads nowhere, or to something that does not fit. -/
def Astray (w : Workspace) (d : Draft) (e : CompileError) : Prop :=
  Unfit e ∨ ∃ owner path, resolvePath w d owner path = .error e

abbrev FailsToLead (w : Workspace) (d : Draft) (x : Except CompileError α) : Prop :=
  Fails (Astray w d) x

theorem failsToLead_resolvePath {owner : String} {path : TypePath} :
    FailsToLead w d (resolvePath w d owner path) :=
  fun _ he => .inr ⟨owner, path, he⟩

theorem failsToLead_resolveSupertype {owner : String} {expected : TypeKind} {path : TypePath} :
    FailsToLead w d (resolveSupertype w d owner expected path) := by
  refine .bind failsToLead_resolvePath fun found _ => ?_
  split
  · split
    · exact .pure _
    · exact .error (.inl trivial)
  · exact .error (.inl trivial)

theorem failsToLead_resolveValue {s : Site} {path : TypePath} :
    FailsToLead w d (resolveValue w d s path) := by
  refine .bind failsToLead_resolvePath fun found _ => ?_
  split
  · exact .error (.inl trivial)
  · split
    · exact .pure _
    · exact .error (.inl trivial)

theorem failsToLead_resolveMapKey {s : Site} {path : TypePath} :
    FailsToLead w d (resolveMapKey w d s path) := by
  refine .bind failsToLead_resolvePath fun found _ => ?_
  split
  · split
    · exact .pure _
    · exact .error (.inl trivial)
  · exact .error (.inl trivial)

theorem failsToLead_resolveExpr {s : Site} {e : TypeExpr} :
    FailsToLead w d (resolveExpr w d s e) := by
  cases e with
  | named path => exact failsToLead_resolveValue
  | container shape key value =>
      refine .bind (.optionMapM fun _ _ => failsToLead_resolveMapKey) fun key _ => ?_
      exact .bind failsToLead_resolveValue fun _ _ => .pure _

/-- What is changed one by one fails in one of the changes. -/
theorem fails_untilFailure {ε : Type} {P : ε → Prop} {f : α → α × Except ε Unit} {as : List α}
    (h : ∀ a ∈ as, Fails P (f a).2) : Fails P (untilFailure f as).2 := by
  induction as with
  | nil => exact .ok ()
  | cons a as ih =>
      rw [List.forall_mem_cons] at h
      rw [untilFailure]
      split
      · rename_i b e heq
        exact .error (h.1 e (by rw [heq]))
      · exact ih h.2

theorem fails_resolveWith {R T ε : Type} {P : ε → Prop} {find : R → Except ε T} {b : Binding R T}
    (h : ∀ r, Fails P (find r)) : Fails P (b.resolveWith find).2 := by
  cases b with
  | resolved v => exact .ok v
  | pending r =>
      rw [Binding.resolveWith]
      split
      · exact .ok _
      · rename_i e heq
        exact .error (h r e heq)

theorem failsToLead_resolveComposite {type : String} {kind : TypeKind}
    {c : Composite BaseBinding InterfacesBinding TypeBinding} :
    FailsToLead w d (resolveComposite w d type kind c).2 := by
  have hbase : FailsToLead w d (c.base.resolveWith fun b =>
      b.mapM (resolveSupertype w d type kind)).2 :=
    fails_resolveWith fun _ => .optionMapM fun _ _ => failsToLead_resolveSupertype
  have hinterfaces : FailsToLead w d (c.interfaces.resolveWith fun is =>
      is.mapM (resolveSupertype w d type .interface)).2 :=
    fails_resolveWith fun _ => .mapM fun _ _ => failsToLead_resolveSupertype
  rw [resolveComposite]
  split
  · rename_i e heq
    exact .error (hbase e (by rw [heq]))
  · split
    · rename_i e heq
      exact .error (hinterfaces e (by rw [heq]))
    · exact fails_untilFailure fun p _ => .map (fails_resolveWith fun _ => failsToLead_resolveExpr)

theorem failsToLead_resolveType {t : DraftType} : FailsToLead w d (resolveType w d t).2 := by
  rw [resolveType]
  split
  · exact .ok ()
  · exact failsToLead_resolveComposite

theorem phase_of_resolvePath {owner : String} {path : TypePath} :
    Fails (fun e => e.phase = .resolution) (resolvePath w d owner path) := by
  have helim : ∀ {o : Option DataType} {e : CompileError}, e.phase = .resolution →
      Fails (fun e => e.phase = .resolution) (o.elim (.error e) .ok) := by
    rintro (_ | t) e he
    · exact .error he
    · exact .ok t
  rw [resolvePath]
  split
  · exact helim rfl
  · split
    · exact .error rfl
    · split
      · exact helim rfl
      · split
        · exact .error rfl
        · exact helim rfl

theorem Astray.phase {e : CompileError} (h : Astray w d e) : e.phase = .resolution := by
  rcases h with h | ⟨owner, path, h⟩
  · cases e <;> simp_all [Unfit, CompileError.phase]
  · exact phase_of_resolvePath e h

end Resolution

theorem Draft.failsToLead_resolve {w : Workspace} {d : Draft} :
    Resolution.FailsToLead w d (d.resolve w).2 :=
  Resolution.fails_untilFailure fun _ _ => Resolution.failsToLead_resolveType

theorem Draft.fails_resolve {w : Workspace} {d : Draft} :
    Fails (fun e => e.phase = .resolution) (d.resolve w).2 :=
  Draft.failsToLead_resolve.imp fun _ => Resolution.Astray.phase

/-! ### Hierarchies -/

namespace Scope

variable {s : Scope} {r : TypeRef} {t : LinkedType}

theorem fails_effectiveAlong {rs : List TypeRef} :
    Fails (fun e => e.phase = .resolution) (s.effectiveAlong rs) := by
  induction rs with
  | nil => exact .ok _
  | cons r bases ih =>
      rw [effectiveAlong]
      split
      · exact .ok _
      · refine .bind ih fun inherited _ => ?_
        dsimp only
        split
        · exact .error rfl
        · exact .pure _

theorem fails_keyLayout : Fails (fun e => e.phase = .resolution) (s.keyLayout r t) := by
  refine .bind (.mapM fun p _ => ?_) fun _ _ => .pure _
  rw [keyComponent]
  split
  · split
    · split
      · exact .ok _
      · exact .error rfl
    · exact .error rfl
  · exact .error rfl

theorem fails_derive {i : Nat} : Fails (fun e => e.phase = .resolution) (s.derive i t) := by
  rw [derive]
  split
  · exact .ok _
  · refine .bind fails_effectiveAlong fun effective _ => ?_
    dsimp only
    split
    · split
      · exact .bind fails_keyLayout fun _ _ => .pure _
      · exact .pure _
    · exact .pure _

end Scope

theorem Linked.fails_finish {w : Workspace} {u : Linked} :
    Fails (fun e => e.phase = .resolution) (u.finish w) := by
  rw [finish]
  split
  · exact .error rfl
  · exact .bind (.mapM fun _ _ => Scope.fails_derive) fun _ _ => .pure _

end SchemaGraph
