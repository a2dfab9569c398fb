import Mathlib
import SchemaGraph.Proofs.ErrorPhases

/-!
Suggestions for references that lead nowhere.

The best candidate is chosen by its score and then by the alphabet, which is a total order on scored
candidates. So the choice is a maximum, and does not depend on the order in which the candidates
are listed, nor on how often; the types of a draft may be listed in the order of a hash table.
-/

namespace SchemaGraph

namespace Similarity

/-! ### The better of two -/

/-- The best scored text so far, when one more is looked at. -/
def prefer (best : Option (Int × String)) (c : Int × String) : Option (Int × String) :=
  match best with
  | none => some c
  | some b => if better c b then some c else some b

/-- A scored text that is no better than another: it scores no higher, and with the same score it
comes no earlier in the alphabet. -/
def NoBetter (a b : Int × String) : Prop :=
  a.1 ≤ b.1 ∧ (a.1 = b.1 → b.2 ≤ a.2)

theorem better_eq_false {a b : Int × String} : better a b = false ↔ NoBetter a b := by
  rw [better, Bool.or_eq_false_iff, decide_eq_false_iff_not, not_lt, Bool.and_eq_false_imp,
    beq_iff_eq, decide_eq_false_iff_not, not_lt]
  rfl

namespace NoBetter

theorem refl (a : Int × String) : NoBetter a a :=
  ⟨le_rfl, fun _ => le_rfl⟩

theorem trans {a b c : Int × String} (hab : NoBetter a b) (hbc : NoBetter b c) : NoBetter a c := by
  refine ⟨hab.1.trans hbc.1, fun hac => ?_⟩
  have heq : a.1 = b.1 := le_antisymm hab.1 (hac ▸ hbc.1)
  exact (hbc.2 (heq ▸ hac)).trans (hab.2 heq)

theorem antisymm {a b : Int × String} (hab : NoBetter a b) (hba : NoBetter b a) : a = b := by
  have heq := le_antisymm hab.1 hba.1
  exact Prod.ext heq (le_antisymm (hba.2 heq.symm) (hab.2 heq))

theorem of_better {a b : Int × String} (h : better a b = true) : NoBetter b a := by
  simp only [better, Bool.or_eq_true, Bool.and_eq_true, decide_eq_true_eq, beq_iff_eq] at h
  rcases h with hlt | ⟨heq, hlt⟩
  · exact ⟨hlt.le, fun h => absurd h hlt.ne⟩
  · exact ⟨heq.ge, fun _ => hlt.le⟩

end NoBetter

theorem foldl_prefer (as : List (Int × String)) (b : Int × String) :
    ∃ r ∈ b :: as, as.foldl prefer (some b) = some r ∧ ∀ a ∈ b :: as, NoBetter a r := by
  induction as generalizing b with
  | nil => exact ⟨b, by simp, rfl, by simp [NoBetter.refl]⟩
  | cons a as ih =>
      rw [List.foldl_cons, prefer]
      split
      · rename_i hbetter
        obtain ⟨r, hr, hfold, hbest⟩ := ih a
        refine ⟨r, List.mem_cons_of_mem b hr, hfold, List.forall_mem_cons.2 ⟨?_, hbest⟩⟩
        exact (NoBetter.of_better hbetter).trans (hbest a List.mem_cons_self)
      · rename_i hbetter
        obtain ⟨r, hr, hfold, hbest⟩ := ih b
        rw [List.forall_mem_cons] at hbest
        refine ⟨r, ?_, hfold, ?_⟩
        · exact (List.mem_cons.1 hr).elim (fun h => by simp [h]) fun h => by simp [h]
        · have hab : NoBetter a b := better_eq_false.1 (Bool.eq_false_iff.2 hbetter)
          rw [List.forall_mem_cons, List.forall_mem_cons]
          exact ⟨hbest.1, hab.trans hbest.1, hbest.2⟩

/-- What is left at the end is the one scored text than which none is better. -/
theorem foldl_prefer_eq_some {as : List (Int × String)} {r : Int × String} :
    as.foldl prefer none = some r ↔ r ∈ as ∧ ∀ a ∈ as, NoBetter a r := by
  cases as with
  | nil => simp
  | cons b as =>
      obtain ⟨best, hbest, hfold, hall⟩ := foldl_prefer as b
      rw [List.foldl_cons, prefer, hfold, Option.some_inj]
      constructor
      · rintro rfl
        exact ⟨hbest, hall⟩
      · exact fun ⟨hr, hr'⟩ => (hr' best hbest).antisymm (hall r hr)

/-! ### The best candidate -/

/-- The candidates that have a score, with it. -/
def scored (score : String → Option Int) (candidates : List String) : List (Int × String) :=
  candidates.filterMap fun c => (score c).map fun s => (s, c)

/-- The candidate with the best score, by any measure. -/
def best? (score : String → Option Int) (candidates : List String) : Option String :=
  ((scored score candidates).foldl prefer none).map Prod.snd

/-- A candidate with the highest score, of several the alphabetically first. -/
def FirstOfBest (score : String → Option Int) (candidates : List String) (c : String) : Prop :=
  c ∈ candidates ∧ ∃ s, score c = some s ∧
    ∀ d ∈ candidates, ∀ t, score d = some t → t ≤ s ∧ (t = s → c ≤ d)

theorem suggestion?_eq_best? (name : String) : suggestion? name = best? (score? name) :=
  rfl

variable {score : String → Option Int} {candidates candidates' : List String}

theorem mem_scored {s : Int} {c : String} :
    (s, c) ∈ scored score candidates ↔ c ∈ candidates ∧ score c = some s := by
  simp only [scored, List.mem_filterMap, Option.map_eq_some_iff, Prod.mk.injEq]
  constructor
  · rintro ⟨_, hc, _, hs, rfl, rfl⟩
    exact ⟨hc, hs⟩
  · exact fun ⟨hc, hs⟩ => ⟨c, hc, s, hs, rfl, rfl⟩

theorem best?_eq_some {c : String} :
    best? score candidates = some c ↔ FirstOfBest score candidates c := by
  simp only [best?, Option.map_eq_some_iff, foldl_prefer_eq_some, Prod.exists, exists_eq_right,
    mem_scored, Prod.forall, FirstOfBest, NoBetter, and_imp]
  constructor
  · rintro ⟨s, ⟨hc, hs⟩, hbest⟩
    exact ⟨hc, s, hs, fun d hd t ht => hbest t d hd ht⟩
  · rintro ⟨hc, s, hs, hbest⟩
    exact ⟨s, ⟨hc, hs⟩, fun t d hd ht => hbest d hd t ht⟩

theorem best?_eq_none : best? score candidates = none ↔ ∀ c ∈ candidates, score c = none := by
  have hnil : best? score candidates = none ↔ scored score candidates = [] := by
    rw [best?, Option.map_eq_none_iff]
    cases h : scored score candidates with
    | nil => simp
    | cons a as =>
        obtain ⟨r, -, hfold, -⟩ := foldl_prefer as a
        simp [prefer, hfold]
  rw [hnil, scored, List.filterMap_eq_nil_iff]
  simp only [Option.map_eq_none_iff]

/-- Only which candidates there are counts. -/
theorem best?_congr (h : ∀ c, c ∈ candidates ↔ c ∈ candidates') :
    best? score candidates = best? score candidates' := by
  refine Option.ext fun c => ?_
  rw [best?_eq_some, best?_eq_some, FirstOfBest, FirstOfBest]
  simp only [h]

end Similarity

/-! ### References -/

namespace Resolution

open Similarity

/-- The refusal of a path, with a suggestion by any measure. -/
def unresolvedBy (score : String → String → Option Int) (d : Draft) (owner : String)
    (path : TypePath) (candidates : List String) : CompileError :=
  .unresolvedType d.source owner path.render (best? (score path.name) candidates)

/-- What a path leads to, with the candidates scored by any measure and the names of the draft
listed as in `own`. -/
def resolveListed (score : String → String → Option Int) (own : List String) (w : Workspace)
    (d : Draft) (owner : String) (path : TypePath) : Except CompileError DataType :=
  let refusal := unresolvedBy score d owner path (own ++ w.primitives.names)
  match path.qualifier with
  | none => (bareName? w d path.name).elim (.error refusal) .ok
  | some name =>
    match d.import? name with
    | none => .error (.unknownImportAlias d.source owner name)
    | some key =>
      if key = d.key then (typeNamed? d path.name).elim (.error refusal) .ok
      else
        match w.schemas[key]? with
        | none => .error (unresolvedBy score d owner path [])
        | some s =>
          (typeNamed? s.toSchemaOf path.name).elim
            (.error (unresolvedBy score d owner path s.typeNames)) .ok

variable {w : Workspace} {d : Draft}

theorem resolveListed_congr {score : String → String → Option Int} {own own' : List String}
    (h : ∀ name, name ∈ own ↔ name ∈ own') :
    resolveListed score own w d = resolveListed score own' w d := by
  funext owner path
  have hrefusal : unresolvedBy score d owner path (own ++ w.primitives.names) =
      unresolvedBy score d owner path (own' ++ w.primitives.names) := by
    have hmem : ∀ c, c ∈ own ++ w.primitives.names ↔ c ∈ own' ++ w.primitives.names := fun c => by
      rw [List.mem_append, List.mem_append, h]
    rw [unresolvedBy, unresolvedBy, best?_congr hmem]
  rw [resolveListed, hrefusal]
  rfl

/-- The work on a draft stops at an unresolved type because of one path. -/
theorem exists_unresolved {unit : SourceId} {owner reference : String} {suggestion : Option String}
    (h : (d.resolve w).2 = .error (.unresolvedType unit owner reference suggestion)) :
    ∃ site path, resolvePath w d site path =
      .error (.unresolvedType unit owner reference suggestion) :=
  (Draft.failsToLead_resolve _ h).resolve_left id

/-- The suggestion for a name is nothing if no candidate matches it, and else the alphabetically
first of the candidates with the highest score, however matches are scored. It is the same for all
lists of the same candidates. So what a reference comes to does not depend on the order in which
the types of its draft are listed, and the resolution of a draft that stops at an unresolved type
ends with one error for all orders. -/
theorem suggestions_ignore_order :
    (∀ score candidates,
      (best? score candidates = none ↔ ∀ c ∈ candidates, score c = none) ∧
      ∀ c, best? score candidates = some c ↔ FirstOfBest score candidates c) ∧
    (∀ score candidates candidates', (∀ c, c ∈ candidates ↔ c ∈ candidates') →
      best? score candidates = best? score candidates') ∧
    (∀ name, suggestion? name = best? (score? name)) ∧
    ∀ (w : Workspace) (d : Draft),
      (∀ score own, (∀ name, name ∈ own ↔ name ∈ d.typeNames) →
        resolveListed score own w d = resolveListed score d.typeNames w d) ∧
      resolvePath w d = resolveListed score? d.typeNames w d ∧
      ∀ unit owner reference suggestion,
        (d.resolve w).2 = .error (.unresolvedType unit owner reference suggestion) →
        ∃ site path, ∀ own, (∀ name, name ∈ own ↔ name ∈ d.typeNames) →
          resolveListed score? own w d site path =
            .error (.unresolvedType unit owner reference suggestion) := by
  refine ⟨fun _ _ => ⟨best?_eq_none, fun _ => best?_eq_some⟩, fun _ _ _ => best?_congr,
    suggestion?_eq_best?, fun w d => ⟨fun _ _ => resolveListed_congr, rfl, ?_⟩⟩
  intro unit owner reference suggestion h
  obtain ⟨site, path, hpath⟩ := exists_unresolved h
  refine ⟨site, path, fun own hown => ?_⟩
  rw [resolveListed_congr hown]
  exact hpath

/-- Two types that fit a misspelled reference equally well. -/
def petDeclaration : Declaration where
  name := some "Pets"
  types :=
    [.struct { name := some "Cat" }, .struct { name := some "Car" },
      .struct { name := some "Owner", properties := [
        { name := some "pet", typeText := some "Ca" }] }]

theorem suggestions_ignore_order_pets :
    ∃ d, Draft.ofDeclaration { primitives := [] } "a" petDeclaration = .ok d ∧
      (d.resolve { primitives := [] }).2 =
        .error (.unresolvedType "a" "Owner.pet" "Ca" (some "Car")) ∧
      ∃ site path, resolveListed score? ["Owner", "Car", "Cat"] { primitives := [] } d site path =
        .error (.unresolvedType "a" "Owner.pet" "Ca" (some "Car")) := by
  have hrun : (Draft.ofDeclaration { primitives := [] } "a" petDeclaration).map
      (fun d => (d.typeNames, (d.resolve { primitives := [] }).2)) =
        .ok (["Cat", "Car", "Owner"],
          .error (.unresolvedType "a" "Owner.pet" "Ca" (some "Car"))) := by cbv
  obtain ⟨d, hd, heq⟩ := map_eq_ok.1 hrun
  obtain ⟨hnames, herror⟩ := Prod.mk.inj heq
  obtain ⟨-, -, -, horder⟩ := suggestions_ignore_order
  obtain ⟨site, path, hsame⟩ := (horder { primitives := [] } d).2.2 _ _ _ _ herror
  refine ⟨d, hd, herror, site, path, hsame _ fun name => ?_⟩
  rw [hnames]
  simp only [List.mem_cons, List.not_mem_nil, or_false]
  tauto

end Resolution

end SchemaGraph
