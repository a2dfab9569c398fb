import SchemaGraph.Proofs.Registries
import SchemaGraph.Proofs.SoundHierarchies

/-!
Walks through hierarchies and imports that carry no bound. A walk that goes on until nothing is left
to visit ends only if its graph lets it, and what bounds the walks of finishing and emission are the
numbers of published types and schemas. Here the walks are runs without these numbers: a run is a
finite derivation, so that a walk that goes on forever has none. Every walk has a run, and only the
one whose result is what the bounded walk gives.

Bases and interfaces can be descended across schemas, since each leads to an earlier schema or
within one unit that has no cycle. Imports lead to smaller keys once those of the schema itself are
left out.
-/

namespace SchemaGraph

open Relation

/-! ### Visits -/

namespace DepthFirst

variable {α : Type}

/-- The nodes of the first list are visited in turn. A node that was seen is passed over; any other
is marked as seen, what it leads to is visited, and then it is left. The nodes left are the second
list, and the last list holds what is seen in the end. -/
inductive Visits (next : α → List α) : List α → List α → List α → List α → Prop
  | nil {seen : List α} : Visits next [] seen [] seen
  | passed {a : α} {as seen out seen' : List α} : a ∈ seen → Visits next as seen out seen' →
      Visits next (a :: as) seen out seen'
  | fresh {a : α} {as seen below seen' out seen'' : List α} : a ∉ seen →
      Visits next (next a) (a :: seen) below seen' → Visits next as seen' out seen'' →
      Visits next (a :: as) seen (below ++ a :: out) seen''

/-- What each type of a chain leads to is visited, from one type to the next as long as any
follows. -/
inductive Climbs (up? : α → Option α) (next : α → List α) :
    α → List α → List α → List α → Prop
  | last {a : α} {seen out seen' : List α} : up? a = none → Visits next (next a) seen out seen' →
      Climbs up? next a seen out seen'
  | step {a b : α} {seen below seen' out seen'' : List α} : up? a = some b →
      Visits next (next a) seen below seen' → Climbs up? next b seen' out seen'' →
      Climbs up? next a seen (below ++ out) seen''

section Runs

variable {up? : α → Option α} {next : α → List α} {a : α}
  {as bs seen out out' seen' seen'' : List α}

theorem Visits.unique (h : Visits next as seen out seen') (h' : Visits next as seen out' seen'') :
    out = out' ∧ seen' = seen'' := by
  induction h generalizing out' seen'' with
  | nil =>
      cases h'
      exact ⟨rfl, rfl⟩
  | passed ha _ ih =>
      cases h' with
      | passed _ h' => exact ih h'
      | fresh ha' _ _ => exact absurd ha ha'
  | fresh ha _ _ ihBelow ih =>
      cases h' with
      | passed ha' _ => exact absurd ha' ha
      | fresh _ hbelow h' =>
          obtain ⟨rfl, rfl⟩ := ihBelow hbelow
          obtain ⟨rfl, rfl⟩ := ih h'
          exact ⟨rfl, rfl⟩

theorem visits_append : Visits next (as ++ bs) seen out seen' ↔
    ∃ first middle second, Visits next as seen first middle ∧ Visits next bs middle second seen' ∧
      out = first ++ second := by
  constructor
  · intro h
    induction as generalizing seen out with
    | nil => exact ⟨[], seen, out, .nil, h, rfl⟩
    | cons a as ih =>
        cases h with
        | passed ha h =>
            obtain ⟨first, middle, second, hfirst, hsecond, rfl⟩ := ih h
            exact ⟨first, middle, second, .passed ha hfirst, hsecond, rfl⟩
        | @fresh _ _ _ below _ _ _ ha hbelow h =>
            obtain ⟨first, middle, second, hfirst, hsecond, rfl⟩ := ih h
            exact ⟨below ++ a :: first, middle, second, .fresh ha hbelow hfirst, hsecond, by simp⟩
  · rintro ⟨first, middle, second, hfirst, hsecond, rfl⟩
    induction hfirst with
    | nil => exact hsecond
    | passed ha _ ih => exact .passed ha (ih hsecond)
    | fresh ha hbelow _ _ ih =>
        rw [List.append_assoc]
        exact .fresh ha hbelow (ih hsecond)

/-- To climb a chain is to visit what its types lead to. -/
theorem climbs_iff (h : Lineage up? a as) :
    Climbs up? next a seen out seen' ↔ Visits next (as.flatMap next) seen out seen' := by
  induction h generalizing seen out with
  | @last a hnone =>
      rw [List.flatMap_singleton]
      refine ⟨fun h => ?_, .last hnone⟩
      cases h with
      | last _ h => exact h
      | step hsome _ _ => simp [hnone] at hsome
  | @step a b bs hsome _ ih =>
      rw [List.flatMap_cons, visits_append]
      constructor
      · intro h
        cases h with
        | last hnone _ => simp [hsome] at hnone
        | step hsome' hbelow h =>
            obtain rfl := Option.some.inj (hsome.symm.trans hsome')
            exact ⟨_, _, _, hbelow, ih.1 h, rfl⟩
      · rintro ⟨below, middle, out, hbelow, h, rfl⟩
        exact .step hsome hbelow (ih.2 h)

end Runs

variable [DecidableEq α] {next : α → List α} {nodes : List α}

/-- Nodes that lead only to nodes can be visited, whatever is seen already, and the bounded walk
tells what is left. -/
theorem visits_walk (hnodes : ∀ a ∈ nodes, ∀ b ∈ next a, b ∈ nodes) :
    ∀ as seen : List α, (∀ a ∈ as, a ∈ nodes) →
      Visits next as seen (left (walk next nodes (as.map .visit) seen))
        ((entered (walk next nodes (as.map .visit) seen)).reverse ++ seen)
  | [], seen, _ => by simpa using Visits.nil
  | a :: as, seen, hmem => by
    have ha := hmem a (by simp)
    have has : ∀ b ∈ as, b ∈ nodes := fun b hb => hmem b (List.mem_cons_of_mem _ hb)
    rw [List.map_cons]
    by_cases hseen : a ∈ seen
    -- Each node that is entered leaves fewer to enter, and a node passed over shortens the list.
    · rw [walk_passed fun h => h.2 hseen]
      exact .passed hseen (visits_walk hnodes as seen has)
    · have hbelow := visits_walk hnodes (next a) (a :: seen) (hnodes a ha)
      have hrest := visits_walk hnodes as
        ((entered (walk next nodes ((next a).map .visit) (a :: seen))).reverse ++ a :: seen) has
      have h := Visits.fresh hseen hbelow hrest
      rw [walk_fresh ⟨ha, hseen⟩, walk_append, walk_leave, left_enter, left_append, left_leave,
        entered_enter]
      simpa [entered] using h
termination_by as seen => (unseen nodes seen, as.length)
decreasing_by
  · exact Prod.Lex.right _ (by simp)
  · exact Prod.Lex.left _ _ (unseen_cons_lt ⟨ha, hseen⟩)
  · exact Prod.Lex.left _ _ (unseen_append_cons_lt ⟨ha, hseen⟩ _)

theorem visits_iff (hnodes : ∀ a ∈ nodes, ∀ b ∈ next a, b ∈ nodes) {as seen out seen' : List α}
    (has : ∀ a ∈ as, a ∈ nodes) :
    Visits next as seen out seen' ↔ out = left (walk next nodes (as.map .visit) seen) ∧
      seen' = (entered (walk next nodes (as.map .visit) seen)).reverse ++ seen := by
  have hwalk := visits_walk hnodes as seen has
  refine ⟨fun h => h.unique hwalk, ?_⟩
  rintro ⟨rfl, rfl⟩
  exact hwalk

/-- A walk depends on which nodes were seen, not on their order. -/
theorem walk_congr_seen {ts : List (Task α)} {seen seen' : List α}
    (h : ∀ a, a ∈ seen ↔ a ∈ seen') : walk next nodes ts seen = walk next nodes ts seen' := by
  induction ts, seen using walk.induct next nodes generalizing seen' with
  | case1 seen => simp
  | case2 a ts seen ih => simp [ih h]
  | case3 a ts seen hfresh ih =>
      have hmarked : ∀ b, b ∈ a :: seen ↔ b ∈ a :: seen' := fun b => by simp [h]
      rw [walk_fresh hfresh, walk_fresh (by rwa [← h]), ih hmarked]
  | case4 a ts seen hpassed ih =>
      rw [walk_passed hpassed, walk_passed (by rwa [← h]), ih h]

end DepthFirst

/-! ### Climbing hierarchies -/

/-- The interfaces along the bases of a type can be visited, whatever is seen already. -/
theorem TypeLookup.Grounded.climbs_iff {look : TypeLookup} {refs : List TypeRef}
    (h : look.Grounded refs) (hwf : WellFounded fun b a => look.base? a = some b) {r : TypeRef}
    (hr : r ∈ refs) {seen out seen' : List TypeRef} :
    DepthFirst.Climbs look.base? look.interfacesOf r seen out seen' ↔
      let walk := DepthFirst.walk look.interfacesOf refs
        (((chain look.base? refs.length r).flatMap look.interfacesOf).map .visit) seen
      out = DepthFirst.left walk ∧ seen' = (DepthFirst.entered walk).reverse ++ seen := by
  rw [DepthFirst.climbs_iff (h.lineage hwf hr)]
  refine DepthFirst.visits_iff (fun a _ b hb => h.interfaces hb) fun i hi => ?_
  obtain ⟨a, -, hi⟩ := List.mem_flatMap.1 hi
  exact h.interfaces hi

/-! ### Flattening -/

namespace Scope

/-- The lists that have been gathered so far, by their types. -/
abbrev Memo := TypeRef → Option (List PropertyRef)

/-- Keeps a list that was gathered; a refusal is not kept. -/
def Memo.keep (memo : Memo) (r : TypeRef) : Except CompileError (List PropertyRef) → Memo
  | .ok ps => Function.update memo r (some ps)
  | .error _ => memo

variable (s : Scope)

/-- What flattening a type of the unit ends with once the list of its base and its new interfaces
are known: the whole list, or the refusal of a name that comes twice. -/
def joined (r : TypeRef) (inherited : List PropertyRef) (new : List TypeRef) :
    Except CompileError (List PropertyRef) :=
  let all := inherited ++ new.flatMap s.ownProperties ++ s.ownProperties r
  match s.collision? all with
  | some property =>
    .error (.propertyCollision s.unit.source (TypeLookup.typeName s.type? r) property)
  | none => .ok all

/-- Flattening a type, with what it ends with and what is kept afterwards. A list that was kept or
published is taken as it is. For any other type the base is flattened first; the chain of bases is
climbed to pass over what they bring in, and then the interfaces of the type are visited. -/
inductive Gathers : Memo → TypeRef → Except CompileError (List PropertyRef) → Memo → Prop
  | kept {memo r ps} : memo r = some ps → Gathers memo r (.ok ps) memo
  | published {memo r} : memo r = none → r.schema ≠ s.unit.key →
      Gathers memo r (.ok (s.workspace.derivedOf r).effective) memo
  | enum {memo r} : memo r = none → r.schema = s.unit.key →
      TypeLookup.composite? s.type? r = none → Gathers memo r (.ok []) memo
  | root {memo r c new seen} : memo r = none → r.schema = s.unit.key →
      TypeLookup.composite? s.type? r = some c → s.base? r = none →
      DepthFirst.Visits s.interfacesOf (s.interfacesOf r) [] new seen →
      Gathers memo r (s.joined r [] new) (memo.keep r (s.joined r [] new))
  | refused {memo r b e memo'} : memo r = none → r.schema = s.unit.key → s.base? r = some b →
      Gathers memo b (.error e) memo' → Gathers memo r (.error e) memo'
  | derived {memo r b inherited memo' passed seen new seen'} : memo r = none →
      r.schema = s.unit.key → s.base? r = some b → Gathers memo b (.ok inherited) memo' →
      DepthFirst.Climbs s.base? s.interfacesOf b [] passed seen →
      DepthFirst.Visits s.interfacesOf (s.interfacesOf r) seen new seen' →
      Gathers memo r (s.joined r inherited new) (memo'.keep r (s.joined r inherited new))

/-- Whatever is kept is what flattening the type ends with. -/
def Remembers (memo : Memo) : Prop :=
  ∀ r ps, memo r = some ps → s.effective r = .ok ps

variable {s : Scope} {memo memo' left : Memo} {r b : TypeRef}
  {result : Except CompileError (List PropertyRef)}

theorem Remembers.keep (h : s.Remembers memo) (hr : s.effective r = result) :
    s.Remembers (memo.keep r result) := by
  cases result with
  | error e => exact h
  | ok ps =>
      intro x qs hx
      rw [Memo.keep, Function.update_apply] at hx
      split at hx
      · rename_i heq
        rw [heq, hr, Option.some.inj hx]
      · exact h x qs hx

theorem gathers_kept {ps : List PropertyRef} (h : memo r = some ps) :
    s.Gathers memo r result left ↔ result = .ok ps ∧ left = memo := by
  constructor
  · intro hrun
    cases hrun <;> simp_all
  · rintro ⟨rfl, rfl⟩
    exact .kept h

section Fresh

variable (hfresh : memo r = none)

include hfresh

theorem gathers_published (hr : r.schema ≠ s.unit.key) :
    s.Gathers memo r result left ↔
      result = .ok (s.workspace.derivedOf r).effective ∧ left = memo := by
  constructor
  · intro hrun
    cases hrun <;> simp_all
  · rintro ⟨rfl, rfl⟩
    exact .published hfresh hr

variable (hr : r.schema = s.unit.key)

include hr

theorem gathers_enum (hnone : TypeLookup.composite? s.type? r = none) :
    s.Gathers memo r result left ↔ result = .ok [] ∧ left = memo := by
  have hbase : s.base? r = none := TypeLookup.base?_eq_none hnone
  constructor
  · intro hrun
    cases hrun <;> simp_all
  · rintro ⟨rfl, rfl⟩
    exact .enum hfresh hr hnone

theorem gathers_root {c : LinkedComposite} (hsome : TypeLookup.composite? s.type? r = some c)
    (hbase : s.base? r = none) :
    s.Gathers memo r result left ↔
      ∃ new seen, DepthFirst.Visits s.interfacesOf (s.interfacesOf r) [] new seen ∧
        result = s.joined r [] new ∧ left = memo.keep r result := by
  constructor
  · intro hrun
    cases hrun with
    | root _ _ _ _ hvisits => exact ⟨_, _, hvisits, rfl, rfl⟩
    | _ => simp_all
  · rintro ⟨new, seen, hvisits, rfl, rfl⟩
    exact .root hfresh hr hsome hbase hvisits

/-- Above a base, flattening ends as it does for the base, or goes on with what it ends with. -/
theorem gathers_derived (hbase : s.base? r = some b) :
    s.Gathers memo r result left ↔ ∃ below memo', s.Gathers memo b below memo' ∧
      ((∃ e, below = .error e ∧ result = .error e ∧ left = memo') ∨
        ∃ inherited passed seen new seen', below = .ok inherited ∧
          DepthFirst.Climbs s.base? s.interfacesOf b [] passed seen ∧
          DepthFirst.Visits s.interfacesOf (s.interfacesOf r) seen new seen' ∧
          result = s.joined r inherited new ∧ left = memo'.keep r result) := by
  constructor
  · intro hrun
    cases hrun with
    | refused _ _ hbase' hrun =>
        obtain rfl := Option.some.inj (hbase.symm.trans hbase')
        exact ⟨_, _, hrun, .inl ⟨_, rfl, rfl, rfl⟩⟩
    | derived _ _ hbase' hrun hclimbs hvisits =>
        obtain rfl := Option.some.inj (hbase.symm.trans hbase')
        exact ⟨_, _, hrun, .inr ⟨_, _, _, _, _, rfl, hclimbs, hvisits, rfl, rfl⟩⟩
    | enum _ _ hnone =>
        simp [base?, TypeLookup.base?, hnone] at hbase
    | _ => simp_all
  · rintro ⟨below, memo', hrun, ⟨e, rfl, rfl, rfl⟩ |
      ⟨inherited, passed, seen, new, seen', rfl, hclimbs, hvisits, rfl, rfl⟩⟩
    · exact .refused hfresh hr hbase hrun
    · exact .derived hfresh hr hbase hrun hclimbs hvisits

end Fresh

/-! ### Runs of flattening -/

theorem effectiveAlong_own (hr : r.schema = s.unit.key) (bases : List TypeRef) :
    s.effectiveAlong (r :: bases) =
      s.effectiveAlong bases >>= fun inherited =>
        s.joined r inherited (s.newInterfaces r bases) := by
  rw [effectiveAlong, if_neg (not_not.2 hr)]
  rfl

namespace Shows

variable {v : Workspace} (hs : s.Shows v) (hv : v.Navigable)

include hs hv

theorem grounded : TypeLookup.Grounded s.type? s.refs := by
  rw [hs.type?_eq, hs.refs_eq]
  exact hv.grounded

theorem wellFounded_base : WellFounded fun b a => s.base? a = some b := by
  rw [base?, hs.type?_eq]
  exact hv.descends.wellFounded_base

theorem lineage_of_mem (hr : r ∈ s.refs) : Lineage s.base? r (s.lineage r) :=
  (hs.grounded hv).lineage (hs.wellFounded_base hv) hr

theorem climbs_iff (hr : r ∈ s.refs) {seen out seen' : List TypeRef} :
    DepthFirst.Climbs s.base? s.interfacesOf r seen out seen' ↔
      let walk := DepthFirst.walk s.interfacesOf s.refs
        (((s.lineage r).flatMap s.interfacesOf).map .visit) seen
      out = DepthFirst.left walk ∧ seen' = (DepthFirst.entered walk).reverse ++ seen :=
  (hs.grounded hv).climbs_iff (hs.wellFounded_base hv) hr

/-- The interfaces of a type that are new to its bases are left by a visit that has seen what the
bases bring in. -/
theorem visits_iff {bases seen new seen' : List TypeRef}
    (hseen : ∀ x, x ∈ seen ↔ x ∈ s.interfacesReached bases) :
    DepthFirst.Visits s.interfacesOf (s.interfacesOf r) seen new seen' ↔
      new = s.newInterfaces r bases ∧
        seen' = (DepthFirst.entered (DepthFirst.walk s.interfacesOf s.refs
          ((s.interfacesOf r).map .visit) seen)).reverse ++ seen := by
  rw [DepthFirst.visits_iff (fun a _ => hs.closed hv a) (hs.closed hv r), newInterfaces,
    DepthFirst.postorder, DepthFirst.walk_congr_seen hseen]

theorem effective_of_base (hr : r ∈ s.refs) (hown : r.schema = s.unit.key)
    (hbase : s.base? r = some b) :
    s.effective r = s.effective b >>= fun inherited =>
      s.joined r inherited (s.newInterfaces r (s.lineage b)) := by
  have hb : b ∈ s.refs := (hs.grounded hv).base hbase
  have hlineage : s.lineage r = r :: s.lineage b :=
    (hs.lineage_of_mem hv hr).unique (.step hbase (hs.lineage_of_mem hv hb))
  rw [effective, hlineage, effectiveAlong_own hown]
  rfl

theorem effective_of_root (hr : r ∈ s.refs) (hown : r.schema = s.unit.key)
    (hbase : s.base? r = none) : s.effective r = s.joined r [] (s.newInterfaces r []) := by
  have hlineage : s.lineage r = [r] := (hs.lineage_of_mem hv hr).unique (.last hbase)
  rw [effective, hlineage, effectiveAlong_own hown]
  rfl

theorem effective_of_published (hr : r ∈ s.refs) (hkey : r.schema ≠ s.unit.key) :
    s.effective r = .ok (s.workspace.derivedOf r).effective := by
  obtain ⟨bases, hlineage⟩ := (hs.lineage_of_mem hv hr).eq_cons
  rw [effective, hlineage, effectiveAlong_of_published hkey]

theorem effective_of_enum (hr : r ∈ s.refs) (hown : r.schema = s.unit.key)
    (hnone : TypeLookup.composite? s.type? r = none) : s.effective r = .ok [] := by
  have hbase : s.base? r = none := TypeLookup.base?_eq_none hnone
  have hinterfaces : s.interfacesOf r = [] := TypeLookup.interfacesOf_eq_nil hnone
  have hproperties : s.ownProperties r = [] := by
    rw [ownProperties, TypeLookup.ownProperties, TypeLookup.properties_eq_nil hnone]
    rfl
  rw [hs.effective_of_root hv hr hown hbase, newInterfaces, hinterfaces]
  simp [joined, hproperties, DepthFirst.postorder, collision?, repeated?]

section Fresh

variable (hr : r ∈ s.refs) (hfresh : memo r = none) (hown : r.schema = s.unit.key)

include hr hfresh hown

theorem gathers_root_iff {c : LinkedComposite} (hsome : TypeLookup.composite? s.type? r = some c)
    (hbase : s.base? r = none) :
    s.Gathers memo r result left ↔
      result = s.effective r ∧ left = memo.keep r (s.effective r) := by
  have hseen : ∀ x, x ∈ ([] : List TypeRef) ↔ x ∈ s.interfacesReached [] := fun x => by
    simp [interfacesReached, DepthFirst.reached]
  rw [gathers_root hfresh hown hsome hbase, hs.effective_of_root hv hr hown hbase]
  simp only [hs.visits_iff hv hseen]
  constructor
  · rintro ⟨_, _, ⟨rfl, -⟩, rfl, rfl⟩
    exact ⟨rfl, rfl⟩
  · rintro ⟨rfl, rfl⟩
    exact ⟨_, _, ⟨rfl, rfl⟩, rfl, rfl⟩

/-- Flattening goes on from a base that it came to an end for. -/
theorem gathers_derived_iff (hbase : s.base? r = some b)
    (hbelow : ∀ below middle, s.Gathers memo b below middle ↔
      below = s.effective b ∧ middle = memo') :
    s.Gathers memo r result left ↔
      result = s.effective r ∧ left = memo'.keep r (s.effective r) := by
  have hb : b ∈ s.refs := (hs.grounded hv).base hbase
  have hseen : ∀ x, x ∈ (DepthFirst.entered (DepthFirst.walk s.interfacesOf s.refs
      (((s.lineage b).flatMap s.interfacesOf).map .visit) [])).reverse ++ [] ↔
      x ∈ s.interfacesReached (s.lineage b) := fun x => by
    simp [interfacesReached, DepthFirst.reached]
  rw [gathers_derived hfresh hown hbase, hs.effective_of_base hv hr hown hbase]
  -- What the climb marks is what the bases bring in, though in another order.
  constructor
  · rintro ⟨below, middle, hrun, hcases⟩
    obtain ⟨rfl, rfl⟩ := (hbelow _ _).1 hrun
    rcases hcases with ⟨e, he, rfl, rfl⟩ |
      ⟨inherited, passed, seen, new, seen', hinherited, hclimbs, hvisits, rfl, rfl⟩
    · rw [he]
      exact ⟨rfl, rfl⟩
    · obtain ⟨-, rfl⟩ := (hs.climbs_iff hv hb).1 hclimbs
      obtain ⟨rfl, -⟩ := (hs.visits_iff hv hseen).1 hvisits
      rw [hinherited]
      exact ⟨rfl, rfl⟩
  · rintro ⟨rfl, rfl⟩
    refine ⟨_, _, (hbelow _ _).2 ⟨rfl, rfl⟩, ?_⟩
    cases heffective : s.effective b with
    | error e => exact .inl ⟨e, rfl, rfl, rfl⟩
    | ok inherited =>
        exact .inr ⟨inherited, _, _, _, _, rfl, (hs.climbs_iff hv hb).2 ⟨rfl, rfl⟩,
          (hs.visits_iff hv hseen).2 ⟨rfl, rfl⟩, rfl, rfl⟩

end Fresh

/-- Whatever is kept, flattening a type comes to an end, and there is one end to come to: the list
that the bounded walk gathers, or the same refusal. -/
theorem exists_gathers_iff (hr : r ∈ s.refs) (hmemo : s.Remembers memo) :
    ∃ memo', s.Remembers memo' ∧
      ∀ result left, s.Gathers memo r result left ↔ result = s.effective r ∧ left = memo' := by
  -- Only the call for the base recurses, and bases can be descended across schemas.
  induction r using (hs.wellFounded_base hv).induction with
  | _ r ih =>
      cases hfresh : memo r with
      | some ps =>
          refine ⟨memo, hmemo, fun result left => ?_⟩
          rw [gathers_kept hfresh, hmemo r ps hfresh]
      | none =>
          by_cases hown : r.schema = s.unit.key
          · cases hcomposite : TypeLookup.composite? s.type? r with
            | none =>
                refine ⟨memo, hmemo, fun result left => ?_⟩
                rw [gathers_enum hfresh hown hcomposite,
                  hs.effective_of_enum hv hr hown hcomposite]
            | some c =>
                cases hbase : s.base? r with
                | none =>
                    exact ⟨memo.keep r (s.effective r), hmemo.keep rfl, fun result left =>
                      hs.gathers_root_iff hv hr hfresh hown hcomposite hbase⟩
                | some b =>
                    obtain ⟨memo', hmemo', hbelow⟩ := ih b hbase ((hs.grounded hv).base hbase)
                    exact ⟨memo'.keep r (s.effective r), hmemo'.keep rfl, fun result left =>
                      hs.gathers_derived_iff hv hr hfresh hown hbase hbelow⟩
          · refine ⟨memo, hmemo, fun result left => ?_⟩
            rw [gathers_published hfresh hown, hs.effective_of_published hv hr hown]

theorem getLast?_lineage (hr : r ∈ s.refs) : (s.lineage r).getLast? = some (s.root r) := by
  obtain ⟨bases, hlineage⟩ := (hs.lineage_of_mem hv hr).eq_cons
  rw [root, hlineage, List.getLast?_cons, Option.getD_some]

end Shows

end Scope

/-! ### Searching through imports -/

namespace RustSource

/-- The schemas with the given keys are searched in turn, each together with all that it imports,
until an entity that is not abstract is found. No schema is marked as searched. -/
inductive Searches (w : Workspace) : List SchemaKey → Bool → Prop
  | done : Searches w [] false
  | own {key keys s} : w.schemas[key]? = some s → s.types.any isConcreteEntity = true →
      Searches w (key :: keys) true
  | imported {key keys s} : w.schemas[key]? = some s → s.types.any isConcreteEntity = false →
      Searches w (importKeys w key) true → Searches w (key :: keys) true
  | next {key keys s found} : w.schemas[key]? = some s → s.types.any isConcreteEntity = false →
      Searches w (importKeys w key) false → Searches w keys found → Searches w (key :: keys) found

variable {w : Workspace} {key : SchemaKey} {keys : List SchemaKey} {found : Bool}

theorem exists_searches_of_forall (hkeys : ∀ key ∈ keys, (∃ s, w.schemas[key]? = some s) ∧
    ∃ found, Searches w (importKeys w key) found) : ∃ found, Searches w keys found := by
  induction keys with
  | nil => exact ⟨false, .done⟩
  | cons key keys ih =>
      obtain ⟨⟨s, hs⟩, found, hbelow⟩ := hkeys key (by simp)
      obtain ⟨rest, hrest⟩ := ih fun k hk => hkeys k (List.mem_cons_of_mem _ hk)
      cases hown : s.types.any isConcreteEntity with
      | true => exact ⟨true, .own hs hown⟩
      | false =>
          cases found with
          | true => exact ⟨true, .imported hs hown hbelow⟩
          | false => exact ⟨rest, .next hs hown hbelow hrest⟩

section Reached

variable (h : Reached w)

include h

theorem importKeys_lt {k : SchemaKey} (hk : k ∈ importKeys w key) : k < key := by
  have himports : w.Imports key k := leads_importKeys w ▸ hk
  exact himports.lt h.indexed h.compiledFrom

theorem hasRegistry_eq {s : Schema} (hs : w.schemas[key]? = some s) :
    hasRegistry w key =
      (s.types.any isConcreteEntity || (importKeys w key).any (hasRegistry w)) := by
  have hkey : key < w.schemas.length := (List.getElem?_eq_some_iff.1 hs).1
  rw [Bool.eq_iff_iff, Bool.or_eq_true, ← Schema.declaresEntity_iff, List.any_eq_true,
    h.hasRegistry_iff hkey, Workspace.reachesEntity_head_iff]
  refine or_congr ⟨?_, fun hentity => ⟨s, hs, hentity⟩⟩ (exists_congr fun k => ?_)
  · rintro ⟨t, ht, hentity⟩
    obtain rfl := Option.some.inj (hs.symm.trans ht)
    exact hentity
  · rw [← leads_importKeys]
    exact and_congr_right fun hk => (h.hasRegistry_iff ((importKeys_lt h hk).trans hkey)).symm

theorem Searches.found_eq (hrun : Searches w keys found) : found = keys.any (hasRegistry w) := by
  induction hrun with
  | done => rfl
  | own hs hown => simp [hasRegistry_eq h hs, hown]
  | imported hs hown _ ih => simp [hasRegistry_eq h hs, ← ih]
  | next hs hown _ _ ihBelow ih => simp [hasRegistry_eq h hs, hown, ← ihBelow, ih]

/-- What a schema imports can be searched: without the schema itself, all of it has smaller keys. -/
theorem exists_searches (key : SchemaKey) (hkey : key < w.schemas.length) :
    ∃ found, Searches w (importKeys w key) found := by
  -- Nothing is marked, so that it is the keys that have to get smaller.
  induction key using Nat.strong_induction_on with
  | _ key ih =>
      refine exists_searches_of_forall fun k hk => ?_
      have hlt := importKeys_lt h hk
      have hk := hlt.trans hkey
      exact ⟨⟨_, List.getElem?_eq_getElem hk⟩, ih k hlt hk⟩

theorem searches_iff (hkeys : ∀ key ∈ keys, key < w.schemas.length) :
    Searches w keys found ↔ found = keys.any (hasRegistry w) := by
  obtain ⟨last, hrun⟩ := exists_searches_of_forall fun k hk =>
    ⟨⟨_, List.getElem?_eq_getElem (hkeys k hk)⟩, exists_searches h k (hkeys k hk)⟩
  refine ⟨fun hfound => hfound.found_eq h, ?_⟩
  rintro rfl
  rwa [← hrun.found_eq h]

end Reached

end RustSource

/-! ### Walks come to an end -/

/-- Walks through hierarchies and imports come to an end without a bound, and each can end only as
the bounded walk does. While a unit without a cycle is finished, this holds of going from a type to
its bases, of visiting the interfaces along them, and of flattening, whatever earlier flattening has
kept; bases and interfaces may be published ones. Once types are published, it holds of visiting the
interfaces that a type implements, and of the search for an entity through imports, also for a
schema that imports itself. -/
theorem hierarchy_walks_end {w : Workspace} (h : Reached w) :
    (∀ s : Scope, s.workspace = w → s.unit.DraftedIn w → s.hierarchyCycle? = none →
      ∀ r ∈ s.refs,
        (∀ rs, Lineage s.base? r rs ↔ rs = s.lineage r) ∧
        (s.lineage r).getLast? = some (s.root r) ∧
        (∀ seen, ∃ out seen', DepthFirst.Climbs s.base? s.interfacesOf r seen out seen') ∧
        ∀ memo, s.Remembers memo → ∃ memo', s.Remembers memo' ∧
          ∀ result left, s.Gathers memo r result left ↔ result = s.effective r ∧ left = memo') ∧
    (∀ t : Schema, ∀ r ∈ w.refs, ∀ out,
      (∃ seen, DepthFirst.Climbs w.base? w.interfacesOf r [] out seen) ↔
        out = RustSource.implementedInterfaces ⟨w, t⟩ r) ∧
    ∀ key < w.schemas.length, ∀ found,
      RustSource.Searches w [key] found ↔ found = RustSource.hasRegistry w key := by
  obtain ⟨hlayered, hflat⟩ := h.layered_flattened
  refine ⟨?_, fun t r hr out => ?_, fun key hkey found => ?_⟩
  · rintro ⟨_, u⟩ rfl hu hcycle r hr
    obtain ⟨v, hs, hv, -⟩ := hu.exists_shows hlayered hflat hcycle
    have hlineage := hs.lineage_of_mem hv hr
    refine ⟨fun rs => ⟨fun hrs => hrs.unique hlineage, ?_⟩, hs.getLast?_lineage hv hr,
      fun seen => ⟨_, _, (hs.climbs_iff hv hr).2 ⟨rfl, rfl⟩⟩,
      fun memo hmemo => hs.exists_gathers_iff hv hr hmemo⟩
    rintro rfl
    exact hlineage
  · have hclimbs := @TypeLookup.Grounded.climbs_iff _ _ hlayered.navigable.grounded
      hlayered.descends.wellFounded_base r hr []
    refine ⟨fun ⟨seen, hrun⟩ => (hclimbs.1 hrun).1, ?_⟩
    rintro rfl
    exact ⟨_, hclimbs.2 ⟨rfl, rfl⟩⟩
  · rw [RustSource.searches_iff h (by simpa using hkey), List.any_cons, List.any_nil,
      Bool.or_false]

/-- A schema that imports itself, with a struct whose interface extends another one. -/
def ladderSources : SourceTable :=
  [("a", { name := some "A", imports := [{ source := "a", localName := some "Me" }], types := [
      .interface { name := some "I", properties := [{ name := some "x", typeText := some "int" }] },
      .interface { name := some "J", parents := ["Me.I"] },
      .struct { name := some "S", interfaces := ["J"], properties := [
        { name := some "y", typeText := some "int" }] }] })]

def ladderWorkspace : Workspace :=
  (({ primitives := [.builtin "int" .int32] } : Workspace).load ladderSources.reader
    ["a"]).workspace

/-- A struct above one that is above the struct of the published schema. -/
def ladderDeclaration : Declaration where
  name := some "D"
  imports := [{ source := "a" }]
  types := [
    .struct { name := some "T", base := some "A.S", interfaces := ["A.I"] },
    .struct { name := some "U", base := some "T", interfaces := ["A.J"], properties := [
      { name := some "z", typeText := some "int" }] }]

theorem ladder_drafted : ∃ u : Linked, u.DraftedIn ladderWorkspace ∧
    (Scope.mk ladderWorkspace u).hierarchyCycle? = none ∧
    ⟨1, 1⟩ ∈ (Scope.mk ladderWorkspace u).refs ∧
    (Scope.mk ladderWorkspace u).lineage ⟨1, 1⟩ = [⟨1, 1⟩, ⟨1, 0⟩, ⟨0, 2⟩] ∧
    (Scope.mk ladderWorkspace u).effective ⟨1, 1⟩ =
      .ok [⟨⟨0, 0⟩, 0⟩, ⟨⟨0, 2⟩, 0⟩, ⟨⟨1, 1⟩, 0⟩] := by
  have hrun : (Draft.ofDeclaration ladderWorkspace "d" ladderDeclaration).toOption.map
      (fun d => ((d.resolve ladderWorkspace).2.toOption,
        (d.resolve ladderWorkspace).1.link.toOption.map fun u =>
          let s : Scope := ⟨ladderWorkspace, u⟩
          (s.hierarchyCycle?, decide (⟨1, 1⟩ ∈ s.refs), s.lineage ⟨1, 1⟩, s.effective ⟨1, 1⟩))) =
      some (some (), some (none, true, [⟨1, 1⟩, ⟨1, 0⟩, ⟨0, 2⟩],
        .ok [⟨⟨0, 0⟩, 0⟩, ⟨⟨0, 2⟩, 0⟩, ⟨⟨1, 1⟩, 0⟩])) := by cbv
  obtain ⟨d, hd, hrun⟩ := Option.map_eq_some_iff.1 hrun
  obtain ⟨hresolve, hrun⟩ := Prod.mk.inj hrun
  obtain ⟨u, hlink, hrun⟩ := Option.map_eq_some_iff.1 hrun
  rw [toOption_eq_some] at hd hresolve hlink
  obtain ⟨-, u', hlink', hu⟩ := Draft.resolve_ok (Prod.ext rfl hresolve)
  obtain rfl := Except.ok.inj (hlink.symm.trans hlink')
  simp only [Prod.mk.injEq, decide_eq_true_eq] at hrun
  exact ⟨u, ⟨"d", ladderDeclaration, d, hd, hu⟩, hrun⟩

/-- The bases of the second struct lead into the published schema, which flattening takes as it is;
the search for an entity passes over the import of the schema itself. -/
theorem hierarchy_walks_end_crossing :
    Reached ladderWorkspace ∧
    (∃ s : Scope, s.workspace = ladderWorkspace ∧ s.unit.DraftedIn ladderWorkspace ∧
      s.hierarchyCycle? = none ∧ ⟨1, 1⟩ ∈ s.refs ∧ s.Remembers (fun _ => none) ∧
      Lineage s.base? ⟨1, 1⟩ [⟨1, 1⟩, ⟨1, 0⟩, ⟨0, 2⟩] ∧
      ∃ memo, s.Gathers (fun _ => none) ⟨1, 1⟩
        (.ok [⟨⟨0, 0⟩, 0⟩, ⟨⟨0, 2⟩, 0⟩, ⟨⟨1, 1⟩, 0⟩]) memo) ∧
    ⟨0, 2⟩ ∈ ladderWorkspace.refs ∧
    (∃ seen, DepthFirst.Climbs ladderWorkspace.base? ladderWorkspace.interfacesOf ⟨0, 2⟩ []
      [⟨0, 0⟩, ⟨0, 1⟩] seen) ∧
    0 < ladderWorkspace.schemas.length ∧ RustSource.Searches ladderWorkspace [0] false := by
  have hreached : Reached ladderWorkspace :=
    (Reached.empty [.builtin "int" .int32] {} none).load ladderSources.reader ["a"]
  have hfound : (ladderWorkspace.schemas[0]?.map fun t =>
      (decide (⟨0, 2⟩ ∈ ladderWorkspace.refs), RustSource.hasRegistry ladderWorkspace 0,
        RustSource.implementedInterfaces ⟨ladderWorkspace, t⟩ ⟨0, 2⟩)) =
      some (true, false, [⟨0, 0⟩, ⟨0, 1⟩]) := by cbv
  obtain ⟨t, ht, hfound⟩ := Option.map_eq_some_iff.1 hfound
  simp only [Prod.mk.injEq, decide_eq_true_eq] at hfound
  obtain ⟨hrefs, hregistry, himplemented⟩ := hfound
  have hlength : 0 < ladderWorkspace.schemas.length := (List.getElem?_eq_some_iff.1 ht).1
  obtain ⟨hunit, hinterfaces, hsearches⟩ := hierarchy_walks_end hreached
  obtain ⟨u, hdrafted, hcycle, hmem, hlineage, heffective⟩ := ladder_drafted
  have hnothing : (Scope.mk ladderWorkspace u).Remembers fun _ => none := by
    simp [Scope.Remembers]
  obtain ⟨hbases, -, -, hflattens⟩ := hunit ⟨ladderWorkspace, u⟩ rfl hdrafted hcycle _ hmem
  obtain ⟨memo, -, hgathers⟩ := hflattens _ hnothing
  refine ⟨hreached, ⟨_, rfl, hdrafted, hcycle, hmem, hnothing, (hbases _).2 hlineage.symm, memo,
    (hgathers _ _).2 ⟨heffective.symm, rfl⟩⟩, hrefs, ?_, hlength, ?_⟩
  · exact (hinterfaces t _ hrefs _).2 himplemented.symm
  · exact (hsearches 0 hlength false).2 hregistry.symm

end SchemaGraph
