import Mathlib.Data.List.Perm.Basic
import SchemaGraph.DepthFirst
import SchemaGraph.Proofs.Order

/-!
What a depth-first walk reaches, and in which order it leaves what it reaches.

A walk enters exactly the nodes that can be reached, each once, and leaves what it enters. Without
cycles it leaves a node after all the nodes that node leads to; a graph in which no node turns up
out of place in that order has no cycle.
-/

namespace SchemaGraph.DepthFirst

open Relation

variable {α : Type}

@[simp] theorem entered_nil : entered ([] : List (Event α)) = [] := rfl

@[simp] theorem entered_enter (a : α) (es : List (Event α)) :
    entered (.enter a :: es) = a :: entered es := rfl

@[simp] theorem entered_leave (a : α) (es : List (Event α)) :
    entered (.leave a :: es) = entered es := rfl

@[simp] theorem left_nil : left ([] : List (Event α)) = [] := rfl

@[simp] theorem left_enter (a : α) (es : List (Event α)) : left (.enter a :: es) = left es := rfl

@[simp] theorem left_leave (a : α) (es : List (Event α)) :
    left (.leave a :: es) = a :: left es := rfl

@[simp] theorem left_append (es fs : List (Event α)) :
    left (es ++ fs) = left es ++ left fs := by
  simp [left]

def Task.map {β : Type} (f : α → β) : Task α → Task β
  | .visit a => .visit (f a)
  | .leave a => .leave (f a)

def Event.map {β : Type} (f : α → β) : Event α → Event β
  | .enter a => .enter (f a)
  | .leave a => .leave (f a)

theorem entered_map {β : Type} (f : α → β) (es : List (Event α)) :
    entered (es.map (Event.map f)) = (entered es).map f := by
  induction es with
  | nil => rfl
  | cons e es ih => cases e <;> simp [Event.map, ih]

theorem left_map {β : Type} (f : α → β) (es : List (Event α)) :
    left (es.map (Event.map f)) = (left es).map f := by
  induction es with
  | nil => rfl
  | cons e es ih => cases e <;> simp [Event.map, ih]

/-- The nodes that the tasks will leave without entering them. -/
def pending (ts : List (Task α)) : List α :=
  ts.filterMap fun
    | .visit _ => none
    | .leave a => some a

@[simp] theorem pending_visits (as : List α) : pending (as.map Task.visit) = [] := by
  induction as with
  | nil => rfl
  | cons a as ih => simp [pending]

variable [DecidableEq α] {next : α → List α} {nodes : List α}

/-! ### Equations of a walk -/

@[simp] theorem walk_nil (seen : List α) : walk next nodes [] seen = [] := by
  rw [walk]

@[simp] theorem walk_leave (a : α) (ts : List (Task α)) (seen : List α) :
    walk next nodes (.leave a :: ts) seen = .leave a :: walk next nodes ts seen := by
  rw [walk]

theorem walk_fresh {a : α} {seen : List α} (h : a ∈ nodes ∧ a ∉ seen) (ts : List (Task α)) :
    walk next nodes (.visit a :: ts) seen =
      .enter a :: walk next nodes ((next a).map .visit ++ .leave a :: ts) (a :: seen) := by
  rw [walk, dif_pos h]

theorem walk_passed {a : α} {seen : List α} (h : ¬(a ∈ nodes ∧ a ∉ seen)) (ts : List (Task α)) :
    walk next nodes (.visit a :: ts) seen = walk next nodes ts seen := by
  rw [walk, dif_neg h]

/-- A walk through two lists of tasks walks the second with what the first has entered. -/
theorem walk_append (ts us : List (Task α)) (seen : List α) :
    walk next nodes (ts ++ us) seen =
      walk next nodes ts seen ++
        walk next nodes us ((entered (walk next nodes ts seen)).reverse ++ seen) := by
  induction ts, seen using walk.induct next nodes with
  | case1 seen => simp
  | case2 a ts seen ih => simp [ih]
  | case3 a ts seen h ih =>
      rw [List.cons_append, walk_fresh h, walk_fresh h, ← List.cons_append, ← List.append_assoc, ih]
      simp
  | case4 a ts seen h ih =>
      rw [List.cons_append, walk_passed h, walk_passed h, ih]

/-! ### What is entered -/

theorem mem_nodes_of_entered {ts : List (Task α)} {seen : List α} {b : α}
    (hb : b ∈ entered (walk next nodes ts seen)) : b ∈ nodes ∧ b ∉ seen := by
  induction ts, seen using walk.induct next nodes with
  | case1 seen => simp at hb
  | case2 a ts seen ih => exact ih (by simpa using hb)
  | case3 a ts seen h ih =>
      rw [walk_fresh h, entered_enter] at hb
      rcases List.mem_cons.1 hb with rfl | hb
      · exact h
      · obtain ⟨hn, hs⟩ := ih hb
        exact ⟨hn, fun hb => hs (List.mem_cons_of_mem _ hb)⟩
  | case4 a ts seen h ih => exact ih (by rwa [walk_passed h] at hb)

theorem nodup_entered (ts : List (Task α)) (seen : List α) :
    (entered (walk next nodes ts seen)).Nodup := by
  induction ts, seen using walk.induct next nodes with
  | case1 seen => simp
  | case2 a ts seen ih => simpa using ih
  | case3 a ts seen h ih =>
      rw [walk_fresh h, entered_enter, List.nodup_cons]
      exact ⟨fun ha => (mem_nodes_of_entered ha).2 (by simp), ih⟩
  | case4 a ts seen h ih => rwa [walk_passed h]

/-- Every node entered is left, and so is every node that was to be left anyway. -/
theorem left_perm (ts : List (Task α)) (seen : List α) :
    (left (walk next nodes ts seen)).Perm (entered (walk next nodes ts seen) ++ pending ts) := by
  induction ts, seen using walk.induct next nodes with
  | case1 seen => simp [pending]
  | case2 a ts seen ih =>
      rw [walk_leave, left_leave, entered_leave]
      exact (ih.cons a).trans List.perm_middle.symm
  | case3 a ts seen h ih =>
      rw [walk_fresh h, left_enter, entered_enter]
      have hpending : pending ((next a).map Task.visit ++ .leave a :: ts) = a :: pending ts := by
        rw [pending, List.filterMap_append]
        exact congrArg (· ++ _) (pending_visits (next a))
      rw [hpending] at ih
      exact ih.trans List.perm_middle
  | case4 a ts seen h ih =>
      rw [walk_passed h]
      exact ih

theorem left_visits_perm (as : List α) (seen : List α) :
    (left (walk next nodes (as.map .visit) seen)).Perm
      (entered (walk next nodes (as.map .visit) seen)) := by
  have h := @left_perm α _ next nodes (as.map .visit) seen
  rwa [pending_visits, List.append_nil] at h

theorem nodup_left_visits (as : List α) (seen : List α) :
    (left (walk next nodes (as.map .visit) seen)).Nodup :=
  (left_visits_perm as seen).nodup_iff.2 (nodup_entered _ _)

/-- A node that is to be visited is entered, unless it was seen before. -/
theorem entered_of_visit {ts : List (Task α)} {seen : List α} {b : α} (hb : .visit b ∈ ts)
    (hn : b ∈ nodes) : b ∈ seen ∨ b ∈ entered (walk next nodes ts seen) := by
  induction ts, seen using walk.induct next nodes with
  | case1 seen => simp at hb
  | case2 a ts seen ih => simpa using ih (by simpa using hb)
  | case3 a ts seen h ih =>
      rw [walk_fresh h, entered_enter, List.mem_cons]
      rcases List.mem_cons.1 hb with heq | hb
      · exact .inr (.inl (Task.visit.inj heq))
      · rcases ih (by simp [hb]) with hs | he
        · rcases List.mem_cons.1 hs with rfl | hs
          · exact .inr (.inl rfl)
          · exact .inl hs
        · exact .inr (.inr he)
  | case4 a ts seen h ih =>
      rw [walk_passed h]
      rcases List.mem_cons.1 hb with heq | hb
      · obtain rfl := Task.visit.inj heq
        exact .inl (by simpa [hn] using h)
      · exact ih hb

/-- What a node leads to is entered with it, unless it was seen before. -/
theorem entered_of_leads {ts : List (Task α)} {seen : List α} {a b : α}
    (ha : a ∈ entered (walk next nodes ts seen)) (hb : b ∈ next a) (hn : b ∈ nodes) :
    b ∈ seen ∨ b ∈ entered (walk next nodes ts seen) := by
  induction ts, seen using walk.induct next nodes with
  | case1 seen => simp at ha
  | case2 c ts seen ih => simpa using ih (by simpa using ha)
  | case3 c ts seen h ih =>
      rw [walk_fresh h, entered_enter] at ha ⊢
      have hinner : b ∈ c :: seen ∨
          b ∈ entered (walk next nodes ((next c).map .visit ++ .leave c :: ts) (c :: seen)) := by
        rcases List.mem_cons.1 ha with rfl | ha
        · exact entered_of_visit (by simp [hb]) hn
        · exact ih ha
      rw [List.mem_cons] at hinner ⊢
      tauto
  | case4 c ts seen h ih =>
      rw [walk_passed h] at ha ⊢
      exact ih ha

theorem reachable_of_entered {ts : List (Task α)} {seen : List α} {b : α}
    (hb : b ∈ entered (walk next nodes ts seen)) :
    ∃ a, .visit a ∈ ts ∧ ReflTransGen (Leads next) a b := by
  induction ts, seen using walk.induct next nodes with
  | case1 seen => simp at hb
  | case2 c ts seen ih =>
      obtain ⟨a, ha, hab⟩ := ih (by simpa using hb)
      exact ⟨a, List.mem_cons_of_mem _ ha, hab⟩
  | case3 c ts seen h ih =>
      rw [walk_fresh h, entered_enter] at hb
      rcases List.mem_cons.1 hb with rfl | hb
      · exact ⟨b, by simp, .refl⟩
      · obtain ⟨a, ha, hab⟩ := ih hb
        rcases List.mem_append.1 ha with ha | ha
        · obtain ⟨d, hd, heq⟩ := List.mem_map.1 ha
          obtain rfl := Task.visit.inj heq
          exact ⟨c, by simp, hab.head hd⟩
        · exact ⟨a, List.mem_cons_of_mem _ (by simpa using ha), hab⟩
  | case4 c ts seen h ih =>
      rw [walk_passed h] at hb
      obtain ⟨a, ha, hab⟩ := ih hb
      exact ⟨a, List.mem_cons_of_mem _ ha, hab⟩

theorem mem_left_visits {as seen : List α} {b : α} :
    b ∈ left (walk next nodes (as.map .visit) seen) ↔
      b ∈ entered (walk next nodes (as.map .visit) seen) :=
  (left_visits_perm as seen).mem_iff

theorem reached_subset (roots : List α) : reached next nodes roots ⊆ nodes := fun _ hb =>
  (mem_nodes_of_entered hb).1

theorem postorder_subset (roots seen : List α) : postorder next nodes roots seen ⊆ nodes :=
  fun _ hb => (mem_nodes_of_entered (mem_left_visits.1 hb)).1

/-- A walk past nodes that lead only to one another enters all that can be reached beside them. -/
theorem mem_entered_iff (hnodes : ∀ a ∈ nodes, ∀ b ∈ next a, b ∈ nodes) {roots seen : List α}
    (hroots : ∀ a ∈ roots, a ∈ nodes) (hseen : ∀ a ∈ seen, ∀ b ∈ next a, b ∈ seen) {b : α} :
    b ∈ entered (walk next nodes (roots.map .visit) seen) ↔
      b ∉ seen ∧ ∃ a ∈ roots, ReflTransGen (Leads next) a b := by
  constructor
  · intro hb
    obtain ⟨a, ha, hab⟩ := reachable_of_entered hb
    obtain ⟨c, hc, heq⟩ := List.mem_map.1 ha
    obtain rfl := Task.visit.inj heq
    exact ⟨(mem_nodes_of_entered hb).2, c, hc, hab⟩
  · rintro ⟨hs, a, ha, hab⟩
    -- A path out of `seen` would have to start in it, so all along the path is entered.
    have hpassed : b ∈ nodes ∧
        (b ∈ seen ∨ b ∈ entered (walk next nodes (roots.map .visit) seen)) := by
      clear hs
      induction hab with
      | refl =>
          exact ⟨hroots a ha, entered_of_visit (List.mem_map_of_mem ha) (hroots a ha)⟩
      | tail _ hbc ih =>
          have hn := hnodes _ ih.1 _ hbc
          rcases ih.2 with hs | he
          · exact ⟨hn, .inl (hseen _ hs _ hbc)⟩
          · exact ⟨hn, entered_of_leads he hbc hn⟩
    exact hpassed.2.resolve_left hs

theorem mem_reached_iff (hnodes : ∀ a ∈ nodes, ∀ b ∈ next a, b ∈ nodes) {roots : List α}
    (hroots : ∀ a ∈ roots, a ∈ nodes) {b : α} :
    b ∈ reached next nodes roots ↔ ∃ a ∈ roots, ReflTransGen (Leads next) a b := by
  rw [reached, mem_entered_iff hnodes hroots (by simp)]
  simp

theorem mem_postorder_iff (hnodes : ∀ a ∈ nodes, ∀ b ∈ next a, b ∈ nodes) {roots seen : List α}
    (hroots : ∀ a ∈ roots, a ∈ nodes) (hseen : ∀ a ∈ seen, ∀ b ∈ next a, b ∈ seen) {b : α} :
    b ∈ postorder next nodes roots seen ↔
      b ∉ seen ∧ ∃ a ∈ roots, ReflTransGen (Leads next) a b :=
  mem_left_visits.trans (mem_entered_iff hnodes hroots hseen)

/-! ### The order of leaving -/

theorem unseen_append_cons_lt {seen : List α} {a : α} (h : a ∈ nodes ∧ a ∉ seen)
    (as : List α) : unseen nodes (as ++ a :: seen) < unseen nodes seen := by
  refine Nat.lt_of_le_of_lt ?_ (unseen_cons_lt h)
  refine (List.monotone_filter_right nodes fun b hb => ?_).length_le
  simp only [List.mem_append, decide_not, Bool.not_eq_true', decide_eq_false_iff_not] at hb ⊢
  exact fun hmem => hb (.inr hmem)

/-- A node that leads to one that is left later is reached from that one: the walk of the later node
was still under way. -/
theorem pairwise_left_reaches :
    ∀ as seen : List α,
      (left (walk next nodes (as.map .visit) seen)).Pairwise fun a b =>
        b ∈ next a → ReflTransGen (Leads next) b a
  | [], seen => by simp
  | a :: as, seen => by
    rw [List.map_cons]
    by_cases h : a ∈ nodes ∧ a ∉ seen
    · have ihInner := pairwise_left_reaches (next a) (a :: seen)
      have ihRest := pairwise_left_reaches as
        ((entered (walk next nodes ((next a).map .visit) (a :: seen))).reverse ++ a :: seen)
      rw [walk_fresh h, walk_append, walk_leave, left_enter, left_append, left_leave,
        List.pairwise_append, List.pairwise_cons]
      refine ⟨ihInner, ⟨fun b hb hab => ?_, ihRest⟩, fun c hc b hb hcb => ?_⟩
      -- What `a` leads to is entered before the rest is walked.
      · obtain ⟨hn, hs⟩ := mem_nodes_of_entered (mem_left_visits.1 hb)
        have hentered : b ∈ a :: seen ∨
            b ∈ entered (walk next nodes ((next a).map .visit) (a :: seen)) :=
          entered_of_visit (List.mem_map_of_mem hab) hn
        simp only [List.mem_append, List.mem_reverse] at hs
        tauto
      · have hc := mem_left_visits.1 hc
        rcases List.mem_cons.1 hb with rfl | hb
        -- Everything entered from here on can be reached from the node.
        · obtain ⟨d, hd, hdc⟩ := reachable_of_entered hc
          obtain ⟨e, he, heq⟩ := List.mem_map.1 hd
          obtain rfl := Task.visit.inj heq
          exact hdc.head he
        · obtain ⟨hn, hs⟩ := mem_nodes_of_entered (mem_left_visits.1 hb)
          have hentered := entered_of_leads hc hcb hn
          simp only [List.mem_append, List.mem_reverse] at hs
          tauto
    · rw [walk_passed h]
      exact pairwise_left_reaches as seen
termination_by as seen => (unseen nodes seen, as.length)
decreasing_by
  · exact Prod.Lex.left _ _ (unseen_cons_lt h)
  · exact Prod.Lex.left _ _ (unseen_append_cons_lt h _)
  · exact Prod.Lex.right _ (by simp)

/-- In a graph without cycles no node leads to one that is left later. -/
theorem pairwise_left (hacyclic : ∀ a, ¬TransGen (Leads next) a a) (as seen : List α) :
    (left (walk next nodes (as.map .visit) seen)).Pairwise fun a b => b ∉ next a := by
  refine (pairwise_left_reaches as seen).imp fun {a b} hreaches hab => ?_
  exact hacyclic a (TransGen.head' hab (hreaches hab))

/-! ### Cycles -/

/-- A walk from all nodes leaves exactly the nodes. -/
theorem mem_left_nodes {a : α} : a ∈ left (walk next nodes (nodes.map .visit) []) ↔ a ∈ nodes := by
  rw [mem_left_visits]
  refine ⟨fun ha => (mem_nodes_of_entered ha).1, fun ha => ?_⟩
  have hentered : a ∈ [] ∨ a ∈ entered (walk next nodes (nodes.map .visit) []) :=
    entered_of_visit (List.mem_map_of_mem ha) ha
  simpa using hentered

theorem pairwise_of_misplaced? {as before : List α} (hnodes : ∀ a ∈ as, a ∈ nodes)
    (hnodup : as.Nodup) (hfresh : ∀ a ∈ as, a ∉ before)
    (h : misplaced? next nodes as before = none) : as.Pairwise fun a b => a ∉ next b := by
  induction as generalizing before with
  | nil => exact .nil
  | cons a as ih =>
      rw [List.nodup_cons] at hnodup
      rw [misplaced?] at h
      split at h
      · contradiction
      · rename_i hfind
        rw [List.pairwise_cons]
        refine ⟨fun b hb hab => ?_, ih (fun b hb => hnodes b (by simp [hb])) hnodup.2 ?_ h⟩
        · have hmem : b ∈ a :: before := by
            have hpassed := List.find?_eq_none.1 hfind b (hnodes b (by simp [hb]))
            simp only [decide_eq_true_eq, not_and, not_not] at hpassed
            exact hpassed hab
          rcases List.mem_cons.1 hmem with rfl | hmem
          · exact hnodup.1 hb
          · exact hfresh b (by simp [hb]) hmem
        · intro b hb hmem
          rcases List.mem_cons.1 hmem with rfl | hmem
          · exact hnodup.1 hb
          · exact hfresh b (by simp [hb]) hmem

/-- A graph in which no cycle is found has an order of its nodes. -/
theorem exists_ordered_of_cycle? (h : cycle? next nodes = none) :
    ∃ as, (∀ a, a ∈ as ↔ a ∈ nodes) ∧ Ordered next as := by
  have hmem : ∀ a, a ∈ left (walk next nodes (nodes.map .visit) []) ↔ a ∈ nodes := fun _ =>
    mem_left_nodes
  simp only [cycle?] at h
  split at h
  · contradiction
  · rename_i hself
    -- The order of leaving is the one that is looked for.
    refine ⟨_, hmem, fun a ha hloop => ?_, ?_⟩
    · have := List.find?_eq_none.1 hself a (mem_left_visits.1 ha)
      simp [hloop] at this
    · have hreversed := pairwise_of_misplaced? (fun a ha => (hmem a).1 (List.mem_reverse.1 ha))
        (List.nodup_reverse.2 (nodup_left_visits nodes []))
        (by simp) h
      rwa [List.pairwise_reverse] at hreversed

theorem mem_of_misplaced? {as before : List α} {a : α}
    (h : misplaced? next nodes as before = some a) : a ∈ nodes := by
  fun_induction misplaced? next nodes as before with
  | case1 => contradiction
  | case2 before b bs p hp =>
      obtain rfl := Option.some.inj h
      exact List.mem_of_find?_eq_some hp
  | case3 before b bs hp ih => exact ih h

theorem mem_of_cycle? {a : α} (h : cycle? next nodes = some a) : a ∈ nodes := by
  simp only [cycle?] at h
  split at h
  · rename_i b hb
    obtain rfl := Option.some.inj h
    exact (mem_nodes_of_entered (List.mem_of_find?_eq_some hb)).1
  · exact mem_of_misplaced? h

/-- A node out of place in a list of all nodes leads to an earlier one, so it is on a cycle if it is
reached from the earlier ones that it leads to. -/
theorem transGen_of_misplaced? {as before : List α} {a : α}
    (hall : ∀ p ∈ nodes, p ∈ before ∨ p ∈ as)
    (hreaches : as.Pairwise fun x y => x ∈ next y → ReflTransGen (Leads next) x y)
    (h : misplaced? next nodes as before = some a) : TransGen (Leads next) a a := by
  induction as generalizing before with
  | nil => contradiction
  | cons b bs ih =>
      rw [List.pairwise_cons] at hreaches
      have hrest : ∀ p ∈ nodes, p ∈ b :: before ∨ p ∈ bs := by
        intro p hp
        have hp := hall p hp
        simp only [List.mem_cons] at hp ⊢
        tauto
      rw [misplaced?] at h
      split at h
      · rename_i p hp
        obtain rfl := Option.some.inj h
        have hfound := List.find?_some hp
        obtain ⟨hleads, hfresh⟩ := of_decide_eq_true hfound
        have hlater := (hrest p (List.mem_of_find?_eq_some hp)).resolve_left hfresh
        exact TransGen.head' hleads (hreaches.1 p hlater hleads)
      · exact ih hrest hreaches.2 h

/-- What is found is on a cycle. -/
theorem transGen_of_cycle? {a : α} (h : cycle? next nodes = some a) :
    TransGen (Leads next) a a := by
  simp only [cycle?] at h
  split at h
  · rename_i b hb
    obtain rfl := Option.some.inj h
    have hfound := List.find?_some hb
    have hself : b ∈ next b := of_decide_eq_true hfound
    exact .single hself
  · refine transGen_of_misplaced? (fun p hp => .inr ?_) ?_ h
    · rw [List.mem_reverse]
      exact mem_left_nodes.2 hp
    · rw [List.pairwise_reverse]
      exact pairwise_left_reaches nodes []

theorem misplaced?_eq_none {as before : List α} (hall : ∀ p ∈ nodes, p ∈ before ∨ p ∈ as)
    (h : as.Pairwise fun a b => a ∉ next b) : misplaced? next nodes as before = none := by
  induction as generalizing before with
  | nil => rfl
  | cons a as ih =>
      rw [List.pairwise_cons] at h
      have hfind : nodes.find? (fun p => a ∈ next p ∧ p ∉ a :: before) = none := by
        refine List.find?_eq_none.2 fun p hp => ?_
        simp only [List.mem_cons, decide_eq_true_eq, not_and, not_not]
        intro hpa
        rcases hall p hp with hbefore | hp
        · exact .inr hbefore
        · rcases List.mem_cons.1 hp with rfl | hp
          · exact .inl rfl
          · exact absurd hpa (h.1 p hp)
      rw [misplaced?, hfind]
      refine ih (fun p hp => ?_) h.2
      rcases hall p hp with hbefore | hp
      · exact .inl (List.mem_cons_of_mem _ hbefore)
      · rcases List.mem_cons.1 hp with rfl | hp
        · exact .inl (by simp)
        · exact .inr hp

/-- In a graph whose edges all start in its nodes a cycle is found if and only if there is one. -/
theorem cycle?_eq_none_iff (hnodes : ∀ a, ∀ b ∈ next a, a ∈ nodes) :
    cycle? next nodes = none ↔ ∀ a, ¬TransGen (Leads next) a a := by
  constructor
  · intro h a hcycle
    obtain ⟨as, hmem, hordered⟩ := exists_ordered_of_cycle? h
    obtain ⟨b, hab, -⟩ := TransGen.head'_iff.1 hcycle
    refine not_transGen_self (hordered.acc (fun c _ d _ => ?_) a ((hmem a).2 (hnodes a b hab))) hcycle
    by_cases hd : d ∈ as
    · exact .inl hd
    · exact .inr (Acc.intro d fun e he => absurd ((hmem d).2 (hnodes d e he)) hd)
  · intro hacyclic
    have hself : (entered (walk next nodes (nodes.map .visit) [])).find? (fun a => a ∈ next a) =
        none := by
      refine List.find?_eq_none.2 fun a _ ha => ?_
      have hself : a ∈ next a := by simpa using ha
      exact hacyclic a (.single hself)
    simp only [cycle?, hself]
    refine misplaced?_eq_none (fun p hp => .inr ?_) ?_
    · rw [List.mem_reverse, mem_left_nodes]
      exact hp
    · rw [List.pairwise_reverse]
      exact pairwise_left hacyclic nodes []

omit [DecidableEq α] in
/-- A search of graphs whose edges all start in their nodes. It finds nothing exactly in those
without a cycle, and what it finds is on one; which node that is, is left open. -/
structure FindsCycles (find : (α → List α) → List α → Option α) : Prop where
  eq_none_iff : ∀ {next nodes}, (∀ a, ∀ b ∈ next a, a ∈ nodes) →
    (find next nodes = none ↔ ∀ a, ¬TransGen (Leads next) a a)
  transGen_self : ∀ {next nodes a}, (∀ a, ∀ b ∈ next a, a ∈ nodes) →
    find next nodes = some a → TransGen (Leads next) a a

theorem findsCycles_cycle? : FindsCycles (cycle? (α := α)) where
  eq_none_iff hnodes := cycle?_eq_none_iff hnodes
  transGen_self _ h := transGen_of_cycle? h

/-! ### Other names for the nodes -/

/-- Two graphs of which the second has other names for the `known` nodes of the first. Known nodes
lead to known nodes only; about others nothing is said. -/
structure Matches {β : Type} (f : α → β) (known : α → Prop) (next : α → List α) (nodes : List α)
    (next' : β → List β) (nodes' : List β) : Prop where
  injective : Function.Injective f
  closed : ∀ a, known a → ∀ b ∈ next a, known b
  next_eq : ∀ a, known a → next' (f a) = (next a).map f
  mem_iff : ∀ a, known a → (f a ∈ nodes' ↔ a ∈ nodes)

namespace Matches

variable {β : Type} {f : α → β} {known : α → Prop} {next' : β → List β} {nodes' : List β}

/-- What is reached from known nodes is known. -/
theorem known_of_postorder (h : Matches f known next nodes next' nodes') {roots seen : List α}
    (hroots : ∀ a ∈ roots, known a) {b : α} (hb : b ∈ postorder next nodes roots seen) :
    known b := by
  obtain ⟨a, ha, hab⟩ := reachable_of_entered (mem_left_visits.1 hb)
  obtain ⟨c, hc, heq⟩ := List.mem_map.1 ha
  obtain rfl := Task.visit.inj heq
  clear ha heq hb
  induction hab with
  | refl => exact hroots _ hc
  | tail _ hxy ih => exact h.closed _ ih _ hxy

variable [DecidableEq β]

/-- A walk of the second graph is the walk of the first under the other names. -/
theorem walk_eq (h : Matches f known next nodes next' nodes') (ts : List (Task α))
    (seen : List α) (hts : ∀ a, .visit a ∈ ts → known a) :
    walk next' nodes' (ts.map (Task.map f)) (seen.map f) =
      (walk next nodes ts seen).map (Event.map f) := by
  induction ts, seen using walk.induct next nodes with
  | case1 seen => simp
  | case2 a ts seen ih =>
      have ih := ih fun b hb => hts b (List.mem_cons_of_mem _ hb)
      simp [Task.map, Event.map, ih]
  | case3 a ts seen hfresh ih =>
      have ha := hts a (by simp)
      have hfresh' : f a ∈ nodes' ∧ f a ∉ seen.map f :=
        ⟨(h.mem_iff a ha).2 hfresh.1, fun hmem =>
          hfresh.2 ((List.mem_map_of_injective h.injective).1 hmem)⟩
      have ih := ih fun b hb => by
        rcases List.mem_append.1 hb with hb | hb
        · obtain ⟨c, hc, heq⟩ := List.mem_map.1 hb
          obtain rfl := Task.visit.inj heq
          exact h.closed a ha c hc
        · rcases List.mem_cons.1 hb with heq | hb
          · contradiction
          · exact hts b (List.mem_cons_of_mem _ hb)
      rw [walk_fresh hfresh, List.map_cons, List.map_cons, ← ih, Task.map, walk_fresh hfresh',
        h.next_eq a ha]
      simp [Task.map, Event.map, Function.comp_def]
  | case4 a ts seen hpassed ih =>
      have ha := hts a (by simp)
      have hpassed' : ¬(f a ∈ nodes' ∧ f a ∉ seen.map f) := by
        rwa [h.mem_iff a ha, List.mem_map_of_injective h.injective]
      rw [walk_passed hpassed, List.map_cons, Task.map, walk_passed hpassed']
      exact ih fun b hb => hts b (List.mem_cons_of_mem _ hb)

theorem visits_eq (h : Matches f known next nodes next' nodes') (roots seen : List α)
    (hroots : ∀ a ∈ roots, known a) :
    walk next' nodes' ((roots.map f).map .visit) (seen.map f) =
      (walk next nodes (roots.map .visit) seen).map (Event.map f) := by
  have hvisit : (roots.map f).map Task.visit = (roots.map Task.visit).map (Task.map f) := by
    simp [Task.map, Function.comp_def]
  rw [hvisit]
  refine h.walk_eq _ seen fun a ha => ?_
  obtain ⟨b, hb, heq⟩ := List.mem_map.1 ha
  rw [← Task.visit.inj heq]
  exact hroots b hb

theorem reached_eq (h : Matches f known next nodes next' nodes') {roots : List α}
    (hroots : ∀ a ∈ roots, known a) :
    reached next' nodes' (roots.map f) = (reached next nodes roots).map f := by
  have hwalk := h.visits_eq roots [] hroots
  rw [reached, reached, ← entered_map, ← hwalk, List.map_nil]

theorem postorder_eq (h : Matches f known next nodes next' nodes') {roots : List α}
    (seen : List α) (hroots : ∀ a ∈ roots, known a) :
    postorder next' nodes' (roots.map f) (seen.map f) =
      (postorder next nodes roots seen).map f := by
  rw [postorder, postorder, ← left_map, ← h.visits_eq roots seen hroots]

end Matches

end SchemaGraph.DepthFirst
