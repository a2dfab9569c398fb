import Mathlib.Data.Fintype.Basic
import Mathlib.Data.Set.Finite.List
import Mathlib.Logic.Relation
import Mathlib.Order.WellFounded

/-!
Graphs given by the nodes that a node leads to, and lists that put every node after the nodes it
leads to. A graph that has such a list has no cycle, and a finite graph without a cycle can be
descended.
-/

namespace SchemaGraph

open Relation

variable {α : Type} {next : α → List α}

def Leads (next : α → List α) (a b : α) : Prop := b ∈ next a

/-- No node of the list leads to itself or to a later node of the list. -/
structure Ordered (next : α → List α) (as : List α) : Prop where
  not_self : ∀ a ∈ as, a ∉ next a
  not_later : as.Pairwise fun a b => b ∉ next a

/-- A node that can be descended from is on no cycle. -/
theorem not_transGen_self {a : α} (h : Acc (flip (Leads next)) a) :
    ¬TransGen (Leads next) a a := by
  induction h with
  | intro a _ ih =>
      intro hcycle
      obtain ⟨b, hab, hba⟩ := TransGen.head'_iff.1 hcycle
      exact ih b hab (TransGen.tail' hba hab)

/-- Every node of an ordered list can be descended from, if that holds for the nodes that the list
leads out to. -/
theorem Ordered.acc {as : List α} (h : Ordered next as)
    (hout : ∀ a ∈ as, ∀ b ∈ next a, b ∈ as ∨ Acc (flip (Leads next)) b) :
    ∀ a ∈ as, Acc (flip (Leads next)) a := by
  suffices hpre : ∀ pre post, as = pre ++ post → ∀ a ∈ pre, Acc (flip (Leads next)) a from
    hpre as [] (by simp)
  intro pre
  -- The nodes that `a` leads to are before it or outside the list.
  induction pre using List.reverseRecOn with
  | nil => simp
  | append_singleton pre a ih =>
      intro post has b hb
      have hbefore := ih (a :: post) (by simpa using has)
      rcases List.mem_append.1 hb with hb | hb
      · exact hbefore b hb
      · obtain rfl := List.mem_singleton.1 hb
        have hmem : b ∈ as := by rw [has]; simp
        refine Acc.intro b fun c hc => ?_
        rcases hout b hmem c hc with hcs | hcs
        · have hlater := h.not_later
          rw [has, List.append_assoc, List.singleton_append, List.pairwise_append,
            List.pairwise_cons] at hlater
          rw [has, List.append_assoc, List.singleton_append] at hcs
          rcases List.mem_append.1 hcs with hcs | hcs
          · exact hbefore c hcs
          · rcases List.mem_cons.1 hcs with rfl | hcs
            · exact absurd hc (h.not_self c hmem)
            · exact absurd hc (hlater.2.1.1 c hcs)
        · exact hcs

/-- A graph without a cycle whose edges join finitely many nodes can be descended. -/
theorem wellFounded_of_acyclic (nodes : List α)
    (hnodes : ∀ a b, Leads next a b → a ∈ nodes ∧ b ∈ nodes)
    (hacyclic : ∀ a, ¬TransGen (Leads next) a a) : WellFounded (flip (Leads next)) := by
  -- Being reached by at least one step is a strict order on finitely many nodes.
  let below : {a // a ∈ nodes} → {a // a ∈ nodes} → Prop := fun b a =>
    TransGen (Leads next) a.1 b.1
  have : Finite {a // a ∈ nodes} := (List.finite_toSet nodes).to_subtype
  have : IsTrans _ below := ⟨fun _ _ _ hab hbc => hbc.trans hab⟩
  have : Std.Irrefl below := ⟨fun a => hacyclic a.1⟩
  have hwf : WellFounded below := Finite.wellFounded_of_trans_of_irrefl below
  have hinside : ∀ a : {a // a ∈ nodes}, Acc (flip (Leads next)) a.1 := by
    intro a
    induction a using hwf.induction with
    | _ a ih =>
        exact Acc.intro _ fun b hb => ih ⟨b, (hnodes a.1 b hb).2⟩ (TransGen.single hb)
  exact ⟨fun a => Acc.intro a fun b hb => hinside ⟨b, (hnodes a b hb).2⟩⟩

end SchemaGraph
