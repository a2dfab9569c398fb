import Mathlib.Data.List.Infix
import SchemaGraph.ImportGraph.Discovery

/-!
Breadth-first order. The roots come first, then what they import, then what those units import, and
so on; a unit keeps the first of its places.

A search that works through the units it has met, in the order of meeting them, has met at any time
what its work so far gathers (`gather`). How far it has come is then a beginning of the
breadth-first order (`levels_comparable`), and a unit that stops it is the first that can.
-/

namespace SchemaGraph

section FirstPlaces

variable {α : Type} [DecidableEq α] {as bs : List α}

theorem eraseDups_concat (as : List α) (a : α) :
    (as ++ [a]).eraseDups = if a ∈ as then as.eraseDups else as.eraseDups ++ [a] := by
  rw [List.eraseDups_append]
  by_cases h : a ∈ as <;> simp [List.removeAll, List.eraseDups_cons, h]

theorem nodup_eraseDups (as : List α) : as.eraseDups.Nodup := by
  induction as using List.reverseRecOn with
  | nil => simp
  | append_singleton as a ih =>
      rw [eraseDups_concat]
      split
      · exact ih
      · rename_i hnew
        refine List.nodup_append.2 ⟨ih, by simp, fun b hb c hc => ?_⟩
        rintro rfl
        exact hnew (by simpa [List.mem_singleton.1 hc] using hb)

theorem eraseDups_of_nodup (h : as.Nodup) : as.eraseDups = as := by
  induction as using List.reverseRecOn with
  | nil => rfl
  | append_singleton as a ih =>
      obtain ⟨has, -, hne⟩ := List.nodup_append.1 h
      have hnew : a ∉ as := fun ha => hne a ha a (by simp) rfl
      rw [eraseDups_concat, if_neg hnew, ih has]

theorem eraseDups_append_of_subset (h : bs ⊆ as) : (as ++ bs).eraseDups = as.eraseDups := by
  have hnone : bs.removeAll as = [] := by
    simpa [List.removeAll] using fun b hb => h hb
  rw [List.eraseDups_append, hnone, List.eraseDups_nil, List.append_nil]

theorem eraseDups_mono (h : as <+: bs) : as.eraseDups <+: bs.eraseDups := by
  obtain ⟨rest, rfl⟩ := h
  rw [List.eraseDups_append]
  exact List.prefix_append _ _

/-- Repetitions can be taken out of a beginning first. -/
theorem eraseDups_append_left (as bs : List α) :
    (as.eraseDups ++ bs).eraseDups = (as ++ bs).eraseDups := by
  have hsame : bs.removeAll as.eraseDups = bs.removeAll as := by simp [List.removeAll]
  rw [List.eraseDups_append, List.eraseDups_append, hsame, eraseDups_of_nodup (nodup_eraseDups as)]

theorem find?_eraseDups (p : α → Bool) (as : List α) : as.eraseDups.find? p = as.find? p := by
  induction as using List.reverseRecOn with
  | nil => rfl
  | append_singleton as a ih =>
      rw [eraseDups_concat, List.find?_append, ← ih]
      split
      · rename_i ha
        cases hfind : as.eraseDups.find? p with
        | some b => rfl
        | none =>
            have hnot := List.find?_eq_none.1 hfind a (by simpa using ha)
            simp [hnot]
      · rw [List.find?_append]

/-- What repeated items add, the first of them has added already. -/
theorem eraseDups_append_flatMap (f : α → List α) (as bs : List α) :
    (bs ++ as.eraseDups.flatMap f).eraseDups = (bs ++ as.flatMap f).eraseDups := by
  induction as using List.reverseRecOn with
  | nil => rfl
  | append_singleton as a ih =>
      rw [eraseDups_concat, List.flatMap_append, List.flatMap_singleton, ← List.append_assoc]
      split
      · rename_i ha
        have hsub : f a ⊆ bs ++ as.flatMap f := fun b hb =>
          List.mem_append_right _ (List.mem_flatMap.2 ⟨a, ha, hb⟩)
        rw [ih, eraseDups_append_of_subset hsub]
      · rw [List.flatMap_append, List.flatMap_singleton, ← List.append_assoc,
          ← eraseDups_append_left, ih, eraseDups_append_left]

end FirstPlaces

namespace ImportGraph.ImportLookup

variable (lookup : ImportLookup) (roots : List SourceId)

/-- What a unit imports; nothing if it cannot say. -/
def importsOf (u : SourceId) : List SourceId :=
  (lookup u).toOption.getD []

def fails (u : SourceId) : Bool :=
  (lookup u).toOption.isNone

/-- Where chains of so many imports lead from the roots. -/
def layer : Nat → List SourceId
  | 0 => roots
  | n + 1 => (layer n).flatMap lookup.importsOf

/-- The breadth-first order as far as chains of `n` imports, with repetitions. -/
def levels (n : Nat) : List SourceId :=
  (List.range (n + 1)).flatMap (lookup.layer roots)

/-- No unit before this one in breadth-first order fails, but this one does. -/
def FailsFirst (u : SourceId) : Prop :=
  ∃ n, (lookup.levels roots n).find? lookup.fails = some u

theorem fails_iff {u : SourceId} : lookup.fails u = true ↔ ∃ e, lookup u = .error e := by
  cases h : lookup u <;> simp [fails, h, Except.toOption]

theorem levels_concat (n : Nat) :
    lookup.levels roots (n + 1) = lookup.levels roots n ++ lookup.layer roots (n + 1) := by
  rw [levels, List.range_succ, List.flatMap_append, List.flatMap_singleton]
  rfl

theorem levels_succ (n : Nat) :
    lookup.levels roots (n + 1) = roots ++ (lookup.levels roots n).flatMap lookup.importsOf := by
  induction n with
  | zero => simp [levels, layer, List.range_succ]
  | succ n ih =>
      calc lookup.levels roots (n + 2)
          = roots ++ (lookup.levels roots n).flatMap lookup.importsOf ++
              (lookup.layer roots (n + 1)).flatMap lookup.importsOf := by
            rw [levels_concat, ih]
            rfl
        _ = roots ++ (lookup.levels roots (n + 1)).flatMap lookup.importsOf := by
            rw [levels_concat, List.flatMap_append, List.append_assoc]

theorem levels_mono {m n : Nat} (h : m ≤ n) :
    lookup.levels roots m <+: lookup.levels roots n := by
  induction h with
  | refl => exact List.prefix_rfl
  | step _ ih =>
      rw [levels_concat]
      exact ih.trans (List.prefix_append _ _)

theorem FailsFirst.unique {lookup : ImportLookup} {roots : List SourceId} {u v : SourceId}
    (hu : lookup.FailsFirst roots u) (hv : lookup.FailsFirst roots v) : u = v := by
  obtain ⟨m, hm⟩ := hu
  obtain ⟨n, hn⟩ := hv
  rcases Nat.le_total m n with h | h
  · have hm' := (lookup.levels_mono roots h).find?_eq_some hm
    exact Option.some.inj (hm'.symm.trans hn)
  · have hn' := (lookup.levels_mono roots h).find?_eq_some hn
    exact Option.some.inj (hm.symm.trans hn')

/-! ### Gathering -/

/-- The roots and what the given units import, each at the first of its places. -/
def gather (asked : List SourceId) : List SourceId :=
  (roots ++ asked.flatMap lookup.importsOf).eraseDups

variable {lookup roots} {asked : List SourceId} {u : SourceId}

theorem gather_mono {asked' : List SourceId} (h : asked <+: asked') :
    lookup.gather roots asked <+: lookup.gather roots asked' := by
  obtain ⟨rest, rfl⟩ := h
  refine eraseDups_mono ⟨rest.flatMap lookup.importsOf, ?_⟩
  rw [List.flatMap_append, List.append_assoc]

theorem gather_concat (lookup : ImportLookup) (roots asked : List SourceId) (u : SourceId) :
    lookup.gather roots (asked ++ [u]) =
      (lookup.gather roots asked ++ lookup.importsOf u).eraseDups := by
  rw [gather, gather, eraseDups_append_left, List.flatMap_append, List.flatMap_singleton,
    List.append_assoc]

theorem eraseDups_levels_succ (lookup : ImportLookup) (roots : List SourceId) (n : Nat) :
    (lookup.levels roots (n + 1)).eraseDups =
      lookup.gather roots (lookup.levels roots n).eraseDups := by
  rw [levels_succ, gather, eraseDups_append_flatMap]

/-- Units that are themselves a beginning of what they gather are a beginning of the breadth-first
order, as far as that is known. -/
theorem levels_comparable (h : asked <+: lookup.gather roots asked) (n : Nat) :
    (lookup.levels roots n).eraseDups <+: asked ∨
      asked <+: (lookup.levels roots n).eraseDups := by
  induction n with
  | zero =>
      have hroots : (lookup.levels roots 0).eraseDups = lookup.gather roots [] := by
        simp [levels, layer, gather]
      rw [hroots]
      exact List.prefix_or_prefix_of_prefix (gather_mono List.nil_prefix) h
  | succ n ih =>
      rw [eraseDups_levels_succ]
      rcases ih with ih | ih
      · exact List.prefix_or_prefix_of_prefix (gather_mono ih) h
      · exact .inr (h.trans (gather_mono ih))

/-- Where a search stops, whose units asked before have all answered, is the first place in
breadth-first order to stop at. -/
theorem failsFirst_of_gathered {n : Nat} (h : asked ++ [u] <+: lookup.gather roots asked)
    (hasked : ∀ v ∈ asked, lookup.fails v = false) (hu : lookup.fails u = true)
    (hn : u ∈ lookup.levels roots n) : lookup.FailsFirst roots u := by
  have hsame : lookup.gather roots (asked ++ [u]) = lookup.gather roots asked := by
    obtain ⟨e, he⟩ := (lookup.fails_iff).1 hu
    rw [gather_concat, importsOf, he, Except.toOption, Option.getD_none, List.append_nil]
    exact eraseDups_of_nodup (nodup_eraseDups _)
  have hfind : (asked ++ [u]).find? lookup.fails = some u := by
    rw [List.find?_append, List.find?_eq_none.2 fun v hv => by simp [hasked v hv]]
    simp [hu]
  have hnew : u ∉ asked := fun hmem => by simp [hasked u hmem] at hu
  refine ⟨n, ?_⟩
  rw [← find?_eraseDups]
  rcases levels_comparable (hsame ▸ h) n with hle | hle
  · rcases List.prefix_concat_iff.1 hle with heq | hle
    · rw [heq, hfind]
    · exact absurd (hle.subset (List.mem_eraseDups.2 hn)) hnew
  · exact hle.find?_eq_some hfind

end ImportGraph.ImportLookup

end SchemaGraph
