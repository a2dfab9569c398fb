import SchemaGraph.DataType

/-!
Indices of the published schemas: the key of a schema by a text that it has to itself, its source or
its name.
-/

namespace SchemaGraph

abbrev SchemaIndex := List (String × SchemaKey)

namespace SchemaIndex

def key? (t : SchemaIndex) (text : String) : Option SchemaKey :=
  (t.find? fun entry => entry.1 = text).map Prod.snd

def remove (t : SchemaIndex) (text : String) : SchemaIndex :=
  t.filter fun entry => entry.1 ≠ text

/-- Enters a key, in place of an earlier one under the same text. -/
def insert (t : SchemaIndex) (text : String) (key : SchemaKey) : SchemaIndex :=
  (text, key) :: t.remove text

theorem key?_remove (t : SchemaIndex) (text a : String) :
    (t.remove text).key? a = if a = text then none else t.key? a := by
  by_cases h : a = text
  · subst h
    simp [key?, remove, List.find?_filter]
  · rw [if_neg h, key?, key?, remove, List.find?_filter]
    congr 2
    funext entry
    by_cases he : entry.1 = a <;> simp [he, h]

theorem key?_insert (t : SchemaIndex) (text a : String) (key : SchemaKey) :
    (t.insert text key).key? a = if a = text then some key else t.key? a := by
  have hremove := key?_remove t text a
  by_cases h : a = text
  · simp [key?, insert, h]
  · rw [if_neg h] at hremove
    rw [if_neg h, ← hremove, key?, key?, insert, List.find?_cons_of_neg (by simpa using Ne.symm h)]

/-- An entry under a new text is all that its removal takes away. -/
theorem remove_insert {t : SchemaIndex} {text : String} (h : t.key? text = none)
    (key : SchemaKey) : (t.insert text key).remove text = t := by
  simp only [key?, Option.map_eq_none_iff, List.find?_eq_none, decide_eq_true_eq] at h
  have hself : t.remove text = t := List.filter_eq_self.2 fun entry he => by simpa using h entry he
  rw [insert, hself, remove, List.filter_cons_of_neg (by simp)]
  exact hself

theorem remove_comm (t : SchemaIndex) (a b : String) :
    (t.remove a).remove b = (t.remove b).remove a := by
  simp only [remove, List.filter_filter, Bool.and_comm]

end SchemaIndex

end SchemaGraph
