import SchemaGraph.Proofs.Imports
import SchemaGraph.Proofs.Texts

/-!
The names of published types are identifiers, and their namespaces are identifiers with dots between
them: a declaration with other names is refused. So they have no line breaks, or white space at all.
-/

namespace SchemaGraph

open Text

variable {w w' : Workspace} {unit : SourceId} {declaration : Declaration} {s : Schema}

/-! ### Identifiers -/

namespace Text

theorem break_notMem_identifier {name : String} (h : isIdentifier name = true) :
    '\n' ∉ name.toList := fun hmem =>
  absurd (isIdentifierPart_of_mem h hmem) (by decide)

theorem break_notMem_namespace {name : String} (h : isNamespace name = true) :
    '\n' ∉ name.toList := by
  intro hmem
  rw [isNamespace, Bool.or_eq_true, List.all_eq_true] at h
  rcases h with hempty | hall
  · rw [String.isEmpty_iff.1 hempty] at hmem
    simp at hmem
  · have hdot : '\n' ≠ '.' := by decide
    obtain ⟨p, hp, hbreak⟩ := mem_pieces hmem hdot
    exact absurd (isIdentifierPart_of_mem (hall p hp) hbreak) (by decide)

end Text

/-! ### Names of types -/

structure UserType.ProperlyNamed {β ι τ : Type} (t : UserType β ι τ) : Prop where
  name : isIdentifier t.name = true
  «namespace» : isNamespace t.namespace = true

theorem UserType.ProperlyNamed.break_notMem_fullName {β ι τ : Type} {t : UserType β ι τ}
    (h : t.ProperlyNamed) : '\n' ∉ t.fullName.toList := by
  have hname := break_notMem_identifier h.name
  rw [fullName]
  split
  · exact hname
  · simp [break_notMem_namespace h.namespace, hname]

namespace Drafting

theorem isNamespace_of_properNamespace {text : Option String} {name : String}
    (h : properNamespace w unit text = .ok name) : isNamespace name = true := by
  rw [properNamespace] at h
  split at h
  · rename_i hproper
    obtain rfl := Except.ok.inj h
    rw [Bool.and_eq_true] at hproper
    exact hproper.1
  · cases h

theorem isNamespace_of_typeNamespace {ns name : String} {text : Option String}
    (hns : isNamespace ns = true) (h : typeNamespace w unit ns text = .ok name) :
    isNamespace name = true := by
  rw [typeNamespace] at h
  split at h
  · obtain rfl := Except.ok.inj h
    exact hns
  · exact isNamespace_of_properNamespace h

end Drafting

theorem Declaration.TypeDecl.DraftsTo.properlyNamed {ns : String} {t : TypeDecl} {d : DraftType}
    (h : t.DraftsTo w unit ns d) (hns : isNamespace ns = true) : d.ProperlyNamed := by
  obtain ⟨name, ⟨-, -, -, hname, -⟩, hbody⟩ := h
  have hdraws := Drafting.draws_of_draftBody hbody
  obtain ⟨text, htext⟩ := hdraws.namespace
  refine ⟨?_, Drafting.isNamespace_of_typeNamespace hns htext⟩
  rw [hdraws.name]
  exact hname

theorem Compiles.properlyNamed (h : Compiles w unit declaration s w') :
    ∀ t ∈ s.types, t.ProperlyNamed := by
  obtain ⟨draft, hdraft, hlinked⟩ := h.exists_draft
  intro t ht
  obtain ⟨d, hd, hresolves⟩ := exists_of_forall₂_right hlinked.types ht
  have hdrafts := Draft.ofDeclaration_eq_ok.1 hdraft
  obtain ⟨decl, -, hdecl⟩ := exists_of_forall₂_right hdrafts.types hd
  have hns := Drafting.isNamespace_of_properNamespace hdrafts.namespace
  obtain ⟨hname, hnamespace⟩ := hdecl.properlyNamed hns
  exact ⟨hresolves.name ▸ hname, hresolves.namespace ▸ hnamespace⟩

theorem Reached.properlyNamed (h : Reached w) {r : TypeRef} {t : LinkedType}
    (ht : w.type? r = some t) : t.ProperlyNamed := by
  obtain ⟨s, hs, ht⟩ := Option.bind_eq_some_iff.1 ht
  obtain ⟨declaration, _, _, -, -, -, hcompiles⟩ := h.compiledFrom s (List.mem_of_getElem? hs)
  exact hcompiles.properlyNamed t (List.mem_of_getElem? ht)

end SchemaGraph
