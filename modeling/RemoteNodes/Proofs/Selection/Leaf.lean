import RemoteNodes.Document.Typename
import RemoteNodes.Node.Shallow
import RemoteNodes.Proofs.Response.Gathering
import RemoteNodes.Proofs.Selection.Rule
/-!
Leaf fields that are asked for as they are: by name, without arguments and directives. No stage of
compiling takes them away; all that it may change about them is the alias.

* `SelectsLeaf`: selections with such a field.
* `SelectsLeaf.narrowAll`, `SelectsLeaf.of_selectionsInclude`: narrowing to a type that has the
  field, and inclusion in other selections.
* `Rewriting.KeepsLeaves`, `SelectsLeaf.rewrite`: **rewritings that keep leaves**.
-/

namespace RemoteNodes

/-- Selections hold a leaf field of this name, with nothing but an alias. -/
def SelectsLeaf (leaf : String) (ss : List Selection) : Prop :=
  ∃ alias?, .field alias? leaf [] [] none ∈ ss

variable {schema : Schema} {leaf : String} {ss ss' : List Selection} {s : Selection}

/-- A leaf that is defined is left by narrowing. -/
lemma SelectsLeaf.narrowAll {t : NamedType} (h : SelectsLeaf leaf ss)
    (ht : t.defines leaf = true) : SelectsLeaf leaf (narrowAll schema t ss) := by
  obtain ⟨alias?, hmem⟩ := h
  exact ⟨alias?, mem_narrowAll.mpr ⟨_, hmem, ht, by rw [Selection.narrow?]⟩⟩

/-- A leaf is included in nothing but itself. -/
lemma eq_leaf_of_includes {alias? : Option String}
    (h : s.includes (.field alias? leaf [] [] none) = true) :
    s = .field alias? leaf [] [] none := by
  obtain ⟨arguments, directives, rfl, harguments, hdirectives⟩ :=
    Selection.exists_of_includes_leaf h
  have hnil {texts : List String} (h : sameTexts texts [] = true) : texts = [] :=
    (List.isPerm_iff.mp h).eq_nil
  rw [List.map_eq_nil_iff.mp (hnil harguments), List.map_eq_nil_iff.mp (hnil hdirectives)]

lemma SelectsLeaf.of_selectionsInclude (h : SelectsLeaf leaf ss)
    (hincludes : selectionsInclude ss' ss = true) : SelectsLeaf leaf ss' := by
  obtain ⟨alias?, hmem⟩ := h
  obtain ⟨s, hs, hincludes⟩ := exists_includes_of_mem hincludes hmem
  exact ⟨alias?, eq_leaf_of_includes hincludes ▸ hs⟩

lemma SelectsLeaf.dropSpreadsIn (h : SelectsLeaf leaf ss) (names : List String) :
    SelectsLeaf leaf (dropSpreadsIn names ss) := by
  obtain ⟨alias?, hmem⟩ := h
  exact ⟨alias?, field_mem_dropSpreadsIn.mpr ⟨none, rfl, hmem⟩⟩

/-! ### Rewriting -/

/-- A rewriting that takes no leaf out of a set and changes nothing about it but the alias. -/
structure Rewriting.KeepsLeaves (r : Rewriting) : Prop where
  field : ∀ parent? alias? name, ∃ alias?',
    r.field parent? (.field alias? name [] [] none) = .field alias?' name [] [] none
  set : ∀ owner parent? ss, ss ⊆ r.set owner parent? ss

/-- A leaf of a fragment stays in it. -/
lemma SelectsLeaf.rewrite {r : Rewriting} {f : Fragment} (h : SelectsLeaf leaf f.selections)
    (hr : r.KeepsLeaves) : SelectsLeaf leaf (f.rewrite schema r).selections := by
  obtain ⟨alias?, hmem⟩ := h
  obtain ⟨alias?', halias⟩ := hr.field (schema.composite? f.condition) alias? leaf
  refine ⟨alias?', hr.set .definition _ _ ?_⟩
  rw [rewriteAll_eq_map]
  exact List.mem_map.mpr ⟨_, hmem, by rw [Selection.rewrite, halias]⟩

lemma keepsLeaves_typenameRewriting : typenameRewriting.KeepsLeaves where
  field _ alias? _ := ⟨alias?, rfl⟩
  set _ _ ss := by
    dsimp only [typenameRewriting]
    split
    · exact List.subset_cons_self _ ss
    · exact List.Subset.refl ss

lemma keepsLeaves_aliasRewriting {types : List String} {aliases : Aliases} :
    (aliasRewriting schema types aliases).KeepsLeaves where
  field _ _ _ := ⟨_, rfl⟩
  set _ _ ss := List.Subset.refl ss

lemma keepsLeaves_shallow (r : ShallowRewriting) : r.rewriting.KeepsLeaves where
  field _ alias? _ := ⟨alias?, rfl⟩
  set _ _ ss := List.Subset.refl ss

end RemoteNodes
