import RemoteNodes.Proofs.Document.Scoped
import RemoteNodes.Proofs.Document.Sites
/-!
Type names in compiled documents. The answer to every selection set of a field tells the type of the
object that it is about, under a key which does not depend on what was written there.

* `Aliases.typenameKey`: the key of the type name.
* `HasTypename`: a set that selects the type name under a key.
* `Site.hasTypename_rewrite`: aliases put a plain type name under that key.
* `compiled_discriminated`: **every selection set of a field with a known composite type selects the
  type name**.
-/

namespace RemoteNodes

/-- The key of the type name in answers: its alias, or its own name if it has none. -/
def Aliases.typenameKey (aliases : Aliases) : String :=
  (aliases.alias? "__typename").getD "__typename"

/-- A selection set selects the type name under a key. -/
def HasTypename (key : String) (ss : List Selection) : Prop :=
  ∃ alias? arguments directives selections?,
    .field alias? "__typename" arguments directives selections? ∈ ss
      ∧ Selection.responseKey alias? "__typename" = key

section Typename

variable {schema : Schema} {key : String} {ss : List Selection} {names types : List String}
  {aliases : Aliases} {site : Site}

lemma HasTypename.of_any (h : ss.any (·.isPlainTypename) = true) :
    HasTypename "__typename" ss := by
  obtain ⟨s, hs, hplain⟩ := List.any_eq_true.mp h
  cases s with
  | field alias? name arguments directives selections? =>
      simp only [Selection.isPlainTypename, Bool.and_eq_true, Bool.or_eq_true, beq_iff_eq] at hplain
      obtain ⟨rfl, halias⟩ := hplain
      refine ⟨alias?, arguments, directives, selections?, hs, ?_⟩
      rcases halias with rfl | rfl <;> rfl
  | spread _ _ => cases hplain
  | inline _ _ _ => cases hplain

/-- The type name is selected in every set of a field of composite type. -/
lemma Site.hasTypename_typenameRewriting {parent : NamedType} (howner : site.owner = .field)
    (hparent : site.parent? = some parent) :
    HasTypename "__typename" (site.rewrite schema typenameRewriting).selections := by
  rw [Site.rewrite, howner, hparent]
  dsimp only [typenameRewriting]
  split
  · exact ⟨none, [], [], none, List.mem_cons_self, rfl⟩
  · rename_i hany
    exact .of_any (by simpa using hany)

/-- A plain type name gets the alias of type names, if there is one. -/
lemma aliasRewriting_typename {parent? : Option NamedType} {alias? : Option String}
    (halias : Selection.responseKey alias? "__typename" = "__typename") (arguments : List Argument)
    (directives : List Directive) (selections? : Option (List Selection)) :
    (aliasRewriting schema types aliases).field parent?
        (.field alias? "__typename" arguments directives selections?)
      = .field ((aliases.alias? "__typename").or alias?) "__typename" arguments directives
          selections? := by
  have hplain : (alias? == none || alias? == some "__typename") = true := by
    cases alias? with
    | none => rfl
    | some written => simpa [Selection.responseKey] using halias
  dsimp only [aliasRewriting]
  cases aliases.alias? "__typename" with
  | none => rfl
  | some new => simp only [beq_self_eq_true, if_true, hplain, Option.some_or]

/-- Aliases put a plain type name under the key of type names. -/
lemma Site.hasTypename_aliasRewriting (h : HasTypename "__typename" site.selections) :
    HasTypename aliases.typenameKey
      (site.rewrite schema (aliasRewriting schema types aliases)).selections := by
  obtain ⟨alias?, arguments, directives, selections?, hs, hkey⟩ := h
  have hmem := List.mem_map_of_mem hs
    (f := (·.rewrite schema (aliasRewriting schema types aliases) site.parent?))
  rw [← rewriteAll_eq_map] at hmem
  have hkey' : Selection.responseKey ((aliases.alias? "__typename").or alias?) "__typename"
      = aliases.typenameKey := by
    rw [Aliases.typenameKey]
    cases aliases.alias? "__typename" with
    | none => exact hkey
    | some new => rfl
  cases selections? with
  | none =>
      rw [Selection.rewrite, aliasRewriting_typename hkey] at hmem
      exact ⟨_, arguments, directives, _, hmem, hkey'⟩
  | some ss =>
      rw [Selection.rewrite, aliasRewriting_typename hkey] at hmem
      exact ⟨_, arguments, directives, _, hmem, hkey'⟩

lemma HasTypename.dropSpreadsIn (h : HasTypename key ss) :
    HasTypename key (dropSpreadsIn names ss) := by
  obtain ⟨alias?, arguments, directives, selections?, hs, hkey⟩ := h
  exact ⟨alias?, arguments, directives, _, field_mem_dropSpreadsIn.mpr ⟨selections?, rfl, hs⟩, hkey⟩

end Typename

/-- In a compiled document every selection set of a field whose type is known to be composite
selects the type name under the key that the aliases give it, in operations and in fragments, at any
depth, and whatever has been written there. -/
theorem compiled_discriminated {schema : Schema} {declarations : List NodeDeclaration}
    {sources : List String} {aliases : Aliases} {documents : Keyed Document} {type : String}
    {document : Document} {parent : NamedType} {ss : List Selection}
    (hcompile : (compileQueries schema declarations sources aliases).outcome = .ok documents)
    (hdocument : Keyed.get? documents type = some document)
    (hsite : document.HasSite schema ⟨.field, some parent, ss⟩) :
    HasTypename aliases.typenameKey ss := by
  obtain ⟨c⟩ := exists_compilation hcompile hdocument
  obtain ⟨before, hbefore⟩ := c.exists_of_hasSite hsite
  have howner : before.owner = .field := (congrArg Site.owner hbefore).symm
  have hparent : before.parent? = some parent := (congrArg Site.parent? hbefore).symm
  have hselections : ss = (c.finish before).selections := congrArg Site.selections hbefore
  rw [hselections]
  exact (Site.hasTypename_aliasRewriting
    (Site.hasTypename_typenameRewriting howner hparent)).dropSpreadsIn

/-- The type name of an author is selected inside a custom fragment. -/
theorem compiled_discriminated_author :
    ∃ parent ss, authorDocument.HasSite authorSchema ⟨.field, some parent, ss⟩
      ∧ .spread "Extra" [] ∈ ss ∧ HasTypename "remoteTypeName" ss := by
  have hsite : authorDocument.HasSite authorSchema ⟨.field, authorSchema.composite? "Author",
      [.field (some "remoteTypeName") "__typename" [] [] none, .spread "Extra" []]⟩ := by
    refine .inr ⟨_, List.mem_cons_of_mem _ List.mem_cons_self, .field List.mem_cons_self ?_⟩
    exact .refl _
  exact ⟨_, _, hsite, by simp,
    compiled_discriminated compileQueries_author (by rfl : Keyed.get? _ "Foo" = _) hsite⟩

end RemoteNodes
