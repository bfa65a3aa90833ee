import RemoteNodes.Proofs.Document.Filled
import RemoteNodes.Proofs.Document.Finished
import RemoteNodes.Proofs.Document.Leaves
import RemoteNodes.Proofs.Node.Merging
import RemoteNodes.Proofs.Node.Picked
/-!
Whether a reference carries the identity of the node that it refers to: everything that the compiled
ID fragment of the node's type picks, at every level under the same key.

* `Selection.AskedByName`: a selection that is known by names alone.
* `Compilation.pickedFrom_finish`: **the selections of a set are picked from the same set in another
  document**.
* `Compilation.pickedFrom_finish_merged`, `Compilation.askedByName_of_pickedFrom`: **from merged
  fields exactly that is picked which is asked for by names alone**.
* `Compilation.exists_pickId_of_meets`: **an identity that is asked for by names alone can be read
  from what any reference to the node gives**.
* `compiled_identified`: what references carry in compiled documents; `identity_lost`: the reference
  of an interface does not carry an identity that has an alias of its own.
-/

namespace RemoteNodes

open Selection (responseKey)

/-! ### What is asked for -/

mutual
/-- A selection that asks for what its name says on a type, and nothing else: without arguments, and
under the key of a field that is written without an alias. -/
def Selection.AskedByName (schema : Schema) (types : List String) (aliases : Aliases)
    (nested : Bool) (parent? : Option NamedType) : Selection → Prop
  | .field alias? name arguments _ none =>
    (nested = true ∧ name = "__typename") ∨ (arguments = []
      ∧ responseKey alias? name
        = responseKey (schema.aliased types aliases parent? none name) name)
  | .field alias? name arguments _ (some selections) =>
    (nested = true ∧ name = "__typename") ∨ (name ≠ "__typename" ∧ arguments = []
      ∧ responseKey alias? name
        = responseKey (schema.aliased types aliases parent? none name) name
      ∧ AllAskedByName schema types aliases (schema.insideField? parent? name) selections)
  | .spread .. => True
  | .inline .. => True
/-- Selections below the top level that ask for what their names say. -/
def AllAskedByName (schema : Schema) (types : List String) (aliases : Aliases)
    (parent? : Option NamedType) : List Selection → Prop
  | [] => True
  | s :: ss => s.AskedByName schema types aliases true parent?
      ∧ AllAskedByName schema types aliases parent? ss
end

lemma allAskedByName_iff {schema : Schema} {types : List String} {aliases : Aliases}
    {parent? : Option NamedType} {ss : List Selection} :
    AllAskedByName schema types aliases parent? ss
      ↔ ∀ s ∈ ss, s.AskedByName schema types aliases true parent? := by
  induction ss with
  | nil => simp [AllAskedByName]
  | cons s ss ih => rw [AllAskedByName, ih, List.forall_mem_cons]

/-! ### Picking across documents -/

namespace Compilation

variable {schema : Schema} {declarations : List NodeDeclaration} {sources : List String}
  {aliases : Aliases} {type type' : String} {document document' : Document}
  (c : Compilation schema declarations sources aliases type document)
  (c' : Compilation schema declarations sources aliases type' document')
  {owner owner' : Owner} {parent? : Option NamedType} {nested : Bool}
  {ss ss' merged : List Selection} {s : Selection}

/-- **The selections of a set are picked from the same set in another document**, type names at the
top apart. -/
theorem pickedFrom_finish (hs : s ∈ (c.finish ⟨owner, parent?, ss⟩).selections)
    (hsub : ∀ s ∈ ss, s.isTypename = false → s ∈ ss')
    (htypename : s.isTypename = false ∨ nested = true) :
    s.PickedFrom nested (c'.finish ⟨owner', parent?, ss'⟩).selections := by
  induction s using Selection.induct generalizing owner owner' parent? nested ss ss' with
  | leaf alias? name arguments directives =>
      rw [Selection.PickedFrom]
      by_cases hname : name = "__typename"
      · exact .inl ⟨htypename.resolve_left (by simp [Selection.isTypename, hname]), hname⟩
      rcases c.exists_of_field_mem_finish hs with ⟨alias?', before?, hbefore, rfl, -⟩ | ⟨-, h, -⟩
      · have hkept := hsub _ hbefore (by simpa [Selection.isTypename] using hname)
        exact .inr ⟨_, _, _, c'.field_mem_finish hkept, rfl⟩
      · exact absurd h hname
  | composite alias? name arguments directives inner ih =>
      rw [Selection.PickedFrom]
      by_cases hname : name = "__typename"
      · exact .inl ⟨htypename.resolve_left (by simp [Selection.isTypename, hname]), hname⟩
      obtain ⟨alias?', before, hbefore, rfl, rfl⟩ := c.exists_of_composite_mem_finish hs
      have hkept := hsub _ hbefore (by simpa [Selection.isTypename] using hname)
      refine .inr ⟨_, _, _, c'.composite_mem_finish hkept, rfl,
        allPickedFrom_iff.mpr fun s hs => ?_⟩
      exact ih s hs hs (fun s hs _ => hs) (.inr rfl)
  | spread fragment directives => rw [Selection.PickedFrom]; trivial
  | inline condition? directives inner => rw [Selection.PickedFrom]; trivial

/-- A type name that is asked for by its name alone is picked where the type name is selected. -/
lemma pickedFrom_finish_typename (htypename : s.isTypename = true)
    (hasked : s.AskedByName schema (declarations.map (·.type)) aliases false parent?)
    (hmem : .plain "__typename" ∈ ss') :
    s.PickedFrom false (c'.finish ⟨owner', parent?, ss'⟩).selections := by
  cases s with
  | field alias? name arguments directives selections? =>
      obtain rfl : name = "__typename" := beq_iff_eq.mp htypename
      cases selections? with
      | none =>
          rw [Selection.AskedByName] at hasked
          obtain ⟨rfl, hkey⟩ := hasked.resolve_left (by simp)
          rw [Selection.PickedFrom]
          exact .inr ⟨_, _, _, c'.field_mem_finish hmem, hkey.symm⟩
      | some selections =>
          rw [Selection.AskedByName] at hasked
          exact absurd rfl (hasked.resolve_left (by simp)).1
  | spread _ _ | inline _ _ _ => cases htypename

variable (hbare : ∀ x ∈ merged, x.Bare)
include hbare

/-- What is asked for by names alone is picked from the fields that it has been merged into. -/
theorem pickedFrom_finish_merged {above? : Option NamedType}
    (hs : s ∈ (c.finish ⟨owner, parent?, ss⟩).selections)
    (hcovered : ∀ s ∈ ss, s.isTypename = false → s.CoveredBy merged)
    (htypename : HasField "__typename" merged ∨ nested = true)
    (hasked : s.AskedByName schema (declarations.map (·.type)) aliases nested above?) :
    s.PickedFrom nested (c'.finish ⟨owner', above?, merged⟩).selections := by
  induction s using Selection.induct
    generalizing owner owner' parent? above? nested ss merged with
  | leaf alias? name arguments directives =>
      rw [Selection.AskedByName] at hasked
      rw [Selection.PickedFrom]
      refine or_iff_not_imp_left.mpr fun hother => ?_
      obtain ⟨rfl, hkey⟩ := hasked.resolve_left hother
      have hfield : HasField name merged := by
        by_cases hname : name = "__typename"
        · exact hname ▸ htypename.resolve_right fun h => hother ⟨h, hname⟩
        rcases c.exists_of_field_mem_finish hs with ⟨_, before?, hbefore, -, heq⟩ | ⟨-, h, -⟩
        · obtain rfl := Option.map_eq_none_iff.mp heq.symm
          have hfield := hcovered _ hbefore (by simpa [Selection.isTypename] using hname)
          rwa [Selection.CoveredBy] at hfield
        · exact absurd h hname
      obtain ⟨_, _, _, _, hmem⟩ := hfield
      obtain ⟨rfl, rfl, -⟩ := (hbare _ hmem).field
      exact ⟨_, _, _, c'.field_mem_finish hmem, hkey.symm⟩
  | composite alias? name arguments directives inner ih =>
      rw [Selection.AskedByName] at hasked
      rw [Selection.PickedFrom]
      refine hasked.imp_right ?_
      rintro ⟨hname, rfl, hkey, hinner⟩
      obtain ⟨_, before, hbefore, -, rfl⟩ := c.exists_of_composite_mem_finish hs
      have hfield := hcovered _ hbefore (by simpa [Selection.isTypename] using hname)
      rw [Selection.CoveredBy] at hfield
      obtain ⟨within, hwithin, hcoveredIn⟩ := hfield
      obtain ⟨_, _, _, hmem⟩ := mem_of_selectionsOf hwithin
      obtain ⟨rfl, rfl, hbareIn⟩ := (hbare _ hmem).field
      refine ⟨_, _, _, c'.composite_mem_finish hmem, hkey.symm,
        allPickedFrom_iff.mpr fun s hs => ?_⟩
      exact ih s hs (hbareIn within rfl) hs (fun s hs _ => allCoveredBy_iff.mp hcoveredIn s hs)
        (.inr rfl) (allAskedByName_iff.mp hinner s hs)
  | spread fragment directives => rw [Selection.PickedFrom]; trivial
  | inline condition? directives inner => rw [Selection.PickedFrom]; trivial

/-- What is picked from merged fields is asked for by names alone. -/
theorem askedByName_of_pickedFrom
    (h : s.PickedFrom nested (c'.finish ⟨owner', parent?, merged⟩).selections)
    (htypenames : nested = true ∨ TypenamesPlain merged) :
    s.AskedByName schema (declarations.map (·.type)) aliases nested parent? := by
  induction s using Selection.induct generalizing owner' parent? nested merged with
  | leaf alias? name arguments directives =>
      rw [Selection.PickedFrom] at h
      rw [Selection.AskedByName]
      refine h.imp_right ?_
      rintro ⟨_, _, _, hmem, hkey⟩
      rcases c'.exists_of_field_mem_finish hmem with
        ⟨_, _, hbefore, rfl, -⟩ | ⟨-, -, rfl, -, rfl⟩
      · obtain ⟨rfl, rfl, -⟩ := (hbare _ hbefore).field
        exact ⟨rfl, hkey.symm⟩
      · exact ⟨rfl, hkey.symm⟩
  | composite alias? name arguments directives inner ih =>
      rw [Selection.PickedFrom] at h
      rw [Selection.AskedByName]
      refine or_iff_not_imp_left.mpr fun hother => ?_
      obtain ⟨_, _, _, hmem, hkey, hinner⟩ := h.resolve_left hother
      obtain ⟨_, before, hbefore, rfl, rfl⟩ := c'.exists_of_composite_mem_finish hmem
      obtain ⟨rfl, rfl, hbareIn⟩ := (hbare _ hbefore).field
      refine ⟨fun hname => ?_, rfl, hkey.symm, allAskedByName_iff.mpr fun s hs => ?_⟩
      · -- type names at the top have no selections
        have hplain := htypenames.resolve_left fun h => hother ⟨h, hname⟩
        cases hplain _ hbefore (beq_iff_eq.mpr hname)
      · exact ih s hs (hbareIn before rfl) (allPickedFrom_iff.mp hinner s hs) (.inl rfl)
  | spread fragment directives => rw [Selection.AskedByName]; trivial
  | inline condition? directives inner => rw [Selection.AskedByName]; trivial

end Compilation

/-! ### Fields that can return a node -/

namespace Compilation

variable {schema : Schema} {declarations : List NodeDeclaration} {sources : List String}
  {aliases : Aliases} {type type' : String} {document document' : Document}
  (c : Compilation schema declarations sources aliases type document)
  (c' : Compilation schema declarations sources aliases type' document')

/-- The ID fragment that a document is looked up for is the first of its name. -/
lemma eq_of_find? {f : Fragment}
    (h : document.fragments.find? (·.name == c.idFragment.name) = some f) :
    f = c.cleaned (c.staged c.idFragment) := by
  have hname : f.name = c.idFragment.name := by simpa using List.find?_some h
  have hstays : c.stays (c.staged c.idFragment) = true := by
    have hmem := List.mem_of_find?_eq_some h
    rw [c.fragments_eq] at hmem
    obtain ⟨g, hg, rfl⟩ := List.mem_map.mp hmem
    have hg := c.stays_iff.mp (List.mem_filter.mp hg).2
    rw [show g.name = c.idFragment.name from hname] at hg
    exact c.stays_iff.mpr hg
  rw [c.fragments_eq, c.fragments_assembled, List.map_cons, List.filter_cons, if_pos hstays,
    List.map_cons, List.find?_cons_of_pos (by simp [cleaned, staged, Fragment.rewrite])] at h
  exact (Option.some.inj h).symm

/-- A fragment of a document that comes from custom fragments in which types can be followed. -/
def FromCustoms (g : Fragment) : Prop :=
  ∃ before, g = c.cleaned (c.staged before) ∧ (before ∈ c.nodeFragments
    ∨ ∃ custom ∈ c.customs, custom.Tracked schema
      ∧ before = custom.shallow schema c.references c.customs)

/-- Besides the ID fragment a document holds such fragments, and those that come from custom ones in
which a field with selections is not defined on its type. -/
lemma eq_or_fromCustoms_of_mem {g : Fragment} (hg : g ∈ document.fragments) :
    g = c.cleaned (c.staged c.idFragment) ∨ c.FromCustoms g
      ∨ ∃ custom ∈ c.customs, ¬ custom.Tracked schema
        ∧ g = c.cleaned (c.staged (custom.shallow schema c.references c.customs)) := by
  rw [c.fragments_eq, c.fragments_assembled] at hg
  obtain ⟨staged, hstaged, rfl⟩ := List.mem_map.mp hg
  obtain ⟨before, hbefore, rfl⟩ := List.mem_map.mp (List.mem_filter.mp hstaged).1
  rcases List.mem_cons.mp hbefore with rfl | hbefore
  · exact .inl rfl
  rcases List.mem_append.mp hbefore with hnode | hshared
  · exact .inr (.inl ⟨before, rfl, .inl hnode⟩)
  · rw [Stages.sharedFragments, otherFragments, makeShallow_eq_map] at hshared
    obtain ⟨custom, hcustom, rfl⟩ := List.mem_map.mp hshared
    have hcustom := (List.mem_filter.mp hcustom).1
    by_cases htracked : custom.Tracked schema
    · exact .inr (.inl ⟨_, rfl, .inr ⟨custom, hcustom, htracked, rfl⟩⟩)
    · exact .inr (.inr ⟨custom, hcustom, htracked, rfl⟩)

/-- What a field selects that is met from such a fragment has taken the place of what was selected
before, for its own type or for one above it, and has gone through the stages for all sets. -/
lemma exists_replacement_of_meets {g : Fragment} (h : c.FromCustoms g)
    (hschema : schema.Conforms) {t : NamedType} {ss : List Selection}
    (hmeets : schema.Meets c.references (g.site schema) t ss) :
    ∃ (result : TypeRef) (before : List Selection),
      schema.Below (some t) (schema.composite? result.namedType)
      ∧ ss = (c.finish ⟨.field, some t,
        (shallowing schema c.references c.customs).replacement result before⟩).selections := by
  obtain ⟨before, rfl, h⟩ := h
  have hfinished : schema.Meets c.references (c.finish (before.site schema)) t ss := hmeets
  obtain ⟨first, hfirst, rfl⟩ := c.exists_of_meets_finish hfinished
  have hreplaced : ∃ result before,
      first = (shallowing schema c.references c.customs).replacement result before
        ∧ schema.Below (some t) (schema.composite? result.namedType) := by
    rcases h with hbefore | ⟨custom, hcustom, htracked, rfl⟩
    · obtain ⟨-, hne, heq⟩ := exists_of_mem_fragmentsFor c.records_usages hbefore
      rw [heq] at hfirst
      refine Fragment.exists_replacement_of_meets hschema (trackedIn_iff.mpr fun s hs => ?_)
        (.of_ne_nil hne fun s hs => ?_) hfirst
      · obtain ⟨custom, -, hfound⟩ := c.mem_events.mp (c.records_usages.found hs)
        exact UsageWalk.tracked_of_found hschema hfound
      · exact Stages.obeys_of_found c.filled_customs (c.records_usages.found hs)
    · exact Fragment.exists_replacement_of_meets hschema htracked (c.filled_customs custom hcustom)
        hfirst
  obtain ⟨result, before, rfl, hbelow⟩ := hreplaced
  exact ⟨result, before, hbelow, rfl⟩

/-- What a field that can return a node gives of what the node's ID fragment picks. -/
lemma identified_of_meets {node : String}
    (own : Compilation schema declarations sources aliases node document')
    (hschema : schema.Lawful) (htypes : (declarations.map (·.type)).Nodup) {g : Fragment}
    (hg : c.FromCustoms g) {t : NamedType} {ss : List Selection}
    (hmeets : schema.Meets c.references (g.site schema) t ss)
    (happlies : schema.Applies t.name node) :
    (∀ s ∈ (own.finish (own.idFragment.site schema)).selections, s.isTypename = false
          ∨ s.AskedByName schema (declarations.map (·.type)) aliases false (some t) →
        s.PickedFrom false (selectionsOn node ss))
      ∨ ∃ above reference, above ≠ node ∧ Keyed.get? c.references above = some reference
        ∧ schema.Applies above t.name
        ∧ ss = (c.finish ⟨.field, some t, reference.selections⟩).selections
        ∧ ∀ s ∈ (own.finish (own.idFragment.site schema)).selections, s.PickedFrom false ss
          ↔ s.AskedByName schema (declarations.map (·.type)) aliases false (some t) := by
  obtain ⟨result, before, hbelow, rfl⟩ := c.exists_replacement_of_meets hg hschema.toConforms hmeets
  obtain ⟨htype, u, hu, habove⟩ := hbelow.exists_applies rfl
  have hnode : IsNode declarations node := own.declared.isNode
  obtain ⟨hobject, queries, idFragment, hdeclares, hreference⟩ :=
    exists_reference_of_isNode hschema c.references_made hnode
  obtain ⟨-, rfl⟩ := hdeclares.unique htypes own.declared
  have hsite : own.idFragment.site schema
      = ⟨.definition, schema.composite? node, own.idFragment.selections⟩ := by
    rw [Fragment.site, own.condition_eq]
  rw [hsite]
  rcases replacement_of_applies hschema c.references_made c.customs before hnode
    (hschema.applies_trans habove happlies) with
    ⟨reference, hget, hreplaced⟩ | ⟨v, hv, o, ho, rfl, hreplaced⟩
  · rw [hreplaced]
    by_cases hown : result.namedType = node
    · -- the reference is that of the node type, and the field has this type
      rw [hown] at hget habove hu
      obtain rfl := Option.some.inj (hreference.symm.trans hget)
      rw [← (Schema.applies_iff_of_isObject hobject).mp habove] at htype
      obtain rfl := Option.some.inj (htype.symm.trans (Schema.composite?_eq_some.mp hu).1)
      rw [hu]
      refine .inl fun s hs hs' => .mono ?_ (subset_selectionsOn _ _)
      cases htypename : s.isTypename with
      | true =>
          exact c.pickedFrom_finish_typename htypename (hs'.resolve_left (by simp [htypename]))
            List.mem_cons_self
      | false =>
          refine own.pickedFrom_finish c hs (fun s hs hother => ?_) (.inl htypename)
          exact List.mem_cons_of_mem _ (List.mem_filter.mpr ⟨hs, by simp [hother]⟩)
    · obtain ⟨_, idFragment, hdeclares', parts, hparts, hplain, hsub⟩ :=
        exists_merged_of_get? hschema c.references_made hget hnode
          (hschema.applies_trans habove happlies) hown
      obtain ⟨-, rfl⟩ := hdeclares'.unique htypes own.declared
      refine .inr ⟨_, reference, hown, hget, habove, rfl, fun s hs => ?_⟩
      rw [hparts]
      have hbare : ∀ x ∈ mergeAll [] parts, x.Bare := fun x hx => bare_of_mem_mergeAll hx
      constructor
      · intro h
        have htypenames : TypenamesPlain (mergeAll [] parts) :=
          .mergeAll (by simp [TypenamesPlain]) hplain
        exact c.askedByName_of_pickedFrom hbare h (.inr htypenames)
      · intro hasked
        refine own.pickedFrom_finish_merged c hbare hs (fun s hs hother => ?_) (.inl ?_) hasked
        · exact coveredBy_mergeAll (hsub (List.mem_cons_of_mem _
            (List.mem_filter.mpr ⟨hs, by simp [hother]⟩)))
        · have htypename : (Selection.plain "__typename").CoveredBy (mergeAll [] parts) :=
            coveredBy_mergeAll (hsub List.mem_cons_self)
          rwa [Selection.plain, Selection.CoveredBy] at htypename
  · -- the part for the node type gives its reference, and the type name is selected before
    rw [hreplaced]
    refine .inl fun s hs hs' => ?_
    cases htypename : s.isTypename with
    | true =>
        refine .mono ?_ (subset_selectionsOn _ _)
        exact c.pickedFrom_finish_typename htypename (hs'.resolve_left (by simp [htypename]))
          List.mem_cons_self
    | false =>
        have hpart : (shallowing schema c.references c.customs).selectionsFor before o.name
            = own.idFragment.selections.filter (!·.isTypename) :=
          ShallowRewriting.selectionsFor_reference (r := shallowing schema c.references c.customs)
            hreference
        have hpicked : s.PickedFrom false (c.finish ⟨.inline, schema.composite? o.name,
            own.idFragment.selections.filter (!·.isTypename)⟩).selections :=
          own.pickedFrom_finish c hs
            (fun s hs hother => List.mem_filter.mpr ⟨hs, by simp [hother]⟩) (.inl htypename)
        refine hpicked.mono ?_
        rw [← hpart]
        by_cases hnone : (shallowing schema c.references c.customs).selectionsFor before o.name = []
        · rw [hnone]
          exact List.nil_subset _
        · have hmem := ShallowRewriting.part_mem (r := shallowing schema c.references c.customs) ho
            hnone
          exact subset_selectionsOn_of_part (c.inline_mem_finish (List.mem_cons_of_mem _ hmem))

/-- An identity that is asked for by names alone can be read from a node that answers the set of any
field that can return the node. -/
theorem exists_pickId_of_meets {node : String}
    (own : Compilation schema declarations sources aliases node document')
    (hschema : schema.Lawful) (htypes : (declarations.map (·.type)).Nodup) {g : Fragment}
    (hg : c.FromCustoms g) {t : NamedType} {ss : List Selection} {fields : Keyed Json}
    (hmeets : schema.Meets c.references (g.site schema) t ss)
    (happlies : schema.Applies t.name node)
    (hasked : ∀ s ∈ (own.finish (own.idFragment.site schema)).selections,
      s.AskedByName schema (declarations.map (·.type)) aliases false (some t))
    (hanswered : AllAnswered fields (selectionsOn node ss)) :
    ∃ picked, (own.cleaned (own.staged own.idFragment)).pickId (.obj fields) = .ok picked := by
  have hpicked : ∀ s ∈ (own.finish (own.idFragment.site schema)).selections,
      s.PickedFrom false (selectionsOn node ss) := by
    intro s hs
    rcases c.identified_of_meets own hschema htypes hg hmeets happlies with
      h | ⟨above, reference, -, -, -, -, h⟩
    · exact h s hs (.inr (hasked s hs))
    · exact ((h s hs).mpr (hasked s hs)).mono (subset_selectionsOn _ _)
  exact Fragment.exists_pickId hpicked hanswered

end Compilation

/-- **What references carry.** Let a fragment of a compiled document come from custom fragments in
which types can be followed, and let a field in it that is met outside of references be able to
return a node. Then its set selects all that the compiled ID fragment of the node's type picks, at
every level under the same key with the same name and arguments, type names at the top with aliases
of their own apart; or it is the reference of an interface above the node's type, and selects just
what the ID fragment asks for by names alone. -/
theorem compiled_identified {schema : Schema} {declarations : List NodeDeclaration}
    {sources : List String} {aliases : Aliases} {documents : Keyed Document} {type : String}
    {document : Document} {definitions : Keyed NodeDefinition} {d : NodeDeclaration}
    {definition : NodeDefinition} {f : Fragment} (hschema : schema.Lawful)
    (htypes : (declarations.map (·.type)).Nodup)
    (hcompile : (compileQueries schema declarations sources aliases).outcome = .ok documents)
    (hdefinitions : nodeDefinitions declarations documents = .ok definitions)
    (hd : d ∈ declarations) (hdefinition : Keyed.get? definitions d.type = some definition)
    (hid : definition.idFragment = .ok f)
    (hdocument : Keyed.get? documents type = some document) :
    ∃ c : Compilation schema declarations sources aliases type document,
      ∀ g, c.FromCustoms g → ∀ t ss, schema.Meets c.references (g.site schema) t ss →
        schema.Applies t.name d.type →
        (∀ s ∈ f.selections, s.isTypename = false
            ∨ s.AskedByName schema (declarations.map (·.type)) aliases false (some t) →
          s.PickedFrom false (selectionsOn d.type ss))
        ∨ ∃ above reference, above ≠ d.type ∧ Keyed.get? c.references above = some reference
          ∧ schema.Applies above t.name
          ∧ ss = (c.finish ⟨.field, some t, reference.selections⟩).selections
          ∧ ∀ s ∈ f.selections, s.PickedFrom false ss
            ↔ s.AskedByName schema (declarations.map (·.type)) aliases false (some t) := by
  obtain ⟨c⟩ := exists_compilation hcompile hdocument
  obtain ⟨definitions', hdefinitions', hdefined⟩ := exists_nodeDefinitions hcompile htypes
  obtain rfl := Except.ok.inj (hdefinitions.symm.trans hdefinitions')
  obtain ⟨definition', hget, hdefines⟩ := hdefined d hd
  obtain rfl := Option.some.inj (hdefinition.symm.trans hget)
  obtain ⟨own⟩ := exists_compilation hcompile hdefines.2.1
  have hselections : f.selections = (own.finish (own.idFragment.site schema)).selections := by
    rw [NodeDefinition.idFragment, own.idFragmentName_eq htypes hd rfl hdefines] at hid
    cases hfind : definition.document.fragments.find? (·.name == own.idFragment.name) with
    | none => simp [hfind] at hid
    | some f' =>
        simp only [hfind, Except.ok.injEq] at hid
        rw [← hid, own.eq_of_find? hfind]
        rfl
  rw [hselections]
  exact ⟨c, fun g hg t ss hmeets happlies =>
    c.identified_of_meets own hschema htypes hg hmeets happlies⟩

/-! ### An identity that is lost -/

/-- A schema in which nodes refer to nodes by their own type and by an interface. -/
def linksSchema : Schema where
  types := [⟨"ID", .scalar⟩,
    ⟨"Named", .interface [] [⟨"id", .named "ID", []⟩]⟩,
    ⟨"Foo", .object ["Named"] [⟨"id", .named "ID", []⟩, ⟨"twin", .named "Foo", []⟩,
      ⟨"next", .named "Named", []⟩]⟩,
    ⟨"Query", .object [] [⟨"allFoo", .list (.named "Foo"), []⟩]⟩]
  directives := []
  query? := some "Query"

/-- The interface. -/
def linkType : NamedType := ⟨"Named", .interface [] [⟨"id", .named "ID", []⟩]⟩

lemma lawful_linksSchema : linksSchema.Lawful := by decide

/-- A declaration whose ID fragment gives the ID under a key of its own. -/
def keyDeclaration : NodeDeclaration where
  type := "Foo"
  queries := "query LIST_Foo { allFoo { ...FooId } } fragment FooId on Foo { key: id }"

/-- The ID under its key. -/
def keyField : Selection := .field (some "key") "id" [] [] none

/-- The ID fragment of the declaration. -/
def keyFragment : Fragment where
  name := "FooId"
  condition := "Foo"
  selections := [keyField]

/-- The queries of the declaration. -/
def keyQueries : Document :=
  [.operation (fooOperation [.spread "FooId" []]), .fragment keyFragment]

/-- A custom fragment that follows both fields. -/
def linksSource : String := "fragment Links on Foo { twin { id } next { id } }"

/-- The custom fragment of the source. -/
def linksFragment : Fragment where
  name := "Links"
  condition := "Foo"
  selections := [.plain "twin" (some [.plain "id"]), .plain "next" (some [.plain "id"])]

/-- The references to the type and its interface. -/
def linksReferences : References := [("Foo", keyFragment.reference "Foo"),
  ("Named", {
    name := "Named"
    condition := "Named"
    selections := [.plain "__typename", .plain "id"] })]

/-- What is selected in the end of a node that is referred to by the interface. -/
def nextSelections : List Selection :=
  [.field (some "remoteTypeName") "__typename" [] [] none,
    .field (some "remoteId") "id" [] [] none]

/-- The custom fragment in the compiled document. -/
def linksCompiled : Fragment where
  name := "Links"
  condition := "Foo"
  selections := [
    .plain "twin" (some [.field (some "remoteTypeName") "__typename" [] [] none, keyField]),
    .plain "next" (some nextSelections)]

/-- The document that is compiled from them. -/
def linksDocument : Document := [
  .operation (fooOperation [.field (some "remoteTypeName") "__typename" [] [] none,
    .spread "FooId" [], .spread "Links" [], .spread "Links__twin" [], .spread "Links__next" []]),
  .fragment keyFragment,
  .fragment linksCompiled,
  .fragment {
    name := "Links__twin"
    condition := "Foo"
    selections := [.field (some "remoteId") "id" [] [] none] },
  .fragment {
    name := "Links__next"
    condition := "Named"
    selections := [.field (some "remoteId") "id" [] [] none] }]

set_option maxRecDepth 10000 in
lemma read_keyDeclaration (index : Nat) :
    keyDeclaration.read index = .ok (keyQueries, keyFragment) := by
  have hscan : Token.scan? keyDeclaration.queries = some [.name "query", .name "LIST_Foo",
      .mark '\x7b', .name "allFoo", .mark '\x7b', .ellipsis, .name "FooId", .mark '\x7d',
      .mark '\x7d', .name "fragment", .name "FooId", .name "on", .name "Foo", .mark '\x7b',
      .name "key", .mark ':', .name "id", .mark '\x7d'] := by
    decide +kernel
  refine NodeDeclaration.read_eq_ok.mpr ⟨by decide, by decide, ?_, rfl, rfl⟩
  exact Document.parse?_of_scan hscan rfl

lemma referenceFragments_links :
    referenceFragments linksSchema [keyDeclaration] = .ok linksReferences := by
  rw [referenceFragments, typeReferences, read_keyDeclaration]
  rfl

set_option maxRecDepth 10000 in
lemma readFragments_links : readFragments [linksSource] = .ok [linksFragment] := by
  have hscan : Token.scan? linksSource = some [.name "fragment", .name "Links", .name "on",
      .name "Foo", .mark '\x7b', .name "twin", .mark '\x7b', .name "id", .mark '\x7d',
      .name "next", .mark '\x7b', .name "id", .mark '\x7d', .mark '\x7d'] := by
    decide +kernel
  exact readFragments_of_scan hscan rfl

lemma usages_links : Usages.ofEvents (usageEvents linksSchema linksReferences [linksFragment])
    = [("Foo", [("Links", linksFragment.selections), ("Links__twin", [.plain "id"])]),
      ("Named", [("Links__next", [.plain "id"])])] := by
  cbv

set_option maxRecDepth 10000 in
lemma compileQueries_links :
    (compileQueries linksSchema [keyDeclaration] [linksSource] defaultAliases).outcome
      = .ok [("Foo", linksDocument)] :=
  compileQueries_one (read_keyDeclaration 0) readFragments_links referenceFragments_links
    usages_links rfl

/-- The definition that is made of it. -/
def linksDefinition : NodeDefinition := ⟨"Foo", linksDocument, "FooId"⟩

lemma nodeDefinitions_links :
    nodeDefinitions [keyDeclaration] [("Foo", linksDocument)]
      = .ok [("Foo", linksDefinition)] := by
  rw [nodeDefinitions, definitionsFrom, read_keyDeclaration]
  rfl

lemma fromCustoms_links (c : Compilation linksSchema [keyDeclaration] [linksSource] defaultAliases
    "Foo" linksDocument) : c.FromCustoms linksCompiled := by
  have hid : c.idFragment = keyFragment := by
    obtain ⟨index, d, hd, -, hread⟩ := c.declared
    obtain rfl := List.mem_singleton.mp (List.mem_of_getElem? hd)
    exact (Prod.mk.inj (Except.ok.inj (hread.symm.trans (read_keyDeclaration index)))).2
  have hcustoms : c.customs = [linksFragment] :=
    Except.ok.inj (c.customs_read.symm.trans readFragments_links)
  have hmem : linksCompiled ∈ linksDocument.fragments := by
    simp [linksDocument, Document.fragments, Definition.fragment?]
  rcases c.eq_or_fromCustoms_of_mem hmem with heq | h | ⟨custom, hcustom, htracked, -⟩
  · have hname : linksCompiled.name = c.idFragment.name := by rw [heq]; rfl
    rw [hid] at hname
    exact absurd hname (by decide)
  · exact h
  · rw [hcustoms, List.mem_singleton] at hcustom
    subst hcustom
    refine absurd ?_ htracked
    simp only [Fragment.Tracked, linksFragment, Selection.plain, TrackedIn, Selection.Tracked,
      and_true]
    decide +kernel

/-- The field of the interface is met in the compiled custom fragment. -/
lemma meets_links : linksSchema.Meets linksReferences (linksCompiled.site linksSchema) linkType
    nextSelections :=
  .field (List.mem_cons_of_mem _ List.mem_cons_self) (by decide +kernel) rfl

/-- The key is not picked by the set of the field. -/
lemma not_pickedFrom_next : ¬ keyField.PickedFrom false (selectionsOn "Foo" nextSelections) := by
  simp [keyField, Selection.PickedFrom, selectionsOn, nextSelections, Selection.responseKey]

/-- **A reference that loses an identity.** The ID fragment gives the ID under a key of its own, and
the set of a field that can return the node gives it under another: the reference of an interface is
merged by field names. -/
theorem identity_lost : ∃ documents definitions definition f document references t ss,
    (compileQueries linksSchema [keyDeclaration] [linksSource] defaultAliases).outcome
        = .ok documents
      ∧ nodeDefinitions [keyDeclaration] documents = .ok definitions
      ∧ Keyed.get? definitions "Foo" = some definition ∧ definition.idFragment = .ok f
      ∧ Keyed.get? documents "Foo" = some document
      ∧ referenceFragments linksSchema [keyDeclaration] = .ok references
      ∧ linksCompiled ∈ document.fragments ∧ Keyed.has references t.name = true
      ∧ linksSchema.Meets references (linksCompiled.site linksSchema) t ss
      ∧ linksSchema.Applies t.name "Foo"
      ∧ ∃ s ∈ f.selections, s.isTypename = false
        ∧ ¬ s.PickedFrom false (selectionsOn "Foo" ss) :=
  ⟨_, _, linksDefinition, keyFragment, linksDocument, linksReferences, linkType, nextSelections,
    compileQueries_links, nodeDefinitions_links, rfl, rfl, rfl, referenceFragments_links,
    by simp [linksDocument, Document.fragments, Definition.fragment?], by decide, meets_links,
    .inr ⟨linkType, rfl, by decide⟩, keyField, List.mem_singleton_self _, rfl, not_pickedFrom_next⟩

/-- The set is the reference of an interface. -/
theorem compiled_identified_links :
    ∃ c : Compilation linksSchema [keyDeclaration] [linksSource] defaultAliases "Foo" linksDocument,
      c.FromCustoms linksCompiled ∧ ∃ above reference, above ≠ "Foo"
        ∧ Keyed.get? c.references above = some reference ∧ linksSchema.Applies above "Named"
        ∧ nextSelections = (c.finish ⟨.field, some linkType, reference.selections⟩).selections := by
  obtain ⟨c, h⟩ := compiled_identified lawful_linksSchema (by decide) compileQueries_links
    nodeDefinitions_links (List.mem_singleton_self keyDeclaration)
    (by rfl : Keyed.get? _ "Foo" = some linksDefinition)
    (by rfl : linksDefinition.idFragment = .ok keyFragment)
    (by rfl : Keyed.get? _ "Foo" = some linksDocument)
  have hreferences : c.references = linksReferences :=
    Except.ok.inj (c.references_made.symm.trans referenceFragments_links)
  refine ⟨c, fromCustoms_links c, ?_⟩
  rcases h linksCompiled (fromCustoms_links c) linkType nextSelections (hreferences ▸ meets_links)
      (.inr ⟨linkType, rfl, by decide⟩) with
    hpicked | ⟨above, reference, hother, hget, habove, hset, -⟩
  · exact absurd (hpicked keyField (List.mem_singleton_self _) (.inl rfl)) not_pickedFrom_next
  · exact ⟨above, reference, hother, hget, habove, hset⟩

end RemoteNodes
