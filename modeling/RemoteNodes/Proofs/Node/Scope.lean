import Mathlib.Tactic
import RemoteNodes.Proofs.Document.Success
import RemoteNodes.Proofs.Node.Fragments
import RemoteNodes.Proofs.Selection.Narrowing
/-!
The scope of what custom fragments are compiled to. The walk over them narrows all that it finds,
and references to nodes are in scope if the ID fragments are.

* `UsageWalk.scoped_of_found`: **the walk finds nothing that is out of scope**.
* `References.Scoped`, `scoped_referenceFragments`: references in scope.
* `ShallowRewriting.scopedIn_keptFor`: what applies to a possible type is in scope on it.
* `ShallowRewriting.keepsScope_shallow`: **making fragments shallow keeps scope**.
-/

namespace RemoteNodes

open Relation

/-! ### The walk over custom fragments -/

namespace UsageWalk

variable {w : UsageWalk} {t : NamedType} {path : String}

/-- That inline fragments are only on types which selections can be made on is inherited. -/
lemma inherited_names : w.Inherited fun s => w.schema.Names s.conditions where
  field h := by
    rw [Selection.conditions] at h
    exact Schema.names_conditionsIn_iff.mp h
  inline h := h.of_inline
  narrow h hs := h.mono (Selection.conditions_narrow?_subset hs)

section Known

variable (hschema : w.schema.Conforms)
include hschema

/-- The node types among the possible types of a known type are known. -/
lemma knows_of_mem_nodeTypes (ht : w.schema.Knows t) {p : NamedType} (hp : p ∈ w.nodeTypes t) :
    w.schema.Knows p := by
  rw [nodeTypes] at hp
  split at hp
  · rename_i habstract
    have hshape : t.shape ≠ .scalar := by
      intro hshape
      simp [NamedType.isAbstract, hshape] at habstract
    obtain ⟨hp, -⟩ := List.mem_filter.mp hp
    exact Schema.knows_of_composite?
      (hschema.of_mem_possibleTypes (ht.mem_of_ne_scalar hshape) hp).1
  · cases hp

/-- A step of the walk leads from a known type to a known one. -/
lemma Descends.knows {start next : NamedType × Selection} (h : w.Descends start next)
    (hnames : w.schema.Names start.2.conditions) (hstart : w.schema.Knows start.1) :
    w.schema.Knows next.1 := by
  cases h with
  | inline _ _ =>
      rw [Selection.conditions] at hnames
      exact hstart.conditionType (hnames.mono (List.subset_append_left _ _))
  | field _ _ _ _ => exact hstart.memberResult hschema _

/-- A field on a known type asks for selections on known types. -/
lemma Asks.knows {start : NamedType × Selection} {site : Site} (h : w.Asks path start site)
    (hstart : w.schema.Knows start.1) : w.schema.Knows site.type := by
  cases h with
  | all _ _ => exact hstart.memberResult hschema _
  | applicable _ _ hp _ => exact knows_of_mem_nodeTypes hschema (hstart.memberResult hschema _) hp

lemma Leads.knows {site site' : Site} (h : w.Leads site site')
    (hnames : ∀ s ∈ site.selections, w.schema.Names s.conditions)
    (hsite : w.schema.Knows site.type) : w.schema.Knows site'.type := by
  obtain ⟨first, hfirst, field, hchain, hasks⟩ := h
  refine hasks.knows hschema ?_
  have hfield : w.schema.Knows field.1 ∧ w.schema.Names field.2.conditions := by
    clear hasks
    induction hchain with
    | refl => exact ⟨hsite, inherited_names.narrowAll hnames first hfirst⟩
    | tail _ hnext ih =>
        exact ⟨hnext.knows hschema ih.2 ih.1, inherited_names.descends hnext ih.2⟩
  exact hfield.1

/-- All that is collected is collected on known types. -/
lemma knows_of_chain {site site' : Site} (h : ReflTransGen w.Leads site site')
    (hnames : ∀ s ∈ site.selections, w.schema.Names s.conditions)
    (hsite : w.schema.Knows site.type) : w.schema.Knows site'.type := by
  induction h with
  | refl => exact hsite
  | tail hbefore hnext ih => exact hnext.knows hschema (inherited_names.chain hbefore hnames) ih

/-- The walk over a custom fragment finds nothing that is out of scope: it narrows all that it
collects. -/
theorem scoped_of_found {f : Fragment} {type : String} {s : Selection}
    (hnames : w.schema.Names (conditionsIn f.selections))
    (h : .found type path s ∈ w.fragmentEvents f) :
    s.Scoped w.schema (w.schema.composite? type) := by
  obtain ⟨start, site, ⟨-, t, ht, rfl⟩, hchain, rfl, -, hs⟩ := found_mem_fragmentEvents_iff.mp h
  have hnames := Schema.names_conditionsIn_iff.mp hnames
  have hknows := knows_of_chain hschema hchain hnames (Schema.knows_of_composite? ht)
  have hinside := Schema.names_conditionsIn_iff.mpr (inherited_names.chain hchain hnames)
  exact scopedIn_iff.mp (scopedIn_narrowAll hschema hknows hinside) s hs

end Known

/-- Narrowing a custom fragment causes its warnings, unless the fragment is on a root type. -/
lemma warned_mem_fragmentEvents {f : Fragment}
    (hroot : w.schema.query? ≠ some f.condition ∧ w.schema.mutation? ≠ some f.condition)
    (ht : w.schema.composite? f.condition = some t) {warning : Warning}
    (h : warning ∈ narrowWarnings w.schema t f.selections) :
    .warned warning ∈ w.fragmentEvents f := by
  rw [fragmentEvents, if_neg (by simp [hroot])]
  simp only [ht]
  rw [collect]
  exact List.mem_append_left _ (List.mem_cons_of_mem _ (List.mem_map_of_mem h))

end UsageWalk

/-! ### References -/

/-- References that are all in scope on their types. -/
def References.Scoped (schema : Schema) (references : References) : Prop :=
  ∀ name f, Keyed.get? references name = some f →
    ScopedIn schema (schema.composite? name) f.selections

section References

variable {schema : Schema} {declarations : List NodeDeclaration} {references : References}

/-- The references of node types are in scope if the ID fragments are. -/
lemma scopedIn_of_declared (h : referenceFragments schema declarations = .ok references)
    (hid : ∀ type queries idFragment, Declares declarations type queries idFragment →
      idFragment.Scoped schema) {name : String} {f : Fragment}
    (hdeclared : name ∈ declarations.map (·.type)) (hf : Keyed.get? references name = some f) :
    ScopedIn schema (schema.composite? name) f.selections := by
  obtain ⟨entries, hentries, h⟩ := bind_eq_ok.mp h
  cases h
  rcases Keyed.mem_of_get?_overlay hf with hf | hf
  · -- a declared type is an object type, so there is nothing to merge for it
    obtain ⟨name', -, hf⟩ := List.mem_filterMap.mp hf
    obtain ⟨f', hf', heq⟩ := Option.map_eq_some_iff.mp hf
    cases heq
    obtain ⟨interface, fragments, hinterface, hlength, -, hselections⟩ :=
      exists_of_interfaceReference? hf'
    obtain ⟨d, hd, rfl⟩ := List.mem_map.mp hdeclared
    obtain ⟨t, ht, hobject⟩ := isObject_of_typeReferences hentries hd
    obtain rfl := Option.some.inj (ht.symm.trans hinterface)
    have hpossible : schema.possibleTypes t = [] := by
      rw [Schema.possibleTypes]
      cases hshape : t.shape <;> simp [NamedType.isObject, hshape] at hobject ⊢
    rw [hpossible] at hlength
    rw [hselections, List.eq_nil_of_length_eq_zero hlength]
    trivial
  · obtain ⟨⟨t, f'⟩, ht, heq⟩ := List.mem_map.mp (Keyed.mem_of_get?_ofPairs hf)
    cases heq
    obtain ⟨offset, d, queries, idFragment, hd, hread, hobject, rfl⟩ :=
      exists_of_mem_typeReferences hentries ht
    rw [Nat.zero_add] at hread
    have hname : t.name = d.type := Schema.name_of_type? (Option.filter_eq_some_iff.mp hobject).1
    have hscoped := hid d.type queries idFragment ⟨offset, d, hd, rfl, hread⟩
    obtain ⟨-, -, -, -, hcondition⟩ := NodeDeclaration.read_eq_ok.mp hread
    rw [Fragment.Scoped, hcondition, ← hname] at hscoped
    exact (hscoped.mono (List.filter_subset_self _)).typename_cons

/-- References are in scope if the ID fragments are, and those of interfaces. -/
theorem scoped_referenceFragments (h : referenceFragments schema declarations = .ok references)
    (hid : ∀ type queries idFragment, Declares declarations type queries idFragment →
      idFragment.Scoped schema)
    (hinterfaces : ∀ name f, Keyed.get? references name = some f →
      name ∉ declarations.map (·.type) → ScopedIn schema (schema.composite? name) f.selections) :
    references.Scoped schema := by
  intro name f hf
  by_cases hdeclared : name ∈ declarations.map (·.type)
  · exact scopedIn_of_declared h hid hdeclared hf
  · exact hinterfaces name f hf hdeclared

end References

/-! ### Shallow fragments -/

namespace ShallowRewriting

variable {r : ShallowRewriting} {ss : List Selection} {sup? : Option NamedType}

/-- What applies to a possible type is in scope on it, if all selections are in scope on a type
above it. -/
lemma scopedIn_keptFor (hschema : r.schema.Conforms) {possible : String}
    (hbelow : r.schema.Below (r.schema.composite? possible) sup?)
    (h : ScopedIn r.schema sup? ss) :
    ScopedIn r.schema (r.schema.composite? possible) (r.keptFor possible ss) := by
  induction ss using keptFor.induct generalizing sup? with
  | case1 =>
      rw [keptFor]
      trivial
  | case2 alias? name arguments directives selections? ss ih =>
      rw [keptFor]
      exact ⟨h.1.below hschema hbelow, ih hbelow h.2⟩
  | case3 directives inner ss ihinner ih =>
      rw [keptFor]
      exact (ihinner hbelow (Selection.scoped_inline.mp h.1)).append (ih hbelow h.2)
  | case4 condition directives inner ss ihinner ih =>
      have hinner : ScopedIn r.schema (r.schema.composite? condition) inner :=
        Selection.scoped_inline.mp h.1
      rw [keptFor]
      refine .append ?_ (ih hbelow h.2)
      split
      · rename_i hcondition
        rw [beq_iff_eq.mp hcondition] at hinner
        exact ihinner (.inl rfl) hinner
      · split
        · exact ⟨Selection.scoped_inline.mpr hinner, trivial⟩
        · trivial
  | case5 fragment directives ss ih =>
      rw [keptFor]
      refine .append ?_ (ih hbelow h.2)
      split
      · exact ⟨Selection.scoped_spread, trivial⟩
      · trivial

lemma scopedIn_selectionsFor (hschema : r.schema.Conforms) (href : r.references.Scoped r.schema)
    {possible : String} (hbelow : r.schema.Below (r.schema.composite? possible) sup?)
    (h : ScopedIn r.schema sup? ss) :
    ScopedIn r.schema (r.schema.composite? possible) (r.selectionsFor ss possible) := by
  rw [selectionsFor]
  refine ScopedIn.mono ?_ (List.filter_subset_self _)
  split
  · rename_i reference hreference
    exact href _ _ hreference
  · exact scopedIn_keptFor hschema hbelow h

/-- Selections that are split by possible types are in scope wherever they stand. -/
lemma scopedIn_split (hschema : r.schema.Conforms) (href : r.references.Scoped r.schema)
    {t : NamedType} {parent? : Option NamedType} (ht : t ∈ r.schema.types)
    (h : ScopedIn r.schema (some t) ss) : ScopedIn r.schema parent? (r.split t ss) := by
  refine ScopedIn.typename_cons (scopedIn_iff.mpr fun s hs => ?_)
  obtain ⟨p, hp, hs⟩ := List.mem_filterMap.mp hs
  obtain ⟨hcomposite, -, hsub⟩ := hschema.of_mem_possibleTypes ht hp
  have hbelow : r.schema.Below (r.schema.composite? p.name) (some t) :=
    .inr ⟨t, p, rfl, hcomposite, ht, (Schema.composite?_eq_some.mp hcomposite).1, hsub⟩
  split at hs
  · cases hs
  · cases hs
    exact Selection.scoped_inline.mpr (scopedIn_selectionsFor hschema href hbelow h)

lemma scopedIn_replacement (hschema : r.schema.Conforms) (href : r.references.Scoped r.schema)
    {type : TypeRef} (h : ScopedIn r.schema (r.schema.composite? type.namedType) ss) :
    ScopedIn r.schema (r.schema.composite? type.namedType) (r.replacement type ss) := by
  rw [replacement]
  split
  · rename_i reference hreference
    exact href _ _ hreference
  · split
    · rename_i t ht
      split
      · rename_i hsplit
        obtain ⟨habstract, -⟩ := Bool.and_eq_true_iff.mp hsplit
        have hcomposite : t.isComposite = true := by
          rw [NamedType.isComposite, habstract, Bool.or_true]
        rw [Schema.composite?_eq_some.mpr ⟨ht, hcomposite⟩] at h
        exact scopedIn_split hschema href (Schema.mem_of_type? ht) h
      · exact h
    · exact h

/-- Making fragments shallow keeps scope, if the references are in scope. -/
theorem keepsScope_shallow (hschema : r.schema.Conforms) (href : r.references.Scoped r.schema) :
    r.rewriting.KeepsScope r.schema where
  field parent? s hs := by
    cases s with
    | field alias? name arguments directives selections? =>
        cases selections? with
        | none => exact hs
        | some ss =>
            dsimp only [rewriting, field]
            split
            · exact hs
            · split
              · exact hs
              · rename_i type htype
                refine Selection.scoped_composite.mpr
                  ((Selection.scoped_composite.mp hs).imp_right ?_)
                rw [Schema.insideField?, htype, Option.bind_some]
                exact And.imp_right (scopedIn_replacement hschema href)
    | spread fragment directives => exact hs
    | inline condition? directives ss => exact hs
  set _ _ _ h := h

end ShallowRewriting

/-- A fragment in scope is in scope once it is made shallow. -/
lemma Fragment.Scoped.shallow {schema : Schema} {references : References} {customs : List Fragment}
    {f : Fragment} (hf : f.Scoped schema) (hschema : schema.Conforms)
    (href : references.Scoped schema) : (f.shallow schema references customs).Scoped schema := by
  let r : ShallowRewriting :=
    ⟨schema, references, Keyed.ofPairs (customs.map fun f => (f.name, f.condition))⟩
  exact ScopedIn.rewriteAll (r.keepsScope_shallow hschema href) hf .definition

end RemoteNodes
