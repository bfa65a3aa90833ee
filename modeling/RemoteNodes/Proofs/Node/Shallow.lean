import Mathlib
import RemoteNodes.Proofs.Node.Splitting
import RemoteNodes.Proofs.Selection.Tracked
/-!
Compiled fragments do not enter other nodes. Wherever a field can return a node, the fields that are
collected for it are those of a reference.

* `Schema.Returns`: the types of the objects that a field can return; `Schema.Finds`: the fields
  with selections that are met on the way from an object, through objects that are no nodes.
* `Fragment.IsShallow`: a fragment under whose fields nodes give nothing but a reference.
* `exists_gathers_replacement`: **what takes the place of selections gives a node its reference**;
  `finds_of_replacement`: an object that is no node finds in it only what was there before.
* `Fragment.Tracked.isShallow`: a fragment in which types can be followed is shallow once it is
  rewritten.
* `UsageWalk.tracked_of_found`: in all that the walk over custom fragments finds, types can be
  followed; `isShallow_fragments`: **the fragments of node types are shallow**, and the others are
  where types can be followed in the custom fragments.
* `not_isShallow_items`: another fragment that enters a node.
-/

namespace RemoteNodes

/-! ### Objects and their fields -/

section Objects

variable (schema : Schema) (declarations : List NodeDeclaration)

/-- A field that the type of an object declares can return an object of a type. -/
def Schema.Returns (object name object' : String) : Prop :=
  isMetaName name = false ∧ ∃ t f, schema.type? object = some t ∧ t.field? name = some f
    ∧ schema.Applies f.type.namedType object' ∧ schema.IsObject object'

/-- On the way from an object of a type through a selection set a field with a selection set is met,
on an object of a type. The way goes through fields that return objects which are no nodes. -/
inductive Schema.Finds : String → List Selection → String → String → List Selection → Prop
  | field {object name : String} {ss inner : List Selection} {alias? : Option String}
      {arguments : List Argument} {directives : List Directive}
      (hs : .field alias? name arguments directives (some inner) ∈ ss) :
      Finds object ss object name inner
  | inline {object object' name : String} {ss within inner : List Selection}
      {condition? : Option String} {directives : List Directive}
      (hs : .inline condition? directives within ∈ ss)
      (happlies : ∀ condition, condition? = some condition → schema.Applies condition object)
      (h : Finds object within object' name inner) : Finds object ss object' name inner
  | inside {object between object' via name : String} {ss within inner : List Selection}
      {alias? : Option String} {arguments : List Argument} {directives : List Directive}
      (hs : .field alias? via arguments directives (some within) ∈ ss)
      (hreturns : schema.Returns object via between) (hother : ¬ IsNode declarations between)
      (h : Finds between within object' name inner) : Finds object ss object' name inner

/-- Under a field of an object nodes give nothing but a reference: for each type of nodes that the
field can return, its selection set collects the fields of the reference of that type, or of one
above it. -/
def OnlyRefers (references : References) (object name : String) (inner : List Selection) : Prop :=
  ∀ node, IsNode declarations node → schema.Returns object name node →
    ∃ type reference, Keyed.get? references type = some reference ∧ schema.Applies type node
      ∧ ∀ (x : Execution) document s, x.Gathers schema document node inner s
        ↔ x.Gathers schema document node reference.selections s

/-- A fragment is shallow if, on every way from an object that it applies to, nodes give nothing but
a reference. -/
def Fragment.IsShallow (references : References) (f : Fragment) : Prop :=
  ∀ object, schema.IsObject object → schema.Applies f.condition object →
    ∀ object' name inner, schema.Finds declarations object f.selections object' name inner →
      inner ≠ [] → OnlyRefers schema declarations references object' name inner

end Objects

variable {schema : Schema} {declarations : List NodeDeclaration} {references : References}
  {customs : List Fragment} {object object' name : String} {ss ss' inner : List Selection}

namespace Schema.Finds

/-- What is found in a set is found in one of its members. -/
lemma exists_mem (h : schema.Finds declarations object ss object' name inner) :
    ∃ s ∈ ss, schema.Finds declarations object [s] object' name inner := by
  cases h with
  | field hs => exact ⟨_, hs, .field (List.mem_singleton_self _)⟩
  | inline hs happlies h => exact ⟨_, hs, .inline (List.mem_singleton_self _) happlies h⟩
  | inside hs hreturns hother h =>
      exact ⟨_, hs, .inside (List.mem_singleton_self _) hreturns hother h⟩

lemma mono (h : schema.Finds declarations object ss object' name inner) (hsub : ss ⊆ ss') :
    schema.Finds declarations object ss' object' name inner := by
  cases h with
  | field hs => exact .field (hsub hs)
  | inline hs happlies h => exact .inline (hsub hs) happlies h
  | inside hs hreturns hother h => exact .inside (hsub hs) hreturns hother h

/-- What is found in two sets together is found in one of them. -/
lemma of_append (ss ss' : List Selection)
    (h : schema.Finds declarations object (ss ++ ss') object' name inner) :
    schema.Finds declarations object ss object' name inner
      ∨ schema.Finds declarations object ss' object' name inner := by
  obtain ⟨s, hs, h⟩ := h.exists_mem
  exact (List.mem_append.mp hs).imp (fun hs => h.mono (by simpa using hs))
    fun hs => h.mono (by simpa using hs)

/-- Nothing is found in the empty set. -/
lemma not_nil : ¬ schema.Finds declarations object [] object' name inner := by
  intro h
  obtain ⟨s, hs, -⟩ := h.exists_mem
  cases hs

end Schema.Finds

/-! ### What takes the place of selections -/

namespace ShallowRewriting

variable {r : ShallowRewriting}

/-- What is found among the selections kept for an object is found among all. -/
lemma finds_of_keptFor
    (h : r.schema.Finds declarations object (r.keptFor object ss) object' name inner) :
    r.schema.Finds declarations object ss object' name inner := by
  induction ss using keptFor.induct with
  | case1 =>
      rw [keptFor] at h
      exact h
  | case2 alias? name' arguments directives selections? ss ih =>
      rw [keptFor] at h
      rcases Schema.Finds.of_append [_] _ h with h | h
      · exact h.mono (by simp)
      · exact (ih h).mono (List.subset_cons_self _ _)
  | case3 directives within ss ihinner ih =>
      rw [keptFor] at h
      rcases Schema.Finds.of_append _ _ h with h | h
      · exact .inline List.mem_cons_self (by simp) (ihinner h)
      · exact (ih h).mono (List.subset_cons_self _ _)
  | case4 condition directives within ss ihinner ih =>
      rw [keptFor] at h
      rcases Schema.Finds.of_append _ _ h with h | h
      · split at h
        · rename_i hcondition
          refine .inline List.mem_cons_self (fun _ heq => ?_) (ihinner h)
          cases heq
          exact .inl (beq_iff_eq.mp hcondition)
        · split at h
          · exact h.mono (by simp)
          · exact absurd h Schema.Finds.not_nil
      · exact (ih h).mono (List.subset_cons_self _ _)
  | case5 fragment directives ss ih =>
      rw [keptFor] at h
      rcases Schema.Finds.of_append _ _ h with h | h
      · split at h
        · exact h.mono (by simp)
        · exact absurd h Schema.Finds.not_nil
      · exact (ih h).mono (List.subset_cons_self _ _)

/-- An object finds among the parts of a split set only what is selected for it. -/
lemma finds_of_split (hschema : r.schema.Conforms) {t : NamedType} (ht : t ∈ r.schema.types)
    (h : r.schema.Finds declarations object (r.split t ss) object' name inner) :
    r.schema.Finds declarations object (r.selectionsFor ss object) object' name inner := by
  obtain ⟨s, hs, h⟩ := h.exists_mem
  rcases List.mem_cons.mp hs with rfl | hs
  · cases h with
    | field hs | inline hs _ _ | inside hs _ _ _ => cases List.mem_singleton.mp hs
  · obtain ⟨p, hp, hpart⟩ := List.mem_filterMap.mp hs
    split at hpart
    · cases hpart
    · cases hpart
      cases h with
      | inline hs happlies h =>
          cases List.mem_singleton.mp hs
          obtain ⟨hcomposite, hobject, -⟩ := hschema.of_mem_possibleTypes ht hp
          have hisObject : r.schema.IsObject p.name :=
            ⟨p, (Schema.composite?_eq_some.mp hcomposite).1, hobject⟩
          rwa [(Schema.applies_iff_of_isObject hisObject).mp (happlies p.name rfl)] at h
      | field hs | inside hs _ _ _ => cases List.mem_singleton.mp hs

end ShallowRewriting

section Replacement

variable (hschema : schema.Lawful)
  (hreferences : referenceFragments schema declarations = .ok references)
include hschema hreferences

/-- An object type under a type with a reference is a node type. -/
lemma isNode_of_applies {type : String} {reference : Fragment}
    (hget : Keyed.get? references type = some reference) (happlies : schema.Applies type object)
    (hobject : schema.IsObject object) : IsNode declarations object := by
  rcases isNode_or_interface_of_get? hreferences hget with
    ⟨_, _, hdeclares, -, hisObject⟩ | ⟨t, ht, himplements, i, hi, hnodes⟩
  · exact (Schema.applies_iff_of_isObject hisObject).mp happlies ▸ hdeclares.isNode
  · obtain ⟨o, ho, hisObject⟩ := hobject
    rcases happlies with rfl | ⟨i', hi', hsub⟩
    · obtain rfl := Option.some.inj (ho.symm.trans hi)
      simp [hschema.interface t ht type himplements o ho] at hisObject
    · obtain rfl := Option.some.inj (hi.symm.trans hi')
      obtain rfl := Schema.name_of_type? ho
      exact hnodes o (hschema.mem_possibleTypes ho hisObject hsub)

/-- What takes the place of the selections of a field that can return a node: the reference to the
type of the field, or the selections split by the possible types of that type. -/
lemma replacement_of_applies (customs : List Fragment) (ss : List Selection) {type : TypeRef}
    {node : String} (hnode : IsNode declarations node)
    (happlies : schema.Applies type.namedType node) :
    (∃ reference, Keyed.get? references type.namedType = some reference
        ∧ (shallowing schema references customs).replacement type ss = reference.selections)
      ∨ ∃ t ∈ schema.types, ∃ o ∈ schema.possibleTypes t, o.name = node
        ∧ (shallowing schema references customs).replacement type ss
          = (shallowing schema references customs).split t ss := by
  cases hget : Keyed.get? references type.namedType with
  | some reference =>
      refine .inl ⟨reference, rfl, ?_⟩
      rw [ShallowRewriting.replacement]
      dsimp only [shallowing]
      rw [hget]
  | none =>
      -- the type of the field is above the node type, so its selections are split
      obtain ⟨⟨o, ho, hobject⟩, queries, idFragment, -, hreference⟩ :=
        exists_reference_of_isNode hschema hreferences hnode
      rcases happlies with hsame | ⟨t, ht, hsub⟩
      · rw [hsame, hreference] at hget
        cases hget
      obtain rfl := Schema.name_of_type? ho
      have hp := hschema.mem_possibleTypes ho hobject hsub
      refine .inr ⟨t, Schema.mem_of_type? ht, o, hp, rfl, ?_⟩
      exact ShallowRewriting.replacement_eq_split hget ht (Schema.isAbstract_of_isSubType hsub)
        (List.any_eq_true.mpr ⟨o, hp, by
          dsimp only [shallowing]
          rw [Keyed.has, hreference]
          rfl⟩)

/-- **What takes the place of selections gives a node its reference**, or that of the type of the
field. -/
theorem exists_gathers_replacement {type : TypeRef} {node : String}
    (hnode : IsNode declarations node) (happlies : schema.Applies type.namedType node) :
    ∃ above reference, Keyed.get? references above = some reference
      ∧ schema.Applies above node ∧ ∀ (x : Execution) document s,
        x.Gathers schema document node
            ((shallowing schema references customs).replacement type ss) s
          ↔ x.Gathers schema document node reference.selections s := by
  rcases replacement_of_applies hschema hreferences customs ss hnode happlies with
    ⟨reference, hget, hreplaced⟩ | ⟨t, ht, o, hp, rfl, hreplaced⟩
  · refine ⟨type.namedType, reference, hget, happlies, fun x document s => ?_⟩
    rw [hreplaced]
  · obtain ⟨-, queries, idFragment, -, hreference⟩ :=
      exists_reference_of_isNode hschema hreferences hnode
    refine ⟨o.name, _, hreference, .inl rfl, fun x document s => ?_⟩
    rw [hreplaced]
    refine (Execution.gathers_split (r := shallowing schema references customs)
      hschema.toConforms ht hp).trans ?_
    rw [ShallowRewriting.selectionsFor_reference (r := shallowing schema references customs)
      hreference, Fragment.reference, Execution.gathers_cons]
    refine or_congr_left ?_
    rw [Selection.plain, Execution.gathers_field]
    exact (and_iff_left x.admits_nil).symm

/-- An object that is no node finds in what takes the place of selections only what was there. -/
lemma finds_of_replacement {type : TypeRef} (hother : ¬ IsNode declarations object)
    (hobject : schema.IsObject object) (happlies : schema.Applies type.namedType object)
    (h : schema.Finds declarations object
      ((shallowing schema references customs).replacement type ss) object' name inner) :
    schema.Finds declarations object ss object' name inner := by
  rw [ShallowRewriting.replacement] at h
  split at h
  · rename_i reference hget
    exact absurd (isNode_of_applies hschema hreferences hget happlies hobject) hother
  · split at h
    · rename_i t ht
      split at h
      · have hnone : Keyed.get? references object = none := by
          cases hget : Keyed.get? references object with
          | none => rfl
          | some f => exact absurd (isNode_of_get? hschema hreferences hobject hget) hother
        have h := ShallowRewriting.finds_of_split (r := shallowing schema references customs)
          hschema.toConforms (Schema.mem_of_type? ht) h
        rw [ShallowRewriting.selectionsFor_eq hnone] at h
        exact ShallowRewriting.finds_of_keptFor (h.mono (List.filter_subset_self _))
      · exact h
    · exact h

/-! ### Rewritten selections -/

omit hreferences in
/-- What a field of an object can return lies under the type that the field has on a type above. -/
lemma applies_of_returns {t : NamedType} (ht : schema.composite? t.name = some t) {type : TypeRef}
    (htype : schema.fieldType? (some t) name = some type)
    (happlies : schema.Applies t.name object) (h : schema.Returns object name object') :
    schema.Applies type.namedType object' := by
  obtain ⟨hname, o, g, ho, hg, hresult, -⟩ := h
  rw [Schema.fieldType?, Option.bind_some, Schema.fieldDefinition?_of_not_meta hname] at htype
  obtain ⟨f, hf, rfl⟩ := Option.map_eq_some_iff.mp htype
  have htype := (Schema.composite?_eq_some.mp ht).1
  rcases happlies with hsame | ⟨t', ht', hsub⟩
  · rw [hsame] at htype
    obtain rfl := Option.some.inj (htype.symm.trans ho)
    obtain rfl := Option.some.inj (hf.symm.trans hg)
    exact hresult
  · obtain rfl := Option.some.inj (htype.symm.trans ht')
    obtain ⟨g', hg', hbelow⟩ :=
      hschema.field?_of_isSubType (Schema.mem_of_type? htype) ho hsub hf
    obtain rfl := Option.some.inj (hg.symm.trans hg')
    exact hschema.applies_trans hbelow hresult

/-- On the way from an object through a rewritten selection, nodes give nothing but a reference, if
types can be followed in the selection. -/
lemma onlyRefers_of_finds_rewrite {s : Selection} {t : NamedType}
    (ht : schema.composite? t.name = some t) (hs : s.Tracked schema (some t))
    (happlies : schema.Applies t.name object) (hobject : schema.IsObject object)
    (h : schema.Finds declarations object
      [s.rewrite schema (shallowing schema references customs).rewriting (some t)]
      object' name inner) (hne : inner ≠ []) :
    OnlyRefers schema declarations references object' name inner := by
  have hset {u : NamedType} {object : String} {ss : List Selection}
      (ih : ∀ s ∈ ss, ∀ t object, schema.composite? t.name = some t →
        s.Tracked schema (some t) → schema.Applies t.name object → schema.IsObject object →
        schema.Finds declarations object
          [s.rewrite schema (shallowing schema references customs).rewriting (some t)]
          object' name inner → OnlyRefers schema declarations references object' name inner)
      (hu : schema.composite? u.name = some u) (hss : TrackedIn schema (some u) ss)
      (happlies : schema.Applies u.name object) (hobject : schema.IsObject object)
      (h : schema.Finds declarations object
        (rewriteAll schema (shallowing schema references customs).rewriting (some u) ss)
        object' name inner) : OnlyRefers schema declarations references object' name inner := by
    obtain ⟨s', hs', h⟩ := h.exists_mem
    rw [rewriteAll_eq_map] at hs'
    obtain ⟨s, hs, rfl⟩ := List.mem_map.mp hs'
    exact ih s hs u object hu (trackedIn_iff.mp hss s hs) happlies hobject h
  induction s using Selection.induct generalizing t object with
  | leaf alias? name' arguments directives =>
      cases h with
      | field hs | inline hs _ _ | inside hs _ _ _ => cases List.mem_singleton.mp hs
  | composite alias? name' arguments directives ss ih =>
      obtain ⟨replaced, hreplaced, hreplacement⟩ :=
        exists_rewrite_composite schema references customs (some t) alias? name' arguments
          directives ss
      -- what the field returns lies under its type, and its selections can be followed
      have htyped {object' : String} (hreturns : schema.Returns object name' object')
          (hne : replaced ≠ []) : ∃ type, schema.Applies type.namedType object'
            ∧ TrackedIn schema (schema.composite? type.namedType) ss
            ∧ replaced = (shallowing schema references customs).replacement type
              (rewriteAll schema (shallowing schema references customs).rewriting
                (schema.composite? type.namedType) ss) := by
        rw [Selection.Tracked] at hs
        rcases hs with hs | hs | ⟨hfield, hss⟩
        · cases hs
        · simp [hreturns.1] at hs
        · obtain ⟨type, htype⟩ := Option.isSome_iff_exists.mp hfield
          have hinside : schema.insideField? (some t) name'
              = schema.composite? type.namedType := by
            rw [Schema.insideField?, htype, Option.bind_some]
          rw [hinside] at hss hreplacement
          exact ⟨type, applies_of_returns hschema ht htype happlies hreturns, hss,
            hreplacement hne type htype⟩
      rw [hreplaced] at h
      cases h with
      | field hmem =>
          cases List.mem_singleton.mp hmem
          intro node hnode hreturns
          obtain ⟨type, hbelow, -, rfl⟩ := htyped hreturns hne
          exact exists_gathers_replacement hschema hreferences hnode hbelow
      | inline hmem _ _ => cases List.mem_singleton.mp hmem
      | @inside _ between _ _ _ _ _ _ _ _ _ hmem hreturns hother h =>
          cases List.mem_singleton.mp hmem
          obtain ⟨type, hbelow, hss, rfl⟩ := htyped hreturns (by
            rintro rfl
            exact h.not_nil)
          have hbetween : schema.IsObject between := by
            obtain ⟨-, _, _, -, -, -, hbetween⟩ := hreturns
            exact hbetween
          obtain ⟨u, hu, hname⟩ := Schema.exists_composite?_of_applies hbelow hbetween
          have h := finds_of_replacement hschema hreferences hother hbetween hbelow h
          rw [hu] at h hss
          rw [← hname] at hu hbelow
          exact hset (fun s hs t object ht hs' happlies hobject h =>
            ih s hs ht hs' happlies hobject h) hu hss hbelow hbetween h
  | spread fragment directives =>
      rw [Selection.rewrite] at h
      cases h with
      | field hmem | inline hmem _ _ | inside hmem _ _ _ => cases List.mem_singleton.mp hmem
  | inline condition? directives ss ih =>
      rw [Selection.rewrite] at h
      rw [Selection.Tracked] at hs
      cases h with
      | field hmem | inside hmem _ _ _ => cases List.mem_singleton.mp hmem
      | inline hmem hcondition h =>
          cases List.mem_singleton.mp hmem
          have hih := fun s hs t object ht hs' happlies hobject h =>
            @ih s hs object t ht hs' happlies hobject h
          cases condition? with
          | none => exact hset hih ht hs happlies hobject h
          | some condition =>
              have hbelow := hcondition condition rfl
              obtain ⟨u, hu, rfl⟩ := Schema.exists_composite?_of_applies hbelow hobject
              rw [Schema.insideInline?, hu] at hs
              dsimp only [Schema.insideInline?] at h
              rw [hu] at h
              exact hset hih hu hs hbelow hobject h

/-- **A fragment in which types can be followed is shallow** once it is rewritten. -/
theorem Fragment.Tracked.isShallow {f : Fragment} (hf : f.Tracked schema) :
    (f.shallow schema references customs).IsShallow schema declarations references := by
  intro object hobject happlies object' name inner h hne
  obtain ⟨u, hu, hname⟩ := Schema.exists_composite?_of_applies happlies hobject
  rw [Fragment.condition_shallow] at hu hname happlies
  obtain ⟨s', hs', h⟩ := h.exists_mem
  rw [Fragment.shallow_eq, Fragment.rewrite, hu] at hs'
  dsimp only [ShallowRewriting.rewriting] at hs'
  rw [← ShallowRewriting.rewriting, rewriteAll_eq_map] at hs'
  obtain ⟨s, hs, rfl⟩ := List.mem_map.mp hs'
  rw [Fragment.Tracked, hu, trackedIn_iff] at hf
  rw [← hname] at hu happlies
  exact onlyRefers_of_finds_rewrite hschema hreferences hu (hf s hs) happlies hobject h hne

end Replacement

/-! ### The walk over custom fragments -/

namespace UsageWalk

open Relation

variable {w : UsageWalk} {path : String}

lemma mem_types_of_mem_nodeTypes {t p : NamedType} (hp : p ∈ w.nodeTypes t) :
    p ∈ w.schema.types := by
  rw [nodeTypes] at hp
  split at hp
  · obtain ⟨hp, -⟩ := List.mem_filter.mp hp
    exact Schema.mem_types_of_mem_possibleTypes hp
  · cases hp

/-- What a field asks for is made on a type of the schema, or on a scalar in its place. -/
lemma Asks.familiar {start : NamedType × Selection} {site : Site} (h : w.Asks path start site) :
    w.schema.Familiar site.type := by
  cases h with
  | all _ _ => exact .memberResult _ _
  | applicable _ _ hp _ => exact .inl (mem_types_of_mem_nodeTypes hp)

/-- All that is collected is collected on such types. -/
lemma familiar_of_chain {site site' : Site} (h : ReflTransGen w.Leads site site')
    (hsite : w.schema.Familiar site.type) : w.schema.Familiar site'.type := by
  cases h with
  | refl => exact hsite
  | tail _ hnext =>
      obtain ⟨-, -, _, -, hasks⟩ := hnext
      exact hasks.familiar

/-- In all that the walk over a custom fragment finds, types can be followed. -/
theorem tracked_of_found (hschema : w.schema.Conforms) {f : Fragment} {type : String}
    {s : Selection} (h : .found type path s ∈ w.fragmentEvents f) :
    s.Tracked w.schema (w.schema.composite? type) := by
  obtain ⟨start, site, ⟨-, t, ht, rfl⟩, hchain, rfl, -, hs⟩ := found_mem_fragmentEvents_iff.mp h
  have hfollows : site.type.Follows (w.schema.composite? site.type.name) := by
    rcases familiar_of_chain hchain (.inl (Schema.mem_of_type? (Schema.composite?_eq_some.mp ht).1))
      with hmem | hscalar
    · exact .composite? (hschema.type?_of_mem hmem)
    · exact .inr (.inl hscalar)
  exact trackedIn_iff.mp (trackedIn_narrowAll hfollows) s hs

end UsageWalk

/-! ### Compiled fragments -/

/-- **Compiled fragments do not enter other nodes.** The fragments of each node type are shallow; so
is every other fragment that comes from a custom fragment in which types can be followed. -/
theorem isShallow_fragments (hschema : schema.Lawful)
    (hreferences : referenceFragments schema declarations = .ok references) {usages : Usages}
    (husages : (typeUsages schema customs references).outcome = .ok usages) :
    (∀ type fragments, Keyed.get? (nodeFragments schema declarations usages references customs) type
        = some fragments →
      ∀ f ∈ fragments, f.IsShallow schema declarations references)
      ∧ ∀ f ∈ otherFragments schema declarations references customs,
        ∃ custom ∈ customs, f = custom.shallow schema references customs
          ∧ (custom.Tracked schema → f.IsShallow schema declarations references) := by
  constructor
  · intro type fragments hget f hf
    obtain ⟨d, -, heq⟩ := List.mem_map.mp (Keyed.mem_of_get?_ofPairs hget)
    cases heq
    obtain rfl := (Except.ok.inj husages).symm
    have hrecords := Usages.records_ofEvents (customs.flatMap
      (UsageWalk.fragmentEvents ⟨schema, references,
        Keyed.ofPairs (customs.map fun f => (f.name, f.condition))⟩))
    obtain ⟨-, -, heq⟩ := exists_of_mem_fragmentsFor hrecords hf
    rw [heq]
    refine Fragment.Tracked.isShallow hschema hreferences (trackedIn_iff.mpr fun s hs => ?_)
    obtain ⟨custom, -, hfound⟩ := List.mem_flatMap.mp (hrecords.found hs)
    exact UsageWalk.tracked_of_found hschema.toConforms hfound
  · intro f hf
    rw [otherFragments, makeShallow_eq_map] at hf
    obtain ⟨custom, hcustom, rfl⟩ := List.mem_map.mp hf
    exact ⟨custom, (List.mem_filter.mp hcustom).1, rfl,
      fun htracked => htracked.isShallow hschema hreferences⟩

lemma not_isNode_meta : ¬ IsNode [fooDeclaration] "Meta" := by
  rintro ⟨d, hd, hname⟩
  rw [List.mem_singleton.mp hd] at hname
  exact absurd hname (by decide)

/-- A custom fragment that selects the author of what is no node, known by its type. -/
def authorFragment : Fragment where
  name := "Top"
  condition := "Top"
  selections := [.plain "items" (some [
    .inline (some "Meta") [] [.plain "author" (some [.plain "name"])]])]

/-- Types can be followed to the author, so its fragment is shallow. -/
theorem isShallow_fragments_author :
    ∃ f, otherFragments itemSchema [fooDeclaration] fooReferences [authorFragment] = [f]
      ∧ f.IsShallow itemSchema [fooDeclaration] fooReferences := by
  have husages : (typeUsages itemSchema [authorFragment] fooReferences).outcome = .ok _ := rfl
  obtain ⟨-, hothers⟩ :=
    isShallow_fragments lawful_itemSchema referenceFragments_item husages
  refine ⟨_, rfl, ?_⟩
  obtain ⟨custom, hcustom, -, hshallow⟩ := hothers _ (List.mem_singleton_self _)
  obtain rfl := List.mem_singleton.mp hcustom
  refine hshallow ?_
  have hitems : (itemSchema.fieldType? (itemSchema.composite? "Top") "items").isSome = true := rfl
  have hauthor : (itemSchema.fieldType? (itemSchema.composite? "Meta") "author").isSome = true :=
    rfl
  simp [Fragment.Tracked, authorFragment, Selection.plain, TrackedIn, Selection.Tracked,
    Schema.insideInline?, hitems, hauthor]

/-- A custom fragment that selects the author of whatever is an item. -/
def itemsFragment : Fragment where
  name := "Top"
  condition := "Top"
  selections := [.plain "items" (some [.plain "author" (some [.plain "name"])])]

/-- The walk warns that it will not fetch the author of an item. -/
lemma warnings_items : (typeUsages itemSchema [itemsFragment] fooReferences).warnings
    = [.undefinedField "author" "Item" false] := by
  cbv

/-- The author is entered: its name is selected, which is no part of the reference. -/
theorem not_isShallow_items :
    .undefinedField "author" "Item" false
        ∈ (typeUsages itemSchema [itemsFragment] fooReferences).warnings
      ∧ ∃ f ∈ otherFragments itemSchema [fooDeclaration] fooReferences [itemsFragment],
        ¬ f.IsShallow itemSchema [fooDeclaration] fooReferences := by
  refine ⟨by rw [warnings_items]; exact List.mem_singleton_self _, ⟨none, "Top", "Top", [],
    [.plain "items" (some [.plain "__typename", .inline (some "Foo") [] [.plain "id"],
      .inline (some "Meta") [] [.plain "author" (some [.plain "name"])]])]⟩, ?_, fun h => ?_⟩
  · refine List.mem_singleton.mpr ?_
    cbv
  · have hmeta : Schema.Finds itemSchema [fooDeclaration] "Meta" [.plain "__typename",
        .inline (some "Foo") [] [.plain "id"],
        .inline (some "Meta") [] [.plain "author" (some [.plain "name"])]] "Meta" "author"
        [.plain "name"] :=
      .inline (List.mem_cons_of_mem _ (List.mem_cons_of_mem _ List.mem_cons_self))
        (fun _ h => .inl (Option.some.inj h).symm) (.field List.mem_cons_self)
    have hitems : itemSchema.Returns "Top" "items" "Meta" :=
      ⟨by decide +kernel, topType, ⟨"items", .list (.named "Item"), []⟩, rfl, rfl,
        .inr ⟨itemType, rfl, rfl⟩, metaType, rfl, rfl⟩
    have hauthor : itemSchema.Returns "Meta" "author" "Foo" :=
      ⟨by decide +kernel, metaType, ⟨"author", .named "Foo", []⟩, rfl, rfl, .inl rfl, fooType, rfl,
        rfl⟩
    obtain ⟨type, reference, hget, -, hgathers⟩ :=
      h "Top" ⟨topType, rfl, rfl⟩ (.inl rfl) "Meta" "author" [.plain "name"]
        (.inside List.mem_cons_self hitems not_isNode_meta hmeta) (List.cons_ne_nil _ _)
        "Foo" ⟨fooDeclaration, List.mem_cons_self, rfl⟩ hauthor
    -- the only reference asks for nothing but the type name and the ID
    cases List.mem_singleton.mp (Keyed.mem_of_get? hget)
    have hname := (hgathers ⟨fun _ => false, fun _ => none⟩ [] (.plain "name")).mp
      (.field List.mem_cons_self (Execution.admits_nil _))
    obtain ⟨s, hs, hname⟩ := (Execution.gathers_iff_exists _).mp hname
    have hs : s = .plain "__typename" ∨ s = .plain "id" := by
      simpa [Fragment.reference, fooIdFragment, Selection.isTypename, Selection.plain] using hs
    rcases hs with rfl | rfl
    all_goals
      obtain ⟨heq, -⟩ := Execution.gathers_field.mp hname
      simp [Selection.plain] at heq

end RemoteNodes
