import Mathlib.Tactic
import RemoteNodes.Proofs.Document.Compilation
import RemoteNodes.Proofs.Node.Declared
import RemoteNodes.Proofs.Response.Gathering
/-!
What a field of an abstract type still collects for each possible type once it is split by them.

* `shallowing`: the rewriting that makes fragments shallow next to custom fragments.
* `ShallowRewriting.isAbove_iff`: which conditions count as above a possible type.
* `Execution.PlainFor`: selections of which a possible type loses nothing and gains nothing when
  they are flattened for it; `gathers_keptFor`: then what is kept collects the same.
* `Execution.gathers_split`: **what the parts of a split set collect for a possible type**.
* `gathers_field_split`: **a type that is no node type keeps what it selects**, type names apart.
-/

namespace RemoteNodes

/-- The rewriting that makes fragments shallow next to custom fragments. -/
def shallowing (schema : Schema) (references : References) (customs : List Fragment) :
    ShallowRewriting :=
  ⟨schema, references, Keyed.ofPairs (customs.map fun f => (f.name, f.condition))⟩

lemma Fragment.shallow_eq (schema : Schema) (references : References) (customs : List Fragment)
    (f : Fragment) : f.shallow schema references customs
      = f.rewrite schema (shallowing schema references customs).rewriting := rfl

section Composite

variable {schema : Schema} {references : References} {customs : List Fragment}
  {parent? : Option NamedType} {alias? : Option String} {name : String}
  {arguments : List Argument} {directives : List Directive} {ss : List Selection}

/-- A field with selections is rewritten to itself with others in their place. -/
lemma rewrite_composite : (Selection.field alias? name arguments directives (some ss)).rewrite
      schema (shallowing schema references customs).rewriting parent?
    = (shallowing schema references customs).field parent? (.field alias? name arguments directives
      (some (rewriteAll schema (shallowing schema references customs).rewriting
        (schema.insideField? parent? name) ss))) := by
  rw [Selection.rewrite]
  rfl

/-- A field of a known type that selects anything gets the replacement of what it selects, which is
rewritten first. -/
lemma rewrite_composite_of_ne_nil (hne : ss ≠ []) {type : TypeRef}
    (htype : schema.fieldType? parent? name = some type) :
    (Selection.field alias? name arguments directives (some ss)).rewrite schema
        (shallowing schema references customs).rewriting parent?
      = .field alias? name arguments directives (some
        ((shallowing schema references customs).replacement type
          (rewriteAll schema (shallowing schema references customs).rewriting
            (schema.insideField? parent? name) ss))) := by
  have hempty : (rewriteAll schema (shallowing schema references customs).rewriting
      (schema.insideField? parent? name) ss).isEmpty = false := by
    rw [rewriteAll_eq_map, List.isEmpty_eq_false_iff]
    simpa using hne
  have htype' : (shallowing schema references customs).schema.fieldType? parent? name
      = some type := htype
  rw [rewrite_composite, ShallowRewriting.field, hempty, htype']
  rfl

/-- A field that selects anything once it is rewritten has got the replacement of what it selects,
if its type is known. -/
lemma exists_rewrite_composite (schema : Schema) (references : References)
    (customs : List Fragment) (parent? : Option NamedType) (alias? : Option String) (name : String)
    (arguments : List Argument) (directives : List Directive) (ss : List Selection) : ∃ replaced,
    (Selection.field alias? name arguments directives (some ss)).rewrite schema
        (shallowing schema references customs).rewriting parent?
      = .field alias? name arguments directives (some replaced)
    ∧ (replaced ≠ [] → ∀ type, schema.fieldType? parent? name = some type →
      replaced = (shallowing schema references customs).replacement type
        (rewriteAll schema (shallowing schema references customs).rewriting
          (schema.insideField? parent? name) ss)) := by
  by_cases hne : ss = []
  · subst hne
    exact ⟨[], rewrite_composite, fun h => absurd rfl h⟩
  · cases htype : schema.fieldType? parent? name with
    | some type =>
        refine ⟨_, rewrite_composite_of_ne_nil hne htype, fun _ type' h => ?_⟩
        rw [Option.some.inj h]
    | none =>
        have htype' : (shallowing schema references customs).schema.fieldType? parent? name
            = none := htype
        refine ⟨rewriteAll schema (shallowing schema references customs).rewriting
          (schema.insideField? parent? name) ss, ?_, fun _ _ h => by cases h⟩
        rw [rewrite_composite, ShallowRewriting.field, htype']
        split <;> rfl

end Composite

/-! ### Conditions above a possible type -/

/-- The conditions that count as above a type are those with the type under them. -/
lemma ShallowRewriting.isAbove_iff {r : ShallowRewriting} {condition possible : String} :
    r.isAbove condition possible = true
      ↔ ∃ t, r.schema.type? condition = some t ∧ r.schema.isSubType t possible = true := by
  rw [isAbove]
  cases r.schema.type? condition with
  | none => simp
  | some t => simpa using Schema.isAbstract_of_isSubType

/-! ### What is kept for a possible type -/

/-- Selections of which a possible type loses nothing and gains nothing when they are flattened for
it: the directives of what is flattened leave nothing out, and the custom fragments that are spread
are made on the type if they apply to it. -/
def Execution.PlainFor (x : Execution) (schema : Schema) (customs : List Fragment)
    (possible : String) : List Selection → Prop
  | [] => True
  | .field .. :: ss => x.PlainFor schema customs possible ss
  | .inline none directives selections :: ss =>
    (x.Admits directives ∧ x.PlainFor schema customs possible selections)
      ∧ x.PlainFor schema customs possible ss
  | .inline (some condition) directives selections :: ss =>
    (condition = possible → x.Admits directives ∧ x.PlainFor schema customs possible selections)
      ∧ x.PlainFor schema customs possible ss
  | .spread fragment _ :: ss =>
    (∀ f ∈ customs, ∀ g ∈ customs, f.name = fragment → g.name = fragment →
        schema.Applies f.condition possible → g.condition = possible)
      ∧ x.PlainFor schema customs possible ss

section Splitting

open Execution

variable {schema : Schema} {declarations : List NodeDeclaration} {references : References}
  {customs : List Fragment} {x : Execution} {possible : String} {ss : List Selection}
  {s : Selection}

/-- A custom fragment that applies to a type is spread for it exactly if it is known to be made on
the type. -/
lemma fragmentTypes_eq_some {fragment : String}
    (hplain : ∀ f ∈ customs, ∀ g ∈ customs, f.name = fragment → g.name = fragment →
      schema.Applies f.condition possible → g.condition = possible) {f : Fragment}
    (hf : f ∈ customs) (hname : f.name = fragment)
    (happlies : schema.Applies f.condition possible) :
    Keyed.get? (shallowing schema references customs).fragmentTypes fragment = some possible := by
  obtain ⟨condition, hget⟩ : ∃ condition,
      Keyed.get? (shallowing schema references customs).fragmentTypes fragment
        = some condition := by
    refine Keyed.exists_get?_ofPairs ?_
    rw [List.map_map]
    exact List.mem_map.mpr ⟨f, hf, hname⟩
  obtain ⟨g, hg, heq⟩ := List.mem_map.mp (Keyed.mem_of_get?_ofPairs hget)
  cases heq
  rw [hget, hplain f hf g hg hname rfl happlies]

/-- What is kept of plain selections collects the same for the type. -/
lemma gathers_keptFor (hplain : x.PlainFor schema customs possible ss) :
    x.Gathers schema (customs.map .fragment) possible
        ((shallowing schema references customs).keptFor possible ss) s
      ↔ x.Gathers schema (customs.map .fragment) possible ss s := by
  induction ss using Execution.PlainFor.induct with
  | case1 => rw [ShallowRewriting.keptFor]
  | case2 alias? name arguments directives selections? ss ih =>
      rw [PlainFor] at hplain
      rw [ShallowRewriting.keptFor, gathers_cons, gathers_cons _ ss, ih hplain]
  | case3 directives inner ss ihinner ih =>
      rw [PlainFor] at hplain
      obtain ⟨⟨hadmits, hinner⟩, hrest⟩ := hplain
      rw [ShallowRewriting.keptFor, gathers_append, gathers_cons _ ss, ihinner hinner,
        ih hrest, gathers_inline]
      simp [hadmits]
  | case4 condition directives inner ss ihinner ih =>
      rw [PlainFor] at hplain
      obtain ⟨hflat, hrest⟩ := hplain
      rw [ShallowRewriting.keptFor, gathers_append, gathers_cons _ ss, ih hrest]
      refine or_congr ?_ .rfl
      rw [gathers_inline]
      by_cases hcondition : condition = possible
      · obtain ⟨hadmits, hinner⟩ := hflat hcondition
        rw [if_pos (beq_iff_eq.mpr hcondition), ihinner hinner]
        simp [hadmits, Schema.Applies, hcondition]
      · rw [if_neg (by simpa using hcondition)]
        split
        · rw [gathers_inline]
        · -- what is neither the type nor above it does not apply
          rename_i habove
          refine iff_of_false gathers_nil fun hgathers => ?_
          obtain ⟨-, happlies, -⟩ := hgathers
          rcases happlies condition rfl with h | h
          · exact hcondition h
          · exact habove (ShallowRewriting.isAbove_iff.mpr h)
  | case5 fragment directives ss ih =>
      rw [PlainFor] at hplain
      obtain ⟨hspread, hrest⟩ := hplain
      rw [ShallowRewriting.keptFor, gathers_append, gathers_cons _ ss, ih hrest]
      refine or_congr ?_ .rfl
      split
      · rfl
      · rename_i hunknown
        refine iff_of_false gathers_nil fun h => ?_
        obtain ⟨-, f, hf, hname, happlies, -⟩ := gathers_spread.mp h
        rw [Document.fragments_map_fragment] at hf
        exact hunknown (beq_iff_eq.mpr (fragmentTypes_eq_some hspread hf hname happlies))

/-! ### Split sets -/

namespace ShallowRewriting

variable {r : ShallowRewriting}

/-- A type without a reference selects what is kept for it, without type names. -/
lemma selectionsFor_eq (h : Keyed.get? r.references possible = none) :
    r.selectionsFor ss possible = (r.keptFor possible ss).filter (!·.isTypename) := by
  rw [selectionsFor, h]

/-- A node type selects its ID fragment, without type names. -/
lemma selectionsFor_reference {idFragment : Fragment}
    (h : Keyed.get? r.references possible = some (idFragment.reference possible)) :
    r.selectionsFor ss possible = idFragment.selections.filter (!·.isTypename) := by
  rw [selectionsFor, h]
  simp [Fragment.reference, Selection.isTypename, Selection.plain]

/-- The selections of a field are split if its type is abstract, has no reference and can be a
type that has one. -/
lemma replacement_eq_split {type : TypeRef} {t : NamedType}
    (hnone : Keyed.get? r.references type.namedType = none)
    (ht : r.schema.namedType? type = some t) (habstract : t.isAbstract = true)
    (hmixed : (r.schema.possibleTypes t).any (fun p => Keyed.has r.references p.name) = true) :
    r.replacement type ss = r.split t ss := by
  rw [replacement, hnone]
  dsimp only
  rw [ht]
  dsimp only
  rw [habstract, hmixed]
  rfl

/-- A possible type that selects anything has its part among those of a split set. -/
lemma part_mem {t p : NamedType} (hp : p ∈ r.schema.possibleTypes t)
    (hne : r.selectionsFor ss p.name ≠ []) :
    Selection.inline (some p.name) [] (r.selectionsFor ss p.name)
      ∈ (r.schema.possibleTypes t).filterMap fun p =>
        match r.selectionsFor ss p.name with
        | [] => none
        | ss => some (Selection.inline (some p.name) [] ss) := by
  refine List.mem_filterMap.mpr ⟨p, hp, ?_⟩
  split
  · rename_i hnone
    exact absurd hnone hne
  · rfl

end ShallowRewriting

/-- **What the parts of a split set collect for a possible type**: the type name, and what is
selected for the type. -/
theorem Execution.gathers_split {document : Document} {r : ShallowRewriting} {t p : NamedType}
    (hschema : r.schema.Conforms) (ht : t ∈ r.schema.types) (hp : p ∈ r.schema.possibleTypes t) :
    x.Gathers r.schema document p.name (r.split t ss) s
      ↔ s = .plain "__typename"
        ∨ x.Gathers r.schema document p.name (r.selectionsFor ss p.name) s := by
  rw [ShallowRewriting.split, gathers_cons]
  refine or_congr ?_ ?_
  · rw [Selection.plain, gathers_field]
    exact and_iff_left x.admits_nil
  · rw [gathers_iff_exists]
    constructor
    · rintro ⟨s', hs', h⟩
      obtain ⟨q, hq, hpart⟩ := List.mem_filterMap.mp hs'
      split at hpart
      · cases hpart
      · cases hpart
        obtain ⟨-, happlies, h⟩ := gathers_inline.mp h
        -- the parts are made on object types, so only one applies
        obtain ⟨hcomposite, hobject, -⟩ := hschema.of_mem_possibleTypes ht hq
        have hisObject : r.schema.IsObject q.name :=
          ⟨q, (Schema.composite?_eq_some.mp hcomposite).1, hobject⟩
        have hname := (Schema.applies_iff_of_isObject hisObject).mp (happlies q.name rfl)
        rwa [hname] at h
    · intro h
      have hne : r.selectionsFor ss p.name ≠ [] := fun hnone => gathers_nil (hnone ▸ h)
      exact ⟨_, ShallowRewriting.part_mem hp hne,
        gathers_inline.mpr ⟨x.admits_nil, fun _ h => .inl (Option.some.inj h).symm, h⟩⟩

/-- **A type that is no node type keeps what it selects.** The selections of a field of an abstract
type that has no reference but can be a node give way to parts. For a possible type that is no node
type these collect the type name and, type names apart, just what the rewritten selections of the
field collect, provided that these are plain for it. -/
theorem gathers_field_split (customs : List Fragment) (hschema : schema.Lawful)
    (hreferences : referenceFragments schema declarations = .ok references)
    {parent? : Option NamedType} {alias? : Option String} {name : String}
    {arguments : List Argument} {directives : List Directive} (hne : ss ≠ []) {type : TypeRef}
    (htype : schema.fieldType? parent? name = some type) {t p q : NamedType}
    (ht : schema.namedType? type = some t) (habstract : t.isAbstract = true)
    (hnone : Keyed.get? references t.name = none) (hq : q ∈ schema.possibleTypes t)
    (hnode : IsNode declarations q.name) (hp : p ∈ schema.possibleTypes t)
    (hother : ¬ IsNode declarations p.name)
    (hplain : x.PlainFor schema customs p.name
      (rewriteAll schema (shallowing schema references customs).rewriting
        (schema.insideField? parent? name) ss)) :
    ∃ parts, (Selection.field alias? name arguments directives (some ss)).rewrite schema
          (shallowing schema references customs).rewriting parent?
        = .field alias? name arguments directives (some parts)
      ∧ x.Gathers schema (customs.map .fragment) p.name parts (.plain "__typename")
      ∧ ∀ s, s.isTypename = false →
        (x.Gathers schema (customs.map .fragment) p.name parts s
          ↔ x.Gathers schema (customs.map .fragment) p.name
            (rewriteAll schema (shallowing schema references customs).rewriting
              (schema.insideField? parent? name) ss) s) := by
  have hname : t.name = type.namedType := Schema.name_of_type? ht
  have htypes : t ∈ schema.types := Schema.mem_of_type? ht
  obtain ⟨-, _, _, -, hreference⟩ := exists_reference_of_isNode hschema hreferences hnode
  obtain ⟨hcomposite, hobject, -⟩ := hschema.of_mem_possibleTypes htypes hp
  have hunreferenced : Keyed.get? references p.name = none := by
    cases hget : Keyed.get? references p.name with
    | none => rfl
    | some f =>
        have hisObject : schema.IsObject p.name :=
          ⟨p, (Schema.composite?_eq_some.mp hcomposite).1, hobject⟩
        exact absurd (isNode_of_get? hschema hreferences hisObject hget) hother
  have hmixed : (schema.possibleTypes t).any (fun p => Keyed.has references p.name) = true :=
    List.any_eq_true.mpr ⟨q, hq, by rw [Keyed.has, hreference]; rfl⟩
  refine ⟨_, (rewrite_composite_of_ne_nil hne htype).trans (by
    rw [ShallowRewriting.replacement_eq_split (by rwa [← hname]) ht habstract hmixed]), ?_⟩
  have hparts (ss : List Selection) (s : Selection) :
      x.Gathers schema (customs.map .fragment) p.name
          ((shallowing schema references customs).split t ss) s
        ↔ s = .plain "__typename" ∨ x.Gathers schema (customs.map .fragment) p.name
          ((shallowing schema references customs).selectionsFor ss p.name) s :=
    gathers_split (r := shallowing schema references customs) hschema.toConforms htypes hp
  refine ⟨(hparts _ _).mpr (.inl rfl), fun s hs => (hparts _ s).trans ?_⟩
  rw [ShallowRewriting.selectionsFor_eq (r := shallowing schema references customs) hunreferenced,
    or_iff_right]
  · exact (gathers_filter_isTypename hs).trans (gathers_keptFor hplain)
  · rintro rfl
    cases hs

/-! ### A split field -/

/-- A schema in which a field can return nodes and others. -/
def itemSchema : Schema where
  types := [⟨"ID", .scalar⟩, ⟨"String", .scalar⟩,
    ⟨"Foo", .object [] [⟨"id", .named "ID", []⟩, ⟨"name", .named "String", []⟩]⟩,
    ⟨"Meta", .object [] [⟨"note", .named "String", []⟩, ⟨"author", .named "Foo", []⟩]⟩,
    ⟨"Item", .union ["Foo", "Meta"]⟩,
    ⟨"Top", .object [] [⟨"items", .list (.named "Item"), []⟩]⟩,
    ⟨"Query", .object [] [⟨"allFoo", .list (.named "Foo"), []⟩, ⟨"top", .named "Top", []⟩]⟩]
  directives := []
  query? := some "Query"

lemma referenceFragments_item :
    referenceFragments itemSchema [fooDeclaration] = .ok fooReferences := by
  rw [referenceFragments, typeReferences, read_fooDeclaration]
  rfl

lemma lawful_itemSchema : itemSchema.Lawful := by decide

/-- The type of the field that is split. -/
def itemType : NamedType := ⟨"Item", .union ["Foo", "Meta"]⟩

/-- The type of a node. -/
def fooType : NamedType :=
  ⟨"Foo", .object [] [⟨"id", .named "ID", []⟩, ⟨"name", .named "String", []⟩]⟩

/-- A type that is no node type. -/
def metaType : NamedType :=
  ⟨"Meta", .object [] [⟨"note", .named "String", []⟩, ⟨"author", .named "Foo", []⟩]⟩

/-- The type that has the field. -/
def topType : NamedType := ⟨"Top", .object [] [⟨"items", .list (.named "Item"), []⟩]⟩

/-- What is selected for the type that is no node type. -/
def noteSelections : List Selection := [.inline (some "Meta") [] [.plain "note"]]

lemma rewriteAll_note : rewriteAll itemSchema (shallowing itemSchema fooReferences []).rewriting
    (itemSchema.insideField? (some topType) "items") noteSelections = noteSelections := by
  cbv

lemma plainFor_note (x : Execution) : x.PlainFor itemSchema [] "Meta" noteSelections := by
  simp [noteSelections, Selection.plain, PlainFor, x.admits_nil]

/-- The note stays selected. -/
theorem gathers_field_split_note : ∃ parts,
    (Selection.plain "items" (some noteSelections)).rewrite itemSchema
        (shallowing itemSchema fooReferences []).rewriting (some topType)
      = .plain "items" (some parts)
    ∧ Execution.Gathers ⟨fun _ => false, fun _ => none⟩ itemSchema [] "Meta" parts
        (.plain "__typename")
    ∧ ∀ s, s.isTypename = false →
      (Execution.Gathers ⟨fun _ => false, fun _ => none⟩ itemSchema [] "Meta" parts s
        ↔ Execution.Gathers ⟨fun _ => false, fun _ => none⟩ itemSchema [] "Meta"
          (rewriteAll itemSchema (shallowing itemSchema fooReferences []).rewriting
            (itemSchema.insideField? (some topType) "items") noteSelections) s) :=
  gathers_field_split [] (p := metaType) (q := fooType) (t := itemType)
    lawful_itemSchema referenceFragments_item (List.cons_ne_nil _ _) rfl rfl rfl rfl (by decide)
    ⟨fooDeclaration, List.mem_singleton_self _, rfl⟩ (by decide)
    (by
      rintro ⟨d, hd, hname⟩
      rw [List.mem_singleton.mp hd] at hname
      exact absurd hname (by decide))
    (rewriteAll_note ▸ plainFor_note _)

/-- The type name is collected for a type for which it was not selected. -/
theorem gathers_typename_of_split : ∃ parts,
    (Selection.plain "items" (some noteSelections)).rewrite itemSchema
        (shallowing itemSchema fooReferences []).rewriting (some topType)
      = .plain "items" (some parts)
    ∧ ∀ x : Execution, x.Gathers itemSchema [] "Meta" parts (.plain "__typename")
      ∧ ¬ x.Gathers itemSchema [] "Meta"
        (rewriteAll itemSchema (shallowing itemSchema fooReferences []).rewriting
          (itemSchema.insideField? (some topType) "items") noteSelections)
        (.plain "__typename") := by
  refine ⟨[.plain "__typename", .inline (some "Foo") [] [.plain "id"],
    .inline (some "Meta") [] [.plain "note"]], by cbv, fun x => ⟨?_, fun h => ?_⟩⟩
  · exact .field List.mem_cons_self x.admits_nil
  · obtain ⟨-, -, h⟩ := gathers_inline.mp h
    obtain ⟨h, -⟩ := gathers_field.mp h
    simp [Selection.plain] at h

end Splitting

end RemoteNodes
