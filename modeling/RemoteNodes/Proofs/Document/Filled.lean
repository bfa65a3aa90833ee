import Mathlib
import RemoteNodes.Proofs.Document.Compilation
/-!
Whether a compiled document has an empty selection set, which cannot be written down as a text that
is read again.

* `SetKept`: selections of which something is left in each selection set, at any depth.
* `Compilation.filled_iff`: **a document has no empty set exactly if something is left in each set
  once the repetitions of the ID fragment are taken out**.
* `Compilation.filled_assembled`: no set is empty before that, as long as the ID fragments hold a
  field in each set.
* `compiled_filled_iff`: both for compiled documents; `compiled_set_empty`: a document can have an
  empty set.
-/

namespace RemoteNodes

variable {schema : Schema} {declarations : List NodeDeclaration} {sources : List String}
  {aliases : Aliases} {type : String} {documents : Keyed Document} {document : Document}

/-! ### Documents without empty selection sets -/

namespace Document

lemma filled_iff : document.Filled
    ↔ (∀ o ∈ document.operations, ∀ set ∈ o.selections :: setsIn o.selections, set ≠ [])
      ∧ ∀ f ∈ document.fragments, ∀ set ∈ f.selections :: setsIn f.selections, set ≠ [] := by
  constructor
  · intro h
    refine ⟨fun o ho set hset => ?_, fun f hf set hset => ?_⟩
    · obtain ⟨d, hd, hdo⟩ := List.mem_filterMap.mp ho
      cases d <;> cases hdo
      exact h set (List.mem_flatMap.mpr ⟨_, hd, hset⟩)
    · obtain ⟨d, hd, hdf⟩ := List.mem_filterMap.mp hf
      cases d <;> cases hdf
      exact h set (List.mem_flatMap.mpr ⟨_, hd, hset⟩)
  · rintro ⟨hoperations, hfragments⟩ set hset
    obtain ⟨d, hd, hset⟩ := List.mem_flatMap.mp hset
    cases d with
    | operation o => exact hoperations o (List.mem_filterMap.mpr ⟨_, hd, rfl⟩) set hset
    | fragment f => exact hfragments f (List.mem_filterMap.mpr ⟨_, hd, rfl⟩) set hset
    | schema _ | type _ | directive _ => cases hset

/-- A document without empty selection sets obeys the rule that there are none. -/
lemma obeys_filled_iff : document.Obeys .filled ↔ document.Filled := by
  rw [filled_iff, Document.Obeys]
  simp only [setObeys_filled, List.forall_mem_cons]

end Document

/-! ### Sets of which something is left -/

/-- Selections of which something is left in each selection set, at any depth, once the spreads of
the named fragments are taken out. -/
def SetKept (names : List String) (ss : List Selection) : Prop :=
  ∀ set ∈ ss :: setsIn ss, ∃ s ∈ set, s.isSpreadOf names = false

lemma dropSpreadsIn_ne_nil_iff {names : List String} {ss : List Selection} :
    dropSpreadsIn names ss ≠ [] ↔ ∃ s ∈ ss, s.isSpreadOf names = false := by
  simp [dropSpreadsIn_eq_nil_iff]

lemma setKept_iff {names : List String} {ss : List Selection} :
    (∀ set ∈ dropSpreadsIn names ss :: setsIn (dropSpreadsIn names ss), set ≠ [])
      ↔ SetKept names ss := by
  have hmap : dropSpreadsIn names ss :: setsIn (dropSpreadsIn names ss)
      = (ss :: setsIn ss).map (dropSpreadsIn names) := by
    rw [List.map_cons, setsIn_dropSpreadsIn]
  rw [hmap, List.forall_mem_map, SetKept]
  exact forall₂_congr fun set _ => dropSpreadsIn_ne_nil_iff

/-! ### Compiled documents -/

namespace Compilation

variable (c : Compilation schema declarations sources aliases type document)

/-- A document has no empty set exactly if something is left in each set of what stays, once the
spreads of the fragments that repeat the ID fragment are taken out. -/
theorem filled_iff : document.Filled
    ↔ (∀ o ∈ c.assembled.operations, SetKept c.duplicates o.selections)
      ∧ ∀ f ∈ c.assembled.fragments, c.stays f = true → SetKept c.duplicates f.selections := by
  rw [Document.filled_iff, c.operations_eq, c.fragments_eq, List.forall_mem_map,
    List.forall_mem_map]
  refine and_congr (forall₂_congr fun o _ => setKept_iff) ?_
  simp only [List.mem_filter, and_imp]
  exact forall₃_congr fun f _ _ => setKept_iff

/-- No set of a custom fragment is empty. -/
lemma filled_customs : ∀ f ∈ c.customs, SetObeys .filled f.selections := by
  intro f hf
  obtain ⟨text, -, d, hparse, hf⟩ := exists_source_of_mem_readFragments c.customs_read hf
  exact (Document.obeys_filled_iff.mpr (Document.filled_of_parse? hparse)).2 f hf

/-- Before fragments are left out a document has no empty set, if each set inside an ID fragment
holds a field and each interface that a type implements has possible types. -/
theorem filled_assembled
    (hid : ∀ type queries idFragment, Declares declarations type queries idFragment →
      ∀ s ∈ idFragment.selections, s.HasFields .filled)
    (hinterfaces : ∀ t ∈ schema.types, ∀ name ∈ t.interfaces, ∀ interface,
      schema.type? name = some interface → schema.possibleTypes interface ≠ []) :
    c.assembled.Filled := by
  have hqueries {type' : String} {queries : Document} {idFragment : Fragment}
      (hdeclares : Declares declarations type' queries idFragment) :
      queries.Obeys .filled ∧ idFragment ∈ queries.fragments := by
    obtain ⟨index, d, -, -, hread⟩ := hdeclares
    obtain ⟨-, -, hparse, hfragments, -⟩ := NodeDeclaration.read_eq_ok.mp hread
    refine ⟨Document.obeys_filled_iff.mpr (Document.filled_of_parse? hparse), ?_⟩
    rw [hfragments]
    exact List.mem_singleton_self _
  have hreferences : c.references.Obey .filled := by
    refine obey_referenceFragments c.references_made ?_
      fun t ht name hname interface hinterface h =>
        absurd h (hinterfaces t ht name hname interface hinterface)
    intro type' queries idFragment hdeclares s hs
    obtain ⟨hobeys, hmem⟩ := hqueries hdeclares
    exact ⟨(hobeys.2 idFragment hmem).2 s hs, hid type' queries idFragment hdeclares s hs⟩
  exact Document.obeys_filled_iff.mp
    (Stages.obeys_assembled hreferences (hqueries c.declared).1 c.filled_customs fun _ _ => trivial)

end Compilation

/-- A compiled document has no empty selection set exactly if something is left in each set of its
operations and of the fragments that stay, once the spreads of the fragments that repeat the ID
fragment are taken out. Before that no set is empty, if each set inside an ID fragment holds a field
and each interface that a type implements has possible types. -/
theorem compiled_filled_iff
    (hcompile : (compileQueries schema declarations sources aliases).outcome = .ok documents)
    (hdocument : Keyed.get? documents type = some document) :
    ∃ c : Compilation schema declarations sources aliases type document,
      (document.Filled
          ↔ (∀ o ∈ c.assembled.operations, SetKept c.duplicates o.selections)
            ∧ ∀ f ∈ c.assembled.fragments, c.stays f = true → SetKept c.duplicates f.selections)
        ∧ ((∀ type queries idFragment, Declares declarations type queries idFragment →
              ∀ s ∈ idFragment.selections, s.HasFields .filled) →
            (∀ t ∈ schema.types, ∀ name ∈ t.interfaces, ∀ interface,
              schema.type? name = some interface → schema.possibleTypes interface ≠ []) →
            c.assembled.Filled) := by
  obtain ⟨c⟩ := exists_compilation hcompile hdocument
  exact ⟨c, c.filled_iff, fun hid hinterfaces => c.filled_assembled hid hinterfaces⟩

/-! ### A document with an empty selection set -/

/-- A custom fragment that spreads another one, which repeats the ID fragment. -/
def keySource : String := "fragment Foo on Foo { ...Key } fragment Key on Foo { id }"

/-- The custom fragments of the source. -/
def keyCustoms : List Fragment := [
  { name := "Foo", condition := "Foo", selections := [.spread "Key" []] },
  { name := "Key", condition := "Foo", selections := [.plain "id"] }]

/-- What is left of the fragment that spreads the other one. -/
def emptiedFragment : Fragment where
  name := "Foo"
  condition := "Foo"
  selections := []

/-- The document that is compiled from them. -/
def keyDocument : Document := [
  .operation (fooOperation [.field (some "remoteTypeName") "__typename" [] [] none,
    .spread "FooId" [], .spread "Foo" []]),
  .fragment { fooIdFragment with selections := [.field (some "remoteId") "id" [] [] none] },
  .fragment emptiedFragment]

set_option maxRecDepth 10000 in
lemma readFragments_key : readFragments [keySource] = .ok keyCustoms := by
  have hscan : Token.scan? keySource = some [.name "fragment", .name "Foo", .name "on",
      .name "Foo", .mark '\x7b', .ellipsis, .name "Key", .mark '\x7d', .name "fragment",
      .name "Key", .name "on", .name "Foo", .mark '\x7b', .name "id", .mark '\x7d'] := by
    decide +kernel
  exact readFragments_of_scan hscan rfl

lemma usages_key : Usages.ofEvents (usageEvents fooSchema fooReferences keyCustoms)
    = [("Foo", [("Foo", [.spread "Key" []]), ("Key", [.plain "id"])])] := by
  cbv

set_option maxRecDepth 10000 in
lemma compileQueries_key :
    (compileQueries fooSchema [fooDeclaration] [keySource] defaultAliases).outcome
      = .ok [("Foo", keyDocument)] :=
  compileQueries_foo readFragments_key referenceFragments_foo usages_key rfl

lemma not_filled_keyDocument : ¬ keyDocument.Filled := by
  have hfragment : emptiedFragment ∈ keyDocument.fragments := by
    simp [keyDocument, Document.fragments, Definition.fragment?]
  exact fun h => (Document.filled_iff.mp h).2 emptiedFragment hfragment [] List.mem_cons_self rfl

/-- A compiled document can have an empty selection set, and then there is no text that is read as
this document. -/
theorem compiled_set_empty : ∃ documents document,
    (compileQueries fooSchema [fooDeclaration] [keySource] defaultAliases).outcome = .ok documents
      ∧ Keyed.get? documents "Foo" = some document ∧ ¬ document.Filled
      ∧ ∀ text, Document.parse? text ≠ some document :=
  ⟨_, keyDocument, compileQueries_key, rfl, not_filled_keyDocument,
    fun _ hparse => not_filled_keyDocument (Document.filled_of_parse? hparse)⟩

/-- No set is empty before the fragment that repeats the ID fragment is taken out. -/
theorem compiled_filled_iff_key :
    ∃ c : Compilation fooSchema [fooDeclaration] [keySource] defaultAliases "Foo" keyDocument,
      c.assembled.Filled ∧ ¬ keyDocument.Filled
        ∧ ¬ ((∀ o ∈ c.assembled.operations, SetKept c.duplicates o.selections)
          ∧ ∀ f ∈ c.assembled.fragments, c.stays f = true → SetKept c.duplicates f.selections) := by
  obtain ⟨c, hfilled, hassembled⟩ := compiled_filled_iff compileQueries_key
    (by rfl : Keyed.get? _ "Foo" = some keyDocument)
  refine ⟨c, hassembled ?_ ?_, not_filled_keyDocument, hfilled.not.mp not_filled_keyDocument⟩
  · intro type queries idFragment hdeclares s hs
    obtain ⟨-, rfl⟩ := declares_foo hdeclares
    obtain rfl := List.mem_singleton.mp hs
    intro set hset
    cases hset
  · have hinterfaces : ∀ t ∈ fooSchema.types, t.interfaces = [] := by decide
    intro t ht name hname
    rw [hinterfaces t ht] at hname
    cases hname

end RemoteNodes
