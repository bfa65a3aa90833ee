import Mathlib
import RemoteNodes.Proofs.Document.Compilation
import RemoteNodes.Proofs.Node.Scope
/-!
Whether a compiled document asks only for fields that the schema defines where they are selected.

* `ScopesKnown`: declarations, custom fragments and references whose scopes are known.
* `Compilation.exists_part`: a fragment of a document is in scope if what it was made of is.
* `Compilation.scoped_iff`: **a document is in scope exactly if its fragments are that belong to no
  node type**.
* `compiled_scoped_iff`: the same for all that is compiled, with the warnings that are given for
  fragments out of scope; `compiled_unscoped`: a document need not be in scope.
-/

namespace RemoteNodes

/-- Queries ask only for fields that the schema defines, custom fragments have inline fragments only
on types that selections can be made on, and the references of interfaces, which are merged from
those of their possible types, ask only for fields that are defined above them too. -/
structure ScopesKnown (schema : Schema) (declarations : List NodeDeclaration)
    (customs : List Fragment) (references : References) : Prop where
  queries : ∀ {type queries idFragment}, Declares declarations type queries idFragment →
    queries.Scoped schema
  conditions : ∀ f ∈ customs, schema.Names (conditionsIn f.selections)
  interfaces : ∀ name f, Keyed.get? references name = some f →
    name ∉ declarations.map (·.type) → ScopedIn schema (schema.composite? name) f.selections

variable {schema : Schema} {declarations : List NodeDeclaration} {sources : List String}
  {aliases : Aliases} {type : String} {documents : Keyed Document} {document : Document}

/-! ### Stages -/

lemma Fragment.Scoped.rewrite {f : Fragment} {r : Rewriting} (hf : f.Scoped schema)
    (hr : r.KeepsScope schema) : (f.rewrite schema r).Scoped schema :=
  ScopedIn.rewriteAll hr hf .definition

lemma Operation.Scoped.rewrite {o : Operation} {r : Rewriting} (ho : o.Scoped schema)
    (hr : r.KeepsScope schema) : (o.rewrite schema r).Scoped schema :=
  ScopedIn.rewriteAll hr ho .definition

namespace Stages

variable (c : Stages schema declarations aliases type)

/-- The fragments of the node type are in scope. -/
lemma scoped_of_mem_nodeFragments (hschema : schema.Conforms) (href : c.references.Scoped schema)
    (hconditions : ∀ f ∈ c.customs, schema.Names (conditionsIn f.selections)) {f : Fragment}
    (hf : f ∈ c.nodeFragments) : f.Scoped schema := by
  obtain ⟨-, -, hshallow⟩ := exists_of_mem_fragmentsFor c.records_usages hf
  rw [hshallow]
  refine Fragment.Scoped.shallow (scopedIn_iff.mpr fun s hs => ?_) hschema href
  obtain ⟨g, hg, he⟩ := c.mem_events.mp (c.records_usages.found hs)
  exact UsageWalk.scoped_of_found (w := c.walk) hschema (hconditions g hg) he

end Stages

/-! ### Compiled documents -/

namespace Compilation

variable (c : Compilation schema declarations sources aliases type document)

lemma type_mem_allTypes {name : String} (h : name ∈ c.types) : name ∈ c.allTypes := by
  obtain ⟨index, d, hd, rfl, -⟩ := c.declared
  exact List.mem_flatMap.mpr ⟨d, List.mem_of_getElem? hd, h⟩

/-- The ID fragment is made on the node type, which is an object type. -/
lemma condition_idFragment : c.idFragment.condition ∈ c.types := by
  obtain ⟨index, d, hd, rfl, hread⟩ := c.declared
  obtain ⟨-, -, -, -, hcondition⟩ := NodeDeclaration.read_eq_ok.mp hread
  obtain ⟨entries, hentries, -⟩ := bind_eq_ok.mp c.references_made
  obtain ⟨t, ht, hobject⟩ := isObject_of_typeReferences hentries (List.mem_of_getElem? hd)
  have hfilter : (schema.type? d.type).filter (·.isObject) = some t :=
    Option.filter_eq_some_iff.mpr ⟨ht, hobject⟩
  rw [hcondition, Stages.types, nodeTypeNames, hfilter]
  exact List.mem_cons_self

/-- A fragment of a document is made of one that goes into it, on the same type, and it is in scope
if that one is. -/
lemma exists_part {f : Fragment} (hf : f ∈ document.fragments) :
    ∃ g ∈ c.parts, f.header = g.header ∧ (g.Scoped schema → f.Scoped schema) := by
  rw [c.fragments_eq] at hf
  obtain ⟨f', hf', rfl⟩ := List.mem_map.mp hf
  have hassembled := (List.mem_filter.mp hf').1
  rw [Stages.assembled, fragments_assemble, c.queries_fragments] at hassembled
  obtain ⟨g, hg, rfl⟩ := List.mem_map.mp hassembled
  refine ⟨g, hg, rfl, fun hscoped => ScopedIn.dropSpreadsIn ?_⟩
  exact (hscoped.rewrite keepsScope_typenameRewriting).rewrite keepsScope_aliasRewriting

/-- The operations of a document are in scope if the queries are. -/
lemma scoped_operations (hqueries : c.queries.Scoped schema) {o : Operation}
    (ho : o ∈ document.operations) : o.Scoped schema := by
  rw [c.operations_eq] at ho
  obtain ⟨o', ho', rfl⟩ := List.mem_map.mp ho
  obtain ⟨o, ho, hkind, hselections⟩ := exists_of_mem_operations_assemble ho'
  refine ScopedIn.dropSpreadsIn ?_
  rw [hkind, hselections]
  exact (((hqueries.1 o ho).rewrite keepsScope_spreadRewriting).rewrite
    keepsScope_typenameRewriting).rewrite keepsScope_aliasRewriting

variable (hknown : ScopesKnown schema declarations c.customs c.references)
include hknown

lemma scoped_references : c.references.Scoped schema := by
  refine scoped_referenceFragments c.references_made ?_ hknown.interfaces
  intro type queries idFragment hdeclares
  have hqueries := hknown.queries hdeclares
  obtain ⟨index, d, -, -, hread⟩ := hdeclares
  refine hqueries.2 idFragment ?_
  rw [(NodeDeclaration.read_eq_ok.mp hread).2.2.2.1]
  exact List.mem_singleton_self _

variable (hschema : schema.Conforms)
include hschema

/-- A document is in scope exactly if its fragments are that belong to no node type. -/
theorem scoped_iff : document.Scoped schema
    ↔ ∀ f ∈ document.fragments, f.condition ∉ c.allTypes → f.Scoped schema := by
  refine ⟨fun h f hf _ => h.2 f hf, fun h =>
    ⟨fun o ho => c.scoped_operations (hknown.queries c.declared) ho, fun f hf => ?_⟩⟩
  by_cases htype : f.condition ∈ c.allTypes
  swap
  · exact h f hf htype
  obtain ⟨g, hg, hheader, hscoped⟩ := c.exists_part hf
  have hcondition : f.condition = g.condition := (Prod.mk.inj hheader).2
  refine hscoped ?_
  rcases List.mem_cons.mp hg with rfl | hg
  · refine (hknown.queries c.declared).2 _ ?_
    rw [c.queries_fragments]
    exact List.mem_singleton_self _
  · rcases List.mem_append.mp hg with hg | hg
    · exact c.scoped_of_mem_nodeFragments hschema (c.scoped_references hknown)
        hknown.conditions hg
    · obtain ⟨-, -, -, hother⟩ := c.mem_sharedFragments.mp ⟨g, hg, rfl⟩
      exact absurd (hcondition ▸ htype) hother

/-- A fragment of a document that belongs to no node type is a custom fragment, and it is in scope
if the custom fragment is. -/
lemma exists_custom {f : Fragment} (hf : f ∈ document.fragments)
    (htype : f.condition ∉ c.allTypes) :
    ∃ custom ∈ c.customs, custom.header = f.header ∧ (custom.Scoped schema → f.Scoped schema) := by
  obtain ⟨g, hg, hheader, hscoped⟩ := c.exists_part hf
  have hcondition : f.condition = g.condition := (Prod.mk.inj hheader).2
  rw [hcondition] at htype
  rcases List.mem_cons.mp hg with rfl | hg
  · exact absurd (c.type_mem_allTypes c.condition_idFragment) htype
  rcases List.mem_append.mp hg with hg | hg
  · obtain ⟨hnode, -⟩ := exists_of_mem_fragmentsFor c.records_usages hg
    exact absurd (c.type_mem_allTypes hnode) htype
  · obtain ⟨custom, hcustom, rfl⟩ := List.mem_map.mp hg
    refine ⟨custom, (List.mem_filter.mp hcustom).1, hheader.symm, fun hcustom => hscoped ?_⟩
    exact Fragment.Scoped.shallow hcustom hschema (c.scoped_references hknown)

end Compilation

/-- A custom fragment out of scope causes a warning about an undefined field, if it is on a type
that selections can be made on and that is not the type of queries or mutations. -/
lemma exists_warning {customs : List Fragment} {references : References} (hschema : schema.Conforms)
    (hcustoms : readFragments sources = .ok customs)
    (hreferences : referenceFragments schema declarations = .ok references) {f : Fragment}
    (hf : f ∈ customs) (hconditions : schema.Names (conditionsIn f.selections))
    (hroot : schema.query? ≠ some f.condition ∧ schema.mutation? ≠ some f.condition)
    (hcondition : (schema.composite? f.condition).isSome = true) (hscoped : ¬ f.Scoped schema) :
    ∃ t name, NamedType.undefinedField t name
      ∈ (compileQueries schema declarations sources aliases).warnings := by
  obtain ⟨t, ht⟩ := Option.isSome_iff_exists.mp hcondition
  have hname : t.name = f.condition := Schema.name_of_type? (Schema.composite?_eq_some.mp ht).1
  rw [Fragment.Scoped, ← hname] at hscoped
  obtain ⟨warning, hwarning⟩ := List.exists_mem_of_ne_nil _
    (narrowWarnings_ne_nil hschema (Schema.knows_of_composite? ht) hconditions hscoped)
  obtain ⟨u, name, rfl⟩ := exists_of_mem_narrowWarnings hwarning
  refine ⟨u, name, mem_warnings_compileQueries hcustoms hreferences ?_⟩
  exact List.mem_flatMap.mpr ⟨f, hf, UsageWalk.warned_mem_fragmentEvents hroot ht hwarning⟩

/-- A document that is compiled for a schema that keeps the rules, out of declarations, custom
fragments and references whose scopes are known, is in scope exactly if its fragments are that
belong to no node type. They are custom fragments, as their author wrote them apart from references
to nodes: one that is out of scope comes from a custom fragment out of scope, and a warning has been
given that a field is not fetched, unless that fragment is on a root type or on one that nothing can
be selected on. -/
theorem compiled_scoped_iff {customs : List Fragment} {references : References}
    (hcompile : (compileQueries schema declarations sources aliases).outcome = .ok documents)
    (hdocument : Keyed.get? documents type = some document)
    (hcustoms : readFragments sources = .ok customs)
    (hreferences : referenceFragments schema declarations = .ok references)
    (hschema : schema.Conforms) (hknown : ScopesKnown schema declarations customs references) :
    ∃ c : Compilation schema declarations sources aliases type document,
      (document.Scoped schema
          ↔ ∀ f ∈ document.fragments, f.condition ∉ c.allTypes → f.Scoped schema)
        ∧ ∀ f ∈ document.fragments, f.condition ∉ c.allTypes → ¬ f.Scoped schema →
          ∃ custom ∈ customs, custom.header = f.header ∧ ¬ custom.Scoped schema
            ∧ (schema.query? ≠ some f.condition ∧ schema.mutation? ≠ some f.condition →
                (schema.composite? f.condition).isSome = true →
                ∃ t name, NamedType.undefinedField t name
                  ∈ (compileQueries schema declarations sources aliases).warnings) := by
  obtain ⟨c⟩ := exists_compilation hcompile hdocument
  obtain rfl : c.customs = customs := Except.ok.inj (c.customs_read.symm.trans hcustoms)
  obtain rfl : c.references = references :=
    Except.ok.inj (c.references_made.symm.trans hreferences)
  refine ⟨c, c.scoped_iff hknown hschema, fun f hf htype hscoped => ?_⟩
  obtain ⟨custom, hcustom, hheader, hkeeps⟩ := c.exists_custom hknown hschema hf htype
  have hcondition : custom.condition = f.condition := (Prod.mk.inj hheader).2
  refine ⟨custom, hcustom, hheader, mt hkeeps hscoped, fun hroot hcomposite => ?_⟩
  rw [← hcondition] at hroot hcomposite
  exact exists_warning hschema hcustoms hreferences hcustom (hknown.conditions custom hcustom)
    hroot hcomposite (mt hkeeps hscoped)

/-! ### A document out of scope -/

/-- A schema with one type that can be listed, which refers to one that cannot. -/
def authorSchema : Schema where
  types := [⟨"ID", .scalar⟩, ⟨"String", .scalar⟩,
    ⟨"Foo", .object [] [⟨"id", .named "ID", []⟩, ⟨"author", .named "Author", []⟩]⟩,
    ⟨"Author", .object [] [⟨"name", .named "String", []⟩]⟩,
    ⟨"Query", .object [] [⟨"allFoo", .list (.named "Foo"), []⟩]⟩]
  directives := []
  query? := some "Query"

/-- A custom fragment on the node type, and one that it spreads on the other type, which has no such
field. -/
def authorSource : String :=
  "fragment Foo on Foo { author { ...Extra } } fragment Extra on Author { name missing }"

/-- The custom fragment that is not in scope. -/
def missingFragment : Fragment where
  name := "Extra"
  condition := "Author"
  selections := [.plain "name", .plain "missing"]

/-- The custom fragments of the source. -/
def authorCustoms : List Fragment := [
  { name := "Foo"
    condition := "Foo"
    selections := [.plain "author" (some [.spread "Extra" []])] },
  missingFragment]

/-- The document that is compiled from them. -/
def authorDocument : Document := [
  .operation (fooOperation [.field (some "remoteTypeName") "__typename" [] [] none,
    .spread "FooId" [], .spread "Foo" []]),
  .fragment { fooIdFragment with selections := [.field (some "remoteId") "id" [] [] none] },
  .fragment
    { name := "Foo"
      condition := "Foo"
      selections := [.plain "author" (some
        [.field (some "remoteTypeName") "__typename" [] [] none, .spread "Extra" []])] },
  .fragment missingFragment]

set_option maxRecDepth 10000 in
lemma readFragments_author : readFragments [authorSource] = .ok authorCustoms := by
  have hscan : Token.scan? authorSource = some [.name "fragment", .name "Foo", .name "on",
      .name "Foo", .mark '\x7b', .name "author", .mark '\x7b', .ellipsis, .name "Extra",
      .mark '\x7d', .mark '\x7d', .name "fragment", .name "Extra", .name "on", .name "Author",
      .mark '\x7b', .name "name", .name "missing", .mark '\x7d'] := by
    decide +kernel
  exact readFragments_of_scan hscan rfl

lemma referenceFragments_author :
    referenceFragments authorSchema [fooDeclaration] = .ok fooReferences := by
  rw [referenceFragments, typeReferences, read_fooDeclaration]
  rfl

lemma usages_author : Usages.ofEvents (usageEvents authorSchema fooReferences authorCustoms)
    = [("Foo", [("Foo", [.plain "author" (some [.spread "Extra" []])])]),
      ("Author", [("Extra", [.plain "name"])])] := by
  cbv

set_option maxRecDepth 10000 in
lemma compileQueries_author :
    (compileQueries authorSchema [fooDeclaration] [authorSource] defaultAliases).outcome
      = .ok [("Foo", authorDocument)] :=
  compileQueries_foo readFragments_author referenceFragments_author usages_author rfl

lemma conforms_authorSchema : authorSchema.Conforms := by decide

lemma scopesKnown_author :
    ScopesKnown authorSchema [fooDeclaration] authorCustoms fooReferences := by
  refine ⟨fun hdeclares => ?_, ?_, fun name f hf hname => ?_⟩
  · obtain ⟨rfl, -⟩ := declares_foo hdeclares
    refine ⟨fun o ho => ?_, fun f hf => ?_⟩
    · cases List.mem_singleton.mp ho
      exact ⟨Selection.scoped_composite.mpr (.inr ⟨rfl, Selection.scoped_spread, trivial⟩), trivial⟩
    · cases List.mem_singleton.mp hf
      exact ⟨Selection.scoped_leaf.mpr (.inr rfl), trivial⟩
  · have h : ∀ f ∈ authorCustoms, conditionsIn f.selections = [] := by decide
    intro f hf name hname
    rw [h f hf] at hname
    cases hname
  · refine absurd ?_ hname
    obtain rfl := List.mem_singleton.mp (Keyed.mem_keys_of_get? hf)
    decide

lemma not_scoped_missingFragment : ¬ missingFragment.Scoped authorSchema := by
  rintro ⟨-, hmissing, -⟩
  rcases Selection.scoped_leaf.mp hmissing with hmeta | hdefined
  · exact absurd hmeta (by decide +kernel)
  · cases hdefined

/-- A document that is compiled for a schema that keeps the rules, out of what is known to be in
scope but for one custom fragment. It asks for the field of which a warning says that it is not
fetched. -/
theorem compiled_unscoped : ∃ customs references documents document,
    readFragments [authorSource] = .ok customs
      ∧ referenceFragments authorSchema [fooDeclaration] = .ok references
      ∧ authorSchema.Conforms ∧ ScopesKnown authorSchema [fooDeclaration] customs references
      ∧ (compileQueries authorSchema [fooDeclaration] [authorSource] defaultAliases).outcome
        = .ok documents
      ∧ Keyed.get? documents "Foo" = some document ∧ ¬ document.Scoped authorSchema
      ∧ .undefinedField "missing" "Author" true ∈
        (compileQueries authorSchema [fooDeclaration] [authorSource] defaultAliases).warnings := by
  refine ⟨authorCustoms, fooReferences, _, authorDocument, readFragments_author,
    referenceFragments_author, conforms_authorSchema, scopesKnown_author, compileQueries_author,
    rfl, fun h => ?_, ?_⟩
  · exact not_scoped_missingFragment (h.2 missingFragment
      (by simp [authorDocument, Document.fragments, Definition.fragment?]))
  · refine mem_warnings_compileQueries readFragments_author referenceFragments_author ?_
    refine List.mem_flatMap.mpr ⟨missingFragment, List.mem_cons_of_mem _ List.mem_cons_self, ?_⟩
    refine UsageWalk.warned_mem_fragmentEvents (by decide) (by rfl) ?_
    have hwarnings : narrowWarnings authorSchema
        ⟨"Author", .object [] [⟨"name", .named "String", []⟩]⟩ missingFragment.selections
        = [.undefinedField "missing" "Author" true] := by
      cbv
    exact hwarnings ▸ List.mem_singleton_self _

/-- The fragment out of scope is the custom one, and a warning was given for it. -/
theorem compiled_scoped_iff_author : ∃ f ∈ authorDocument.fragments,
    ¬ f.Scoped authorSchema ∧ ∃ custom ∈ authorCustoms, custom.header = f.header
      ∧ ¬ custom.Scoped authorSchema ∧ ∃ t name, NamedType.undefinedField t name ∈
        (compileQueries authorSchema [fooDeclaration] [authorSource] defaultAliases).warnings := by
  obtain ⟨c, hscoped, hcustom⟩ := compiled_scoped_iff compileQueries_author
    (by rfl : Keyed.get? _ "Foo" = some authorDocument) readFragments_author
    referenceFragments_author conforms_authorSchema scopesKnown_author
  have hmem : missingFragment ∈ authorDocument.fragments := by
    simp [authorDocument, Document.fragments, Definition.fragment?]
  have htypes : c.allTypes = ["Foo"] := rfl
  have hother : missingFragment.condition ∉ c.allTypes := by
    rw [htypes]
    decide
  obtain ⟨custom, hmemCustom, hheader, hout, hwarning⟩ :=
    hcustom missingFragment hmem hother not_scoped_missingFragment
  exact ⟨missingFragment, hmem, not_scoped_missingFragment, custom, hmemCustom, hheader, hout,
    hwarning (by decide) rfl⟩

end RemoteNodes
