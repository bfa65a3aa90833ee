import RemoteNodes.Proofs.Document.Leaves
import RemoteNodes.Proofs.Document.Sites
/-!
Default fragments as custom fragments: what is compiled out of them collects all leaves of a node
type wherever an operation selects nodes of the type.

* `Compilation.gathers`: a selection set on a node type collects what its fragment selects, through
  the spread of that fragment or through that of the ID fragment.
* `PlainDeclarations`: distinct types and names of ID fragments that do not clash with what the
  compiler makes of them.
* `defaults_collected`: **the default fragments of a node type are collected where its ID fragment
  is spread**; `defaults_collected_of_written`: there only the conditions that the queries write can
  keep them from being collected.
* `CollectsDefaults`, `defaults_not_collected`: not so in every execution, nor for operations that
  share a name, nor for aliases that are no names.
-/

namespace RemoteNodes

/-! ### What is collected -/

/-- An execution admits a spread of the fragment among selections. -/
def Execution.AdmitsSpread (x : Execution) (name : String) (ss : List Selection) : Prop :=
  ∃ directives, .spread name directives ∈ ss ∧ x.Admits directives

/-- An execution admits all spreads of the fragment that the operations of queries write. -/
def Execution.AdmitsWritten (x : Execution) (schema : Schema) (queries : Document)
    (name : String) : Prop :=
  ∀ o ∈ queries.operations, ∀ site, o.HasSite schema site →
    ∀ directives, .spread name directives ∈ site.selections → x.Admits directives

namespace Compilation

variable {schema : Schema} {declarations : List NodeDeclaration} {sources : List String}
  {aliases : Aliases} {type leaf : String} {document : Document}
  (c : Compilation schema declarations sources aliases type document)

/-- In a selection set on a node type, what its fragment selects is collected through the spread of
that fragment, or through that of the ID fragment if there is no other. -/
lemma gathers (hcustoms : ReadsDefaults schema declarations c.customs)
    (hplain : ¬ HasDoubleUnderscore type)
    (hroot : schema.query? ≠ some type ∧ schema.mutation? ≠ some type)
    (hid : c.idFragment.name ≠ type) (hleaf : schema.HasLeaf type leaf)
    {o : Operation} (ho : o ∈ document.operations) (hlast : document.lastOperation o = o)
    {site : Site} (hsite : o.HasSite schema site) (hcovers : schema.covers site.parent? type = true)
    {x : Execution} (hadmits : x.AdmitsSpread type site.selections
      ∨ x.AdmitsSpread c.idFragment.name site.selections
        ∧ ∀ directives, .spread type directives ∉ site.selections) :
    ∃ alias?, x.Gathers schema document type site.selections
      (.field alias? leaf [] [] none) := by
  obtain ⟨o₀, -, before, -, rfl⟩ := c.exists_of_operation_hasSite ho hsite
  rcases hadmits with ⟨directives, hs, hadmits⟩ | ⟨⟨directives, hs, hadmits⟩, hnone⟩
  · -- the fragment of the type's name has not been taken out
    have hkept := (c.spread_mem_finish.mp hs).2
    have hused := c.mem_used_of_spread ho hlast (hsite.spreads hs)
    obtain ⟨f, hf, hname, hcondition, alias?, hmem⟩ :=
      c.exists_typeFragment hcustoms hroot hleaf hplain hused hkept
    have happlies : schema.Applies f.condition type := .inl hcondition
    exact ⟨alias?, .spread (hname ▸ hs) hadmits hf happlies (.field hmem x.admits_nil)⟩
  · -- it has been taken out, since it repeats the ID fragment
    obtain ⟨hs', hkept⟩ := c.spread_mem_finish.mp hs
    have htaken : type ∈ c.duplicates := by
      by_contra hleft
      have hcovers : schema.covers before.parent? type = true := hcovers
      obtain ⟨directives', hmem⟩ := c.exists_spread_mem_spread hcovers hs'
        (c.mem_names_nodeFragments hcustoms c.type_mem_declared hroot hleaf c.type_mem_types)
      exact hnone directives' (c.spread_mem_finish.mpr ⟨hmem, hleft⟩)
    have hleaves := c.selectsLeaf_found hcustoms hplain hroot hid hleaf htaken
    obtain ⟨alias?, hmem⟩ := hleaves.dropSpreadsIn c.duplicates
    have hname : (c.cleaned c.found).name = c.idFragment.name := c.deduplication.name_found
    have hcondition : (c.cleaned c.found).condition = type := by
      rw [c.found_eq]
      exact c.condition_eq
    have happlies : schema.Applies (c.cleaned c.found).condition type := .inl hcondition
    exact ⟨alias?, .spread (hname ▸ hs) hadmits (c.cleaned_found_mem hkept) happlies
      (.field hmem x.admits_nil)⟩

/-- Where the spreads that the queries write are admitted, all are: those that are inserted have no
directives. -/
lemma admits_of_written {x : Execution} {name : String}
    (hwritten : x.AdmitsWritten schema c.queries name) {o : Operation}
    (ho : o ∈ document.operations) {site : Site} (hsite : o.HasSite schema site)
    {directives : List Directive} (hs : .spread name directives ∈ site.selections) :
    x.Admits directives := by
  obtain ⟨o₀, ho₀, before, hbefore, rfl⟩ := c.exists_of_operation_hasSite ho hsite
  rcases c.spread_mem_or_of_spread (c.spread_mem_finish.mp hs).1 with hs | rfl
  · exact hwritten o₀ ho₀ before hbefore directives hs
  · exact x.admits_nil

end Compilation

/-- Declarations of distinct types, which are no root types, with ID fragments of other names. None
of these names has two underscores in a row. -/
structure PlainDeclarations (schema : Schema) (declarations : List NodeDeclaration) : Prop where
  distinct : (declarations.map (·.type)).Nodup
  notRoot : ∀ d ∈ declarations, ∀ kind, schema.root? kind ≠ some d.type
  types : ∀ d ∈ declarations, ¬ HasDoubleUnderscore d.type
  idNames : ∀ name, IsIdName declarations name →
    name ∉ declarations.map (·.type) ∧ ¬ HasDoubleUnderscore name

section Defaults

variable {schema : Schema} {declarations : List NodeDeclaration} {aliases : Aliases}
  {texts : Keyed String} {type leaf : String} {document : Document} {o : Operation} {site : Site}
  {x : Execution} (hschema : schema.Named) (hplain : PlainDeclarations schema declarations)
  (haliases : ∀ p ∈ aliases, p.2 = "" ∨ Token.IsName p.2)
  (hdefaults : defaultFragmentTexts schema declarations aliases [] = .ok texts)
  (hleaf : schema.HasLeaf type leaf) (ho : o ∈ document.operations)
  (hlast : document.lastOperation o = o) (hsite : o.HasSite schema site)
  (hcovers : schema.covers site.parent? type = true)
include hschema hplain haliases hdefaults hleaf ho hlast hsite hcovers

/-- What is compiled out of default fragments collects the leaves of the node type through one of
the two spreads. -/
lemma Compilation.gathers_default (c : Compilation schema declarations (texts.map (·.2))
      (Keyed.overlay defaultAliases aliases) type document)
    (hadmits : x.AdmitsSpread type site.selections
      ∨ x.AdmitsSpread c.idFragment.name site.selections
        ∧ ∀ directives, .spread type directives ∉ site.selections) :
    ∃ alias?, x.Gathers schema document type site.selections
      (.field alias? leaf [] [] none) := by
  have hid : c.idFragment.name ∉ declarations.map (·.type) :=
    (hplain.idNames _ ⟨type, c.queries, c.idFragment, c.declared, rfl⟩).1
  obtain ⟨d, hd, htype⟩ := List.mem_map.mp c.type_mem_declared
  have hroot := hplain.notRoot d hd
  have hplainType := hplain.types d hd
  rw [htype] at hroot hplainType
  have hcustoms := readsDefaults_of_readFragments hschema (named_overlay_defaultAliases haliases)
    hdefaults c.customs_read
  have hne : c.idFragment.name ≠ type := by
    intro heq
    rw [heq] at hid
    exact hid c.type_mem_declared
  exact c.gathers hcustoms hplainType ⟨hroot .query, hroot .mutation⟩ hne hleaf ho hlast hsite
    hcovers hadmits

/-- Documents that are compiled out of default fragments collect, for objects of a node type, every
leaf field of the type that needs no arguments, in each selection set of an operation that spreads
the ID fragment and can stand for the type, in every execution that admits the spreads of the type's
fragment that the queries write themselves. Where that fragment has been taken out because it
repeats the ID fragment, the execution has to admit the spreads of the ID fragment that they write.
So all is collected where queries set no conditions on the spreads of these two. -/
theorem defaults_collected_of_written {documents : Keyed Document} {queries : Document}
    {idFragment : Fragment} {directives : List Directive}
    (hcompile : (compileQueries schema declarations (texts.map (·.2))
      (Keyed.overlay defaultAliases aliases)).outcome = .ok documents)
    (hdocument : Keyed.get? documents type = some document)
    (hdeclares : Declares declarations type queries idFragment)
    (hspread : .spread idFragment.name directives ∈ site.selections)
    (hwritten : x.AdmitsWritten schema queries type)
    (hid : (∃ directives, .spread type directives ∈ site.selections)
      ∨ x.AdmitsWritten schema queries idFragment.name) :
    ∃ alias?, x.Gathers schema document type site.selections
      (.field alias? leaf [] [] none) := by
  obtain ⟨c⟩ := exists_compilation hcompile hdocument
  obtain ⟨rfl, rfl⟩ := hdeclares.unique hplain.distinct c.declared
  refine c.gathers_default hschema hplain haliases hdefaults hleaf ho hlast hsite hcovers ?_
  by_cases htype : ∃ directives, .spread type directives ∈ site.selections
  · obtain ⟨directives', hs⟩ := htype
    exact .inl ⟨directives', hs, c.admits_of_written hwritten ho hsite hs⟩
  · have hadmits := c.admits_of_written (hid.resolve_left htype) ho hsite hspread
    exact .inr ⟨⟨directives, hspread, hadmits⟩, not_exists.mp htype⟩

end Defaults

/-- Documents that are compiled out of default fragments collect, for objects of a node type, every
leaf field of the type that needs no arguments, in each selection set of an operation that can stand
for the type: through the spread of the type's fragment if the execution admits it, or, where that
fragment has been taken out because it repeats the ID fragment, through the spread of the ID
fragment if the execution admits that one. The aliases are names, and of operations with one name
only the last one counts. -/
theorem defaults_collected {schema : Schema} {declarations : List NodeDeclaration}
    {aliases : Aliases} {texts : Keyed String} {documents : Keyed Document}
    {type leaf : String} {document queries : Document} {idFragment : Fragment} {o : Operation}
    {site : Site} {x : Execution} (hschema : schema.Named)
    (hplain : PlainDeclarations schema declarations)
    (haliases : ∀ p ∈ aliases, p.2 = "" ∨ Token.IsName p.2)
    (hdefaults : defaultFragmentTexts schema declarations aliases [] = .ok texts)
    (hcompile : (compileQueries schema declarations (texts.map (·.2))
      (Keyed.overlay defaultAliases aliases)).outcome = .ok documents)
    (hdocument : Keyed.get? documents type = some document)
    (hdeclares : Declares declarations type queries idFragment)
    (hleaf : schema.HasLeaf type leaf) (ho : o ∈ document.operations)
    (hlast : document.lastOperation o = o) (hsite : o.HasSite schema site)
    (hcovers : schema.covers site.parent? type = true)
    (hadmits : x.AdmitsSpread type site.selections
      ∨ x.AdmitsSpread idFragment.name site.selections
        ∧ ∀ directives, .spread type directives ∉ site.selections) :
    ∃ alias?, x.Gathers schema document type site.selections
      (.field alias? leaf [] [] none) := by
  obtain ⟨c⟩ := exists_compilation hcompile hdocument
  obtain ⟨-, rfl⟩ := hdeclares.unique hplain.distinct c.declared
  exact c.gathers_default hschema hplain haliases hdefaults hleaf ho hlast hsite hcovers hadmits

/-! ### The default fragment of one type -/

/-- The default fragment of the type. The field for names may have an alias. -/
def fooFragment (alias? : Option String) : Fragment where
  name := "Foo"
  condition := "Foo"
  selections := [.field (some "remoteId") "id" [] [] none, .field alias? "name" [] [] none]

/-- A fragment is written line by line, two blanks further in. -/
lemma Fragment.text_of_lines {f : Fragment} {lines : List String} {body : String}
    (hdescription : f.description? = none) (hdirectives : f.directives = [])
    (hlines : selectionTexts f.selections = lines)
    (hbody : Token.shift 1 (Layout.join "\n" lines).toList = body.toList) :
    f.text = "fragment " ++ f.name ++ " on " ++ f.condition ++ " "
      ++ Layout.wrap "\x7b\n" (Layout.wrap "  " body) "\n\x7d" := by
  have hindent : Layout.indentBreaks (Layout.join "\n" lines) = body := by
    rw [← String.toList_inj, Token.toList_indentBreaks, hbody]
  rw [Fragment.text, selectionSetText, Layout.block, Layout.indent, hlines, hindent, hdescription,
    hdirectives]
  simp [Description.line, directivesText, Layout.join, Layout.wrap]

lemma text_fooFragment :
    (fooFragment none).text = "fragment Foo on Foo \x7b\n  remoteId: id\n  name\n\x7d" := by
  have hlines : selectionTexts (fooFragment none).selections = ["remoteId: id", "name"] := by
    decide +kernel
  have hbody : Token.shift 1 (Layout.join "\n" ["remoteId: id", "name"]).toList
      = "remoteId: id\n  name".toList := by
    decide +kernel
  rw [Fragment.text_of_lines rfl rfl hlines hbody]
  decide +kernel

set_option maxRecDepth 10000 in
lemma defaultFragments_foo {d : NodeDeclaration} (htype : d.type = "Foo")
    (hreferences : referenceFragments fooSchema [d] = .ok fooReferences) :
    defaultFragments fooSchema [d] [] [] = .ok [("Foo", fooFragment none)] := by
  rw [defaultFragments, hreferences]
  simp only [List.map_cons, List.map_nil, htype]
  cbv

lemma defaultFragmentTexts_foo {d : NodeDeclaration} (htype : d.type = "Foo")
    (hreferences : referenceFragments fooSchema [d] = .ok fooReferences) :
    defaultFragmentTexts fooSchema [d] [] [] = .ok [("Foo", (fooFragment none).text)] := by
  rw [defaultFragmentTexts, defaultFragments_foo htype hreferences]
  rfl

set_option maxRecDepth 10000 in
lemma readFragments_fooFragment :
    readFragments [(fooFragment none).text] = .ok [fooFragment none] := by
  have hscan : Token.scan? (fooFragment none).text = some [.name "fragment", .name "Foo",
      .name "on", .name "Foo", .mark '\x7b', .name "remoteId", .mark ':', .name "id", .name "name",
      .mark '\x7d'] := by
    rw [text_fooFragment]
    decide +kernel
  exact readFragments_of_scan hscan rfl

lemma usages_fooFragment : Usages.ofEvents (usageEvents fooSchema fooReferences [fooFragment none])
    = [("Foo", [("Foo", (fooFragment none).selections)])] := by
  cbv

/-- The selection set of all nodes of the type. -/
def fooSite (selections : List Selection) : Site where
  owner := .field
  parent? := fooSchema.insideField? (fooSchema.operationType? .query) "allFoo"
  selections := selections

lemma hasSite_fooOperation (selections : List Selection) :
    (fooOperation selections).HasSite fooSchema (fooSite selections) :=
  .field List.mem_cons_self (.refl _)

lemma hasLeaf_foo : fooSchema.HasLeaf "Foo" "name" :=
  ⟨_, ⟨"name", .named "String", []⟩, rfl, by decide, rfl, ⟨_, rfl, .inl rfl⟩, nofun⟩

lemma named_fooSchema : fooSchema.Named := ⟨by decide, by decide⟩

section One

variable {d : NodeDeclaration} {queries : Document} (htype : d.type = "Foo")
  (hread : d.read 0 = .ok (queries, fooIdFragment))
include htype hread

lemma plainDeclarations_foo : PlainDeclarations fooSchema [d] where
  distinct := List.nodup_singleton _
  notRoot d' hd' kind := by
    rw [List.mem_singleton.mp hd', htype]
    cases kind <;> decide
  types d' hd' := by
    rw [List.mem_singleton.mp hd', htype]
    decide
  idNames := by
    rintro name ⟨type, queries', idFragment, ⟨index, d', hd', -, hread'⟩, rfl⟩
    obtain rfl := List.mem_singleton.mp (List.mem_of_getElem? hd')
    obtain ⟨rfl, rfl⟩ :=
      Prod.mk.inj (Except.ok.inj ((NodeDeclaration.read_congr hread).symm.trans hread'))
    rw [List.map_singleton, htype]
    decide

lemma referenceFragments_one : referenceFragments fooSchema [d] = .ok fooReferences := by
  rw [referenceFragments, typeReferences, hread, htype]
  rfl

end One

/-- The fields for the ID and the type name after the stages. -/
def fooIdField : Selection := .field (some "remoteId") "id" [] [] none

/-- The type name after the stages. -/
def fooTypename : Selection := .field (some "remoteTypeName") "__typename" [] [] none

/-- The ID fragment after the stages. -/
def compiledIdFragment : Fragment := { fooIdFragment with selections := [fooIdField] }

/-- The document that is compiled out of the default fragment. -/
def defaultDocument : Document := [
  .operation (fooOperation [fooTypename, .spread "FooId" [], .spread "Foo" []]),
  .fragment compiledIdFragment, .fragment (fooFragment none)]

set_option maxRecDepth 10000 in
lemma compileQueries_default :
    (compileQueries fooSchema [fooDeclaration] [(fooFragment none).text]
      (Keyed.overlay defaultAliases [])).outcome = .ok [("Foo", defaultDocument)] :=
  compileQueries_one (read_fooDeclaration 0) readFragments_fooFragment referenceFragments_foo
    usages_fooFragment rfl

/-- The names of the type are collected where its ID fragment is spread. -/
theorem defaults_collected_foo : ∃ alias?, falseExecution.Gathers fooSchema defaultDocument "Foo"
    [fooTypename, .spread "FooId" [], .spread "Foo" []] (.field alias? "name" [] [] none) := by
  have hdefaults := defaultFragmentTexts_foo (d := fooDeclaration) rfl referenceFragments_foo
  have hspread : falseExecution.AdmitsSpread "Foo"
      [fooTypename, .spread "FooId" [], .spread "Foo" []] :=
    ⟨[], by simp, falseExecution.admits_nil⟩
  exact defaults_collected named_fooSchema (plainDeclarations_foo rfl (read_fooDeclaration 0))
    (by simp) hdefaults compileQueries_default rfl ⟨0, _, rfl, rfl, read_fooDeclaration 0⟩
    hasLeaf_foo List.mem_cons_self rfl (hasSite_fooOperation _) rfl (.inl hspread)

/-! ### Fields that are lost -/

/-- What is compiled out of default fragments collects the leaves of node types in every selection
set that spreads an ID fragment and can stand for the type, whatever the execution. -/
def CollectsDefaults (schema : Schema) (declarations : List NodeDeclaration) (aliases : Aliases) :
    Prop :=
  ∀ (texts : Keyed String) (documents : Keyed Document) (type leaf : String)
    (document queries : Document) (idFragment : Fragment) (o : Operation) (site : Site)
    (x : Execution),
    defaultFragmentTexts schema declarations aliases [] = .ok texts →
    (compileQueries schema declarations (texts.map (·.2))
      (Keyed.overlay defaultAliases aliases)).outcome = .ok documents →
    Keyed.get? documents type = some document →
    Declares declarations type queries idFragment → schema.HasLeaf type leaf →
    o ∈ document.operations → o.HasSite schema site → schema.covers site.parent? type = true →
    (∃ directives, .spread idFragment.name directives ∈ site.selections) →
    ∃ alias? arguments directives, x.Gathers schema document type site.selections
      (.field alias? leaf arguments directives none)

/-- Whether a selection is a field of another name. -/
def Selection.isOther (leaf : String) : Selection → Bool
  | .field _ name .. => name != leaf
  | _ => false

/-- A leaf is not collected if all fields of the set, and of the fragments whose spreads an
execution admits, have other names. -/
lemma Execution.not_gathers {x : Execution} {schema : Schema} {document : Document}
    {object leaf : String} {ss : List Selection}
    (hss : ∀ s ∈ ss, s.isOther leaf = true ∨ s.isSpread = true)
    (hspreads : ∀ f ∈ document.fragments, ∀ directives, .spread f.name directives ∈ ss →
      x.Admits directives → ∀ s ∈ f.selections, s.isOther leaf = true)
    {alias? : Option String} {arguments : List Argument} {directives : List Directive} :
    ¬ x.Gathers schema document object ss (.field alias? leaf arguments directives none) := by
  have hfield {alias? : Option String} {arguments : List Argument} {directives : List Directive}
      (h : (Selection.field alias? leaf arguments directives none).isOther leaf = true) :
      False := by
    simp [Selection.isOther] at h
  intro h
  cases h with
  | field hs _ =>
      rcases hss _ hs with h | h
      · exact hfield h
      · cases h
  | inline hs _ _ _ => rcases hss _ hs with h | h <;> cases h
  | spread hs hadmits hf _ h =>
      have hother := hspreads _ hf _ hs hadmits
      cases h with
      | field hs _ => exact hfield (hother _ hs)
      | inline hs _ _ _ => cases hother _ hs
      | spread hs _ _ _ _ => cases hother _ hs

/-- A compiled document that leaves the names of the type out shows that not all is collected. -/
lemma not_collectsDefaults_of {d : NodeDeclaration} {queries document : Document}
    {aliases : Aliases} {text : String} {o : Operation} {ss : List Selection} (x : Execution)
    (htype : d.type = "Foo") (hread : d.read 0 = .ok (queries, fooIdFragment))
    (hdefaults : defaultFragmentTexts fooSchema [d] aliases [] = .ok [("Foo", text)])
    (hcompile : (compileQueries fooSchema [d] [text]
      (Keyed.overlay defaultAliases aliases)).outcome = .ok [("Foo", document)])
    (ho : o ∈ document.operations) (hsite : o.HasSite fooSchema (fooSite ss))
    (hid : .spread "FooId" [] ∈ ss)
    (hss : ∀ s ∈ ss, s.isOther "name" = true ∨ s.isSpread = true)
    (hspreads : ∀ f ∈ document.fragments, ∀ directives, .spread f.name directives ∈ ss →
      x.Admits directives → ∀ s ∈ f.selections, s.isOther "name" = true) :
    ¬ CollectsDefaults fooSchema [d] aliases := by
  intro h
  obtain ⟨_, _, _, hgathers⟩ := h _ _ "Foo" "name" document queries fooIdFragment o (fooSite ss) x
    hdefaults hcompile rfl ⟨0, d, rfl, htype, hread⟩ hasLeaf_foo ho hsite rfl ⟨[], hid⟩
  exact Execution.not_gathers hss hspreads hgathers

/-- A declaration whose query spreads the type's fragment only if a variable says so. -/
def conditionalDeclaration : NodeDeclaration where
  type := "Foo"
  queries := "query LIST_Foo($more: Boolean!) { allFoo { ...FooId ...Foo @include(if: $more) } } "
    ++ "fragment FooId on Foo { id }"

/-- An operation with the variable. -/
def conditionalOperation (selections : List Selection) : Operation where
  kind := .query
  name? := some "LIST_Foo"
  variableDefinitions := [{ name := "more", type := .nonNull (.named "Boolean") }]
  directives := []
  selections := [.plain "allFoo" (some selections)]

/-- The conditional spread. -/
def conditionalSpread : Selection :=
  .spread "Foo" [Directive.conditional "include" (.variable "more")]

/-- The queries of the declaration. -/
def conditionalQueries : Document := [
  .operation (conditionalOperation [.spread "FooId" [], conditionalSpread]),
  .fragment fooIdFragment]

set_option maxRecDepth 10000 in
lemma read_conditionalDeclaration :
    conditionalDeclaration.read 0 = .ok (conditionalQueries, fooIdFragment) := by
  have hscan : Token.scan? conditionalDeclaration.queries = some [.name "query", .name "LIST_Foo",
      .mark '(', .mark '$', .name "more", .mark ':', .name "Boolean", .mark '!', .mark ')',
      .mark '{', .name "allFoo", .mark '{', .ellipsis, .name "FooId", .ellipsis, .name "Foo",
      .mark '@', .name "include", .mark '(', .name "if", .mark ':', .mark '$', .name "more",
      .mark ')', .mark '}', .mark '}', .name "fragment", .name "FooId", .name "on",
      .name "Foo", .mark '{', .name "id", .mark '}'] := by
    decide +kernel
  refine NodeDeclaration.read_eq_ok.mpr ⟨by decide, by decide, ?_, rfl, rfl⟩
  exact Document.parse?_of_scan hscan rfl

/-- The document that is compiled of it. -/
def conditionalDocument : Document := [
  .operation (conditionalOperation [fooTypename, .spread "FooId" [], conditionalSpread]),
  .fragment compiledIdFragment, .fragment (fooFragment none)]

set_option maxRecDepth 10000 in
lemma compileQueries_conditional :
    (compileQueries fooSchema [conditionalDeclaration] [(fooFragment none).text]
      (Keyed.overlay defaultAliases [])).outcome = .ok [("Foo", conditionalDocument)] :=
  compileQueries_one read_conditionalDeclaration readFragments_fooFragment
    (referenceFragments_one rfl read_conditionalDeclaration) usages_fooFragment rfl

/-- A declaration with two queries of one name and one that spreads the ID fragment elsewhere. -/
def repeatedDeclaration : NodeDeclaration where
  type := "Foo"
  queries := "query LIST_Foo { allFoo { ...FooId } } query LIST_Foo { allFoo { id } } "
    ++ "query NODE_Foo { ...FooId } fragment FooId on Foo { id }"

/-- An operation that spreads the ID fragment on the root type. -/
def elsewhereOperation : Operation where
  kind := .query
  name? := some "NODE_Foo"
  variableDefinitions := []
  directives := []
  selections := [.spread "FooId" []]

/-- The queries of the declaration. -/
def repeatedQueries : Document := [
  .operation (fooOperation [.spread "FooId" []]), .operation (fooOperation [.plain "id"]),
  .operation elsewhereOperation, .fragment fooIdFragment]

set_option maxRecDepth 10000 in
lemma read_repeatedDeclaration :
    repeatedDeclaration.read 0 = .ok (repeatedQueries, fooIdFragment) := by
  have hscan : Token.scan? repeatedDeclaration.queries = some [.name "query", .name "LIST_Foo",
      .mark '{', .name "allFoo", .mark '{', .ellipsis, .name "FooId", .mark '}',
      .mark '}', .name "query", .name "LIST_Foo",
      .mark '{', .name "allFoo", .mark '{', .name "id", .mark '}',
      .mark '}', .name "query", .name "NODE_Foo", .mark '{', .ellipsis, .name "FooId",
      .mark '}', .name "fragment", .name "FooId", .name "on",
      .name "Foo", .mark '{', .name "id", .mark '}'] := by
    decide +kernel
  refine NodeDeclaration.read_eq_ok.mpr ⟨by decide, by decide, ?_, rfl, rfl⟩
  exact Document.parse?_of_scan hscan rfl

/-- The document that is compiled of it. -/
def repeatedDocument : Document := [
  .operation (fooOperation [fooTypename, .spread "FooId" [], .spread "Foo" []]),
  .operation (fooOperation [fooTypename, fooIdField]),
  .operation elsewhereOperation, .fragment compiledIdFragment]

set_option maxRecDepth 10000 in
lemma compileQueries_repeated :
    (compileQueries fooSchema [repeatedDeclaration] [(fooFragment none).text]
      (Keyed.overlay defaultAliases [])).outcome = .ok [("Foo", repeatedDocument)] :=
  compileQueries_one read_repeatedDeclaration readFragments_fooFragment
    (referenceFragments_one rfl read_repeatedDeclaration) usages_fooFragment rfl

set_option maxRecDepth 10000 in
lemma defaultFragments_alias :
    defaultFragments fooSchema [fooDeclaration] [("name", "#")] []
      = .ok [("Foo", fooFragment (some "#"))] := by
  rw [defaultFragments, referenceFragments_foo]
  cbv

lemma defaultFragmentTexts_alias :
    defaultFragmentTexts fooSchema [fooDeclaration] [("name", "#")] []
      = .ok [("Foo", (fooFragment (some "#")).text)] := by
  rw [defaultFragmentTexts, defaultFragments_alias]
  rfl

lemma text_alias : (fooFragment (some "#")).text
    = "fragment Foo on Foo \x7b\n  remoteId: id\n  #: name\n\x7d" := by
  have hlines : selectionTexts (fooFragment (some "#")).selections
      = ["remoteId: id", "#: name"] := by
    decide +kernel
  have hbody : Token.shift 1 (Layout.join "\n" ["remoteId: id", "#: name"]).toList
      = "remoteId: id\n  #: name".toList := by
    decide +kernel
  rw [Fragment.text_of_lines rfl rfl hlines hbody]
  decide +kernel

set_option maxRecDepth 10000 in
lemma readFragments_alias : readFragments [(fooFragment (some "#")).text]
    = .ok [⟨none, "Foo", "Foo", [], [.field (some "remoteId") "id" [] [] none]⟩] := by
  have hscan : Token.scan? (fooFragment (some "#")).text = some [.name "fragment", .name "Foo",
      .name "on", .name "Foo", .mark '\x7b', .name "remoteId", .mark ':', .name "id",
      .mark '\x7d'] := by
    rw [text_alias]
    decide +kernel
  exact readFragments_of_scan hscan rfl

lemma usages_alias : Usages.ofEvents (usageEvents fooSchema fooReferences
    [⟨none, "Foo", "Foo", [], [.field (some "remoteId") "id" [] [] none]⟩])
    = [("Foo", [("Foo", [.field (some "remoteId") "id" [] [] none])])] := by
  cbv

/-- The document without it, since it repeats the ID fragment. -/
def aliasDocument : Document := [
  .operation (fooOperation [fooTypename, .spread "FooId" []]), .fragment compiledIdFragment]

set_option maxRecDepth 10000 in
lemma compileQueries_alias :
    (compileQueries fooSchema [fooDeclaration] [(fooFragment (some "#")).text]
      (Keyed.overlay defaultAliases [("name", "#")])).outcome = .ok [("Foo", aliasDocument)] :=
  compileQueries_one (read_fooDeclaration 0) readFragments_alias referenceFragments_foo
    usages_alias rfl

/-- A condition that does not hold leaves the conditional spread out. -/
lemma not_admits_conditional :
    ¬ falseExecution.Admits [Directive.conditional "include" (.variable "more")] := fun h =>
  h _ List.mem_cons_self ⟨.variable "more", .inr ⟨rfl, rfl⟩⟩

/-- Not everything is collected: a query may spread the type's fragment on a condition, and then it
is not spread again; of two operations with one name the first one may spread fragments that are not
within reach of the last one; and with an alias that is no name a field is lost in the text. -/
theorem defaults_not_collected :
    (PlainDeclarations fooSchema [conditionalDeclaration]
        ∧ ¬ CollectsDefaults fooSchema [conditionalDeclaration] [])
      ∧ (PlainDeclarations fooSchema [repeatedDeclaration]
        ∧ ¬ CollectsDefaults fooSchema [repeatedDeclaration] [])
      ∧ PlainDeclarations fooSchema [fooDeclaration]
        ∧ ¬ CollectsDefaults fooSchema [fooDeclaration] [("name", "#")] := by
  refine ⟨⟨plainDeclarations_foo rfl read_conditionalDeclaration, ?_⟩,
    ⟨plainDeclarations_foo rfl read_repeatedDeclaration, ?_⟩,
    plainDeclarations_foo rfl (read_fooDeclaration 0), ?_⟩
  · have hdefaults := defaultFragmentTexts_foo (d := conditionalDeclaration) rfl
      (referenceFragments_one rfl read_conditionalDeclaration)
    refine not_collectsDefaults_of falseExecution rfl read_conditionalDeclaration hdefaults
      compileQueries_conditional List.mem_cons_self (.field List.mem_cons_self (.refl _))
      (List.mem_cons_of_mem _ List.mem_cons_self) (by decide) fun f hf directives hs hadmits => ?_
    rcases List.mem_cons.mp hf with rfl | hf
    · decide
    · obtain rfl := List.mem_singleton.mp hf
      obtain rfl : directives = [Directive.conditional "include" (.variable "more")] := by
        simpa [fooTypename, conditionalSpread, fooFragment] using hs
      exact absurd hadmits not_admits_conditional
  · have hdefaults := defaultFragmentTexts_foo (d := repeatedDeclaration) rfl
      (referenceFragments_one rfl read_repeatedDeclaration)
    refine not_collectsDefaults_of falseExecution rfl read_repeatedDeclaration hdefaults
      compileQueries_repeated List.mem_cons_self (hasSite_fooOperation _)
      (List.mem_cons_of_mem _ List.mem_cons_self) (by decide) fun f hf directives hs hadmits => ?_
    obtain rfl := List.mem_singleton.mp hf
    decide
  · refine not_collectsDefaults_of falseExecution rfl (read_fooDeclaration 0)
      defaultFragmentTexts_alias compileQueries_alias List.mem_cons_self (hasSite_fooOperation _)
      (List.mem_cons_of_mem _ List.mem_cons_self) (by decide) fun f hf directives hs hadmits => ?_
    obtain rfl := List.mem_singleton.mp hf
    decide

end RemoteNodes
