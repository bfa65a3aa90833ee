import Mathlib
import RemoteNodes.Proofs.Document.Compilation
/-!
Whether a compiled document defines all fragments that it spreads.

* `Document.Closed`: a document that does; `SpreadsKnown`: declarations and custom fragments that
  spread nothing but ID fragments and custom fragments.
* `Compilation.known_of_mem_spreadNames`: what a document spreads is known or a node fragment.
* `Stages.supplies_iff`: **which custom fragments go into a document**.
* `compiled_closed_iff`: **when a compiled document is closed**; `compiled_open`: it need not be.
-/

namespace RemoteNodes

/-- A document is closed if it defines every fragment that it spreads. -/
def Document.Closed (document : Document) : Prop :=
  ∀ name ∈ document.spreadNames, name ∈ document.fragmentNames

/-- Declarations spread nothing but their ID fragment and custom fragments, and custom fragments
nothing but ID fragments and custom fragments. -/
structure SpreadsKnown (declarations : List NodeDeclaration) (customs : List Fragment) : Prop where
  queries : ∀ {type queries idFragment}, Declares declarations type queries idFragment →
    ∀ name ∈ queries.spreadNames, name = idFragment.name ∨ name ∈ customs.map (·.name)
  customs : ∀ f ∈ customs, ∀ name ∈ spreadNamesIn f.selections,
    IsIdName declarations name ∨ name ∈ customs.map (·.name)

variable {schema : Schema} {declarations : List NodeDeclaration} {sources : List String}
  {aliases : Aliases} {type : String} {documents : Keyed Document} {document : Document}

/-! ### What goes into a document -/

namespace Stages

variable (c : Stages schema declarations aliases type)

/-- A custom fragment goes into the document exactly if it is on a type that is no node type and no
interface of one, or if it is on this node type or one of its interfaces and narrowing leaves any of
it. -/
theorem supplies_iff (hnodup : c.customNames.Nodup) {f : Fragment} (hf : f ∈ c.customs)
    (hname : ¬ HasDoubleUnderscore f.name) (hid : f.name ≠ c.idFragment.name) :
    c.Supplies f.name
      ↔ f.condition ∉ c.allTypes ∨ (f.condition ∈ c.types ∧ c.walk.kept f ≠ []) := by
  have hunique {g : Fragment} (hg : g ∈ c.customs) (h : g.name = f.name) : g = f :=
    List.inj_on_of_nodup_map hnodup hg hf h
  have hshared : (∃ g ∈ c.sharedFragments, g.name = f.name) ↔ f.condition ∉ c.allTypes := by
    constructor
    · rintro ⟨g, hg, h⟩
      obtain ⟨g', hg', hheader, htype⟩ := c.mem_sharedFragments.mp ⟨g, hg, rfl⟩
      obtain ⟨hname', hcondition⟩ := Prod.mk.inj hheader
      rw [hunique hg' (hname'.trans h)] at hcondition
      rwa [hcondition]
    · intro htype
      obtain ⟨g, hg, hheader⟩ := c.mem_sharedFragments.mpr ⟨f, hf, rfl, htype⟩
      exact ⟨g, hg, (Prod.mk.inj hheader).1⟩
  have hnode : (∃ g ∈ c.nodeFragments, g.name = f.name)
      ↔ f.condition ∈ c.types ∧ c.walk.kept f ≠ [] := by
    rw [← List.mem_map (f := fun g : Fragment => g.name)]
    refine (mem_names_fragmentsFor c.records_usages (List.mem_map_of_mem hf)).trans ?_
    constructor
    · rintro ⟨type', htype', hne⟩
      obtain ⟨s, hs⟩ := List.exists_mem_of_ne_nil _ hne
      obtain ⟨g, hg, hfound⟩ := c.mem_events.mp (c.records_usages.found hs)
      obtain ⟨rfl, hname', hkept⟩ := UsageWalk.mem_kept_of_found hname hfound
      rw [hunique hg hname'.symm] at hkept htype'
      exact ⟨htype', List.ne_nil_of_mem hkept⟩
    · rintro ⟨htype, hne⟩
      obtain ⟨s, hs⟩ := List.exists_mem_of_ne_nil _ hne
      have hfound := c.mem_events.mpr ⟨f, hf, UsageWalk.found_of_mem_kept hs⟩
      exact ⟨f.condition, htype, c.records_usages.ne_nil hfound⟩
  rw [Supplies, ← hshared, ← hnode]
  constructor
  · rintro ⟨g, hg, h⟩
    rcases List.mem_cons.mp hg with rfl | hg
    · exact absurd h.symm hid
    · rcases List.mem_append.mp hg with hg | hg
      · exact .inr ⟨g, hg, h⟩
      · exact .inl ⟨g, hg, h⟩
  · rintro (⟨g, hg, h⟩ | ⟨g, hg, h⟩)
    · exact ⟨g, List.mem_cons_of_mem _ (List.mem_append_right _ hg), h⟩
    · exact ⟨g, List.mem_cons_of_mem _ (List.mem_append_left _ hg), h⟩

end Stages

/-! ### What a document spreads -/

namespace Compilation

variable (c : Compilation schema declarations sources aliases type document)

/-- A document spreads nothing but custom fragments, ID fragments and the fragments of its node
type. -/
lemma known_of_mem_spreadNames (hknown : SpreadsKnown declarations c.customs) {name : String}
    (h : name ∈ document.spreadNames) :
    name ∈ c.customNames ∨ IsIdName declarations name ∨ ∃ f ∈ c.nodeFragments, f.name = name := by
  let known (name : String) : Prop :=
    name ∈ c.customNames ∨ IsIdName declarations name ∨ ∃ f ∈ c.nodeFragments, f.name = name
  have hdeclared {type' : String} {queries : Document} {idFragment : Fragment}
      (hdeclares : Declares declarations type' queries idFragment) :
      ∀ n ∈ queries.spreadNames, known n := by
    intro n hn
    rcases hknown.queries hdeclares n hn with rfl | hn
    · exact .inr (.inl ⟨type', queries, idFragment, hdeclares, rfl⟩)
    · exact .inl hn
  have hreferences : c.references.Obey (.spreading known) := by
    refine obey_referenceFragments c.references_made ?_ fun _ _ _ _ _ _ _ => trivial
    rintro type' queries idFragment hdeclares s hs
    refine ⟨⟨fun n hn => hdeclared hdeclares n ?_, fun _ _ _ => trivial⟩, fun _ _ => .inr trivial⟩
    obtain ⟨index, d, -, -, hread⟩ := hdeclares
    have hfragments := (NodeDeclaration.read_eq_ok.mp hread).2.2.2.1
    refine Document.mem_spreadNames.mpr (.inr ⟨idFragment, by rw [hfragments]; simp, ?_⟩)
    exact mem_spreadNamesIn.mpr ⟨s, hs, hn⟩
  have hqueries : c.queries.Obeys (.spreading known) := by
    have hnames := hdeclared c.declared
    refine ⟨fun o ho => setObeys_spreading.mpr fun n hn => ?_,
      fun f hf => setObeys_spreading.mpr fun n hn => ?_⟩
    · exact hnames n (Document.mem_spreadNames.mpr (.inl ⟨o, ho, hn⟩))
    · exact hnames n (Document.mem_spreadNames.mpr (.inr ⟨f, hf, hn⟩))
  have hcustoms : ∀ f ∈ c.customs, SetObeys (.spreading known) f.selections := by
    refine fun f hf => setObeys_spreading.mpr fun n hn => ?_
    rcases hknown.customs f hf n hn with hid | hcustom
    · exact .inr (.inl hid)
    · exact .inl hcustom
  have hassembled : c.assembled.Obeys (.spreading known) :=
    Stages.obeys_assembled hreferences hqueries hcustoms fun f hf => .inr (.inr ⟨f, hf, rfl⟩)
  rcases Document.mem_spreadNames.mp (c.mem_spreadNames_assembled h).1 with
    ⟨o, ho, hname⟩ | ⟨f, hf, hname⟩
  · exact setObeys_spreading.mp (hassembled.1 o ho) name hname
  · exact setObeys_spreading.mp (hassembled.2 f hf) name hname

end Compilation

/-! ### Closed documents -/

/-- A compiled document is closed exactly if each custom fragment and ID fragment that it spreads
has gone into it, and all that it spreads is within reach of its operations. The latter holds by
itself in a document that defines no name twice. A custom fragment on a node type or an interface of
one has gone into the document exactly if it is on this document's node type or one of its
interfaces and narrowing has left any of it. -/
theorem compiled_closed_iff {customs : List Fragment}
    (hcompile : (compileQueries schema declarations sources aliases).outcome = .ok documents)
    (hdocument : Keyed.get? documents type = some document)
    (hcustoms : readFragments sources = .ok customs) (hnodup : (customs.map (·.name)).Nodup)
    (hknown : SpreadsKnown declarations customs) :
    ∃ c : Compilation schema declarations sources aliases type document,
      (document.Closed ↔ ∀ name ∈ document.spreadNames, name ∈ c.assembled.used
          ∧ (name ∈ c.customNames ∨ IsIdName declarations name → c.Supplies name))
        ∧ ((document.operations.map (·.name?)).Nodup → document.fragmentNames.Nodup →
          ∀ name ∈ document.spreadNames, name ∈ c.assembled.used)
        ∧ ∀ f ∈ c.customs, ¬ HasDoubleUnderscore f.name → f.name ≠ c.idFragment.name →
          (c.Supplies f.name
            ↔ f.condition ∉ c.allTypes ∨ (f.condition ∈ c.types ∧ c.walk.kept f ≠ [])) := by
  obtain ⟨c⟩ := exists_compilation hcompile hdocument
  have hsame : c.customs = customs := Except.ok.inj (c.customs_read.symm.trans hcustoms)
  subst hsame
  refine ⟨c, ⟨fun hclosed name hname => ?_, fun h name hname => ?_⟩,
    fun hoperations hfragments name => c.mem_used hoperations hfragments,
    fun f hf hunderscore hid => c.supplies_iff hnodup hf hunderscore hid⟩
  · obtain ⟨hsupplied, hused, -⟩ := c.mem_fragmentNames.mp (hclosed name hname)
    exact ⟨hused, fun _ => hsupplied⟩
  · obtain ⟨hused, hsupplied⟩ := h name hname
    refine c.mem_fragmentNames.mpr ⟨?_, hused, (c.mem_spreadNames_assembled hname).2⟩
    rcases c.known_of_mem_spreadNames hknown hname with hcustom | hid | ⟨f, hf, h⟩
    · exact hsupplied (.inl hcustom)
    · exact hsupplied (.inr hid)
    · exact ⟨f, List.mem_cons_of_mem _ (List.mem_append_left _ hf), h⟩

/-! ### A document that is not closed -/

/-- A custom fragment that spreads another one, of which narrowing leaves nothing. -/
def extraSource : String :=
  "fragment Foo on Foo { name ...Extra } fragment Extra on Foo { missing }"

/-- The custom fragments of the source. -/
def extraCustoms : List Fragment := [
  { name := "Foo", condition := "Foo", selections := [.plain "name", .spread "Extra" []] },
  { name := "Extra", condition := "Foo", selections := [.plain "missing"] }]

/-- The document that is compiled from them. -/
def extraDocument : Document := [
  .operation (fooOperation [.field (some "remoteTypeName") "__typename" [] [] none,
    .spread "FooId" [], .spread "Foo" []]),
  .fragment { fooIdFragment with selections := [.field (some "remoteId") "id" [] [] none] },
  .fragment
    { name := "Foo", condition := "Foo", selections := [.plain "name", .spread "Extra" []] }]

set_option maxRecDepth 10000 in
lemma readFragments_extra : readFragments [extraSource] = .ok extraCustoms := by
  have hscan : Token.scan? extraSource = some [.name "fragment", .name "Foo", .name "on",
      .name "Foo", .mark '\x7b', .name "name", .ellipsis, .name "Extra", .mark '\x7d',
      .name "fragment", .name "Extra", .name "on", .name "Foo", .mark '\x7b', .name "missing",
      .mark '\x7d'] := by
    decide +kernel
  exact readFragments_of_scan hscan rfl

lemma usages_extra : Usages.ofEvents (usageEvents fooSchema fooReferences extraCustoms)
    = [("Foo", [("Foo", [.plain "name", .spread "Extra" []]), ("Extra", [])])] := by
  cbv

set_option maxRecDepth 10000 in
lemma compileQueries_extra :
    (compileQueries fooSchema [fooDeclaration] [extraSource] defaultAliases).outcome
      = .ok [("Foo", extraDocument)] :=
  compileQueries_foo readFragments_extra referenceFragments_foo usages_extra rfl

lemma spreadsKnown_extra : SpreadsKnown [fooDeclaration] extraCustoms := by
  constructor
  · intro type queries idFragment hdeclares name hname
    obtain ⟨rfl, rfl⟩ := declares_foo hdeclares
    exact .inl (List.mem_singleton.mp hname)
  · have hspreads : ∀ f ∈ extraCustoms, ∀ name ∈ spreadNamesIn f.selections,
        name ∈ extraCustoms.map (·.name) := by decide
    exact fun f hf name hname => .inr (hspreads f hf name hname)

/-- Declarations and custom fragments of distinct names that spread nothing unknown, and a document
compiled from them that spreads a fragment which it does not define. -/
theorem compiled_open : ∃ customs documents document,
    readFragments [extraSource] = .ok customs ∧ (customs.map (·.name)).Nodup
      ∧ SpreadsKnown [fooDeclaration] customs
      ∧ (compileQueries fooSchema [fooDeclaration] [extraSource] defaultAliases).outcome
        = .ok documents
      ∧ Keyed.get? documents "Foo" = some document ∧ ¬ document.Closed := by
  refine ⟨extraCustoms, _, extraDocument, readFragments_extra, by decide, spreadsKnown_extra,
    compileQueries_extra, rfl, fun h => ?_⟩
  have hextra : "Extra" ∉ extraDocument.fragmentNames := by decide
  exact hextra (h "Extra" (by decide))

/-- The fragment that is missing has not gone into the document, since narrowing left nothing. -/
theorem compiled_closed_iff_extra :
    ∃ c : Compilation fooSchema [fooDeclaration] [extraSource] defaultAliases "Foo" extraDocument,
      ¬ c.Supplies "Extra" ∧ ¬ extraDocument.Closed := by
  obtain ⟨c, hclosed, -, hsupplies⟩ := compiled_closed_iff compileQueries_extra
    (by rfl : Keyed.get? _ "Foo" = some extraDocument) readFragments_extra (by decide)
    spreadsKnown_extra
  have hcustoms : c.customs = extraCustoms :=
    Except.ok.inj (c.customs_read.symm.trans readFragments_extra)
  have hid : c.idFragment = fooIdFragment := (declares_foo c.declared).2
  let extra : Fragment := { name := "Extra", condition := "Foo", selections := [.plain "missing"] }
  have hextra : ¬ c.Supplies extra.name := by
    have htypes : c.allTypes = ["Foo"] := rfl
    have hkept : c.walk.kept extra = [] := by cbv
    rw [hsupplies extra (by rw [hcustoms]; simp [extraCustoms, extra]) (by decide)
      (by rw [hid]; decide), htypes, hkept]
    simp [extra]
  refine ⟨c, hextra, fun h => hextra ?_⟩
  have hname : "Extra" ∈ c.customNames := by
    rw [Stages.customNames, hcustoms]
    decide
  exact (hclosed.mp h "Extra" (by decide)).2 (.inl hname)

end RemoteNodes
