import Mathlib
import RemoteNodes.Proofs.Document.Compilation
/-!
Whether a compiled document defines each fragment name once. The custom fragments have distinct
names, but an extracted fragment is named by a path, and the same path can belong to a node type and
to an interface of it.

* `PlainNames`: custom and ID fragments of distinct names without two underscores in a row.
* `Stages.exists_custom_of_plain`: a fragment of a plain name is a custom one.
* `Stages.two_le_count_of_pair`: **two fragments of one name and type are of a custom name, and the
  type is mentioned twice**.
* `compiled_nodup_iff`: **when the names in a compiled document are distinct**;
  `compiled_names_repeat`: they need not be.
-/

namespace RemoteNodes

open scoped List

/-- Custom fragments of distinct names, which no ID fragment has. No name has two underscores in a
row. -/
structure PlainNames (declarations : List NodeDeclaration) (customs : List Fragment) : Prop where
  nodup : (customs.map (·.name)).Nodup
  plain : ∀ f ∈ customs, ¬ HasDoubleUnderscore f.name
  idPlain : ∀ name, IsIdName declarations name → ¬ HasDoubleUnderscore name
  idOther : ∀ name, IsIdName declarations name → name ∉ customs.map (·.name)

variable {schema : Schema} {declarations : List NodeDeclaration} {sources : List String}
  {aliases : Aliases} {type : String} {documents : Keyed Document} {document : Document}

/-! ### The fragments that go into a document -/

namespace Stages

variable {c : Stages schema declarations aliases type} {f g : Fragment}

lemma exists_custom_of_mem_shared (hf : f ∈ c.sharedFragments) :
    f.condition ∉ c.allTypes ∧ ∃ custom ∈ c.customs, custom.header = f.header := by
  obtain ⟨custom, hcustom, hheader, htype⟩ := c.mem_sharedFragments.mp ⟨f, hf, rfl⟩
  exact ⟨htype, custom, hcustom, hheader⟩

lemma names_shared_sublist : c.sharedFragments.map (·.name) <+ c.customNames := by
  have heq : c.sharedFragments.map (·.name)
      = (c.customs.filter fun f => !c.allTypes.contains f.condition).map (·.name) := by
    rw [sharedFragments, otherFragments, makeShallow_eq_map, List.map_map]
    rfl
  rw [heq]
  exact List.filter_sublist.map _

/-- A fragment of the node type is made on it or on one of its interfaces, out of what the walk over
a custom fragment finds there at the path that is its name. -/
lemma exists_found_of_mem_node (hf : f ∈ c.nodeFragments) :
    f.condition ∈ c.types
      ∧ ∃ custom ∈ c.customs, ∃ s, .found f.condition f.name s ∈ c.walk.fragmentEvents custom := by
  obtain ⟨htype, hne, -⟩ := exists_of_mem_fragmentsFor c.records_usages hf
  obtain ⟨s, hs⟩ := List.exists_mem_of_ne_nil _ hne
  obtain ⟨custom, hcustom, hfound⟩ := c.mem_events.mp (c.records_usages.found hs)
  exact ⟨htype, custom, hcustom, s, hfound⟩

/-- A fragment of a plain name, other than the ID fragment, is a custom one. -/
lemma exists_custom_of_plain (hf : f ∈ c.nodeFragments ++ c.sharedFragments)
    (hplain : ¬ HasDoubleUnderscore f.name) : ∃ custom ∈ c.customs, custom.header = f.header := by
  rcases List.mem_append.mp hf with hf | hf
  · obtain ⟨-, custom, hcustom, s, hfound⟩ := exists_found_of_mem_node hf
    obtain ⟨hcondition, hname, -⟩ := UsageWalk.mem_kept_of_found hplain hfound
    exact ⟨custom, hcustom, Fragment.header_eq_iff.mpr ⟨hname.symm, hcondition.symm⟩⟩
  · exact (exists_custom_of_mem_shared hf).2

variable (hnames : PlainNames declarations c.customs)
  (hid : IsIdName declarations c.idFragment.name) (htypes : c.types ⊆ c.allTypes)
include hnames hid

lemma name_ne_of_mem (hf : f ∈ c.nodeFragments ++ c.sharedFragments) :
    f.name ≠ c.idFragment.name := by
  intro h
  have hplain : ¬ HasDoubleUnderscore f.name := by
    rw [h]
    exact hnames.idPlain _ hid
  obtain ⟨custom, hcustom, hheader⟩ := exists_custom_of_plain hf hplain
  refine hnames.idOther _ hid (List.mem_map.mpr ⟨custom, hcustom, ?_⟩)
  rw [← h]
  exact (Fragment.header_eq_iff.mp hheader).1

/-- Fragments of one plain name are made on one type. -/
lemma condition_eq_of_plain (hf : f ∈ c.parts) (hg : g ∈ c.parts) (h : f.name = g.name)
    (hplain : ¬ HasDoubleUnderscore f.name) : f.condition = g.condition := by
  rcases List.mem_cons.mp hf with rfl | hf
  · rcases List.mem_cons.mp hg with rfl | hg
    · rfl
    · exact absurd h.symm (name_ne_of_mem hnames hid hg)
  · rcases List.mem_cons.mp hg with rfl | hg
    · exact absurd h (name_ne_of_mem hnames hid hf)
    · obtain ⟨custom, hcustom, hheader⟩ := exists_custom_of_plain hf hplain
      obtain ⟨custom', hcustom', hheader'⟩ := exists_custom_of_plain hg (h ▸ hplain)
      obtain ⟨hname, hcondition⟩ := Fragment.header_eq_iff.mp hheader
      obtain ⟨hname', hcondition'⟩ := Fragment.header_eq_iff.mp hheader'
      have hsame : custom = custom' := List.inj_on_of_nodup_map hnames.nodup hcustom hcustom'
        (hname.trans (h.trans hname'.symm))
      rw [← hcondition, ← hcondition', hsame]

include htypes

/-- Two fragments of one name and type are of a custom name, and the type is mentioned twice. -/
theorem two_le_count_of_pair (hpair : [f, g] <+ c.parts) (hheader : f.header = g.header) :
    f.name ∈ c.customNames ∧ 2 ≤ c.types.count f.condition := by
  obtain ⟨hname, hcondition⟩ := Fragment.header_eq_iff.mp hheader
  have hrest : [f, g] <+ c.nodeFragments ++ c.sharedFragments := by
    rcases List.sublist_cons_iff.mp hpair with hpair | ⟨rest, heq, hg⟩
    · exact hpair
    · -- the ID fragment has a name of its own
      obtain ⟨rfl, rfl⟩ := List.cons.inj heq
      exact absurd hname.symm (name_ne_of_mem hnames hid (List.singleton_sublist.mp hg))
  obtain ⟨first, second, heq, hfirst, hsecond⟩ := List.sublist_append_iff.mp hrest
  match first, heq with
  | [], heq =>
      -- shared fragments have the names of different custom fragments
      rw [List.nil_append] at heq
      subst heq
      have hnodup := hnames.nodup.sublist ((hsecond.map (·.name)).trans names_shared_sublist)
      exact absurd hname (by simpa using hnodup)
  | [f'], heq =>
      -- node fragments and shared ones are on different types
      obtain ⟨rfl, rfl⟩ := List.cons.inj heq
      have hf := (exists_found_of_mem_node (List.singleton_sublist.mp hfirst)).1
      have hg := (exists_custom_of_mem_shared (List.singleton_sublist.mp hsecond)).1
      rw [hcondition] at hf
      exact absurd (htypes hf) hg
  | f' :: g' :: rest, heq =>
      obtain ⟨rfl, htail⟩ := List.cons.inj heq
      obtain ⟨rfl, -⟩ := List.cons.inj htail
      have hpair := (List.sublist_append_left [f, g] rest).trans hfirst
      exact two_le_count_of_pair_fragmentsFor c.records_usages hpair hheader

/-- Of the fragments that go into a document, some have distinct names exactly if those of one name
are on one type, and no type of a custom one is mentioned twice. -/
lemma nodup_names_iff (keep : Fragment → Bool) :
    ((c.parts.filter keep).map (·.name)).Nodup
      ↔ (∀ f ∈ c.parts.filter keep, ∀ g ∈ c.parts.filter keep, f.name = g.name →
          f.condition = g.condition)
        ∧ ∀ f ∈ c.parts.filter keep, f.name ∈ c.customNames → c.types.count f.condition ≤ 1 := by
  constructor
  · intro hnodup
    refine ⟨fun f hf g hg h => by rw [List.inj_on_of_nodup_map hnodup hf hg h], ?_⟩
    intro f hf hcustom
    by_contra hcount
    obtain ⟨hpart, hkeep⟩ := List.mem_filter.mp hf
    have htype : f.condition ∈ c.types := List.count_pos_iff.mp (by omega)
    rcases List.mem_cons.mp hpart with rfl | hpart
    · exact hnames.idOther _ hid hcustom
    · rcases List.mem_append.mp hpart with hnode | hshared
      · -- the fragment comes twice, once for each mention of its type
        have htwo : 2 ≤ c.types.count f.condition := by omega
        have hpair : [f, f] <+ c.parts :=
          ((pair_fragmentsFor_of_two_le_count hnode hcustom htwo).trans
            (List.sublist_append_left _ _)).trans (List.sublist_cons_self _ _)
        have hkept : [f, f].filter keep = [f, f] := by simp [hkeep]
        have hpair := hpair.filter keep
        rw [hkept] at hpair
        have htwice := hnodup.sublist (hpair.map fun f => f.name)
        simp at htwice
      · exact (exists_custom_of_mem_shared hshared).1 (htypes htype)
  · rintro ⟨hone, hcount⟩
    rw [List.Nodup, List.pairwise_map, List.pairwise_iff_forall_sublist]
    intro f g hpair hname
    have hf : f ∈ c.parts.filter keep := hpair.subset (by simp)
    have hg : g ∈ c.parts.filter keep := hpair.subset (by simp)
    have hheader := Fragment.header_eq_iff.mpr ⟨hname, hone f hf g hg hname⟩
    obtain ⟨hcustom, htwo⟩ :=
      two_le_count_of_pair hnames hid htypes (hpair.trans List.filter_sublist) hheader
    have := hcount f hf hcustom
    omega

omit htypes in
/-- Fragments of one name on two types are extracted ones, of what was found at one path. -/
lemma extracted_of_condition_ne (hf : f ∈ c.parts) (hg : g ∈ c.parts) (hname : f.name = g.name)
    (hcondition : f.condition ≠ g.condition) :
    HasDoubleUnderscore f.name ∧ f.condition ∈ c.types ∧ ∃ custom ∈ c.customs, ∃ s,
      .found f.condition f.name s ∈ c.walk.fragmentEvents custom := by
  have hextracted : HasDoubleUnderscore f.name := by
    by_contra hplain
    exact hcondition (condition_eq_of_plain hnames hid hf hg hname hplain)
  refine ⟨hextracted, ?_⟩
  rcases List.mem_cons.mp hf with rfl | hf
  · exact absurd hextracted (hnames.idPlain _ hid)
  · rcases List.mem_append.mp hf with hnode | hshared
    · exact exists_found_of_mem_node hnode
    · obtain ⟨-, custom, hcustom, hheader⟩ := exists_custom_of_mem_shared hshared
      rw [← (Fragment.header_eq_iff.mp hheader).1] at hextracted
      exact absurd hextracted (hnames.plain custom hcustom)

end Stages

/-! ### The names in a document -/

/-- What is said of the names and types of fragments is said of their headers. -/
lemma forall_iff_of_map_header {fs gs : List Fragment}
    (h : fs.map (·.header) = gs.map (·.header)) (p : String → String → Prop) :
    (∀ f ∈ fs, p f.name f.condition) ↔ ∀ g ∈ gs, p g.name g.condition := by
  have hmap (fs : List Fragment) : (∀ f ∈ fs, p f.name f.condition)
      ↔ ∀ header ∈ fs.map (·.header), p header.1 header.2 := by
    rw [List.forall_mem_map]
    rfl
  rw [hmap fs, hmap gs, h]

lemma forall_pair_iff_of_map_header {fs gs : List Fragment}
    (h : fs.map (·.header) = gs.map (·.header)) (p : String → String → String → String → Prop) :
    (∀ f ∈ fs, ∀ f' ∈ fs, p f.name f.condition f'.name f'.condition)
      ↔ ∀ g ∈ gs, ∀ g' ∈ gs, p g.name g.condition g'.name g'.condition := by
  rw [forall_iff_of_map_header h fun n t => ∀ f' ∈ fs, p n t f'.name f'.condition]
  exact forall₂_congr fun g _ => forall_iff_of_map_header h (p g.name g.condition)

namespace Compilation

variable (c : Compilation schema declarations sources aliases type document)

lemma isIdName : IsIdName declarations c.idFragment.name :=
  ⟨type, c.queries, c.idFragment, c.declared, rfl⟩

lemma types_subset : c.types ⊆ c.allTypes := by
  obtain ⟨index, d, hd, rfl, -⟩ := c.declared
  intro name hname
  exact List.mem_flatMap.mpr ⟨d, List.mem_of_getElem? hd, hname⟩

lemma fragmentNames_eq : document.fragmentNames = (c.parts.filter c.stays).map (·.name) := by
  have hnames := congrArg (List.map (·.1)) c.map_header_fragments
  rwa [List.map_map, List.map_map] at hnames

end Compilation

/-- The names of the fragments in a compiled document are distinct exactly if fragments of one name
are on one type, and no type of a custom fragment is mentioned twice among the node type and its
interfaces. Fragments of one name on two types are extracted ones: the walk over custom fragments
has found selections of both types at one path. -/
theorem compiled_nodup_iff {customs : List Fragment}
    (hcompile : (compileQueries schema declarations sources aliases).outcome = .ok documents)
    (hdocument : Keyed.get? documents type = some document)
    (hcustoms : readFragments sources = .ok customs) (hnames : PlainNames declarations customs) :
    ∃ c : Compilation schema declarations sources aliases type document,
      (document.fragmentNames.Nodup
          ↔ (∀ f ∈ document.fragments, ∀ g ∈ document.fragments, f.name = g.name →
              f.condition = g.condition)
            ∧ ∀ f ∈ document.fragments, f.name ∈ c.customNames → c.types.count f.condition ≤ 1)
        ∧ ∀ f ∈ document.fragments, ∀ g ∈ document.fragments, f.name = g.name →
          f.condition ≠ g.condition → HasDoubleUnderscore f.name ∧ f.condition ∈ c.types
            ∧ ∃ custom ∈ c.customs, ∃ s,
              .found f.condition f.name s ∈ c.walk.fragmentEvents custom := by
  obtain ⟨c⟩ := exists_compilation hcompile hdocument
  have hsame : c.customs = customs := Except.ok.inj (c.customs_read.symm.trans hcustoms)
  subst hsame
  have hheaders := c.map_header_fragments
  refine ⟨c, ?_, ?_⟩
  · rw [c.fragmentNames_eq, Stages.nodup_names_iff hnames c.isIdName c.types_subset]
    exact and_congr
      (forall_pair_iff_of_map_header hheaders fun n t n' t' => n = n' → t = t').symm
      (forall_iff_of_map_header hheaders fun n t => n ∈ c.customNames → c.types.count t ≤ 1).symm
  · refine (forall_pair_iff_of_map_header hheaders fun n t n' t' => n = n' → t ≠ t' →
      HasDoubleUnderscore n ∧ t ∈ c.types
        ∧ ∃ custom ∈ c.customs, ∃ s, .found t n s ∈ c.walk.fragmentEvents custom).mpr ?_
    intro f hf g hg
    exact Stages.extracted_of_condition_ne hnames c.isIdName (List.mem_filter.mp hf).1
      (List.mem_filter.mp hg).1

/-! ### A document that defines a name twice -/

/-- A schema in which a type can be reached by itself and by its interface, each time inside another
type that is no node type. -/
def topSchema : Schema where
  types := [⟨"ID", .scalar⟩, ⟨"String", .scalar⟩, ⟨"Int", .scalar⟩,
    ⟨"Named", .interface [] [⟨"id", .named "ID", []⟩, ⟨"name", .named "String", []⟩]⟩,
    ⟨"Foo", .object ["Named"] [⟨"id", .named "ID", []⟩, ⟨"name", .named "String", []⟩,
      ⟨"size", .named "Int", []⟩]⟩,
    ⟨"Top", .object [] [⟨"one", .named "One", []⟩, ⟨"two", .named "Two", []⟩]⟩,
    ⟨"One", .object [] [⟨"link", .named "Named", []⟩]⟩,
    ⟨"Two", .object [] [⟨"link", .named "Foo", []⟩]⟩,
    ⟨"Query", .object [] [⟨"allFoo", .list (.named "Foo"), []⟩]⟩]
  directives := []
  query? := some "Query"

/-- A custom fragment that takes both ways. -/
def topSource : String := "fragment Top on Top { one { link { name } } two { link { size } } }"

/-- The custom fragment of the source. -/
def topCustoms : List Fragment := [{
  name := "Top"
  condition := "Top"
  selections := [.plain "one" (some [.plain "link" (some [.plain "name"])]),
    .plain "two" (some [.plain "link" (some [.plain "size"])])] }]

/-- The fragment that is extracted from the custom one on the interface. -/
def topOnNamed : Fragment where
  name := "Top__link"
  condition := "Named"
  selections := [.plain "name"]

/-- The fragment that is extracted from the custom one on the node type. -/
def topOnFoo : Fragment where
  name := "Top__link"
  condition := "Foo"
  selections := [.plain "size"]

/-- The references to the type and its interface. -/
def topReferences : References := [("Foo", fooIdFragment.reference "Foo"),
  ("Named", {
    name := "Named"
    condition := "Named"
    selections := [.plain "__typename", .plain "id"] })]

/-- The document that is compiled from them. -/
def topDocument : Document := [
  .operation (fooOperation [.field (some "remoteTypeName") "__typename" [] [] none,
    .spread "FooId" [], .spread "Top__link" [], .spread "Top__link" []]),
  .fragment { fooIdFragment with selections := [.field (some "remoteId") "id" [] [] none] },
  .fragment topOnFoo,
  .fragment topOnNamed]

set_option maxRecDepth 10000 in
lemma readFragments_top : readFragments [topSource] = .ok topCustoms := by
  have hscan : Token.scan? topSource = some [.name "fragment", .name "Top", .name "on",
      .name "Top", .mark '\x7b', .name "one", .mark '\x7b', .name "link", .mark '\x7b',
      .name "name", .mark '\x7d', .mark '\x7d', .name "two", .mark '\x7b', .name "link",
      .mark '\x7b', .name "size", .mark '\x7d', .mark '\x7d', .mark '\x7d'] := by
    decide +kernel
  exact readFragments_of_scan hscan rfl

lemma referenceFragments_top :
    referenceFragments topSchema [fooDeclaration] = .ok topReferences := by
  rw [referenceFragments, typeReferences, read_fooDeclaration]
  rfl

lemma usages_top : Usages.ofEvents (usageEvents topSchema topReferences topCustoms)
    = [("Top", [("Top", topCustoms.flatMap (·.selections))]),
      ("Named", [("Top__link", topOnNamed.selections)]),
      ("Foo", [("Top__link", topOnFoo.selections)])] := by
  cbv

set_option maxRecDepth 10000 in
lemma compileQueries_top :
    (compileQueries topSchema [fooDeclaration] [topSource] defaultAliases).outcome
      = .ok [("Foo", topDocument)] :=
  compileQueries_foo readFragments_top referenceFragments_top usages_top rfl

lemma plainNames_top : PlainNames [fooDeclaration] topCustoms := by
  have hid {name : String} (h : IsIdName [fooDeclaration] name) : name = "FooId" := by
    obtain ⟨type, queries, idFragment, hdeclares, rfl⟩ := h
    rw [(declares_foo hdeclares).2]
    rfl
  refine ⟨by decide, by decide, fun name h => ?_, fun name h => ?_⟩
  · rw [hid h]
    decide
  · rw [hid h]
    decide

/-- Custom fragments of plain and distinct names, and a document compiled from them that defines a
fragment name twice. -/
theorem compiled_names_repeat : ∃ customs documents document,
    readFragments [topSource] = .ok customs ∧ PlainNames [fooDeclaration] customs
      ∧ (compileQueries topSchema [fooDeclaration] [topSource] defaultAliases).outcome
        = .ok documents
      ∧ Keyed.get? documents "Foo" = some document ∧ ¬ document.fragmentNames.Nodup :=
  ⟨topCustoms, _, topDocument, readFragments_top, plainNames_top, compileQueries_top, rfl,
    by decide⟩

/-- Both fragments of the name come from one custom fragment, at one path under two types. -/
theorem compiled_nodup_iff_top :
    ∃ c : Compilation topSchema [fooDeclaration] [topSource] defaultAliases "Foo" topDocument,
      ¬ topDocument.fragmentNames.Nodup ∧ ∀ type ∈ ["Foo", "Named"], type ∈ c.types
        ∧ ∃ custom ∈ c.customs, ∃ s,
          .found type "Top__link" s ∈ c.walk.fragmentEvents custom := by
  obtain ⟨c, hnodup, hextracted⟩ := compiled_nodup_iff compileQueries_top
    (by rfl : Keyed.get? _ "Foo" = some topDocument) readFragments_top plainNames_top
  have hnamed : topOnNamed ∈ topDocument.fragments := by
    simp [topDocument, Document.fragments, Definition.fragment?]
  have hfoo : topOnFoo ∈ topDocument.fragments := by
    simp [topDocument, Document.fragments, Definition.fragment?]
  have hdifferent : topOnFoo.condition ≠ topOnNamed.condition := by decide
  refine ⟨c, fun h => hdifferent ((hnodup.mp h).1 _ hfoo _ hnamed rfl), fun type htype => ?_⟩
  have htypes : type = "Foo" ∨ type = "Named" := by simpa using htype
  rcases htypes with rfl | rfl
  · exact (hextracted topOnFoo hfoo topOnNamed hnamed rfl hdifferent).2
  · exact (hextracted topOnNamed hnamed topOnFoo hfoo rfl hdifferent.symm).2

end RemoteNodes
