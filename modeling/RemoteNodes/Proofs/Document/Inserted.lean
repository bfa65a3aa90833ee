import Mathlib.Tactic
import RemoteNodes.Proofs.Document.Sites
/-!
Where spreads of node fragments are inserted, and what becomes of a selection set there.

* `Schema.Admits`, `SpreadsDirectly`: the types and the selection sets that get spreads.
* `Missing`, `Fronted`: the spreads that a set lacks, and what stands in front of them.
* `Selection.Widens`, `SetWidens`, `SelectionsWiden`: selections before and after the spreads are
  inserted, at any depth; `Selection.widens_rewrite`: the stage inserts them in this way.
* `Rewriting.Settles`: a rewriting that has nothing left to do after it; `settles_spreadRewriting`:
  spreads are not inserted twice.
* `Document.addSpreads_exact`: **spreads are inserted in operations where they belong and nowhere
  else, and inserting them once more changes nothing**.
-/

namespace RemoteNodes

variable {schema : Schema} {type : String} {names : List String} {parent? : Option NamedType}

/-! ### Where spreads are inserted -/

/-- Selections on a type may be selections on the node type: it is that type, or an abstract type
with the node type among its possible types. -/
def Schema.Admits (schema : Schema) (parent? : Option NamedType) (type : String) : Prop :=
  ∃ t, parent? = some t
    ∧ (t.name = type ∨ (t.isAbstract = true ∧ ∃ o ∈ schema.possibleTypes t, o.name = type))

lemma Schema.covers_iff : schema.covers parent? type = true ↔ schema.Admits parent? type := by
  cases parent? with
  | none | some t => simp [covers, Admits]

/-- A selection set has a spread, not counting those inside its selections. -/
def SpreadsDirectly (ss : List Selection) : Prop :=
  ∃ name directives, Selection.spread name directives ∈ ss

lemma any_isSpread_iff {ss : List Selection} :
    ss.any (·.isSpread) = true ↔ SpreadsDirectly ss := by
  rw [List.any_eq_true]
  constructor
  · rintro ⟨s, hs, hspread⟩
    cases s with
    | spread name directives => exact ⟨name, directives, hs⟩
    | field _ _ _ _ _ | inline _ _ _ => cases hspread
  · rintro ⟨name, directives, hs⟩
    exact ⟨_, hs, rfl⟩

/-! ### What is inserted -/

/-- The names that a selection set does not spread, each once and in the order of all of them. -/
structure Missing (names : List String) (ss : List Selection) (added : List String) : Prop where
  sublist : added.Sublist names
  nodup : added.Nodup
  mem_iff : ∀ name, name ∈ added ↔ name ∈ names ∧ ∀ directives, .spread name directives ∉ ss

/-- Selections with `__typename`: the others stay, in their order, and `__typename` comes first and
only there, unless it stands under an alias of its own. -/
structure Fronted (kept front : List Selection) : Prop where
  others : front.filter (!·.isPlainTypename) = kept.filter (!·.isPlainTypename)
  typename : ∃ s ∈ front, s.isTypename = true
  aliased : (∃ s ∈ kept, s.isTypename = true ∧ s.isPlainTypename = false) → front = kept
  leading : (∀ s ∈ kept, s.isTypename = true → s.isPlainTypename = true) →
    ∃ rest, front = .plain "__typename" :: rest ∧ ∀ s ∈ rest, s.isTypename = false

/-- What is inserted in a selection set. -/
lemma exists_insertSpreads (hnames : names.Nodup) (ss : List Selection) : ∃ front added,
    insertSpreads names ss = front ++ added.map (Selection.spread · [])
      ∧ Missing names ss added ∧ Fronted ss front := by
  have hmissing : Missing names ss
      (names.filter (!(ss.filterMap (·.spread?)).contains ·)) := by
    refine ⟨List.filter_sublist, hnames.filter _, fun name => ?_⟩
    rw [List.mem_filter, Bool.not_eq_true', ← Bool.not_eq_true, List.contains_iff_mem,
      mem_spreads_iff, not_exists]
  rw [insertSpreads]
  split
  · rename_i haliased
    obtain ⟨s, hs, htypename⟩ := List.any_eq_true.mp haliased
    obtain ⟨htypename, hplain⟩ := Bool.and_eq_true_iff.mp htypename
    refine ⟨ss, _, rfl, hmissing, rfl, ⟨s, hs, htypename⟩, fun _ => rfl, fun hall => ?_⟩
    simp [hall s hs htypename] at hplain
  · rename_i hnone
    have hall : ∀ s ∈ ss, s.isTypename = true → s.isPlainTypename = true := by
      simpa using hnone
    refine ⟨_, _, rfl, hmissing, ?_, ⟨_, List.mem_cons_self, rfl⟩, ?_, fun _ => ⟨_, rfl, ?_⟩⟩
    · rw [List.filter_cons_of_neg (by decide), List.filter_filter]
      simp
    · rintro ⟨s, hs, htypename, hplain⟩
      simp [hall s hs htypename] at hplain
    · intro s hs
      obtain ⟨hs, hplain⟩ := List.mem_filter.mp hs
      cases htypename : s.isTypename with
      | false => rfl
      | true => simp [hall s hs htypename] at hplain

/-! ### Selections before and after -/

section Widens

variable (schema : Schema) (type : String) (names : List String)

mutual
/-- A selection on a type before and after spreads are inserted in the selection sets inside it. -/
inductive Selection.Widens : Option NamedType → Selection → Selection → Prop
  | leaf {parent? : Option NamedType} {alias? : Option String} {name : String}
      {arguments : List Argument} {directives : List Directive} :
      Selection.Widens parent? (.field alias? name arguments directives none)
        (.field alias? name arguments directives none)
  | composite {parent? : Option NamedType} {alias? : Option String} {name : String}
      {arguments : List Argument} {directives : List Directive} {ss ss' : List Selection}
      (h : SetWidens (schema.insideField? parent? name) ss ss') :
      Selection.Widens parent? (.field alias? name arguments directives (some ss))
        (.field alias? name arguments directives (some ss'))
  | spread {parent? : Option NamedType} {fragment : String} {directives : List Directive} :
      Selection.Widens parent? (.spread fragment directives) (.spread fragment directives)
  | inline {parent? : Option NamedType} {condition? : Option String}
      {directives : List Directive} {ss ss' : List Selection}
      (h : SetWidens (schema.insideInline? parent? condition?) ss ss') :
      Selection.Widens parent? (.inline condition? directives ss)
        (.inline condition? directives ss')
/-- A selection set on a type before and after spreads are inserted in it, if it has a spread and
the type admits them, and in the sets inside it. -/
inductive SetWidens : Option NamedType → List Selection → List Selection → Prop
  | changed {parent? : Option NamedType} {ss kept front : List Selection} {added : List String}
      (hspreads : SpreadsDirectly ss) (hparent : schema.Admits parent? type)
      (hkept : SelectionsWiden parent? ss kept) (hfront : Fronted kept front)
      (hadded : Missing names ss added) :
      SetWidens parent? ss (front ++ added.map (Selection.spread · []))
  | unchanged {parent? : Option NamedType} {ss kept : List Selection}
      (h : ¬ (SpreadsDirectly ss ∧ schema.Admits parent? type))
      (hkept : SelectionsWiden parent? ss kept) : SetWidens parent? ss kept
/-- Selections on a type, one by one. -/
inductive SelectionsWiden : Option NamedType → List Selection → List Selection → Prop
  | nil {parent? : Option NamedType} : SelectionsWiden parent? [] []
  | cons {parent? : Option NamedType} {s s' : Selection} {ss ss' : List Selection}
      (h : Selection.Widens parent? s s') (hrest : SelectionsWiden parent? ss ss') :
      SelectionsWiden parent? (s :: ss) (s' :: ss')
end

/-- A definition before and after spreads are inserted: only operations have changed, and of these
only the selections. -/
inductive Definition.Widens : Definition → Definition → Prop
  | operation {o : Operation} {ss : List Selection}
      (h : SetWidens schema type names (schema.operationType? o.kind) o.selections ss) :
      Definition.Widens (.operation o) (.operation { o with selections := ss })
  | other {d : Definition} (h : d.operation? = none) : Definition.Widens d d

end Widens

/-- If all selections of a set get the spreads inside them, the set gets what it should. -/
lemma setWidens_set (hnames : names.Nodup) (owner : Owner) {ss : List Selection}
    (h : ∀ s ∈ ss, s.Widens schema type names parent?
      (s.rewrite schema (spreadRewriting schema type names) parent?)) :
    SetWidens schema type names parent? ss ((spreadRewriting schema type names).set owner parent?
      (rewriteAll schema (spreadRewriting schema type names) parent? ss)) := by
  have hkept : SelectionsWiden schema type names parent? ss
      (rewriteAll schema (spreadRewriting schema type names) parent? ss) := by
    induction ss with
    | nil => exact .nil
    | cons s ss ih =>
        obtain ⟨hs, hss⟩ := List.forall_mem_cons.mp h
        exact .cons hs (ih hss)
  generalize hrewritten : rewriteAll schema (spreadRewriting schema type names) parent? ss = kept
    at hkept ⊢
  have hmem {name : String} {directives : List Directive} :
      .spread name directives ∈ kept ↔ .spread name directives ∈ ss := by
    rw [← hrewritten]
    exact keepsSites_spreadRewriting.spread_mem_rewriteAll
  have hdirectly : SpreadsDirectly kept ↔ SpreadsDirectly ss :=
    exists₂_congr fun _ _ => hmem
  dsimp only [spreadRewriting]
  split
  · rename_i hcondition
    rw [Bool.and_eq_true_iff, any_isSpread_iff, Schema.covers_iff] at hcondition
    obtain ⟨front, added, heq, hadded, hfront⟩ := exists_insertSpreads hnames kept
    rw [heq]
    refine .changed (hdirectly.mp hcondition.1) hcondition.2 hkept hfront
      { hadded with mem_iff := fun name => (hadded.mem_iff name).trans ?_ }
    exact and_congr_right fun _ => forall_congr' fun _ => not_congr hmem
  · rename_i hcondition
    rw [Bool.and_eq_true_iff, any_isSpread_iff, Schema.covers_iff, hdirectly] at hcondition
    exact .unchanged hcondition hkept

/-- A selection gets spreads in the selection sets inside it. -/
theorem Selection.widens_rewrite (hnames : names.Nodup) (s : Selection)
    (parent? : Option NamedType) : s.Widens schema type names parent?
      (s.rewrite schema (spreadRewriting schema type names) parent?) := by
  induction s using Selection.induct generalizing parent? with
  | leaf alias? name arguments directives => exact .leaf
  | composite alias? name arguments directives ss ih =>
      exact .composite (setWidens_set hnames .field fun s hs => ih s hs _)
  | spread fragment directives => exact .spread
  | inline condition? directives ss ih =>
      exact .inline (setWidens_set hnames .inline fun s hs => ih s hs _)

/-! ### Inserting twice -/

lemma isPlainTypename_of_not {s : Selection} (h : s.isTypename = false) :
    s.isPlainTypename = false := by
  cases s with
  | field alias? name arguments directives selections? =>
      rw [Selection.isTypename] at h
      rw [Selection.isPlainTypename, h, Bool.false_and]
  | spread _ _ | inline _ _ _ => rfl

/-- A selection set with all spreads and `__typename` in its place is left as it is. -/
lemma insertSpreads_insertSpreads (hnames : names.Nodup) (ss : List Selection) :
    insertSpreads names (insertSpreads names ss) = insertSpreads names ss := by
  have hpresent : names.filter
      (!((insertSpreads names ss).filterMap (·.spread?)).contains ·) = [] := by
    refine List.filter_eq_nil_iff.mpr fun name hname => ?_
    have hspread := mem_spreads_iff.mpr (exists_spread_mem_insertSpreads hname ss)
    simpa using hspread
  obtain ⟨front, added, heq, -, hfront⟩ := exists_insertSpreads hnames ss
  rw [heq] at hpresent ⊢
  rw [insertSpreads, hpresent, List.map_nil, List.append_nil, List.append_nil]
  split
  · rfl
  · rename_i hnone
    have hall : ∀ s ∈ ss, s.isTypename = true → s.isPlainTypename = true := by
      intro s hs htypename
      by_contra hplain
      rw [Bool.not_eq_true] at hplain
      have hsame := hfront.aliased ⟨s, hs, htypename, hplain⟩
      refine hnone (List.any_eq_true.mpr ⟨s, List.mem_append_left _ (hsame ▸ hs), ?_⟩)
      rw [htypename, hplain]
      rfl
    obtain ⟨rest, rfl, hrest⟩ := hfront.leading hall
    rw [List.cons_append, List.filter_cons_of_neg (by decide), List.filter_eq_self.mpr]
    intro s hs
    rcases List.mem_append.mp hs with hs | hs
    · rw [isPlainTypename_of_not (hrest s hs)]
      rfl
    · obtain ⟨name, -, rfl⟩ := List.mem_map.mp hs
      rfl

/-- A rewriting that does to a selection set all that it can at once, puts nothing in that it
changes itself, and leaves fields alone. -/
structure Rewriting.Settles (schema : Schema) (r : Rewriting) : Prop where
  field : ∀ parent? s, r.field parent? s = s
  mem : ∀ owner parent? ss, ∀ s ∈ r.set owner parent? ss,
    s ∈ ss ∨ s.rewrite schema r parent? = s
  set : ∀ owner parent? ss, r.set owner parent? (r.set owner parent? ss) = r.set owner parent? ss

namespace Rewriting.Settles

variable {r : Rewriting} (hr : r.Settles schema)
include hr

/-- If no selection of a set would change any more, the set does not either. -/
lemma set_rewriteAll {ss : List Selection} (owner : Owner)
    (h : ∀ s ∈ ss, (s.rewrite schema r parent?).rewrite schema r parent?
      = s.rewrite schema r parent?) :
    r.set owner parent? (rewriteAll schema r parent?
        (r.set owner parent? (rewriteAll schema r parent? ss)))
      = r.set owner parent? (rewriteAll schema r parent? ss) := by
  have hfixed : ∀ s ∈ r.set owner parent? (rewriteAll schema r parent? ss),
      s.rewrite schema r parent? = s := by
    intro s hs
    rcases hr.mem _ _ _ s hs with hs | hs
    · rw [rewriteAll_eq_map] at hs
      obtain ⟨before, hbefore, rfl⟩ := List.mem_map.mp hs
      exact h before hbefore
    · exact hs
  conv_lhs => rw [rewriteAll_eq_map, List.map_congr_left hfixed, List.map_id', hr.set]

/-- Rewriting twice is rewriting once. -/
theorem rewrite_rewrite (s : Selection) (parent? : Option NamedType) :
    (s.rewrite schema r parent?).rewrite schema r parent? = s.rewrite schema r parent? := by
  induction s using Selection.induct generalizing parent? with
  | leaf alias? name arguments directives => simp only [Selection.rewrite, hr.field]
  | composite alias? name arguments directives ss ih =>
      simp only [Selection.rewrite, hr.field, hr.set_rewriteAll .field fun s hs => ih s hs _]
  | spread fragment directives => rw [Selection.rewrite, Selection.rewrite]
  | inline condition? directives ss ih =>
      simp only [Selection.rewrite, hr.set_rewriteAll .inline fun s hs => ih s hs _]

lemma operation_rewrite_rewrite (o : Operation) :
    (o.rewrite schema r).rewrite schema r = o.rewrite schema r := by
  simp only [Operation.rewrite, hr.set_rewriteAll .definition fun s _ => hr.rewrite_rewrite s _]

end Rewriting.Settles

lemma settles_spreadRewriting (hnames : names.Nodup) :
    (spreadRewriting schema type names).Settles schema where
  field _ _ := rfl
  mem owner parent? ss s hs := by
    dsimp only [spreadRewriting] at hs
    split at hs
    · refine (mem_insertSpreads hs).imp_right ?_
      rintro (rfl | ⟨name, -, rfl⟩)
      · rfl
      · rfl
    · exact .inl hs
  set owner parent? ss := by
    dsimp only [spreadRewriting]
    split
    · rw [insertSpreads_insertSpreads hnames, ite_self]
    · rfl

/-! ### The stage -/

namespace Document

/-- Inserting spreads of fragments with distinct names, for any schema and any node type. In
operations, and at any depth there, exactly the selection sets that have a spread on a type that
admits the node type get the spreads that they miss, in their order behind what they have, with
`__typename` in front unless it is there under an alias of its own; all their other selections stay,
with the sets inside them treated likewise. Nothing else changes, and inserting the spreads once
more changes nothing at all. -/
theorem addSpreads_exact (document : Document) (schema : Schema) (type : String)
    (hnames : names.Nodup) :
    List.Forall₂ (Definition.Widens schema type names) document
        (document.addSpreads schema type names)
      ∧ (document.addSpreads schema type names).addSpreads schema type names
        = document.addSpreads schema type names := by
  have hr : (spreadRewriting schema type names).Settles schema := settles_spreadRewriting hnames
  constructor
  · rw [addSpreads, List.forall₂_map_right_iff, List.forall₂_same]
    intro d _
    cases d with
    | operation o =>
        exact .operation (setWidens_set hnames .definition fun s _ => s.widens_rewrite hnames _)
    | fragment _ | schema _ | type _ | directive _ => exact .other rfl
  · rw [addSpreads, addSpreads, List.map_map]
    refine List.map_congr_left fun d _ => ?_
    cases d with
    | operation o => exact congrArg Definition.operation (hr.operation_rewrite_rewrite o)
    | fragment _ | schema _ | type _ | directive _ => rfl

/-! ### Entries inside entries -/

/-- A schema with a node type under an interface. -/
def entrySchema : Schema where
  types := [⟨"ID", .scalar⟩,
    ⟨"Entry", .interface [] [⟨"id", .named "ID", []⟩]⟩,
    ⟨"Bar", .object [] [⟨"id", .named "ID", []⟩]⟩,
    ⟨"Foo", .object ["Entry"]
      [⟨"id", .named "ID", []⟩, ⟨"next", .named "Entry", []⟩, ⟨"bar", .named "Bar", []⟩]⟩,
    ⟨"Query", .object [] [⟨"foo", .named "Foo", []⟩]⟩]
  directives := []
  query? := some "Query"

/-- An operation that asks for an entry. -/
def entryDocument (ss : List Selection) : Document := [.operation {
  kind := .query
  name? := some "NODE_Foo"
  variableDefinitions := []
  directives := []
  selections := [.plain "foo" (some ss)] }]

/-- An entry with the next one, whose `__typename` has an alias, and with something else. -/
def entrySelections : List Selection := [
  .plain "id", .plain "__typename", .spread "FooName" [],
  .plain "next" (some [.field (some "kind") "__typename" [] [] none, .spread "EntryId" []]),
  .plain "bar" (some [.spread "BarId" []])]

/-- The entry and the next one have got spreads. -/
def entrySelectionsAfter : List Selection := [
  .plain "__typename", .plain "id", .spread "FooName" [],
  .plain "next" (some [.field (some "kind") "__typename" [] [] none, .spread "EntryId" [],
    .spread "FooId" [], .spread "FooName" []]),
  .plain "bar" (some [.spread "BarId" []]), .spread "FooId" []]

/-- Spreads are inserted on the node type and on its interface. -/
theorem addSpreads_exact_entry :
    (entryDocument entrySelections).addSpreads entrySchema "Foo" ["FooId", "FooName"]
        = entryDocument entrySelectionsAfter
      ∧ List.Forall₂ (Definition.Widens entrySchema "Foo" ["FooId", "FooName"])
        (entryDocument entrySelections) (entryDocument entrySelectionsAfter)
      ∧ (entryDocument entrySelectionsAfter).addSpreads entrySchema "Foo" ["FooId", "FooName"]
        = entryDocument entrySelectionsAfter := by
  have hafter : (entryDocument entrySelections).addSpreads entrySchema "Foo" ["FooId", "FooName"]
      = entryDocument entrySelectionsAfter := rfl
  obtain ⟨hwidens, hagain⟩ := addSpreads_exact (entryDocument entrySelections) entrySchema "Foo"
    (show ["FooId", "FooName"].Nodup by decide)
  rw [hafter] at hwidens hagain
  exact ⟨hafter, hwidens, hagain⟩

end Document

end RemoteNodes
