import Mathlib.Tactic
import RemoteNodes.Document.Alias
import RemoteNodes.Document.Spreading
import RemoteNodes.Document.Typename
import RemoteNodes.Selection.Narrowing
import RemoteNodes.Selection.Spread
/-!
Rules that selections obey at any depth: which fragments they may spread, and whether a selection
set may be empty. What holds by such a rule before a stage holds after it.

* `Selection.sets`: the selection sets inside a selection.
* `SelectionRule`: a rule; `Selection.Obeys`, `SetObeys`, `Document.Obeys`: what obeys it.
* `mem_narrowAll`, `Selection.Obeys.narrow?`: narrowing.
* `Rewriting.Keeps`: a rewriting that keeps a rule; `SetObeys.rewriteAll`: **rewriting**.
* `spreadNamesIn_dropSpreadsIn`, `setsIn_dropSpreadsIn`: taking spreads out.
-/

namespace RemoteNodes

/-! ### Selection sets -/

mutual
/-- The selection sets inside a selection, at any depth. -/
def Selection.sets : Selection → List (List Selection)
  | .field _ _ _ _ none => []
  | .field _ _ _ _ (some selections) => selections :: setsIn selections
  | .spread .. => []
  | .inline _ _ selections => selections :: setsIn selections
/-- The selection sets inside selections, at any depth. -/
def setsIn : List Selection → List (List Selection)
  | [] => []
  | s :: ss => s.sets ++ setsIn ss
end

lemma setsIn_eq_flatMap (ss : List Selection) : setsIn ss = ss.flatMap Selection.sets := by
  induction ss with
  | nil => rfl
  | cons s ss ih => rw [setsIn, ih, List.flatMap_cons]

lemma mem_setsIn {ss set : List Selection} : set ∈ setsIn ss ↔ ∃ s ∈ ss, set ∈ s.sets := by
  rw [setsIn_eq_flatMap, List.mem_flatMap]

lemma mem_spreadNamesIn {ss : List Selection} {name : String} :
    name ∈ spreadNamesIn ss ↔ ∃ s ∈ ss, name ∈ s.spreadNames := by
  rw [spreadNamesIn_eq_flatMap, List.mem_flatMap]

/-- The selection sets of a definition, its own and those inside it. -/
def Definition.selectionSets : Definition → List (List Selection)
  | .operation o => o.selections :: setsIn o.selections
  | .fragment f => f.selections :: setsIn f.selections
  | _ => []

/-- The selection sets of a document, at any depth. -/
def Document.selectionSets (document : Document) : List (List Selection) :=
  document.flatMap Definition.selectionSets

/-- The fragments that a document spreads, at any depth. -/
def Document.spreadNames (document : Document) : List String :=
  document.operations.flatMap (fun o => spreadNamesIn o.selections)
    ++ document.fragments.flatMap fun f => spreadNamesIn f.selections

/-! ### Rules -/

/-- A rule for selections: the fragments that may be spread, and whether a selection set may be
empty. -/
structure SelectionRule where
  names : String → Prop
  empty : Prop

/-- A selection obeys a rule if all spreads and all selection sets inside it do. -/
def Selection.Obeys (rule : SelectionRule) (s : Selection) : Prop :=
  (∀ name ∈ s.spreadNames, rule.names name) ∧ ∀ set ∈ s.sets, set = [] → rule.empty

/-- A selection set obeys a rule if it is not empty against it and its selections obey it. -/
def SetObeys (rule : SelectionRule) (ss : List Selection) : Prop :=
  (ss = [] → rule.empty) ∧ ∀ s ∈ ss, s.Obeys rule

/-- A document obeys a rule if the selection sets of its definitions do. -/
def Document.Obeys (rule : SelectionRule) (document : Document) : Prop :=
  (∀ o ∈ document.operations, SetObeys rule o.selections)
    ∧ ∀ f ∈ document.fragments, SetObeys rule f.selections

/-- The rule that fragments are spread by these names only. -/
def SelectionRule.spreading (names : String → Prop) : SelectionRule := ⟨names, True⟩

/-- The rule that no selection set is empty. -/
def SelectionRule.filled : SelectionRule := ⟨fun _ => True, False⟩

section Rules

variable {rule : SelectionRule} {schema : Schema} {ss : List Selection}

namespace Selection

@[simp] lemma obeys_leaf (alias? : Option String) (name : String) (arguments : List Argument)
    (directives : List Directive) :
    (field alias? name arguments directives none).Obeys rule := by
  simp [Obeys, spreadNames, sets]

@[simp] lemma obeys_spread {fragment : String} {directives : List Directive} :
    (spread fragment directives).Obeys rule ↔ rule.names fragment := by
  simp [Obeys, spreadNames, sets]

lemma obeys_of_parts {s : Selection} {ss : List Selection}
    (hspreads : s.spreadNames = spreadNamesIn ss) (hsets : s.sets = ss :: setsIn ss) :
    s.Obeys rule ↔ SetObeys rule ss := by
  rw [Obeys, hspreads, hsets, SetObeys]
  constructor
  · rintro ⟨hnames, hempty⟩
    refine ⟨hempty ss (by simp), fun s hs => ⟨fun name hname => ?_, fun set hset => ?_⟩⟩
    · exact hnames name (mem_spreadNamesIn.mpr ⟨s, hs, hname⟩)
    · exact hempty set (List.mem_cons_of_mem _ (mem_setsIn.mpr ⟨s, hs, hset⟩))
  · rintro ⟨hempty, hall⟩
    refine ⟨fun name hname => ?_, fun set hset => ?_⟩
    · obtain ⟨s, hs, hname⟩ := mem_spreadNamesIn.mp hname
      exact (hall s hs).1 name hname
    · rcases List.mem_cons.mp hset with rfl | hset
      · exact hempty
      · obtain ⟨s, hs, hset⟩ := mem_setsIn.mp hset
        exact (hall s hs).2 set hset

/-- A field obeys a rule exactly if its selection set does. -/
@[simp] lemma obeys_field {alias? : Option String} {name : String} {arguments : List Argument}
    {directives : List Directive} :
    (field alias? name arguments directives (some ss)).Obeys rule ↔ SetObeys rule ss :=
  obeys_of_parts (by rw [spreadNames]) (by rw [sets])

/-- An inline fragment obeys a rule exactly if its selection set does. -/
@[simp] lemma obeys_inline {condition? : Option String} {directives : List Directive} :
    (inline condition? directives ss).Obeys rule ↔ SetObeys rule ss :=
  obeys_of_parts (by rw [spreadNames]) (by rw [sets])

lemma obeys_plain (name : String) : (plain name).Obeys rule := obeys_leaf ..

end Selection

lemma SetObeys.of_ne_nil (hne : ss ≠ []) (hall : ∀ s ∈ ss, s.Obeys rule) : SetObeys rule ss :=
  ⟨fun h => absurd h hne, hall⟩

lemma setObeys_spreading {names : String → Prop} :
    SetObeys (.spreading names) ss ↔ ∀ name ∈ spreadNamesIn ss, names name := by
  constructor
  · rintro ⟨-, hall⟩ name hname
    obtain ⟨s, hs, hname⟩ := mem_spreadNamesIn.mp hname
    exact (hall s hs).1 name hname
  · intro h
    refine ⟨fun _ => trivial, fun s hs => ⟨fun name hname => ?_, fun _ _ _ => trivial⟩⟩
    exact h name (mem_spreadNamesIn.mpr ⟨s, hs, hname⟩)

lemma setObeys_filled : SetObeys .filled ss ↔ ss ≠ [] ∧ ∀ set ∈ setsIn ss, set ≠ [] := by
  constructor
  · rintro ⟨hne, hall⟩
    refine ⟨hne, fun set hset => ?_⟩
    obtain ⟨s, hs, hset⟩ := mem_setsIn.mp hset
    exact (hall s hs).2 set hset
  · rintro ⟨hne, hall⟩
    refine ⟨hne, fun s hs => ⟨fun _ _ => trivial, fun set hset => ?_⟩⟩
    exact hall set (mem_setsIn.mpr ⟨s, hs, hset⟩)

/-! ### Narrowing -/

/-- What is left of selections is what is left of each selection that the type accepts. -/
lemma mem_narrowAll {t : NamedType} {s' : Selection} :
    s' ∈ narrowAll schema t ss ↔
      ∃ s ∈ ss, t.accepts s = true ∧ s.narrow? schema t = some s' := by
  induction ss with
  | nil => simp [narrowAll]
  | cons s ss ih =>
      rw [narrowAll]
      by_cases h : t.accepts s = true
      · simp [h, ih]
      · simp [h, ih]

lemma Selection.Obeys.narrow? {s s' : Selection} {t : NamedType} (h : s.Obeys rule)
    (hs : s.narrow? schema t = some s') : s'.Obeys rule := by
  have hset {u : NamedType} {ss narrowed : List Selection}
      (hnarrowed : narrowAll schema u ss = narrowed) (hne : narrowed ≠ [])
      (ih : ∀ s ∈ ss, ∀ t s', s.Obeys rule → s.narrow? schema t = some s' → s'.Obeys rule)
      (hss : SetObeys rule ss) : SetObeys rule narrowed := by
    subst hnarrowed
    refine .of_ne_nil hne fun s' hs' => ?_
    obtain ⟨s, hs, -, hnarrow⟩ := mem_narrowAll.mp hs'
    exact ih s hs u s' (hss.2 s hs) hnarrow
  induction s using Selection.induct generalizing t s' with
  | leaf alias? name arguments directives =>
      cases hs
      exact h
  | composite alias? name arguments directives ss ih =>
      rw [Selection.narrow?] at hs
      split at hs
      · cases hs
        exact h
      · split at hs
        · cases hs
        · rename_i hne
          cases hs
          exact obeys_field.mpr
            (hset rfl hne (fun s hs t s' => @ih s hs s' t) (obeys_field.mp h))
  | spread fragment directives =>
      cases hs
      exact h
  | inline condition? directives ss ih =>
      rw [Selection.narrow?] at hs
      split at hs
      · cases hs
      · rename_i hne
        cases hs
        exact obeys_inline.mpr
          (hset rfl hne (fun s hs t s' => @ih s hs s' t) (obeys_inline.mp h))

/-! ### Rewriting -/

/-- A rewriting keeps a rule if it keeps it in each field and in each selection set. -/
structure Rewriting.Keeps (r : Rewriting) (rule : SelectionRule) : Prop where
  field : ∀ parent? s, s.Obeys rule → (r.field parent? s).Obeys rule
  set : ∀ owner parent? ss, SetObeys rule ss → SetObeys rule (r.set owner parent? ss)

variable {r : Rewriting} {parent? : Option NamedType}

lemma SetObeys.map {f : Selection → Selection} (h : SetObeys rule ss)
    (hf : ∀ s ∈ ss, s.Obeys rule → (f s).Obeys rule) : SetObeys rule (ss.map f) := by
  refine ⟨fun hnil => h.1 (List.map_eq_nil_iff.mp hnil), fun s' hs' => ?_⟩
  obtain ⟨s, hs, rfl⟩ := List.mem_map.mp hs'
  exact hf s hs (h.2 s hs)

/-- A rewriting that keeps a rule keeps it at any depth. -/
lemma Selection.Obeys.rewrite {s : Selection} (hr : r.Keeps rule) (h : s.Obeys rule) :
    (s.rewrite schema r parent?).Obeys rule := by
  induction s using Selection.induct generalizing parent? with
  | leaf alias? name arguments directives =>
      rw [Selection.rewrite]
      exact hr.field _ _ h
  | composite alias? name arguments directives ss ih =>
      rw [Selection.rewrite, rewriteAll_eq_map]
      refine hr.field _ _ (obeys_field.mpr (hr.set _ _ _ ?_))
      exact (obeys_field.mp h).map fun s hs hobeys => ih s hs hobeys
  | spread fragment directives =>
      rw [Selection.rewrite]
      exact h
  | inline condition? directives ss ih =>
      rw [Selection.rewrite, rewriteAll_eq_map]
      refine obeys_inline.mpr (hr.set _ _ _ ?_)
      exact (obeys_inline.mp h).map fun s hs hobeys => ih s hs hobeys

lemma SetObeys.rewriteAll (hr : r.Keeps rule) (h : SetObeys rule ss) (owner : Owner) :
    SetObeys rule (r.set owner parent? (rewriteAll schema r parent? ss)) := by
  rw [rewriteAll_eq_map]
  exact hr.set _ _ _ (h.map fun s _ hobeys => hobeys.rewrite hr)

/-- A fragment that obeys a rule obeys it after a rewriting that keeps it. -/
lemma Fragment.setObeys_rewrite {f : Fragment} (hr : r.Keeps rule)
    (h : SetObeys rule f.selections) : SetObeys rule (f.rewrite schema r).selections :=
  h.rewriteAll hr _

lemma Operation.setObeys_rewrite {o : Operation} (hr : r.Keeps rule)
    (h : SetObeys rule o.selections) : SetObeys rule (o.rewrite schema r).selections :=
  h.rewriteAll hr _

/-! ### The rewritings of a document -/

lemma obeys_plain_typename_cons {s : Selection} (h : ∀ s ∈ ss, s.Obeys rule)
    (hs : s ∈ Selection.plain "__typename" :: ss) : s.Obeys rule := by
  rcases List.mem_cons.mp hs with rfl | hs
  · exact Selection.obeys_plain _
  · exact h s hs

/-- Selecting type names keeps every rule. -/
lemma keeps_typenameRewriting : typenameRewriting.Keeps rule where
  field _ _ h := h
  set owner parent? ss h := by
    dsimp only [typenameRewriting]
    split
    · exact .of_ne_nil (by simp) fun s hs => obeys_plain_typename_cons h.2 hs
    · exact h

/-- Giving aliases keeps every rule. -/
lemma keeps_aliasRewriting {types : List String} {aliases : Aliases} :
    (aliasRewriting schema types aliases).Keeps rule where
  field parent? s h := by
    cases s with
    | field alias? name arguments directives selections? =>
        cases selections? with
        | none => exact Selection.obeys_leaf ..
        | some ss => exact Selection.obeys_field.mpr (Selection.obeys_field.mp h)
    | spread fragment directives => exact h
    | inline condition? directives ss => exact h
  set _ _ _ h := h

/-- What is in a selection set that gets spreads. -/
lemma mem_insertSpreads {names : List String} {ss : List Selection} {s : Selection}
    (h : s ∈ insertSpreads names ss) :
    s ∈ ss ∨ s = .plain "__typename" ∨ ∃ name ∈ names, s = .spread name [] := by
  have hspreads {present : List String}
      (hs : s ∈ (names.filter (!present.contains ·)).map (Selection.spread · [])) :
      ∃ name ∈ names, s = .spread name [] := by
    obtain ⟨name, hname, rfl⟩ := List.mem_map.mp hs
    exact ⟨name, (List.mem_filter.mp hname).1, rfl⟩
  rw [insertSpreads] at h
  split at h
  · exact (List.mem_append.mp h).imp_right fun h => .inr (hspreads h)
  · rcases List.mem_append.mp h with h | h
    · rcases List.mem_cons.mp h with rfl | h
      · exact .inr (.inl rfl)
      · exact .inl (List.mem_filter.mp h).1
    · exact .inr (.inr (hspreads h))

/-- Spreading fragments keeps the rules that allow to spread them. -/
lemma keeps_spreadRewriting {type : String} {names : List String}
    (hnames : ∀ name ∈ names, rule.names name) :
    (spreadRewriting schema type names).Keeps rule where
  field _ _ h := h
  set owner parent? ss h := by
    dsimp only [spreadRewriting]
    split
    · rename_i hspread
      have hne : insertSpreads names ss ≠ [] := by
        obtain ⟨hany, -⟩ := Bool.and_eq_true_iff.mp hspread
        obtain ⟨s, hs, -⟩ := List.any_eq_true.mp hany
        rw [insertSpreads]
        split
        · exact List.append_ne_nil_of_left_ne_nil (List.ne_nil_of_mem hs) _
        · exact List.cons_ne_nil _ _
      refine .of_ne_nil hne fun s hs => ?_
      rcases mem_insertSpreads hs with hs | rfl | ⟨name, hname, rfl⟩
      · exact h.2 s hs
      · exact Selection.obeys_leaf ..
      · exact Selection.obeys_spread.mpr (hnames name hname)
    · exact h

end Rules

/-! ### Taking spreads out -/

lemma spreadNamesIn_append (ss ss' : List Selection) :
    spreadNamesIn (ss ++ ss') = spreadNamesIn ss ++ spreadNamesIn ss' := by
  simp [spreadNamesIn_eq_flatMap]

lemma setsIn_append (ss ss' : List Selection) : setsIn (ss ++ ss') = setsIn ss ++ setsIn ss' := by
  simp [setsIn_eq_flatMap]

mutual
lemma spreadNamesIn_dropSpreads? (names : List String) (s : Selection) :
    spreadNamesIn (s.dropSpreads? names).toList = s.spreadNames.filter (!names.contains ·) := by
  match s with
  | .field _ _ _ _ none => simp [Selection.dropSpreads?, spreadNamesIn, Selection.spreadNames]
  | .field _ _ _ _ (some ss) =>
      have ih := spreadNamesIn_dropSpreadsIn names ss
      simpa [Selection.dropSpreads?, spreadNamesIn, Selection.spreadNames] using ih
  | .spread fragment _ =>
      by_cases h : fragment ∈ names
      · simp [Selection.dropSpreads?, spreadNamesIn, Selection.spreadNames, h]
      · simp [Selection.dropSpreads?, spreadNamesIn, Selection.spreadNames, h]
  | .inline _ _ ss =>
      have ih := spreadNamesIn_dropSpreadsIn names ss
      simpa [Selection.dropSpreads?, spreadNamesIn, Selection.spreadNames] using ih
/-- The spreads that are left are those of other fragments. -/
lemma spreadNamesIn_dropSpreadsIn (names : List String) (ss : List Selection) :
    spreadNamesIn (dropSpreadsIn names ss) = (spreadNamesIn ss).filter (!names.contains ·) := by
  match ss with
  | [] => rfl
  | s :: ss =>
      rw [dropSpreadsIn, spreadNamesIn_append, spreadNamesIn_dropSpreads? names s,
        spreadNamesIn_dropSpreadsIn names ss, spreadNamesIn, List.filter_append]
end

mutual
lemma setsIn_dropSpreads? (names : List String) (s : Selection) :
    setsIn (s.dropSpreads? names).toList = s.sets.map (dropSpreadsIn names) := by
  match s with
  | .field _ _ _ _ none => simp [Selection.dropSpreads?, setsIn, Selection.sets]
  | .field _ _ _ _ (some ss) =>
      have ih := setsIn_dropSpreadsIn names ss
      simpa [Selection.dropSpreads?, setsIn, Selection.sets] using ih
  | .spread fragment _ =>
      by_cases h : fragment ∈ names
      · simp [Selection.dropSpreads?, setsIn, Selection.sets, h]
      · simp [Selection.dropSpreads?, setsIn, Selection.sets, h]
  | .inline _ _ ss =>
      have ih := setsIn_dropSpreadsIn names ss
      simpa [Selection.dropSpreads?, setsIn, Selection.sets] using ih
/-- Taking spreads out leaves every selection set in its place, without the spreads in it. -/
lemma setsIn_dropSpreadsIn (names : List String) (ss : List Selection) :
    setsIn (dropSpreadsIn names ss) = (setsIn ss).map (dropSpreadsIn names) := by
  match ss with
  | [] => rfl
  | s :: ss =>
      rw [dropSpreadsIn, setsIn_append, setsIn_dropSpreads? names s, setsIn_dropSpreadsIn names ss,
        setsIn, List.map_append]
end

/-- Whether a selection is a spread of one of the named fragments. -/
def Selection.isSpreadOf (names : List String) : Selection → Bool
  | .spread fragment _ => names.contains fragment
  | _ => false

lemma Selection.dropSpreads?_eq_none_iff {names : List String} {s : Selection} :
    s.dropSpreads? names = none ↔ s.isSpreadOf names = true := by
  cases s with
  | field alias? name arguments directives selections? =>
      cases selections? <;> simp [dropSpreads?, isSpreadOf]
  | spread fragment directives => simp [dropSpreads?, isSpreadOf]
  | inline condition? directives ss => simp [dropSpreads?, isSpreadOf]

/-- A selection set becomes empty exactly if it has nothing but spreads that are taken out. -/
lemma dropSpreadsIn_eq_nil_iff {names : List String} {ss : List Selection} :
    dropSpreadsIn names ss = [] ↔ ∀ s ∈ ss, s.isSpreadOf names = true := by
  rw [dropSpreadsIn_eq_filterMap, List.filterMap_eq_nil_iff]
  exact forall₂_congr fun s _ => Selection.dropSpreads?_eq_none_iff

end RemoteNodes
