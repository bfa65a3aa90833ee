import Mathlib.Tactic
import RemoteNodes.Fragment.Unwrapping
import RemoteNodes.Proofs.Document.Sites
import RemoteNodes.Proofs.Response.Execution
import RemoteNodes.Proofs.Response.Gathering
/-!
Whether the fields of a selection set, side by side, have keys of their own in a response.

* `responseFields`, `KeysApart`: the fields of a set, and that different ones have different keys;
  `SetUnambiguous`, `Fragment.Unambiguous`: that holds in every set inside.
* `FieldsWithin`: all fields of a set are in another one, as far as their keys depend on it.
* `setUnambiguous_unwrapSet_iff`: **unwrapping makes no difference**.
* `setUnambiguous_iff_holds`, `setUnambiguous_rewrite_iff`: the sets inside in their places, and
  after a rewriting.
* `aliasAt`, `mem_responseFields_aliased`: the keys of fields once they have aliases.
-/

namespace RemoteNodes

/-! ### Fields side by side -/

/-- What a field asks for in the response. -/
def Selection.responseField? : Selection → Option ResponseField
  | .field alias? name arguments _ _ => some (responseField alias? name arguments)
  | _ => none

/-- What the fields of a selection set ask for, apart from those inside its inline fragments. -/
def responseFields (ss : List Selection) : List ResponseField :=
  ss.filterMap Selection.responseField?

/-- Fields side by side with the same key are the same field: that of one name with the same
arguments. -/
def KeysApart (ss : List Selection) : Prop :=
  ∀ a ∈ responseFields ss, ∀ b ∈ responseFields ss, a.key = b.key → a = b

/-- The fields side by side in a selection set and in those inside it have different keys. -/
def SetUnambiguous (ss : List Selection) : Prop := ∀ set ∈ ss :: setsIn ss, KeysApart set

/-- The fields side by side in a fragment have different keys. -/
def Fragment.Unambiguous (f : Fragment) : Prop := SetUnambiguous f.selections

instance (ss : List Selection) : Decidable (KeysApart ss) :=
  inferInstanceAs (Decidable (∀ a ∈ responseFields ss, ∀ b ∈ responseFields ss,
    a.key = b.key → a = b))

instance (f : Fragment) : Decidable f.Unambiguous :=
  inferInstanceAs (Decidable (∀ set ∈ f.selections :: setsIn f.selections, KeysApart set))

/-- Each field of a selection set is in another one, under the same alias and with the same
arguments. -/
def FieldsWithin (ss ss' : List Selection) : Prop :=
  ∀ alias? name arguments directives selections?,
    .field alias? name arguments directives selections? ∈ ss → ∃ directives' selections?',
      .field alias? name arguments directives' selections?' ∈ ss'

section Fields

variable {ss ss' : List Selection} {s : Selection}

lemma mem_responseFields {a : ResponseField} : a ∈ responseFields ss
    ↔ ∃ alias? name arguments directives selections?,
      .field alias? name arguments directives selections? ∈ ss
        ∧ a = responseField alias? name arguments := by
  rw [responseFields, List.mem_filterMap]
  constructor
  · rintro ⟨s, hs, ha⟩
    cases s with
    | field alias? name arguments directives selections? =>
        exact ⟨_, _, _, _, _, hs, (Option.some.inj ha).symm⟩
    | spread | inline => cases ha
  · rintro ⟨_, _, _, _, _, hs, rfl⟩
    exact ⟨_, hs, rfl⟩

/-- A set without fields has no two with the same key. -/
lemma KeysApart.of_no_field (h : ∀ s ∈ ss, s.isField = false) : KeysApart ss := by
  intro a ha
  obtain ⟨_, _, _, _, _, hs, -⟩ := mem_responseFields.mp ha
  cases h _ hs

lemma KeysApart.mono (h : KeysApart ss') (hss : responseFields ss ⊆ responseFields ss') :
    KeysApart ss :=
  fun a ha b hb => h a (hss ha) b (hss hb)

/-- Keys are told apart in a set exactly if they are in the sets inside its selections, and side by
side. -/
lemma setUnambiguous_iff :
    SetUnambiguous ss ↔ KeysApart ss ∧ ∀ s ∈ ss, ∀ set ∈ s.sets, KeysApart set := by
  rw [SetUnambiguous, List.forall_mem_cons]
  refine and_congr_right fun _ => ?_
  simp only [mem_setsIn]
  exact ⟨fun h s hs set hset => h set ⟨s, hs, hset⟩, fun h set ⟨s, hs, hset⟩ => h s hs set hset⟩

/-! ### Unwrapping -/

lemma responseFields_unwrapEach (ss : List Selection) :
    responseFields (unwrapEach ss) = responseFields ss := by
  rw [responseFields, responseFields, Execution.unwrapEach_eq_map, List.filterMap_map]
  refine List.filterMap_congr fun s _ => ?_
  cases s with
  | field alias? name arguments directives selections? => cases selections? <;> rfl
  | spread | inline => rfl

/-- Neither a wrapping nor what it holds has fields, and the sets inside are the same. -/
lemma setUnambiguous_unwrapOuter : SetUnambiguous (unwrapOuter ss) ↔ SetUnambiguous ss := by
  unfold unwrapOuter
  split
  · rename_i condition? directives inner
    split
    · have hwrapping : KeysApart [.inline condition? directives inner] :=
        .of_no_field fun s hs => by rw [List.mem_singleton.mp hs]; rfl
      simp only [SetUnambiguous, setsIn, Selection.sets, List.append_nil, List.forall_mem_cons]
      exact (and_iff_right hwrapping).symm
    · exact Iff.rfl
  · exact Iff.rfl

lemma keysApart_sets_unwrap :
    (∀ set ∈ s.unwrap.sets, KeysApart set) ↔ ∀ set ∈ s.sets, KeysApart set := by
  have hset {ss : List Selection} (ih : ∀ s ∈ ss,
      (∀ set ∈ s.unwrap.sets, KeysApart set) ↔ ∀ set ∈ s.sets, KeysApart set) :
      SetUnambiguous (unwrapOuter (unwrapEach ss)) ↔ SetUnambiguous ss := by
    rw [setUnambiguous_unwrapOuter, setUnambiguous_iff, setUnambiguous_iff, KeysApart,
      responseFields_unwrapEach, Execution.unwrapEach_eq_map, List.forall_mem_map]
    exact and_congr_right fun _ => forall₂_congr ih
  induction s using Selection.induct with
  | leaf alias? name arguments directives => rw [Selection.unwrap]
  | spread fragment directives => rw [Selection.unwrap]
  | composite alias? name arguments directives ss ih =>
      rw [Selection.unwrap, Selection.sets, Selection.sets]
      exact hset ih
  | inline condition? directives ss ih =>
      rw [Selection.unwrap, Selection.sets, Selection.sets]
      exact hset ih

/-- **Unwrapping makes no difference**: it takes away what stands around a set without fields. -/
theorem setUnambiguous_unwrapSet_iff : SetUnambiguous (unwrapSet ss) ↔ SetUnambiguous ss := by
  rw [unwrapSet, setUnambiguous_unwrapOuter, setUnambiguous_iff, setUnambiguous_iff, KeysApart,
    responseFields_unwrapEach, Execution.unwrapEach_eq_map, List.forall_mem_map]
  exact and_congr_right fun _ => forall₂_congr fun s _ => keysApart_sets_unwrap

end Fields

/-! ### Sets in their places -/

section Sites

variable {schema : Schema} {r : Rewriting} {site site' : Site} {set : List Selection}

/-- The sets inside a selection are held by the set that it is in. -/
lemma Site.exists_holds_of_mem_sets {s : Selection} (hs : s ∈ site.selections)
    (hset : set ∈ s.sets) : ∃ site', site.Holds schema site' ∧ site'.selections = set := by
  induction s using Selection.induct generalizing site with
  | leaf | spread => cases hset
  | composite alias? name arguments directives ss ih =>
      rcases List.mem_cons.mp hset with rfl | hset
      · exact ⟨_, .field hs (.refl _), rfl⟩
      · obtain ⟨s, hs', hset⟩ := mem_setsIn.mp hset
        obtain ⟨site', hholds, rfl⟩ := @ih s hs' ⟨.field, _, ss⟩ hs' hset
        exact ⟨site', .field hs hholds, rfl⟩
  | inline condition? directives ss ih =>
      rcases List.mem_cons.mp hset with rfl | hset
      · exact ⟨_, .inline hs (.refl _), rfl⟩
      · obtain ⟨s, hs', hset⟩ := mem_setsIn.mp hset
        obtain ⟨site', hholds, rfl⟩ := @ih s hs' ⟨.inline, _, ss⟩ hs' hset
        exact ⟨site', .inline hs hholds, rfl⟩

/-- What a set holds is the set itself or one inside it. -/
lemma Site.Holds.mem_sets (h : site.Holds schema site') :
    site'.selections ∈ site.selections :: setsIn site.selections := by
  induction h with
  | refl => exact List.mem_cons_self
  | field hs _ ih | inline hs _ ih =>
      refine List.mem_cons_of_mem _ (mem_setsIn.mpr ⟨_, hs, ?_⟩)
      rwa [Selection.sets]

/-- A set is unambiguous if in each of the sets that it holds keys are told apart. -/
theorem setUnambiguous_iff_holds : SetUnambiguous site.selections
    ↔ ∀ site', site.Holds schema site' → KeysApart site'.selections := by
  constructor
  · exact fun h site' hholds => h _ hholds.mem_sets
  · refine fun h => setUnambiguous_iff.mpr ⟨h site (.refl site), fun s hs set hset => ?_⟩
    obtain ⟨site', hholds, rfl⟩ := @Site.exists_holds_of_mem_sets schema site set s hs hset
    exact h site' hholds

/-- A rewriting leaves the selections with sets in the sets where they are. -/
def Rewriting.LeavesSets (r : Rewriting) : Prop :=
  ∀ owner parent? ss, ∀ s ∈ ss, s.sets ≠ [] → s ∈ r.set owner parent? ss

/-- The sets that a set holds are held by what becomes of it, as they become. -/
lemma Site.Holds.rewrite (hr : r.KeepsSites) (hsets : r.LeavesSets) (h : site.Holds schema site') :
    (site.rewrite schema r).Holds schema (site'.rewrite schema r) := by
  have hmem {site : Site} {s : Selection} (hs : s ∈ site.selections)
      (hne : (s.rewrite schema r site.parent?).sets ≠ []) :
      s.rewrite schema r site.parent? ∈ (site.rewrite schema r).selections := by
    refine hsets _ _ _ _ ?_ hne
    rw [rewriteAll_eq_map]
    exact List.mem_map_of_mem hs
  induction h with
  | refl => exact .refl _
  | @field site inside alias? name arguments directives ss hs _ ih =>
      obtain ⟨alias?', halias⟩ := hr.field site.parent? alias? name arguments directives
        (some (r.set .field (schema.insideField? site.parent? name)
          (rewriteAll schema r (schema.insideField? site.parent? name) ss)))
      have hrewrite := @hmem site _ hs
      rw [Selection.rewrite, halias] at hrewrite
      exact .field (hrewrite (by rw [Selection.sets]; exact List.cons_ne_nil _ _)) ih
  | @inline site inside condition? directives ss hs _ ih =>
      have hrewrite := @hmem site _ hs
      rw [Selection.rewrite] at hrewrite
      exact .inline (hrewrite (by rw [Selection.sets]; exact List.cons_ne_nil _ _)) ih

/-- A rewritten set is unambiguous if in each of the sets that it held before keys are told apart
once that is rewritten. -/
theorem setUnambiguous_rewrite_iff (hr : r.KeepsSites) (hsets : r.LeavesSets) :
    SetUnambiguous (site.rewrite schema r).selections
      ↔ ∀ site', site.Holds schema site' → KeysApart (site'.rewrite schema r).selections := by
  rw [@setUnambiguous_iff_holds schema]
  constructor
  · exact fun h site' hholds => h _ (hholds.rewrite hr hsets)
  · intro h site' hholds
    obtain ⟨before, hbefore, rfl⟩ := hholds.of_rewrite hr
    exact h before hbefore

end Sites

/-! ### Aliases -/

section Aliases

variable {schema : Schema} {types : List String} {aliases : Aliases} {parent? : Option NamedType}
  {ss ss' : List Selection}

/-- The alias that a field has after aliases are given. -/
def aliasAt (schema : Schema) (types : List String) (aliases : Aliases)
    (parent? : Option NamedType) (alias? : Option String) (name : String) : Option String :=
  match aliases.alias? name with
  | none => alias?
  | some new =>
    if name == "__typename" then
      if alias? == none || alias? == some "__typename" then some new else alias?
    else if alias? == none && parent?.any (schema.isNodeType types) then some new
    else alias?

lemma leavesSets_aliasRewriting : (aliasRewriting schema types aliases).LeavesSets :=
  fun _ _ _ _ hs _ => hs

/-- What the fields of a set ask for once aliases are given. -/
lemma mem_responseFields_aliased {a : ResponseField} :
    a ∈ responseFields (rewriteAll schema (aliasRewriting schema types aliases) parent? ss)
      ↔ ∃ alias? name arguments directives selections?,
        .field alias? name arguments directives selections? ∈ ss
          ∧ a =
            responseField (aliasAt schema types aliases parent? alias? name) name arguments := by
  rw [responseFields, rewriteAll_eq_map, List.filterMap_map, List.mem_filterMap]
  constructor
  · rintro ⟨s, hs, ha⟩
    cases s with
    | field alias? name arguments directives selections? =>
        refine ⟨_, _, _, _, _, hs, ?_⟩
        cases selections? <;>
        · rw [Function.comp_apply, Selection.rewrite] at ha
          exact (Option.some.inj ha).symm
    | spread fragment directives | inline condition? directives ss =>
        rw [Function.comp_apply, Selection.rewrite] at ha
        cases ha
  · rintro ⟨alias?, name, arguments, directives, selections?, hs, rfl⟩
    refine ⟨_, hs, ?_⟩
    cases selections? <;>
    · rw [Function.comp_apply, Selection.rewrite]
      rfl

/-- Where keys are told apart once aliases are given, so they are among fewer fields. -/
lemma KeysApart.aliased_mono (hss : FieldsWithin ss ss')
    (h : KeysApart (rewriteAll schema (aliasRewriting schema types aliases) parent? ss')) :
    KeysApart (rewriteAll schema (aliasRewriting schema types aliases) parent? ss) := by
  refine h.mono fun a ha => ?_
  obtain ⟨alias?, name, arguments, directives, selections?, hs, rfl⟩ :=
    mem_responseFields_aliased.mp ha
  obtain ⟨directives', selections?', hs'⟩ := hss _ _ _ _ _ hs
  exact mem_responseFields_aliased.mpr ⟨_, _, _, _, _, hs', rfl⟩

end Aliases

end RemoteNodes
