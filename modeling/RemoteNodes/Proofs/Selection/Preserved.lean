import Mathlib.Tactic
import RemoteNodes.Proofs.Selection.Rule
/-!
What stays of selections that stages go over.

* `Allowance`: the aliases that may be given, the fragments of which spreads may be put in, and
  those of which spreads may be taken out.
* `Allowance.Preserves`: selections that become others within an allowance, at any depth;
  `Preserves.trans`: **one stage after the other stays within it**.
* `Allowance.Allows`: a rewriting that stays within an allowance step by step;
  `Allows.preserves_rewriteAll`: **then it does so as a whole**.
* `preserves_dropSpreadsIn`: taking spreads out.
-/

namespace RemoteNodes

/-- What may happen to selections: fields without an alias may get the one in `aliases`, spreads of
the fragments `added` may be put in, and spreads of the fragments `removed` taken out. -/
structure Allowance where
  aliases : Aliases
  added : List String
  removed : List String

namespace Allowance

/-- What may become of the alias of a field. One that the author of a query wrote stays; only
`__typename` under its own name counts as not having any. -/
def Renames (w : Allowance) (name : String) (alias? alias?' : Option String) : Prop :=
  alias?' = alias? ∨ ((alias? = none ∨ name = "__typename" ∧ alias? = some "__typename")
    ∧ ∃ new, w.aliases.alias? name = some new ∧ alias?' = some new)

/-- The selections that may be put in: type names and spreads. -/
inductive Adds (w : Allowance) : Selection → Prop
  | typename {alias?} (h : w.Renames "__typename" none alias?) :
      Adds w (.field alias? "__typename" [] [] none)
  | spread {name} (h : name ∈ w.added) : Adds w (.spread name [])

/-- The selections that may be taken out: plain type names and spreads. -/
inductive Removes (w : Allowance) : Selection → Prop
  | typename {s} (h : s.isPlainTypename = true) : Removes w s
  | spread {name directives} (h : name ∈ w.removed) : Removes w (.spread name directives)

/-- Selections become others: some are put in, some are taken out, and all the others stay in their
order, with everything they say but for aliases that are given. -/
inductive Preserves (w : Allowance) : List Selection → List Selection → Prop
  | nil : Preserves w [] []
  | add {s ss ss'} (hs : w.Adds s) (hss : Preserves w ss ss') : Preserves w ss (s :: ss')
  | remove {s ss ss'} (hs : w.Removes s) (hss : Preserves w ss ss') : Preserves w (s :: ss) ss'
  | leaf {alias? alias?' name arguments directives ss ss'} (halias : w.Renames name alias? alias?')
      (hss : Preserves w ss ss') :
      Preserves w (.field alias? name arguments directives none :: ss)
        (.field alias?' name arguments directives none :: ss')
  | composite {alias? alias?' name arguments directives inner inner' ss ss'}
      (halias : w.Renames name alias? alias?') (hinner : Preserves w inner inner')
      (hss : Preserves w ss ss') :
      Preserves w (.field alias? name arguments directives (some inner) :: ss)
        (.field alias?' name arguments directives (some inner') :: ss')
  | spread {fragment directives ss ss'} (hss : Preserves w ss ss') :
      Preserves w (.spread fragment directives :: ss) (.spread fragment directives :: ss')
  | inline {condition? directives inner inner' ss ss'} (hinner : Preserves w inner inner')
      (hss : Preserves w ss ss') :
      Preserves w (.inline condition? directives inner :: ss)
        (.inline condition? directives inner' :: ss')

/-- A selection stays, with what is inside it preserved. -/
inductive Keeps (w : Allowance) : Selection → Selection → Prop
  | leaf {alias? alias?' name arguments directives} (halias : w.Renames name alias? alias?') :
      Keeps w (.field alias? name arguments directives none)
        (.field alias?' name arguments directives none)
  | composite {alias? alias?' name arguments directives inner inner'}
      (halias : w.Renames name alias? alias?') (hinner : w.Preserves inner inner') :
      Keeps w (.field alias? name arguments directives (some inner))
        (.field alias?' name arguments directives (some inner'))
  | spread {fragment directives} :
      Keeps w (.spread fragment directives) (.spread fragment directives)
  | inline {condition? directives inner inner'} (hinner : w.Preserves inner inner') :
      Keeps w (.inline condition? directives inner) (.inline condition? directives inner')

variable {w : Allowance}

section Aliases

variable {name : String} {alias? alias?' alias?'' : Option String}

lemma Renames.refl : w.Renames name alias? alias? := .inl rfl

lemma Renames.trans (h : w.Renames name alias? alias?') (h' : w.Renames name alias?' alias?'') :
    w.Renames name alias? alias?'' := by
  rcases h' with rfl | ⟨hfree', hnew'⟩
  · exact h
  · rcases h with rfl | ⟨hfree, -⟩
    · exact .inr ⟨hfree', hnew'⟩
    · exact .inr ⟨hfree, hnew'⟩

/-- What is a plain `__typename` afterwards was one before. -/
lemma Renames.isPlainTypename {arguments : List Argument} {directives : List Directive}
    {selections? selections?' : Option (List Selection)} (h : w.Renames name alias? alias?')
    (hplain : (Selection.field alias?' name arguments directives selections?').isPlainTypename
      = true) :
    (Selection.field alias? name arguments directives selections?).isPlainTypename = true := by
  rcases h with rfl | ⟨hfree, -⟩
  · exact hplain
  · have hname : name = "__typename" := by
      simp only [Selection.isPlainTypename, Bool.and_eq_true, beq_iff_eq] at hplain
      exact hplain.1
    simp only [Selection.isPlainTypename, hname, Bool.and_eq_true, Bool.or_eq_true, beq_iff_eq]
    exact ⟨trivial, hfree.imp_right And.right⟩

end Aliases

section Selections

variable {s s' : Selection} {ss ss' ss'' gone : List Selection}

/-- What has been put in may be renamed. -/
lemma Adds.keep (hs : w.Adds s) (h : w.Keeps s s') : w.Adds s' := by
  cases hs with
  | typename halias =>
      cases h with
      | leaf halias' => exact .typename (halias.trans halias')
  | spread hname =>
      cases h with
      | spread => exact .spread hname

/-- What is taken out after it has stayed could have been taken out before. -/
lemma Keeps.removes (h : w.Keeps s s') (hs : w.Removes s') : w.Removes s := by
  cases hs with
  | typename hplain =>
      cases h with
      | leaf halias => exact .typename (halias.isPlainTypename hplain)
      | composite halias _ => exact .typename (halias.isPlainTypename hplain)
      | spread => exact .typename hplain
      | inline _ => exact .typename hplain
  | spread hname =>
      cases h with
      | spread => exact .spread hname

namespace Preserves

lemma keep (hs : w.Keeps s s') (hss : w.Preserves ss ss') : w.Preserves (s :: ss) (s' :: ss') := by
  cases hs with
  | leaf halias => exact .leaf halias hss
  | composite halias hinner => exact .composite halias hinner hss
  | spread => exact .spread hss
  | inline hinner => exact .inline hinner hss

lemma removeAll (hgone : ∀ s ∈ gone, w.Removes s) (h : w.Preserves ss ss') :
    w.Preserves (gone ++ ss) ss' := by
  induction gone with
  | nil => exact h
  | cons s gone ih =>
      obtain ⟨hs, hgone⟩ := List.forall_mem_cons.mp hgone
      exact .remove hs (ih hgone)

/-- A selection that is first afterwards was put in, or comes from the first one that has not been
taken out. -/
lemma of_cons (h : w.Preserves ss (s' :: ss')) :
    ∃ gone rest, ss = gone ++ rest ∧ (∀ s ∈ gone, w.Removes s)
      ∧ ((w.Adds s' ∧ w.Preserves rest ss')
        ∨ ∃ s ss₀, rest = s :: ss₀ ∧ w.Keeps s s' ∧ w.Preserves ss₀ ss') := by
  generalize hall : s' :: ss' = all at h
  induction h with
  | nil => cases hall
  | add hs hss => cases hall; exact ⟨[], _, rfl, by simp, .inl ⟨hs, hss⟩⟩
  | remove hs _ ih =>
      obtain ⟨gone, rest, rfl, hgone, hrest⟩ := ih hall
      exact ⟨_ :: gone, rest, rfl, List.forall_mem_cons.mpr ⟨hs, hgone⟩, hrest⟩
  | leaf halias hss =>
      cases hall
      exact ⟨[], _, rfl, by simp, .inr ⟨_, _, rfl, .leaf halias, hss⟩⟩
  | composite halias hinner hss =>
      cases hall
      exact ⟨[], _, rfl, by simp, .inr ⟨_, _, rfl, .composite halias hinner, hss⟩⟩
  | spread hss =>
      cases hall
      exact ⟨[], _, rfl, by simp, .inr ⟨_, _, rfl, .spread, hss⟩⟩
  | inline hinner hss =>
      cases hall
      exact ⟨[], _, rfl, by simp, .inr ⟨_, _, rfl, .inline hinner, hss⟩⟩

/-- One change after the other is a change within the same allowance. -/
theorem trans (h : w.Preserves ss ss') (h' : w.Preserves ss' ss'') : w.Preserves ss ss'' := by
  -- along the second change; the first one says where the head of its input comes from
  induction h' generalizing ss with
  | nil => exact h
  | add hs _ ih => exact .add hs (ih h)
  | remove hs _ ih =>
      obtain ⟨gone, rest, rfl, hgone, ⟨-, hrest⟩ | ⟨s, ss₀, rfl, hkeep, hrest⟩⟩ := h.of_cons
      · exact removeAll hgone (ih hrest)
      · exact removeAll hgone (.remove (hkeep.removes hs) (ih hrest))
  | leaf halias _ ih =>
      obtain ⟨gone, rest, rfl, hgone, ⟨hadds, hrest⟩ | ⟨s, ss₀, rfl, hkeep, hrest⟩⟩ := h.of_cons
      · exact removeAll hgone (.add (hadds.keep (.leaf halias)) (ih hrest))
      · cases hkeep with
        | leaf halias₀ => exact removeAll hgone (.leaf (halias₀.trans halias) (ih hrest))
  | composite halias _ _ ihinner ih =>
      obtain ⟨gone, rest, rfl, hgone, ⟨hadds, -⟩ | ⟨s, ss₀, rfl, hkeep, hrest⟩⟩ := h.of_cons
      · nomatch hadds
      · cases hkeep with
        | composite halias₀ hinner =>
            exact removeAll hgone (.composite (halias₀.trans halias) (ihinner hinner) (ih hrest))
  | spread _ ih =>
      obtain ⟨gone, rest, rfl, hgone, ⟨hadds, hrest⟩ | ⟨s, ss₀, rfl, hkeep, hrest⟩⟩ := h.of_cons
      · exact removeAll hgone (.add hadds (ih hrest))
      · cases hkeep with
        | spread => exact removeAll hgone (.spread (ih hrest))
  | inline _ _ ihinner ih =>
      obtain ⟨gone, rest, rfl, hgone, ⟨hadds, -⟩ | ⟨s, ss₀, rfl, hkeep, hrest⟩⟩ := h.of_cons
      · nomatch hadds
      · cases hkeep with
        | inline hinner => exact removeAll hgone (.inline (ihinner hinner) (ih hrest))

/-- Selections of which each stays are preserved. -/
lemma of_keeps {f : Selection → Selection} (h : ∀ s ∈ ss, w.Keeps s (f s)) :
    w.Preserves ss (ss.map f) := by
  induction ss with
  | nil => exact .nil
  | cons s ss ih =>
      obtain ⟨hs, hss⟩ := List.forall_mem_cons.mp h
      exact keep hs (ih hss)

end Preserves

lemma Keeps.refl (s : Selection) : w.Keeps s s := by
  induction s using Selection.induct with
  | leaf alias? name arguments directives => exact .leaf .refl
  | composite alias? name arguments directives inner ih =>
      refine .composite .refl ?_
      simpa using Preserves.of_keeps (f := id) ih
  | spread fragment directives => exact .spread
  | inline condition? directives inner ih =>
      refine .inline ?_
      simpa using Preserves.of_keeps (f := id) ih

namespace Preserves

lemma refl (ss : List Selection) : w.Preserves ss ss := by
  simpa using of_keeps (f := id) fun s (_ : s ∈ ss) => Keeps.refl s

/-- Selections may be put in at the end. -/
lemma append (h : w.Preserves ss ss') {new : List Selection} (hnew : ∀ s ∈ new, w.Adds s) :
    w.Preserves ss (ss' ++ new) := by
  induction h with
  | nil =>
      induction new with
      | nil => exact .nil
      | cons s new ih =>
          obtain ⟨hs, hnew⟩ := List.forall_mem_cons.mp hnew
          exact .add hs (ih hnew)
  | add hs _ ih => exact .add hs ih
  | remove hs _ ih => exact .remove hs ih
  | leaf halias _ ih => exact .leaf halias ih
  | composite halias hinner _ _ ih => exact .composite halias hinner ih
  | spread _ ih => exact .spread ih
  | inline hinner _ _ ih => exact .inline hinner ih

/-- Some selections stay, and the others may be taken out. -/
lemma filterMap {f : Selection → Option Selection}
    (h : ∀ s ∈ ss, (∀ s', f s = some s' → w.Keeps s s') ∧ (f s = none → w.Removes s)) :
    w.Preserves ss (ss.filterMap f) := by
  induction ss with
  | nil => exact .nil
  | cons s ss ih =>
      obtain ⟨⟨hkeep, hremove⟩, hss⟩ := List.forall_mem_cons.mp h
      cases hs : f s with
      | none => rw [List.filterMap_cons_none hs]; exact .remove (hremove hs) (ih hss)
      | some s' => rw [List.filterMap_cons_some hs]; exact keep (hkeep s' hs) (ih hss)

end Preserves

end Selections

/-! ### Rewritings within an allowance -/

/-- A rewriting stays within an allowance: of a field it changes at most the alias, and selection
sets become others within it. -/
structure Allows (w : Allowance) (r : Rewriting) : Prop where
  field : ∀ parent? alias? name arguments directives selections?, ∃ alias?',
    w.Renames name alias? alias?'
      ∧ r.field parent? (.field alias? name arguments directives selections?)
        = .field alias?' name arguments directives selections?
  set : ∀ owner parent? ss, w.Preserves ss (r.set owner parent? ss)

section Rewriting

variable {schema : Schema} {r : Rewriting}

namespace Allows

lemma keeps_rewrite (hr : w.Allows r) (s : Selection) :
    ∀ parent?, w.Keeps s (s.rewrite schema r parent?) := by
  induction s using Selection.induct with
  | leaf alias? name arguments directives =>
      intro parent?
      obtain ⟨alias?', halias, hfield⟩ := hr.field parent? alias? name arguments directives none
      rw [Selection.rewrite, hfield]
      exact .leaf halias
  | composite alias? name arguments directives inner ih =>
      intro parent?
      rw [Selection.rewrite]
      obtain ⟨alias?', halias, hfield⟩ := hr.field parent? alias? name arguments directives _
      rw [hfield, rewriteAll_eq_map]
      exact .composite halias ((Preserves.of_keeps fun s hs => ih s hs _).trans (hr.set _ _ _))
  | spread fragment directives => exact fun _ => .spread
  | inline condition? directives inner ih =>
      intro parent?
      rw [Selection.rewrite, rewriteAll_eq_map]
      exact .inline ((Preserves.of_keeps fun s hs => ih s hs _).trans (hr.set _ _ _))

/-- A rewriting that stays within an allowance step by step preserves selections. -/
theorem preserves_rewriteAll (hr : w.Allows r) (parent? : Option NamedType) (ss : List Selection) :
    w.Preserves ss (rewriteAll schema r parent? ss) := by
  rw [rewriteAll_eq_map]
  exact .of_keeps fun s _ => hr.keeps_rewrite s parent?

end Allows

lemma adds_typename : w.Adds (.plain "__typename") := .typename .refl

/-- Selecting type names puts them in. -/
lemma allows_typenameRewriting : w.Allows typenameRewriting where
  field _ alias? name arguments directives selections? := ⟨alias?, .refl, rfl⟩
  set owner parent? ss := by
    dsimp only [typenameRewriting]
    split
    · exact .add adds_typename (.refl ss)
    · exact .refl ss

/-- Giving aliases leaves those alone that the author of a query wrote. -/
lemma allows_aliasRewriting (schema : Schema) (types : List String) :
    w.Allows (aliasRewriting schema types w.aliases) where
  field parent? alias? name arguments directives selections? := by
    refine ⟨_, ?_, rfl⟩
    split
    · exact .refl
    · rename_i new hnew
      by_cases hname : name = "__typename"
      · rw [if_pos (beq_iff_eq.mpr hname)]
        split
        · rename_i hfree
          rw [Bool.or_eq_true, beq_iff_eq, beq_iff_eq] at hfree
          exact .inr ⟨hfree.imp_right fun h => ⟨hname, h⟩, new, hnew, rfl⟩
        · exact .refl
      · rw [if_neg (by simpa using hname)]
        split
        · rename_i hfree
          rw [Bool.and_eq_true, beq_iff_eq] at hfree
          exact .inr ⟨.inl hfree.1, new, hnew, rfl⟩
        · exact .refl
  set _ _ ss := .refl ss

/-- Spreading fragments puts in spreads of them, and moves type names to the front. -/
lemma allows_spreadRewriting (schema : Schema) (type : String) :
    w.Allows (spreadRewriting schema type w.added) where
  field _ alias? name arguments directives selections? := ⟨alias?, .refl, rfl⟩
  set owner parent? ss := by
    have hspreads (present : List String) :
        ∀ s ∈ (w.added.filter (!present.contains ·)).map (Selection.spread · []), w.Adds s := by
      intro s hs
      obtain ⟨name, hname, rfl⟩ := List.mem_map.mp hs
      exact .spread (List.mem_filter.mp hname).1
    dsimp only [spreadRewriting]
    split
    · rw [insertSpreads]
      split
      · exact (Preserves.refl ss).append (hspreads _)
      · have hrest : w.Preserves ss (ss.filter (!·.isPlainTypename)) := by
          rw [← List.filterMap_eq_filter]
          refine .filterMap fun s _ => ⟨fun s' hs => ?_, fun hs => ?_⟩
          · obtain ⟨rfl, -⟩ := Option.guard_eq_some_iff.mp hs
            exact .refl s
          · exact .typename (by simpa [Option.guard] using hs)
        exact (Preserves.add adds_typename hrest).append (hspreads _)
    · exact .refl ss

end Rewriting

/-- Taking out spreads of the removed fragments leaves all other selections. -/
theorem preserves_dropSpreadsIn (ss : List Selection) :
    w.Preserves ss (dropSpreadsIn w.removed ss) := by
  have hone (s : Selection) : (∀ s', s.dropSpreads? w.removed = some s' → w.Keeps s s')
      ∧ (s.dropSpreads? w.removed = none → w.Removes s) := by
    induction s using Selection.induct with
    | leaf alias? name arguments directives =>
        refine ⟨fun s' hs => ?_, nofun⟩
        cases hs
        exact .refl _
    | composite alias? name arguments directives inner ih =>
        refine ⟨fun s' hs => ?_, nofun⟩
        cases hs
        rw [dropSpreadsIn_eq_filterMap]
        exact .composite .refl (.filterMap ih)
    | spread fragment directives =>
        rw [Selection.dropSpreads?]
        split
        · rename_i hmem
          exact ⟨nofun, fun _ => .spread (by simpa using hmem)⟩
        · refine ⟨fun s' hs => ?_, nofun⟩
          cases hs
          exact .spread
    | inline condition? directives inner ih =>
        refine ⟨fun s' hs => ?_, nofun⟩
        cases hs
        rw [dropSpreadsIn_eq_filterMap]
        exact .inline (.filterMap ih)
  rw [dropSpreadsIn_eq_filterMap]
  exact .filterMap fun s _ => hone s

end Allowance

end RemoteNodes
