import Mathlib.Tactic
import RemoteNodes.Proofs.Document.Preorder
/-!
The search for a field, as a whole: that it ends, and what it gives.

* `Document.CyclesPassFields`: fragments lead back to themselves only through fields;
  `Document.acc_places`: **then the walk in pre-order ends**, since each field on the way leads
  deeper and those that are too deep are not entered.
* `FieldSearch.Finds`: the path of the first field that passes the test, the empty path, or the
  fault of the first obstacle.
* `Document.fieldPath_exact`: **the search gives exactly that**, and no path that is too long.
* `too_deep_match`: a field that passes the test but is too deep itself.
-/

namespace RemoteNodes

open Relation

/-! ### Spreads outside fields -/

mutual
/-- The fragments that a selection spreads, apart from the fields in it. -/
def Selection.outerSpreads : Selection → List String
  | .field .. => []
  | .spread name _ => [name]
  | .inline _ _ selections => outerSpreadsIn selections
/-- The fragments that selections spread, apart from the fields in them. -/
def outerSpreadsIn : List Selection → List String
  | [] => []
  | s :: ss => s.outerSpreads ++ outerSpreadsIn ss
end

lemma mem_outerSpreadsIn {ss : List Selection} {name : String} :
    name ∈ outerSpreadsIn ss ↔ ∃ s ∈ ss, name ∈ s.outerSpreads := by
  induction ss with
  | nil => simp [outerSpreadsIn]
  | cons s ss ih => simp [outerSpreadsIn, ih]

namespace Document

variable {document : Document} {name : String}

/-- A fragment of the first name spreads the second one outside its fields. -/
def OpensInto (document : Document) (name next : String) : Prop :=
  ∃ f ∈ document.fragments, f.name = name ∧ next ∈ outerSpreadsIn f.selections

/-- Wherever fragments lead back to themselves, a field is passed. -/
def CyclesPassFields (document : Document) : Prop :=
  ∀ name, ¬ TransGen document.OpensInto name name

lemma OpensInto.mem_names {next : String} (h : document.OpensInto name next) :
    name ∈ document.fragments.map (·.name) := by
  obtain ⟨f, hf, rfl, -⟩ := h
  exact List.mem_map_of_mem hf

/-- Opening fragments within fragments comes to an end, there being only so many of them. -/
lemma CyclesPassFields.acc (h : document.CyclesPassFields) (name : String) :
    Acc (flip document.OpensInto) name := by
  let names := document.fragments.map (·.name)
  let Opens (a b : {name // name ∈ names}) : Prop := document.OpensInto a.1 b.1
  have hwell : WellFounded (TransGen (flip Opens)) := by
    have : IsTrans _ (TransGen (flip Opens)) := ⟨fun _ _ _ => TransGen.trans⟩
    have : Std.Irrefl (TransGen (flip Opens)) :=
      ⟨fun a ha => h a.1 ((transGen_swap.mp ha).lift Subtype.val fun _ _ h => h)⟩
    exact Finite.wellFounded_of_trans_of_irrefl _
  have hdeclared (a : {name // name ∈ names}) : Acc (flip document.OpensInto) a.1 := by
    induction a using hwell.induction with
    | _ a ih =>
        refine ⟨_, fun next hnext => ?_⟩
        by_cases hmem : next ∈ names
        · exact ih ⟨next, hmem⟩ (.single hnext)
        · exact ⟨_, fun _ hlater => absurd (OpensInto.mem_names hlater) hmem⟩
  by_cases hmem : name ∈ names
  · exact hdeclared ⟨name, hmem⟩
  · exact ⟨_, fun _ hnext => absurd (OpensInto.mem_names hnext) hmem⟩

end Document

/-! ### The walk ends -/

namespace Place

variable {fragments : List Fragment} {place : Place} {a b : List Place} {path : List String}
  {ss : List Selection}

lemma acc_nil : Acc (flip (Step fragments)) [] := ⟨_, fun _ h => nomatch h⟩

lemma acc_append (ha : Acc (flip (Step fragments)) a) (hb : Acc (flip (Step fragments)) b) :
    Acc (flip (Step fragments)) (a ++ b) := by
  induction ha with
  | intro a _ ih =>
      cases a with
      | nil => exact hb
      | cons place rest =>
          refine ⟨_, fun c hc => ?_⟩
          cases hc with
          | @enter _ inside _ h =>
              have hrest := ih (inside ++ rest) (.enter rest h)
              rwa [List.append_assoc] at hrest

lemma acc_singleton
    (h : ∀ inside, place.inside? fragments = some inside → Acc (flip (Step fragments)) inside) :
    Acc (flip (Step fragments)) [place] := by
  refine ⟨_, fun c hc => ?_⟩
  cases hc with
  | enter rest hinside =>
      rw [List.append_nil]
      exact h _ hinside

lemma acc_of_forall (h : ∀ place ∈ a, Acc (flip (Step fragments)) [place]) :
    Acc (flip (Step fragments)) a := by
  induction a with
  | nil => exact acc_nil
  | cons place rest ih =>
      obtain ⟨hfirst, hrest⟩ := List.forall_mem_cons.mp h
      exact acc_append hfirst (ih hrest)

/-- The walk through a selection ends if it ends below the fields in it and in the fragments that
are spread outside them. -/
lemma acc_selection {s : Selection}
    (hdeeper : path.length ≤ maxNesting →
      ∀ (key : String) (ss : List Selection),
        Acc (flip (Step fragments)) (ss.map (⟨path ++ [key], ·⟩)))
    (hspreads : ∀ name ∈ s.outerSpreads, ∀ f, lastFragment? fragments name = some f →
      Acc (flip (Step fragments)) (f.selections.map (⟨path, ·⟩))) :
    Acc (flip (Step fragments)) [⟨path, s⟩] := by
  induction s using Selection.induct with
  | leaf | composite =>
      refine acc_singleton fun inside hinside => ?_
      obtain ⟨hdepth, hinside⟩ := Option.ite_none_left_eq_some.mp hinside
      obtain rfl := Option.some.inj hinside
      exact hdeeper (Nat.le_of_not_lt hdepth) _ _
  | spread name directives =>
      refine acc_singleton fun inside hinside => ?_
      obtain ⟨f, hf, rfl⟩ := Option.map_eq_some_iff.mp hinside
      exact hspreads name (List.mem_singleton_self _) f hf
  | inline condition? directives ss ih =>
      refine acc_singleton fun inside hinside => ?_
      obtain rfl := Option.some.inj hinside
      refine acc_of_forall (List.forall_mem_map.mpr fun s hs => ih s hs fun name hname => ?_)
      exact hspreads name (mem_outerSpreadsIn.mpr ⟨s, hs, hname⟩)

end Place

/-- **The walk ends.** If fragments lead back to themselves only through fields, the walk in
pre-order comes to an end, whatever selections it begins with. -/
theorem Document.acc_places {document : Document} (h : document.CyclesPassFields)
    (path : List String) (ss : List Selection) :
    Acc (flip (Place.Step document.fragments)) (ss.map (⟨path, ·⟩)) := by
  induction hdepth : maxNesting + 1 - path.length using Nat.strong_induction_on
    generalizing path ss with
  | _ depth ih =>
      have hdeeper (hpath : path.length ≤ maxNesting) (key : String) (ss : List Selection) :
          Acc (flip (Place.Step document.fragments)) (ss.map (⟨path ++ [key], ·⟩)) := by
        refine ih _ ?_ _ ss rfl
        rw [← hdepth, List.length_append, List.length_singleton]
        omega
      have hset {ss : List Selection} (hspreads : ∀ name ∈ outerSpreadsIn ss, ∀ f,
          lastFragment? document.fragments name = some f →
            Acc (flip (Place.Step document.fragments)) (f.selections.map (⟨path, ·⟩))) :
          Acc (flip (Place.Step document.fragments)) (ss.map (⟨path, ·⟩)) :=
        Place.acc_of_forall (List.forall_mem_map.mpr fun s hs =>
          Place.acc_selection hdeeper fun name hname =>
            hspreads name (mem_outerSpreadsIn.mpr ⟨s, hs, hname⟩))
      -- at this depth fragments end after those that they open into
      have hfragment (name : String) (f : Fragment)
          (hf : lastFragment? document.fragments name = some f) :
          Acc (flip (Place.Step document.fragments)) (f.selections.map (⟨path, ·⟩)) := by
        induction h.acc name generalizing f with
        | intro name _ ih =>
            have hmem : f ∈ document.fragments := List.mem_reverse.mp (List.mem_of_find?_eq_some hf)
            have hname : f.name = name := by simpa using List.find?_some hf
            exact hset fun next hnext g hg => ih next ⟨f, hmem, hname, hnext⟩ g hg
      exact hset fun name _ f hf => hfragment name f hf

/-! ### What the search gives -/

namespace FieldSearch

variable {search : FieldSearch} {place : Place} {places rest a b : List Place}
  {result result' : Except ConfigurationFault (List String)}
  {found found' : Except ConfigurationFault (Option (List String))}

/-- No field that passes the test and is not too deep comes in the walk. -/
def Misses (search : FieldSearch) (places : List Place) : Prop :=
  ∀ place rest, ReflTransGen (Place.Step search.fragments) places (place :: rest) →
    ¬ search.Hits place

/-- What a search gives: the path of the first field that passes the test, the empty path if the
walk ends without one, or the fault of the place that the walk does not get past. -/
inductive Finds (search : FieldSearch) (places : List Place) :
    Except ConfigurationFault (List String) → Prop
  | first {place : Place} (h : Place.First search.fragments places search.Hits place) :
      search.Finds places (.ok place.fieldPath)
  | nothing (h : ReflTransGen (Place.Step search.fragments) places [])
      (hmiss : search.Misses places) : search.Finds places (.ok [])
  | obstacle {place : Place} {rest : List Place} {fault : ConfigurationFault}
      (h : ReflTransGen (Place.Step search.fragments) places (place :: rest))
      (hblocks : search.Blocks place fault) (hmiss : search.Misses places) :
      search.Finds places (.error fault)

lemma Blocks.unique {fault fault' : ConfigurationFault} (h : search.Blocks place fault)
    (h' : search.Blocks place fault') : fault = fault' := by
  cases h <;> cases h' <;> rfl

/-- A walk reports one thing. -/
lemma Reports.unique (h : search.Reports places found) (h' : search.Reports places found') :
    found = found' := by
  match found, h with
  | .ok (some path), ⟨place, rest, hwalk, hplace, hpath⟩ =>
      rw [h'.eq_of_hits hwalk hplace, hpath]
  | .ok none, hwalk =>
      match found', h' with
      | .ok none, _ => rfl
      | .ok (some _), ⟨place, rest, hwalk', hplace, _⟩ =>
          cases end_unique hwalk (fun _ h => nomatch h) hwalk' (hplace.ends rest)
      | .error _, ⟨place, rest, hwalk', hblocks⟩ =>
          cases end_unique hwalk (fun _ h => nomatch h) hwalk' (hblocks.ends rest)
  | .error fault, ⟨place, rest, hwalk, hblocks⟩ =>
      match found', h' with
      | .ok none, hwalk' =>
          cases end_unique hwalk (hblocks.ends rest) hwalk' fun _ h => nomatch h
      | .ok (some _), ⟨other, rest', hwalk', hplace, _⟩ =>
          cases end_unique hwalk (hblocks.ends rest) hwalk' (hplace.ends rest')
          exact absurd hplace hblocks.not_hits
      | .error _, ⟨other, rest', hwalk', hblocks'⟩ =>
          cases end_unique hwalk (hblocks.ends rest) hwalk' (hblocks'.ends rest')
          rw [hblocks.unique hblocks']

/-- A walk that passes only fields that fail the test passes no other one. -/
lemma misses_of_ends (hwalk : ReflTransGen search.Passes a b) (hend : ∀ d, ¬ search.Passes b d)
    (hb : ∀ place rest, b = place :: rest → ¬ search.Hits place) : search.Misses a := by
  intro place rest hreached hplace
  obtain ⟨first, later, hpasses, hfirst, -⟩ := exists_first hplace hreached
  exact hb first later (end_unique hwalk hend hpasses (hfirst.ends later)) hfirst

/-- Where no field passes the test, the walk in pre-order is the walk past fields that fail it. -/
lemma Misses.passes (hmiss : search.Misses a)
    (hwalk : ReflTransGen (Place.Step search.fragments) a b) : ReflTransGen search.Passes a b := by
  induction hwalk with
  | refl => exact .refl
  | tail hbefore hstep ih =>
      cases hstep with
      | enter rest hinside => exact ih.tail (.enter rest (hmiss _ rest hbefore) hinside)

/-- The first field that passes the test in the walk that is passed. -/
lemma first_of_passes (hwalk : ReflTransGen search.Passes a (place :: rest))
    (hplace : search.Hits place) : Place.First search.fragments a search.Hits place := by
  refine ⟨rest, hwalk.lift id fun _ _ => Passes.step, hplace, fun other rest' hother hhits => ?_⟩
  obtain ⟨first, later, hpasses, hfirst, hlater⟩ := exists_first hhits hother
  exact end_unique hwalk (hplace.ends rest) hpasses (hfirst.ends later) ▸ hlater

/-- What comes back to where it was, along a relation that ends, has not moved. -/
lemma eq_of_reaches_back {α : Type} {r : α → α → Prop} {start x y : α} (hacc : Acc (flip r) start)
    (hstart : ReflTransGen r start x) (h : ReflTransGen r x y) (hback : ReflTransGen r y x) :
    x = y := by
  have hirrefl {x : α} (hacc : Acc (TransGen (flip r)) x) : ¬ TransGen (flip r) x x := by
    induction hacc with
    | intro x _ ih => exact fun h => ih x h h
  have hreached {x : α} (hstart : ReflTransGen r start x) : Acc (flip r) x := by
    induction hstart with
    | refl => exact hacc
    | tail _ hstep ih => exact ih.inv hstep
  rcases h.cases_head with heq | ⟨z, hz, hzy⟩
  · exact heq
  · exact absurd (transGen_swap.mpr (TransGen.head' hz (hzy.trans hback)))
      (hirrefl (hreached hstart).transGen)

/-- In a walk that ends, only fields that fail the test come before the first one that passes it. -/
lemma exists_passes_of_first (hacc : Acc (flip (Place.Step search.fragments)) a)
    (h : Place.First search.fragments a search.Hits place) :
    ∃ rest, ReflTransGen search.Passes a (place :: rest) ∧ search.Hits place := by
  obtain ⟨rest, hwalk, hplace, hmin⟩ := h
  obtain ⟨first, later, hpasses, hfirst, hlater⟩ := exists_first hplace hwalk
  have hsteps := hpasses.lift id fun _ _ => Passes.step
  cases eq_of_reaches_back hacc hsteps hlater (hmin first later hsteps hfirst)
  exact ⟨_, hpasses, hplace⟩

/-- What is reported is found. -/
lemma Reports.finds (h : search.Reports places found) :
    search.Finds places (found.map (·.getD [])) := by
  match found, h with
  | .ok (some path), ⟨place, rest, hwalk, hplace, hpath⟩ =>
      exact hpath ▸ .first (first_of_passes hwalk hplace)
  | .ok none, hwalk =>
      exact .nothing (hwalk.lift id fun _ _ => Passes.step)
        (misses_of_ends hwalk (fun _ h => nomatch h) fun _ _ h => nomatch h)
  | .error fault, ⟨place, rest, hwalk, hblocks⟩ =>
      refine .obstacle (hwalk.lift id fun _ _ => Passes.step) hblocks
        (misses_of_ends hwalk (hblocks.ends rest) fun other rest' heq => ?_)
      cases heq
      exact hblocks.not_hits

/-- What is found is reported, where the walk ends. -/
lemma Finds.exists_reports (hacc : Acc (flip (Place.Step search.fragments)) places)
    (h : search.Finds places result) :
    ∃ found, search.Reports places found ∧ result = found.map (·.getD []) := by
  cases h with
  | first h =>
      obtain ⟨rest, hwalk, hplace⟩ := exists_passes_of_first hacc h
      exact ⟨.ok (some _), ⟨_, rest, hwalk, hplace, rfl⟩, rfl⟩
  | nothing h hmiss => exact ⟨.ok none, hmiss.passes h, rfl⟩
  | obstacle h hblocks hmiss => exact ⟨.error _, ⟨_, _, hmiss.passes h, hblocks⟩, rfl⟩

/-- No path that is found has more keys than one more than may be nested. -/
lemma Finds.length_le {path : List String} (h : search.Finds places (.ok path)) :
    path.length ≤ maxNesting + 1 := by
  generalize hresult : Except.ok path = result at h
  cases h with
  | @first place h =>
      cases hresult
      obtain ⟨-, -, ⟨hfield, hdepth, -⟩, -⟩ := h
      obtain ⟨around, s⟩ := place
      cases s with
      | field => simpa [Place.fieldPath] using hdepth
      | spread | inline => cases hfield
  | nothing => cases hresult; exact Nat.zero_le _
  | obstacle => cases hresult

end FieldSearch

/-- **The search for a field.** In a document whose fragments lead back to themselves only through
fields, the walk through an operation in pre-order ends, and the search gives exactly what is found
in it: the path of the first field that passes the test, if the walk comes to one that is not too
deep before it comes to a field that is too deep or a spread of a missing fragment; the empty path
if it ends without any of these; and otherwise the fault for the first place that it does not get
past. -/
theorem Document.fieldPath_exact (document : Document) (name : String) (o : Operation)
    (test : Selection → Bool) (hcycles : document.CyclesPassFields)
    (ho : document.operation name = .ok o) :
    Acc (flip (Place.Step document.fragments)) (o.selections.map (⟨[], ·⟩))
      ∧ (∀ result, document.fieldPath name test = result
        ↔ FieldSearch.Finds ⟨document.fragments, test⟩ (o.selections.map (⟨[], ·⟩)) result)
      ∧ ∀ path, document.fieldPath name test = .ok path → path.length ≤ maxNesting + 1 := by
  have hacc := Document.acc_places hcycles [] o.selections
  have hfieldPath : document.fieldPath name test
      = (FieldSearch.inSelections ⟨document.fragments, test⟩ []
          (document.fragments.map (·.name)) o.selections).map (·.getD []) := by
    rw [fieldPath, ho]
    rfl
  have hreports : FieldSearch.Reports ⟨document.fragments, test⟩ (o.selections.map (⟨[], ·⟩))
      (FieldSearch.inSelections ⟨document.fragments, test⟩ [] (document.fragments.map (·.name))
        o.selections) :=
    (FieldSearch.sound ⟨document.fragments, test⟩).2 [] (document.fragments.map (·.name))
      o.selections (Subrelation.accessible (fun h => FieldSearch.Passes.step h) hacc)
      (FieldSearch.opened_all _ _)
  have hfinds := hreports.finds
  rw [← hfieldPath] at hfinds
  refine ⟨hacc, fun result => ⟨fun h => h ▸ hfinds, fun h => ?_⟩, fun path h => ?_⟩
  · obtain ⟨found, hfound, rfl⟩ := h.exists_reports hacc
    rw [hfieldPath, hreports.unique hfound]
  · exact (h ▸ hfinds).length_le

/-- An operation on nodes that makes selections on one of them. -/
def searchedOperation (selections : List Selection) : Operation where
  kind := .query
  name? := some "NODE_Foo"
  variableDefinitions := [{ name := "id", type := .nonNull (.named "ID") }]
  directives := []
  selections

/-- An operation on a chain of nodes, each of which leads to the next one in the same fragment. -/
def chainDocument : Document :=
  [.operation (searchedOperation [.spread "Chain" []]),
    .fragment { name := "Chain", condition := "Foo",
                selections := [.spread "Name" [], .plain "next" (some [.spread "Chain" []])] },
    .fragment { name := "Name", condition := "Foo", selections := [.plain "name"] }]

/-- The chain passes a field each time that it comes back, and one that cannot be found is searched
for until the fields are too deep. -/
theorem Document.fieldPath_exact_chain :
    chainDocument.CyclesPassFields
      ∧ chainDocument.operation "NODE_Foo" = .ok (searchedOperation [.spread "Chain" []])
      ∧ Acc (flip (Place.Step chainDocument.fragments)) [⟨[], .spread "Chain" []⟩]
      ∧ FieldSearch.Finds ⟨chainDocument.fragments, fun _ => false⟩ [⟨[], .spread "Chain" []⟩]
        (.error (.tooDeep (List.replicate 11 "next"))) := by
  have hopens {name next : String} (h : chainDocument.OpensInto name next) :
      name = "Chain" ∧ next = "Name" := by
    obtain ⟨f, hf, rfl, hnext⟩ := h
    have hfragments : ∀ f ∈ chainDocument.fragments, ∀ next ∈ outerSpreadsIn f.selections,
        f.name = "Chain" ∧ next = "Name" := by decide
    exact hfragments f hf next hnext
  have hcycles : chainDocument.CyclesPassFields := by
    intro name hcycle
    obtain ⟨_, hfirst, -⟩ := TransGen.head'_iff.mp hcycle
    obtain ⟨_, -, hlast⟩ := TransGen.tail'_iff.mp hcycle
    exact absurd ((hopens hfirst).1.symm.trans (hopens hlast).2) (by decide)
  obtain ⟨hacc, hexact, -⟩ := Document.fieldPath_exact chainDocument "NODE_Foo"
    (searchedOperation [.spread "Chain" []]) (fun _ => false) hcycles rfl
  exact ⟨hcycles, rfl, hacc, (hexact _).mp (by cbv)⟩

/-! ### A match that is too deep -/

/-- Fields around a field that takes a variable. -/
def nestedField : Nat → Selection
  | 0 => .field none "a" [⟨"id", .variable "id"⟩] [] none
  | n + 1 => .plain "a" (some [nestedField n])

/-- An operation with a field that takes a variable, in eleven others. -/
def nestedDocument : Document := [.operation (searchedOperation [nestedField 11])]

lemma inside?_nestedField_succ (path : List String) (n : Nat) :
    Place.inside? [] ⟨path, nestedField (n + 1)⟩
      = if maxNesting < path.length then none else some [⟨path ++ ["a"], nestedField n⟩] := rfl

/-- The innermost of nested fields is reached if those around it are not too deep. -/
lemma reached_nestedField {path : List String} {n : Nat} (h : path.length + n ≤ maxNesting + 1) :
    ReflTransGen (Place.Step []) [⟨path, nestedField n⟩]
      [⟨path ++ List.replicate n "a", nestedField 0⟩] := by
  induction n generalizing path with
  | zero =>
      rw [List.replicate_zero, List.append_nil]
  | succ n ih =>
      have hinside := inside?_nestedField_succ path n
      rw [if_neg (by omega)] at hinside
      have hrest := @ih (path ++ ["a"]) (by rw [List.length_append, List.length_singleton]; omega)
      rw [List.append_assoc, List.singleton_append, ← List.replicate_succ] at hrest
      exact .head (.enter [] hinside) hrest

/-- What comes in the walk into nested fields are these fields, each as deep as it lies. -/
lemma eq_of_reached_nestedField {path : List String} {n : Nat} {places : List Place}
    (h : ReflTransGen (Place.Step []) [⟨path, nestedField n⟩] places) :
    places = [] ∨ ∃ k m, k + m = n
      ∧ places = [⟨path ++ List.replicate k "a", nestedField m⟩] := by
  induction h with
  | refl => exact .inr ⟨0, n, Nat.zero_add n, by simp⟩
  | tail _ hstep ih =>
      obtain rfl | ⟨k, m, rfl, rfl⟩ := ih
      · cases hstep
      · cases hstep with
        | enter rest hinside =>
            cases m with
            | zero =>
                obtain ⟨-, hinside⟩ := Option.ite_none_left_eq_some.mp hinside
                cases hinside
                exact .inl rfl
            | succ m =>
                rw [inside?_nestedField_succ, Option.ite_none_left_eq_some] at hinside
                cases hinside.2
                refine .inr ⟨k + 1, m, by omega, ?_⟩
                rw [List.replicate_succ', ← List.append_assoc, List.append_nil]

/-- The first field that takes a variable is reached in the walk, but it is too deep itself: its
path would have twelve keys, and the search fails. -/
theorem too_deep_match :
    nestedDocument.CyclesPassFields
      ∧ nestedDocument.operation "NODE_Foo" = .ok (searchedOperation [nestedField 11])
      ∧ (∃ place, Place.First nestedDocument.fragments [⟨[], nestedField 11⟩]
          (fun place => place.selection.isField = true
            ∧ (!place.selection.argumentVariables.isEmpty) = true) place
        ∧ place.fieldPath = List.replicate 12 "a")
      ∧ nestedDocument.nodePath "NODE_Foo" = .error (.tooDeep (List.replicate 11 "a")) := by
  have hreached : ReflTransGen (Place.Step []) [⟨[], nestedField 11⟩]
      [⟨List.replicate 11 "a", nestedField 0⟩] := reached_nestedField (by decide)
  refine ⟨fun name hcycle => ?_, rfl, ⟨_, ⟨[], hreached, ⟨rfl, rfl⟩, fun other rest h hother => ?_⟩,
    rfl⟩, by cbv⟩
  · obtain ⟨_, ⟨f, hf, -⟩, -⟩ := TransGen.head'_iff.mp hcycle
    cases hf
  · obtain h | ⟨k, m, hkm, h⟩ := eq_of_reached_nestedField h
    · cases h
    · cases h
      cases m with
      | zero => obtain rfl : k = 11 := hkm; exact .refl
      | succ m => cases hother.2

end RemoteNodes
