import Mathlib.Tactic
import RemoteNodes.Proofs.Keyed
import RemoteNodes.Proofs.Node.Picked
import RemoteNodes.Proofs.Selection.FieldTree
/-!
What an ID fragment picks out of any value, and where it fails.

* `isPicked`: fields are picked, but no type names below the top.
* `Selection.Readable`: an object has all that a selection picks. `exists_pickOne_iff`: **then and
  only then picking succeeds**.
* `Picks`: what is picked, as a tree: the names of the fields in their order, with the values under
  their keys. `picks_of_pickEach`: **picking gives that tree**, if names are distinct.
* `LevelOf`: the objects in what is picked; `not_mem_keys_of_levelOf`: below the top none of them
  has a type name.
* `Selection.FailsAt`, `FirstAt`: a field for which an object has no value, or not an object where
  one is needed, by its place; `reportsFirst_pickOne`: **picking reports the first of these fields**
  in depth-first order.
* `Fragment.pickId_exact`: all this for ID fragments.
-/

namespace RemoteNodes

open Selection (responseKey)

/-! ### Fields that are picked -/

/-- Whether fields of a name are picked: below the top level (`nested`) type names are not. -/
def isPicked (nested : Bool) (name : String) : Bool := !(nested && name == "__typename")

/-- What an object has for a field that is picked: nothing or null, or another value. -/
inductive FieldValue (nested : Bool) (fields : Keyed Json) (key name : String) : Prop where
  | skipped (h : isPicked nested name = false)
  | missing (h : isPicked nested name = true) (hvalue : (Keyed.get? fields key).getD .null = .null)
  | present (h : isPicked nested name = true) (v : Json) (hvalue : Keyed.get? fields key = some v)
      (hnull : v ≠ .null)

lemma fieldValue (nested : Bool) (fields : Keyed Json) (key name : String) :
    FieldValue nested fields key name := by
  cases h : isPicked nested name with
  | false => exact .skipped h
  | true =>
      by_cases hnull : (Keyed.get? fields key).getD .null = .null
      · exact .missing h hnull
      · cases hvalue : Keyed.get? fields key with
        | none => exact absurd (by rw [hvalue]; rfl) hnull
        | some v => exact .present h v hvalue (by rwa [hvalue] at hnull)

section Field

variable {nested : Bool} {fields inner : Keyed Json} {alias? : Option String} {name : String}
  {arguments : List Argument} {directives : List Directive}
  {selections? : Option (List Selection)} {selections : List Selection} {v : Json}

lemma pickOne_skipped (h : isPicked nested name = false) :
    pickOne nested fields (.field alias? name arguments directives selections?) = .ok none := by
  rw [isPicked, Bool.not_eq_false'] at h
  rw [pickOne, if_pos h]

private lemma pickOne_picked (h : isPicked nested name = true) :
    ¬ (nested && name == "__typename") = true := by
  rw [isPicked, Bool.not_eq_true'] at h
  simp [h]

lemma pickOne_missing (h : isPicked nested name = true)
    (hvalue : (Keyed.get? fields (responseKey alias? name)).getD .null = .null) :
    pickOne nested fields (.field alias? name arguments directives selections?)
      = .error (.missingValue (responseKey alias? name) (Keyed.keys fields)) := by
  rw [pickOne, if_neg (pickOne_picked h)]
  dsimp only
  rw [hvalue]

lemma pickOne_leaf (h : isPicked nested name = true)
    (hvalue : Keyed.get? fields (responseKey alias? name) = some v) (hnull : v ≠ .null) :
    pickOne nested fields (.field alias? name arguments directives none)
      = .ok (some (name, v)) := by
  rw [pickOne, if_neg (pickOne_picked h)]
  dsimp only
  rw [hvalue, Option.getD_some]
  split
  · exact absurd rfl hnull
  · rfl

lemma pickOne_object (h : isPicked nested name = true)
    (hvalue : Keyed.get? fields (responseKey alias? name) = some (.obj inner)) :
    pickOne nested fields (.field alias? name arguments directives (some selections))
      = (do
        let picked ← pickEach true inner selections
        return some (name, .obj (Keyed.ofPairs picked))) := by
  rw [pickOne, if_neg (pickOne_picked h)]
  dsimp only
  rw [hvalue]
  rfl

lemma pickOne_notAnObject (h : isPicked nested name = true)
    (hvalue : Keyed.get? fields (responseKey alias? name) = some v) (hnull : v ≠ .null)
    (hobject : ∀ inner, v ≠ .obj inner) :
    pickOne nested fields (.field alias? name arguments directives (some selections))
      = .error (.notAnObject v) := by
  rw [pickOne, if_neg (pickOne_picked h)]
  dsimp only
  rw [hvalue, Option.getD_some]
  split
  · exact absurd rfl hnull
  · cases v with
    | obj inner => exact absurd rfl (hobject inner)
    | null | bool _ | int _ | real _ | str _ | arr _ => rfl

end Field

/-! ### When picking succeeds -/

mutual
/-- An object has what a selection picks: a value that is not null under the key of the field, and
if the field has selections, an object that has what they pick. -/
def Selection.Readable (nested : Bool) (fields : Keyed Json) : Selection → Prop
  | .field alias? name _ _ none => isPicked nested name = true →
    ∃ v, Keyed.get? fields (responseKey alias? name) = some v ∧ v ≠ .null
  | .field alias? name _ _ (some selections) => isPicked nested name = true →
    ∃ inner, Keyed.get? fields (responseKey alias? name) = some (.obj inner)
      ∧ AllReadable inner selections
  | .spread .. => True
  | .inline .. => True
/-- An object has what selections below the top level pick. -/
def AllReadable (fields : Keyed Json) : List Selection → Prop
  | [] => True
  | s :: ss => s.Readable true fields ∧ AllReadable fields ss
end

variable {nested : Bool} {fields : Keyed Json} {s : Selection} {ss : List Selection}

lemma allReadable_iff : AllReadable fields ss ↔ ∀ s ∈ ss, s.Readable true fields := by
  induction ss with
  | nil => simp [AllReadable]
  | cons s ss ih => rw [AllReadable, ih, List.forall_mem_cons]

lemma exists_pickEach_iff : (∃ picked, pickEach nested fields ss = .ok picked)
    ↔ ∀ s ∈ ss, ∃ picked?, pickOne nested fields s = .ok picked? := by
  refine ⟨fun h => ?_, exists_pickEach⟩
  induction ss with
  | nil => simp
  | cons s ss ih =>
      obtain ⟨picked, h⟩ := h
      obtain ⟨first?, hfirst, h⟩ := bind_eq_ok.mp h
      obtain ⟨rest, hrest, -⟩ := bind_eq_ok.mp h
      exact List.forall_mem_cons.mpr ⟨⟨first?, hfirst⟩, ih ⟨rest, hrest⟩⟩

/-- Picking succeeds exactly with objects that have all that is picked. -/
theorem exists_pickOne_iff :
    (∃ picked?, pickOne nested fields s = .ok picked?) ↔ s.Readable nested fields := by
  induction s using Selection.induct generalizing nested fields with
  | leaf alias? name arguments directives =>
      rw [Selection.Readable]
      cases fieldValue nested fields (responseKey alias? name) name with
      | skipped h => exact iff_of_true ⟨_, pickOne_skipped h⟩ fun h' => by simp [h] at h'
      | missing h hvalue =>
          refine iff_of_false ?_ fun hread => ?_
          · simp [pickOne_missing h hvalue]
          · obtain ⟨v, hv, hnull⟩ := hread h
            exact hnull (by rwa [hv] at hvalue)
      | present h v hvalue hnull =>
          exact iff_of_true ⟨_, pickOne_leaf h hvalue hnull⟩ fun _ => ⟨v, hvalue, hnull⟩
  | composite alias? name arguments directives ss ih =>
      rw [Selection.Readable]
      cases fieldValue nested fields (responseKey alias? name) name with
      | skipped h => exact iff_of_true ⟨_, pickOne_skipped h⟩ fun h' => by simp [h] at h'
      | missing h hvalue =>
          refine iff_of_false ?_ fun hread => ?_
          · simp [pickOne_missing h hvalue]
          · obtain ⟨inner, hinner, -⟩ := hread h
            simp [hinner] at hvalue
      | present h v hvalue hnull =>
          by_cases hobject : ∃ inner, v = .obj inner
          · obtain ⟨inner, rfl⟩ := hobject
            have hall : (∃ picked, pickEach true inner ss = .ok picked) ↔ AllReadable inner ss := by
              rw [exists_pickEach_iff, allReadable_iff]
              exact forall₂_congr fun s hs => ih s hs
            rw [pickOne_object h hvalue]
            constructor
            · rintro ⟨picked?, hpicked⟩ -
              obtain ⟨picked, hpicked, -⟩ := bind_eq_ok.mp hpicked
              exact ⟨inner, hvalue, hall.mp ⟨picked, hpicked⟩⟩
            · intro hread
              obtain ⟨inner', hinner, hread⟩ := hread h
              cases hvalue.symm.trans hinner
              obtain ⟨picked, hpicked⟩ := hall.mpr hread
              exact ⟨_, bind_eq_ok.mpr ⟨picked, hpicked, rfl⟩⟩
          · have hplain : ∀ inner, v ≠ .obj inner := fun inner heq => hobject ⟨inner, heq⟩
            refine iff_of_false ?_ fun hread => ?_
            · simp [pickOne_notAnObject h hvalue hnull hplain]
            · obtain ⟨inner, hinner, -⟩ := hread h
              exact hplain inner (Option.some.inj (hvalue.symm.trans hinner))
  | spread fragment directives | inline condition? directives ss =>
      exact iff_of_true ⟨none, rfl⟩ (by rw [Selection.Readable]; trivial)

/-! ### What is picked -/

/-- The picked values as a tree: each field that is picked gives its name, with the value under its
key, or an object of what its selections pick out of that value. -/
inductive Picks : Bool → Keyed Json → List Selection → Keyed Json → Prop where
  | nil {nested : Bool} {fields : Keyed Json} : Picks nested fields [] []
  | other {nested : Bool} {fields picked : Keyed Json} {s : Selection} {ss : List Selection}
      (hs : s.fieldName? = none) (hrest : Picks nested fields ss picked) :
      Picks nested fields (s :: ss) picked
  | skipped {nested : Bool} {fields picked : Keyed Json} {alias? : Option String} {name : String}
      {arguments : List Argument} {directives : List Directive}
      {selections? : Option (List Selection)} {ss : List Selection}
      (h : isPicked nested name = false) (hrest : Picks nested fields ss picked) :
      Picks nested fields (.field alias? name arguments directives selections? :: ss) picked
  | leaf {nested : Bool} {fields picked : Keyed Json} {alias? : Option String} {name : String}
      {arguments : List Argument} {directives : List Directive} {ss : List Selection} {v : Json}
      (h : isPicked nested name = true)
      (hvalue : Keyed.get? fields (responseKey alias? name) = some v)
      (hrest : Picks nested fields ss picked) :
      Picks nested fields (.field alias? name arguments directives none :: ss)
        ((name, v) :: picked)
  | composite {nested : Bool} {fields picked inner below : Keyed Json} {alias? : Option String}
      {name : String} {arguments : List Argument} {directives : List Directive}
      {selections ss : List Selection} (h : isPicked nested name = true)
      (hvalue : Keyed.get? fields (responseKey alias? name) = some (.obj inner))
      (hbelow : Picks true inner selections below) (hrest : Picks nested fields ss picked) :
      Picks nested fields (.field alias? name arguments directives (some selections) :: ss)
        ((name, .obj below) :: picked)

/-- The keys at the top of what is picked are the names of the fields that are picked, in order. -/
lemma Picks.keys_eq {picked : Keyed Json} (h : Picks nested fields ss picked) :
    Keyed.keys picked = (fieldNames ss).filter (isPicked nested) := by
  induction h with
  | nil => rfl
  | other hs _ ih => rw [fieldNames_cons_of_none hs, ih]
  | skipped h _ ih => rw [fieldNames_cons_field, List.filter_cons_of_neg (by simp [h]), ih]
  | leaf h _ _ ih =>
      rw [fieldNames_cons_field, List.filter_cons_of_pos h, ← ih]
      rfl
  | composite h _ _ _ _ ih =>
      rw [fieldNames_cons_field, List.filter_cons_of_pos h, ← ih]
      rfl

lemma Picks.nodup {picked : Keyed Json} (h : Picks nested fields ss picked)
    (hnames : DistinctNames ss) : (Keyed.keys picked).Nodup := by
  rw [h.keys_eq]
  exact hnames.nodup.filter _

/-- What a selection picks comes before what the ones after it pick. -/
lemma Picks.append {first rest : Keyed Json} (hfirst : Picks nested fields [s] first)
    (hrest : Picks nested fields ss rest) : Picks nested fields (s :: ss) (first ++ rest) := by
  cases hfirst with
  | other hs hnil => cases hnil; exact .other hs hrest
  | skipped h hnil => cases hnil; exact .skipped h hrest
  | leaf h hvalue hnil => cases hnil; exact .leaf h hvalue hrest
  | composite h hvalue hbelow hnil => cases hnil; exact .composite h hvalue hbelow hrest

/-- Selections pick the tree of what each of them picks. -/
lemma picks_of_pickEach {picked : List (String × Json)}
    (hss : ∀ s ∈ ss, ∀ picked?, pickOne nested fields s = .ok picked? →
      Picks nested fields [s] picked?.toList)
    (h : pickEach nested fields ss = .ok picked) : Picks nested fields ss picked := by
  induction ss generalizing picked with
  | nil =>
      obtain rfl : [] = picked := Except.ok.inj h
      exact .nil
  | cons s ss ih =>
      obtain ⟨first?, hfirst, h⟩ := bind_eq_ok.mp h
      obtain ⟨rest, hrest, h⟩ := bind_eq_ok.mp h
      obtain rfl : first?.toList ++ rest = picked := Except.ok.inj h
      rw [List.forall_mem_cons] at hss
      exact (hss.1 first? hfirst).append (ih hss.2 hrest)

/-- A selection whose fields have distinct names picks the tree of these names. -/
theorem picks_of_pickOne {picked? : Option (String × Json)} (hnames : DistinctNames [s])
    (h : pickOne nested fields s = .ok picked?) : Picks nested fields [s] picked?.toList := by
  induction s using Selection.induct generalizing nested fields picked? with
  | leaf alias? name arguments directives =>
      cases fieldValue nested fields (responseKey alias? name) name with
      | skipped hskip =>
          cases (pickOne_skipped hskip).symm.trans h
          exact .skipped hskip .nil
      | missing hpicked hvalue => cases (pickOne_missing hpicked hvalue).symm.trans h
      | present hpicked v hvalue hnull =>
          cases (pickOne_leaf hpicked hvalue hnull).symm.trans h
          exact .leaf hpicked hvalue .nil
  | composite alias? name arguments directives ss ih =>
      cases fieldValue nested fields (responseKey alias? name) name with
      | skipped hskip =>
          cases (pickOne_skipped hskip).symm.trans h
          exact .skipped hskip .nil
      | missing hpicked hvalue => cases (pickOne_missing hpicked hvalue).symm.trans h
      | present hpicked v hvalue hnull =>
          by_cases hobject : ∃ inner, v = .obj inner
          · obtain ⟨inner, rfl⟩ := hobject
            rw [pickOne_object hpicked hvalue] at h
            obtain ⟨below, hbelow, h⟩ := bind_eq_ok.mp h
            obtain rfl : some (name, .obj (Keyed.ofPairs below)) = picked? := Except.ok.inj h
            have hinside : DistinctNames ss := hnames.inside (List.mem_singleton_self _)
            have htree : Picks true inner ss below :=
              picks_of_pickEach (fun s hs _ h => ih s hs (hinside.of_mem hs) h) hbelow
            rw [Keyed.ofPairs_of_nodup (htree.nodup hinside)]
            exact .composite hpicked hvalue htree .nil
          · have hplain : ∀ inner, v ≠ .obj inner := fun inner heq => hobject ⟨inner, heq⟩
            cases (pickOne_notAnObject hpicked hvalue hnull hplain).symm.trans h
  | spread fragment directives =>
      cases h
      exact .other rfl .nil
  | inline condition? directives ss =>
      cases h
      exact .other rfl .nil

/-! ### Objects in what is picked -/

/-- An object in what selections pick: all of it, or one below a field that has selections. -/
inductive LevelOf : List Selection → Keyed Json → Keyed Json → Prop where
  | top {ss : List Selection} {values : Keyed Json} : LevelOf ss values values
  | inside {ss selections : List Selection} {values inner level : Keyed Json}
      {alias? : Option String} {name : String} {arguments : List Argument}
      {directives : List Directive}
      (hs : .field alias? name arguments directives (some selections) ∈ ss)
      (hvalue : Keyed.get? values name = some (.obj inner)) (h : LevelOf selections inner level) :
      LevelOf ss values level

/-- What stands under the name of a field with selections has been picked by these. -/
lemma Picks.exists_of_mem {picked : Keyed Json} {selections : List Selection}
    {alias? : Option String} {name : String} {arguments : List Argument}
    {directives : List Directive} {v : Json} (h : Picks nested fields ss picked)
    (hnames : (fieldNames ss).Nodup)
    (hs : .field alias? name arguments directives (some selections) ∈ ss)
    (hv : (name, v) ∈ picked) :
    ∃ inner below, v = .obj below ∧ Picks true inner selections below := by
  -- no other field has the name
  have hother {nested : Bool} {fields picked : Keyed Json} {ss : List Selection} {v : Json}
      (h : Picks nested fields ss picked) (hv : (name, v) ∈ picked) : name ∈ fieldNames ss := by
    have hkey : name ∈ Keyed.keys picked := List.mem_map_of_mem hv
    rw [h.keys_eq] at hkey
    exact (List.mem_filter.mp hkey).1
  have hfield {ss : List Selection}
      (hs : .field alias? name arguments directives (some selections) ∈ ss) :
      name ∈ fieldNames ss :=
    mem_fieldNames.mpr ⟨_, _, _, _, hs⟩
  induction h with
  | nil => cases hs
  | other hnone hrest ih =>
      rw [fieldNames_cons_of_none hnone] at hnames
      rcases List.mem_cons.mp hs with rfl | hs
      · cases hnone
      · exact ih hnames hs hv
  | skipped hskip hrest ih =>
      rw [fieldNames_cons_field, List.nodup_cons] at hnames
      rcases List.mem_cons.mp hs with heq | hs
      · cases heq
        exact absurd (hother hrest hv) hnames.1
      · exact ih hnames.2 hs hv
  | leaf hpicked hvalue hrest ih =>
      rw [fieldNames_cons_field, List.nodup_cons] at hnames
      rcases List.mem_cons.mp hs with heq | hs'
      · cases heq
      · rcases List.mem_cons.mp hv with heq | hv
        · cases heq
          exact absurd (hfield hs') hnames.1
        · exact ih hnames.2 hs' hv
  | composite hpicked hvalue hbelow hrest _ ih =>
      rw [fieldNames_cons_field, List.nodup_cons] at hnames
      rcases List.mem_cons.mp hs with heq | hs'
      · cases heq
        rcases List.mem_cons.mp hv with heq | hv
        · cases heq
          exact ⟨_, _, rfl, hbelow⟩
        · exact absurd (hother hrest hv) hnames.1
      · rcases List.mem_cons.mp hv with heq | hv
        · cases heq
          exact absurd (hfield hs') hnames.1
        · exact ih hnames.2 hs' hv

/-- Below the top no object that is picked has a type name. -/
theorem not_mem_keys_of_levelOf {picked level : Keyed Json} (hnames : DistinctNames ss)
    (h : Picks true fields ss picked) (hlevel : LevelOf ss picked level) :
    "__typename" ∉ Keyed.keys level := by
  induction hlevel generalizing fields with
  | top =>
      rw [h.keys_eq, List.mem_filter]
      exact fun hmem => Bool.false_ne_true hmem.2
  | inside hs hvalue _ ih =>
      obtain ⟨inner, below, heq, hpicks⟩ :=
        h.exists_of_mem hnames.nodup hs (Keyed.mem_of_get? hvalue)
      cases heq
      exact ih (hnames.inside hs) hpicks

/-- As variables, what is picked has a type name nowhere. -/
lemma not_mem_keys_of_levelOf_nodeVariables {picked level : Keyed Json}
    (hnames : DistinctNames ss) (h : Picks nested fields ss picked)
    (hlevel : LevelOf ss (nodeVariables picked) level) : "__typename" ∉ Keyed.keys level := by
  cases hlevel with
  | top =>
      intro hmem
      obtain ⟨p, hp, hname⟩ := List.mem_map.mp hmem
      simp [nodeVariables, hname] at hp
  | inside hs hvalue hbelow =>
      have hmem := (List.mem_filter.mp (Keyed.mem_of_get? hvalue)).1
      obtain ⟨inner, below, heq, hpicks⟩ := h.exists_of_mem hnames.nodup hs hmem
      cases heq
      exact not_mem_keys_of_levelOf (hnames.inside hs) hpicks hbelow

/-! ### Where picking fails -/

/-- A field fails at a place inside a selection: the object has nothing for it, or not an object
though it has selections. Places that come first in depth-first order are the smaller lists. -/
inductive Selection.FailsAt : Bool → Keyed Json → Selection → List Nat → NodeFault → Prop where
  | missing {nested : Bool} {fields : Keyed Json} {alias? : Option String} {name : String}
      {arguments : List Argument} {directives : List Directive}
      {selections? : Option (List Selection)} (h : isPicked nested name = true)
      (hvalue : (Keyed.get? fields (responseKey alias? name)).getD .null = .null) :
      FailsAt nested fields (.field alias? name arguments directives selections?) []
        (.missingValue (responseKey alias? name) (Keyed.keys fields))
  | notAnObject {nested : Bool} {fields : Keyed Json} {alias? : Option String} {name : String}
      {arguments : List Argument} {directives : List Directive} {selections : List Selection}
      {v : Json} (h : isPicked nested name = true)
      (hvalue : Keyed.get? fields (responseKey alias? name) = some v) (hnull : v ≠ .null)
      (hobject : ∀ inner, v ≠ .obj inner) :
      FailsAt nested fields (.field alias? name arguments directives (some selections)) []
        (.notAnObject v)
  | inside {nested : Bool} {fields inner : Keyed Json} {alias? : Option String} {name : String}
      {arguments : List Argument} {directives : List Directive} {selections : List Selection}
      {i : Nat} {s : Selection} {place : List Nat} {fault : NodeFault}
      (h : isPicked nested name = true)
      (hvalue : Keyed.get? fields (responseKey alias? name) = some (.obj inner))
      (hs : selections[i]? = some s) (hfails : FailsAt true inner s place fault) :
      FailsAt nested fields (.field alias? name arguments directives (some selections))
        (i :: place) fault

/-- A field fails at a place inside selections. -/
def FailIn (nested : Bool) (fields : Keyed Json) (ss : List Selection) (place : List Nat)
    (fault : NodeFault) : Prop :=
  ∃ i s rest, place = i :: rest ∧ ss[i]? = some s ∧ s.FailsAt nested fields rest fault

/-- What stands at a place before which nothing stands. -/
def FirstAt {α : Type} (stands : List Nat → α → Prop) (place : List Nat) (x : α) : Prop :=
  stands place x ∧ ∀ place' x', stands place' x' → ¬ place' < place

/-- An outcome reports the first of the faults that stand at places: it is a success exactly if
there are none. -/
def ReportsFirst {α : Type} (stands : List Nat → NodeFault → Prop) : Except NodeFault α → Prop
  | .ok _ => ∀ place fault, ¬ stands place fault
  | .error fault => ∃ place, FirstAt stands place fault

lemma reportsFirst_pickEach
    (h : ∀ s ∈ ss, ReportsFirst (s.FailsAt nested fields) (pickOne nested fields s)) :
    ReportsFirst (FailIn nested fields ss) (pickEach nested fields ss) := by
  induction ss with
  | nil =>
      rintro place fault ⟨i, s, rest, -, hs, -⟩
      cases hs
  | cons s ss ih =>
      obtain ⟨hs, hss⟩ := List.forall_mem_cons.mp h
      specialize ih hss
      rw [pickEach]
      cases hfirst : pickOne nested fields s with
      | error fault =>
          -- the first selection fails, so what fails in the others comes later
          rw [hfirst] at hs
          obtain ⟨place, hstands, hmin⟩ := hs
          refine ⟨0 :: place, ⟨0, s, place, rfl, rfl, hstands⟩, ?_⟩
          rintro _ fault' ⟨i, s', rest, rfl, hs', hfails⟩
          cases i with
          | zero =>
              cases hs'
              simpa [List.cons_lt_cons_iff] using hmin rest fault' hfails
          | succ i => simp [List.cons_lt_cons_iff]
      | ok first? =>
          rw [hfirst] at hs
          have hnone {place : List Nat} {fault : NodeFault}
              (hfails : FailIn nested fields (s :: ss) place fault) :
              ∃ i rest, place = (i + 1) :: rest ∧ FailIn nested fields ss (i :: rest) fault := by
            obtain ⟨i, s', rest, rfl, hs', hfails⟩ := hfails
            cases i with
            | zero =>
                cases hs'
                exact absurd hfails (hs rest fault)
            | succ i => exact ⟨i, rest, rfl, i, s', rest, rfl, hs', hfails⟩
          cases hrest : pickEach nested fields ss with
          | error fault =>
              rw [hrest] at ih
              obtain ⟨_, ⟨i, s', rest, rfl, hs', hfails⟩, hmin⟩ := ih
              refine ⟨(i + 1) :: rest, ⟨i + 1, s', rest, rfl, hs', hfails⟩, ?_⟩
              intro place' fault' hother
              obtain ⟨j, rest', rfl, hlater⟩ := hnone hother
              simpa [List.cons_lt_cons_iff] using hmin _ _ hlater
          | ok rest =>
              rw [hrest] at ih
              intro place fault hfails
              obtain ⟨i, rest', -, hfails⟩ := hnone hfails
              exact ih _ _ hfails

/-- Picking reports the first field that fails, in depth-first order. -/
theorem reportsFirst_pickOne :
    ReportsFirst (s.FailsAt nested fields) (pickOne nested fields s) := by
  induction s using Selection.induct generalizing nested fields with
  | leaf alias? name arguments directives =>
      cases fieldValue nested fields (responseKey alias? name) name with
      | skipped hskip =>
          rw [pickOne_skipped hskip]
          intro place fault hfails
          cases hfails with
          | missing h _ => simp [hskip] at h
      | missing hpicked hvalue =>
          rw [pickOne_missing hpicked hvalue]
          exact ⟨[], .missing hpicked hvalue, fun place' _ _ => List.not_lt_nil place'⟩
      | present hpicked v hvalue hnull =>
          rw [pickOne_leaf hpicked hvalue hnull]
          intro place fault hfails
          cases hfails with
          | missing _ hmissing => exact hnull (by rwa [hvalue] at hmissing)
  | composite alias? name arguments directives ss ih =>
      cases fieldValue nested fields (responseKey alias? name) name with
      | skipped hskip =>
          rw [pickOne_skipped hskip]
          intro place fault hfails
          cases hfails with
          | missing h _ | notAnObject h _ _ _ | inside h _ _ _ => simp [hskip] at h
      | missing hpicked hvalue =>
          rw [pickOne_missing hpicked hvalue]
          exact ⟨[], .missing hpicked hvalue, fun place' _ _ => List.not_lt_nil place'⟩
      | present hpicked v hvalue hnull =>
          by_cases hobject : ∃ inner, v = .obj inner
          · obtain ⟨inner, rfl⟩ := hobject
            have hinside {place : List Nat} {fault : NodeFault}
                (hfails : Selection.FailsAt nested fields
                  (.field alias? name arguments directives (some ss)) place fault) :
                FailIn true inner ss place fault := by
              cases hfails with
              | missing _ hmissing => simp [hvalue] at hmissing
              | notAnObject _ hvalue' _ hplain =>
                  exact absurd (Option.some.inj (hvalue'.symm.trans hvalue)) (hplain inner)
              | inside _ hvalue' hs hfails =>
                  cases hvalue.symm.trans hvalue'
                  exact ⟨_, _, _, rfl, hs, hfails⟩
            have hall : ReportsFirst (FailIn true inner ss) (pickEach true inner ss) :=
              reportsFirst_pickEach fun s hs => ih s hs
            rw [pickOne_object hpicked hvalue]
            cases hpicks : pickEach true inner ss with
            | error fault =>
                rw [hpicks] at hall
                obtain ⟨_, ⟨i, s, rest, rfl, hs, hfails⟩, hmin⟩ := hall
                exact ⟨i :: rest, .inside hpicked hvalue hs hfails,
                  fun place' fault' h => hmin place' fault' (hinside h)⟩
            | ok picked =>
                rw [hpicks] at hall
                exact fun place fault hfails => hall place fault (hinside hfails)
          · have hplain : ∀ inner, v ≠ .obj inner := fun inner heq => hobject ⟨inner, heq⟩
            rw [pickOne_notAnObject hpicked hvalue hnull hplain]
            exact ⟨[], .notAnObject hpicked hvalue hnull hplain,
              fun place' _ _ => List.not_lt_nil place'⟩
  | spread fragment directives =>
      intro place fault hfails
      cases hfails
  | inline condition? directives ss =>
      intro place fault hfails
      cases hfails

/-! ### ID fragments -/

/-- An ID fragment fails on a value at a place: the value is no object, or a field fails. -/
inductive Fragment.FailsAt (f : Fragment) : Json → List Nat → NodeFault → Prop where
  | notAnObject {node : Json} (hobject : ∀ fields, node ≠ .obj fields) :
      f.FailsAt node [] (.notAnObject node)
  | inside {fields : Keyed Json} {place : List Nat} {fault : NodeFault}
      (h : FailIn false fields f.selections place fault) : f.FailsAt (.obj fields) place fault

/-- An object is identified by what its fields pick. -/
lemma Fragment.pickId_obj_eq_ok {f : Fragment} {picked : Keyed Json} :
    f.pickId (.obj fields) = .ok picked
      ↔ ∃ pairs, pickEach false fields f.selections = .ok pairs ∧ Keyed.ofPairs pairs = picked := by
  rw [pickId]
  cases pickEach false fields f.selections with
  | error fault => simp [Functor.map, Except.map]
  | ok pairs => simp [Functor.map, Except.map]

lemma Fragment.reportsFirst_pickId (f : Fragment) (node : Json) :
    ReportsFirst (f.FailsAt node) (f.pickId node) := by
  cases node with
  | obj fields =>
      have hinside {place : List Nat} {fault : NodeFault}
          (hfails : f.FailsAt (.obj fields) place fault) :
          FailIn false fields f.selections place fault := by
        cases hfails with
        | notAnObject hobject => exact absurd rfl (hobject fields)
        | inside h => exact h
      have hall : ReportsFirst (FailIn false fields f.selections)
          (pickEach false fields f.selections) :=
        reportsFirst_pickEach fun _ _ => reportsFirst_pickOne
      rw [pickId]
      cases hpicks : pickEach false fields f.selections with
      | error fault =>
          rw [hpicks] at hall
          obtain ⟨place, hfails, hmin⟩ := hall
          exact ⟨place, .inside hfails, fun place' fault' h => hmin place' fault' (hinside h)⟩
      | ok pairs =>
          rw [hpicks] at hall
          exact fun place fault hfails => hall place fault (hinside hfails)
  | null | bool _ | int _ | real _ | str _ | arr _ =>
      exact ⟨[], .notAnObject (by simp), fun place' _ _ => List.not_lt_nil place'⟩

/-- **What identifies a value.** Picking by an ID fragment with distinct names succeeds exactly with
objects that have all that its fields pick, at every level. Then it gives the tree of the names of
these fields, in their order, with the values under their keys; and of this tree no object is left
with a type name when it is used as variables. Otherwise the value is no object, or the fault is
that of the first field that fails in depth-first order. -/
theorem Fragment.pickId_exact (f : Fragment) (hnames : DistinctNames f.selections) (node : Json) :
    ((∃ picked, f.pickId node = .ok picked)
        ↔ ∃ fields, node = .obj fields ∧ ∀ s ∈ f.selections, s.Readable false fields)
      ∧ (∀ picked, f.pickId node = .ok picked →
        (∃ fields, node = .obj fields ∧ Picks false fields f.selections picked)
          ∧ ∀ level, LevelOf f.selections (nodeVariables picked) level →
            "__typename" ∉ Keyed.keys level)
      ∧ ∀ fault, f.pickId node = .error fault → ∃ place, FirstAt (f.FailsAt node) place fault := by
  have hobject {picked : Keyed Json} (h : f.pickId node = .ok picked) :
      ∃ fields, node = .obj fields := by
    cases node with
    | obj fields => exact ⟨fields, rfl⟩
    | null | bool _ | int _ | real _ | str _ | arr _ => cases h
  refine ⟨⟨?_, ?_⟩, fun picked h => ?_, fun fault h => ?_⟩
  · rintro ⟨picked, h⟩
    obtain ⟨fields, rfl⟩ := hobject h
    obtain ⟨pairs, hpairs, -⟩ := pickId_obj_eq_ok.mp h
    have hall := exists_pickEach_iff.mp ⟨pairs, hpairs⟩
    exact ⟨fields, rfl, fun s hs => exists_pickOne_iff.mp (hall s hs)⟩
  · rintro ⟨fields, rfl, hread⟩
    obtain ⟨pairs, hpairs⟩ := exists_pickEach fun s hs => exists_pickOne_iff.mpr (hread s hs)
    exact ⟨_, pickId_obj_eq_ok.mpr ⟨pairs, hpairs, rfl⟩⟩
  · obtain ⟨fields, rfl⟩ := hobject h
    obtain ⟨pairs, hpairs, rfl⟩ := pickId_obj_eq_ok.mp h
    have htree : Picks false fields f.selections pairs :=
      picks_of_pickEach (fun s hs _ hone => picks_of_pickOne (hnames.of_mem hs) hone) hpairs
    rw [Keyed.ofPairs_of_nodup (htree.nodup hnames)]
    exact ⟨⟨fields, rfl, htree⟩, fun level => not_mem_keys_of_levelOf_nodeVariables hnames htree⟩
  · have hreports := f.reportsFirst_pickId node
    rwa [h] at hreports

/-- An ID fragment with an owner inside. -/
def ownedFragment : Fragment where
  name := "FooId"
  condition := "Foo"
  selections := [.field (some "remoteTypeName") "__typename" [] [] none,
    .field (some "remoteId") "id" [] [] none,
    .plain "owner" (some [.plain "__typename", .plain "login"])]

/-- A node with an ID and an owner. -/
def ownedNode (id : Json) (owner : Keyed Json) : Json :=
  .obj [("remoteTypeName", .str "Foo"), ("remoteId", id), ("owner", .obj owner)]

/-- Zero and an empty text identify a node; of two missing values the first one is told. -/
theorem Fragment.pickId_exact_owned :
    DistinctNames ownedFragment.selections
      ∧ (∃ fields, ownedNode (.int 0) [("login", .str "")] = .obj fields
        ∧ Picks false fields ownedFragment.selections
          [("__typename", .str "Foo"), ("id", .int 0), ("owner", .obj [("login", .str "")])])
      ∧ (∀ level, LevelOf ownedFragment.selections
          [("id", .int 0), ("owner", .obj [("login", .str "")])] level →
        "__typename" ∉ Keyed.keys level)
      ∧ ∃ place, FirstAt (ownedFragment.FailsAt (ownedNode .null [])) place
        (.missingValue "remoteId" ["remoteTypeName", "remoteId", "owner"]) := by
  have hnames : DistinctNames ownedFragment.selections := by decide
  obtain ⟨-, hpicks, -⟩ :=
    Fragment.pickId_exact ownedFragment hnames (ownedNode (.int 0) [("login", .str "")])
  obtain ⟨-, -, hfails⟩ := Fragment.pickId_exact ownedFragment hnames (ownedNode .null [])
  obtain ⟨htree, hlevels⟩ := hpicks
    [("__typename", .str "Foo"), ("id", .int 0), ("owner", .obj [("login", .str "")])] rfl
  exact ⟨hnames, htree, hlevels, hfails _ rfl⟩

end RemoteNodes
