import Mathlib.Tactic
import RemoteNodes.Proofs.Selection.Rule
/-!
Selections as trees of field names.

* `fieldNames`: the names of the fields of a selection set; `DistinctNames`: at every level, no name
  comes twice.
* `FieldAt`: a field is found along names, from the top down; `HasPath`: some field is.
-/

namespace RemoteNodes

/-- The name of a field. -/
def Selection.fieldName? : Selection → Option String
  | .field _ name .. => some name
  | _ => none

/-- The names of the fields of a selection set, in order and as often as they are selected. -/
def fieldNames (ss : List Selection) : List String := ss.filterMap Selection.fieldName?

/-- No field is selected twice in a selection set, nor in one of those inside it. -/
def DistinctNames (ss : List Selection) : Prop :=
  ∀ set ∈ ss :: setsIn ss, (fieldNames set).Nodup

instance (ss : List Selection) : Decidable (DistinctNames ss) :=
  inferInstanceAs (Decidable (∀ set ∈ ss :: setsIn ss, (fieldNames set).Nodup))

/-- A field is found along names: under the last of them in selections that the field before it has.
It comes with its own selections, if it has any. -/
inductive FieldAt : List Selection → List String → Option (List Selection) → Prop where
  | here {ss : List Selection} {alias? : Option String} {name : String}
      {arguments : List Argument} {directives : List Directive}
      {selections? : Option (List Selection)}
      (h : .field alias? name arguments directives selections? ∈ ss) :
      FieldAt ss [name] selections?
  | inside {ss selections : List Selection} {alias? : Option String} {name : String}
      {arguments : List Argument} {directives : List Directive} {path : List String}
      {selections? : Option (List Selection)}
      (h : .field alias? name arguments directives (some selections) ∈ ss)
      (h' : FieldAt selections path selections?) : FieldAt ss (name :: path) selections?

/-- Some field is found along names. -/
def HasPath (ss : List Selection) (path : List String) : Prop :=
  ∃ selections?, FieldAt ss path selections?

variable {ss set selections : List Selection} {s : Selection} {alias? : Option String}
  {name : String} {arguments : List Argument} {directives : List Directive}
  {selections? : Option (List Selection)}

@[simp] lemma fieldNames_nil : fieldNames [] = [] := rfl

lemma fieldNames_cons_field :
    fieldNames (.field alias? name arguments directives selections? :: ss)
      = name :: fieldNames ss := rfl

lemma fieldNames_cons_of_none (h : s.fieldName? = none) : fieldNames (s :: ss) = fieldNames ss :=
  List.filterMap_cons_none h

lemma mem_fieldNames : name ∈ fieldNames ss ↔ ∃ alias? arguments directives selections?,
    .field alias? name arguments directives selections? ∈ ss := by
  rw [fieldNames, List.mem_filterMap]
  constructor
  · rintro ⟨s, hs, hname⟩
    cases s with
    | field alias? other arguments directives selections? =>
        obtain rfl := Option.some.inj hname
        exact ⟨alias?, arguments, directives, selections?, hs⟩
    | spread | inline => cases hname
  · rintro ⟨alias?, arguments, directives, selections?, hs⟩
    exact ⟨_, hs, rfl⟩

lemma DistinctNames.nodup (h : DistinctNames ss) : (fieldNames ss).Nodup :=
  h ss List.mem_cons_self

/-- What holds at every level holds at the levels below a field. -/
lemma DistinctNames.inside (h : DistinctNames ss)
    (hs : .field alias? name arguments directives (some selections) ∈ ss) :
    DistinctNames selections := by
  intro set hset
  refine h set (List.mem_cons_of_mem _ (mem_setsIn.mpr ⟨_, hs, ?_⟩))
  rwa [Selection.sets]

lemma DistinctNames.nil : DistinctNames [] := by
  intro set hset
  cases List.mem_singleton.mp hset
  exact List.nodup_nil

lemma distinctNames_iff : DistinctNames ss
    ↔ (fieldNames ss).Nodup ∧ ∀ s ∈ ss, ∀ set ∈ s.sets, (fieldNames set).Nodup := by
  simp only [DistinctNames, List.forall_mem_cons, mem_setsIn]
  exact and_congr_right fun _ =>
    ⟨fun h s hs set hset => h set ⟨s, hs, hset⟩, fun h set ⟨s, hs, hset⟩ => h s hs set hset⟩

/-- What holds at every level of a set holds inside each of its selections. -/
lemma DistinctNames.of_mem (h : DistinctNames ss) (hs : s ∈ ss) : DistinctNames [s] := by
  intro set hset
  rcases List.mem_cons.mp hset with rfl | hset
  · exact h.nodup.sublist ((List.singleton_sublist.mpr hs).filterMap _)
  · rw [setsIn, setsIn, List.append_nil] at hset
    exact h set (List.mem_cons_of_mem _ (mem_setsIn.mpr ⟨s, hs, hset⟩))

/-! ### Fields along names -/

lemma fieldAt_singleton : FieldAt ss [name] selections?
    ↔ ∃ alias? arguments directives,
      .field alias? name arguments directives selections? ∈ ss := by
  constructor
  · intro h
    cases h with
    | here h => exact ⟨_, _, _, h⟩
    | inside _ h' => cases h'
  · rintro ⟨_, _, _, h⟩
    exact .here h

lemma fieldAt_cons {path : List String} : FieldAt ss (name :: path) selections?
    ↔ (path = [] ∧ FieldAt ss [name] selections?)
      ∨ ∃ selections, FieldAt ss [name] (some selections)
        ∧ FieldAt selections path selections? := by
  constructor
  · intro h
    cases h with
    | here h => exact .inl ⟨rfl, .here h⟩
    | inside h h' => exact .inr ⟨_, .here h, h'⟩
  · rintro (⟨rfl, h⟩ | ⟨selections, h, h'⟩)
    · exact h
    · obtain ⟨_, _, _, h⟩ := fieldAt_singleton.mp h
      exact .inside h h'

/-- A field is found in a set in one of its selections. -/
lemma fieldAt_iff_exists_mem {path : List String} :
    FieldAt ss path selections? ↔ ∃ s ∈ ss, FieldAt [s] path selections? := by
  constructor
  · intro h
    cases h with
    | here h => exact ⟨_, h, .here (List.mem_singleton_self _)⟩
    | inside h h' => exact ⟨_, h, .inside (List.mem_singleton_self _) h'⟩
  · rintro ⟨s, hs, h⟩
    cases h with
    | here h => exact .here (List.mem_singleton.mp h ▸ hs)
    | inside h h' => exact .inside (List.mem_singleton.mp h ▸ hs) h'

end RemoteNodes
