import RemoteNodes.Document.Alias
import RemoteNodes.Node.Reference
/-!
Inlining of type fragments. Each spread gives way to an inline fragment with what the fragment
selects, until another node type is met, which gives its reference fields, or a cycle, which is
cut by a single `__typename` field.

* `Inlining.find?`: the fragment that stands for a name: a reference fragment or a type fragment.
* `Inlining.inline`, `Inlining.inlineAll`: the inlining. It ends because each spread that is
  inlined takes a name that is not open yet.
-/

namespace RemoteNodes

/-- What inlining depends on. -/
structure Inlining where
  fragments : Keyed Fragment
  references : References
  aliases : Aliases

namespace Inlining

/-- The fragment that stands for a name. -/
def find? (x : Inlining) (name : String) : Option Fragment :=
  match Keyed.get? x.references name with
  | some f => some f
  | none => Keyed.get? x.fragments name

/-- All names with a fragment. -/
def names (x : Inlining) : List String := Keyed.keys x.references ++ Keyed.keys x.fragments

/-- How many names with a fragment are not open. -/
def unopened (x : Inlining) (stack : List String) : Nat :=
  (x.names.filter (!stack.contains ·)).length

theorem mem_names_of_find? {x : Inlining} {name : String} {f : Fragment}
    (h : x.find? name = some f) : name ∈ x.names := by
  unfold find? at h
  rw [names, List.mem_append]
  split at h
  · next hr => exact .inl (Keyed.mem_keys_of_get? hr)
  · exact .inr (Keyed.mem_keys_of_get? h)

theorem length_filter_lt {α : Type} {p q : α → Bool} (l : List α) (hpq : ∀ a, p a → q a) {a : α}
    (ha : a ∈ l) (hp : p a = false) (hq : q a = true) :
    (l.filter p).length < (l.filter q).length := by
  have mono : ∀ l : List α, (l.filter p).length ≤ (l.filter q).length := fun l => by
    induction l with
    | nil => simp
    | cons b l ih =>
      by_cases hb : p b = true
      · simp [hb, hpq b hb]; exact ih
      · by_cases hb' : q b = true <;> simp [hb, hb'] <;> omega
  induction l with
  | nil => simp at ha
  | cons b l ih =>
    rcases List.mem_cons.1 ha with rfl | ha
    · simp only [List.filter_cons, hp, hq, if_true, List.length_cons, Bool.false_eq_true, if_false]
      have := mono l
      omega
    · have := ih ha
      by_cases hb : p b = true
      · simp [hb, hpq b hb]; exact this
      · by_cases hb' : q b = true <;> simp [hb, hb'] <;> omega

theorem unopened_cons_lt {x : Inlining} {name : String} {stack : List String} {f : Fragment}
    (hs : ¬stack.contains name = true) (h : x.find? name = some f) :
    x.unopened (name :: stack) < x.unopened stack := by
  refine length_filter_lt _ (fun a ha => ?_) (mem_names_of_find? h) (by simp) (by simpa using hs)
  simp only [List.contains_cons, Bool.not_or, Bool.and_eq_true] at ha
  exact ha.2

/-- The field that cuts a cycle. -/
def cut (x : Inlining) : Selection :=
  .field (x.aliases.alias? "__typename") "__typename" [] [] none

mutual
/-- A selection without spreads; `stack` holds the names of the fragments that are open around it.
-/
def inline (x : Inlining) (stack : List String) : Selection → Except Fault Selection
  | .field alias? name arguments directives none =>
    .ok (.field alias? name arguments directives none)
  | .field alias? name arguments directives (some selections) =>
    (x.inlineAll stack selections).map fun ss => .field alias? name arguments directives (some ss)
  | .inline condition? directives selections =>
    (x.inlineAll stack selections).map fun ss => .inline condition? directives ss
  | .spread name _ =>
    if _hs : stack.contains name then .ok x.cut
    else
      match _h : x.find? name with
      | none => .error (.configuration (.noTypeFragment name))
      | some f => (x.inlineAll (name :: stack) f.selections).map (.inline (some name) [])
termination_by s => (x.unopened stack, 2 * s.size)
decreasing_by
  · exact .right _ (by simp only [Selection.size]; omega)
  · exact .right _ (by simp only [Selection.size]; omega)
  · exact .left _ _ (unopened_cons_lt _hs _h)
/-- Selections without spreads. -/
def inlineAll (x : Inlining) (stack : List String) :
    List Selection → Except Fault (List Selection)
  | [] => .ok []
  | s :: ss =>
    match x.inline stack s with
    | .error e => .error e
    | .ok s => (x.inlineAll stack ss).map (s :: ·)
termination_by ss => (x.unopened stack, 2 * Selection.sizeAll ss + 1)
decreasing_by
  · exact .right _ (by simp only [Selection.sizeAll]; omega)
  · have := s.size_pos
    exact .right _ (by simp only [Selection.sizeAll]; omega)
end

end Inlining

/-- A fragment with all spreads inlined. -/
def Fragment.inlined (f : Fragment) (x : Inlining) : Except Fault Fragment :=
  (x.inlineAll [] f.selections).map fun selections => { f with selections }

/-- A document with all spreads inlined. -/
def Document.inlined (document : Document) (x : Inlining) : Except Fault Document :=
  document.mapM fun
    | .operation o =>
      (x.inlineAll [] o.selections).map fun selections => .operation { o with selections }
    | .fragment f => (f.inlined x).map .fragment
    | definition => .ok definition

end RemoteNodes
