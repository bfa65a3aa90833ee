import Mathlib.Tactic
import RemoteNodes.Json.Path
import RemoteNodes.Proofs.Keyed
/-!
Reading and writing at paths. A path is followed through objects and through the first items of
lists. What is written at a path is read there again if the keys before the last one lead to an
object; if they do not, nothing is written and the path leads to null.

* `Json.byHead`: induction along the first items of nested lists.
* `Json.holder?`: the object in which the last key of a path stands.
* `Json.atPath_setAt`: what is written is read again.
* `Json.setAt_eq_self`, `Json.atPath_of_holder?_eq_none`: without an object to write to.
* `Json.atPath_setAt_append`: a write further down a path is a write in the value at that path.
* `Json.Leads`: a path leads, through objects and first items only, to a value.
-/

namespace RemoteNodes

namespace Json

/-! ### Values without the lists around them -/

/-- Induction along the first items: a property holds of every value once it holds of what is no
list and of the empty list, and passes from a first item to its list. -/
@[elab_as_elim]
theorem byHead {P : Json → Prop} (plain : ∀ v : Json, (∀ items, v ≠ arr items) → P v)
    (empty : P (arr [])) (first : ∀ x xs, P x → P (arr (x :: xs))) (v : Json) : P v :=
  head.induct P (fun items => P (arr items)) (fun _ h => h) plain empty first v

@[simp] lemma head_null : null.head = null := rfl

@[simp] lemma head_obj (fields : Keyed Json) : (obj fields).head = obj fields := rfl

@[simp] lemma head_arr_nil : (arr []).head = null := rfl

@[simp] lemma head_arr_cons (x : Json) (xs : List Json) : (arr (x :: xs)).head = x.head := rfl

lemma head_of_ne_arr {v : Json} (hv : ∀ items, v ≠ arr items) : v.head = v := by
  cases v with
  | arr items => exact absurd rfl (hv items)
  | null | bool _ | int _ | real _ | str _ | obj _ => rfl

lemma head_ne_arr (v : Json) (items : List Json) : v.head ≠ arr items := by
  induction v using byHead with
  | plain v hv => rw [head_of_ne_arr hv]; exact hv items
  | empty => simp
  | first x xs ih => exact ih

@[simp] lemma head_head (v : Json) : v.head.head = v.head :=
  head_of_ne_arr (head_ne_arr v)

/-- A write passes the lists around a value. -/
lemma head_setAt (v : Json) (path : List String) (new : Json) :
    (v.setAt path new).head = v.head.setAt path new := by
  induction v using byHead with
  | plain v hv =>
      rw [head_of_ne_arr hv]
      cases v with
      | arr items => exact absurd rfl (hv items)
      | null | bool _ | int _ | real _ | str _ => rfl
      | obj fields => rcases path with _ | ⟨key, _ | ⟨next, keys⟩⟩ <;> rfl
  | empty => rfl
  | first x xs ih => simpa [setAt, setIn] using ih

/-- A write that does nothing inside the lists around a value does nothing. -/
lemma setAt_eq_self_of_head {v : Json} {path : List String} {new : Json}
    (h : v.head.setAt path new = v.head) : v.setAt path new = v := by
  induction v using byHead with
  | plain v hv => rwa [head_of_ne_arr hv] at h
  | empty => rfl
  | first x xs ih => simp [setAt, setIn, ih h]

/-! ### The fields of an object -/

/-- The fields of an object; other values have none. -/
def fields? : Json → Option (Keyed Json)
  | obj fields => some fields
  | _ => none

@[simp] lemma fields?_obj (fields : Keyed Json) : (obj fields).fields? = some fields := rfl

lemma fields?_eq_some {v : Json} {fields : Keyed Json} :
    v.fields? = some fields ↔ v = obj fields := by
  cases v <;> simp [fields?]

lemma field?_of_fields?_eq_none {v : Json} (h : v.fields? = none) (key : String) :
    v.field? key = none := by
  cases v with
  | obj fields => simp at h
  | null | bool _ | int _ | real _ | str _ | arr _ => rfl

/-- A value that is neither a list nor an object has no place to write to. -/
lemma setAt_of_fields?_eq_none {v : Json} (hv : ∀ items, v ≠ arr items) (h : v.fields? = none)
    (path : List String) (new : Json) : v.setAt path new = v := by
  cases v with
  | arr items => exact absurd rfl (hv items)
  | obj fields => simp at h
  | null | bool _ | int _ | real _ | str _ => rfl

@[simp] lemma setAt_nil (v new : Json) : v.setAt [] new = v := by
  refine setAt_eq_self_of_head ?_
  cases h : v.head with
  | arr items => exact absurd h (head_ne_arr v items)
  | null | bool _ | int _ | real _ | str _ | obj _ => rfl

/-- A write below a key changes the value of that key, in its place. -/
lemma get?_setUnder (fields : Keyed Json) (key : String) (keys : List String) (new : Json) :
    Keyed.get? (setUnder fields key keys new) key
      = (Keyed.get? fields key).map fun v => v.setAt keys new := by
  induction fields with
  | nil => simp [setUnder]
  | cons p fields ih =>
      obtain ⟨k, v⟩ := p
      by_cases hk : k = key
      · simp [setUnder, Keyed.get?, hk]
      · simp [setUnder, Keyed.get?, hk, ih]

lemma keys_setUnder (fields : Keyed Json) (key : String) (keys : List String) (new : Json) :
    Keyed.keys (setUnder fields key keys new) = Keyed.keys fields := by
  induction fields with
  | nil => simp [setUnder]
  | cons p fields ih =>
      obtain ⟨k, v⟩ := p
      simp only [Keyed.keys] at ih ⊢
      by_cases hk : k = key
      · simp [setUnder, hk]
      · simp [setUnder, hk, ih]

lemma setUnder_eq_self {fields : Keyed Json} {key : String} {keys : List String} {new : Json}
    (h : ∀ v, Keyed.get? fields key = some v → v.setAt keys new = v) :
    setUnder fields key keys new = fields := by
  induction fields with
  | nil => simp [setUnder]
  | cons p fields ih =>
      obtain ⟨k, v⟩ := p
      by_cases hk : k = key
      · simp [setUnder, hk, h v (by simp [Keyed.get?, hk])]
      · simp only [setUnder, hk, if_false]
        rw [ih fun v' hv' => h v' (by simpa [Keyed.get?, hk] using hv')]

/-! ### The object at the end of a path -/

/-- The object in which the last key of a path stands; none if the keys before it lead to no
object. -/
def holder? : List String → Json → Option (Keyed Json)
  | [], _ => none
  | [_], v => v.head.fields?
  | key :: next :: keys, v => holder? (next :: keys) ((v.head.field? key).getD null)

lemma atPath_cons (key : String) (keys : List String) (v : Json) :
    v.atPath (key :: keys) = ((v.head.field? key).getD null).atPath keys := rfl

/-- What stands below a key of a map is known from the value of the key. -/
lemma atPath_obj (fields : Keyed Json) (key : String) (keys : List String) :
    (obj fields).atPath (key :: keys) = ((Keyed.get? fields key).getD null).atPath keys := rfl

lemma atPath_cons_head (key : String) (keys : List String) (v : Json) :
    v.head.atPath (key :: keys) = v.atPath (key :: keys) := by
  rw [atPath_cons, head_head, ← atPath_cons]

@[simp] lemma holder?_null (path : List String) : null.holder? path = none := by
  induction path with
  | nil => rfl
  | cons key keys ih =>
      cases keys with
      | nil => rfl
      | cons next keys => simpa [holder?, field?] using ih

/-- Two keys and more go on in the value of the first. -/
lemma holder?_of_head {key next : String} {keys : List String} {v : Json} {fields : Keyed Json}
    (h : v.head = obj fields) :
    v.holder? (key :: next :: keys)
      = ((Keyed.get? fields key).getD null).holder? (next :: keys) := by
  rw [holder?, h]
  rfl

lemma setAt_of_head {key next : String} {keys : List String} {v new : Json} {fields : Keyed Json}
    (h : v.head = obj fields) :
    (v.setAt (key :: next :: keys) new).head = obj (setUnder fields key (next :: keys) new) := by
  rw [head_setAt, h]
  rfl

/-- What is written at a path is read there again. -/
theorem atPath_setAt {path : List String} {v : Json} {fields : Keyed Json}
    (h : v.holder? path = some fields) (new : Json) : (v.setAt path new).atPath path = new := by
  induction path generalizing v with
  | nil => simp [holder?] at h
  | cons key keys ih =>
      cases keys with
      | nil =>
          rw [← atPath_cons_head, head_setAt, fields?_eq_some.mp h]
          exact atPath_key_setAt key new fields
      | cons next keys =>
          cases hv : v.head.fields? with
          | none => simp [holder?, field?_of_fields?_eq_none hv] at h
          | some outer =>
              have hobj := fields?_eq_some.mp hv
              rw [holder?_of_head hobj] at h
              rw [atPath_cons, setAt_of_head hobj, field?, get?_setUnder]
              cases hx : Keyed.get? outer key with
              | none => simp [hx] at h
              | some x => exact ih (by simpa [hx] using h)

/-- Without an object to write to nothing changes. -/
theorem setAt_eq_self {path : List String} {v : Json} (h : v.holder? path = none) (new : Json) :
    v.setAt path new = v := by
  induction path generalizing v with
  | nil => exact setAt_nil v new
  | cons key keys ih =>
      refine setAt_eq_self_of_head ?_
      cases hv : v.head.fields? with
      | none => exact setAt_of_fields?_eq_none (head_ne_arr v) hv _ new
      | some fields =>
          have hobj := fields?_eq_some.mp hv
          cases keys with
          | nil => simp [holder?, hv] at h
          | cons next keys =>
              rw [holder?_of_head hobj] at h
              rw [hobj, setAt, setUnder_eq_self]
              · intro x hx
                exact ih (by simpa [hx] using h)
              · simp

/-- Without an object at its end a path leads to null. -/
theorem atPath_of_holder?_eq_none {path : List String} {v : Json} (hpath : path ≠ [])
    (h : v.holder? path = none) : v.atPath path = null := by
  induction path generalizing v with
  | nil => exact absurd rfl hpath
  | cons key keys ih =>
      rw [atPath_cons]
      cases keys with
      | nil => rw [field?_of_fields?_eq_none h]; rfl
      | cons next keys => exact ih (by simp) h

/-- A value that is not null stands in an object. -/
lemma exists_holder? {path : List String} {v : Json} (hpath : path ≠ [])
    (h : v.atPath path ≠ null) : ∃ fields, v.holder? path = some fields := by
  cases hf : v.holder? path with
  | none => exact absurd (atPath_of_holder?_eq_none hpath hf) h
  | some fields => exact ⟨fields, rfl⟩

/-- A write further down a path is a write in the value at that path. -/
theorem atPath_setAt_append (path : List String) {rest : List String} (hrest : rest ≠ [])
    (v new : Json) : (v.setAt (path ++ rest) new).atPath path = (v.atPath path).setAt rest new := by
  induction path generalizing v with
  | nil => rfl
  | cons key keys ih =>
      obtain ⟨next, below, hbelow⟩ : ∃ next below, keys ++ rest = next :: below :=
        List.exists_cons_of_ne_nil (by simp [hrest])
      rw [atPath_cons, atPath_cons, ← ih, List.cons_append, hbelow]
      cases hv : v.head.fields? with
      | none =>
          rw [head_setAt, setAt_of_fields?_eq_none (head_ne_arr v) hv,
            field?_of_fields?_eq_none hv]
          rfl
      | some fields =>
          have hobj := fields?_eq_some.mp hv
          rw [setAt_of_head hobj, hobj, field?, get?_setUnder, field?]
          cases Keyed.get? fields key <;> rfl

/-- A write in an object with distinct keys leaves such an object. -/
lemma exists_setAt_obj {fields : Keyed Json} (h : (Keyed.keys fields).Nodup) (path : List String)
    (new : Json) :
    ∃ fields', (obj fields).setAt path new = obj fields' ∧ (Keyed.keys fields').Nodup := by
  rcases path with _ | ⟨key, _ | ⟨next, keys⟩⟩
  · exact ⟨fields, rfl, h⟩
  · exact ⟨_, rfl, Keyed.nodup_put h key new⟩
  · refine ⟨_, rfl, ?_⟩
    rw [keys_setUnder]
    exact h

/-- A value in which a path leads to something counts as present. -/
lemma isTruthy_of_atPath {path : List String} {v : Json} (hpath : path ≠ [])
    (h : v.atPath path ≠ null) : v.isTruthy = true := by
  obtain ⟨key, keys, rfl⟩ := List.exists_cons_of_ne_nil hpath
  rw [atPath_cons] at h
  cases v with
  | obj fields =>
      cases fields with
      | nil => simp [field?] at h
      | cons p fields => rfl
  | arr items =>
      cases items with
      | nil => simp [field?] at h
      | cons x xs => rfl
  | null | bool _ | int _ | real _ | str _ => simp [head, field?] at h

/-! ### Paths that lead somewhere -/

/-- A path leads to a value: each of its keys is there, in an object or in the object that is the
first item of a list. -/
inductive Leads : List String → Json → Json → Prop where
  | here (v : Json) : Leads [] v v
  | key {fields : Keyed Json} {key : String} {keys : List String} {x v : Json}
      (h : Keyed.get? fields key = some x) (h' : Leads keys x v) :
      Leads (key :: keys) (obj fields) v
  | first {key : String} {keys : List String} {x v : Json} (xs : List Json)
      (h : Leads (key :: keys) x v) : Leads (key :: keys) (arr (x :: xs)) v

lemma Leads.atPath {path : List String} {data v : Json} (h : Leads path data v) :
    data.atPath path = v := by
  induction h with
  | here v => rfl
  | key h _ ih => simpa [atPath_cons, field?, h] using ih
  | first xs _ ih => rw [← ih, atPath_cons, atPath_cons, head_arr_cons]

lemma Leads.exists_holder? {path : List String} {data v : Json} (h : Leads path data v)
    (hpath : path ≠ []) : ∃ fields, data.holder? path = some fields := by
  induction h with
  | here v => exact absurd rfl hpath
  | @key fields key keys x v h h' ih =>
      cases keys with
      | nil => exact ⟨fields, rfl⟩
      | cons next keys =>
          obtain ⟨inner, hinner⟩ := ih (by simp)
          refine ⟨inner, ?_⟩
          rw [holder?_of_head rfl, h]
          exact hinner
  | @first key keys x v xs _ ih =>
      obtain ⟨fields, hfields⟩ := ih hpath
      refine ⟨fields, ?_⟩
      cases keys with
      | nil => exact hfields
      | cons next keys => exact hfields

end Json

end RemoteNodes
