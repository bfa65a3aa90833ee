import Mathlib.Tactic
import RemoteNodes.Proofs.Json.Paths
/-!
What a write at a path changes. Reading and writing follow the keys of a path on the same way, and
what stands beside that way is left as it is.

* `Json.Reaches`: following keys leads to a value, lists being opened at every step and at the end.
  `Json.holder?_eq_some_iff`: the object that the last key stands in is the one that the other keys
  reach.
* `Json.Frame`, `Json.fill`: a value with one place left open. `Json.Reaches.exists_frames`: the way
  to a value leaves everything but that value as a frame around it; `Json.setAt_fill`: a write goes
  through frames.
* `Keyed.Sets`: one map is another one with a key set.
* `Json.setAt_exact`: **what is written is read again, and changes one key of one object**; without
  such an object nothing is written and null is read.
-/

namespace RemoteNodes

/-- A map is another one with a key set: the other keys keep their values, and all keys their
places, a new one coming last. -/
structure Keyed.Sets {α : Type} (m : Keyed α) (key : String) (value : α) (m' : Keyed α) : Prop where
  value : Keyed.get? m' key = some value
  others : ∀ other, other ≠ key → Keyed.get? m' other = Keyed.get? m other
  keys : Keyed.keys m' = if key ∈ Keyed.keys m then Keyed.keys m else Keyed.keys m ++ [key]

lemma Keyed.sets_put {α : Type} (m : Keyed α) (key : String) (value : α) :
    Keyed.Sets m key value (Keyed.put m key value) :=
  ⟨Keyed.get?_put_self m key value, fun _ h => Keyed.get?_put_of_ne m value h,
    Keyed.keys_put m key value⟩

namespace Json

/-! ### Where keys lead -/

/-- Following keys from a value leads to another one. A list stands for its first item, before each
key and also after the last one. -/
inductive Reaches : List String → Json → Json → Prop where
  | here (v : Json) : Reaches [] v v
  | first {keys : List String} {x v : Json} (xs : List Json) (h : Reaches keys x v) :
      Reaches keys (arr (x :: xs)) v
  | key {fields : Keyed Json} {key : String} {keys : List String} {x v : Json}
      (h : Keyed.get? fields key = some x) (h' : Reaches keys x v) :
      Reaches (key :: keys) (obj fields) v

variable {path keys : List String} {key : String} {v x : Json} {fields : Keyed Json}

/-- What an object leads to, the lists around it lead to as well. -/
lemma Reaches.of_head (hv : v.head = obj fields) (h : Reaches path (obj fields) x) :
    Reaches path v x := by
  induction v using byHead with
  | plain v hplain =>
      rw [head_of_ne_arr hplain] at hv
      rwa [hv]
  | empty => cases hv
  | first item items ih => exact .first items (ih hv)

/-- The object at the end of a path is found behind the lists around a value. -/
lemma holder?_head (v : Json) (path : List String) : v.head.holder? path = v.holder? path := by
  rcases path with _ | ⟨key, _ | ⟨next, keys⟩⟩
  · rfl
  · rw [holder?, head_head, holder?]
  · rw [holder?, head_head, holder?]

/-- With more keys to come, the object at the end is found in the value of the first key. -/
lemma holder?_cons_of_ne_nil (key : String) (hkeys : keys ≠ []) (v : Json) :
    v.holder? (key :: keys) = ((v.head.field? key).getD null).holder? keys := by
  obtain ⟨next, below, rfl⟩ := List.exists_cons_of_ne_nil hkeys
  rfl

lemma holder?_of_reaches (h : Reaches path v (obj fields)) (key : String) :
    v.holder? (path ++ [key]) = some fields := by
  generalize htarget : obj fields = target at h
  induction h with
  | here v => rw [← htarget]; rfl
  | @first keys item _ items _ ih => rw [← holder?_head, head_arr_cons, holder?_head, ih htarget]
  | key hget _ ih =>
      rw [List.cons_append, holder?_cons_of_ne_nil _ (by simp), head_obj, field?, hget]
      exact ih htarget

lemma reaches_of_holder? (h : v.holder? (path ++ [key]) = some fields) :
    Reaches path v (obj fields) := by
  induction path generalizing v with
  | nil => exact .of_head (fields?_eq_some.mp h) (.here _)
  | cons first keys ih =>
      rw [List.cons_append, holder?_cons_of_ne_nil _ (by simp)] at h
      cases hitem : v.head.field? first with
      | none => simp [hitem] at h
      | some item =>
          rw [hitem, Option.getD_some] at h
          cases hv : v.head.fields? with
          | none => simp [field?_of_fields?_eq_none hv] at hitem
          | some outer =>
              have hobj := fields?_eq_some.mp hv
              rw [hobj, field?] at hitem
              exact .of_head hobj (.key hitem (ih h))

/-- The object that the last key of a path stands in is the one that the other keys reach. -/
theorem holder?_eq_some_iff : v.holder? (path ++ [key]) = some fields
    ↔ Reaches path v (obj fields) :=
  ⟨reaches_of_holder?, fun h => holder?_of_reaches h key⟩

/-! ### Values around a place -/

/-- One step of the way to a place, with what stands beside it: the other items of a list whose
first one is entered, or the other fields of an object one of whose keys is followed. -/
inductive Frame where
  | first (rest : List Json)
  | key (before : Keyed Json) (key : String) (after : Keyed Json) (fresh : key ∉ Keyed.keys before)

/-- The key that a step follows, if any. -/
def Frame.key? : Frame → Option String
  | .first _ => none
  | .key _ k _ _ => some k

/-- The keys that are followed on the way through frames. -/
def keysOf (frames : List Frame) : List String := frames.filterMap Frame.key?

/-- The value with another one put in the place that its frames leave open. -/
def fill : List Frame → Json → Json
  | [], v => v
  | .first rest :: frames, v => arr (fill frames v :: rest)
  | .key before k after _ :: frames, v => obj (before ++ (k, fill frames v) :: after)

/-- A field of an object has fields before and after it. -/
lemma exists_fields_around (h : Keyed.get? fields key = some v) :
    ∃ before after, key ∉ Keyed.keys before ∧ fields = before ++ (key, v) :: after := by
  induction fields with
  | nil => cases h
  | cons p fields ih =>
      obtain ⟨k, x⟩ := p
      by_cases hk : k = key
      · subst hk
        obtain rfl : x = v := by simpa [Keyed.get?] using h
        exact ⟨[], fields, List.not_mem_nil, rfl⟩
      · rw [Keyed.get?, if_neg hk] at h
        obtain ⟨before, after, hfresh, rfl⟩ := ih h
        exact ⟨(k, x) :: before, after, List.not_mem_cons_of_ne_of_not_mem (Ne.symm hk) hfresh, rfl⟩

/-- The way to a value leaves everything else as frames around it. -/
lemma Reaches.exists_frames (h : Reaches path v x) :
    ∃ frames, keysOf frames = path ∧ v = fill frames x := by
  induction h with
  | here v => exact ⟨[], rfl, rfl⟩
  | first xs _ ih =>
      obtain ⟨frames, hkeys, rfl⟩ := ih
      exact ⟨.first xs :: frames, hkeys, rfl⟩
  | @key fields key keys x v hget _ ih =>
      obtain ⟨frames, hkeys, rfl⟩ := ih
      obtain ⟨before, after, hfresh, rfl⟩ := exists_fields_around hget
      exact ⟨.key before key after hfresh :: frames, congrArg (key :: ·) hkeys, rfl⟩

/-- A write below a key leaves the fields around it. -/
lemma setUnder_around {before after : Keyed Json} (hfresh : key ∉ Keyed.keys before)
    (keys : List String) (new : Json) :
    setUnder (before ++ (key, v) :: after) key keys new
      = before ++ (key, v.setAt keys new) :: after := by
  induction before with
  | nil => simp [setUnder]
  | cons p before ih =>
      obtain ⟨hp, hbefore⟩ := not_or.mp (mt List.mem_cons.mpr hfresh)
      rw [List.cons_append, setUnder, if_neg (Ne.symm hp), ih hbefore, List.cons_append]

/-- With more keys to come, the write is below the first key. -/
lemma setAt_cons_of_ne_nil (fields : Keyed Json) (key : String) (hkeys : keys ≠ []) (new : Json) :
    (obj fields).setAt (key :: keys) new = obj (setUnder fields key keys new) := by
  obtain ⟨next, below, rfl⟩ := List.exists_cons_of_ne_nil hkeys
  rfl

/-- A write goes through frames and leaves them as they are. -/
theorem setAt_fill (frames : List Frame) {rest : List String} (hrest : rest ≠ []) (v new : Json) :
    (fill frames v).setAt (keysOf frames ++ rest) new = fill frames (v.setAt rest new) := by
  induction frames with
  | nil => rfl
  | cons frame frames ih =>
      cases frame with
      | first items =>
          rw [fill, setAt, setIn, fill, ← ih]
          rfl
      | key before k after hfresh =>
          have hkeys : keysOf frames ++ rest ≠ [] := List.append_ne_nil_of_right_ne_nil _ hrest
          have hwrite := setAt_cons_of_ne_nil (before ++ (k, fill frames v) :: after) k hkeys new
          rw [setUnder_around hfresh, ih] at hwrite
          exact hwrite

/-! ### Writing and reading -/

/-- Reading and writing agree. If the keys before the last one reach an object, then what is written
is read again; the value with it differs from the one before in that key of that object only; and
when something else is written next, that alone counts. If they reach no object, then nothing
changes, and null is read. -/
theorem setAt_exact (v : Json) (path : List String) (key : String) (new : Json) :
    (∀ fields, Reaches path v (obj fields) →
      (v.setAt (path ++ [key]) new).atPath (path ++ [key]) = new
        ∧ (∃ frames fields', keysOf frames = path ∧ v = fill frames (obj fields)
          ∧ v.setAt (path ++ [key]) new = fill frames (obj fields')
          ∧ Keyed.Sets fields key new fields')
        ∧ ∀ next, (v.setAt (path ++ [key]) new).setAt (path ++ [key]) next
          = v.setAt (path ++ [key]) next)
      ∧ ((∀ fields, ¬ Reaches path v (obj fields)) →
        v.setAt (path ++ [key]) new = v ∧ v.atPath (path ++ [key]) = null) := by
  constructor
  · intro fields h
    obtain ⟨frames, rfl, hv⟩ := h.exists_frames
    have hset (fields : Keyed Json) (x : Json) :
        (fill frames (obj fields)).setAt (keysOf frames ++ [key]) x
          = fill frames (obj (Keyed.put fields key x)) :=
      setAt_fill frames (List.cons_ne_nil key []) (obj fields) x
    refine ⟨atPath_setAt (holder?_eq_some_iff.mpr h) new, ?_, fun next => ?_⟩
    · exact ⟨frames, _, rfl, hv, hv ▸ hset fields new, Keyed.sets_put fields key new⟩
    · rw [hv, hset, hset, hset, Keyed.put_put]
  · intro hnone
    have hholder : v.holder? (path ++ [key]) = none :=
      Option.eq_none_iff_forall_ne_some.mpr fun fields h => hnone fields (holder?_eq_some_iff.mp h)
    exact ⟨setAt_eq_self hholder new, atPath_of_holder?_eq_none (by simp) hholder⟩

/-- A list in a list, with an object whose second key holds a list of objects. -/
def nestedPages : Json :=
  arr [arr [obj [("total", int 2), ("pages", arr [obj [("rows", int 1)], null])]], str "end"]

/-- Rows are written to the first of the pages and read there; below the total no rows are. -/
theorem setAt_exact_pages :
    Reaches ["pages"] nestedPages (obj [("rows", int 1)])
      ∧ (nestedPages.setAt ["pages", "rows"] (int 5)).atPath ["pages", "rows"] = int 5
      ∧ (∀ fields, ¬ Reaches ["total"] nestedPages (obj fields))
      ∧ nestedPages.setAt ["total", "rows"] (int 5) = nestedPages
      ∧ nestedPages.atPath ["total", "rows"] = null := by
  have hpages : Reaches ["pages"] nestedPages (obj [("rows", int 1)]) :=
    .first _ (.first _ (.key rfl (.first _ (.here _))))
  have htotal : ∀ fields, ¬ Reaches ["total"] nestedPages (obj fields) := by
    intro fields h
    have hholder : nestedPages.holder? ["total", "rows"] = none := rfl
    cases hholder.symm.trans (holder?_eq_some_iff.mpr h)
  have hwritten := (setAt_exact nestedPages ["pages"] "rows" (int 5)).1 _ hpages
  have hlost := (setAt_exact nestedPages ["total"] "rows" (int 5)).2 htotal
  exact ⟨hpages, hwritten.1, htotal, hlost⟩

end Json

end RemoteNodes
