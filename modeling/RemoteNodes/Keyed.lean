/-!
Maps that remember the order in which their keys came: a list of pairs with a text as the key.

* `Keyed.get?_put_self`, `Keyed.get?_put_of_ne`: a written key holds what was written, and no other
  key changes.
* `Keyed.keys_put`: a known key keeps its place and a new one comes last.
-/

namespace RemoteNodes

/-- A map from texts, in the order of first insertion. -/
abbrev Keyed (α : Type) := List (String × α)

namespace Keyed

variable {α β : Type}

/-- The value of a key. -/
def get? : Keyed α → String → Option α
  | [], _ => none
  | (k, v) :: m, key => if k = key then some v else get? m key

/-- Whether the key is there. -/
def has (m : Keyed α) (key : String) : Bool := (get? m key).isSome

/-- Sets the value of a key. -/
def put : Keyed α → String → α → Keyed α
  | [], key, value => [(key, value)]
  | (k, v) :: m, key, value => if k = key then (k, value) :: m else (k, v) :: put m key value

/-- The value of a key after it is changed by `f`, which gets `initial` for an unknown key. -/
def update (m : Keyed α) (key : String) (initial : α) (f : α → α) : Keyed α :=
  put m key (f ((get? m key).getD initial))

/-- The map that pairs describe: the last value of a repeated key counts. -/
def ofPairs (pairs : List (String × α)) : Keyed α :=
  pairs.foldl (fun m p => put m p.1 p.2) []

/-- Everything in `changes` written over `m`. -/
def overlay (m changes : Keyed α) : Keyed α :=
  changes.foldl (fun m p => put m p.1 p.2) m

/-- The keys in order. -/
def keys (m : Keyed α) : List String := m.map (·.1)

/-- The values in order. -/
def values (m : Keyed α) : List α := m.map (·.2)

@[simp] theorem get?_nil (key : String) : get? ([] : Keyed α) key = none := rfl

@[simp] theorem get?_put_self (m : Keyed α) (key : String) (value : α) :
    get? (put m key value) key = some value := by
  induction m with
  | nil => simp [put, get?]
  | cons p m ih => by_cases h : p.1 = key <;> simp [put, get?, h, ih]

theorem get?_put_of_ne (m : Keyed α) {key key' : String} (value : α) (h : key' ≠ key) :
    get? (put m key value) key' = get? m key' := by
  induction m with
  | nil => simp [put, get?, h.symm]
  | cons p m ih =>
    by_cases hp : p.1 = key
    · have : p.1 ≠ key' := fun e => h (e.symm.trans hp)
      simp [put, get?, hp, h.symm]
    · simp only [put, hp, if_false, get?, ih]

theorem keys_put (m : Keyed α) (key : String) (value : α) :
    keys (put m key value) = if key ∈ keys m then keys m else keys m ++ [key] := by
  induction m with
  | nil => simp [put, keys]
  | cons p m ih =>
    by_cases hp : p.1 = key
    · simp [put, keys, hp]
    · have hp' : key ≠ p.1 := fun e => hp e.symm
      simp only [keys] at ih
      by_cases hm : key ∈ m.map (·.1) <;> simp_all [put, keys]

theorem mem_keys_of_get? {m : Keyed α} {key : String} {value : α}
    (h : get? m key = some value) : key ∈ keys m := by
  induction m with
  | nil => simp at h
  | cons p m ih =>
    by_cases hp : p.1 = key
    · simp [keys, hp]
    · simp only [get?, hp, if_false] at h
      have := ih h
      simp only [keys] at this ⊢
      exact List.mem_cons_of_mem _ this

end Keyed

end RemoteNodes
