import Mathlib.Tactic
import RemoteNodes.Keyed
/-!
Maps written over each other.

* `Keyed.get?_overlay`: what is written over a map hides it, key by key.
* `Keyed.lastWith`, `Keyed.get?_foldl_overlay`: of many changes the last one that has a key counts.
* `Keyed.nodup_put`, `Keyed.mem_iff_get?`: a written key comes once, and then a pair of the map is
  what the map has under its key.
* `Keyed.overlay_of_disjoint`, `Keyed.ofPairs_of_nodup`: new keys come last.
* `Keyed.get?_ofPairs_map`: a map that gives each key what a function says.
* `Keyed.mem_of_get?_overlay`, `Keyed.mem_of_get?_ofPairs`: what has been written under a key is in
  one of the pairs; `Keyed.exists_get?_overlay`, `Keyed.exists_get?_ofPairs`: and every key has
  something under it.
* `Keyed.forall₂_ofPairs`: pairs with the same keys and related values make up maps of that kind.
* `Keyed.ofPairs_map`: the map of pairs with changed values.
-/

namespace RemoteNodes.Keyed

variable {α : Type}

lemma get?_eq_none {m : Keyed α} {key : String} (h : key ∉ keys m) : get? m key = none := by
  cases hget : get? m key with
  | none => rfl
  | some value => exact absurd (mem_keys_of_get? hget) h

lemma has_iff {m : Keyed α} {key : String} : has m key = true ↔ key ∈ keys m := by
  induction m with
  | nil => simp [has, keys]
  | cons p m ih =>
      rw [has, keys] at ih
      by_cases hp : p.1 = key
      · simp [has, get?, keys, hp]
      · simp [has, get?, keys, hp, ih, Ne.symm hp]

/-- The value of a key in a map with changes written over it: that of the changes if they have the
key, else that of the map. -/
theorem get?_overlay {changes : Keyed α} (hchanges : (keys changes).Nodup) (m : Keyed α)
    (key : String) : get? (overlay m changes) key = (get? changes key).or (get? m key) := by
  induction changes generalizing m with
  | nil => rfl
  | cons p changes ih =>
      obtain ⟨k, v⟩ := p
      obtain ⟨hk, hrest⟩ := List.nodup_cons.mp hchanges
      have hoverlay : overlay m ((k, v) :: changes) = overlay (put m k v) changes := rfl
      rw [hoverlay, ih hrest]
      by_cases hkey : k = key
      · subst hkey
        simp [get?, get?_eq_none hk]
      · rw [get?_put_of_ne m v fun h => hkey h.symm]
        simp [get?, hkey]

/-- The last item whose map has a key. -/
def lastWith {ι : Type} (f : ι → Keyed α) (key : String) (items : List ι) : Option ι :=
  items.reverse.find? fun item => has (f item) key

/-- The value of a key in a map with many changes written over it: that of the last change that has
the key, else that of the map. -/
theorem get?_foldl_overlay {ι : Type} {f : ι → Keyed α} {changes : List ι}
    (hchanges : ∀ c ∈ changes, (keys (f c)).Nodup) (m : Keyed α) (key : String) :
    get? (changes.foldl (fun m c => overlay m (f c)) m) key
      = get? ((lastWith f key changes).elim m f) key := by
  induction changes generalizing m with
  | nil => rfl
  | cons c changes ih =>
      have hrest := ih (fun c' hc' => hchanges c' (by simp [hc'])) (overlay m (f c))
      rw [List.foldl_cons, hrest, lastWith, lastWith, List.reverse_cons, List.find?_append]
      cases changes.reverse.find? fun c => has (f c) key with
      | some last => rfl
      | none =>
          -- no later change has the key, so the question is whether this one has it
          rw [Option.elim_none, get?_overlay (hchanges c (by simp)), Option.none_or]
          cases hget : get? (f c) key with
          | none => simp [has, hget]
          | some value => simp [has, hget]

/-- An item that has a key is the last one that has it, up to the items after it. -/
lemma lastWith_append_cons {ι : Type} {f : ι → Keyed α} {key : String} {item : ι}
    (h : has (f item) key = true) (before after : List ι) :
    lastWith f key (before ++ item :: after) = (lastWith f key after).or (some item) := by
  rw [lastWith, lastWith, List.reverse_append, List.reverse_cons, List.find?_append,
    List.find?_append, Option.or_assoc]
  simp [h]

lemma mem_of_get? {m : Keyed α} {key : String} {value : α} (h : get? m key = some value) :
    (key, value) ∈ m := by
  induction m with
  | nil => cases h
  | cons p m ih =>
      rw [get?] at h
      split at h
      · rename_i hkey
        cases h
        rw [← hkey]
        exact List.mem_cons_self
      · exact List.mem_cons_of_mem _ (ih h)

lemma nodup_put {m : Keyed α} (hm : (keys m).Nodup) (key : String) (value : α) :
    (keys (put m key value)).Nodup := by
  rw [keys_put]
  split
  · exact hm
  · rename_i hkey
    rw [← List.concat_eq_append]
    exact hm.concat hkey

lemma nodup_ofPairs (pairs : List (String × α)) : (keys (ofPairs pairs)).Nodup := by
  rw [ofPairs]
  induction pairs using List.reverseRecOn with
  | nil => exact List.nodup_nil
  | append_singleton pairs last ih =>
      rw [List.foldl_append]
      exact nodup_put ih last.1 last.2

/-- A new key comes last. -/
lemma put_of_not_mem {m : Keyed α} {key : String} (h : key ∉ keys m) (value : α) :
    put m key value = m ++ [(key, value)] := by
  induction m with
  | nil => rfl
  | cons p m ih =>
      obtain ⟨hp, hm⟩ := not_or.mp (mt List.mem_cons.mpr h)
      rw [put, if_neg (Ne.symm hp), ih hm, List.cons_append]

/-- Of two values that are written under a key the second one counts. -/
lemma put_put (m : Keyed α) (key : String) (value value' : α) :
    put (put m key value) key value' = put m key value' := by
  induction m with
  | nil => simp [put]
  | cons p m ih => by_cases hp : p.1 = key <;> simp [put, hp, ih]

/-- New keys come last, in their order. -/
lemma overlay_of_disjoint {m changes : Keyed α} (hchanges : (keys changes).Nodup)
    (h : ∀ key ∈ keys changes, key ∉ keys m) : overlay m changes = m ++ changes := by
  induction changes generalizing m with
  | nil => exact (List.append_nil m).symm
  | cons p changes ih =>
      obtain ⟨k, v⟩ := p
      obtain ⟨hk, hrest⟩ := List.nodup_cons.mp hchanges
      have hoverlay : overlay m ((k, v) :: changes) = overlay (put m k v) changes := rfl
      rw [hoverlay, put_of_not_mem (h k List.mem_cons_self), ih hrest, List.append_assoc]
      · rfl
      · intro key hkey hmem
        rw [keys, List.map_append, List.mem_append] at hmem
        rcases hmem with hmem | hmem
        · exact h key (List.mem_cons_of_mem _ hkey) hmem
        · exact hk (List.mem_singleton.mp hmem ▸ hkey)

/-- Pairs with different keys are the map that they describe. -/
lemma ofPairs_of_nodup {pairs : List (String × α)} (h : (keys pairs).Nodup) :
    ofPairs pairs = pairs :=
  overlay_of_disjoint h fun _ _ => List.not_mem_nil

/-- In a map that has each key once, a pair is what the map has under its key. -/
lemma mem_iff_get? {m : Keyed α} (hm : (keys m).Nodup) {key : String} {value : α} :
    (key, value) ∈ m ↔ get? m key = some value := by
  induction m with
  | nil => simp [get?]
  | cons p m ih =>
      obtain ⟨k, v⟩ := p
      obtain ⟨hk, hrest⟩ := List.nodup_cons.mp hm
      rw [List.mem_cons, ih hrest, get?]
      by_cases hkey : k = key
      · subst hkey
        simp [get?_eq_none hk, eq_comm]
      · simp [hkey, Ne.symm hkey]

/-- A map that is made of keys, each with what a function says, has that under each of them. -/
lemma get?_ofPairs_map {ι : Type} (items : List ι) (key : ι → String) (f : String → α) {k : String}
    (hk : ∃ item ∈ items, key item = k) :
    get? (ofPairs (items.map fun item => (key item, f (key item)))) k = some (f k) := by
  rw [ofPairs]
  induction items using List.reverseRecOn with
  | nil => simp at hk
  | append_singleton items last ih =>
      rw [List.map_append, List.foldl_append]
      by_cases hlast : key last = k
      · subst hlast
        exact get?_put_self ..
      · refine (get?_put_of_ne _ _ fun h => hlast h.symm).trans (ih ?_)
        obtain ⟨item, hitem, rfl⟩ := hk
        rcases List.mem_append.mp hitem with hitem | hitem
        · exact ⟨item, hitem, rfl⟩
        · exact absurd (by rw [List.mem_singleton.mp hitem]) hlast

lemma mem_of_get?_put {m : Keyed α} {key key' : String} {value value' : α}
    (h : get? (put m key value) key' = some value') :
    (key' = key ∧ value' = value) ∨ get? m key' = some value' := by
  by_cases hkey : key' = key
  · subst hkey
    rw [get?_put_self] at h
    exact .inl ⟨rfl, (Option.some.inj h).symm⟩
  · rw [get?_put_of_ne m value hkey] at h
    exact .inr h

/-- What a map with changes written over it has under a key is in the changes or in the map. -/
lemma mem_of_get?_overlay {m changes : Keyed α} {key : String} {value : α}
    (h : get? (overlay m changes) key = some value) :
    (key, value) ∈ changes ∨ get? m key = some value := by
  rw [overlay] at h
  induction changes using List.reverseRecOn with
  | nil => exact .inr h
  | append_singleton changes last ih =>
      rw [List.foldl_append] at h
      rcases mem_of_get?_put h with ⟨rfl, rfl⟩ | h
      · exact .inl (List.mem_append_right _ (List.mem_singleton_self _))
      · exact (ih h).imp_left (List.mem_append_left _)

/-- A map with changes written over it still has something under each of its keys. -/
lemma exists_get?_overlay {m : Keyed α} (changes : Keyed α) {key : String} {value : α}
    (h : get? m key = some value) : ∃ value', get? (overlay m changes) key = some value' := by
  rw [overlay]
  induction changes using List.reverseRecOn with
  | nil => exact ⟨value, h⟩
  | append_singleton changes last ih =>
      rw [List.foldl_append, List.foldl_cons, List.foldl_nil]
      by_cases hlast : key = last.1
      · exact ⟨last.2, by rw [hlast, get?_put_self]⟩
      · rwa [get?_put_of_ne _ _ hlast]

/-- What a map that pairs describe has under a key is in one of the pairs. -/
lemma mem_of_get?_ofPairs {pairs : List (String × α)} {key : String} {value : α}
    (h : get? (ofPairs pairs) key = some value) : (key, value) ∈ pairs := by
  rcases mem_of_get?_overlay (m := []) h with h | h
  · exact h
  · cases h

/-- A map that pairs describe has something under the key of each of them. -/
lemma exists_get?_ofPairs {pairs : List (String × α)} {key : String}
    (h : key ∈ pairs.map (·.1)) : ∃ value, get? (ofPairs pairs) key = some value := by
  rw [ofPairs]
  induction pairs using List.reverseRecOn with
  | nil => cases h
  | append_singleton pairs last ih =>
      rw [List.foldl_append, List.foldl_cons, List.foldl_nil]
      by_cases hlast : key = last.1
      · exact ⟨last.2, by rw [hlast, get?_put_self]⟩
      · rw [get?_put_of_ne _ _ hlast]
        rw [List.map_append, List.mem_append, List.map_singleton, List.mem_singleton] at h
        exact ih (h.resolve_right hlast)

section Related

variable {β : Type} {R : α → β → Prop} {m : Keyed α} {m' : Keyed β}

/-- Related values that are written under the same key of related maps leave related maps. -/
lemma forall₂_put (h : List.Forall₂ (fun p q => p.1 = q.1 ∧ R p.2 q.2) m m') (key : String)
    {value : α} {value' : β} (hvalue : R value value') :
    List.Forall₂ (fun p q => p.1 = q.1 ∧ R p.2 q.2) (put m key value) (put m' key value') := by
  induction h with
  | nil => exact .cons ⟨rfl, hvalue⟩ .nil
  | @cons p q m m' hpq hrest ih =>
      obtain ⟨k, v⟩ := p
      obtain ⟨k', v'⟩ := q
      obtain ⟨rfl, hv⟩ := hpq
      rw [put, put]
      split
      · exact .cons ⟨rfl, hvalue⟩ hrest
      · exact .cons ⟨rfl, hv⟩ ih

/-- Pairs with the same keys and related values make up maps of that kind. -/
lemma forall₂_ofPairs (h : List.Forall₂ (fun p q => p.1 = q.1 ∧ R p.2 q.2) m m') :
    List.Forall₂ (fun p q => p.1 = q.1 ∧ R p.2 q.2) (ofPairs m) (ofPairs m') := by
  have hfold : ∀ (start : Keyed α) (start' : Keyed β),
      List.Forall₂ (fun p q => p.1 = q.1 ∧ R p.2 q.2) start start' →
        List.Forall₂ (fun p q => p.1 = q.1 ∧ R p.2 q.2)
          (m.foldl (fun kept p => put kept p.1 p.2) start)
          (m'.foldl (fun kept p => put kept p.1 p.2) start') := by
    induction h with
    | nil => exact fun _ _ hstart => hstart
    | @cons p q m m' hpq _ ih =>
        obtain ⟨k, v⟩ := p
        obtain ⟨k', v'⟩ := q
        obtain ⟨rfl, hv⟩ := hpq
        exact fun start start' hstart => ih _ _ (forall₂_put hstart k hv)
  exact hfold [] [] .nil

end Related

/-! ### Changed values -/

section Map

variable {β : Type} (f : α → β)

lemma put_map (m : Keyed α) (key : String) (value : α) :
    put (m.map fun p => (p.1, f p.2)) key (f value)
      = (put m key value).map fun p => (p.1, f p.2) := by
  induction m with
  | nil => rfl
  | cons p m ih =>
      rw [List.map_cons, put, put]
      split
      · rfl
      · rw [ih, List.map_cons]

/-- Pairs with changed values describe the map with its values changed. -/
lemma ofPairs_map (pairs : List (String × α)) :
    ofPairs (pairs.map fun p => (p.1, f p.2)) = (ofPairs pairs).map fun p => (p.1, f p.2) := by
  rw [ofPairs, ofPairs]
  induction pairs using List.reverseRecOn with
  | nil => rfl
  | append_singleton pairs last ih =>
      rw [List.map_append, List.foldl_append, ih, List.foldl_append]
      exact put_map f _ last.1 last.2

end Map

end RemoteNodes.Keyed
