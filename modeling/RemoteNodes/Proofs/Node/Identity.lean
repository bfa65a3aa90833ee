import Mathlib.Tactic
import RemoteNodes.Fetch.Source
import RemoteNodes.Proofs.Fault
import RemoteNodes.Proofs.Keyed
/-!
When the ids of two nodes of a type are the same. An id joins the identifying values with colons,
so it gives the parts between the colons in their order, but not which part belongs to which value.

* `IdShape`, `Fragment.idShape`: what an ID fragment picks; `Fragment.idValues`: the identifying
  values in what has been picked.
* `IdShape.Fits`, `Fragment.fits_of_pickId`: what has been picked has the shape of its fragment.
* `IdShape.leaves_of_fits`: then the values that are joined are the identifying values.
* `idParts_eq_iff`: texts are joined to the same text exactly if they have the same parts.
* `exists_colons_moved`: different texts with the same parts have a colon moved between them.
* `NodeDefinition.nodeId_eq_iff`: **two nodes have the same id exactly if their identifying values
  have the same parts**; `nodeId_eq_of_colons_moved`: two nodes that differ have the
  same id.
-/

namespace RemoteNodes

/-! ### Shapes of identifying values -/

/-- What an ID fragment picks: a value, or an object of what is picked under each name. -/
inductive IdShape where
  | value
  | object (fields : List (String × IdShape))

mutual
/-- What a selection picks, under the name of its field. -/
def Selection.idShape? (nested : Bool) : Selection → Option (String × IdShape)
  | .field _ name _ _ selections? =>
    if nested && name == "__typename" then none
    else
      match selections? with
      | none => some (name, .value)
      | some selections => some (name, .object (Keyed.ofPairs (idShapes true selections)))
  | _ => none
/-- What selections pick. -/
def idShapes (nested : Bool) : List Selection → List (String × IdShape)
  | [] => []
  | s :: ss => (s.idShape? nested).toList ++ idShapes nested ss
end

/-- What an ID fragment picks out of a node. -/
def Fragment.idShape (f : Fragment) : IdShape :=
  .object (Keyed.ofPairs (idShapes false f.selections))

namespace IdShape

mutual
/-- The identifying values in a value of a shape. -/
def values : IdShape → Json → List Json
  | value, v => [v]
  | object shapes, v => valuesUnder shapes v
/-- The identifying values under names. -/
def valuesUnder : List (String × IdShape) → Json → List Json
  | [], _ => []
  | (name, shape) :: shapes, v =>
    shape.values ((v.field? name).getD .null) ++ valuesUnder shapes v
end

mutual
/-- A value has a shape: where the shape has names, it is an object of these names in order. -/
def Fits : IdShape → Json → Prop
  | value, _ => True
  | object shapes, .obj fields => (Keyed.keys fields).Nodup ∧ FitsEach shapes fields
  | object _, _ => False
/-- The fields have the shapes, in their order. -/
def FitsEach : List (String × IdShape) → Keyed Json → Prop
  | [], [] => True
  | (name, shape) :: shapes, (key, v) :: fields =>
    name = key ∧ shape.Fits v ∧ FitsEach shapes fields
  | _, _ => False
end

end IdShape

/-- The identifying values in what an ID fragment has picked out of a node. -/
def Fragment.idValues (f : Fragment) (picked : Keyed Json) : List Json :=
  f.idShape.values (.obj picked)

namespace IdShape

lemma fitsEach_iff {shapes : List (String × IdShape)} {fields : Keyed Json} :
    FitsEach shapes fields
      ↔ List.Forall₂ (fun s v => s.1 = v.1 ∧ s.2.Fits v.2) shapes fields := by
  induction shapes generalizing fields with
  | nil => cases fields <;> simp [FitsEach]
  | cons s shapes ih => cases fields <;> simp [FitsEach, ih, and_assoc]

end IdShape

/-! ### What is picked has the shape of the fragment -/

/-- What selections pick has the shapes that they say, once what each of them picks has. -/
lemma fits_of_pickEach {nested : Bool} {fields : Keyed Json} {ss : List Selection}
    (hss : ∀ s ∈ ss, ∀ picked?, pickOne nested fields s = .ok picked? →
      List.Forall₂ (fun p q => p.1 = q.1 ∧ IdShape.Fits p.2 q.2) (s.idShape? nested).toList
        picked?.toList)
    {picked : List (String × Json)} (h : pickEach nested fields ss = .ok picked) :
    List.Forall₂ (fun p q => p.1 = q.1 ∧ IdShape.Fits p.2 q.2) (idShapes nested ss) picked := by
  induction ss generalizing picked with
  | nil =>
      obtain rfl : [] = picked := Except.ok.inj h
      exact .nil
  | cons s ss ih =>
      obtain ⟨first?, hfirst, h⟩ := bind_eq_ok.mp h
      obtain ⟨rest, hrest, h⟩ := bind_eq_ok.mp h
      obtain rfl : first?.toList ++ rest = picked := Except.ok.inj h
      rw [List.forall_mem_cons] at hss
      exact List.rel_append (hss.1 first? hfirst) (ih hss.2 hrest)

/-- Maps that pairs of the same shape make up are objects of the shape that their shapes make up. -/
lemma IdShape.fits_ofPairs {shapes : List (String × IdShape)} {picked : List (String × Json)}
    (h : List.Forall₂ (fun p q => p.1 = q.1 ∧ IdShape.Fits p.2 q.2) shapes picked) :
    (object (Keyed.ofPairs shapes)).Fits (.obj (Keyed.ofPairs picked)) :=
  ⟨Keyed.nodup_ofPairs picked, fitsEach_iff.mpr (Keyed.forall₂_ofPairs h)⟩

/-- What a selection picks has the shape that it says. -/
lemma fits_of_pickOne {s : Selection} : ∀ {nested : Bool} {fields : Keyed Json}
    {picked? : Option (String × Json)}, pickOne nested fields s = .ok picked? →
      List.Forall₂ (fun p q => p.1 = q.1 ∧ IdShape.Fits p.2 q.2) (s.idShape? nested).toList
        picked?.toList := by
  induction s using Selection.induct with
  | leaf alias? name arguments directives =>
      intro nested fields picked? h
      rw [pickOne] at h
      rw [Selection.idShape?]
      split at h
      · rename_i hskip
        cases h
        rw [if_pos hskip]
        exact .nil
      · rename_i hskip
        rw [if_neg hskip]
        dsimp only at h
        split at h
        · cases h
        · cases h
          exact .cons ⟨rfl, trivial⟩ .nil
  | composite alias? name arguments directives ss ih =>
      intro nested fields picked? h
      rw [pickOne] at h
      rw [Selection.idShape?]
      split at h
      · rename_i hskip
        cases h
        rw [if_pos hskip]
        exact .nil
      · rename_i hskip
        rw [if_neg hskip]
        dsimp only at h
        split at h
        · cases h
        · -- what is read must be an object, out of which the inner selections pick
          split at h
          · obtain ⟨picked, hpicked, h⟩ := bind_eq_ok.mp h
            cases h
            exact .cons
              ⟨rfl, IdShape.fits_ofPairs (fits_of_pickEach (fun s hs _ => ih s hs) hpicked)⟩
              .nil
          · cases h
  | spread fragment directives =>
      intro nested fields picked? h
      cases h
      exact .nil
  | inline condition? directives ss ih =>
      intro nested fields picked? h
      cases h
      exact .nil

/-- What an ID fragment picks out of a node has its shape. -/
lemma Fragment.fits_of_pickId {f : Fragment} {node : Json} {picked : Keyed Json}
    (h : f.pickId node = .ok picked) : f.idShape.Fits (.obj picked) := by
  cases node with
  | obj fields =>
      rw [Fragment.pickId] at h
      cases hpicked : pickEach false fields f.selections with
      | error fault =>
          rw [hpicked] at h
          cases h
      | ok pairs =>
          rw [hpicked] at h
          obtain rfl : Keyed.ofPairs pairs = picked := Except.ok.inj h
          exact IdShape.fits_ofPairs (fits_of_pickEach (fun s _ _ => fits_of_pickOne) hpicked)
  | null | bool _ | int _ | real _ | str _ | arr _ => cases h

/-! ### The values that are joined -/

namespace IdShape

/-- Values under other names do not change with a field. -/
lemma valuesUnder_cons {shapes : List (String × IdShape)} {key : String}
    (h : ∀ s ∈ shapes, s.1 ≠ key) (v : Json) (fields : Keyed Json) :
    valuesUnder shapes (.obj ((key, v) :: fields)) = valuesUnder shapes (.obj fields) := by
  induction shapes with
  | nil => rfl
  | cons s shapes ih =>
      obtain ⟨name, shape⟩ := s
      rw [List.forall_mem_cons] at h
      rw [valuesUnder, valuesUnder, ih h.2, Json.field?, Keyed.get?, if_neg (Ne.symm h.1)]
      rfl

lemma keys_of_fitsEach {shapes : List (String × IdShape)} {fields : Keyed Json}
    (h : FitsEach shapes fields) : shapes.map (·.1) = Keyed.keys fields := by
  have hall := fitsEach_iff.mp h
  clear h
  induction hall with
  | nil => rfl
  | cons hpq _ ih => simpa [Keyed.keys, hpq.1] using ih

mutual
/-- If the identifying values are texts, then they are what is joined. -/
lemma leaves_of_fits : ∀ {shape : IdShape} {v : Json}, shape.Fits v →
    (∀ x ∈ shape.values v, ∃ text, x = .str text) → v.leaves = shape.values v
  | value, v, _, htexts => by
    obtain ⟨text, rfl⟩ := htexts v (List.mem_singleton_self v)
    rfl
  | object shapes, .obj fields, ⟨hkeys, hfits⟩, htexts =>
    fieldLeaves_of_fits hkeys hfits htexts
lemma fieldLeaves_of_fits : ∀ {shapes : List (String × IdShape)} {fields : Keyed Json},
    (Keyed.keys fields).Nodup → FitsEach shapes fields →
      (∀ x ∈ valuesUnder shapes (.obj fields), ∃ text, x = .str text) →
        fieldLeaves fields = valuesUnder shapes (.obj fields)
  | [], [], _, _, _ => rfl
  | (name, shape) :: shapes, (key, v) :: fields, hkeys, ⟨hname, hfits, hrest⟩, htexts => by
    obtain ⟨hkey, hkeys⟩ := List.nodup_cons.mp hkeys
    have hother : ∀ s ∈ shapes, s.1 ≠ key := by
      rintro s hs rfl
      have hmem : s.1 ∈ Keyed.keys fields := keys_of_fitsEach hrest ▸ List.mem_map_of_mem hs
      exact hkey hmem
    have hfirst : Json.field? name (.obj ((key, v) :: fields)) = some v := by
      simp [Json.field?, Keyed.get?, hname]
    rw [valuesUnder, valuesUnder_cons hother, hfirst, Option.getD_some] at htexts ⊢
    rw [List.forall_mem_append] at htexts
    rw [fieldLeaves, leaves_of_fits hfits htexts.1, fieldLeaves_of_fits hkeys hrest htexts.2]
end

mutual
/-- A shape has as many identifying values in each value. -/
lemma length_values : ∀ (shape : IdShape) (v w : Json),
    (shape.values v).length = (shape.values w).length
  | value, _, _ => rfl
  | object shapes, v, w => length_valuesUnder shapes v w
lemma length_valuesUnder : ∀ (shapes : List (String × IdShape)) (v w : Json),
    (valuesUnder shapes v).length = (valuesUnder shapes w).length
  | [], _, _ => rfl
  | (name, shape) :: shapes, v, w => by
    rw [valuesUnder, valuesUnder, List.length_append, List.length_append,
      length_values shape, length_valuesUnder shapes v w]
end

end IdShape

/-! ### Joined texts -/

/-- The parts of a text between its colons. -/
def idParts (text : String) : List (List Char) := text.toList.splitOn ':'

/-- The number of colons in a text. -/
def colons (text : String) : Nat := text.toList.count ':'

lemma idParts_injective : Function.Injective idParts := by
  intro a b h
  have hjoined := congrArg [':'].intercalate h
  rw [idParts, idParts, List.intercalate_splitOn, List.intercalate_splitOn] at hjoined
  exact String.toList_inj.mp hjoined

lemma length_splitOn_eq_count {α : Type} [DecidableEq α] (x : α) (xs : List α) :
    (xs.splitOn x).length = xs.count x + 1 := by
  induction xs with
  | nil => simp
  | cons y xs ih =>
      rw [List.splitOn_cons_eq_if_modifyHead, List.count_cons]
      split <;> simp [ih]

lemma length_idParts (text : String) : (idParts text).length = colons text + 1 :=
  length_splitOn_eq_count ':' text.toList

/-- The parts of joined texts are those of the texts. -/
lemma splitOn_intercalate_eq {texts : List String} (h : texts ≠ []) :
    (":".intercalate texts).toList.splitOn ':' = texts.flatMap idParts := by
  induction texts with
  | nil => exact absurd rfl h
  | cons text texts ih =>
      cases texts with
      | nil => simp [idParts]
      | cons next texts =>
          have hjoined : (":".intercalate (text :: next :: texts)).toList
              = text.toList ++ ':' :: (":".intercalate (next :: texts)).toList := by
            simp [String.intercalate_cons_cons]
          rw [hjoined, List.splitOn_append_cons_self, ih (List.cons_ne_nil _ _)]
          rfl

/-- As many texts are joined to the same text exactly if they have the same parts. -/
theorem idParts_eq_iff {texts texts' : List String} (hlength : texts.length = texts'.length) :
    ":".intercalate texts = ":".intercalate texts'
      ↔ texts.flatMap idParts = texts'.flatMap idParts := by
  cases texts with
  | nil =>
      obtain rfl := List.length_eq_zero_iff.mp hlength.symm
      exact iff_of_true rfl rfl
  | cons text texts =>
      have hne : texts' ≠ [] := by
        rintro rfl
        cases hlength
      rw [← splitOn_intercalate_eq (List.cons_ne_nil text texts), ← splitOn_intercalate_eq hne]
      exact idParts_injective.eq_iff.symm

/-- Texts of which none has more colons than its counterpart are the same if they have the same
parts. -/
lemma eq_of_idParts_eq {texts texts' : List String}
    (hcolons : List.Forall₂ (fun a b => colons a ≤ colons b) texts texts')
    (hparts : texts.flatMap idParts = texts'.flatMap idParts) : texts = texts' := by
  have hle : ∀ {texts texts' : List String},
      List.Forall₂ (fun a b => colons a ≤ colons b) texts texts' →
        (texts.flatMap idParts).length ≤ (texts'.flatMap idParts).length := by
    intro texts texts' h
    induction h with
    | nil => exact le_rfl
    | cons hab _ ih =>
        rw [List.flatMap_cons, List.flatMap_cons, List.length_append, List.length_append,
          length_idParts, length_idParts]
        omega
  induction hcolons with
  | nil => rfl
  | @cons a b texts texts' hab hrest ih =>
      rw [List.flatMap_cons, List.flatMap_cons] at hparts
      -- the rest cannot have fewer parts, so neither can the first
      have hlength : (idParts a).length = (idParts b).length := by
        have htotal := congrArg List.length hparts
        have hrest := hle hrest
        rw [List.length_append, List.length_append] at htotal
        rw [length_idParts, length_idParts] at htotal ⊢
        omega
      obtain ⟨hfirst, hrest⟩ := List.append_inj hparts hlength
      rw [idParts_injective hfirst, ih hrest]

/-- Different texts with the same parts have a colon moved between them: one text has fewer than
its counterpart, and another has more. -/
theorem exists_colons_moved {texts texts' : List String} (hlength : texts.length = texts'.length)
    (hne : texts ≠ texts') (hparts : texts.flatMap idParts = texts'.flatMap idParts) :
    (∃ p ∈ texts.zip texts', colons p.1 < colons p.2)
      ∧ ∃ p ∈ texts.zip texts', colons p.2 < colons p.1 := by
  constructor
  · by_contra hnone
    push Not at hnone
    refine hne (eq_of_idParts_eq ?_ hparts.symm).symm
    exact (List.forall₂_iff_zip.mpr ⟨hlength, fun h => hnone _ h⟩).flip
  · by_contra hnone
    push Not at hnone
    exact hne (eq_of_idParts_eq (List.forall₂_iff_zip.mpr ⟨hlength, fun h => hnone _ h⟩) hparts)

/-! ### Ids -/

/-- The id of picked values is their texts, joined. -/
lemma Fragment.nodeId_of_idValues {f : Fragment} {node : Json} {picked : Keyed Json}
    (hpicked : f.pickId node = .ok picked) {texts : List String}
    (htexts : f.idValues picked = texts.map Json.str) :
    RemoteNodes.nodeId (.obj picked) = ":".intercalate texts := by
  have hall : ∀ x ∈ f.idValues picked, ∃ text, x = .str text := by
    rw [htexts]
    intro x hx
    obtain ⟨text, -, rfl⟩ := List.mem_map.mp hx
    exact ⟨text, rfl⟩
  have hleaves : (Json.obj picked).leaves = texts.map Json.str :=
    (IdShape.leaves_of_fits (f.fits_of_pickId hpicked) hall).trans htexts
  rw [RemoteNodes.nodeId, hleaves, List.map_map]
  exact congrArg _ (List.map_id texts)

lemma NodeDefinition.pickId_eq {d : NodeDefinition} {f : Fragment} (hf : d.idFragment = .ok f)
    (node : Json) : d.pickId node = (f.pickId node).mapError Fault.node := by
  rw [NodeDefinition.pickId, hf]
  rfl

/-- **When ids are the same.** Two nodes, out of which the ID fragment of their type picks texts
that differ, have ids; these are the same exactly if the texts have the same parts between their
colons, one text after the other, and only if one text has fewer colons than its counterpart and
another has more. -/
theorem NodeDefinition.nodeId_eq_iff {d : NodeDefinition} {f : Fragment}
    (hf : d.idFragment = .ok f) {node node' : Json} {picked picked' : Keyed Json}
    (hpicked : f.pickId node = .ok picked) (hpicked' : f.pickId node' = .ok picked')
    {texts texts' : List String} (htexts : f.idValues picked = texts.map Json.str)
    (htexts' : f.idValues picked' = texts'.map Json.str) (hne : texts ≠ texts') :
    ∃ id id', d.nodeId node = .ok id ∧ d.nodeId node' = .ok id'
      ∧ (id = id' ↔ texts.flatMap idParts = texts'.flatMap idParts)
      ∧ (id = id' → (∃ p ∈ texts.zip texts', colons p.1 < colons p.2)
          ∧ ∃ p ∈ texts.zip texts', colons p.2 < colons p.1) := by
  have hlength : texts.length = texts'.length := by
    have h := IdShape.length_values f.idShape (.obj picked) (.obj picked')
    rw [← List.length_map Json.str, ← htexts, ← List.length_map Json.str, ← htexts']
    exact h
  refine ⟨":".intercalate texts, ":".intercalate texts', ?_, ?_, idParts_eq_iff hlength,
    fun h => exists_colons_moved hlength hne ((idParts_eq_iff hlength).mp h)⟩
  · rw [NodeDefinition.nodeId, d.pickId_eq hf, hpicked, ← f.nodeId_of_idValues hpicked htexts]
    rfl
  · rw [NodeDefinition.nodeId, d.pickId_eq hf, hpicked', ← f.nodeId_of_idValues hpicked' htexts']
    rfl

/-- An ID fragment of two fields. -/
def pairFragment : Fragment :=
  { name := "FooId", condition := "Foo", selections := [.plain "a", .plain "b"] }

/-- A definition with that ID fragment. -/
def pairDefinition : NodeDefinition := ⟨"Foo", [.fragment pairFragment], "FooId"⟩

/-- A node with two texts. -/
def pairNode (a b : String) : Json := .obj [("a", .str a), ("b", .str b)]

lemma pickId_pair (a b : String) :
    pairFragment.pickId (pairNode a b) = .ok [("a", .str a), ("b", .str b)] := rfl

lemma idValues_pair (a b : String) :
    pairFragment.idValues [("a", .str a), ("b", .str b)] = [a, b].map Json.str := rfl

/-- Two nodes whose ids are the same because a colon has moved. -/
theorem nodeId_eq_iff_pair :
    ∃ id id', pairDefinition.nodeId (pairNode "x:y" "z") = .ok id
      ∧ pairDefinition.nodeId (pairNode "x" "y:z") = .ok id'
      ∧ (id = id' ↔ ["x:y", "z"].flatMap idParts = ["x", "y:z"].flatMap idParts)
      ∧ (id = id' → (∃ p ∈ ["x:y", "z"].zip ["x", "y:z"], colons p.1 < colons p.2)
          ∧ ∃ p ∈ ["x:y", "z"].zip ["x", "y:z"], colons p.2 < colons p.1) :=
  NodeDefinition.nodeId_eq_iff (d := pairDefinition) rfl (pickId_pair _ _) (pickId_pair _ _)
    (idValues_pair _ _) (idValues_pair _ _) (by decide)

/-- Two nodes with different identifying texts and the same id. -/
theorem nodeId_eq_of_colons_moved :
    pairDefinition.idFragment = .ok pairFragment
      ∧ pairFragment.pickId (pairNode "x:y" "z") = .ok [("a", .str "x:y"), ("b", .str "z")]
      ∧ pairFragment.pickId (pairNode "x" "y:z") = .ok [("a", .str "x"), ("b", .str "y:z")]
      ∧ pairFragment.idValues [("a", .str "x:y"), ("b", .str "z")] = [.str "x:y", .str "z"]
      ∧ pairFragment.idValues [("a", .str "x"), ("b", .str "y:z")] = [.str "x", .str "y:z"]
      ∧ "x:y" ≠ "x"
      ∧ pairDefinition.nodeId (pairNode "x:y" "z") = .ok "x:y:z"
      ∧ pairDefinition.nodeId (pairNode "x" "y:z") = .ok "x:y:z" :=
  ⟨rfl, rfl, rfl, rfl, rfl, by decide, rfl, rfl⟩

end RemoteNodes
