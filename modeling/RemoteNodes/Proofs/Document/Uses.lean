import Mathlib.Tactic
import RemoteNodes.Proofs.Document.Variables
/-!
The places where a definition uses variables, with the types that are expected there.

A place is a list of numbers: which part of the definition, which selection in it, which argument of
that, and so on down to the variable. Places that come first in the definition come first in the
order of lists.

* `Enumerates`: a list of what stands at places, in their order.
* `Literal.UsesAt`, `ArgumentsUseAt`, `DirectivesUseAt`, `Selection.UsesAt`, `BodyUsesAt`: a
  variable is used at a place, in a literal, in arguments, in directives, in a selection, in a
  definition.
  `Operation.enumerates_uses`, `Fragment.enumerates_uses`: **uses are collected place by place**.
* `FirstTyped`: the first place of a name at a known type. `Enumerates.firstTyped`: **variables are
  recorded by these places**.
-/

namespace RemoteNodes

/-! ### Places in order -/

section Enumerates

variable {α β : Type} {stands stands' : List Nat → α → Prop} {xs ys : List α}

/-- A list of what stands at places, in the order of the places. -/
def Enumerates (stands : List Nat → α → Prop) (xs : List α) : Prop :=
  ∃ entries : List (List Nat × α), entries.map (·.2) = xs
    ∧ entries.Pairwise (fun a b => a.1 < b.1) ∧ ∀ place x, (place, x) ∈ entries ↔ stands place x

namespace Enumerates

lemma mem_iff (h : Enumerates stands xs) {x : α} : x ∈ xs ↔ ∃ place, stands place x := by
  obtain ⟨entries, rfl, -, hmem⟩ := h
  simp only [List.mem_map, Prod.exists, exists_eq_right, hmem]

/-- What comes first stands first. -/
lemma pairwise (h : Enumerates stands xs)
    (hunique : ∀ x place place', stands place x → stands place' x → place = place') :
    xs.Pairwise fun x y => ∀ place place', stands place x → stands place' y → place < place' := by
  obtain ⟨entries, rfl, hsorted, hmem⟩ := h
  rw [List.pairwise_map]
  refine hsorted.imp_of_mem fun {a b} ha hb hlt place place' hplace hplace' => ?_
  rw [hunique a.2 place a.1 hplace ((hmem _ _).mp ha),
    hunique b.2 place' b.1 hplace' ((hmem _ _).mp hb)]
  exact hlt

lemma nil (h : ∀ place x, ¬ stands place x) : Enumerates stands [] :=
  ⟨[], rfl, .nil, fun place x => iff_of_false List.not_mem_nil (h place x)⟩

lemma single (p : List Nat) (x : α) : Enumerates (fun place y => place = p ∧ y = x) [x] := by
  refine ⟨[(p, x)], rfl, List.pairwise_singleton _ _, fun place y => ?_⟩
  rw [List.mem_singleton, Prod.mk.injEq]

lemma congr (hxs : Enumerates stands xs) (h : ∀ place x, stands' place x ↔ stands place x) :
    Enumerates stands' xs := by
  obtain ⟨entries, hentries, hsorted, hmem⟩ := hxs
  exact ⟨entries, hentries, hsorted, fun place x => (hmem place x).trans (h place x).symm⟩

/-- What stands at places of one part. -/
lemma below (hxs : Enumerates stands xs) (i : Nat) :
    Enumerates (fun place x => ∃ rest, place = i :: rest ∧ stands rest x) xs := by
  obtain ⟨entries, hentries, hsorted, hmem⟩ := hxs
  refine ⟨entries.map fun e => (i :: e.1, e.2), ?_, ?_, fun place x => ?_⟩
  · rw [List.map_map]
    exact hentries
  · rw [List.pairwise_map]
    exact hsorted.imp fun h => List.cons_lt_cons_iff.mpr (.inr ⟨rfl, h⟩)
  · rw [List.mem_map]
    constructor
    · rintro ⟨⟨rest, y⟩, he, heq⟩
      obtain ⟨rfl, rfl⟩ := Prod.mk.inj heq
      exact ⟨rest, rfl, (hmem rest y).mp he⟩
    · rintro ⟨rest, rfl, h⟩
      exact ⟨(rest, x), (hmem rest x).mpr h, rfl⟩

lemma filterMap (hxs : Enumerates stands xs) (f : α → Option β) :
    Enumerates (fun place y => ∃ x, stands place x ∧ f x = some y) (xs.filterMap f) := by
  obtain ⟨entries, rfl, hsorted, hmem⟩ := hxs
  refine ⟨entries.filterMap fun e => (f e.2).map (e.1, ·), ?_, ?_, fun place y => ?_⟩
  · rw [List.map_filterMap, List.filterMap_map]
    refine List.filterMap_congr fun e _ => ?_
    simp [Option.map_map, Function.comp_def]
  · refine hsorted.filterMap _ fun a a' hlt b hb b' hb' => ?_
    obtain ⟨y, -, rfl⟩ := Option.map_eq_some_iff.mp hb
    obtain ⟨y', -, rfl⟩ := Option.map_eq_some_iff.mp hb'
    exact hlt
  · simp only [List.mem_filterMap, Prod.exists, Option.map_eq_some_iff, Prod.mk.injEq, hmem]
    constructor
    · rintro ⟨place, x, hx, y, hy, rfl, rfl⟩
      exact ⟨x, hx, hy⟩
    · rintro ⟨x, hx, hy⟩
      exact ⟨place, x, hx, y, hy, rfl, rfl⟩

/-- What stands at places that all come before others. -/
lemma append (hxs : Enumerates stands xs) (hys : Enumerates stands' ys)
    (hlt : ∀ place x place' y, stands place x → stands' place' y → place < place') :
    Enumerates (fun place x => stands place x ∨ stands' place x) (xs ++ ys) := by
  obtain ⟨entries, hentries, hsorted, hmem⟩ := hxs
  obtain ⟨entries', hentries', hsorted', hmem'⟩ := hys
  refine ⟨entries ++ entries', ?_, ?_, fun place x => ?_⟩
  · rw [List.map_append, hentries, hentries']
  · refine List.pairwise_append.mpr ⟨hsorted, hsorted', fun a ha b hb => ?_⟩
    exact hlt a.1 a.2 b.1 b.2 ((hmem _ _).mp ha) ((hmem' _ _).mp hb)
  · rw [List.mem_append, hmem, hmem']

/-- What stands at places of two parts. -/
lemma beside (hxs : Enumerates stands xs) (hys : Enumerates stands' ys) {i j : Nat} (h : i < j) :
    Enumerates (fun place x => (∃ rest, place = i :: rest ∧ stands rest x)
      ∨ ∃ rest, place = j :: rest ∧ stands' rest x) (xs ++ ys) := by
  refine (hxs.below i).append (hys.below j) ?_
  rintro _ x _ y ⟨rest, rfl, -⟩ ⟨rest', rfl, -⟩
  exact List.cons_lt_cons_iff.mpr (.inl h)

/-- What stands in numbered parts, the first of which has the number `k`. -/
lemma flatMap_from {items : List β} {f : β → List α} {standsIn : β → List Nat → α → Prop}
    (h : ∀ b ∈ items, Enumerates (standsIn b) (f b)) (k : Nat) :
    Enumerates (fun place x => ∃ i b rest,
      place = (k + i) :: rest ∧ items[i]? = some b ∧ standsIn b rest x) (items.flatMap f) := by
  induction items generalizing k with
  | nil => exact nil fun place x => by simp
  | cons b items ih =>
      obtain ⟨hb, hitems⟩ := List.forall_mem_cons.mp h
      rw [List.flatMap_cons]
      refine ((hb.below k).append (ih hitems (k + 1)) ?_).congr fun place x => ?_
      · rintro _ x _ y ⟨rest, rfl, -⟩ ⟨i, b', rest', rfl, -, -⟩
        exact List.cons_lt_cons_iff.mpr (.inl (by omega))
      · constructor
        · rintro ⟨i, b', rest, rfl, hi, hstands⟩
          cases i with
          | zero =>
              obtain rfl := Option.some.inj hi
              exact .inl ⟨rest, rfl, hstands⟩
          | succ i =>
              rw [show k + (i + 1) = k + 1 + i by omega]
              exact .inr ⟨i, b', rest, rfl, hi, hstands⟩
        · rintro (⟨rest, rfl, hstands⟩ | ⟨i, b', rest, rfl, hi, hstands⟩)
          · exact ⟨0, b, rest, rfl, rfl, hstands⟩
          · exact ⟨i + 1, b', rest, by rw [Nat.add_right_comm, Nat.add_assoc], hi, hstands⟩

lemma flatMap {items : List β} {f : β → List α} {standsIn : β → List Nat → α → Prop}
    (h : ∀ b ∈ items, Enumerates (standsIn b) (f b)) :
    Enumerates (fun place x => ∃ i b rest,
      place = i :: rest ∧ items[i]? = some b ∧ standsIn b rest x) (items.flatMap f) := by
  simpa using flatMap_from h 0

end Enumerates

end Enumerates

/-! ### Places of variables -/

section Places

variable (schema : Schema)

/-- A variable is used at a place in a literal that stands where a type is expected. -/
inductive Literal.UsesAt : Option TypeRef → Literal → List Nat → VariableUse → Prop
  | here {type? : Option TypeRef} {name : String} :
      UsesAt type? (.variable name) [] ⟨name, type?⟩
  | item {type? : Option TypeRef} {items : List Literal} {i : Nat} {x : Literal}
      {place : List Nat} {use : VariableUse} (hx : items[i]? = some x)
      (h : UsesAt (itemType? type?) x place use) : UsesAt type? (.list items) (i :: place) use
  | field {type? : Option TypeRef} {fields : List (String × Literal)} {i : Nat} {key : String}
      {x : Literal} {place : List Nat} {use : VariableUse} (hx : fields[i]? = some (key, x))
      (h : UsesAt (schema.objectFieldType? type? key) x place use) :
      UsesAt type? (.object fields) (i :: place) use

/-- A variable is used at a place in arguments that are declared as `inputs`. -/
inductive ArgumentsUseAt (inputs : List InputField) (arguments : List Argument) :
    List Nat → VariableUse → Prop
  | value {i : Nat} {a : Argument} {place : List Nat} {use : VariableUse}
      (ha : arguments[i]? = some a)
      (h : a.value.UsesAt schema ((inputs.find? (·.name == a.name)).map (·.type)) place use) :
      ArgumentsUseAt inputs arguments (i :: place) use

/-- A variable is used at a place in directives; the arguments of an unknown directive are taken for
those of the surrounding field. -/
inductive DirectivesUseAt (inputs : List InputField) (directives : List Directive) :
    List Nat → VariableUse → Prop
  | argument {i : Nat} {d : Directive} {place : List Nat} {use : VariableUse}
      (hd : directives[i]? = some d)
      (h : ArgumentsUseAt schema (((schema.directive? d.name).map (·.arguments)).getD inputs)
        d.arguments place use) :
      DirectivesUseAt inputs directives (i :: place) use

/-- A variable is used at a place in a selection: in a field's arguments, its directives and the
selections inside it, in this order. -/
inductive Selection.UsesAt :
    Option NamedType → List InputField → Selection → List Nat → VariableUse → Prop
  | argument {parent? : Option NamedType} {inputs : List InputField} {alias? : Option String}
      {name : String} {arguments : List Argument} {directives : List Directive}
      {selections? : Option (List Selection)} {place : List Nat} {use : VariableUse}
      (h : ArgumentsUseAt schema (schema.fieldInputs parent? name) arguments place use) :
      UsesAt parent? inputs (.field alias? name arguments directives selections?) (0 :: place) use
  | fieldDirective {parent? : Option NamedType} {inputs : List InputField}
      {alias? : Option String} {name : String} {arguments : List Argument}
      {directives : List Directive} {selections? : Option (List Selection)} {place : List Nat}
      {use : VariableUse}
      (h : DirectivesUseAt schema (schema.fieldInputs parent? name) directives place use) :
      UsesAt parent? inputs (.field alias? name arguments directives selections?) (1 :: place) use
  | inField {parent? : Option NamedType} {inputs : List InputField} {alias? : Option String}
      {name : String} {arguments : List Argument} {directives : List Directive}
      {selections : List Selection} {i : Nat} {s : Selection} {place : List Nat}
      {use : VariableUse} (hs : selections[i]? = some s)
      (h : UsesAt (schema.insideField? parent? name) (schema.fieldInputs parent? name) s place
        use) :
      UsesAt parent? inputs (.field alias? name arguments directives (some selections))
        (2 :: i :: place) use
  | spreadDirective {parent? : Option NamedType} {inputs : List InputField} {fragment : String}
      {directives : List Directive} {place : List Nat} {use : VariableUse}
      (h : DirectivesUseAt schema inputs directives place use) :
      UsesAt parent? inputs (.spread fragment directives) place use
  | inlineDirective {parent? : Option NamedType} {inputs : List InputField}
      {condition? : Option String} {directives : List Directive} {selections : List Selection}
      {place : List Nat} {use : VariableUse}
      (h : DirectivesUseAt schema inputs directives place use) :
      UsesAt parent? inputs (.inline condition? directives selections) (0 :: place) use
  | inInline {parent? : Option NamedType} {inputs : List InputField}
      {condition? : Option String} {directives : List Directive} {selections : List Selection}
      {i : Nat} {s : Selection} {place : List Nat} {use : VariableUse}
      (hs : selections[i]? = some s)
      (h : UsesAt (schema.insideInline? parent? condition?) inputs s place use) :
      UsesAt parent? inputs (.inline condition? directives selections) (1 :: i :: place) use

/-- A variable is used at a place in a definition: in its directives, then in its selections, which
are made on `parent?`. -/
inductive BodyUsesAt (parent? : Option NamedType) (directives : List Directive)
    (selections : List Selection) : List Nat → VariableUse → Prop
  | directive {place : List Nat} {use : VariableUse}
      (h : DirectivesUseAt schema [] directives place use) :
      BodyUsesAt parent? directives selections (0 :: place) use
  | selection {i : Nat} {s : Selection} {place : List Nat} {use : VariableUse}
      (hs : selections[i]? = some s) (h : s.UsesAt schema parent? [] place use) :
      BodyUsesAt parent? directives selections (1 :: i :: place) use

/-- A variable is used at a place in an operation. -/
def Operation.UsesAt (o : Operation) : List Nat → VariableUse → Prop :=
  BodyUsesAt schema (schema.operationType? o.kind) o.directives o.selections

/-- A variable is used at a place in a fragment. -/
def Fragment.UsesAt (f : Fragment) : List Nat → VariableUse → Prop :=
  BodyUsesAt schema (schema.composite? f.condition) f.directives f.selections

end Places

section Collected

variable {schema : Schema}

lemma itemUses_eq_flatMap (type? : Option TypeRef) (items : List Literal) :
    itemUses schema type? items = items.flatMap (·.uses schema type?) := by
  induction items with
  | nil => rfl
  | cons x items ih => rw [itemUses, ih, List.flatMap_cons]

lemma fieldUses_eq_flatMap (type? : Option TypeRef) (fields : List (String × Literal)) :
    fieldUses schema type? fields
      = fields.flatMap fun p => p.2.uses schema (schema.objectFieldType? type? p.1) := by
  induction fields with
  | nil => rfl
  | cons p fields ih => rw [fieldUses, ih, List.flatMap_cons]

mutual
lemma Literal.enumerates_uses (x : Literal) (type? : Option TypeRef) :
    Enumerates (x.UsesAt schema type?) (x.uses schema type?) := by
  match x with
  | .variable name =>
      rw [Literal.uses]
      refine (Enumerates.single [] _).congr fun place use => ⟨fun h => ?_, ?_⟩
      · cases h with
        | here => exact ⟨rfl, rfl⟩
      · rintro ⟨rfl, rfl⟩
        exact .here
  | .list items =>
      rw [Literal.uses, itemUses_eq_flatMap]
      refine (Enumerates.flatMap fun x hx => items_enumerates_uses items _ x hx).congr
        fun place use => ⟨fun h => ?_, ?_⟩
      · cases h with
        | item hx h => exact ⟨_, _, _, rfl, hx, h⟩
      · rintro ⟨i, x, rest, rfl, hx, h⟩
        exact .item hx h
  | .object fields =>
      rw [Literal.uses, fieldUses_eq_flatMap]
      refine (Enumerates.flatMap fun p hp => fields_enumerates_uses fields p hp _).congr
        fun place use => ⟨fun h => ?_, ?_⟩
      · cases h with
        | field hx h => exact ⟨_, _, _, rfl, hx, h⟩
      · rintro ⟨i, p, rest, rfl, hp, h⟩
        exact .field hp h
  | .int _ | .float _ | .string _ _ | .boolean _ | .null | .enum _ =>
      exact .nil fun place use h => by cases h
lemma items_enumerates_uses (items : List Literal) (type? : Option TypeRef) (x : Literal)
    (hx : x ∈ items) : Enumerates (x.UsesAt schema type?) (x.uses schema type?) := by
  match items, hx with
  | _ :: _, .head _ => exact Literal.enumerates_uses x type?
  | _ :: items, .tail _ hx => exact items_enumerates_uses items type? x hx
lemma fields_enumerates_uses (fields : List (String × Literal)) (p : String × Literal)
    (hp : p ∈ fields) (type? : Option TypeRef) :
    Enumerates (p.2.UsesAt schema type?) (p.2.uses schema type?) := by
  match fields with
  | (key, x) :: fields =>
      rcases List.mem_cons.mp hp with rfl | hp
      · exact Literal.enumerates_uses x type?
      · exact fields_enumerates_uses fields p hp type?
end

lemma enumerates_argumentUses (inputs : List InputField) (arguments : List Argument) :
    Enumerates (ArgumentsUseAt schema inputs arguments)
      (argumentUses schema inputs arguments) := by
  refine (Enumerates.flatMap fun a _ => a.value.enumerates_uses _).congr
    fun place use => ⟨fun h => ?_, ?_⟩
  · cases h with
    | value ha h => exact ⟨_, _, _, rfl, ha, h⟩
  · rintro ⟨i, a, rest, rfl, ha, h⟩
    exact .value ha h

lemma enumerates_directiveUses (inputs : List InputField) (directives : List Directive) :
    Enumerates (DirectivesUseAt schema inputs directives)
      (directiveUses schema inputs directives) := by
  refine (Enumerates.flatMap fun d _ => enumerates_argumentUses _ d.arguments).congr
    fun place use => ⟨fun h => ?_, ?_⟩
  · cases h with
    | argument hd h => exact ⟨_, _, _, rfl, hd, h⟩
  · rintro ⟨i, d, rest, rfl, hd, h⟩
    exact .argument hd h

lemma enumerates_headUses (schema : Schema) (inputs : List InputField) (arguments : List Argument)
    (directives : List Directive) :
    Enumerates (fun place use =>
        (∃ rest, place = 0 :: rest ∧ ArgumentsUseAt schema inputs arguments rest use)
          ∨ ∃ rest, place = 1 :: rest ∧ DirectivesUseAt schema inputs directives rest use)
      (argumentUses schema inputs arguments ++ directiveUses schema inputs directives) :=
  (enumerates_argumentUses _ _).beside (enumerates_directiveUses _ _) Nat.zero_lt_one

/-- What selections use, if each of them uses what it should. -/
lemma enumerates_usesIn {parent? : Option NamedType} {inputs : List InputField}
    {ss : List Selection}
    (h : ∀ s ∈ ss, Enumerates (s.UsesAt schema parent? inputs) (s.uses schema parent? inputs)) :
    Enumerates (fun place use => ∃ i s rest,
        place = i :: rest ∧ ss[i]? = some s ∧ s.UsesAt schema parent? inputs rest use)
      (usesIn schema parent? inputs ss) := by
  rw [usesIn_eq_flatMap]
  exact Enumerates.flatMap h

/-- The uses of a selection, place by place. -/
theorem Selection.enumerates_uses (s : Selection) (parent? : Option NamedType)
    (inputs : List InputField) :
    Enumerates (s.UsesAt schema parent? inputs) (s.uses schema parent? inputs) := by
  induction s using Selection.induct generalizing parent? inputs with
  | leaf alias? name arguments directives =>
      rw [Selection.uses]
      refine (enumerates_headUses _ _ arguments directives).congr
        fun place use => ⟨fun h => ?_, ?_⟩
      · cases h with
        | argument h => exact .inl ⟨_, rfl, h⟩
        | fieldDirective h => exact .inr ⟨_, rfl, h⟩
      · rintro (⟨rest, rfl, h⟩ | ⟨rest, rfl, h⟩)
        · exact .argument h
        · exact .fieldDirective h
  | composite alias? name arguments directives ss ih =>
      rw [Selection.uses]
      have hhead := enumerates_headUses schema (schema.fieldInputs parent? name)
        arguments directives
      have hinner := enumerates_usesIn fun s hs => ih s hs (schema.insideField? parent? name)
        (schema.fieldInputs parent? name)
      refine (hhead.append (hinner.below 2) ?_).congr fun place use => ⟨fun h => ?_, ?_⟩
      · rintro _ x _ y (⟨rest, rfl, -⟩ | ⟨rest, rfl, -⟩) ⟨rest', rfl, -⟩
        · exact List.cons_lt_cons_iff.mpr (.inl (by omega))
        · exact List.cons_lt_cons_iff.mpr (.inl (by omega))
      · cases h with
        | argument h => exact .inl (.inl ⟨_, rfl, h⟩)
        | fieldDirective h => exact .inl (.inr ⟨_, rfl, h⟩)
        | inField hs h => exact .inr ⟨_, rfl, _, _, _, rfl, hs, h⟩
      · rintro ((⟨rest, rfl, h⟩ | ⟨rest, rfl, h⟩) | ⟨_, rfl, i, s, rest, rfl, hs, h⟩)
        · exact .argument h
        · exact .fieldDirective h
        · exact .inField hs h
  | spread fragment directives =>
      rw [Selection.uses]
      refine (enumerates_directiveUses inputs directives).congr
        fun place use => ⟨fun h => ?_, fun h => .spreadDirective h⟩
      cases h with
      | spreadDirective h => exact h
  | inline condition? directives ss ih =>
      rw [Selection.uses]
      refine ((enumerates_directiveUses inputs directives).beside
        (enumerates_usesIn fun s hs => ih s hs (schema.insideInline? parent? condition?) inputs)
        Nat.zero_lt_one).congr fun place use => ⟨fun h => ?_, ?_⟩
      · cases h with
        | inlineDirective h => exact .inl ⟨_, rfl, h⟩
        | inInline hs h => exact .inr ⟨_, rfl, _, _, _, rfl, hs, h⟩
      · rintro (⟨rest, rfl, h⟩ | ⟨_, rfl, i, s, rest, rfl, hs, h⟩)
        · exact .inlineDirective h
        · exact .inInline hs h

lemma enumerates_bodyUses (parent? : Option NamedType) (directives : List Directive)
    (selections : List Selection) :
    Enumerates (BodyUsesAt schema parent? directives selections)
      (directiveUses schema [] directives ++ usesIn schema parent? [] selections) := by
  refine ((enumerates_directiveUses [] directives).beside
    (enumerates_usesIn fun s _ => s.enumerates_uses parent? []) Nat.zero_lt_one).congr
    fun place use => ⟨fun h => ?_, ?_⟩
  · cases h with
    | directive h => exact .inl ⟨_, rfl, h⟩
    | selection hs h => exact .inr ⟨_, rfl, _, _, _, rfl, hs, h⟩
  · rintro (⟨rest, rfl, h⟩ | ⟨_, rfl, i, s, rest, rfl, hs, h⟩)
    · exact .directive h
    · exact .selection hs h

/-- The uses of an operation, place by place. -/
theorem Operation.enumerates_uses (o : Operation) :
    Enumerates (o.UsesAt schema) (o.uses schema) := enumerates_bodyUses _ _ _

/-- The uses of a fragment, place by place. -/
theorem Fragment.enumerates_uses (f : Fragment) :
    Enumerates (f.UsesAt schema) (f.uses schema) := enumerates_bodyUses _ _ _

end Collected

/-! ### First places -/

section First

variable {stands : List Nat → VariableUse → Prop} {name : String} {type : TypeRef}
  {place last : List Nat} {uses : List VariableUse}

/-- The first place of known type where a name is used, with that type. -/
def FirstTyped (stands : List Nat → VariableUse → Prop) (name : String) (type : TypeRef)
    (place : List Nat) : Prop :=
  stands place ⟨name, some type⟩
    ∧ ∀ place' type', stands place' ⟨name, some type'⟩ → ¬ place' < place

/-- A use after all others is a first one only of a name that has not been used yet. -/
lemma firstTyped_concat {use : VariableUse} (hlast : ∀ place u, stands place u → place < last) :
    FirstTyped (fun place u => stands place u ∨ (place = last ∧ u = use)) name type place
      ↔ FirstTyped stands name type place
        ∨ (place = last ∧ use = ⟨name, some type⟩
          ∧ ∀ place' type', ¬ stands place' ⟨name, some type'⟩) := by
  constructor
  · rintro ⟨hstands | ⟨rfl, huse⟩, hfirst⟩
    · exact .inl ⟨hstands, fun place' type' h => hfirst place' type' (.inl h)⟩
    · exact .inr ⟨rfl, huse.symm, fun place' type' h =>
        hfirst place' type' (.inl h) (hlast place' _ h)⟩
  · rintro (⟨hstands, hfirst⟩ | ⟨rfl, rfl, hnone⟩)
    · refine ⟨.inl hstands, ?_⟩
      rintro place' type' (h | ⟨rfl, -⟩)
      · exact hfirst place' type' h
      · exact lt_asymm (hlast place _ hstands)
    · refine ⟨.inr ⟨rfl, rfl⟩, ?_⟩
      rintro place' type' (h | ⟨rfl, -⟩)
      · exact absurd h (hnone place' type')
      · exact lt_irrefl _

/-- What one more use adds to the variables with types: nothing if its variable is there already, or
if the type of its place is not known. -/
def newlyTyped (uses : List VariableUse) (use : VariableUse) : Keyed TypeRef :=
  match use.type? with
  | some type => if use.name ∈ Keyed.keys (typedUses uses) then [] else [(use.name, type)]
  | none => []

lemma typedUses_concat (uses : List VariableUse) (use : VariableUse) :
    typedUses (uses ++ [use]) = typedUses uses ++ newlyTyped uses use := by
  obtain ⟨name, type?⟩ := use
  rw [typedUses, List.foldl_append, ← typedUses]
  cases type? with
  | none => exact (List.append_nil _).symm
  | some type =>
      dsimp only [newlyTyped, List.foldl_cons, List.foldl_nil]
      by_cases hkey : name ∈ Keyed.keys (typedUses uses)
      · rw [if_pos (Keyed.has_iff.mpr hkey), if_pos hkey, List.append_nil]
      · rw [if_neg (mt Keyed.has_iff.mp hkey), if_neg hkey, Keyed.put_of_not_mem hkey]

/-- One more use is recorded if it is the first one of its variable at a known type. -/
lemma Enumerates.newlyTyped (last : List Nat) (uses : List VariableUse) (use : VariableUse) :
    Enumerates (fun place p => place = last ∧ use = ⟨p.1, some p.2⟩
      ∧ ∀ type, ⟨p.1, some type⟩ ∉ uses) (newlyTyped uses use) := by
  obtain ⟨name, type?⟩ := use
  cases type? with
  | none => exact .nil fun place p h => by cases h.2.1
  | some type =>
      rw [RemoteNodes.newlyTyped]
      dsimp only
      split
      · rename_i hkey
        obtain ⟨type', hused⟩ := mem_keys_typedUses.mp hkey
        refine .nil fun place p h => ?_
        obtain ⟨-, heq, hnone⟩ := h
        cases heq
        exact hnone type' hused
      · rename_i hkey
        refine (Enumerates.single last _).congr fun place p => and_congr_right fun _ => ?_
        constructor
        · rintro ⟨heq, -⟩
          cases heq
          rfl
        · rintro rfl
          exact ⟨rfl, fun type' hused => hkey (mem_keys_typedUses.mpr ⟨type', hused⟩)⟩

/-- **Variables are recorded by their first places of known type, in the order of these.** -/
theorem Enumerates.firstTyped (h : Enumerates stands uses) :
    Enumerates (fun place p => FirstTyped stands p.1 p.2 place) (typedUses uses) := by
  obtain ⟨entries, rfl, hsorted, hmem⟩ := h
  obtain rfl : (fun place use => (place, use) ∈ entries) = stands := by
    funext place use
    exact propext (hmem place use)
  clear hmem
  -- what is used last is recorded last, if at all
  induction entries using List.reverseRecOn with
  | nil => exact .nil fun place p h => List.not_mem_nil h.1
  | append_singleton entries e ih =>
      obtain ⟨last, use⟩ := e
      obtain ⟨hbefore, -, hlast⟩ := List.pairwise_append.mp hsorted
      replace hlast : ∀ place u, (place, u) ∈ entries → place < last := fun place u hu =>
        hlast _ hu _ (List.mem_singleton.mpr rfl)
      have hconcat : (fun place u => (place, u) ∈ entries ++ [(last, use)])
          = fun place u => (place, u) ∈ entries ∨ (place = last ∧ u = use) := by
        funext place u
        rw [List.mem_append, List.mem_singleton, Prod.mk.injEq]
      have hused (u : VariableUse) : u ∉ entries.map (·.2) ↔ ∀ place, (place, u) ∉ entries := by
        simp
      rw [List.map_append, List.map_singleton, typedUses_concat, hconcat]
      refine ((ih hbefore).append (.newlyTyped last _ use) ?_).congr fun place p => ?_
      · rintro place p _ _ ⟨h, -⟩ ⟨rfl, -⟩
        exact hlast place _ h
      · rw [firstTyped_concat hlast]
        simp only [hused]
        exact or_congr_right (and_congr_right fun _ => and_congr_right fun _ => forall_comm)

end First

end RemoteNodes
