import Mathlib.Tactic
import RemoteNodes.Proofs.Node.Shallow
import RemoteNodes.Proofs.Response.Narrowing
/-!
What custom fragments ask of other nodes at any depth. The walk enters a field of an abstract type
several times, once for each node type that it can return and once for all others, and passes over
what the first times have seen to.

* `Schema.Occurs`: a selection at any depth, with the type that it is selected on.
* `UsageWalk.Comes`: a selection that the walk comes to; `UsageWalk.Sees`: or all of whose members
  it comes to.
* `UsageWalk.sees_of_occurs`: **what narrowing leaves of a selection at any depth is seen**.
* `Execution.GathersOn.applicable`: what is asked for on objects of a possible type applies to it.
* `nested_requests_recorded`: **no nested request is lost** but for undefined fields.
-/

namespace RemoteNodes

open Relation

/-- A selection among selections on a type, at any depth: as one of them, in inline fragments or in
fields that are defined. It comes with the type that it is selected on. -/
inductive Schema.Occurs (schema : Schema) :
    NamedType → List Selection → NamedType → Selection → Prop
  | here {t : NamedType} {ss : List Selection} {s : Selection} (hs : s ∈ ss) :
      Occurs schema t ss t s
  | inline {t u : NamedType} {ss inner : List Selection} {s : Selection}
      {condition? : Option String} {directives : List Directive}
      (hs : .inline condition? directives inner ∈ ss)
      (h : Occurs schema (schema.conditionType t condition?) inner u s) : Occurs schema t ss u s
  | field {t u : NamedType} {ss inner : List Selection} {s : Selection} {alias? : Option String}
      {name : String} {arguments : List Argument} {directives : List Directive}
      (hs : .field alias? name arguments directives (some inner) ∈ ss)
      (hname : isMetaName name = false) (hdefines : t.defines name = true)
      (h : Occurs schema (schema.memberResult t name) inner u s) : Occurs schema t ss u s

namespace UsageWalk

variable {w : UsageWalk} {start site : Site} {t u p abstract : NamedType} {s s' : Selection}
  {ss inner : List Selection} {alias? condition? : Option String} {name : String}
  {arguments : List Argument} {directives : List Directive}

/-! ### Selections that apply to a possible type -/

/-- What applies to a possible type is what does of each selection. -/
lemma applicable_eq_flatMap (abstract possible : NamedType) (ss : List Selection) :
    w.applicable abstract possible ss = ss.flatMap fun s => w.applicable abstract possible [s] := by
  induction ss with
  | nil => rw [applicable, List.flatMap_nil]
  | cons s ss ih =>
      cases s with
      | field alias? name arguments directives selections? =>
          simp only [applicable, List.append_nil, List.flatMap_cons, ih]
      | spread fragment directives =>
          simp only [applicable, List.append_nil, List.flatMap_cons, ih]
      | inline condition? directives inner =>
          simp only [applicable, List.append_nil, List.flatMap_cons, ih]

lemma mem_applicable_of_mem {possible : NamedType} (hs : s ∈ ss)
    (h : s' ∈ w.applicable abstract possible [s]) : s' ∈ w.applicable abstract possible ss := by
  rw [applicable_eq_flatMap]
  exact List.mem_flatMap.mpr ⟨s, hs, h⟩

/-- Fields that the abstract type defines apply. -/
lemma field_mem_applicable {possible : NamedType} {selections? : Option (List Selection)}
    (hs : .field alias? name arguments directives selections? ∈ ss)
    (hdefines : abstract.defines name = true) :
    .field alias? name arguments directives selections? ∈ w.applicable abstract possible ss :=
  mem_applicable_of_mem hs (by simp [applicable, hdefines])

/-- What stands in an inline fragment on the possible type applies. -/
lemma subset_applicable (hs : .inline condition? directives inner ∈ ss)
    (hcondition : w.schema.conditionType abstract condition? = p) (hp : p.isAbstract = false) :
    inner ⊆ w.applicable abstract p ss := by
  intro s hmem
  exact mem_applicable_of_mem hs (by simp [applicable, hcondition, hp, hmem])

/-- What applies in an inline fragment on a type above the possible type applies. -/
lemma applicable_subset (hs : .inline condition? directives inner ∈ ss)
    (habstract : (w.schema.conditionType abstract condition?).isAbstract = true)
    (hsub : w.schema.isSubType (w.schema.conditionType abstract condition?) p.name = true) :
    w.applicable (w.schema.conditionType abstract condition?) p inner
      ⊆ w.applicable abstract p ss := by
  intro s hmem
  exact mem_applicable_of_mem hs (by simp [applicable, habstract, hsub, hmem])

/-! ### What the walk comes to -/

/-- The walk comes to a selection on a type at a path if it descends to it from what is left where
selections are collected. -/
def Comes (w : UsageWalk) (start : Site) (path : String) (t : NamedType) (s : Selection) : Prop :=
  ∃ site first, ReflTransGen w.Leads start site ∧ site.path = path
    ∧ first ∈ narrowAll w.schema site.type site.selections
    ∧ ReflTransGen w.Descends (site.type, first) (t, s)

/-- The walk sees to a selection if it comes to it, or if this is an inline fragment with members
that it comes to. -/
def Sees (w : UsageWalk) (start : Site) (t : NamedType) (s : Selection) : Prop :=
  (∃ path, w.Comes start path t s)
    ∨ ∃ condition? directives inner, s = .inline condition? directives inner
      ∧ ∀ s' ∈ inner, ∃ path, w.Comes start path (w.schema.conditionType t condition?) s'

namespace Comes

variable {path : String}

lemma descends (h : w.Comes start path t s) (hnext : w.Descends (t, s) (u, s')) :
    w.Comes start path u s' := by
  obtain ⟨site, first, hchain, hpath, hfirst, hdescends⟩ := h
  exact ⟨site, first, hchain, hpath, hfirst, hdescends.tail hnext⟩

/-- What is asked for where the walk comes is collected. -/
lemma leads (h : w.Comes start path t s) (hasks : w.Asks path (t, s) site) :
    ReflTransGen w.Leads start site := by
  obtain ⟨from', first, hchain, rfl, hfirst, hdescends⟩ := h
  exact hchain.tail ⟨first, hfirst, _, hdescends, hasks⟩

end Comes

/-- The walk comes to what is left where selections are collected. -/
lemma comes_of_leads (h : ReflTransGen w.Leads start site)
    (hs : s ∈ narrowAll w.schema site.type site.selections) :
    w.Comes start site.path site.type s :=
  ⟨site, s, h, rfl, hs, .refl⟩

/-- The walk comes to the members of an inline fragment that it sees to. -/
lemma Sees.of_inline (h : w.Sees start t (.inline condition? directives inner)) (hs : s ∈ inner)
    (haccepts : (w.schema.conditionType t condition?).accepts s = true) :
    ∃ path, w.Comes start path (w.schema.conditionType t condition?) s := by
  rcases h with ⟨path, h⟩ | ⟨_, _, _, heq, h⟩
  · refine ⟨path, h.descends (.inline hs ⟨?_, haccepts⟩)⟩
    cases s <;> rfl
  · cases heq
    exact h s hs

/-- The walk comes to a field that it sees to. -/
lemma Sees.of_field {selections? : Option (List Selection)}
    (h : w.Sees start t (.field alias? name arguments directives selections?)) :
    ∃ path, w.Comes start path t (.field alias? name arguments directives selections?) :=
  h.resolve_right fun ⟨_, _, _, heq, _⟩ => nomatch heq

/-- An inline fragment on a node type that a field can return is made on the type itself. -/
lemma exists_of_isOnNodeType (hschema : w.schema.Conforms) (ht : w.schema.Familiar t)
    (h : w.isOnNodeType t (w.nodeTypes t) s = true) : ∃ condition? directives inner,
      s = .inline condition? directives inner
        ∧ w.schema.conditionType t condition? ∈ w.nodeTypes t := by
  cases s with
  | field _ _ _ _ _ | spread _ _ => cases h
  | inline condition? directives inner =>
      obtain ⟨p, hp, hname⟩ := List.any_eq_true.mp h
      have hmem : w.schema.conditionType t condition? ∈ w.schema.types := by
        have ht : t ∈ w.schema.types := by
          refine ht.resolve_right fun hscalar => ?_
          simp [nodeTypes, NamedType.isAbstract, hscalar] at hp
        cases condition? with
        | none => exact ht
        | some condition =>
            rw [Schema.conditionType]
            cases hu : w.schema.type? condition with
            | none => exact ht
            | some u => exact Schema.mem_of_type? hu
      have heq : w.schema.conditionType t condition? = p := by
        refine List.inj_on_of_nodup_map hschema.distinct hmem (mem_types_of_mem_nodeTypes hp) ?_
        exact (beq_iff_eq.mp hname).symm
      exact ⟨condition?, directives, inner, rfl, heq ▸ hp⟩

/-- The node types that a field can return are object types. -/
lemma isAbstract_of_mem_nodeTypes (hschema : w.schema.Conforms) (ht : w.schema.Familiar t)
    (hp : p ∈ w.nodeTypes t) : p.isAbstract = false := by
  have ht : t ∈ w.schema.types := by
    refine ht.resolve_right fun hscalar => ?_
    simp [nodeTypes, NamedType.isAbstract, hscalar] at hp
  rw [nodeTypes] at hp
  split at hp
  · obtain ⟨-, hobject, -⟩ := hschema.of_mem_possibleTypes ht (List.mem_filter.mp hp).1
    exact NamedType.not_isAbstract_of_isObject hobject
  · cases hp

/-- **The walk sees to what stands in a field that it comes to.** It collects it if the type of the
field has a reference. Otherwise it goes on into it, except into inline fragments on node types:
these it collects for the node type. -/
lemma Comes.sees {path : String} (hschema : w.schema.Conforms)
    (h : w.Comes start path t (.field alias? name arguments directives (some inner)))
    (hname : isMetaName name = false) (hs : s ∈ inner)
    (hleaves : w.schema.Leaves (w.schema.memberResult t name) s) :
    w.Sees start (w.schema.memberResult t name) s := by
  cases hnode : Keyed.has w.references (w.schema.memberResult t name).name with
  | true =>
      exact .inl ⟨_, comes_of_leads (h.leads (.all hname hnode)) (hleaves.mem_narrowAll hs)⟩
  | false =>
      cases hseen : w.isOnNodeType (w.schema.memberResult t name)
          (w.nodeTypes (w.schema.memberResult t name)) s with
      | false => exact .inl ⟨path, h.descends (.field hname hnode hs ⟨hseen, hleaves.1⟩)⟩
      | true =>
          have hfamiliar : w.schema.Familiar (w.schema.memberResult t name) :=
            .memberResult t name
          obtain ⟨condition?, directives', inner', rfl, hp⟩ :=
            exists_of_isOnNodeType hschema hfamiliar hseen
          have hsub := subset_applicable hs rfl (isAbstract_of_mem_nodeTypes hschema hfamiliar hp)
          refine .inr ⟨condition?, directives', inner', rfl, fun s' hs' => ?_⟩
          have hleads := h.leads (.applicable hname hnode hp (List.ne_nil_of_mem (hsub hs')))
          -- the fragment is narrowed already, so all its members are left again
          have hinner := (Selection.narrow?_inline.mp hleaves.2).2
          rw [Selection.inline.injEq] at hinner
          have hmember := leaves_of_mem_narrowAll (hinner.2.2 ▸ hs')
          exact ⟨_, comes_of_leads hleads (hmember.mem_narrowAll (hsub hs'))⟩

/-- **What is left of a selection at any depth is seen to**, if what is left of the selections
is. -/
theorem sees_of_occurs (hschema : w.schema.Conforms) (h : w.schema.Occurs t ss u s)
    (hss : ∀ s ∈ narrowAll w.schema t ss, w.Sees start t s) (haccepts : u.accepts s = true)
    (hs' : s.narrow? w.schema u = some s') : w.Sees start u s' := by
  induction h with
  | here hs => exact hss s' (mem_narrowAll.mpr ⟨_, hs, haccepts, hs'⟩)
  | inline hs _ ih =>
      refine ih (fun s hs'' => ?_) haccepts hs'
      have hmem := Selection.inline_mem_narrowAll hs (List.ne_nil_of_mem hs'')
      exact .inl ((hss _ hmem).of_inline hs'' (leaves_of_mem_narrowAll hs'').1)
  | field hs hname hdefines _ ih =>
      refine ih (fun s hs'' => ?_) haccepts hs'
      have hmem := Selection.composite_mem_narrowAll hname hs hdefines (List.ne_nil_of_mem hs'')
      obtain ⟨path, hcomes⟩ := (hss _ hmem).of_field
      exact hcomes.sees hschema hname hs'' (leaves_of_mem_narrowAll hs'')

/-! ### What is asked for on possible types -/

/-- **What is asked for on objects of a possible type applies to it.** In what applies it is
selected on the same type as before or on the possible type. -/
theorem applicable_of_gathersOn {x : Execution} {field : Selection}
    (hp : w.schema.type? p.name = some p) (hobject : p.isObject = true)
    (h : x.GathersOn w.schema p.name t ss u field)
    (hsub : w.schema.isSubType t p.name = true) (haccepts : u.accepts field = true) :
    ∃ v, (v = u ∨ v = p) ∧ x.GathersOn w.schema p.name p (w.applicable t p ss) v field := by
  induction h with
  | field hs hadmits => exact ⟨p, .inr rfl, .field (field_mem_applicable hs haccepts) hadmits⟩
  | @inline t u ss inner field condition? directives hs hadmits happlies h ih =>
      have hgoesOn
          (hsub' : w.schema.isSubType (w.schema.conditionType t condition?) p.name = true) :
          ∃ v, (v = u ∨ v = p) ∧ x.GathersOn w.schema p.name p (w.applicable t p ss) v field := by
        have habstract := Schema.isAbstract_of_isSubType hsub'
        obtain ⟨v, hv, h⟩ := ih hsub' haccepts
        exact ⟨v, hv, h.mono (applicable_subset hs habstract hsub')⟩
      cases condition? with
      | none => exact hgoesOn hsub
      | some condition =>
          rcases happlies condition rfl with rfl | ⟨u', hu', hsub'⟩
          · have hcondition : w.schema.conditionType t (some p.name) = p := by
              rw [Schema.conditionType, hp, Option.getD_some]
            rw [hcondition] at h
            exact ⟨u, .inl rfl, h.mono (subset_applicable hs hcondition
              (NamedType.not_isAbstract_of_isObject hobject))⟩
          · have hcondition : w.schema.conditionType t (some condition) = u' := by
              rw [Schema.conditionType, hu', Option.getD_some]
            exact hgoesOn (hcondition ▸ hsub')

end UsageWalk

/-! ### Nested requests -/

section Requests

variable {schema : Schema} {references : References} {customs : List Fragment} {f : Fragment}

/-- What a field of an abstract type asks for on objects of a node type, where its selections are
narrowed already, is asked for by what is recorded under the node type. -/
lemma exists_recorded_of_possibleType (hschema : schema.Conforms) (hf : f ∈ customs)
    {start : UsageWalk.Site} {path : String} {u p v : NamedType} {alias? : Option String}
    {name : String} {arguments : List Argument} {directives : List Directive}
    {inner : List Selection} {x : Execution} {s s' : Selection}
    (hbegins : (usageWalk schema references customs).Begins f start)
    (hcomes : (usageWalk schema references customs).Comes start path u
      (.field alias? name arguments directives (some inner)))
    (hname : isMetaName name = false)
    (hnone : Keyed.has references (schema.memberResult u name).name = false)
    (hp : p ∈ schema.possibleTypes (schema.memberResult u name))
    (hnode : Keyed.has references p.name = true)
    (h : x.GathersOn schema p.name (schema.memberResult u name) inner v s)
    (hv : schema.Leaves v s) (hp' : p.accepts s = true) (hs' : s.narrow? schema p = some s') :
    ∃ path, ∃ e ∈
        (Usages.ofEvents (usageEvents schema references customs)).selectionsAt p.name path,
      ∃ g, x.Gathers schema [] p.name [e] g ∧ g.includes s' = true := by
  have hresult : schema.memberResult u name ∈ schema.types := by
    refine (Schema.Familiar.memberResult u name).resolve_right fun hscalar => ?_
    rw [Schema.possibleTypes, hscalar] at hp
    cases hp
  obtain ⟨hcomposite, hobject, hsub⟩ := hschema.of_mem_possibleTypes hresult hp
  have habstract := Schema.isAbstract_of_isSubType hsub
  obtain ⟨v', hv', happlicable⟩ := UsageWalk.applicable_of_gathersOn
    (w := usageWalk schema references customs) (Schema.composite?_eq_some.mp hcomposite).1 hobject h
    hsub hv.1
  have hnodes :
      p ∈ (usageWalk schema references customs).nodeTypes (schema.memberResult u name) := by
    rw [UsageWalk.nodeTypes, if_pos habstract]
    exact List.mem_filter.mpr ⟨hp, hnode⟩
  have hleads := hcomes.leads (.applicable hname hnone hnodes happlicable.ne_nil)
  -- it is narrowed again, for the type that it is selected on or for the node type
  obtain ⟨s'', hleft, hincludes⟩ : ∃ s'', x.GathersOn schema p.name p
      (narrowAll schema p ((usageWalk schema references customs).applicable
        (schema.memberResult u name) p inner)) v' s'' ∧ s''.includes s' = true := by
    rcases hv' with rfl | rfl
    · exact ⟨s, happlicable.narrowAll hv.1 hv.2, Selection.includes_of_narrow? hs'⟩
    · exact ⟨s', happlicable.narrowAll hp' hs', s'.includes_self⟩
  obtain ⟨e, he, g, hg, hincludes'⟩ := hleft.gathers.exists_recorded hf hbegins hleads
  exact ⟨_, e, he, g, hg, Selection.includes_trans hincludes' hincludes⟩

/-- **No nested request is lost**, for any field with selections in a custom fragment. What is left
of its selections is recorded under its type if that has a reference. If the type is abstract and
has none, then what is recorded under each node type that it can be asks for all fields that the
selections ask for on objects of the node type, once these are narrowed for the type that they are
selected on and for the node type. -/
theorem nested_requests_recorded (hschema : schema.Conforms) (references : References)
    (hf : f ∈ customs)
    (hroot : schema.query? ≠ some f.condition ∧ schema.mutation? ≠ some f.condition)
    {t u : NamedType} (ht : schema.composite? f.condition = some t) {alias? : Option String}
    {name : String} {arguments : List Argument} {directives : List Directive}
    {inner : List Selection}
    (hoccurs : schema.Occurs t f.selections u
      (.field alias? name arguments directives (some inner)))
    (hname : isMetaName name = false) (hdefines : u.defines name = true) :
    ∃ usages, (typeUsages schema customs references).outcome = .ok usages
      ∧ (Keyed.has references (schema.memberResult u name).name = true →
        ∀ s ∈ narrowAll schema (schema.memberResult u name) inner,
          ∃ path, ∃ e ∈ usages.selectionsAt (schema.memberResult u name).name path,
            e.same s = true)
      ∧ (Keyed.has references (schema.memberResult u name).name = false →
        ∀ p ∈ schema.possibleTypes (schema.memberResult u name),
          Keyed.has references p.name = true →
          ∀ (x : Execution) v field s s',
            x.GathersOn schema p.name (schema.memberResult u name) inner v field →
            v.accepts field = true → field.narrow? schema v = some s →
            p.accepts s = true → s.narrow? schema p = some s' →
            ∃ path, ∃ e ∈ usages.selectionsAt p.name path, ∃ g,
              x.Gathers schema [] p.name [e] g ∧ g.includes s' = true) := by
  have hbegins : (usageWalk schema references customs).Begins f ⟨t, f.name, f.selections⟩ :=
    ⟨hroot, t, ht, rfl⟩
  -- the walk comes to the field if anything is left of its selections
  have hcomes (hne : narrowAll schema (schema.memberResult u name) inner ≠ []) : ∃ path,
      (usageWalk schema references customs).Comes ⟨t, f.name, f.selections⟩ path u
        (.field alias? name arguments directives
          (some (narrowAll schema (schema.memberResult u name) inner))) := by
    refine (UsageWalk.sees_of_occurs (w := usageWalk schema references customs) hschema hoccurs
      (fun s hs => ?_) hdefines ((Selection.narrow?_composite hname).mpr ⟨hne, rfl⟩)).of_field
    exact .inl ⟨_, UsageWalk.comes_of_leads .refl hs⟩
  refine ⟨_, rfl, fun hnode s hs => ?_, fun hnone p hp hnode x v field s s' h hv hs hp' hs' => ?_⟩
  · obtain ⟨path, hcomes⟩ := hcomes (List.ne_nil_of_mem hs)
    exact ⟨_, exists_same_of_leads hf hbegins (hcomes.leads (.all hname hnode))
      ((leaves_of_mem_narrowAll hs).mem_narrowAll hs)⟩
  · have h := h.narrowAll hv hs
    obtain ⟨path, hcomes⟩ := hcomes h.ne_nil
    exact exists_recorded_of_possibleType hschema hf hbegins hcomes hname hnone hp hnode h
      ⟨(Selection.accepts_of_narrow? hs v).trans hv, Selection.narrow?_of_narrow? hs⟩ hp' hs'

/-! ### Requests on items -/

/-- A custom fragment that asks for the name of an item where it is a node, and for the name of its
author where it is none. -/
def itemRequests : Fragment where
  name := "Top"
  condition := "Top"
  selections := [.plain "items" (some [.inline (some "Foo") [] [.plain "name"],
    .inline (some "Meta") [] [.plain "author" (some [.plain "name"])]])]

/-- The name of the node is recorded under its type. -/
theorem nested_requests_recorded_items : ∃ usages,
    (typeUsages itemSchema [itemRequests] fooReferences).outcome = .ok usages
    ∧ ∃ path, ∃ e ∈ usages.selectionsAt "Foo" path, ∃ g,
      Execution.Gathers ⟨fun _ => false, fun _ => none⟩ itemSchema [] "Foo" [e] g
        ∧ g.includes (.plain "name") = true := by
  obtain ⟨usages, husages, -, hnodes⟩ := nested_requests_recorded lawful_itemSchema.toConforms
    fooReferences (List.mem_singleton_self itemRequests) (by decide) (t := topType) (u := topType)
    rfl (.here List.mem_cons_self) (by decide +kernel) (by decide +kernel)
  refine ⟨usages, husages, hnodes rfl fooType (by decide) rfl _ fooType (.plain "name")
    (.plain "name") (.plain "name") ?_ (by decide +kernel) rfl (by decide +kernel) rfl⟩
  exact .inline List.mem_cons_self (Execution.admits_nil _)
    (fun _ h => .inl (Option.some.inj h).symm)
    (.field List.mem_cons_self (Execution.admits_nil _))

/-- A custom fragment that asks for the name of whatever is an item. -/
def itemNames : Fragment where
  name := "Top"
  condition := "Top"
  selections := [.plain "items" (some [.plain "name"])]

lemma usages_itemNames : Usages.ofEvents (usageEvents itemSchema fooReferences [itemNames])
    = [("Top", [("Top", [])])] := by
  cbv

/-- The walk warns that it will not fetch the name of an item. The name is asked for on nodes, which
have one, but nothing is recorded under their type. -/
theorem abstract_request_lost :
    itemSchema.Occurs topType itemNames.selections topType (.plain "items" (some [.plain "name"]))
    ∧ itemSchema.memberResult topType "items" = itemType
    ∧ Keyed.has fooReferences itemType.name = false
    ∧ fooType ∈ itemSchema.possibleTypes itemType ∧ Keyed.has fooReferences fooType.name = true
    ∧ (∀ x : Execution, x.GathersOn itemSchema fooType.name itemType [.plain "name"] itemType
        (.plain "name"))
    ∧ fooType.accepts (.plain "name") = true
    ∧ (Selection.plain "name").narrow? itemSchema fooType = some (.plain "name")
    ∧ (typeUsages itemSchema [itemNames] fooReferences).warnings
      = [.undefinedField "name" "Item" false]
    ∧ ∃ usages, (typeUsages itemSchema [itemNames] fooReferences).outcome = .ok usages
      ∧ ∀ path, usages.selectionsAt "Foo" path = [] := by
  refine ⟨.here List.mem_cons_self, rfl, rfl, by decide, rfl, fun x => ?_, by decide +kernel, rfl,
    by cbv, _, congrArg Except.ok usages_itemNames, fun path => rfl⟩
  exact .field List.mem_cons_self x.admits_nil

end Requests

end RemoteNodes
