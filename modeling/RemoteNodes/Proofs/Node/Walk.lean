import Mathlib.Logic.Relation
import Mathlib.Tactic
import RemoteNodes.Node.Usage
import RemoteNodes.Proofs.Selection.Rule
/-!
Where the walk over custom fragments comes. It goes from selections to those inside them, and where
a field stands for another node it collects anew, at a path of its own.

* `UsageWalk.Descends`: a step from a selection into it, on the way to other nodes.
* `UsageWalk.Asks`: what the selections of a field ask of another node.
* `UsageWalk.Site`, `UsageWalk.Leads`: selections that are collected, and a step from one collection
  to another one.
* `UsageWalk.found_mem_collect_iff`: **the walk finds what narrowing leaves of the selections that
  it collects, and nothing else**.
* `UsageWalk.Inherited`: properties that pass to all that is collected.
-/

namespace RemoteNodes.UsageWalk

open Relation

variable {w : UsageWalk}

/-! ### Steps of the walk -/

/-- Inside a field or an inline fragment the walk goes on to fields that are defined, and passes
over inline fragments on node types that have been seen to. -/
def GoesOnTo (w : UsageWalk) (t : NamedType) (seen : List NamedType) (s : Selection) : Prop :=
  w.isOnNodeType t seen s = false ∧ t.accepts s = true

/-- A step from a selection on a type to one that stands in it, if it asks for no other node. -/
inductive Descends (w : UsageWalk) : NamedType × Selection → NamedType × Selection → Prop where
  | inline {t : NamedType} {condition? : Option String} {directives : List Directive}
      {ss : List Selection} {s : Selection} :
      s ∈ ss → w.GoesOnTo (w.schema.conditionType t condition?) [] s →
      Descends w (t, .inline condition? directives ss) (w.schema.conditionType t condition?, s)
  | field {t : NamedType} {alias? : Option String} {name : String} {arguments : List Argument}
      {directives : List Directive} {ss : List Selection} {s : Selection} :
      isMetaName name = false →
      Keyed.has w.references (w.schema.memberResult t name).name = false →
      s ∈ ss →
      w.GoesOnTo (w.schema.memberResult t name) (w.nodeTypes (w.schema.memberResult t name)) s →
      Descends w (t, .field alias? name arguments directives (some ss))
        (w.schema.memberResult t name, s)

/-- Selections of a type that are collected at a path. -/
structure Site where
  type : NamedType
  path : String
  selections : List Selection

/-- What a field asks of another node: all of its selections if its type has a reference, else those
that apply to one of its possible types that is a node type. -/
inductive Asks (w : UsageWalk) (path : String) : NamedType × Selection → Site → Prop where
  | all {t : NamedType} {alias? : Option String} {name : String} {arguments : List Argument}
      {directives : List Directive} {ss : List Selection} :
      isMetaName name = false →
      Keyed.has w.references (w.schema.memberResult t name).name = true →
      Asks w path (t, .field alias? name arguments directives (some ss))
        ⟨w.schema.memberResult t name, path ++ "__" ++ name, ss⟩
  | applicable {t p : NamedType} {alias? : Option String} {name : String}
      {arguments : List Argument} {directives : List Directive} {ss : List Selection} :
      isMetaName name = false →
      Keyed.has w.references (w.schema.memberResult t name).name = false →
      p ∈ w.nodeTypes (w.schema.memberResult t name) →
      w.applicable (w.schema.memberResult t name) p ss ≠ [] →
      Asks w path (t, .field alias? name arguments directives (some ss))
        ⟨p, path ++ "__" ++ name, w.applicable (w.schema.memberResult t name) p ss⟩

/-- What is found where selections are collected: what narrowing leaves of them. -/
def Site.Holds (w : UsageWalk) (site : Site) (type path : String) (s : Selection) : Prop :=
  site.type.name = type ∧ site.path = path ∧ s ∈ narrowAll w.schema site.type site.selections

/-- One collection leads to another one: from a selection that narrowing leaves, into it, to a field
that asks for another node. -/
def Leads (w : UsageWalk) (site site' : Site) : Prop :=
  ∃ s ∈ narrowAll w.schema site.type site.selections, ∃ field,
    ReflTransGen w.Descends (site.type, s) field ∧ w.Asks site.path field site'

/-! ### What one step finds -/

section Found

variable {t : NamedType} {path type inner : String} {s s' : Selection} {ss : List Selection}

lemma found_mem_extractEach {seen : List NamedType} :
    .found type inner s ∈ w.extractEach t seen path ss
      ↔ ∃ s' ∈ ss, w.GoesOnTo t seen s' ∧ .found type inner s ∈ w.extract t path s' := by
  induction ss with
  | nil => simp [extractEach]
  | cons s' ss ih =>
      rw [List.exists_mem_cons_iff, ← ih]
      cases s' with
      | field alias? name arguments directives selections? =>
          rw [extractEach, List.mem_append]
          refine or_congr_left ?_
          by_cases hdefines : t.defines name <;>
            simp [GoesOnTo, isOnNodeType, NamedType.accepts, hdefines]
      | spread fragment directives =>
          rw [extractEach, List.mem_append]
          · simp [GoesOnTo, isOnNodeType, NamedType.accepts]
          · intros
            contradiction
      | inline condition? directives ss' =>
          rw [extractEach, List.mem_append]
          · refine or_congr_left ?_
            by_cases hseen : w.isOnNodeType t seen (.inline condition? directives ss') <;>
              simp [GoesOnTo, NamedType.accepts, hseen]
          · intros
            contradiction

lemma found_mem_collectEach : .found type inner s ∈ w.collectEach t path ss
    ↔ (t.name = type ∧ path = inner ∧ s ∈ ss)
      ∨ ∃ s' ∈ ss, .found type inner s ∈ w.extract t path s' := by
  induction ss with
  | nil => simp [collectEach]
  | cons s' ss ih =>
      rw [collectEach, List.cons_append, List.mem_cons, List.mem_append, ih]
      simp only [UsageEvent.found.injEq, List.mem_cons, exists_eq_or_imp]
      grind

lemma found_mem_collect : .found type inner s ∈ w.collect t path ss
    ↔ Site.Holds w ⟨t, path, ss⟩ type inner s
      ∨ ∃ s' ∈ narrowAll w.schema t ss, .found type inner s ∈ w.extract t path s' := by
  rw [collect, List.cons_append, List.mem_cons, List.mem_append, found_mem_collectEach]
  simp [Site.Holds]

/-- What is found in a field whose type has no reference. -/
private lemma found_mem_extract_field {alias? : Option String} {name : String}
    {arguments : List Argument} {directives : List Directive} (hmeta : isMetaName name = false)
    (hnode : Keyed.has w.references (w.schema.memberResult t name).name = false) :
    .found type inner s ∈ w.extract t path (.field alias? name arguments directives (some ss))
      ↔ (∃ p ∈ w.nodeTypes (w.schema.memberResult t name),
          w.applicable (w.schema.memberResult t name) p ss ≠ []
            ∧ .found type inner s ∈ w.collect p (path ++ "__" ++ name)
              (w.applicable (w.schema.memberResult t name) p ss))
        ∨ .found type inner s ∈ w.extractEach (w.schema.memberResult t name)
          (w.nodeTypes (w.schema.memberResult t name)) path ss := by
  rw [extract, if_neg (by simp [hmeta])]
  simp only [hnode, Bool.false_eq_true, if_false, List.mem_append, List.mem_flatMap]
  refine or_congr_left (exists_congr fun p => and_congr_right fun _ => ?_)
  split
  · rename_i happlicable
    simp [happlicable]
  · rename_i happlicable
    simp [happlicable]

/-- What is found after a step is found before it. -/
lemma Descends.found {start next : NamedType × Selection} (h : w.Descends start next)
    (hfound : .found type inner s ∈ w.extract next.1 path next.2) :
    .found type inner s ∈ w.extract start.1 path start.2 := by
  cases h with
  | inline hs hgoes =>
      rw [extract]
      exact found_mem_extractEach.mpr ⟨_, hs, hgoes, hfound⟩
  | field hmeta hnode hs hgoes =>
      exact (found_mem_extract_field hmeta hnode).mpr
        (.inr (found_mem_extractEach.mpr ⟨_, hs, hgoes, hfound⟩))

/-- What is found in a collection is found at the field that asks for it. -/
lemma Asks.found {start : NamedType × Selection} {site : Site} (h : w.Asks path start site)
    (hfound : .found type inner s ∈ w.collect site.type site.path site.selections) :
    .found type inner s ∈ w.extract start.1 path start.2 := by
  cases h with
  | all hmeta hnode =>
      rw [extract, if_neg (by simp [hmeta])]
      simp only [hnode, if_true]
      exact hfound
  | applicable hmeta hnode hp hne =>
      exact (found_mem_extract_field hmeta hnode).mpr (.inl ⟨_, hp, hne, hfound⟩)

/-- What is found in a selection is found after a step, or in a collection that it asks for. -/
lemma of_found_mem_extract (h : .found type inner s ∈ w.extract t path s') :
    (∃ next, w.Descends (t, s') next ∧ .found type inner s ∈ w.extract next.1 path next.2)
      ∨ ∃ site, w.Asks path (t, s') site
        ∧ .found type inner s ∈ w.collect site.type site.path site.selections := by
  cases s' with
  | spread fragment directives =>
      rw [extract] at h
      cases h
  | inline condition? directives ss =>
      rw [extract] at h
      obtain ⟨s', hs', hgoes, h⟩ := found_mem_extractEach.mp h
      exact .inl ⟨_, .inline hs' hgoes, h⟩
  | field alias? name arguments directives selections? =>
      cases selections? with
      | none =>
          rw [extract] at h
          cases h
      | some ss =>
          cases hmeta : isMetaName name with
          | true =>
              rw [extract, if_pos hmeta] at h
              cases h
          | false =>
              cases hnode : Keyed.has w.references (w.schema.memberResult t name).name with
              | true =>
                  rw [extract, if_neg (by simp [hmeta])] at h
                  simp only [hnode, if_true] at h
                  exact .inr ⟨_, .all hmeta hnode, h⟩
              | false =>
                  rcases (found_mem_extract_field hmeta hnode).mp h with ⟨p, hp, hne, h⟩ | h
                  · exact .inr ⟨_, .applicable hmeta hnode hp hne, h⟩
                  · obtain ⟨s', hs', hgoes, h⟩ := found_mem_extractEach.mp h
                    exact .inl ⟨_, .field hmeta hnode hs' hgoes, h⟩

/-! ### What the walk finds -/

/-- A step leads to a smaller selection. -/
lemma Descends.size_lt {start next : NamedType × Selection} (h : w.Descends start next) :
    next.2.size < start.2.size := by
  cases h with
  | inline hs _ | field _ _ hs _ =>
      have := Selection.size_le_sizeAll hs
      simp only [Selection.size]
      omega

/-- What a field asks for is smaller than the field. -/
lemma Asks.sizeAll_lt {start : NamedType × Selection} {site : Site} (h : w.Asks path start site) :
    Selection.sizeAll site.selections < start.2.size := by
  cases h with
  | all _ _ =>
      simp only [Selection.size]
      omega
  | @applicable t p _ name _ _ ss _ _ _ _ =>
      have := sizeAll_applicable_le w (w.schema.memberResult t name) p ss
      simp only [Selection.size]
      omega

/-- What is found in a selection is found in a collection that it leads to. -/
lemma exists_of_found_mem_extract (h : .found type inner s ∈ w.extract t path s') :
    ∃ field site site', ReflTransGen w.Descends (t, s') field ∧ w.Asks path field site
      ∧ ReflTransGen w.Leads site site' ∧ site'.Holds w type inner s := by
  -- both a step and a field that asks for something lead to smaller selections
  induction hsize : s'.size using Nat.strong_induction_on generalizing t path s' with
  | _ n ih =>
      subst hsize
      rcases of_found_mem_extract h with ⟨next, hnext, h⟩ | ⟨site, hasks, h⟩
      · obtain ⟨field, site, site', hchain, hrest⟩ := ih _ hnext.size_lt h rfl
        exact ⟨field, site, site', .head hnext hchain, hrest⟩
      · rcases found_mem_collect.mp h with hholds | ⟨s'', hs'', h⟩
        · exact ⟨_, site, site, .refl, hasks, .refl, hholds⟩
        · have hlt : s''.size < s'.size := by
            have := Selection.size_le_sizeAll hs''
            have := sizeAll_narrowAll_le w.schema site.type site.selections
            have : Selection.sizeAll site.selections < s'.size := hasks.sizeAll_lt
            omega
          obtain ⟨field, first, site', hchain, hfirst, hrest, hholds⟩ := ih _ hlt h rfl
          exact ⟨_, site, site', .refl, hasks, .head ⟨s'', hs'', field, hchain, hfirst⟩ hrest,
            hholds⟩

/-- What is found in a collection is found in those that lead to it. -/
lemma Leads.found {site site' : Site} (h : w.Leads site site')
    (hfound : .found type inner s ∈ w.collect site'.type site'.path site'.selections) :
    .found type inner s ∈ w.collect site.type site.path site.selections := by
  obtain ⟨first, hfirst, field, hchain, hasks⟩ := h
  have hback {start : NamedType × Selection} (hchain : ReflTransGen w.Descends start field) :
      .found type inner s ∈ w.extract start.1 site.path start.2 := by
    induction hchain using ReflTransGen.head_induction_on with
    | refl => exact hasks.found hfound
    | head hnext _ ih => exact hnext.found ih
  exact found_mem_collect.mpr (.inr ⟨first, hfirst, hback hchain⟩)

/-- The walk over selections finds what narrowing leaves of all selections that it collects. -/
theorem found_mem_collect_iff : .found type inner s ∈ w.collect t path ss
    ↔ ∃ site, ReflTransGen w.Leads ⟨t, path, ss⟩ site ∧ site.Holds w type inner s := by
  constructor
  · intro h
    rcases found_mem_collect.mp h with hholds | ⟨s', hs', h⟩
    · exact ⟨_, .refl, hholds⟩
    · obtain ⟨field, site, site', hchain, hasks, hrest, hholds⟩ := exists_of_found_mem_extract h
      exact ⟨site', .head ⟨s', hs', field, hchain, hasks⟩ hrest, hholds⟩
  · rintro ⟨site, hleads, hholds⟩
    have hback {start : Site} (hleads : ReflTransGen w.Leads start site) :
        .found type inner s ∈ w.collect start.type start.path start.selections := by
      induction hleads using ReflTransGen.head_induction_on with
      | refl => exact found_mem_collect.mpr (.inl hholds)
      | head hnext _ ih => exact hnext.found ih
    exact hback hleads

end Found

/-! ### What is inherited -/

/-- A property of selections that passes to those inside them and to what narrowing leaves. -/
structure Inherited (w : UsageWalk) (p : Selection → Prop) : Prop where
  field : ∀ {alias? name arguments directives ss},
    p (.field alias? name arguments directives (some ss)) → ∀ s ∈ ss, p s
  inline : ∀ {condition? directives ss}, p (.inline condition? directives ss) → ∀ s ∈ ss, p s
  narrow : ∀ {t s s'}, p s → s.narrow? w.schema t = some s' → p s'

namespace Inherited

variable {p : Selection → Prop} (hp : w.Inherited p)
include hp

lemma narrowAll {t : NamedType} {ss : List Selection} (hss : ∀ s ∈ ss, p s) :
    ∀ s ∈ narrowAll w.schema t ss, p s := by
  intro s' hs'
  obtain ⟨s, hs, -, hnarrow⟩ := mem_narrowAll.mp hs'
  exact hp.narrow (hss s hs) hnarrow

/-- What applies to a possible type inherits such properties. -/
lemma applicable {abstract possible : NamedType} {ss : List Selection} {s : Selection}
    (hss : ∀ s ∈ ss, p s) (hs : s ∈ w.applicable abstract possible ss) : p s := by
  induction abstract, ss using applicable.induct w with
  | case1 abstract =>
      rw [UsageWalk.applicable] at hs
      cases hs
  | case2 abstract alias? name arguments directives selections? ss ih =>
      obtain ⟨hfirst, hrest⟩ := List.forall_mem_cons.mp hss
      rw [UsageWalk.applicable] at hs
      rcases List.mem_append.mp hs with hs | hs
      · split at hs
        · rwa [List.mem_singleton.mp hs]
        · cases hs
      · exact ih hrest hs
  | case3 abstract condition? directives selections ss t ihinner ih =>
      obtain ⟨hfirst, hrest⟩ := List.forall_mem_cons.mp hss
      have hinner := hp.inline hfirst
      rw [UsageWalk.applicable] at hs
      rcases List.mem_append.mp hs with hs | hs
      · split at hs
        · split at hs
          · exact ihinner hinner hs
          · exact hinner s hs
        · cases hs
      · exact ih hrest hs
  | case4 abstract fragment directives ss ih =>
      obtain ⟨hfirst, hrest⟩ := List.forall_mem_cons.mp hss
      rw [UsageWalk.applicable] at hs
      rcases List.mem_append.mp hs with hs | hs
      · split at hs
        · rwa [List.mem_singleton.mp hs]
        · cases hs
      · exact ih hrest hs

lemma descends {start next : NamedType × Selection} (h : w.Descends start next)
    (hstart : p start.2) : p next.2 := by
  cases h with
  | inline hs _ => exact hp.inline hstart _ hs
  | field _ _ hs _ => exact hp.field hstart _ hs

lemma asks {start : NamedType × Selection} {path : String} {site : Site}
    (h : w.Asks path start site) (hstart : p start.2) : ∀ s ∈ site.selections, p s := by
  cases h with
  | all _ _ => exact hp.field hstart
  | applicable _ _ _ _ => exact fun s hs => hp.applicable (hp.field hstart) hs

/-- What is collected inherits such properties from what leads to it. -/
lemma leads {site site' : Site} (h : w.Leads site site') (hsite : ∀ s ∈ site.selections, p s) :
    ∀ s ∈ site'.selections, p s := by
  obtain ⟨first, hfirst, field, hchain, hasks⟩ := h
  have hfield : p field.2 := by
    clear hasks
    induction hchain with
    | refl => exact hp.narrowAll hsite first hfirst
    | tail _ hnext ih => exact hp.descends hnext ih
  exact hp.asks hasks hfield

/-- All that is collected inherits such properties. -/
theorem chain {site site' : Site} (h : ReflTransGen w.Leads site site')
    (hsite : ∀ s ∈ site.selections, p s) : ∀ s ∈ site'.selections, p s := by
  induction h with
  | refl => exact hsite
  | tail _ hnext ih => exact hp.leads hnext ih

end Inherited

end RemoteNodes.UsageWalk
