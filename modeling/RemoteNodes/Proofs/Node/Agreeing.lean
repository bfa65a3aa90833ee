import Mathlib.Tactic
import RemoteNodes.Proofs.Document.Success
import RemoteNodes.Proofs.Node.Fragments
/-!
References that have the same under every name can take each other's place, in whatever order they
have it.

* `Keyed.Agree`: maps that have the same under every key; `Keyed.agree_ofPairs`: the order of pairs
  with distinct keys does not count.
* `usageEvents_of_agree`: **the walk over custom fragments finds the same, in the same order**.
* `makeShallow_of_agree`: **the same selections give way to references**.
* `fragmentsFor_of_agree`: what fragments of a node type come of both.
-/

namespace RemoteNodes

namespace Keyed

variable {α : Type} {m m' : Keyed α} {pairs pairs' : List (String × α)}

/-- Two maps have the same under every key. -/
def Agree (m m' : Keyed α) : Prop := ∀ key, get? m key = get? m' key

lemma Agree.has (h : m.Agree m') (key : String) : has m key = has m' key := by
  rw [Keyed.has, Keyed.has, h key]

/-- Maps with the same pairs agree if they have each key once. -/
lemma agree_of_mem_iff (hm : (keys m).Nodup) (hm' : (keys m').Nodup)
    (h : ∀ p, p ∈ m ↔ p ∈ m') : m.Agree m' := fun key =>
  Option.ext fun value => by
    rw [← mem_iff_get? hm, ← mem_iff_get? hm', h]

/-- The order of pairs with distinct keys does not count for the map that they describe. -/
lemma agree_ofPairs (hpairs : (keys pairs).Nodup) (hpairs' : (keys pairs').Nodup)
    (h : ∀ p, p ∈ pairs ↔ p ∈ pairs') : (ofPairs pairs).Agree (ofPairs pairs') := by
  rw [ofPairs_of_nodup hpairs, ofPairs_of_nodup hpairs']
  exact agree_of_mem_iff hpairs hpairs' h

end Keyed

variable {schema : Schema} {references references' : References} {customs : List Fragment}

/-! ### The walk over custom fragments -/

namespace UsageWalk

variable {w : UsageWalk}

/-- What the selections of a field of an abstract type ask of a possible type that is a node type,
with the warnings about them. -/
def asked (w : UsageWalk) (abstract possible : NamedType) (path : String) (ss : List Selection) :
    List UsageEvent :=
  (w.applicableWarnings abstract possible ss).map .warned ++
    if (w.applicable abstract possible ss).isEmpty then []
    else w.collect possible path (w.applicable abstract possible ss)

lemma extract_field (w : UsageWalk) (t : NamedType) (path : String) (alias? : Option String)
    (name : String) (arguments : List Argument) (directives : List Directive)
    (ss : List Selection) :
    w.extract t path (.field alias? name arguments directives (some ss))
      = if isMetaName name then []
        else if Keyed.has w.references (w.schema.memberResult t name).name then
          w.collect (w.schema.memberResult t name) (path ++ "__" ++ name) ss
        else
          ((w.nodeTypes (w.schema.memberResult t name)).flatMap fun p =>
            w.asked (w.schema.memberResult t name) p (path ++ "__" ++ name) ss)
          ++ w.extractEach (w.schema.memberResult t name)
            (w.nodeTypes (w.schema.memberResult t name)) path ss := by
  rw [extract]
  refine congrArg (ite _ _) (congrArg (ite _ _) (congrArg (· ++ _) (List.flatMap_congr ?_)))
  refine fun p _ => congrArg (_ ++ ·) ?_
  split
  · rename_i hnone
    rw [hnone]
    rfl
  · rename_i hsome
    rw [hsome]
    rfl

/-- A walk that has other references. -/
def withReferences (w : UsageWalk) (references : References) : UsageWalk :=
  { w with references }

@[simp] lemma schema_withReferences : (w.withReferences references).schema = w.schema := rfl

@[simp] lemma references_withReferences :
    (w.withReferences references).references = references := rfl

lemma applicable_withReferences (abstract possible : NamedType) (ss : List Selection) :
    (w.withReferences references).applicable abstract possible ss
      = w.applicable abstract possible ss := by
  induction abstract, ss using applicable.induct w with
  | case1 abstract => rw [applicable, applicable]
  | case2 abstract alias? name arguments directives selections? ss ih =>
      rw [applicable, applicable, ih]
  | case3 abstract condition? directives selections ss t ihinner ih =>
      rw [applicable, applicable, ih]
      exact congrArg (· ++ _) (congrArg (ite _ · []) (congrArg (ite _ · _) ihinner))
  | case4 abstract fragment directives ss ih =>
      rw [applicable, applicable, ih]
      rfl

lemma applicableWarnings_withReferences (abstract possible : NamedType) (ss : List Selection) :
    (w.withReferences references).applicableWarnings abstract possible ss
      = w.applicableWarnings abstract possible ss := by
  induction abstract, ss using applicableWarnings.induct w with
  | case1 abstract => rw [applicableWarnings, applicableWarnings]
  | case2 abstract alias? name arguments directives selections? ss ih =>
      rw [applicableWarnings, applicableWarnings, ih]
  | case3 abstract condition? directives selections ss t ihinner ih =>
      rw [applicableWarnings, applicableWarnings, ih]
      exact congrArg (· ++ _) (congrArg (ite _ · []) ihinner)
  | case4 abstract fragment directives ss ih =>
      rw [applicableWarnings, applicableWarnings, ih]

section Agree

variable (h : w.references.Agree references)
include h

lemma nodeTypes_of_agree (t : NamedType) :
    (w.withReferences references).nodeTypes t = w.nodeTypes t := by
  rw [nodeTypes, nodeTypes]
  split
  · exact List.filter_congr fun p _ => (h.has p.name).symm
  · rfl

omit h in
/-- Walks that find the same in each selection find the same in all of them. -/
lemma extractEach_congr {w' : UsageWalk} {t : NamedType} {seen : List NamedType} {path : String}
    {ss : List Selection} (hschema : w'.schema = w.schema)
    (hss : ∀ s ∈ ss, w'.extract t path s = w.extract t path s) :
    w'.extractEach t seen path ss = w.extractEach t seen path ss := by
  induction ss with
  | nil => rw [extractEach, extractEach]
  | cons s ss ih =>
      obtain ⟨hfirst, hrest⟩ := List.forall_mem_cons.mp hss
      have hon : w'.isOnNodeType t seen s = w.isOnNodeType t seen s := by
        cases s with
        | inline condition? directives ss => rw [isOnNodeType, isOnNodeType, hschema]
        | field _ _ _ _ _ | spread _ _ => rfl
      rw [extractEach.eq_def, extractEach.eq_def w]
      simp only [hon, ih hrest]
      cases s <;> simp only [hfirst]

omit h in
lemma collectEach_congr {w' : UsageWalk} {t : NamedType} {path : String} {ss : List Selection}
    (hss : ∀ s ∈ ss, w'.extract t path s = w.extract t path s) :
    w'.collectEach t path ss = w.collectEach t path ss := by
  induction ss with
  | nil => rw [collectEach, collectEach]
  | cons s ss ih =>
      obtain ⟨hfirst, hrest⟩ := List.forall_mem_cons.mp hss
      rw [collectEach, collectEach, hfirst, ih hrest]

/-- Walks with references that agree find the same in a selection. -/
lemma extract_of_agree (t : NamedType) (path : String) (s : Selection) :
    (w.withReferences references).extract t path s = w.extract t path s := by
  -- what is collected for another node is smaller than the field that asks for it
  induction hsize : s.size using Nat.strong_induction_on generalizing t path s with
  | _ n ih =>
      subst hsize
      have hinside {ss : List Selection} (hss : Selection.sizeAll ss < s.size) (t : NamedType)
          (path : String) :
          ∀ x ∈ ss, (w.withReferences references).extract t path x = w.extract t path x :=
        fun x hx => ih _ ((Selection.size_le_sizeAll hx).trans_lt hss) t path x rfl
      have hcollect {ss : List Selection} (hss : Selection.sizeAll ss < s.size) (t : NamedType)
          (path : String) :
          (w.withReferences references).collect t path ss = w.collect t path ss := by
        have hnarrowed := (sizeAll_narrowAll_le w.schema t ss).trans_lt hss
        rw [collect, collect]
        exact congrArg (_ :: _ ++ ·) (collectEach_congr (hinside hnarrowed t path))
      cases s with
      | spread fragment directives => rw [extract, extract]
      | inline condition? directives ss =>
          rw [extract, extract]
          exact extractEach_congr schema_withReferences (hinside (by simp [Selection.size]) _ path)
      | field alias? name arguments directives selections? =>
          cases selections? with
          | none => rw [extract, extract]
          | some ss =>
              have hss : Selection.sizeAll ss
                  < (Selection.field alias? name arguments directives (some ss)).size := by
                simp [Selection.size]
              rw [extract_field, extract_field, schema_withReferences, references_withReferences,
                ← h.has, nodeTypes_of_agree h, hcollect hss]
              have hasked (p : NamedType) (path : String) :
                  (w.withReferences references).asked (w.schema.memberResult t name) p path ss
                    = w.asked (w.schema.memberResult t name) p path ss := by
                have happlicable := (sizeAll_applicable_le w (w.schema.memberResult t name) p
                  ss).trans_lt hss
                rw [asked, asked, applicable_withReferences, applicableWarnings_withReferences,
                  hcollect happlicable]
              simp only [hasked, extractEach_congr schema_withReferences (hinside hss _ path)]

/-- Walks with references that agree find the same in selections. -/
lemma collect_of_agree (t : NamedType) (path : String) (ss : List Selection) :
    (w.withReferences references).collect t path ss = w.collect t path ss := by
  rw [collect, collect]
  exact congrArg (_ :: _ ++ ·) (collectEach_congr fun s _ => extract_of_agree h t path s)

lemma fragmentEvents_of_agree (f : Fragment) :
    (w.withReferences references).fragmentEvents f = w.fragmentEvents f := by
  rw [fragmentEvents, fragmentEvents]
  refine congrArg (ite _ _) ?_
  cases hcomposite : w.schema.composite? f.condition with
  | none => simp only [withReferences, hcomposite]
  | some t =>
      have ht : (w.withReferences references).schema.composite? f.condition = some t := hcomposite
      simp only [ht, collect_of_agree h]

end Agree

end UsageWalk

/-- The walk over custom fragments finds the same, in the same order, with references that agree. -/
theorem usageEvents_of_agree (h : references.Agree references') :
    usageEvents schema references' customs = usageEvents schema references customs :=
  List.flatMap_congr fun f _ =>
    UsageWalk.fragmentEvents_of_agree (w := usageWalk schema references customs) h f

/-! ### Shallow fragments -/

namespace ShallowRewriting

variable {r : ShallowRewriting}

/-- A rewriting that has other references. -/
def withReferences (r : ShallowRewriting) (references : References) : ShallowRewriting :=
  { r with references }

@[simp] lemma schema_withReferences : (r.withReferences references).schema = r.schema := rfl

@[simp] lemma references_withReferences :
    (r.withReferences references).references = references := rfl

lemma keptFor_withReferences (possible : String) (ss : List Selection) :
    (r.withReferences references).keptFor possible ss = r.keptFor possible ss := by
  induction ss using keptFor.induct with
  | case1 => rw [keptFor, keptFor]
  | case2 alias? name arguments directives selections? ss ih => rw [keptFor, keptFor, ih]
  | case3 directives inner ss ihinner ih => rw [keptFor, keptFor, ihinner, ih]
  | case4 condition directives inner ss ihinner ih =>
      rw [keptFor, keptFor, ihinner, ih]
      rfl
  | case5 fragment directives ss ih =>
      rw [keptFor, keptFor, ih]
      rfl

section Agree

variable (h : r.references.Agree references)
include h

lemma selectionsFor_of_agree (ss : List Selection) (possible : String) :
    (r.withReferences references).selectionsFor ss possible = r.selectionsFor ss possible := by
  rw [selectionsFor, selectionsFor, keptFor_withReferences, h possible]
  rfl

lemma split_of_agree (t : NamedType) (ss : List Selection) :
    (r.withReferences references).split t ss = r.split t ss := by
  rw [split, split]
  refine congrArg (_ :: ·) (List.filterMap_congr fun p _ => ?_)
  rw [selectionsFor_of_agree h]

lemma replacement_of_agree (type : TypeRef) (ss : List Selection) :
    (r.withReferences references).replacement type ss = r.replacement type ss := by
  have hhas (name : String) := (h.has name).symm
  simp only [replacement, schema_withReferences, references_withReferences, split_of_agree h, hhas,
    ← h type.namedType]

/-- The same selections give way to references that agree. -/
theorem rewriting_of_agree : (r.withReferences references).rewriting = r.rewriting := by
  have hfield (parent? : Option NamedType) (s : Selection) :
      (r.withReferences references).field parent? s = r.field parent? s := by
    cases s with
    | field alias? name arguments directives selections? =>
        cases selections? with
        | none => rfl
        | some ss =>
            rw [field, field]
            simp only [replacement_of_agree h]
            rfl
    | spread _ _ | inline _ _ _ => rfl
  rw [rewriting, rewriting, Rewriting.mk.injEq]
  exact ⟨funext₂ hfield, rfl⟩

end Agree

end ShallowRewriting

lemma makeShallow_of_agree (h : references.Agree references') (fs : List Fragment) :
    makeShallow schema references' customs fs = makeShallow schema references customs fs := by
  let r : ShallowRewriting :=
    ⟨schema, references, Keyed.ofPairs (customs.map fun f => (f.name, f.condition))⟩
  have hrewriting : (r.withReferences references').rewriting = r.rewriting :=
    ShallowRewriting.rewriting_of_agree h
  exact congrArg (fun rewriting => fs.map (·.rewrite schema rewriting)) hrewriting

/-- The fragments of a node type are the same for references that agree. -/
lemma fragmentsFor_of_agree (h : references.Agree references') (usages : Usages) (type : String) :
    fragmentsFor schema usages references' customs type
      = fragmentsFor schema usages references customs type := by
  rw [fragmentsFor, fragmentsFor, makeShallow_of_agree h]

end RemoteNodes
