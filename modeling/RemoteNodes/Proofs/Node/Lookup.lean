import Mathlib.Tactic
import RemoteNodes.Proofs.Node.Agreeing
import RemoteNodes.Proofs.Selection.Narrowed
import RemoteNodes.Proofs.Selection.Narrowing
/-!
The walk over custom fragments looks up the type of a field only where the field is defined. The
walk is told again with look-ups that fail for any other field, and nothing of it fails.

* `Schema.member?`: the look-up; `NamedType.accepts_of_mem_narrowAll`: what narrowing leaves is
  accepted.
* `narrowAllChecked`, `UsageWalk.collectChecked`, `typeUsagesChecked`: narrowing, the walk and the
  usages of custom fragments, with look-ups that may fail.
* `narrowAllChecked_eq`, `UsageWalk.collectChecked_eq`, `typeUsagesChecked_eq`: **no look-up
  fails**, whatever the schema and the selections.
-/

namespace RemoteNodes

/-- Steps over a list none of which fails give what each of them gives. -/
lemma mapM_eq_some_map {α β : Type} {f : α → Option β} {g : α → β} {xs : List α}
    (h : ∀ x ∈ xs, f x = some (g x)) : xs.mapM f = some (xs.map g) := by
  induction xs with
  | nil => rfl
  | cons x xs ih =>
      obtain ⟨hx, hxs⟩ := List.forall_mem_cons.mp h
      rw [List.mapM_cons, hx, ih hxs]
      rfl

/-! ### Narrowing -/

/-- The type of the selections inside a field, looked up among the fields of a type. -/
def Schema.member? (schema : Schema) (t : NamedType) (name : String) : Option NamedType :=
  (t.memberType? name).map schema.resolve

mutual
/-- Narrowing of a selection; nothing if a look-up fails. -/
def Selection.narrowChecked (schema : Schema) (t : NamedType) :
    Selection → Option (Option Selection)
  | .field alias? name arguments directives none =>
    some (some (.field alias? name arguments directives none))
  | .field alias? name arguments directives (some selections) =>
    if isMetaName name then some (some (.field alias? name arguments directives (some selections)))
    else do
      let result ← schema.member? t name
      match ← narrowAllChecked schema result selections with
      | [] => some none
      | narrowed => some (some (.field alias? name arguments directives (some narrowed)))
  | .spread fragment directives => some (some (.spread fragment directives))
  | .inline condition? directives selections => do
    match ← narrowAllChecked schema (schema.conditionType t condition?) selections with
    | [] => some none
    | narrowed => some (some (.inline condition? directives narrowed))
/-- Narrowing of selections; nothing if a look-up fails. -/
def narrowAllChecked (schema : Schema) (t : NamedType) : List Selection → Option (List Selection)
  | [] => some []
  | s :: ss =>
    if t.accepts s then do
      let s? ← s.narrowChecked schema t
      let rest ← narrowAllChecked schema t ss
      some (s?.toList ++ rest)
    else narrowAllChecked schema t ss
end

variable {schema : Schema} {t : NamedType}

/-- A field that a type accepts is found, unless it belongs to introspection. -/
lemma Schema.member?_of_accepts {alias? : Option String} {name : String}
    {arguments : List Argument} {directives : List Directive}
    {selections? : Option (List Selection)}
    (h : t.accepts (.field alias? name arguments directives selections?) = true)
    (hname : isMetaName name = false) :
    schema.member? t name = some (schema.memberResult t name) := by
  obtain ⟨type, htype⟩ := Option.isSome_iff_exists.mp (NamedType.memberType?_of_defines h hname)
  rw [member?, memberResult, htype]
  rfl

private lemma narrowAllChecked_eq_of {ss : List Selection}
    (h : ∀ s ∈ ss, t.accepts s = true → s.narrowChecked schema t = some (s.narrow? schema t)) :
    narrowAllChecked schema t ss = some (narrowAll schema t ss) := by
  induction ss with
  | nil => rfl
  | cons s ss ih =>
      obtain ⟨hs, hss⟩ := List.forall_mem_cons.mp h
      rw [narrowAllChecked, narrowAll, ih hss]
      split
      · rename_i haccepts
        rw [hs haccepts]
        rfl
      · rfl

/-- A selection that a type accepts is narrowed without a look-up that fails. -/
lemma Selection.narrowChecked_eq {s : Selection} (h : t.accepts s = true) :
    s.narrowChecked schema t = some (s.narrow? schema t) := by
  induction s using Selection.induct generalizing t with
  | leaf alias? name arguments directives => rfl
  | composite alias? name arguments directives ss ih =>
      rw [narrowChecked, narrow?]
      by_cases hname : isMetaName name = true
      · rw [if_pos hname, if_pos hname]
      · rw [if_neg hname, if_neg hname,
          Schema.member?_of_accepts h (Bool.eq_false_of_not_eq_true hname), Option.bind_eq_bind,
          Option.bind_some, narrowAllChecked_eq_of fun s hs => ih s hs]
        cases narrowAll schema (schema.memberResult t name) ss <;> rfl
  | spread fragment directives => rfl
  | inline condition? directives ss ih =>
      rw [narrowChecked, narrow?, narrowAllChecked_eq_of fun s hs => ih s hs]
      cases narrowAll schema (schema.conditionType t condition?) ss <;> rfl

/-- Narrowing of selections never looks up a field that the type lacks. -/
theorem narrowAllChecked_eq (schema : Schema) (t : NamedType) (ss : List Selection) :
    narrowAllChecked schema t ss = some (narrowAll schema t ss) :=
  narrowAllChecked_eq_of fun _ _ => Selection.narrowChecked_eq

/-- A type accepts what narrowing leaves. -/
lemma NamedType.accepts_of_mem_narrowAll {ss : List Selection} {s : Selection}
    (h : s ∈ narrowAll schema t ss) : t.accepts s = true := by
  obtain ⟨s', -, haccepts, hnarrow⟩ := mem_narrowAll.mp h
  rwa [Selection.accepts_of_narrow? hnarrow]

/-! ### The walk -/

namespace UsageWalk

mutual
/-- What selections of a type ask for at a path; nothing if a look-up fails. -/
def collectChecked (w : UsageWalk) (t : NamedType) (path : String) (ss : List Selection) :
    Option (List UsageEvent) :=
  match _h : narrowAllChecked w.schema t ss with
  | none => none
  | some narrowed => do
    let events ← w.collectEachChecked t path narrowed
    some (.opened t.name path :: (narrowWarnings w.schema t ss).map .warned ++ events)
termination_by (Selection.sizeAll ss, 2)
decreasing_by
  have hnarrowed : narrowAll w.schema t ss = narrowed :=
    Option.some.inj ((narrowAllChecked_eq w.schema t ss).symm.trans _h)
  have := sizeAll_narrowAll_le w.schema t ss
  rw [hnarrowed] at this
  simp only [Prod.lex_def]; omega
/-- What narrowed selections ask for, one after the other; nothing if a look-up fails. -/
def collectEachChecked (w : UsageWalk) (t : NamedType) (path : String) :
    List Selection → Option (List UsageEvent)
  | [] => some []
  | s :: ss => do
    let inside ← w.extractChecked t path s
    let rest ← w.collectEachChecked t path ss
    some (.found t.name path s :: inside ++ rest)
termination_by ss => (Selection.sizeAll ss, 1)
decreasing_by
  all_goals simp only [Selection.sizeAll, Prod.lex_def]
  · omega
  · have := s.size_pos; omega
/-- What a selection asks of other nodes; nothing if a look-up fails. -/
def extractChecked (w : UsageWalk) (t : NamedType) (path : String) :
    Selection → Option (List UsageEvent)
  | .spread .. => some []
  | .inline condition? _ selections =>
    w.extractEachChecked (w.schema.conditionType t condition?) [] path selections
  | .field _ _ _ _ none => some []
  | .field _ name _ _ (some selections) =>
    if isMetaName name then some []
    else do
      let result ← w.schema.member? t name
      let inner := path ++ "__" ++ name
      if Keyed.has w.references result.name then w.collectChecked result inner selections
      else
        let nodes := w.nodeTypes result
        let asked ← nodes.mapM fun p => do
          let events ←
            (match _h : w.applicable result p selections with
            | [] => some []
            | s :: ss => w.collectChecked p inner (s :: ss))
          some ((w.applicableWarnings result p selections).map .warned ++ events)
        let rest ← w.extractEachChecked result nodes path selections
        some (asked.flatten ++ rest)
termination_by s => (s.size, 0)
decreasing_by
  all_goals simp only [Selection.size, Prod.lex_def]
  · omega
  · omega
  · have := sizeAll_applicable_le w result p selections
    rw [_h] at this; omega
  · omega
/-- What the selections inside a field or inline fragment ask of other nodes; nothing if a look-up
fails. -/
def extractEachChecked (w : UsageWalk) (t : NamedType) (seen : List NamedType) (path : String) :
    List Selection → Option (List UsageEvent)
  | [] => some []
  | s :: ss => do
    let inside ←
      (if w.isOnNodeType t seen s then some []
      else if t.accepts s then w.extractChecked t path s
      else some ((t.warnings s).map .warned))
    let rest ← w.extractEachChecked t seen path ss
    some (inside ++ rest)
termination_by ss => (Selection.sizeAll ss, 1)
decreasing_by
  all_goals simp only [Selection.sizeAll, Prod.lex_def]
  · omega
  · have := s.size_pos; omega
end

variable {w : UsageWalk} {path : String} {ss : List Selection}

lemma collectEachChecked_eq
    (h : ∀ s ∈ ss, w.extractChecked t path s = some (w.extract t path s)) :
    w.collectEachChecked t path ss = some (w.collectEach t path ss) := by
  induction ss with
  | nil => rw [collectEachChecked, collectEach]
  | cons s ss ih =>
      obtain ⟨hs, hss⟩ := List.forall_mem_cons.mp h
      rw [collectEachChecked, collectEach, hs, ih hss]
      rfl

/-- Selections are collected without a look-up that fails if nothing fails in what narrowing leaves
of them. -/
lemma collectChecked_eq_of (h : ∀ s ∈ narrowAll w.schema t ss, t.accepts s = true →
      w.extractChecked t path s = some (w.extract t path s)) :
    w.collectChecked t path ss = some (w.collect t path ss) := by
  have hnarrow := narrowAllChecked_eq w.schema t ss
  have heach := collectEachChecked_eq fun s hs => h s hs (NamedType.accepts_of_mem_narrowAll hs)
  rw [collectChecked, collect]
  split
  · rename_i hnone
    cases hnone.symm.trans hnarrow
  · rename_i narrowed hsome
    obtain rfl : narrowAll w.schema t ss = narrowed := Option.some.inj (hnarrow.symm.trans hsome)
    rw [heach]
    rfl

lemma extractEach_cons {seen : List NamedType} {s : Selection} :
    w.extractEach t seen path (s :: ss)
      = (if w.isOnNodeType t seen s then [] else if t.accepts s then w.extract t path s
        else (t.warnings s).map .warned) ++ w.extractEach t seen path ss := by
  rw [extractEach.eq_def]
  cases s with
  | field alias? name arguments directives selections? =>
      by_cases hdefines : t.defines name = true
      · simp [NamedType.accepts, hdefines]
      · simp [NamedType.accepts, NamedType.warnings, hdefines]
  | spread fragment directives => rfl
  | inline condition? directives ss => rfl

/-- Inside a field or an inline fragment only what is accepted is gone into. -/
lemma extractEachChecked_eq {seen : List NamedType} (h : ∀ s ∈ ss, t.accepts s = true →
      w.extractChecked t path s = some (w.extract t path s)) :
    w.extractEachChecked t seen path ss = some (w.extractEach t seen path ss) := by
  induction ss with
  | nil => rw [extractEachChecked, extractEach]
  | cons s ss ih =>
      obtain ⟨hs, hss⟩ := List.forall_mem_cons.mp h
      have hinside : (if w.isOnNodeType t seen s then some [] else if t.accepts s then
            w.extractChecked t path s else some ((t.warnings s).map .warned))
          = some (if w.isOnNodeType t seen s then [] else if t.accepts s then
            w.extract t path s else (t.warnings s).map .warned) := by
        split_ifs with hseen haccepts
        · rfl
        · exact hs haccepts
        · rfl
      rw [extractEachChecked, extractEach_cons, hinside, ih hss]
      rfl

/-- What the selections of a field of an abstract type ask of a possible type that is a node type;
nothing if a look-up fails. -/
def askedChecked (w : UsageWalk) (abstract possible : NamedType) (path : String)
    (ss : List Selection) : Option (List UsageEvent) := do
  let events ←
    (if (w.applicable abstract possible ss).isEmpty then some []
    else w.collectChecked possible path (w.applicable abstract possible ss))
  some ((w.applicableWarnings abstract possible ss).map .warned ++ events)

lemma extractChecked_field (w : UsageWalk) (t : NamedType) (path : String) (alias? : Option String)
    (name : String) (arguments : List Argument) (directives : List Directive)
    (ss : List Selection) :
    w.extractChecked t path (.field alias? name arguments directives (some ss))
      = if isMetaName name then some []
        else (w.schema.member? t name).bind fun result =>
          if Keyed.has w.references result.name then
            w.collectChecked result (path ++ "__" ++ name) ss
          else ((w.nodeTypes result).mapM fun p =>
              w.askedChecked result p (path ++ "__" ++ name) ss).bind fun asked =>
            (w.extractEachChecked result (w.nodeTypes result) path ss).bind fun rest =>
              some (asked.flatten ++ rest) := by
  rw [extractChecked]
  refine congrArg (ite _ _) (congrArg (Option.bind _) (funext fun result => ?_))
  refine congrArg (ite _ _) (congrArg (Option.bind · _) ?_)
  refine congrArg (List.mapM · _) (funext fun p => congrArg (Option.bind · _) ?_)
  split
  · rename_i hnone
    rw [hnone]
    rfl
  · rename_i hsome
    rw [hsome]
    rfl

/-- What a selection that a type accepts asks of other nodes is found without a look-up that
fails. -/
lemma extractChecked_eq (t : NamedType) (path : String) (s : Selection)
    (h : t.accepts s = true) : w.extractChecked t path s = some (w.extract t path s) := by
  -- what is collected for another node is smaller than the field that asks for it
  induction hsize : s.size using Nat.strong_induction_on generalizing t path s with
  | _ n ih =>
      subst hsize
      have hinside {ss : List Selection} (hss : Selection.sizeAll ss < s.size) (t : NamedType)
          (path : String) : ∀ x ∈ ss, t.accepts x = true →
            w.extractChecked t path x = some (w.extract t path x) :=
        fun x hx haccepts =>
          ih _ ((Selection.size_le_sizeAll hx).trans_lt hss) t path x haccepts rfl
      have hcollect {ss : List Selection} (hss : Selection.sizeAll ss < s.size) (t : NamedType)
          (path : String) : w.collectChecked t path ss = some (w.collect t path ss) :=
        collectChecked_eq_of (hinside ((sizeAll_narrowAll_le w.schema t ss).trans_lt hss) t path)
      cases s with
      | spread fragment directives => rw [extractChecked, extract]
      | inline condition? directives ss =>
          rw [extractChecked, extract]
          exact extractEachChecked_eq (hinside (by simp [Selection.size]) _ path)
      | field alias? name arguments directives selections? =>
          cases selections? with
          | none => rw [extractChecked, extract]
          | some ss =>
              have hss : Selection.sizeAll ss
                  < (Selection.field alias? name arguments directives (some ss)).size := by
                simp [Selection.size]
              rw [extractChecked_field, extract_field]
              by_cases hname : isMetaName name = true
              · rw [if_pos hname, if_pos hname]
              · rw [if_neg hname, if_neg hname,
                  Schema.member?_of_accepts h (Bool.eq_false_of_not_eq_true hname),
                  Option.bind_some]
                by_cases hreference :
                    Keyed.has w.references (w.schema.memberResult t name).name = true
                · rw [if_pos hreference, if_pos hreference]
                  exact hcollect hss _ _
                · rw [if_neg hreference, if_neg hreference]
                  have hasked (p : NamedType) (path : String) :
                      w.askedChecked (w.schema.memberResult t name) p path ss
                        = some (w.asked (w.schema.memberResult t name) p path ss) := by
                    have happlicable := (sizeAll_applicable_le w (w.schema.memberResult t name) p
                      ss).trans_lt hss
                    rw [askedChecked, asked, hcollect happlicable]
                    split <;> rfl
                  rw [mapM_eq_some_map fun p _ => hasked p _,
                    extractEachChecked_eq (hinside hss _ path)]
                  rfl

/-- Collecting selections of a type never looks up a field that a type lacks. -/
theorem collectChecked_eq (w : UsageWalk) (t : NamedType) (path : String) (ss : List Selection) :
    w.collectChecked t path ss = some (w.collect t path ss) :=
  collectChecked_eq_of fun s _ => extractChecked_eq t path s

/-- What a custom fragment asks for; nothing if a look-up fails. -/
def fragmentEventsChecked (w : UsageWalk) (f : Fragment) : Option (List UsageEvent) :=
  if w.schema.query? == some f.condition || w.schema.mutation? == some f.condition then some []
  else
    match w.schema.composite? f.condition with
    | none => some [.warned (.fragmentSkipped f.name f.condition)]
    | some t => w.collectChecked t f.name f.selections

lemma fragmentEventsChecked_eq (w : UsageWalk) (f : Fragment) :
    w.fragmentEventsChecked f = some (w.fragmentEvents f) := by
  rw [fragmentEventsChecked, fragmentEvents]
  split
  · rfl
  cases w.schema.composite? f.condition with
  | none => rfl
  | some t => exact collectChecked_eq w t f.name f.selections

end UsageWalk

/-! ### Custom fragments -/

/-- The usages of custom fragments, with look-ups that may fail; a look-up that fails is a fault
without words of its own. -/
def typeUsagesChecked (schema : Schema) (fragments : List Fragment) (references : References) :
    Report Usages :=
  let w : UsageWalk :=
    ⟨schema, references, Keyed.ofPairs (fragments.map fun f => (f.name, f.condition))⟩
  match fragments.mapM w.fragmentEventsChecked with
  | none => Report.of (.error .malformed)
  | some events => ⟨eventWarnings events.flatten, .ok (Usages.ofEvents events.flatten)⟩

/-- The usages of custom fragments are found without a look-up that fails. -/
theorem typeUsagesChecked_eq (schema : Schema) (fragments : List Fragment)
    (references : References) :
    typeUsagesChecked schema fragments references = typeUsages schema fragments references := by
  rw [typeUsagesChecked, mapM_eq_some_map fun f _ => UsageWalk.fragmentEventsChecked_eq _ f]
  rfl

end RemoteNodes
