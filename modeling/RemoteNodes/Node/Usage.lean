import RemoteNodes.Node.Reference
import RemoteNodes.Selection.Inclusion
import RemoteNodes.Selection.Narrowing
/-!
What custom fragments ask of each type. Every selection is recorded under the type that it is made
on and a path: the name of the fragment, or `path__field` for the selections of a node inside a
field. With `Foo` a node type,

    fragment Bar1 on Bar { foo { a } }
    fragment Bar2 on Bar { foo { b } }

give `foo` under `Bar` at `Bar1` and at `Bar2`, `a` under `Foo` at `Bar1__foo`, and `b` under
`Foo` at `Bar2__foo`.

* `UsageEvent`: what a walk over a selection finds, in order.
* `UsageWalk.collect`: the walk; it ends because no step makes the selections larger.
* `Usages.record`: a path never holds two selections that include each other.
* `typeUsages`: the usages of all custom fragments.
-/

namespace RemoteNodes

/-- Selections by type and path. -/
abbrev Usages := Keyed (Keyed (List Selection))

/-- What a walk finds. -/
inductive UsageEvent where
  /-- Selections of a type begin at a path. -/
  | opened (type path : String)
  /-- A selection of a type at a path. -/
  | found (type path : String) (selection : Selection)
  | warned (warning : Warning)
  deriving Repr

/-- What the walk depends on. -/
structure UsageWalk where
  schema : Schema
  references : References
  /-- The types of the custom fragments by their names. -/
  fragmentTypes : Keyed String

namespace UsageWalk

/-- The selections of an abstract type that apply to one of its possible types. -/
def applicable (w : UsageWalk) (abstract possible : NamedType) : List Selection → List Selection
  | [] => []
  | .field alias? name arguments directives selections? :: ss =>
    (if abstract.defines name then [.field alias? name arguments directives selections?] else []) ++
      w.applicable abstract possible ss
  | .inline condition? _ selections :: ss =>
    let t := w.schema.conditionType abstract condition?
    (if t.name == possible.name || (t.isAbstract && w.schema.isSubType t possible.name) then
      if t.isAbstract then w.applicable t possible selections else selections
    else []) ++ w.applicable abstract possible ss
  | .spread fragment directives :: ss =>
    (if Keyed.get? w.fragmentTypes fragment == some possible.name then
      [.spread fragment directives] else []) ++ w.applicable abstract possible ss

/-- The warnings about fields that the abstract type does not define. -/
def applicableWarnings (w : UsageWalk) (abstract possible : NamedType) :
    List Selection → List Warning
  | [] => []
  | .field _ name _ _ _ :: ss =>
    (if abstract.defines name then [] else [abstract.undefinedField name]) ++
      w.applicableWarnings abstract possible ss
  | .inline condition? _ selections :: ss =>
    let t := w.schema.conditionType abstract condition?
    (if (t.name == possible.name || (t.isAbstract && w.schema.isSubType t possible.name)) &&
        t.isAbstract then w.applicableWarnings t possible selections
    else []) ++ w.applicableWarnings abstract possible ss
  | .spread .. :: ss => w.applicableWarnings abstract possible ss

theorem sizeAll_applicable_le (w : UsageWalk) (abstract possible : NamedType)
    (ss : List Selection) :
    Selection.sizeAll (w.applicable abstract possible ss) ≤ Selection.sizeAll ss := by
  fun_induction applicable w abstract possible ss with
  | case1 => simp
  | case2 abstract alias? name arguments directives selections? ss ih =>
    split <;> simp only [List.nil_append, List.cons_append, Selection.sizeAll] <;> omega
  | case3 abstract condition? _ selections ss t ih1 ih2 =>
    have hsize : (Selection.inline condition? ‹_› selections).size =
      1 + Selection.sizeAll selections := by simp [Selection.size]
    rw [sizeAll_append, Selection.sizeAll, hsize]
    split
    · split
      · omega
      · omega
    · simp [Selection.sizeAll]; omega
  | case4 abstract fragment directives ss ih =>
    split <;> simp only [List.nil_append, List.cons_append, Selection.sizeAll] <;> omega

/-- The possible types of an abstract type that are node types. -/
def nodeTypes (w : UsageWalk) (t : NamedType) : List NamedType :=
  if t.isAbstract then
    (w.schema.possibleTypes t).filter fun p => Keyed.has w.references p.name
  else []

/-- Whether a selection inside a field is an inline fragment on one of the node types. -/
def isOnNodeType (w : UsageWalk) (t : NamedType) (nodeTypes : List NamedType) : Selection → Bool
  | .inline condition? .. =>
    nodeTypes.any (·.name == (w.schema.conditionType t condition?).name)
  | _ => false

mutual
/-- What selections of a type ask for at a path. -/
def collect (w : UsageWalk) (t : NamedType) (path : String) (ss : List Selection) :
    List UsageEvent :=
  .opened t.name path :: (narrowWarnings w.schema t ss).map .warned ++
    w.collectEach t path (narrowAll w.schema t ss)
termination_by (Selection.sizeAll ss, 2)
decreasing_by
  have := sizeAll_narrowAll_le w.schema t ss
  simp only [Prod.lex_def]; omega
/-- What narrowed selections ask for, one after the other. -/
def collectEach (w : UsageWalk) (t : NamedType) (path : String) :
    List Selection → List UsageEvent
  | [] => []
  | s :: ss => .found t.name path s :: w.extract t path s ++ w.collectEach t path ss
termination_by ss => (Selection.sizeAll ss, 1)
decreasing_by
  all_goals simp only [Selection.sizeAll, Prod.lex_def]
  · omega
  · have := s.size_pos; omega
/-- What a selection asks of other nodes. -/
def extract (w : UsageWalk) (t : NamedType) (path : String) : Selection → List UsageEvent
  | .spread .. => []
  | .inline condition? _ selections =>
    w.extractEach (w.schema.conditionType t condition?) [] path selections
  | .field _ _ _ _ none => []
  | .field _ name _ _ (some selections) =>
    if isMetaName name then []
    else
      let result := w.schema.memberResult t name
      let inner := path ++ "__" ++ name
      if Keyed.has w.references result.name then w.collect result inner selections
      else
        let nodes := w.nodeTypes result
        (nodes.flatMap fun p =>
          (w.applicableWarnings result p selections).map .warned ++
            match _h : w.applicable result p selections with
            | [] => []
            | s :: ss => w.collect p inner (s :: ss)) ++
          w.extractEach result nodes path selections
termination_by s => (s.size, 0)
decreasing_by
  all_goals simp only [Selection.size, Prod.lex_def]
  · omega
  · omega
  · have := sizeAll_applicable_le w result p selections
    rw [_h] at this; omega
  · omega
/-- What the selections inside a field or inline fragment ask of other nodes. Inline fragments on
node types that have been seen to are passed over. -/
def extractEach (w : UsageWalk) (t : NamedType) (seen : List NamedType) (path : String) :
    List Selection → List UsageEvent
  | [] => []
  | s :: ss =>
    (if w.isOnNodeType t seen s then []
    else
      match s with
      | .field alias? name arguments directives selections? =>
        if t.defines name then
          w.extract t path (.field alias? name arguments directives selections?)
        else [.warned (t.undefinedField name)]
      | s => w.extract t path s) ++ w.extractEach t seen path ss
termination_by ss => (Selection.sizeAll ss, 1)
decreasing_by
  all_goals simp only [Selection.sizeAll, Prod.lex_def]
  · omega
  · omega
  · have := s.size_pos; omega
end

/-- What a custom fragment asks for. Fragments on the root types ask for nothing. -/
def fragmentEvents (w : UsageWalk) (f : Fragment) : List UsageEvent :=
  if w.schema.query? == some f.condition || w.schema.mutation? == some f.condition then []
  else
    match w.schema.composite? f.condition with
    | none => [.warned (.fragmentSkipped f.name f.condition)]
    | some t => w.collect t f.name f.selections

end UsageWalk

namespace Usages

/-- Adds a selection unless one that asks for the same is there. -/
def addSelection (selections : List Selection) (s : Selection) : List Selection :=
  if selections.any (·.same s) then selections else selections ++ [s]

/-- The usages after an event. -/
def record (usages : Usages) : UsageEvent → Usages
  | .opened type path => Keyed.update usages type [] fun paths => Keyed.update paths path [] id
  | .found type path s =>
    Keyed.update usages type [] fun paths => Keyed.update paths path [] fun ss => addSelection ss s
  | .warned _ => usages

/-- The usages that events make up. -/
def ofEvents (events : List UsageEvent) : Usages := events.foldl record []

end Usages

/-- The warnings among events. -/
def eventWarnings (events : List UsageEvent) : List Warning :=
  events.filterMap fun
    | .warned warning => some warning
    | _ => none

/-- The usages of custom fragments. -/
def typeUsages (schema : Schema) (fragments : List Fragment) (references : References) :
    Report Usages :=
  let w : UsageWalk :=
    ⟨schema, references, Keyed.ofPairs (fragments.map fun f => (f.name, f.condition))⟩
  let events := fragments.flatMap w.fragmentEvents
  ⟨eventWarnings events, .ok (Usages.ofEvents events)⟩

end RemoteNodes
