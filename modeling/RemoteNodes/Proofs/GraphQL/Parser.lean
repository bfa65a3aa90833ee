import Mathlib.Tactic
import RemoteNodes.GraphQL.Parser
import RemoteNodes.Proofs.Selection.Rule
/-!
What is read from a text has no empty selection set.

* `Reader.Yields`: a reader that gives nothing but values with a property; `Yields.bind`,
  `yields_many`: such readers put together.
* `Reader.yields_selectionSet`: selections in braces are one at least, at any depth.
* `Document.filled_of_parse?`: **a document that a text writes has no empty selection set**.
* `Document.parse?_of_scan`: a document, from the tokens of its text.
-/

namespace RemoteNodes

/-- A document without empty selection sets. -/
def Document.Filled (document : Document) : Prop := ∀ set ∈ document.selectionSets, set ≠ []

namespace Reader

variable {α β : Type} {P : α → Prop} {Q : β → Prop}

/-- A reader that gives nothing but values with a property. -/
def Yields (P : α → Prop) (reader : Reader α) : Prop :=
  ∀ tokens a rest, reader.run tokens = some (a, rest) → P a

lemma Yields.pure {a : α} (h : P a) : Yields P (pure a : Reader α) := by
  intro tokens a' rest hrun
  cases hrun
  exact h

lemma yields_failure : Yields P (failure : Reader α) := by
  intro tokens a rest hrun
  cases hrun

lemma Yields.bind {reader : Reader β} {next : β → Reader α} (hreader : Yields Q reader)
    (hnext : ∀ b, Q b → Yields P (next b)) : Yields P (reader >>= next) := by
  intro tokens a rest hrun
  obtain ⟨⟨b, between⟩, hb, ha⟩ := Option.bind_eq_some_iff.mp hrun
  exact hnext b (hreader tokens b between hb) between a rest ha

/-- A reader after another one, whose value does not count. -/
lemma Yields.after {reader : Reader β} {next : β → Reader α} (hnext : ∀ b, Yields P (next b)) :
    Yields P (reader >>= next) :=
  Yields.bind (Q := fun _ => True) (fun _ _ _ _ => trivial) fun b _ => hnext b

/-- Items up to a closing token are all what one item is. -/
lemma yields_upTo {close : Token} {item : Reader α} (hitem : Yields P item) (fuel : Nat) :
    Yields (fun items => ∀ a ∈ items, P a) (upTo close item fuel) := by
  induction fuel with
  | zero => exact yields_failure
  | succ fuel ih =>
      rw [upTo]
      refine .after fun closed => ?_
      split
      · exact .pure (by simp)
      · refine .bind hitem fun first hfirst => .bind ih fun rest hrest => .pure ?_
        exact List.forall_mem_cons.mpr ⟨hfirst, hrest⟩

/-- Items between two tokens are one at least. -/
lemma yields_many {opening closing : Token} {item : Reader α} (hitem : Yields P item) (fuel : Nat) :
    Yields (fun items => items ≠ [] ∧ ∀ a ∈ items, P a) (many opening closing fuel item) := by
  rw [many]
  refine .after fun _ => .bind hitem fun first hfirst => ?_
  refine .bind (yields_upTo hitem fuel) fun rest hrest => .pure ?_
  exact ⟨List.cons_ne_nil _ _, List.forall_mem_cons.mpr ⟨hfirst, hrest⟩⟩

/-! ### Selections -/

lemma yields_selectionOver {fuel room : Nat} {set : Reader (List Selection)}
    (hset : Yields (SetObeys .filled) set) :
    Yields (Selection.Obeys .filled) (selectionOver fuel room set) := by
  rw [selectionOver]
  refine .after fun dots => ?_
  split
  · refine .after fun on => ?_
    split
    · refine .after fun condition => .after fun directives => .bind hset fun ss hss => .pure ?_
      exact Selection.obeys_inline.mpr hss
    · refine .after fun token => ?_
      split
      · refine .after fun _ => .after fun directives => .pure ?_
        exact Selection.obeys_spread.mpr trivial
      · refine .after fun directives => .bind hset fun ss hss => .pure ?_
        exact Selection.obeys_inline.mpr hss
  · refine .after fun first => .after fun named => ?_
    obtain ⟨alias?, name⟩ := named
    refine .after fun arguments => .after fun directives => ?_
    have hset? : Yields (fun selections? : Option (List Selection) =>
        ∀ ss, selections? = some ss → SetObeys .filled ss) (do
          if (← peek?) == some openBrace then return some (← set) else return none) := by
      refine .after fun token => ?_
      split
      · refine .bind hset fun ss hss => .pure fun ss' hss' => ?_
        cases hss'
        exact hss
      · exact .pure fun ss' hss' => by cases hss'
    refine .bind hset? fun selections? hselections => .pure ?_
    cases selections? with
    | none => exact Selection.obeys_leaf ..
    | some ss => exact Selection.obeys_field.mpr (hselections ss rfl)

/-- Selections in braces are one at least, at any depth. -/
lemma yields_selectionSet (fuel room : Nat) :
    Yields (SetObeys .filled) (selectionSet fuel room) := by
  induction room with
  | zero => exact yields_failure
  | succ room ih =>
      rw [selectionSet]
      intro tokens ss rest hrun
      obtain ⟨hne, hall⟩ := yields_many (yields_selectionOver ih) fuel tokens ss rest hrun
      exact .of_ne_nil hne hall

/-! ### Definitions -/

/-- A definition without empty selection sets. -/
def Filled (d : Definition) : Prop := ∀ set ∈ d.selectionSets, set ≠ []

lemma filled_of_setObeys {ss : List Selection} (h : SetObeys .filled ss) :
    ∀ set ∈ ss :: setsIn ss, set ≠ [] :=
  List.forall_mem_cons.mpr (setObeys_filled.mp h)

lemma filled_of_selectionSets_eq_nil {d : Definition} (h : d.selectionSets = []) : Filled d := by
  intro set hset
  rw [h] at hset
  cases hset

lemma yields_operation (fuel : Nat) (description? : Option Description) :
    Yields (fun o => SetObeys .filled o.selections) (operation fuel description?) := by
  rw [operation]
  refine .after fun kind => .after fun name? => .after fun definitions => ?_
  exact .after fun directives => .bind (yields_selectionSet fuel _) fun ss hss => .pure hss

lemma yields_fragment (fuel : Nat) (description? : Option Description) :
    Yields (fun f => SetObeys .filled f.selections) (fragment fuel description?) := by
  rw [fragment]
  refine .after fun _ => .after fun name => ?_
  dsimp only
  split
  · exact .bind yields_failure fun _ (h : False) => h.elim
  · refine .after fun _ => .after fun condition => .after fun directives => ?_
    exact .bind (yields_selectionSet fuel _) fun ss hss => .pure hss

/-- Definitions of the schema, of types and of directives have no selection sets at all. -/
lemma yields_systemDefinition (fuel : Nat) (description? : Option Description) :
    Yields Filled (systemDefinition fuel description?) := by
  rw [systemDefinition]
  refine .after fun word => ?_
  split
  · refine .after fun directives => .after fun roots => ?_
    dsimp only
    split
    · exact .after fun _ => .pure (filled_of_selectionSets_eq_nil rfl)
    · exact .pure (filled_of_selectionSets_eq_nil rfl)
  · split
    · exact .after fun _ => .pure (filled_of_selectionSets_eq_nil rfl)
    · exact .after fun _ => .pure (filled_of_selectionSets_eq_nil rfl)

lemma yields_extension (fuel : Nat) : Yields Filled (extension fuel) := by
  rw [extension]
  refine .after fun _ => .after fun word => ?_
  split
  · refine .after fun directives => .after fun roots => ?_
    dsimp only
    split
    · exact .after fun _ => .pure (filled_of_selectionSets_eq_nil rfl)
    · exact .pure (filled_of_selectionSets_eq_nil rfl)
  · refine .after fun definition => ?_
    split
    · exact .pure (filled_of_selectionSets_eq_nil rfl)
    · exact yields_failure

lemma yields_describable (fuel : Nat) (description? : Option Description) :
    Yields Filled (describable fuel description?) := by
  have hoperation : Yields Filled (do return .operation (← operation fuel description?)) :=
    .bind (yields_operation fuel description?) fun o ho => .pure (filled_of_setObeys ho)
  rw [describable]
  refine .after fun token => ?_
  split
  · exact hoperation
  · exact hoperation
  · exact hoperation
  · exact .bind (yields_fragment fuel description?) fun f hf => .pure (filled_of_setObeys hf)
  · exact yields_systemDefinition fuel description?

lemma yields_definition (fuel : Nat) : Yields Filled (definition fuel) := by
  rw [definition]
  refine .after fun token => ?_
  split
  · rw [bareQuery, bind_assoc]
    exact .bind (yields_selectionSet fuel _) fun ss hss => .pure (filled_of_setObeys hss)
  · exact yields_extension fuel
  · exact .after fun description? => yields_describable fuel description?

lemma yields_definitions (whole fuel : Nat) :
    Yields (fun ds => ∀ d ∈ ds, Filled d) (definitions whole fuel) := by
  induction fuel with
  | zero => exact yields_failure
  | succ fuel ih =>
      rw [definitions]
      refine .bind (yields_definition whole) fun first hfirst => .after fun tokens => ?_
      split
      · exact .pure (by simpa using hfirst)
      · exact .bind ih fun rest hrest => .pure (List.forall_mem_cons.mpr ⟨hfirst, hrest⟩)

end Reader

namespace Document

variable {text : String} {document : Document}

/-- A document that a text writes has no empty selection set. -/
theorem filled_of_parse? (h : Document.parse? text = some document) : document.Filled := by
  obtain ⟨tokens, -, h⟩ := Option.bind_eq_some_iff.mp h
  obtain ⟨⟨definitions, rest⟩, hrun, h⟩ := Option.bind_eq_some_iff.mp h
  cases h
  intro set hset
  obtain ⟨d, hd, hset⟩ := List.mem_flatMap.mp hset
  exact Reader.yields_definitions _ _ tokens document rest hrun d hd set hset

/-- A document is what its tokens are read as. -/
lemma parse?_of_scan {tokens rest : List Token} (hscan : Token.scan? text = some tokens)
    (hread : (Reader.definitions (tokens.length + 1) (tokens.length + 1)).run tokens
      = some (document, rest)) : Document.parse? text = some document := by
  refine Option.bind_eq_some_iff.mpr ⟨tokens, hscan, ?_⟩
  exact Option.bind_eq_some_iff.mpr ⟨(document, rest), hread, rfl⟩

end Document

end RemoteNodes
