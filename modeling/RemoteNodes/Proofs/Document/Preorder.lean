import Mathlib.Tactic
import Mathlib.Logic.Relation
import RemoteNodes.Document.FieldPath
/-!
Selections in pre-order, with fragments opened where they are spread, and the search for a field
among them.

* `Place`, `Place.Step`: a walk that keeps the places still to be seen and puts the places inside
  the first one in front of the rest. It ends at a field that is too deep and at a spread of a
  missing fragment. `Place.First`: the first place with a property.
* `FieldSearch.Passes`, `FieldSearch.not_acc_of_loop`: the walk past fields that fail a test; a
  fragment that comes back to its own spread makes it endless.
* `FieldSearch.sound`: **a search reports what its walk ends with**, if the walk ends. A fragment is
  not opened again only where it is open, and then the walk does not end.
* `FieldSearch.exists_first_of_reached`: **the search finds the first field that passes the test**.
-/

namespace RemoteNodes

open Relation

/-! ### Places in pre-order -/

/-- A selection with the path to the field around it. -/
structure Place where
  path : List String
  selection : Selection

namespace Place

variable {fragments : List Fragment} {place : Place} {a b c : List Place}

/-- The path to what a place selects. -/
def fieldPath : Place → List String
  | ⟨path, .field alias? name _ _ _⟩ => path ++ [Selection.responseKey alias? name]
  | ⟨path, _⟩ => path

/-- The places inside a place, those of a spread being in its fragment. None can be told for fields
that are too deep and spreads of missing fragments. -/
def inside? (fragments : List Fragment) : Place → Option (List Place)
  | ⟨path, .field alias? name arguments directives selections?⟩ =>
    if maxNesting < path.length then none
    else some ((selections?.getD []).map
      (⟨fieldPath ⟨path, .field alias? name arguments directives selections?⟩, ·⟩))
  | ⟨path, .inline _ _ selections⟩ => some (selections.map (⟨path, ·⟩))
  | ⟨path, .spread name _⟩ => (lastFragment? fragments name).map (·.selections.map (⟨path, ·⟩))

/-- The first place is left for the places inside it. -/
inductive Step (fragments : List Fragment) : List Place → List Place → Prop
  | enter {place : Place} {inside : List Place} (rest : List Place)
      (h : place.inside? fragments = some inside) : Step fragments (place :: rest) (inside ++ rest)

lemma Step.unique (hb : Step fragments a b) (hc : Step fragments a c) : b = c := by
  cases hb with
  | enter rest h =>
      cases hc with
      | enter _ h' => rw [Option.some.inj (h.symm.trans h')]

/-- The first place with a property that comes when all the places are seen in pre-order. -/
def First (fragments : List Fragment) (start : List Place) (P : Place → Prop) (place : Place) :
    Prop :=
  ∃ rest, ReflTransGen (Step fragments) start (place :: rest) ∧ P place
    ∧ ∀ other rest', ReflTransGen (Step fragments) start (other :: rest') → P other →
      ReflTransGen (Step fragments) (place :: rest) (other :: rest')

end Place

namespace FieldSearch

variable {search : FieldSearch} {place : Place} {a b c extra rest : List Place}

/-! ### Past fields that fail the test -/

/-- A field that passes the test and is not too deep. -/
def Hits (search : FieldSearch) (place : Place) : Prop :=
  place.selection.isField = true ∧ place.path.length ≤ maxNesting
    ∧ search.test place.selection = true

/-- A place that no search gets past, with the fault for it. -/
inductive Blocks (search : FieldSearch) : Place → ConfigurationFault → Prop
  | tooDeep {path : List String} {alias? : Option String} {name : String}
      {arguments : List Argument} {directives : List Directive}
      {selections? : Option (List Selection)} (h : maxNesting < path.length) :
      search.Blocks ⟨path, .field alias? name arguments directives selections?⟩ (.tooDeep path)
  | noFragment {path : List String} {name : String} {directives : List Directive}
      (h : lastFragment? search.fragments name = none) :
      search.Blocks ⟨path, .spread name directives⟩ (.noFragment name)

/-- The first place, which is not what is searched for, is left for the places inside it. -/
inductive Passes (search : FieldSearch) : List Place → List Place → Prop
  | enter {place : Place} {inside : List Place} (rest : List Place) (hmiss : ¬ search.Hits place)
      (h : place.inside? search.fragments = some inside) :
      search.Passes (place :: rest) (inside ++ rest)

lemma passes_inside {inside : List Place} (hmiss : ¬ search.Hits place)
    (h : place.inside? search.fragments = some inside) : search.Passes [place] inside := by
  have hpass : search.Passes [place] (inside ++ []) := .enter [] hmiss h
  rwa [List.append_nil] at hpass

lemma Blocks.inside?_eq_none {fault : ConfigurationFault} (h : search.Blocks place fault) :
    place.inside? search.fragments = none := by
  cases h with
  | tooDeep h => exact if_pos h
  | noFragment h => simp [Place.inside?, h]

lemma Passes.step (h : search.Passes a b) : Place.Step search.fragments a b := by
  cases h with
  | enter rest _ h => exact .enter rest h

lemma Passes.unique (hb : search.Passes a b) (hc : search.Passes a c) : b = c :=
  hb.step.unique hc.step

lemma rightUnique_passes : Relator.RightUnique search.Passes := fun _ _ _ => Passes.unique

lemma Passes.append (h : search.Passes a b) (rest : List Place) :
    search.Passes (a ++ rest) (b ++ rest) := by
  cases h with
  | enter rest' hmiss h =>
      rw [List.append_assoc]
      exact .enter _ hmiss h

lemma passes_append (h : ReflTransGen search.Passes a b) (rest : List Place) :
    ReflTransGen search.Passes (a ++ rest) (b ++ rest) :=
  h.lift (· ++ rest) fun _ _ h => h.append rest

/-- A walk that ends with more places behind it ends without them. -/
lemma acc_of_append (h : Acc (flip search.Passes) (a ++ rest)) : Acc (flip search.Passes) a := by
  generalize hstart : a ++ rest = start at h
  induction h generalizing a with
  | intro start _ ih =>
      subst hstart
      exact ⟨_, fun b hb => ih _ (hb.append rest) rfl⟩

lemma acc_of_passes (h : Acc (flip search.Passes) a) (hb : ReflTransGen search.Passes a b) :
    Acc (flip search.Passes) b := by
  induction hb with
  | refl => exact h
  | tail _ hstep ih => exact ih.inv hstep

/-- A walk that comes back to where it began, whatever is left behind, does not end. -/
lemma not_acc_of_loop (h : TransGen search.Passes a (a ++ extra)) :
    ¬ Acc (flip search.Passes) a := by
  intro hacc
  have hloop (rest : List Place) : TransGen search.Passes (a ++ rest) (a ++ (extra ++ rest)) := by
    rw [← List.append_assoc]
    exact h.lift (· ++ rest) fun _ _ h => h.append rest
  -- all stages of the loop begin in the same way, so the induction is on the first of them
  have hnone (start : List Place) (hstart : Acc (TransGen (flip search.Passes)) start) :
      ∀ rest, start ≠ a ++ rest := by
    induction hstart with
    | intro start _ ih =>
        rintro rest rfl
        exact ih _ (transGen_swap.mpr (hloop rest)) _ rfl
  exact hnone a hacc.transGen [] (List.append_nil a).symm

lemma eq_of_passes_of_ends (h : ReflTransGen search.Passes b c) (hb : ∀ d, ¬ search.Passes b d) :
    b = c := by
  rcases h.cases_head with rfl | ⟨d, hd, -⟩
  · rfl
  · exact absurd hd (hb d)

/-- A walk has one end. -/
lemma end_unique (hb : ReflTransGen search.Passes a b) (hendb : ∀ d, ¬ search.Passes b d)
    (hc : ReflTransGen search.Passes a c) (hendc : ∀ d, ¬ search.Passes c d) : b = c := by
  rcases ReflTransGen.total_of_right_unique rightUnique_passes hb hc with h | h
  · exact eq_of_passes_of_ends h hendb
  · exact (eq_of_passes_of_ends h hendc).symm

/-- A walk that cannot go on has ended. -/
lemma acc_of_end (hb : ReflTransGen search.Passes a b) (hend : ∀ d, ¬ search.Passes b d) :
    Acc (flip search.Passes) a := by
  induction hb using ReflTransGen.head_induction_on with
  | refl => exact ⟨_, fun d hd => absurd hd (hend d)⟩
  | head hstep _ ih => exact ⟨_, fun d hd => hstep.unique hd ▸ ih⟩

lemma Hits.ends (h : search.Hits place) (rest d : List Place) :
    ¬ search.Passes (place :: rest) d := by
  intro hd
  cases hd with
  | enter _ hmiss _ => exact hmiss h

lemma Blocks.ends {fault : ConfigurationFault} (h : search.Blocks place fault)
    (rest d : List Place) : ¬ search.Passes (place :: rest) d := by
  intro hd
  cases hd with
  | enter _ _ hinside => cases h.inside?_eq_none.symm.trans hinside

lemma Blocks.not_hits {fault : ConfigurationFault} (h : search.Blocks place fault) :
    ¬ search.Hits place := by
  rintro ⟨hfield, hdepth, -⟩
  cases h with
  | tooDeep h => exact absurd hdepth (by simpa using h)
  | noFragment => cases hfield

/-! ### The search -/

/-- What a search reports of places is what the walk through them ends with. -/
def Reports (search : FieldSearch) (places : List Place) :
    Except ConfigurationFault (Option (List String)) → Prop
  | .ok none => ReflTransGen search.Passes places []
  | .ok (some path) => ∃ place rest, ReflTransGen search.Passes places (place :: rest)
      ∧ search.Hits place ∧ place.fieldPath = path
  | .error fault => ∃ place rest, ReflTransGen search.Passes places (place :: rest)
      ∧ search.Blocks place fault

variable {found : Except ConfigurationFault (Option (List String))}

lemma Reports.of_passes (h : search.Reports b found) (hab : ReflTransGen search.Passes a b) :
    search.Reports a found := by
  match found, h with
  | .ok none, h => exact hab.trans h
  | .ok (some path), ⟨place, rest, hwalk, h⟩ => exact ⟨place, rest, hab.trans hwalk, h⟩
  | .error fault, ⟨place, rest, hwalk, h⟩ => exact ⟨place, rest, hab.trans hwalk, h⟩

lemma Reports.append (h : search.Reports a found) (hfound : found ≠ .ok none) (rest : List Place) :
    search.Reports (a ++ rest) found := by
  match found, h with
  | .ok none, h => exact absurd rfl hfound
  | .ok (some path), ⟨place, rest', hwalk, h⟩ => exact ⟨place, _, passes_append hwalk rest, h⟩
  | .error fault, ⟨place, rest', hwalk, h⟩ => exact ⟨place, _, passes_append hwalk rest, h⟩

/-- Where a walk comes to a field that passes the test, this is what is reported. -/
lemma Reports.eq_of_hits (h : search.Reports a found)
    (hwalk : ReflTransGen search.Passes a (place :: rest)) (hplace : search.Hits place) :
    found = .ok (some place.fieldPath) := by
  match found, h with
  | .ok none, h => cases end_unique hwalk (hplace.ends rest) h fun d hd => nomatch hd
  | .ok (some path), ⟨other, rest', hwalk', hother, hpath⟩ =>
      cases end_unique hwalk (hplace.ends rest) hwalk' (hother.ends rest')
      rw [hpath]
  | .error fault, ⟨other, rest', hwalk', hother⟩ =>
      cases end_unique hwalk (hplace.ends rest) hwalk' (hother.ends rest')
      exact absurd hplace hother.not_hits

/-- The fragments that may not be opened are open: the walk through the selections of each of them
has come to the places without passing a field. -/
def Opened (search : FieldSearch) (path closed : List String) (places : List Place) : Prop :=
  ∀ name f, lastFragment? search.fragments name = some f → name ∉ closed →
    ∃ extra, ReflTransGen search.Passes (f.selections.map (⟨path, ·⟩)) (places ++ extra)

lemma Opened.of_passes {path closed : List String} (h : search.Opened path closed a)
    (hab : ReflTransGen search.Passes a b) : search.Opened path closed b := by
  intro name f hf hname
  obtain ⟨extra, hwalk⟩ := h name f hf hname
  exact ⟨extra, hwalk.trans (passes_append hab extra)⟩

lemma Opened.of_append {path closed : List String} (h : search.Opened path closed (a ++ rest)) :
    search.Opened path closed a := by
  intro name f hf hname
  obtain ⟨extra, hwalk⟩ := h name f hf hname
  exact ⟨rest ++ extra, by rwa [← List.append_assoc]⟩

/-- No fragment is open at first. -/
lemma opened_all (path : List String) (places : List Place) :
    search.Opened path (search.fragments.map (·.name)) places := by
  intro name f hf hname
  have hmem : f ∈ search.fragments := List.mem_reverse.mp (List.mem_of_find?_eq_some hf)
  have heq : f.name = name := by simpa using List.find?_some hf
  exact absurd (List.mem_map.mpr ⟨f, hmem, heq⟩) hname

/-- Where a spread opens its fragment, the walk goes on in the fragment. -/
lemma Opened.erase {path closed : List String} {name : String} {directives : List Directive}
    {f : Fragment} (h : search.Opened path closed [⟨path, .spread name directives⟩])
    (hf : lastFragment? search.fragments name = some f)
    (hstep : search.Passes [⟨path, .spread name directives⟩] (f.selections.map (⟨path, ·⟩))) :
    search.Opened path (closed.erase name) (f.selections.map (⟨path, ·⟩)) := by
  intro other g hg hother
  by_cases heq : other = name
  · subst heq
    obtain rfl := Option.some.inj (hf.symm.trans hg)
    exact ⟨[], by rw [List.append_nil]⟩
  · exact h.of_passes (.single hstep) other g hg
      fun hclosed => hother ((List.mem_erase_of_ne heq).mpr hclosed)

/-- Whether a search through places with some fragments closed reports where their walk ends, if it
ends and the other fragments are open. -/
def Sound (search : FieldSearch) (path closed : List String) (places : List Place)
    (found : Except ConfigurationFault (Option (List String))) : Prop :=
  Acc (flip search.Passes) places → search.Opened path closed places → search.Reports places found

/-- What is reported of the places inside a place is reported of the place. -/
lemma Sound.of_step {path path' closed closed' : List String}
    (hstep : search.Passes a b) (hopened : search.Opened path closed a →
      search.Opened path' closed' b)
    (h : search.Sound path' closed' b found) : search.Sound path closed a found := by
  intro hacc hopen
  exact (h (hacc.inv hstep) (hopened hopen)).of_passes (.single hstep)

section Field

variable {path closed : List String} {alias? : Option String} {name : String}
  {arguments : List Argument} {directives : List Directive}
  {selections? : Option (List Selection)}

lemma sound_tooDeep (hdeep : maxNesting < path.length) :
    search.Sound path closed [⟨path, .field alias? name arguments directives selections?⟩]
      (.error (.tooDeep path)) :=
  fun _ _ => ⟨_, [], .refl, .tooDeep hdeep⟩

lemma sound_hit (hdeep : ¬ maxNesting < path.length)
    (htest : search.test (.field alias? name arguments directives selections?) = true) :
    search.Sound path closed [⟨path, .field alias? name arguments directives selections?⟩]
      (.ok (some (path ++ [Selection.responseKey alias? name]))) :=
  fun _ _ => ⟨_, [], .refl, ⟨rfl, Nat.le_of_not_lt hdeep, htest⟩, rfl⟩

/-- A field that fails the test is left for the fields in it. -/
lemma passes_field (hdeep : ¬ maxNesting < path.length)
    (htest : ¬ search.test (.field alias? name arguments directives selections?) = true) :
    search.Passes [⟨path, .field alias? name arguments directives selections?⟩]
      ((selections?.getD []).map (⟨path ++ [Selection.responseKey alias? name], ·⟩)) := by
  have hinside : Place.inside? search.fragments
      ⟨path, .field alias? name arguments directives selections?⟩ = some
        ((selections?.getD []).map (⟨path ++ [Selection.responseKey alias? name], ·⟩)) :=
    if_neg hdeep
  exact passes_inside (fun hit => htest hit.2.2) hinside

end Field

/-- Selections that are opened in place are searched with the fragments that are still closed. -/
lemma passes_inline {path : List String} {condition? : Option String} {directives : List Directive}
    {selections : List Selection} :
    search.Passes [⟨path, .inline condition? directives selections⟩]
      (selections.map (⟨path, ·⟩)) :=
  passes_inside (fun hit => Bool.false_ne_true hit.1) rfl

lemma passes_spread {path : List String} {name : String} {directives : List Directive}
    {f : Fragment} (hf : lastFragment? search.fragments name = some f) :
    search.Passes [⟨path, .spread name directives⟩] (f.selections.map (⟨path, ·⟩)) := by
  have hinside : Place.inside? search.fragments ⟨path, .spread name directives⟩
      = some (f.selections.map (⟨path, ·⟩)) := by
    rw [Place.inside?, hf, Option.map_some]
  exact passes_inside (fun hit => Bool.false_ne_true hit.1) hinside

/-- A spread of an open fragment leads back to itself. -/
lemma Opened.not_acc {path closed : List String} {name : String} {directives : List Directive}
    {f : Fragment} (h : search.Opened path closed [⟨path, .spread name directives⟩])
    (hf : lastFragment? search.fragments name = some f) (hname : name ∉ closed) :
    ¬ Acc (flip search.Passes) [(⟨path, .spread name directives⟩ : Place)] := by
  obtain ⟨extra, hwalk⟩ := h name f hf hname
  exact not_acc_of_loop (.head' (passes_spread hf) hwalk)

/-- What is reported of the first place, unless it is nothing, is reported of all places; otherwise
what is reported of the others. -/
lemma sound_cons {path closed : List String} {place : Place} {places : List Place}
    {first : Except ConfigurationFault (Option (List String))}
    (hfirst : search.Sound path closed [place] first)
    (hfound : first ≠ .ok none → found = first)
    (hrest : first = .ok none → search.Sound path closed places found) :
    search.Sound path closed (place :: places) found := by
  intro hacc hopen
  have hacc' : Acc (flip search.Passes) ([place] ++ places) := hacc
  have hopen' : search.Opened path closed ([place] ++ places) := hopen
  have hplace : search.Reports [place] first := hfirst (acc_of_append hacc') hopen'.of_append
  by_cases hnone : first = .ok none
  · subst hnone
    have hwalk : ReflTransGen search.Passes (place :: places) places := passes_append hplace places
    exact (hrest rfl (acc_of_passes hacc hwalk) (hopen.of_passes hwalk)).of_passes hwalk
  · rw [hfound hnone]
    exact hplace.append hnone places

/-- **A search reports where its walk ends**, if it ends. -/
theorem sound (search : FieldSearch) :
    (∀ path closed s, search.Sound path closed [⟨path, s⟩] (search.inSelection path closed s))
      ∧ ∀ path closed ss,
        search.Sound path closed (ss.map (⟨path, ·⟩)) (search.inSelections path closed ss) := by
  apply FieldSearch.inSelection.mutual_induct search
    (fun path closed s => search.Sound path closed [⟨path, s⟩] (search.inSelection path closed s))
    (fun path closed ss =>
      search.Sound path closed (ss.map (⟨path, ·⟩)) (search.inSelections path closed ss))
  case case1 | case4 =>
    intros
    rename_i hdeep
    rw [inSelection]
    simp only [hdeep, if_true, dite_true]
    exact sound_tooDeep hdeep
  case case2 | case5 =>
    intros
    rename_i hdeep htest
    rw [inSelection]
    simp only [hdeep, htest, if_true, if_false, dite_false]
    exact sound_hit hdeep htest
  case case3 =>
    intro path closed alias? name arguments directives hdeep htest
    rw [inSelection, if_neg hdeep, if_neg htest]
    exact fun _ _ => .single (passes_field hdeep htest)
  case case6 =>
    intro path closed alias? name arguments directives selections hdeep htest ih
    rw [inSelection, dif_neg hdeep, if_neg htest]
    exact ih.of_step (passes_field hdeep htest) fun _ => opened_all _ _
  case case7 =>
    intro path closed condition? directives selections ih
    rw [inSelection]
    exact ih.of_step passes_inline fun hopen => hopen.of_passes (.single passes_inline)
  case case8 =>
    intro path closed name directives hnone
    rw [inSelection, hnone]
    exact fun _ _ => ⟨_, [], .refl, .noFragment hnone⟩
  case case9 =>
    intro path closed name directives f hf hname ih
    rw [inSelection, hf]
    simp only [dif_pos hname]
    exact ih.of_step (passes_spread hf) fun hopen => hopen.erase hf (passes_spread hf)
  case case10 =>
    intro path closed name directives f hf hname
    exact fun hacc hopen => absurd hacc (hopen.not_acc hf hname)
  case case11 =>
    intro path closed
    rw [inSelections]
    exact fun _ _ => .refl
  case case12 =>
    intro path closed s ss hnone ihs ihss
    rw [inSelections, hnone]
    exact sound_cons ihs (fun h => absurd hnone h) fun _ => ihss
  case case13 =>
    intro path closed s ss hfound ihs
    refine sound_cons ihs (fun _ => ?_) fun h => absurd h hfound
    rw [inSelections]
    split
    · exact absurd ‹_› hfound
    · rfl

/-! ### The first field that passes the test -/

/-- Before a field that passes the test the walk passes nothing but what fails it, or another such
field. -/
lemma exists_first (hplace : search.Hits place)
    (hwalk : ReflTransGen (Place.Step search.fragments) a (place :: rest)) :
    ∃ first later, ReflTransGen search.Passes a (first :: later) ∧ search.Hits first
      ∧ ReflTransGen (Place.Step search.fragments) (first :: later) (place :: rest) := by
  induction hwalk using ReflTransGen.head_induction_on with
  | refl => exact ⟨place, rest, .refl, hplace, .refl⟩
  | head hstep hwalk ih =>
      obtain ⟨first, later, hpasses, hfirst, hlater⟩ := ih
      cases hstep with
      | @enter head inside rest' hinside =>
          by_cases hhead : search.Hits head
          · exact ⟨head, rest', .refl, hhead, .head (.enter rest' hinside) hwalk⟩
          · exact ⟨first, later, .head (.enter rest' hhead hinside) hpasses, hfirst, hlater⟩

/-- **The search finds the first field that passes the test**, if any such field is reached before a
field that is too deep or a spread of a missing fragment. -/
theorem exists_first_of_reached {path : List String} {ss : List Selection}
    (hplace : search.Hits place)
    (hwalk : ReflTransGen (Place.Step search.fragments) (ss.map (⟨path, ·⟩)) (place :: rest)) :
    ∃ first, Place.First search.fragments (ss.map (⟨path, ·⟩)) search.Hits first
      ∧ search.inSelections path (search.fragments.map (·.name)) ss
        = .ok (some first.fieldPath) := by
  obtain ⟨first, later, hpasses, hfirst, -⟩ := exists_first hplace hwalk
  have hend := hfirst.ends later
  have hreports := search.sound.2 path (search.fragments.map (·.name)) ss
    (acc_of_end hpasses hend) (opened_all path _)
  refine ⟨first, ⟨later, hpasses.lift id fun _ _ => Passes.step, hfirst, ?_⟩, ?_⟩
  · -- the first field before another one is the same, since the walk is determined
    intro other rest' hwalk' hother
    obtain ⟨first', later', hpasses', hfirst', hlater⟩ := exists_first hother hwalk'
    have hsame := end_unique hpasses hend hpasses' (hfirst'.ends later')
    exact hsame ▸ hlater
  · exact hreports.eq_of_hits hpasses hfirst

end FieldSearch

end RemoteNodes
