import Mathlib.Tactic
import RemoteNodes.Node.Reference
import RemoteNodes.Proofs.Fault
import RemoteNodes.Proofs.Keyed
import RemoteNodes.Proofs.Selection.Rule
/-!
The rules that reference fragments obey. They are made of ID fragments: that of a node type has the
selections of its ID fragment, that of an interface the fields of many ID fragments in one.

* `Declares`: the queries and the ID fragment that a type is declared with; `IsIdName`.
* `Selection.HasFields`: a selection whose selection sets hold fields; merging keeps only those.
* `obeys_of_mem_mergeAll`, `mergeAll_ne_nil`: merging fields.
* `obey_referenceFragments`: **references obey the rules that the ID fragments obey**, provided that
  what merging leaves out does not empty a selection set against the rule.
-/

namespace RemoteNodes

variable {rule : SelectionRule}

/-- A type is declared with these queries, which hold this ID fragment. -/
def Declares (declarations : List NodeDeclaration) (type : String) (queries : Document)
    (idFragment : Fragment) : Prop :=
  ∃ (index : Nat) (d : NodeDeclaration), declarations[index]? = some d ∧ d.type = type
    ∧ d.read index = .ok (queries, idFragment)

/-- Whether an ID fragment has a name. -/
def IsIdName (declarations : List NodeDeclaration) (name : String) : Prop :=
  ∃ type queries idFragment, Declares declarations type queries idFragment ∧ idFragment.name = name

/-- References whose fragments all obey a rule. -/
def References.Obey (rule : SelectionRule) (references : References) : Prop :=
  ∀ name f, Keyed.get? references name = some f → SetObeys rule f.selections

/-! ### Merging fields -/

/-- A selection whose selection sets hold a field each, unless the rule allows empty ones. -/
def Selection.HasFields (rule : SelectionRule) (s : Selection) : Prop :=
  ∀ set ∈ s.sets, (∃ x ∈ set, x.isField = true) ∨ rule.empty

section Merging

variable {merged ss : List Selection} {s x : Selection} {name : String}

/-- The selections inside a field of the name are those of a field that stands in the set. -/
lemma mem_of_selectionsOf (h : selectionsOf name merged = some ss) :
    ∃ alias? arguments directives, .field alias? name arguments directives (some ss) ∈ merged := by
  induction merged with
  | nil => cases h
  | cons x merged ih =>
      cases x with
      | field alias? name' arguments directives selections? =>
          rw [selectionsOf] at h
          split at h
          · rename_i hname
            obtain rfl := beq_iff_eq.mp hname
            exact ⟨alias?, arguments, directives, h ▸ List.mem_cons_self⟩
          · obtain ⟨alias?', arguments', directives', hmem⟩ := ih h
            exact ⟨alias?', arguments', directives', List.mem_cons_of_mem _ hmem⟩
      | spread _ _ | inline _ _ _ =>
          obtain ⟨alias?', arguments', directives', hmem⟩ := ih h
          exact ⟨alias?', arguments', directives', List.mem_cons_of_mem _ hmem⟩

/-- Besides the field that is set, only what was there stands in a set. -/
lemma mem_putField {selections? : Option (List Selection)}
    (hx : x ∈ putField name selections? merged) : x = .plain name selections? ∨ x ∈ merged := by
  induction merged with
  | nil => exact .inl (List.mem_singleton.mp hx)
  | cons y merged ih =>
      have hkept (hx : x ∈ y :: putField name selections? merged) :
          x = .plain name selections? ∨ x ∈ y :: merged := by
        rcases List.mem_cons.mp hx with rfl | hx
        · exact .inr List.mem_cons_self
        · exact (ih hx).imp_right (List.mem_cons_of_mem _)
      cases y with
      | field alias? name' arguments directives selections?' =>
          rw [putField] at hx
          split at hx
          · exact (List.mem_cons.mp hx).imp_right (List.mem_cons_of_mem _)
          · exact hkept hx
      | spread _ _ | inline _ _ _ => exact hkept hx

lemma setObeys_of_selectionsOf (hmerged : ∀ x ∈ merged, x.Obeys rule)
    (h : selectionsOf name merged = some ss) : SetObeys rule ss := by
  obtain ⟨_, _, _, hmem⟩ := mem_of_selectionsOf h
  exact Selection.obeys_field.mp (hmerged _ hmem)

lemma obeys_of_mem_putField {selections? : Option (List Selection)}
    (hmerged : ∀ x ∈ merged, x.Obeys rule) (hnew : (Selection.plain name selections?).Obeys rule)
    (hx : x ∈ putField name selections? merged) : x.Obeys rule := by
  rcases mem_putField hx with rfl | hx
  · exact hnew
  · exact hmerged x hx

lemma putField_ne_nil {selections? : Option (List Selection)} :
    putField name selections? merged ≠ [] := by
  cases merged with
  | nil => simp [putField]
  | cons x merged =>
      cases x with
      | field alias? name' arguments directives selections?' =>
          rw [putField]
          split <;> simp
      | spread _ _ | inline _ _ _ => simp [putField]

/-- Merging a field leaves something, and merging anything else takes nothing away. -/
lemma mergeInto_ne_nil (h : merged ≠ [] ∨ s.isField = true) : mergeInto merged s ≠ [] := by
  cases s with
  | field alias? name arguments directives selections? =>
      cases selections? <;> exact putField_ne_nil
  | spread _ _ | inline _ _ _ => exact h.resolve_right (by simp [Selection.isField])

lemma mergeAll_ne_nil (h : merged ≠ [] ∨ ∃ s ∈ ss, s.isField = true) : mergeAll merged ss ≠ [] := by
  induction ss generalizing merged with
  | nil =>
      rcases h with h | ⟨s, hs, -⟩
      · exact h
      · cases hs
  | cons s ss ih =>
      rw [mergeAll]
      rcases h with h | ⟨s', hs', hfield⟩
      · exact ih (.inl (mergeInto_ne_nil (.inl h)))
      · rcases List.mem_cons.mp hs' with rfl | hs'
        · exact ih (.inl (mergeInto_ne_nil (.inr hfield)))
        · exact ih (.inr ⟨s', hs', hfield⟩)

/-- What holds of a set and is kept by each selection that is merged into it holds in the end. -/
lemma mergeAll_induct {motive : List Selection → Prop} (h : motive merged)
    (hstep : ∀ s ∈ ss, ∀ merged, motive merged → motive (mergeInto merged s)) :
    motive (mergeAll merged ss) := by
  induction ss generalizing merged with
  | nil => exact h
  | cons s ss ih =>
      obtain ⟨hfirst, hrest⟩ := List.forall_mem_cons.mp hstep
      exact ih (hfirst merged h) hrest

/-- Merging a selection keeps the rules that what is merged obeys. -/
lemma obeys_of_mem_mergeInto (hmerged : ∀ x ∈ merged, x.Obeys rule) (hs : s.HasFields rule)
    (hx : x ∈ mergeInto merged s) : x.Obeys rule := by
  induction s using Selection.induct generalizing merged x with
  | leaf alias? name arguments directives =>
      rw [mergeInto] at hx
      refine obeys_of_mem_putField hmerged ?_ hx
      cases h : selectionsOf name merged with
      | none => exact Selection.obeys_plain name
      | some ss => exact Selection.obeys_field.mpr (setObeys_of_selectionsOf hmerged h)
  | composite alias? name arguments directives ss ih =>
      rw [mergeInto] at hx
      refine obeys_of_mem_putField hmerged (Selection.obeys_field.mpr ⟨fun hnil => ?_, ?_⟩) hx
      · refine (hs ss (by simp [Selection.sets])).resolve_left fun hfield => ?_
        exact mergeAll_ne_nil (.inr hfield) hnil
      · have hbefore : ∀ x ∈ (selectionsOf name merged).getD [], x.Obeys rule := by
          cases h : selectionsOf name merged with
          | none => simp
          | some before => exact (setObeys_of_selectionsOf hmerged h).2
        have hinside : ∀ s ∈ ss, s.HasFields rule := fun s hs' set hset =>
          hs set (by
            rw [Selection.sets]
            exact List.mem_cons_of_mem _ (mem_setsIn.mpr ⟨s, hs', hset⟩))
        exact mergeAll_induct (motive := fun merged => ∀ x ∈ merged, x.Obeys rule) hbefore
          fun s hs _ h _ hx => ih s hs h (hinside s hs) hx
  | spread fragment directives => exact hmerged x hx
  | inline condition? directives ss ih => exact hmerged x hx

/-- Merging selections keeps the rules that what is merged obeys, and leaves no spreads. -/
lemma obeys_of_mem_mergeAll (hmerged : ∀ x ∈ merged, x.Obeys rule)
    (hss : ∀ s ∈ ss, s.HasFields rule) (hx : x ∈ mergeAll merged ss) : x.Obeys rule :=
  mergeAll_induct (motive := fun merged => ∀ x ∈ merged, x.Obeys rule) hmerged
    (fun s hs _ h _ hx => obeys_of_mem_mergeInto h (hss s hs) hx) x hx

end Merging

/-! ### References -/

section References

variable {schema : Schema} {declarations : List NodeDeclaration} {references : References}

/-- Declared types that have references are object types. -/
lemma isObject_of_typeReferences {index : Nat} {ds : List NodeDeclaration}
    {entries : List (NamedType × Fragment)} (h : typeReferences schema index ds = .ok entries)
    {d : NodeDeclaration} (hd : d ∈ ds) :
    ∃ t, schema.type? d.type = some t ∧ t.isObject = true := by
  induction ds generalizing index entries with
  | nil => cases hd
  | cons first ds ih =>
      rw [typeReferences] at h
      obtain ⟨⟨queries, idFragment⟩, -, h⟩ := bind_eq_ok.mp h
      cases hfirst : (schema.type? first.type).filter (·.isObject) with
      | none =>
        simp only [hfirst] at h
        cases h
      | some t =>
        simp only [hfirst] at h
        obtain ⟨rest, hrest, -⟩ := bind_eq_ok.mp h
        rcases List.mem_cons.mp hd with rfl | hd
        · exact ⟨t, Option.filter_eq_some_iff.mp hfirst⟩
        · exact ih hrest hd

/-- The reference of a declared type is made of its ID fragment. -/
lemma exists_of_mem_typeReferences {index : Nat} {ds : List NodeDeclaration}
    {entries : List (NamedType × Fragment)} (h : typeReferences schema index ds = .ok entries)
    {t : NamedType} {f : Fragment} (hmem : (t, f) ∈ entries) :
    ∃ (offset : Nat) (d : NodeDeclaration) (queries : Document) (idFragment : Fragment),
      ds[offset]? = some d ∧ d.read (index + offset) = .ok (queries, idFragment)
        ∧ (schema.type? d.type).filter (·.isObject) = some t ∧ f = idFragment.reference d.type := by
  induction ds generalizing index entries with
  | nil =>
      cases h
      cases hmem
  | cons d ds ih =>
      rw [typeReferences] at h
      obtain ⟨⟨queries, idFragment⟩, hread, h⟩ := bind_eq_ok.mp h
      cases ht' : (schema.type? d.type).filter (·.isObject) with
      | none =>
        simp only [ht'] at h
        cases h
      | some t' =>
        simp only [ht'] at h
        obtain ⟨rest, hrest, h⟩ := bind_eq_ok.mp h
        cases h
        rcases List.mem_cons.mp hmem with heq | hmem
        · cases heq
          exact ⟨0, d, queries, idFragment, rfl, hread, ht', rfl⟩
        · obtain ⟨offset, d', queries', idFragment', hd', hread', ht', hf⟩ := ih hrest hmem
          refine ⟨offset + 1, d', queries', idFragment', hd', ?_, ht', hf⟩
          rwa [Nat.add_assoc, Nat.add_comm 1] at hread'

/-- The selections of a reference to a type are its type name and those of its ID fragment. -/
lemma mem_reference {idFragment : Fragment} {type : String} {s : Selection}
    (hs : s ∈ (idFragment.reference type).selections) :
    s = .plain "__typename" ∨ s ∈ idFragment.selections := by
  rcases List.mem_cons.mp hs with rfl | hs
  · exact .inl rfl
  · exact .inr (List.mem_filter.mp hs).1

lemma length_and_mem_of_mapM {α β : Type} {f : α → Option β} {xs : List α} {ys : List β}
    (h : xs.mapM f = some ys) : ys.length = xs.length ∧ ∀ y ∈ ys, ∃ x ∈ xs, f x = some y := by
  induction xs generalizing ys with
  | nil =>
      rw [List.mapM_nil] at h
      cases h
      exact ⟨rfl, fun y hy => by cases hy⟩
  | cons x xs ih =>
      rw [List.mapM_cons] at h
      obtain ⟨y, hy, h⟩ := Option.bind_eq_some_iff.mp h
      obtain ⟨rest, hrest, h⟩ := Option.bind_eq_some_iff.mp h
      cases h
      obtain ⟨hlength, hmem⟩ := ih hrest
      refine ⟨congrArg Nat.succ hlength, fun y' hy' => ?_⟩
      rcases List.mem_cons.mp hy' with rfl | hy'
      · exact ⟨x, List.mem_cons_self, hy⟩
      · obtain ⟨x', hx', h'⟩ := hmem y' hy'
        exact ⟨x', List.mem_cons_of_mem _ hx', h'⟩

/-- The reference of an interface has the merged selections of the references of its possible
types. -/
lemma exists_of_interfaceReference? {name : String} {f : Fragment}
    (h : interfaceReference? schema references name = some f) :
    ∃ (interface : NamedType) (fragments : List Fragment), schema.type? name = some interface
      ∧ fragments.length = (schema.possibleTypes interface).length
      ∧ (∀ g ∈ fragments, ∃ type, Keyed.get? references type = some g)
      ∧ f.selections = mergeAll [] (fragments.flatMap (·.selections)) := by
  rw [interfaceReference?] at h
  obtain ⟨interface, hinterface, h⟩ := Option.bind_eq_some_iff.mp h
  obtain ⟨fragments, hfragments, h⟩ := Option.bind_eq_some_iff.mp h
  dsimp only at h
  split at h
  · cases h
    obtain ⟨hlength, hmem⟩ := length_and_mem_of_mapM hfragments
    refine ⟨interface, fragments, hinterface, hlength, fun g hg => ?_, rfl⟩
    obtain ⟨t, -, ht⟩ := hmem g hg
    exact ⟨t.name, ht⟩
  · cases h

/-- References obey the rules that the ID fragments obey, if merging leaves no selection set empty
against the rule: each set inside an ID fragment holds a field, and each interface of an object type
has possible types. -/
theorem obey_referenceFragments (h : referenceFragments schema declarations = .ok references)
    (hid : ∀ type queries idFragment, Declares declarations type queries idFragment →
      ∀ s ∈ idFragment.selections, s.Obeys rule ∧ s.HasFields rule)
    (hinterfaces : ∀ t ∈ schema.types, ∀ name ∈ t.interfaces, ∀ interface,
      schema.type? name = some interface → schema.possibleTypes interface = [] → rule.empty) :
    references.Obey rule := by
  obtain ⟨entries, hentries, h⟩ := bind_eq_ok.mp h
  cases h
  -- what the references of node types are made of
  have htype {f : Fragment} {t : NamedType} (hf : (t, f) ∈ entries) :
      (∀ s ∈ f.selections, s.Obeys rule ∧ s.HasFields rule)
        ∧ ∃ s ∈ f.selections, s.isField = true := by
    obtain ⟨offset, d, queries, idFragment, hd, hread, -, rfl⟩ :=
      exists_of_mem_typeReferences hentries hf
    rw [Nat.zero_add] at hread
    refine ⟨fun s hs => ?_, _, List.mem_cons_self, rfl⟩
    rcases mem_reference hs with rfl | hs
    · exact ⟨Selection.obeys_plain _, fun set hset => by cases hset⟩
    · exact hid d.type queries idFragment ⟨offset, d, hd, rfl, hread⟩ s hs
  have htypes {name : String} {f : Fragment}
      (hf : Keyed.get? (Keyed.ofPairs (entries.map fun p => (p.1.name, p.2))) name = some f) :
      ∃ t, (t, f) ∈ entries := by
    obtain ⟨⟨t, f'⟩, ht, heq⟩ := List.mem_map.mp (Keyed.mem_of_get?_ofPairs hf)
    cases heq
    exact ⟨t, ht⟩
  intro name f hf
  rcases Keyed.mem_of_get?_overlay hf with hf | hf
  · obtain ⟨name', hname', hf⟩ := List.mem_filterMap.mp hf
    obtain ⟨f', hf', heq⟩ := Option.map_eq_some_iff.mp hf
    cases heq
    obtain ⟨interface, fragments, hinterface, hlength, hreferences, hselections⟩ :=
      exists_of_interfaceReference? hf'
    have hmade : ∀ g ∈ fragments, ∃ t, (t, g) ∈ entries := by
      intro g hg
      obtain ⟨type, hget⟩ := hreferences g hg
      exact htypes hget
    rw [hselections]
    refine ⟨fun hnil => ?_, fun s hs => obeys_of_mem_mergeAll (by simp) (fun s hs => ?_) hs⟩
    · cases fragments with
      | nil =>
          obtain ⟨t, ht, himplements⟩ := List.mem_flatMap.mp (List.mem_eraseDups.mp hname')
          obtain ⟨⟨t', g⟩, hentry, rfl⟩ := List.mem_map.mp ht
          obtain ⟨offset, d, -, -, -, -, hobject, -⟩ := exists_of_mem_typeReferences hentries hentry
          have htypes' := List.mem_of_find?_eq_some (Option.filter_eq_some_iff.mp hobject).1
          exact hinterfaces t' htypes' name himplements interface hinterface
            (List.eq_nil_of_length_eq_zero hlength.symm)
      | cons g fragments =>
          obtain ⟨t, ht⟩ := hmade g List.mem_cons_self
          obtain ⟨-, s, hs, hfield⟩ := htype ht
          refine absurd hnil (mergeAll_ne_nil (.inr ⟨s, ?_, hfield⟩))
          exact List.mem_flatMap.mpr ⟨g, List.mem_cons_self, hs⟩
    · obtain ⟨g, hg, hs⟩ := List.mem_flatMap.mp hs
      obtain ⟨t, ht⟩ := hmade g hg
      exact ((htype ht).1 s hs).2
  · obtain ⟨t, ht⟩ := htypes hf
    obtain ⟨hall, s, hs, -⟩ := htype ht
    exact .of_ne_nil (List.ne_nil_of_mem hs) fun s hs => (hall s hs).1

end References

end RemoteNodes
