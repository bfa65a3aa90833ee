import Mathlib.Tactic
import RemoteNodes.Proofs.Fetch.Combine
/-!
Pages in which anything may be null that a schema lets be null. Adding such a page never fails, but
its items can be read only if none of its edges is null.

* `PageStrategy.allows`: the pages; `PageStrategy.Ready`: what is known between two pages.
* `PageStrategy.exists_addPage`: **such a page is always added**; `PageStrategy.exists_items_iff`:
  **its items can be read exactly if there is no null edge**, and each of them is an object or null.
* `Json.isObject_atPath_setAt`: an object stays one when something is written into it, or past it.
-/

namespace RemoteNodes

/-! ### Values -/

namespace Json

/-- Whether a value is a list of values that pass a test, or null. -/
def isListOf (test : Json → Bool) : Json → Bool
  | .null => true
  | .arr items => items.all test
  | _ => false

lemma exists_of_isListOf {test : Json → Bool} {v : Json} (h : v.isListOf test = true) :
    ∃ items, v.or (.arr []) = .arr items ∧ (∀ item ∈ items, test item = true) := by
  cases v with
  | null => exact ⟨[], rfl, List.forall_mem_nil _⟩
  | arr items => exact ⟨items, or_arr items, List.all_eq_true.mp h⟩
  | bool _ | int _ | real _ | str _ | obj _ => cases h

lemma exists_of_isObject {v : Json} (h : v.isObject = true) :
    ∃ fields, v.or (.obj []) = .obj fields ∧ ∀ key, v.field? key = Keyed.get? fields key := by
  cases v with
  | null => exact ⟨[], rfl, fun _ => rfl⟩
  | obj fields => exact ⟨fields, or_obj fields, fun _ => rfl⟩
  | bool _ | int _ | real _ | str _ | arr _ => cases h

/-- An object or null is one of both. -/
lemma isObject_iff {v : Json} : v.isObject = true ↔ v = .null ∨ ∃ fields, v = .obj fields := by
  cases v <;> simp [isObject]

lemma get?_setUnder_of_ne {fields : Keyed Json} {key key' : String} (hne : key ≠ key')
    (keys : List String) (new : Json) :
    Keyed.get? (setUnder fields key keys new) key' = Keyed.get? fields key' := by
  induction fields with
  | nil => simp [setUnder]
  | cons p fields ih =>
      obtain ⟨k, v⟩ := p
      by_cases hk : k = key
      · subst hk
        simp [setUnder, Keyed.get?, hne]
      · simp [setUnder, Keyed.get?, hk, ih]

lemma isObject_setAt {v : Json} (h : v.isObject = true) (path : List String) (new : Json) :
    (v.setAt path new).isObject = true := by
  cases v with
  | null => rfl
  | obj fields => rcases path with _ | ⟨key, _ | ⟨next, keys⟩⟩ <;> rfl
  | bool _ | int _ | real _ | str _ | arr _ => cases h

/-- An object stays one, and null stays null or becomes one, unless something is written in its
place or above it. -/
theorem isObject_atPath_setAt {path root : List String} (hpath : ¬ path <+: root) {v : Json}
    (h : (v.atPath root).isObject = true) (new : Json) :
    ((v.setAt path new).atPath root).isObject = true := by
  induction root generalizing path v with
  | nil => exact isObject_setAt h path new
  | cons key keys ih =>
      obtain ⟨first, rest, rfl⟩ : ∃ first rest, path = first :: rest :=
        List.exists_cons_of_ne_nil fun hnil => hpath (hnil ▸ List.nil_prefix)
      rw [atPath_cons, head_setAt]
      rw [atPath_cons] at h
      cases hv : v.head.fields? with
      | none => rwa [setAt_of_fields?_eq_none (head_ne_arr v) hv]
      | some fields =>
          rw [fields?_eq_some.mp hv] at h ⊢
          cases rest with
          | nil =>
              have hne : first ≠ key := fun heq => hpath (heq ▸ List.prefix_append [first] keys)
              rw [setAt, field?, Keyed.get?_put_of_ne _ _ hne.symm]
              exact h
          | cons next below =>
              rw [setAt, field?]
              · by_cases heq : first = key
                · subst heq
                  have hbelow : ¬ next :: below <+: keys := fun hbelow =>
                    hpath (List.cons_prefix_cons.mpr ⟨rfl, hbelow⟩)
                  rw [get?_setUnder]
                  rw [field?] at h
                  cases hget : Keyed.get? fields first with
                  | none => simpa [hget] using h
                  | some x =>
                      rw [hget] at h
                      exact ih hbelow h
                · rw [get?_setUnder_of_ne heq]
                  exact h
              · simp

end Json

namespace PageStrategy

variable {strategy : PageStrategy} {state state' : PageState} {page : Json}

/-! ### Pages -/

/-- Whether a value is an edge of a connection or null. The node of the edge may be null. -/
def isEdge (edge : Json) : Bool :=
  edge.isObject && ((edge.field? "node").getD .null).isObject

/-- Whether a value may be a page: null, a list of objects and nulls, or a connection. The page
information of a connection may be null, and so may its edges, each of them and each node. -/
def allows : PageStrategy → Json → Bool
  | limitOffset, page => page.isListOf Json.isObject
  | relayForward, page =>
    page.isObject && ((page.field? "edges").getD .null).isListOf isEdge
      && ((page.field? "pageInfo").getD .null).isObject

/-- Whether no edge of a page is null. -/
def hasEdges : PageStrategy → Json → Bool
  | limitOffset, _ => true
  | relayForward, page => ((page.field? "edges").getD .null).isObjects

/-- A connection that may be a page is read, with edges that may be null. -/
lemma exists_read (h : relayForward.allows page = true) :
    ∃ c, Connection.read page = .ok c
      ∧ ((page.field? "edges").getD .null).or (.arr []) = .arr c.edges
      ∧ (∀ edge ∈ c.edges, isEdge edge = true) ∧ ∃ fields, c.info = .obj fields := by
  rw [allows, Bool.and_eq_true, Bool.and_eq_true] at h
  obtain ⟨⟨hpage, hedges⟩, hinfo⟩ := h
  obtain ⟨fields, hfields, hget⟩ := Json.exists_of_isObject hpage
  obtain ⟨edges, hlist, hall⟩ := Json.exists_of_isListOf hedges
  obtain ⟨info, hobject, -⟩ := Json.exists_of_isObject hinfo
  have hread : Connection.read page = .ok ⟨edges, .obj info⟩ := by
    rw [← hobject, hget]
    have hsame : Connection.read page = Connection.read (.obj fields) := by
      rw [Connection.read, Connection.read, hfields, Json.or_obj]
    rw [hsame]
    exact Connection.read_obj (by rw [← hget, hlist])
  exact ⟨_, hread, hlist, hall, info, rfl⟩

/-! ### Adding pages -/

/-- What must be known between two pages for another one to be added: variables that are numbers,
and a result of the kind that pages are put to. -/
def Ready : PageStrategy → PageState → Prop
  | limitOffset, state => ∃ limit offset before,
    numberOr pageSize state.bindings "limit" = .ok limit
      ∧ numberOr 0 state.bindings "offset" = .ok offset ∧ state.result.elements = .ok before
  | relayForward, state => ∃ first edges before,
    numberOr pageSize state.bindings "first" = .ok first
      ∧ state.result.field? "edges" = some edges ∧ edges.elements = .ok before

lemma exists_numberOr (fallback n : Int) (name : String) (others : Keyed Json) :
    ∃ m, numberOr fallback ((name, .int n) :: others) name = .ok m := by
  rw [numberOr, Keyed.get?, if_pos rfl, Option.getD_some, Json.or]
  split
  · exact ⟨n, rfl⟩
  · exact ⟨fallback, rfl⟩

lemma ready_start (strategy : PageStrategy) : strategy.Ready strategy.start := by
  cases strategy with
  | limitOffset => exact ⟨_, _, _, rfl, rfl, rfl⟩
  | relayForward => exact ⟨_, _, _, rfl, rfl, rfl⟩

/-- After a page that was added another one can be added. -/
lemma ready_of_addPage (h : strategy.addPage state page = .ok state') : strategy.Ready state' := by
  cases strategy with
  | limitOffset =>
      obtain ⟨limit, offset, before, items, -, -, -, -, rfl⟩ := addPage_limitOffset.mp h
      obtain ⟨limit', hlimit⟩ :=
        exists_numberOr pageSize limit "limit" [("offset", .int (offset + limit))]
      obtain ⟨offset', hoffset⟩ := exists_numberOr 0 (offset + limit) "offset" []
      exact ⟨limit', offset', before ++ items, hlimit, hoffset, rfl⟩
  | relayForward =>
      obtain ⟨c, edges, before, first, after, more, -, -, -, -, -, -, rfl⟩ :=
        addPage_relayForward.mp h
      obtain ⟨first', hfirst⟩ := exists_numberOr pageSize first "first" [("after", after)]
      exact ⟨first', _, before ++ c.edges, hfirst, rfl, rfl⟩

/-- A page that may hold nulls is added. -/
theorem exists_addPage (hready : strategy.Ready state) (h : strategy.allows page = true) :
    ∃ state', strategy.addPage state page = .ok state' := by
  cases strategy with
  | limitOffset =>
      obtain ⟨limit, offset, before, hlimit, hoffset, hbefore⟩ := hready
      obtain ⟨items, hitems, -⟩ := Json.exists_of_isListOf h
      exact ⟨_, addPage_limitOffset.mpr ⟨limit, offset, before, items, hlimit, hoffset, hbefore,
        by rw [hitems]; rfl, rfl⟩⟩
  | relayForward =>
      obtain ⟨first, edges, before, hfirst, hedges, hbefore⟩ := hready
      obtain ⟨c, hread, -, hall, info, hinfo⟩ := exists_read h
      -- the cursor is read from the last edge, which counts as absent if it is null
      obtain ⟨after, hafter⟩ : ∃ after, c.cursor = .ok after := by
        rw [Connection.cursor]
        split
        · rename_i htruthy
          have hlast : isEdge c.last = true := by
            rw [Connection.last] at htruthy ⊢
            cases hget : c.edges.getLast? with
            | none => simp [hget, Json.isTruthy] at htruthy
            | some edge => exact hall edge (List.mem_of_getLast? hget)
          rw [isEdge, Bool.and_eq_true] at hlast
          rcases Json.isObject_iff.mp hlast.1 with hnull | ⟨fields, hobj⟩
          · rw [hnull] at htruthy
            cases htruthy
          · exact ⟨_, Json.key_eq_ok.mpr ⟨fields, hobj, rfl⟩⟩
        · exact ⟨_, rfl⟩
      exact ⟨_, addPage_relayForward.mpr ⟨c, edges, before, first, after, _, hread, hedges, hbefore,
        hfirst, hafter, Json.key_eq_ok.mpr ⟨info, hinfo, rfl⟩, rfl⟩⟩

/-! ### Items -/

/-- The items of a page that may hold nulls can be read exactly if none of its edges is null; then
each item is an object or null. -/
theorem exists_items_iff (h : strategy.allows page = true) :
    strategy.hasEdges page = true
      ↔ ∃ items, strategy.items page = .ok items ∧ ∀ item ∈ items, item.isObject = true := by
  cases strategy with
  | limitOffset =>
      obtain ⟨items, hitems, hall⟩ := Json.exists_of_isListOf h
      refine iff_of_true rfl ⟨items, items_eq_ok_limitOffset.mpr ?_, hall⟩
      rw [hitems]
      rfl
  | relayForward =>
      obtain ⟨c, hread, hedges, hall, -⟩ := exists_read h
      rw [hasEdges]
      constructor
      · intro hobjects
        obtain ⟨edges, hedges', hobj⟩ := Json.exists_of_isObjects hobjects
        obtain rfl : edges = c.edges := Json.arr.inj (hedges'.symm.trans hedges)
        refine ⟨_, items_eq_ok_relayForward.mpr ⟨c, hread, Json.mapM_key hobj "node"⟩, ?_⟩
        intro item hitem
        obtain ⟨edge, hedge, rfl⟩ := List.mem_map.mp hitem
        exact (Bool.and_eq_true_iff.mp (hall edge hedge)).2
      · rintro ⟨items, hitems, -⟩
        obtain ⟨c', hread', hkeys⟩ := items_eq_ok_relayForward.mp hitems
        cases hread.symm.trans hread'
        have hobj : ∀ edge ∈ c.edges, (!edge.isNull && edge.isObject) = true := by
          intro edge hedge
          obtain ⟨node, -, hkey⟩ := (mem_of_mapM hkeys).1 edge hedge
          obtain ⟨fields, rfl, -⟩ := Json.key_eq_ok.mp hkey
          rfl
        rw [allows, Bool.and_eq_true, Bool.and_eq_true] at h
        cases hvalue : (page.field? "edges").getD .null with
        | null => rfl
        | arr edges =>
            rw [hvalue, Json.or_arr] at hedges
            obtain rfl : edges = c.edges := Json.arr.inj hedges
            exact List.all_eq_true.mpr hobj
        | bool _ | int _ | real _ | str _ | obj _ =>
            rw [hvalue] at h
            cases h.1.2

end PageStrategy

end RemoteNodes
