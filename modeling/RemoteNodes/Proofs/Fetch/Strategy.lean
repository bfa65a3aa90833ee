import Mathlib.Tactic
import RemoteNodes.Fetch.Strategy
import RemoteNodes.Proofs.Fetch.Session
/-!
One step of each strategy: what a page does to the state between two pages.

* `PageStrategy.addPage_limitOffset`, `PageStrategy.addPage_relayForward`: all that a page does.
* `PageStrategy.items_addPage`: the items of the new result are the old ones and those of the page.
* `PageStrategy.Sized`: every page is asked for with the same size.
* `PageStrategy.items_ne_nil`: a page after which a walk goes on has items.
* `PageStrategy.fits`: the shape of a page, which makes its items readable.
-/

namespace RemoteNodes

/-- The cursor that the page after a connection is asked for with: that of the last edge, null if
the last edge does not count as present. -/
def Connection.cursor (c : Connection) : Except Fault Json :=
  if c.last.isTruthy then c.last.key "cursor" else pure .null

lemma Json.or_eq_self {v fallback : Json} (h : v.isTruthy = true) : v.or fallback = v :=
  if_pos h

lemma Json.or_obj (fields : Keyed Json) : (Json.obj fields).or (.obj []) = .obj fields := by
  cases fields <;> rfl

lemma Json.or_arr (items : List Json) : (Json.arr items).or (.arr []) = .arr items := by
  cases items <;> rfl

/-- A key of objects, one after another. -/
lemma Json.mapM_key {values : List Json} (h : ∀ v ∈ values, ∃ fields, v = .obj fields)
    (name : String) :
    values.mapM (fun v => v.key name) = .ok (values.map fun v => (v.field? name).getD .null) := by
  induction values with
  | nil => rfl
  | cons v values ih =>
      obtain ⟨fields, rfl⟩ := h v (by simp)
      have hrest := ih fun v' hv' => h v' (by simp [hv'])
      rw [List.mapM_cons, hrest]
      rfl

/-- Putting an empty list for what does not count as present changes no items. -/
lemma Json.elements_or {v : Json} {items : List Json} (h : v.elements = .ok items) :
    (v.or (.arr [])).elements = .ok items := by
  cases htruthy : v.isTruthy with
  | true => rwa [Json.or_eq_self htruthy]
  | false =>
      rw [Json.or, if_neg (by simp [htruthy]), ← h]
      cases v with
      | str text =>
          obtain rfl : text = "" := by simpa [isTruthy] using htruthy
          rfl
      | arr items =>
          obtain rfl : items = [] := by simpa [isTruthy] using htruthy
          rfl
      | obj fields =>
          obtain rfl : fields = [] := by simpa [isTruthy] using htruthy
          rfl
      | null | bool _ | int _ | real _ => cases h

/-- Whether a value is an object or null. -/
def Json.isObject : Json → Bool
  | .null | .obj _ => true
  | _ => false

/-- Whether a value is a list of objects or null. -/
def Json.isObjects : Json → Bool
  | .null => true
  | .arr items => items.all fun item => !item.isNull && item.isObject
  | _ => false

lemma Json.exists_of_isObjects {v : Json} (h : v.isObjects = true) :
    ∃ items, v.or (.arr []) = .arr items ∧ ∀ item ∈ items, ∃ fields, item = .obj fields := by
  cases v with
  | null => exact ⟨[], rfl, by simp⟩
  | arr items =>
      refine ⟨items, Json.or_arr items, fun item hitem => ?_⟩
      have hobj := List.all_eq_true.mp h item hitem
      cases item with
      | obj fields => exact ⟨fields, rfl⟩
      | null | bool _ | int _ | real _ | str _ | arr _ => cases hobj
  | bool _ | int _ | real _ | str _ | obj _ => cases h

namespace Connection

/-- A connection is read from two keys of an object: an object in the place of the edges is
refused. -/
lemma read_eq_ok {page : Json} {c : Connection} :
    read page = .ok c ↔
      ∃ edges info, (page.or (.obj [])).key "edges" = .ok edges
        ∧ (∀ fields, edges.or (.arr []) ≠ .obj fields)
        ∧ (edges.or (.arr [])).elements = .ok c.edges
        ∧ (page.or (.obj [])).key "pageInfo" = .ok info ∧ c.info = info.or (.obj []) := by
  constructor
  · intro h
    obtain ⟨edges, hkey, h⟩ := bind_eq_ok.mp h
    split at h
    · cases h
    · rename_i hobj
      obtain ⟨items, hitems, h⟩ := bind_eq_ok.mp h
      obtain ⟨info, hinfo, h⟩ := bind_eq_ok.mp h
      cases h
      exact ⟨edges, info, hkey, hobj, hitems, hinfo, rfl⟩
  · rintro ⟨edges, info, hkey, hobj, helements, hinfo, hc⟩
    refine bind_eq_ok.mpr ⟨edges, hkey, ?_⟩
    split
    · exact absurd ‹_› (hobj _)
    · refine bind_eq_ok.mpr ⟨c.edges, helements, bind_eq_ok.mpr ⟨info, hinfo, ?_⟩⟩
      rw [← hc]
      rfl

/-- The edges that are read are those that stand under their key. -/
lemma edges_of_read {v edges : Json} {c : Connection} {items : List Json}
    (h : read v = .ok c) (hedges : v.field? "edges" = some edges)
    (hitems : edges.elements = .ok items) : c.edges = items := by
  obtain ⟨edges', info, hkey, -, helements, -, -⟩ := read_eq_ok.mp h
  cases v with
  | obj fields =>
      rw [Json.or_obj] at hkey
      obtain ⟨_, hfields, rfl⟩ := Json.key_eq_ok.mp hkey
      cases hfields
      rw [Json.field?] at hedges
      rw [hedges, Option.getD_some, Json.elements_or hitems] at helements
      cases helements
      rfl
  | null | bool _ | int _ | real _ | str _ | arr _ => cases hedges

/-- Reading an object whose edges are a list, or count as an empty one. -/
lemma read_obj {fields : Keyed Json} {edges : List Json}
    (hedges : ((Keyed.get? fields "edges").getD .null).or (.arr []) = .arr edges) :
    read (.obj fields)
      = .ok ⟨edges, ((Keyed.get? fields "pageInfo").getD .null).or (.obj [])⟩ := by
  have hkey (name : String) : ((Json.obj fields).or (.obj [])).key name
      = .ok ((Keyed.get? fields name).getD .null) := by
    rw [Json.or_obj, Json.key_eq_ok]
    exact ⟨fields, rfl, rfl⟩
  refine read_eq_ok.mpr ⟨_, _, hkey "edges", ?_, ?_, hkey "pageInfo", rfl⟩
  · simp [hedges]
  · rw [hedges]
    rfl

end Connection

namespace PageStrategy

variable {state state' : PageState} {page : Json}

/-! ### One page -/

/-- A page by limit and offset, in full. -/
lemma addPage_limitOffset :
    limitOffset.addPage state page = .ok state' ↔
      ∃ limit offset before items,
        numberOr pageSize state.bindings "limit" = .ok limit
        ∧ numberOr 0 state.bindings "offset" = .ok offset
        ∧ state.result.elements = .ok before ∧ (page.or (.arr [])).elements = .ok items
        ∧ state' = ⟨[("limit", .int limit), ("offset", .int (offset + limit))],
            .arr (before ++ items), items.length == limit⟩ := by
  simp only [addPage, joined, bind_eq_ok]
  constructor
  · rintro ⟨result, ⟨limit, hlimit, before, hbefore, items, hitems, hresult⟩, limit', hlimit',
      offset, hoffset, items', hitems', hstate⟩
    cases hlimit.symm.trans hlimit'
    cases hitems.symm.trans hitems'
    cases hresult
    cases hstate
    exact ⟨limit, offset, before, items, hlimit, hoffset, hbefore, hitems, rfl⟩
  · rintro ⟨limit, offset, before, items, hlimit, hoffset, hbefore, hitems, rfl⟩
    exact ⟨_, ⟨limit, hlimit, before, hbefore, items, hitems, rfl⟩, limit, hlimit, offset, hoffset,
      items, hitems, rfl⟩

/-- A page of a connection as a chain of steps. -/
lemma addPage_relayForward_eq :
    relayForward.addPage state page = (do
      let result ← relayForward.joined state page
      let c ← Connection.read page
      let first ← numberOr pageSize state.bindings "first"
      let after ← c.cursor
      let more ← c.info.key "hasNextPage"
      return ⟨[("first", .int first), ("after", after)], result,
        more.isTruthy && c.last.isTruthy⟩) := by
  rw [addPage]
  refine congrArg _ (funext fun result => congrArg _ (funext fun c => congrArg _ (funext
    fun first => ?_)))
  rw [Connection.cursor]
  split <;> rfl

/-- A page of a connection, in full. -/
lemma addPage_relayForward :
    relayForward.addPage state page = .ok state' ↔
      ∃ c edges before first after more,
        Connection.read page = .ok c ∧ state.result.field? "edges" = some edges
        ∧ edges.elements = .ok before ∧ numberOr pageSize state.bindings "first" = .ok first
        ∧ c.cursor = .ok after ∧ c.info.key "hasNextPage" = .ok more
        ∧ state' = ⟨[("first", .int first), ("after", after)],
            .obj [("pageInfo", c.info), ("edges", .arr (before ++ c.edges))],
            more.isTruthy && c.last.isTruthy⟩ := by
  rw [addPage_relayForward_eq]
  simp only [joined, bind_eq_ok]
  constructor
  · rintro ⟨result, ⟨c, hc, hresult⟩, c', hc', first, hfirst, after, hafter, more, hmore, hstate⟩
    cases hc.symm.trans hc'
    cases hedges : state.result.field? "edges" with
    | none =>
        rw [hedges] at hresult
        cases hresult
    | some edges =>
        simp only [hedges, bind_eq_ok] at hresult
        obtain ⟨before, hbefore, hresult⟩ := hresult
        cases hresult
        cases hstate
        exact ⟨c, edges, before, first, after, more, hc, rfl, hbefore, hfirst, hafter, hmore, rfl⟩
  · rintro ⟨c, edges, before, first, after, more, hc, hedges, hbefore, hfirst, hafter, hmore, rfl⟩
    refine ⟨_, ⟨c, hc, ?_⟩, c, hc, first, hfirst, after, hafter, more, hmore, rfl⟩
    simp only [hedges, bind_eq_ok]
    exact ⟨before, hbefore, rfl⟩

/-- The result after a page is a list or a connection. -/
lemma result_ne_null {strategy : PageStrategy} (h : strategy.addPage state page = .ok state') :
    state'.result ≠ .null := by
  cases strategy with
  | limitOffset =>
      obtain ⟨limit, offset, before, items, -, -, -, -, rfl⟩ := addPage_limitOffset.mp h
      simp
  | relayForward =>
      obtain ⟨c, edges, before, first, after, more, -, -, -, -, -, -, rfl⟩ :=
        addPage_relayForward.mp h
      simp

lemma hasNext_start (strategy : PageStrategy) : strategy.start.hasNext = true := by
  cases strategy <;> rfl

/-! ### Items -/

lemma items_eq_ok_limitOffset {ys : List Json} :
    limitOffset.items page = .ok ys ↔ (page.or (.arr [])).elements = .ok ys := Iff.rfl

lemma items_eq_ok_relayForward {ys : List Json} :
    relayForward.items page = .ok ys ↔
      ∃ c, Connection.read page = .ok c ∧ c.edges.mapM (fun edge => edge.key "node") = .ok ys :=
  bind_eq_ok

/-- The items of the new result are the old ones followed by those of the page. -/
theorem items_addPage {strategy : PageStrategy} {xs ys : List Json}
    (h : strategy.addPage state page = .ok state')
    (hxs : strategy.items state.result = .ok xs) (hys : strategy.items page = .ok ys) :
    strategy.items state'.result = .ok (xs ++ ys) := by
  cases strategy with
  | limitOffset =>
      obtain ⟨limit, offset, before, items, -, -, hbefore, hitems, rfl⟩ := addPage_limitOffset.mp h
      rw [items_eq_ok_limitOffset] at hxs hys ⊢
      rw [Json.elements_or hbefore] at hxs
      cases hxs
      cases hys.symm.trans hitems
      exact Json.elements_or rfl
  | relayForward =>
      obtain ⟨c, edges, before, first, after, more, hc, hedges, hbefore, -, -, -, rfl⟩ :=
        addPage_relayForward.mp h
      rw [items_eq_ok_relayForward] at hxs hys ⊢
      obtain ⟨c₀, hc₀, hxs⟩ := hxs
      obtain ⟨c', hc', hys⟩ := hys
      cases hc.symm.trans hc'
      have hsame : c₀.edges = before := Connection.edges_of_read hc₀ hedges hbefore
      rw [hsame] at hxs
      refine ⟨_, Connection.read_obj (Json.or_arr _), ?_⟩
      rw [List.mapM_append, hxs, hys]
      rfl

/-! ### The size of pages -/

/-- The variable that holds the size of a page. -/
def sizeName : PageStrategy → String
  | limitOffset => "limit"
  | relayForward => "first"

/-- The next page is asked for with the standard size. -/
def Sized (strategy : PageStrategy) (state : PageState) : Prop :=
  numberOr pageSize state.bindings strategy.sizeName = .ok pageSize

lemma sized_start (strategy : PageStrategy) : strategy.Sized strategy.start := by
  cases strategy <;> rfl

/-- Pages leave the size alone. -/
lemma Sized.addPage {strategy : PageStrategy} (hsize : strategy.Sized state)
    (h : strategy.addPage state page = .ok state') : strategy.Sized state' := by
  cases strategy with
  | limitOffset =>
      obtain ⟨limit, offset, before, items, hlimit, -, -, -, rfl⟩ := addPage_limitOffset.mp h
      cases hlimit.symm.trans hsize
      rfl
  | relayForward =>
      obtain ⟨c, edges, before, first, after, more, -, -, -, hfirst, -, -, rfl⟩ :=
        addPage_relayForward.mp h
      cases hfirst.symm.trans hsize
      rfl

/-- A page after which a walk goes on has items. -/
lemma items_ne_nil {strategy : PageStrategy} {ys : List Json} (hsize : strategy.Sized state)
    (h : strategy.addPage state page = .ok state') (hnext : state'.hasNext = true)
    (hys : strategy.items page = .ok ys) : ys ≠ [] := by
  cases strategy with
  | limitOffset =>
      obtain ⟨limit, offset, before, items, hlimit, -, -, hitems, rfl⟩ :=
        addPage_limitOffset.mp h
      cases hlimit.symm.trans hsize
      cases hitems.symm.trans hys
      rintro rfl
      simp [pageSize] at hnext
  | relayForward =>
      obtain ⟨c, edges, before, first, after, more, hc, -, -, -, -, -, rfl⟩ :=
        addPage_relayForward.mp h
      obtain ⟨c', hc', hys⟩ := items_eq_ok_relayForward.mp hys
      cases hc.symm.trans hc'
      rintro rfl
      have hlast : c.edges = [] := by
        cases hedges : c.edges with
        | nil => rfl
        | cons edge rest =>
            rw [hedges, List.mapM_cons, bind_eq_ok] at hys
            obtain ⟨node, -, hys⟩ := hys
            rw [bind_eq_ok] at hys
            obtain ⟨nodes, -, hys⟩ := hys
            cases hys
      simp [Connection.last, hlast, Json.isTruthy] at hnext

/-! ### The shape of pages -/

/-- Whether a value has the shape that a strategy expects of a page, or is null: a list, or a
connection whose edges are objects. -/
def fits : PageStrategy → Json → Bool
  | _, .null => true
  | limitOffset, .arr _ => true
  | relayForward, .obj fields =>
      ((Keyed.get? fields "edges").getD .null).isObjects
        && ((Keyed.get? fields "pageInfo").getD .null).isObject
  | _, _ => false

/-- The items of a page of the right shape can be read. -/
lemma exists_items {strategy : PageStrategy} (h : strategy.fits page = true) :
    ∃ ys, strategy.items page = .ok ys := by
  cases strategy with
  | limitOffset =>
      cases page with
      | null => exact ⟨[], rfl⟩
      | arr items => exact ⟨items, Json.elements_or rfl⟩
      | bool _ | int _ | real _ | str _ | obj _ => cases h
  | relayForward =>
      cases page with
      | null => exact ⟨[], rfl⟩
      | obj fields =>
          rw [fits, Bool.and_eq_true] at h
          obtain ⟨edges, hedges, hobjects⟩ := Json.exists_of_isObjects h.1
          exact ⟨_, items_eq_ok_relayForward.mpr ⟨_, Connection.read_obj hedges,
            Json.mapM_key hobjects "node"⟩⟩
      | bool _ | int _ | real _ | str _ | arr _ => cases h

end PageStrategy

end RemoteNodes
