/-
# Looking up a session of another node

A session of the own node is looked up by its key. A session of another node is asked for with a list: of what
passes the search for the id, that node sends the newest, and this is the answer if it has the id
(`getSession`).

The two lookups agree when the session passes the search for its own id and no newer session does, and only then
(`lookup_agrees_iff`). A node's list also lays the summary of a live session's runtime over its row; that changes what
is told of a session and not which one is found (`lookup_agrees_live`).

Key theorem: `head_insertionSort_iff`.
-/
import OpenRelay.Store.Search
import Mathlib.Data.Char
import Mathlib.Data.List.Lex
import Mathlib.Data.List.Sort
import Mathlib.Data.Prod.Lex

namespace OpenRelay
namespace Http
namespace SessionLookup

open Sql (Text)
open Store.Search (Session passes)

/-! ### The code -/

/-- The table of sessions, with the id as its key. -/
structure Database where
  rows : List Session
  unique : (rows.map Session.id).Nodup

/-- The rows are ordered by `created_at DESC, id DESC`. -/
def sortKey (s : Session) : Text ×ₗ Text := toLex (s.createdAt, s.id)

/-- The order of a list: the newest first, and by the id where two are of one time. -/
def NewerFirst (a b : Session) : Prop := sortKey b ≤ sortKey a

instance : DecidableRel NewerFirst := fun a b => inferInstanceAs (Decidable (sortKey b ≤ sortKey a))

/-- A query for the newest sessions. -/
structure ListQuery where
  search : Option Text
  limit : ℕ
  offset : ℕ

/-- A row passes the query's search, if there is one. -/
def pushListFilters (toJson : List Text → Text) (query : ListQuery) (s : Session) : Bool :=
  query.search.all (passes toJson s)

/-- How many rows pass, without the query's limit. -/
def countSummaries (toJson : List Text → Text) (db : Database) (query : ListQuery) : ℕ :=
  db.rows.countP (pushListFilters toJson query)

/-- The rows that pass, the newest first, from the offset on and up to the limit, which is at least one. -/
def listSummaries (toJson : List Text → Text) (db : Database) (query : ListQuery) : List Session :=
  (((db.rows.filter (pushListFilters toJson query)).insertionSort NewerFirst).drop query.offset).take (max query.limit 1)

/-- What a node answers. -/
inductive RpcResponse where
  | list (total : ℕ) (sessions : List Session)
  | error (message : Text)
  | other

/-- A list request, answered from the table alone; `handleListLive` has the runtimes as well. -/
def handleList (toJson : List Text → Text) (db : Database) (query : ListQuery) : RpcResponse :=
  .list (countSummaries toJson db query) (listSummaries toJson db query)

/-- What a client is told. -/
inductive Response where
  | session (s : Session) (node : Option Text)
  | notFound (id : Text)
  | badGateway (message : Text)
  | unexpected
  deriving DecidableEq, Repr

/-- A session that was found, or that it was not. -/
def respond (id : Text) (node : Option Text) : Option Session → Response
  | some s => .session s node
  | none => .notFound id

/-- The handler, with the own node's table and what the other nodes reply to a list request. -/
def getSession (proxyRpc : Text → ListQuery → Except Text RpcResponse) (db : Database) (id : Text) : Option Text → Response
  | some node =>
    match proxyRpc node { search := some id, limit := 1, offset := 0 } with
    | .ok (.list _ sessions) => respond id (some node) (sessions.find? fun s => s.id = id)
    | .ok (.error message) => .badGateway message
    | .error message => .badGateway message
    | .ok .other => .unexpected
  | none => respond id none (db.rows.find? fun s => s.id = id)

/-- Every node is connected and handles the request. -/
def connected (toJson : List Text → Text) (nodes : Text → Database) (node : Text) (query : ListQuery) : Except Text RpcResponse :=
  .ok (handleList toJson (nodes node) query)

/-- What the runtimes of a node say of its live sessions, by their ids. -/
structure Runtimes where
  summary : Text → Option Session
  own : ∀ {id : Text} {s : Session}, summary id = some s → s.id = id

/-- A live session's summary is its runtime's, whatever its row says. -/
def Runtimes.overlay (live : Runtimes) (s : Session) : Session := (live.summary s.id).getD s

/-- The list of a node whose sessions may be live. -/
def handleListLive (toJson : List Text → Text) (live : Runtimes) (db : Database) (query : ListQuery) : RpcResponse :=
  .list (countSummaries toJson db query) ((listSummaries toJson db query).map live.overlay)

/-- Every node is connected, has its runtimes, and handles the request. -/
def connectedLive (toJson : List Text → Text) (live : Text → Runtimes) (nodes : Text → Database) (node : Text)
    (query : ListQuery) : Except Text RpcResponse :=
  .ok (handleListLive toJson (live node) (nodes node) query)

/-- A session is told of as its runtime tells. -/
def Response.overlay (live : Runtimes) : Response → Response
  | .session s node => .session (live.overlay s) node
  | response => response

def Response.throughNode (node : Text) : Response → Response
  | .session s _ => .session s (some node)
  | response => response

/-- The session with the id passes the search for it, ahead of the others that do. -/
def Foremost (toJson : List Text → Text) (db : Database) (id : Text) : Prop :=
  ∀ s ∈ db.rows, s.id = id → passes toJson s id = true ∧ ∀ other ∈ db.rows, passes toJson other id = true → NewerFirst s other

/-! ### Sorted rows -/

section Sorted

variable {α : Type*} {r : α → α → Prop} [DecidableRel r] [Std.Total r] [IsTrans α r] {l : List α} {a : α}

/-- The first one of the sorted list comes before all the others. -/
theorem head_insertionSort_iff (hanti : ∀ a ∈ l, ∀ b ∈ l, r a b → r b a → a = b) :
    (l.insertionSort r).head? = some a ↔ a ∈ l ∧ ∀ b ∈ l, r a b := by
  have hsorted := l.pairwise_insertionSort r
  have hmem : ∀ b, b ∈ l.insertionSort r ↔ b ∈ l := fun b => List.mem_insertionSort r
  constructor
  · intro hhead
    obtain ⟨rest, hrest⟩ := List.head?_eq_some_iff.mp hhead
    rw [hrest] at hsorted
    refine ⟨(hmem a).mp (List.mem_of_mem_head? hhead), fun b hb => ?_⟩
    have hb := (hmem b).mpr hb
    rw [hrest] at hb
    obtain rfl | hb := List.mem_cons.mp hb
    · exact (Std.Total.total b b).elim id id
    · exact List.rel_of_pairwise_cons hsorted hb
  · rintro ⟨ha, hall⟩
    cases hsort : l.insertionSort r with
    | nil =>
      have ha := (hmem a).mpr ha
      rw [hsort] at ha
      cases ha
    | cons b rest =>
      have hb : b ∈ l := (hmem b).mp (by rw [hsort]; exact List.mem_cons_self)
      have ha := (hmem a).mpr ha
      rw [hsort] at hsorted ha
      obtain rfl | ha := List.mem_cons.mp ha
      · rfl
      · have hba := List.rel_of_pairwise_cons hsorted ha
        rw [hanti a ((hmem a).mp (by rw [hsort]; exact List.mem_cons_of_mem b ha)) b hb (hall b hb) hba]
        rfl

end Sorted

section Rows

variable {toJson : List Text → Text} {db : Database} {id : Text} {s : Session}

instance : Std.Total NewerFirst := ⟨fun a b => le_total (sortKey b) (sortKey a)⟩

instance : IsTrans Session NewerFirst := ⟨fun _ _ _ hab hbc => le_trans hbc hab⟩

theorem Database.eq_of_id (db : Database) {a b : Session} (ha : a ∈ db.rows) (hb : b ∈ db.rows) (h : a.id = b.id) : a = b :=
  List.inj_on_of_nodup_map db.unique ha hb h

theorem NewerFirst.id_eq {a b : Session} (hab : NewerFirst a b) (hba : NewerFirst b a) : a.id = b.id :=
  congrArg (fun key => (ofLex key).2) (le_antisymm hba hab)

theorem lookup_iff : (db.rows.find? fun s => s.id = id) = some s ↔ s ∈ db.rows ∧ s.id = id := by
  constructor
  · intro h
    exact ⟨List.mem_of_find?_eq_some h, by simpa using List.find?_some h⟩
  · rintro ⟨hs, hid⟩
    cases hfind : db.rows.find? fun s => s.id = id with
    | none => exact absurd hid (by simpa using List.find?_eq_none.mp hfind s hs)
    | some other =>
      have hother : other.id = id := by simpa using List.find?_some hfind
      rw [db.eq_of_id (List.mem_of_find?_eq_some hfind) hs (hother.trans hid.symm)]

/-- What a node sends for an id is one session, the newest that passes. -/
theorem listSummaries_newest : listSummaries toJson db { search := some id, limit := 1, offset := 0 } =
    ((db.rows.filter fun s => passes toJson s id).insertionSort NewerFirst).head?.toList := by
  show List.take 1 (List.drop 0 _) = _
  rw [List.drop_zero]
  exact List.take_one

theorem newest_iff : ((db.rows.filter fun s => passes toJson s id).insertionSort NewerFirst).head? = some s ↔
    (s ∈ db.rows ∧ passes toJson s id = true) ∧ ∀ other ∈ db.rows, passes toJson other id = true → NewerFirst s other := by
  rw [head_insertionSort_iff fun a ha b hb hab hba =>
    db.eq_of_id (List.mem_of_mem_filter ha) (List.mem_of_mem_filter hb) (hab.id_eq hba)]
  simp only [List.mem_filter, and_imp]

end Rows

/-! ### Agreement -/

section Agreement

variable {toJson : List Text → Text} {nodes : Text → Database} {db : Database} {node id : Text}

theorem respond_inj {o o' : Option Session} {node : Option Text} (h : respond id node o = respond id node o') : o = o' := by
  cases o with
  | none =>
    cases o' with
    | none => rfl
    | some s => cases h
  | some s =>
    cases o' with
    | none => cases h
    | some s' =>
      cases h
      rfl

theorem throughNode_respond (o : Option Session) : (respond id none o).throughNode node = respond id (some node) o := by
  cases o <;> rfl

/-- Among the rows that pass, the first one has the id, if one does and comes before the others. -/
theorem newest_eq_lookup_iff : (((db.rows.filter fun s => passes toJson s id).insertionSort NewerFirst).head?.toList.find?
      fun s => s.id = id) = (db.rows.find? fun s => s.id = id) ↔ Foremost toJson db id := by
  set newest := ((db.rows.filter fun s => passes toJson s id).insertionSort NewerFirst).head? with hnewest
  have hfind : ∀ s, (newest.toList.find? fun s => s.id = id) = some s ↔ newest = some s ∧ s.id = id := by
    intro s
    cases newest with
    | none => simp
    | some first =>
      rw [Option.toList_some, List.find?_singleton]
      split_ifs with h
      · simp only [Option.some_inj]
        exact ⟨fun heq => ⟨heq, heq ▸ of_decide_eq_true h⟩, And.left⟩
      · refine iff_of_false nofun ?_
        rintro ⟨heq, hid⟩
        exact h (decide_eq_true (Option.some_inj.mp heq ▸ hid))
  constructor
  · intro heq s hs hid
    obtain ⟨hfirst, -⟩ := (hfind s).mp (heq.trans (lookup_iff.mpr ⟨hs, hid⟩))
    obtain ⟨⟨-, hpasses⟩, hahead⟩ := newest_iff.mp (hnewest.symm.trans hfirst)
    exact ⟨hpasses, hahead⟩
  · intro hforemost
    ext s
    rw [hfind, lookup_iff]
    constructor
    · rintro ⟨hfirst, hid⟩
      exact ⟨(newest_iff.mp (hnewest.symm.trans hfirst)).1.1, hid⟩
    · rintro ⟨hs, hid⟩
      obtain ⟨hpasses, hahead⟩ := hforemost s hs hid
      exact ⟨hnewest.trans (newest_iff.mpr ⟨⟨hs, hpasses⟩, hahead⟩), hid⟩

end Agreement

/-- **Asked for through its node, a session is found** as a lookup there finds it, if and only if it passes the search
for its id and no newer session does. -/
theorem lookup_agrees_iff (toJson : List Text → Text) (nodes : Text → Database) (db : Database) (node id : Text) :
    getSession (connected toJson nodes) db id (some node) =
        (getSession (connected toJson nodes) (nodes node) id none).throughNode node ↔
      Foremost toJson (nodes node) id := by
  have hproxied : getSession (connected toJson nodes) db id (some node) =
      respond id (some node) ((listSummaries toJson (nodes node) { search := some id, limit := 1, offset := 0 }).find?
        fun s => s.id = id) := rfl
  have hlocal : (getSession (connected toJson nodes) (nodes node) id none).throughNode node =
      respond id (some node) ((nodes node).rows.find? fun s => s.id = id) := throughNode_respond _
  rw [hproxied, hlocal, listSummaries_newest, ← newest_eq_lookup_iff]
  exact ⟨respond_inj, congrArg _⟩

/-- A newer session whose title has the id hides the older one that has it as its id. -/
theorem session_hidden :
    let older : Session :=
      { id := "a1".toList, title := none, tags := [], command := [], args := [], cwd := none, createdAt := "1".toList }
    let newer : Session := { older with id := "b2".toList, title := some "like a1".toList, createdAt := "2".toList }
    let node : Database := { rows := [older, newer], unique := by decide }
    getSession (connected JsonText.array fun _ => node) node "a1".toList (some "n".toList) = .notFound "a1".toList ∧
      getSession (connected JsonText.array fun _ => node) node "a1".toList none = .session older none := by
  decide

/-! ### Live sessions -/

section Live

variable {toJson : List Text → Text} {live : Runtimes} {db : Database} {id : Text}

theorem Runtimes.overlay_id (live : Runtimes) (s : Session) : (live.overlay s).id = s.id := by
  unfold overlay
  rcases h : live.summary s.id with _ | s'
  · rfl
  · exact live.own h

theorem respond_overlay (node : Option Text) (o : Option Session) :
    (respond id node o).overlay live = respond id node (o.map live.overlay) := by
  cases o <;> rfl

/-- The runtimes change what a session's summary says, and not which session is found. -/
theorem find?_overlay (sessions : List Session) : ((sessions.map live.overlay).find? fun s => s.id = id) =
    (sessions.find? fun s => s.id = id).map live.overlay := by
  rw [List.find?_map]
  congr 2
  funext s
  simp only [Function.comp_apply, live.overlay_id]

/-- Of a list from the table, what has the id is what the key has. -/
theorem find?_listSummaries {query : ListQuery} {s : Session}
    (h : ((listSummaries toJson db query).find? fun s => s.id = id) = some s) :
    (db.rows.find? fun s => s.id = id) = some s := by
  refine lookup_iff.mpr ⟨?_, by simpa using List.find?_some h⟩
  have hmem := List.mem_of_mem_drop (List.mem_of_mem_take (List.mem_of_find?_eq_some h))
  exact List.mem_of_mem_filter ((List.mem_insertionSort NewerFirst).mp hmem)

end Live

/-- **The runtimes do not matter for it.** Where the list comes with the summaries of the live sessions, it agrees with
the lookup, seen through the same runtimes, under the same condition. -/
theorem lookup_agrees_live (toJson : List Text → Text) (live : Text → Runtimes) (nodes : Text → Database) (db : Database)
    (node id : Text) :
    getSession (connectedLive toJson live nodes) db id (some node) =
        ((getSession (connected toJson nodes) (nodes node) id none).throughNode node).overlay (live node) ↔
      Foremost toJson (nodes node) id := by
  set found := (listSummaries toJson (nodes node) { search := some id, limit := 1, offset := 0 }).find? fun s => s.id = id
    with hfound
  have hproxied : getSession (connectedLive toJson live nodes) db id (some node) =
      respond id (some node) (found.map (live node).overlay) := by
    rw [hfound, ← find?_overlay]
    rfl
  have hlocal : ((getSession (connected toJson nodes) (nodes node) id none).throughNode node).overlay (live node) =
      respond id (some node) (((nodes node).rows.find? fun s => s.id = id).map (live node).overlay) := by
    rw [← respond_overlay]
    exact congrArg _ (throughNode_respond _)
  rw [hproxied, hlocal, ← newest_eq_lookup_iff, ← listSummaries_newest, ← hfound]
  refine ⟨fun h => ?_, fun h => by rw [h]⟩
  have hmap := respond_inj h
  rcases hcase : found with _ | s
  · rw [hcase] at hmap
    exact (Option.map_eq_none_iff.mp hmap.symm).symm
  · exact (find?_listSummaries (hfound.symm.trans hcase)).symm

end SessionLookup
end Http
end OpenRelay
