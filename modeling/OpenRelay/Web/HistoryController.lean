/-
# The pages of a history

The browser loads the history of a session page by page (`web/src/lib/history-controller.ts`). A page is
asked for at the number of chunks that are loaded, one at a time. A reset drops them, and counts a
generation on; what comes back for an older generation is put aside.

Requests are answered and fail in any order, and the server's history may grow meanwhile (`Browser.step`). A
page for the present generation that says it starts where it was asked for holds the server's chunks from
there on (`Serves`); any other may hold anything.

Key theorems: `paged_step`, `history_consistent`.
-/
import Mathlib.Tactic.SplitIfs
import OpenRelay.Lib.Runs
import OpenRelay.Lib.Slice

namespace OpenRelay
namespace Web
namespace History

open Streams

/-! ### The controller -/

/-- A chunk of a log. -/
abbrev Chunk := List UInt8

/-- A size, and the offset of the log from which it holds. -/
structure LogResizeRecord where
  offset : ℕ
  rows : ℕ
  cols : ℕ
  deriving DecidableEq, Repr

/-- A page as the server sends it. -/
structure HistoryPage where
  offset : ℕ
  chunks : List Chunk
  total : ℕ
  resizes : List LogResizeRecord
  deriving DecidableEq, Repr

/-- A page that does not begin where it was asked to. -/
structure HistoryAnchorError where
  requested : ℕ
  received : ℕ
  deriving DecidableEq, Repr

def HistoryAnchorError.message (e : HistoryAnchorError) : String :=
  "history page anchor mismatch: requested offset " ++ toString e.requested ++ ", server returned " ++ toString e.received

/-- What a call throws: a mismatch, or what the fetcher rejects with. -/
inductive HistoryError where
  | anchor (error : HistoryAnchorError)
  | fetch (cause : String)
  deriving DecidableEq, Repr

/-- What has been loaded of a log. -/
structure HistoryController where
  chunks : List Chunk
  resizes : List LogResizeRecord
  total : ℕ
  loadedCount : ℕ
  fetching : Bool
  generation : ℕ
  pageSize : ℕ
  deriving DecidableEq, Repr

/-- A call of the fetcher that has not come back, and the generation it was made in. -/
structure Request where
  generation : ℕ
  offset : ℕ
  limit : ℕ
  deriving DecidableEq, Repr

namespace HistoryController

/-- Nothing has been loaded. -/
def new (pageSize : ℕ) : HistoryController := ⟨[], [], 0, 0, false, 0, pageSize⟩

/-- A total of zero is not known yet. -/
def hasMore (c : HistoryController) : Bool := c.total == 0 || decide (c.loadedCount < c.total)

/-- Nothing is loaded any more, and what is under way will not count. -/
def reset (c : HistoryController) : HistoryController :=
  { c with generation := c.generation + 1, chunks := [], resizes := [], total := 0, loadedCount := 0, fetching := false }

/-- `fetchAnchored` up to its `await`. -/
def fetchAnchored (c : HistoryController) (offset : ℕ) : HistoryController × Request :=
  ({ c with fetching := true }, ⟨c.generation, offset, c.pageSize⟩)

/-- Begins anew with the first page. -/
def loadInitial (c : HistoryController) : HistoryController × Request := c.reset.fetchAnchored 0

/-- Without a fetch it returns zero at once. -/
def loadMore (c : HistoryController) : Option (HistoryController × Request) :=
  if c.fetching then none else if !c.hasMore then none else some (c.fetchAnchored c.loadedCount)

/-- The `finally` of `fetchAnchored`. -/
def settled (c : HistoryController) (generation : ℕ) : HistoryController :=
  if generation = c.generation then { c with fetching := false } else c

/-- The part between the check of the anchor and the `finally`. -/
def append (c : HistoryController) (page : HistoryPage) : HistoryController :=
  let c := { c with resizes := page.resizes }
  let c :=
    if page.chunks.length > 0 then
      { c with chunks := c.chunks ++ page.chunks, loadedCount := page.offset + page.chunks.length }
    else c
  { c with total := page.total }

/-- `fetchAnchored` from its `await` on: the controller, and what the call returns or throws. -/
def resume (c : HistoryController) (r : Request) : Except String HistoryPage → HistoryController × Except HistoryError ℕ
  | .error cause => (c.settled r.generation, .error (.fetch cause))
  | .ok page =>
    if r.generation ≠ c.generation then (c.settled r.generation, .ok 0)
    else if page.offset ≠ r.offset then (c.settled r.generation, .error (.anchor ⟨r.offset, page.offset⟩))
    else ((c.append page).settled r.generation, .ok page.chunks.length)

end HistoryController

/-! ### The calls and the answers -/

/-- The controller, its requests on the way, and the server's chunks in each generation. -/
structure Browser where
  controller : HistoryController
  requests : List Request
  servers : ℕ → List Chunk
  /-- What the calls have returned or thrown. -/
  results : List (Except HistoryError ℕ)

instance decidablePiece {α : Type*} [DecidableEq α] (s : List α) (a : ℕ) (d : List α) : Decidable (Piece s a d) :=
  decidable_of_iff (a + d.length ≤ s.length ∧ d <+: s.drop a) ⟨fun h => ⟨h.1, h.2⟩, fun h => ⟨h.bound, h.pre⟩⟩

/-- A page of the present generation that starts where the request says holds the server's chunks. -/
def Serves (m : Browser) (r : Request) (page : HistoryPage) : Prop :=
  r.generation = m.controller.generation → page.offset = r.offset → Piece (m.servers r.generation) page.offset page.chunks

instance (m : Browser) (r : Request) (page : HistoryPage) : Decidable (Serves m r page) :=
  inferInstanceAs (Decidable (_ → _ → _))

namespace Browser

/-- A controller that has been asked nothing. -/
def start (pageSize : ℕ) : Browser := ⟨.new pageSize, [], fun _ => [], []⟩

/-- What may happen next. -/
inductive Action where
  | loadInitial
  | loadMore
  | reset
  | answer (i : ℕ) (page : HistoryPage)
  | fail (i : ℕ) (cause : String)
  /-- The server's history in a generation grows. -/
  | grow (generation : ℕ) (chunks : List Chunk)

/-- The request comes back. -/
def settle (m : Browser) (i : ℕ) (r : Request) (outcome : Except String HistoryPage) : Browser :=
  { m with
    controller := (m.controller.resume r outcome).1
    requests := m.requests.eraseIdx i
    results := m.results ++ [(m.controller.resume r outcome).2] }

def step (m : Browser) : Action → Option Browser
  | .loadInitial =>
    some { m with controller := m.controller.loadInitial.1, requests := m.requests ++ [m.controller.loadInitial.2] }
  | .loadMore =>
    match m.controller.loadMore with
    | none => some { m with results := m.results ++ [.ok 0] }
    | some (controller, r) => some { m with controller := controller, requests := m.requests ++ [r] }
  | .reset => some { m with controller := m.controller.reset }
  | .answer i page =>
    match m.requests[i]? with
    | none => none
    | some r => if Serves m r page then some (m.settle i r (.ok page)) else none
  | .fail i cause => (m.requests[i]?).map fun r => m.settle i r (.error cause)
  | .grow generation chunks =>
    some { m with servers := fun g => if g = generation then m.servers g ++ chunks else m.servers g }

end Browser

/-! ### The present generation -/

/-- The requests of the present generation: none, or the one for what follows the chunks. -/
def Browser.present (m : Browser) : List Request := m.requests.filter fun r => r.generation = m.controller.generation

/-- The request that a fetching controller waits for. -/
def HistoryController.awaited (c : HistoryController) : List Request :=
  if c.fetching then [⟨c.generation, c.loadedCount, c.pageSize⟩] else []

/-- What holds of what has been loaded. -/
structure Paged (m : Browser) : Prop where
  loaded : Piece (m.servers m.controller.generation) 0 m.controller.chunks
  count : m.controller.loadedCount = m.controller.chunks.length
  present : m.present = m.controller.awaited
  older : ∀ r ∈ m.requests, r.generation ≤ m.controller.generation

/-! ### A request comes back -/

section Back

variable {α : Type*}

theorem eraseIdx_split {l : List α} {i : ℕ} {a : α} (h : l[i]? = some a) :
    ∃ pre post, l = pre ++ a :: post ∧ l.eraseIdx i = pre ++ post := by
  obtain ⟨hi, rfl⟩ := List.getElem?_eq_some_iff.mp h
  refine ⟨l.take i, l.drop (i + 1), ?_, List.eraseIdx_eq_take_drop_succ l i⟩
  rw [← List.drop_eq_getElem_cons hi, List.take_append_drop]

theorem filter_eraseIdx_of_neg {l : List α} {p : α → Bool} {i : ℕ} {a : α} (h : l[i]? = some a) (hp : p a = false) :
    (l.eraseIdx i).filter p = l.filter p := by
  obtain ⟨pre, post, hl, herase⟩ := eraseIdx_split h
  rw [herase, hl, List.filter_append, List.filter_append, List.filter_cons_of_neg (by rw [hp]; exact Bool.false_ne_true)]

/-- The one element that passes is taken out. -/
theorem filter_eraseIdx_of_pos {l : List α} {p : α → Bool} {i : ℕ} {a b : α} (h : l[i]? = some a) (hp : p a = true)
    (hone : l.filter p = [b]) : a = b ∧ (l.eraseIdx i).filter p = [] := by
  obtain ⟨pre, post, hl, herase⟩ := eraseIdx_split h
  rw [hl, List.filter_append, List.filter_cons_of_pos hp] at hone
  obtain ⟨hpre, ha, hpost⟩ : pre.filter p = [] ∧ a = b ∧ post.filter p = [] := by
    cases hfirst : pre.filter p with
    | nil =>
      rw [hfirst] at hone
      obtain ⟨ha, hpost⟩ := List.cons.inj hone
      exact ⟨rfl, ha, hpost⟩
    | cons c rest =>
      rw [hfirst] at hone
      cases rest <;> cases hone
  refine ⟨ha, ?_⟩
  rw [herase, List.filter_append, hpre, hpost]
  rfl

end Back

section Steps

variable {m t : Browser} {i : ℕ} {r : Request}

/-- The request of the present generation is the one the controller waits for. -/
theorem Paged.awaited (h : Paged m) (hr : m.requests[i]? = some r) (hgen : r.generation = m.controller.generation) :
    m.controller.fetching = true ∧ r = ⟨m.controller.generation, m.controller.loadedCount, m.controller.pageSize⟩ ∧
      (m.requests.eraseIdx i).filter (fun r => r.generation = m.controller.generation) = [] := by
  have hpresent := h.present
  unfold Browser.present HistoryController.awaited at hpresent
  have hpasses : decide (r.generation = m.controller.generation) = true := decide_eq_true hgen
  by_cases hfetching : m.controller.fetching = true
  · rw [if_pos hfetching] at hpresent
    obtain ⟨hone, hrest⟩ := filter_eraseIdx_of_pos hr hpasses hpresent
    exact ⟨hfetching, hone, hrest⟩
  · rw [if_neg hfetching] at hpresent
    have := List.filter_eq_nil_iff.mp hpresent r (List.mem_of_getElem? hr)
    exact absurd hpasses this

theorem resume_page (c : HistoryController) (r : Request) (page : HistoryPage) :
    c.resume r (.ok page) =
      if r.generation ≠ c.generation then (c.settled r.generation, .ok 0)
      else if page.offset ≠ r.offset then (c.settled r.generation, .error (.anchor ⟨r.offset, page.offset⟩))
      else ((c.append page).settled r.generation, .ok page.chunks.length) := rfl

theorem settled_current {c : HistoryController} {generation : ℕ} (hgen : generation = c.generation) :
    c.settled generation = { c with fetching := false } := if_pos hgen

/-- Nothing of an older generation reaches the controller. -/
theorem resume_stale {c : HistoryController} (hgen : r.generation ≠ c.generation) (outcome : Except String HistoryPage) :
    (c.resume r outcome).1 = c := by
  have hsettled : c.settled r.generation = c := if_neg hgen
  cases outcome with
  | error cause => exact hsettled
  | ok page =>
    rw [resume_page, if_pos hgen]
    exact hsettled

/-- A page that starts elsewhere is an error. -/
theorem resume_anchor {c : HistoryController} {page : HistoryPage} (hgen : r.generation = c.generation)
    (hoffset : page.offset ≠ r.offset) :
    c.resume r (.ok page) = ({ c with fetching := false }, .error (.anchor ⟨r.offset, page.offset⟩)) := by
  rw [resume_page, if_neg (not_not_intro hgen), if_pos hoffset, settled_current hgen]

theorem append_generation (c : HistoryController) (page : HistoryPage) : (c.append page).generation = c.generation := by
  unfold HistoryController.append
  split_ifs <;> rfl

/-- A page that starts at the end of the chunks. -/
theorem append_next {c : HistoryController} {page : HistoryPage} (hcount : c.loadedCount = c.chunks.length)
    (hoffset : page.offset = c.loadedCount) :
    (c.append page).chunks = c.chunks ++ page.chunks ∧ (c.append page).loadedCount = (c.chunks ++ page.chunks).length := by
  unfold HistoryController.append
  split_ifs with hchunks
  · refine ⟨rfl, ?_⟩
    show page.offset + page.chunks.length = _
    rw [List.length_append]
    omega
  · have hnil : page.chunks = [] := List.eq_nil_of_length_eq_zero (by omega)
    rw [hnil, List.append_nil]
    exact ⟨rfl, hcount⟩

/-- The request comes back and leaves the chunks: the controller only stops to wait. -/
theorem Paged.settle_same (h : Paged m) (hr : m.requests[i]? = some r) (hgen : r.generation = m.controller.generation)
    {outcome : Except String HistoryPage}
    (hsame : (m.controller.resume r outcome).1 = { m.controller with fetching := false }) : Paged (m.settle i r outcome) := by
  obtain ⟨-, -, hrest⟩ := h.awaited hr hgen
  unfold Browser.settle
  rw [hsame]
  exact ⟨h.loaded, h.count, hrest, fun q hq => h.older q (List.mem_of_mem_eraseIdx hq)⟩

theorem Paged.settle (h : Paged m) (hr : m.requests[i]? = some r) {outcome : Except String HistoryPage}
    (hserves : ∀ page, outcome = .ok page → Serves m r page) : Paged (m.settle i r outcome) := by
  by_cases hgen : r.generation = m.controller.generation
  swap
  · -- the controller is as it was, and so are the requests of its generation
    unfold Browser.settle
    rw [resume_stale hgen]
    refine ⟨h.loaded, h.count, ?_, fun q hq => h.older q (List.mem_of_mem_eraseIdx hq)⟩
    exact (filter_eraseIdx_of_neg hr (decide_eq_false hgen)).trans h.present
  cases outcome with
  | error cause => exact h.settle_same hr hgen (settled_current hgen)
  | ok page =>
    by_cases hoffset : page.offset = r.offset
    swap
    · exact h.settle_same hr hgen (by rw [resume_anchor hgen hoffset])
    obtain ⟨-, hone, hrest⟩ := h.awaited hr hgen
    have hnext : page.offset = m.controller.loadedCount := by rw [hoffset, hone]
    obtain ⟨hchunks, hloaded⟩ := append_next h.count hnext
    have hpiece : Piece (m.servers m.controller.generation) (0 + m.controller.chunks.length) page.chunks := by
      have := hserves page rfl hgen hoffset
      rw [hgen, hnext, h.count] at this
      rwa [Nat.zero_add]
    have hresume : (m.controller.resume r (.ok page)).1 = { m.controller.append page with fetching := false } := by
      rw [resume_page, if_neg (not_not_intro hgen), if_neg (not_not_intro hoffset)]
      exact settled_current (hgen.trans (append_generation _ page).symm)
    unfold Browser.settle
    rw [hresume]
    refine ⟨?_, ?_, ?_, fun q hq => ?_⟩
    · show Piece (m.servers (m.controller.append page).generation) 0 (m.controller.append page).chunks
      rw [append_generation, hchunks]
      exact h.loaded.append hpiece
    · show (m.controller.append page).loadedCount = (m.controller.append page).chunks.length
      rw [hchunks, hloaded]
    · show (m.requests.eraseIdx i).filter (fun r => r.generation = (m.controller.append page).generation) = []
      rw [append_generation]
      exact hrest
    · show q.generation ≤ (m.controller.append page).generation
      rw [append_generation]
      exact h.older q (List.mem_of_mem_eraseIdx hq)

theorem Paged.reset (h : Paged m) : Paged { m with controller := m.controller.reset } := by
  refine ⟨piece_nil (Nat.zero_le _), rfl, ?_, fun q hq => Nat.le_succ_of_le (h.older q hq)⟩
  refine List.filter_eq_nil_iff.mpr fun q hq => ?_
  have hold := h.older q hq
  show ¬decide (q.generation = m.controller.generation + 1) = true
  rw [decide_eq_true_eq]
  omega

/-- A controller that does not wait asks for what follows its chunks. -/
theorem Paged.ask (h : Paged m) (hidle : m.controller.fetching = false) :
    Paged { m with
      controller := (m.controller.fetchAnchored m.controller.loadedCount).1
      requests := m.requests ++ [(m.controller.fetchAnchored m.controller.loadedCount).2] } := by
  refine ⟨h.loaded, h.count, ?_, fun q hq => ?_⟩
  · have hnone : m.present = [] := by
      rw [h.present, HistoryController.awaited, hidle]
      rfl
    show (m.requests ++ [_]).filter (fun r : Request => r.generation = m.controller.generation) = [_]
    rw [List.filter_append, show m.requests.filter _ = [] from hnone, List.nil_append]
    exact List.filter_cons_of_pos (decide_eq_true rfl)
  · obtain hq | hq := List.mem_append.mp hq
    · exact h.older q hq
    · rw [List.mem_singleton] at hq
      subst hq
      exact Nat.le_refl _

/-- **A step** keeps the pages of the present generation. -/
theorem paged_step {action : Browser.Action} (h : Paged m) (hstep : m.step action = some t) : Paged t := by
  cases action with
  | loadInitial =>
    cases hstep
    exact h.reset.ask rfl
  | loadMore =>
    simp only [Browser.step, HistoryController.loadMore] at hstep
    by_cases hfetching : m.controller.fetching = true
    · rw [if_pos hfetching] at hstep
      cases hstep
      exact ⟨h.loaded, h.count, h.present, h.older⟩
    rw [if_neg hfetching] at hstep
    split_ifs at hstep with hmore
    · cases hstep
      exact ⟨h.loaded, h.count, h.present, h.older⟩
    · cases hstep
      exact h.ask (eq_false_of_ne_true hfetching)
  | reset =>
    cases hstep
    exact h.reset
  | answer i page =>
    simp only [Browser.step] at hstep
    split at hstep
    · cases hstep
    · rename_i r hr
      split_ifs at hstep with hserves
      cases hstep
      refine h.settle hr fun other hother => ?_
      cases hother
      exact hserves
  | fail i cause =>
    obtain ⟨r, hr, rfl⟩ := Option.map_eq_some_iff.mp hstep
    exact h.settle hr nofun
  | grow generation chunks =>
    cases hstep
    refine ⟨h.loaded.mono ?_, h.count, h.present, h.older⟩
    show _ <+: if _ then _ else _
    split_ifs
    · exact List.prefix_append _ _
    · exact List.prefix_rfl

end Steps

/-! ### Runs -/

/-- What the page of a session relies on. -/
structure Consistent (m : Browser) : Prop where
  chunks : m.controller.chunks = (m.servers m.controller.generation).take m.controller.loadedCount
  count : m.controller.loadedCount = m.controller.chunks.length
  single : m.present.length ≤ 1
  fetching : m.controller.fetching = true ↔ m.present ≠ []
  /-- An answer to an older generation leaves the controller as it is. -/
  olderAnswer : ∀ i r page, m.requests[i]? = some r → r.generation ≠ m.controller.generation →
    m.step (.answer i page) = some { m with requests := m.requests.eraseIdx i, results := m.results ++ [.ok 0] }
  olderFailure : ∀ i r cause, m.requests[i]? = some r → r.generation ≠ m.controller.generation →
    m.step (.fail i cause) =
      some { m with requests := m.requests.eraseIdx i, results := m.results ++ [.error (.fetch cause)] }
  /-- A page that does not continue the chunks is thrown, and only the flag of the fetch is taken back. -/
  anchor : ∀ i r page, m.requests[i]? = some r → r.generation = m.controller.generation →
    page.offset ≠ m.controller.loadedCount →
    m.step (.answer i page) =
      some { m with
        controller := { m.controller with fetching := false }
        requests := m.requests.eraseIdx i
        results := m.results ++ [.error (.anchor ⟨m.controller.loadedCount, page.offset⟩)] }

theorem Paged.consistent {m : Browser} (h : Paged m) : Consistent m := by
  have hpresent := h.present
  unfold HistoryController.awaited at hpresent
  refine ⟨?_, h.count, ?_, ?_, fun i r page hr hgen => ?_, fun i r cause hr hgen => ?_, fun i r page hr hgen hoffset => ?_⟩
  · have := h.loaded.pre
    rw [List.drop_zero] at this
    rw [h.count]
    exact List.prefix_iff_eq_take.mp this
  · rw [hpresent]
    split_ifs
    · exact Nat.le_refl 1
    · exact Nat.zero_le 1
  · rw [hpresent]
    split_ifs with hfetching
    · exact iff_of_true hfetching (List.cons_ne_nil _ _)
    · exact iff_of_false hfetching (fun hnil => hnil rfl)
  · have hserves : Serves m r page := fun hsame => absurd hsame hgen
    have hresume : m.controller.resume r (.ok page) = (m.controller, .ok 0) := by
      rw [resume_page, if_pos hgen, HistoryController.settled, if_neg hgen]
    simp only [Browser.step, hr, if_pos hserves, Browser.settle, hresume]
  · have hresume : m.controller.resume r (.error cause) = (m.controller, .error (.fetch cause)) := by
      rw [HistoryController.resume, HistoryController.settled, if_neg hgen]
    simp only [Browser.step, hr, Option.map_some, Browser.settle, hresume]
  · obtain ⟨-, hone, -⟩ := h.awaited hr hgen
    have hrequested : r.offset = m.controller.loadedCount := by rw [hone]
    have helsewhere : page.offset ≠ r.offset := by rwa [hrequested]
    have hserves : Serves m r page := fun _ hsame => absurd hsame helsewhere
    have hresume := resume_anchor hgen helsewhere
    rw [hrequested] at hresume
    simp only [Browser.step, hr, if_pos hserves, Browser.settle, hresume]

theorem start_paged (pageSize : ℕ) : Paged (Browser.start pageSize) := ⟨piece_nil (Nat.zero_le _), rfl, rfl, nofun⟩

/-- **The pages of a history are consistent.** In every order of calls, answers and failures the chunks are
the server's in the present generation, as many as are counted, at most one request of the generation is on
its way, and neither an older answer nor a page that starts elsewhere changes what is loaded. -/
theorem history_consistent {pageSize : ℕ} {actions : List Browser.Action} {m : Browser}
    (h : Runs.run Browser.step (Browser.start pageSize) actions = some m) : Consistent m :=
  (Runs.run_invariant (fun h hstep => paged_step h hstep) h (start_paged pageSize)).consistent

/-- Two pages are loaded: after an answer to an older generation, a page that starts elsewhere and a failure. -/
def pages : List Browser.Action :=
  [.grow 1 [[97], [98], [99]], .loadMore, .loadInitial, .loadMore, .answer 0 ⟨0, [[120]], 9, []⟩,
    .answer 0 ⟨0, [[97], [98]], 3, []⟩, .loadMore, .answer 0 ⟨1, [[98]], 3, []⟩, .loadMore, .fail 0 "network",
    .loadMore, .answer 0 ⟨2, [[99]], 3, []⟩, .loadMore]

theorem pages_consistent :
    ∃ m, Runs.run Browser.step (Browser.start 2) pages = some m ∧ m.controller.chunks = [[97], [98], [99]] ∧ Consistent m :=
  ⟨_, rfl, rfl, @history_consistent 2 pages _ rfl⟩

end History
end Web
end OpenRelay
