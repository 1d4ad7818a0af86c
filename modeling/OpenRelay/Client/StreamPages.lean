/-
# Pages of a recorded stream

A client reads a session's filtered stream page by page. The daemon answers a request
for a window (`daemon/rpc_attach.rs`, `handle_observe_window`) with what is persisted of
it, which may be less than there is, and with the incarnation that it saw before and
after the read; the session goes on meanwhile, and may be restarted.

An answer that carries an incarnation is a piece of that incarnation's stream
(`windowStep_right`, `Right.grows`), however the session goes on. A session's journal
gives such pages (`journal_page`), and its run is one of `Recorded` (`ofSession_run`).
-/
import OpenRelay.Session.JournalReplay
import Mathlib.Logic.Function.Basic

namespace OpenRelay
namespace Client
namespace Pages

/-! ### The daemon's side -/

/-- What is recorded of a session: the incarnation, and the filtered stream of each. -/
structure Recorded where
  incarnation : ℕ
  streams : ℕ → Bytes

/-- What becomes of a session. -/
inductive Event where
  | output (bytes : Bytes)
  | restart
  deriving DecidableEq, Repr

/-- What `stream_observation` returns. -/
structure Observed where
  running : Bool
  exitCode : Option ℤ
  offset : ℕ
  incarnation : Option ℕ
  deriving DecidableEq, Repr

namespace Recorded

variable (r : Recorded)

def stream : Bytes := r.streams r.incarnation

/-- Output goes to the incarnation that runs; a restart begins the next one. -/
def next : Event → Recorded
  | .output bytes => { r with streams := Function.update r.streams r.incarnation (r.stream ++ bytes) }
  | .restart => { r with incarnation := r.incarnation + 1 }

/-- The observation is of the incarnation that is recorded, or of none. -/
def reports (o : Observed) : Bool := o.incarnation = none ∨ o.incarnation = some r.incarnation

/-- What is read at an offset, if `n` bytes are. -/
def page (offset n : ℕ) : Bytes := (r.stream.drop offset).take n

end Recorded

/-- What is read at once, whatever was asked for. -/
def windowBytes (maxBytes : ℕ) : ℕ := max 1 (min maxBytes (8 * 1024 * 1024))

/-- The answer for a window, or on the way to it. -/
inductive Window where
  | called
  | observed (before : Option ℕ)
  | read (before : Option ℕ) (data : Bytes)
  | answered (data : Bytes) (nextOffset : ℕ) (running : Bool) (exitCode : Option ℤ) (incarnation : Option ℕ)
  /-- The session was restarted meanwhile. -/
  | refused
  deriving DecidableEq, Repr

/-- What the handler finds: an observation, or how much of the window is persisted. -/
inductive Found where
  | observation (o : Observed)
  | persisted (n : ℕ)
  deriving DecidableEq, Repr

/-- A step of `handle_observe_window`. -/
def windowStep (r : Recorded) (offset maxBytes : ℕ) : Window → Found → Option Window
  | .called, .observation o => if r.reports o then some (.observed o.incarnation) else none
  | .observed before, .persisted n =>
    if n ≤ windowBytes maxBytes then some (.read before (r.page offset n)) else none
  | .read before data, .observation o =>
    if r.reports o then
      some (if before = o.incarnation then .answered data (offset + data.length) o.running o.exitCode o.incarnation
        else .refused)
    else none
  | _, _ => none

/-! ### What the answers are -/

/-- The streams have grown, and perhaps there is a later one. -/
structure Grows (r r' : Recorded) : Prop where
  incarnation : r.incarnation ≤ r'.incarnation
  streams : ∀ N, r.streams N <+: r'.streams N

theorem Recorded.grows_next (r : Recorded) (e : Event) : Grows r (r.next e) := by
  cases e with
  | output bytes =>
    refine ⟨Nat.le_refl _, fun N => ?_⟩
    by_cases hN : N = r.incarnation
    · subst hN
      simp [Recorded.next, Recorded.stream]
    · simp [Recorded.next, hN]
  | restart => exact ⟨Nat.le_succ _, fun _ => List.prefix_refl _⟩

/-- The bytes are the stream's at the offset. -/
def PieceOf (data S : Bytes) (offset : ℕ) : Prop := data <+: S.drop offset

theorem PieceOf.mono {data S S' : Bytes} {offset : ℕ} (h : PieceOf data S offset) (hS : S <+: S') :
    PieceOf data S' offset := by
  obtain ⟨T, rfl⟩ := hS
  rw [PieceOf, List.drop_append]
  exact List.IsPrefix.trans h (List.prefix_append _ _)

theorem Recorded.piece_page (r : Recorded) (offset n : ℕ) : PieceOf (r.page offset n) r.stream offset :=
  List.take_prefix _ _

theorem Recorded.incarnation_le (r : Recorded) {o : Observed} {N : ℕ} (h : r.reports o = true)
    (hN : o.incarnation = some N) : N = r.incarnation := by
  rcases of_decide_eq_true h with hnone | hsome
  · rw [hN] at hnone
    cases hnone
  · rw [hN] at hsome
    exact Option.some.inj hsome

/-- What is known on the way to an answer. -/
def Window.Right (r : Recorded) (offset maxBytes : ℕ) : Window → Prop
  | .called | .refused => True
  | .observed before => ∀ N ∈ before, N ≤ r.incarnation
  | .read before data => data.length ≤ windowBytes maxBytes ∧
    ∃ N ≤ r.incarnation, PieceOf data (r.streams N) offset ∧ ∀ N' ∈ before, N' ≤ N
  | .answered data nextOffset _ _ incarnation => data.length ≤ windowBytes maxBytes ∧ nextOffset = offset + data.length ∧
    ∀ N ∈ incarnation, PieceOf data (r.streams N) offset

section Right

variable {r r' : Recorded} {offset maxBytes : ℕ} {w w' : Window}

theorem Window.Right.grows (h : w.Right r offset maxBytes) (hr : Grows r r') : w.Right r' offset maxBytes := by
  cases w with
  | called | refused => trivial
  | observed before => exact fun N hN => (h N hN).trans hr.incarnation
  | read before data =>
    obtain ⟨hlength, N, hN, hpiece, hbefore⟩ := h
    exact ⟨hlength, N, hN.trans hr.incarnation, hpiece.mono (hr.streams N), hbefore⟩
  | answered data nextOffset running exitCode incarnation =>
    obtain ⟨hlength, hnext, hpiece⟩ := h
    exact ⟨hlength, hnext, fun N hN => (hpiece N hN).mono (hr.streams N)⟩

/-- **The handler's answer is a piece of the stream of the incarnation it carries.** -/
theorem windowStep_right {found : Found} (h : w.Right r offset maxBytes)
    (hstep : windowStep r offset maxBytes w found = some w') : w'.Right r offset maxBytes := by
  unfold windowStep at hstep
  split at hstep
  · rename_i o
    split_ifs at hstep with hreports
    cases hstep
    exact fun N hN => (r.incarnation_le hreports hN).le
  · rename_i before n
    split_ifs at hstep with hn
    cases hstep
    exact ⟨(List.length_take_le _ _).trans hn, r.incarnation, Nat.le_refl _, r.piece_page offset n, h⟩
  · rename_i before data o
    split_ifs at hstep with hreports hsame <;> cases hstep
    · obtain ⟨hlength, M, hM, hpiece, hbefore⟩ := h
      refine ⟨hlength, rfl, fun N hN => ?_⟩
      -- seen before the read and after it, so the read was of this incarnation
      have hcurrent := r.incarnation_le hreports hN
      have hle := hbefore N (hsame ▸ hN)
      have hNM : N = M := by omega
      exact hNM ▸ hpiece
    · trivial
  · cases hstep

end Right

/-! ### A session's journal -/

section Journal

open Session Journal

variable {bare : Bool} {R : LineReader}

/-- What is recorded of a session that runs in an incarnation. -/
def Recorded.ofSession (bare : Bool) (N : ℕ) (s : LiveSession) : Recorded :=
  ⟨N, Function.update (fun _ => []) N (Session.stream bare s.rt.records)⟩

theorem ofSession_stream (N : ℕ) (s : LiveSession) :
    (Recorded.ofSession bare N s).stream = stream bare s.rt.records := by
  simp [Recorded.ofSession, Recorded.stream]

/-- **A window of a session's journal is a page of what is recorded**: of a directory as it is, or as
a crash leaves it, while the appender may go on without the session. -/
theorem journal_page {d₀ : Dir} {es : List Effect} {j : OpenedJournal}
    (hopen : (openJournal R).run d₀ = (es, .ok j)) {maxPartBytes rows cols : ℕ} {pid : Bytes} {geometry started : Turn}
    {s₀ s : LiveSession} {as : List LiveSession.Action}
    (hspawn : LiveSession.spawn R (Live.opened j.incarnation maxPartBytes (applyEffects es d₀)) rows cols pid
      geometry started = some s₀)
    (hrun : Runs.run (LiveSession.step bare R) s₀ as = some s) {rest : List Live.Action} {l : Live}
    (hrest : Runs.run (Live.step R) s.rt.journal rest = some l)
    (hpublished : l.journal.published = s.rt.journal.journal.published)
    {d : Dir} (hd : d = l.disk ∨ ∃ cut manifestCut, d = l.disk.crash cut manifestCut) (offset maxBytes : ℕ) :
    ∃ n ≤ maxBytes, filteredStreamWindow bare d offset maxBytes =
      .ok ((Recorded.ofSession bare j.incarnation s).page offset n) := by
  obtain ⟨groups, current, torn, hholds, hpre, hlatest, hanchored, hlt⟩ :=
    holds_session hopen hspawn hrun hrest hpublished hd
  have hwindow := filteredStreamWindow_eq hlatest hholds hanchored hlt offset maxBytes
  obtain ⟨T, hT⟩ := @stream_mono bare _ _ hpre
  generalize stream bare (groups.flatten ++ current) = P at hT hwindow
  refine ⟨min maxBytes (P.length - offset), Nat.min_le_left _ _, ?_⟩
  rw [hwindow, Recorded.page, ofSession_stream, ← hT, List.drop_append, List.take_append_of_le_length]
  · congr 1
    rw [← List.length_drop, List.take_eq_take_min]
  · rw [List.length_drop]
    exact Nat.min_le_right _ _

/-- A step of a session adds to what is recorded. -/
theorem ofSession_step {N : ℕ} {s t : LiveSession} {a : LiveSession.Action} (hidle : Idle s.rt.journal.journal)
    (hstep : LiveSession.step bare R s a = some t) :
    ∃ bytes, Recorded.ofSession bare N t = (Recorded.ofSession bare N s).next (.output bytes) := by
  obtain ⟨bytes, hbytes⟩ := @stream_mono bare _ _ (LiveSession.step_advances hstep hidle).published
  refine ⟨bytes, ?_⟩
  unfold Recorded.ofSession Recorded.next Recorded.stream
  dsimp only
  rw [Function.update_idem, Function.update_self, hbytes]

/-- **A session's run is a run of what is recorded of it**, in which there is output alone. -/
theorem ofSession_run {N : ℕ} {s t : LiveSession} {as : List LiveSession.Action} (hidle : Idle s.rt.journal.journal)
    (hrun : Runs.run (LiveSession.step bare R) s as = some t) :
    ∃ outputs : List Bytes, Recorded.ofSession bare N t =
      (outputs.map Event.output).foldl Recorded.next (Recorded.ofSession bare N s) := by
  refine (Runs.run_invariant (I := fun u : LiveSession => Idle u.rt.journal.journal ∧ ∃ outputs : List Bytes,
    Recorded.ofSession bare N u = (outputs.map Event.output).foldl Recorded.next (Recorded.ofSession bare N s))
    (fun h hstep => ?_) hrun ⟨hidle, [], rfl⟩).2
  obtain ⟨hquiet, outputs, houtputs⟩ := h
  obtain ⟨bytes, hbytes⟩ := @ofSession_step bare R N _ _ _ hquiet hstep
  refine ⟨(LiveSession.step_advances hstep hquiet).idle, outputs ++ [bytes], ?_⟩
  rw [hbytes, houtputs, List.map_append, List.foldl_append]
  rfl

end Journal

end Pages
end Client
end OpenRelay
