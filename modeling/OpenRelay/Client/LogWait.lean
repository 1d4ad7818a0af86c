/-
# Waiting for a match

The loop of `oly logs --wait match` (`client/logs.rs`, `wait` and `scan_for_match`): it asks
where the session's stream ends, reads the pages up to there and looks at their lines, and
asks again. It succeeds with the first match, and fails if the session has ended without one.

The daemon's pages may be of any length, also empty while the journal lags behind the end
that it reports, and the session goes on meanwhile or is restarted. What the loop says of
the lines is right whatever happens. But it takes an empty page for the end of the stream:
where the session has ended and its last output isn't persisted yet, it says that nothing
matched though it has not read it (`wait_lagging`). A session that has ended is waited for
rightly if its pages are never empty (`wait_faithful`).

Key theorem: `waitInv_step`.
-/
import OpenRelay.Client.LogMatch
import OpenRelay.Client.StreamPages

namespace OpenRelay
namespace Client
namespace LogWait

open LogMatch Pages

/-! ### The code -/

def MATCH_PAGE_BYTES : ℕ := 256 * 1024

/-- How a wait returns. -/
inductive Outcome where
  | matched
  /-- "session ended without matching the pattern" -/
  | ended
  /-- "match input line exceeds 1 MiB" -/
  | tooLong
  | timedOut
  /-- A request failed, or the session was restarted. -/
  | failed
  deriving DecidableEq, Repr

/-- Where a wait is. -/
inductive Phase where
  /-- The first cursor is asked for. -/
  | starting
  /-- The cursor of a turn is asked for. -/
  | polling
  | window (w : Window)
  /-- The cursor after a page. -/
  | revalidating (data : Bytes) (nextOffset : ℕ)
  /-- Nothing matches; the clock is looked at. -/
  | pausing
  | returned (outcome : Outcome)
  deriving DecidableEq, Repr

/-- A wait under way. -/
structure Waiter where
  /-- The incarnation that the operation is about, none before the first. -/
  pinned : Option ℕ
  /-- `--since`: an incarnation and an offset. -/
  since : Option (ℕ × ℕ)
  timeoutMs : ℕ
  startOffset : ℕ
  /-- The cursor of the turn. -/
  cursor : Observed
  scanPos : ℕ
  scanTail : Bytes
  phase : Phase
  deriving DecidableEq, Repr

namespace Waiter

/-- The first cursor is asked for. -/
def start (pinned : Option ℕ) (since : Option (ℕ × ℕ)) (timeoutMs : ℕ) : Waiter :=
  ⟨pinned, since, timeoutMs, 0, ⟨true, none, 0, none⟩, 0, [], .starting⟩

variable (c : Waiter)

def error : Waiter := { c with phase := .returned .failed }

/-- Before the loop. -/
def enter (o : Observed) : Waiter :=
  if o.incarnation ≠ c.pinned then c.error
  else
    let startOffset := match c.since with
      | some (_, offset) => offset
      | none => o.offset
    match c.since, o.incarnation with
    | some (given, _), some current =>
      if given ≠ current then c.error
      else { c with startOffset := startOffset, scanPos := startOffset, scanTail := [], phase := .polling }
    | _, _ => { c with startOffset := startOffset, scanPos := startOffset, scanTail := [], phase := .polling }

/-- `scan_for_match` has returned that nothing matches. -/
def unsatisfied : Waiter :=
  { c with phase := if c.cursor.running then .pausing else .returned .ended }

/-- The loop of `scan_for_match`. -/
def scan : Waiter :=
  if c.scanPos < c.cursor.offset then { c with phase := .window .called } else c.unsatisfied

/-- A turn begins with its cursor. -/
def turn (o : Observed) : Waiter :=
  if o.incarnation ≠ c.pinned then c.error else scan { c with cursor := o }

/-- What comes of a request for a window. -/
def answer : Window → Waiter
  | .answered data nextOffset _ _ incarnation =>
    if incarnation ≠ c.pinned then c.error else { c with phase := .revalidating data nextOffset }
  | .refused => c.error
  | w => { c with phase := .window w }

/-- The page is looked at, if the session is still the same. -/
def revalidate (isMatch : List Char → Bool) (o : Observed) (data : Bytes) (nextOffset : ℕ) : Waiter :=
  if o.incarnation ≠ c.pinned then c.error
  else if data = [] then c.unsatisfied
  else match matchLines isMatch c.scanTail data with
    | .matched => { c with scanPos := nextOffset, phase := .returned .matched }
    | .tooLong => { c with scanPos := nextOffset, phase := .returned .tooLong }
    | .carry line => scan { c with scanPos := nextOffset, scanTail := line }

/-- After a turn: `expired` is whether the deadline, if there is one, has passed. -/
def pause (expired : Bool) : Waiter :=
  { c with phase := if 0 < c.timeoutMs ∧ expired then .returned .timedOut else .polling }

end Waiter

/-- The daemon's side and the wait. -/
structure World where
  recorded : Recorded
  client : Waiter
  /-- An empty page was read in this turn; nobody looks at it. -/
  starved : Bool

/-- What may happen next. -/
inductive Action where
  /-- The session goes on. -/
  | session (e : Event)
  /-- A cursor is answered, or the handler of a window makes or reads what it has to. -/
  | found (f : Found)
  | clock (expired : Bool)
  /-- A request fails, or the pattern is none. -/
  | fail
  deriving DecidableEq, Repr

/-- `stream_observation` names the incarnation that is recorded; incarnations are numbered from one. -/
def names (r : Recorded) (o : Observed) : Bool :=
  o.incarnation = if r.incarnation = 0 then none else some r.incarnation

/-- A step of either side, where it can be taken. -/
def World.step (isMatch : List Char → Bool) (w : World) : Action → Option World
  | .session e => some { w with recorded := w.recorded.next e }
  | .found (.observation o) =>
    if names w.recorded o then
      match w.client.phase with
      | .starting => some { w with client := w.client.enter o }
      | .polling => some { w with client := w.client.turn o, starved := false }
      | .window window => (windowStep w.recorded w.client.scanPos MATCH_PAGE_BYTES window (.observation o)).map
          fun window => { w with client := w.client.answer window }
      | .revalidating data nextOffset => some { w with client := w.client.revalidate isMatch o data nextOffset }
      | _ => none
    else none
  | .found (.persisted n) =>
    match w.client.phase with
    | .window window => (windowStep w.recorded w.client.scanPos MATCH_PAGE_BYTES window (.persisted n)).map
        fun window =>
          { w with client := w.client.answer window, starved := w.starved || w.recorded.page w.client.scanPos n = [] }
    | _ => none
  | .clock expired =>
    match w.client.phase with
    | .pausing => some { w with client := w.client.pause expired }
    | _ => none
  | .fail =>
    match w.client.phase with
    | .returned _ => none
    | _ => some { w with client := w.client.error }

/-- Before the first request. -/
def World.start (recorded : Recorded) (pinned : Option ℕ) (since : Option (ℕ × ℕ)) (timeoutMs : ℕ) : World :=
  ⟨recorded, .start pinned since timeoutMs, false⟩

/-- The stream that is read, as far as it is recorded. -/
def Waiter.stream (r : Recorded) (c : Waiter) : Bytes := r.streams (c.pinned.getD 0)

/-- The stream from where it is read. -/
def World.text (w : World) : Bytes := (w.client.stream w.recorded).drop w.client.startOffset

/-- What has been scanned of it. -/
def World.scanned (w : World) : Bytes := w.text.take (w.client.scanPos - w.client.startOffset)

/-- **What the wait says is right.** -/
structure Faithful (isMatch : List Char → Bool) (w : World) : Prop where
  /-- What matched is a line of the stream, or the beginning of one. -/
  sound : w.client.phase = .returned .matched → ∃ text, Shown w.text text ∧ isMatch text = true
  /-- Unless something matched or was too long, no complete line matches that has been scanned. -/
  complete : w.client.phase ≠ .returned .matched → w.client.phase ≠ .returned .tooLong →
    w.scanned.length = w.client.scanPos - w.client.startOffset ∧ NoneMatches isMatch w.scanned
  tooLong : w.client.phase = .returned .tooLong → TooLong isMatch w.text
  /-- A turn scans all that the session reports, unless a page is empty. -/
  drained : w.client.phase = .pausing → w.starved = false → w.client.cursor.offset ≤ w.client.scanPos
  /-- It is only said that nothing matched after all of the stream was scanned. -/
  ended : w.client.phase = .returned .ended →
    w.client.cursor.running = false ∧ w.client.cursor.offset ≤ w.client.scanPos

/-- What is read of a session that has ended isn't empty. -/
def Caught (w : World) : Action → Prop
  | .found (.persisted n) => w.client.cursor.running = false → w.recorded.page w.client.scanPos n ≠ []
  | _ => True

instance (w : World) (a : Action) : Decidable (Caught w a) := by
  unfold Caught
  split <;> infer_instance

/-! ### The invariant -/

/-- What has been scanned is the beginning of the stream from where it is read. -/
def Scanned (isMatch : List Char → Bool) (S : Bytes) (c : Waiter) : Prop :=
  ∃ P, P <+: S.drop c.startOffset ∧ c.scanPos = c.startOffset + P.length ∧ Searched isMatch P c.scanTail

/-- The page on the way to an answer isn't empty, unless the journal lags. -/
def Filled (starved : Bool) : Window → Prop
  | .read _ data | .answered data _ _ _ _ => data = [] → starved = true
  | _ => True

/-- What holds of a wait by where it is. -/
def Right (isMatch : List Char → Bool) (r : Recorded) (starved : Bool) (c : Waiter) : Prop :=
  match c.phase with
  | .window w => Scanned isMatch (c.stream r) c ∧ w.Right r c.scanPos MATCH_PAGE_BYTES ∧ Filled starved w
  | .revalidating data nextOffset => Scanned isMatch (c.stream r) c ∧ PieceOf data (c.stream r) c.scanPos ∧
    nextOffset = c.scanPos + data.length ∧ (data = [] → starved = true)
  | .pausing => Scanned isMatch (c.stream r) c ∧ (starved = false → c.cursor.offset ≤ c.scanPos)
  | .returned .ended => Scanned isMatch (c.stream r) c ∧ c.cursor.running = false ∧
    (starved = false → c.cursor.offset ≤ c.scanPos)
  | .returned .matched => ∃ text, Shown ((c.stream r).drop c.startOffset) text ∧ isMatch text = true
  | .returned .tooLong => TooLong isMatch ((c.stream r).drop c.startOffset)
  | _ => Scanned isMatch (c.stream r) c

section Steps

variable {isMatch : List Char → Bool} {r r' : Recorded} {starved : Bool} {c : Waiter}

theorem Scanned.mono {S S' : Bytes} (h : Scanned isMatch S c) (hS : S <+: S') : Scanned isMatch S' c := by
  obtain ⟨P, hP, hpos, hsearched⟩ := h
  exact ⟨P, hP.trans (hS.drop _), hpos, hsearched⟩

/-- Nothing has been scanned yet. -/
theorem scanned_start {S : Bytes} (hpos : c.scanPos = c.startOffset) (htail : c.scanTail = []) : Scanned isMatch S c := by
  refine ⟨[], List.nil_prefix, by simp [hpos], ?_⟩
  rw [htail]
  exact searched_nil isMatch

theorem Right.scanned (h : Right isMatch r starved c) (hmatched : c.phase ≠ .returned .matched)
    (htooLong : c.phase ≠ .returned .tooLong) : Scanned isMatch (c.stream r) c := by
  unfold Right at h
  split at h
  · exact h.1
  · exact h.1
  · exact h.1
  · exact h.1
  · rename_i hphase
    exact absurd hphase hmatched
  · rename_i hphase
    exact absurd hphase htooLong
  · exact h

theorem Right.grows (h : Right isMatch r starved c) (hr : Grows r r') : Right isMatch r' starved c := by
  have hS : c.stream r <+: c.stream r' := hr.streams _
  unfold Right at h ⊢
  split at h
  · obtain ⟨hscanned, hright, hfilled⟩ := h
    exact ⟨hscanned.mono hS, hright.grows hr, hfilled⟩
  · obtain ⟨hscanned, hpiece, hnext, hempty⟩ := h
    exact ⟨hscanned.mono hS, hpiece.mono hS, hnext, hempty⟩
  · exact ⟨h.1.mono hS, h.2⟩
  · exact ⟨h.1.mono hS, h.2⟩
  · obtain ⟨text, hshown, hmatch⟩ := h
    exact ⟨text, hshown.mono (hS.drop _), hmatch⟩
  · exact TooLong.mono h (hS.drop _)
  · exact h.mono hS

/-! What comes after each answer. -/

theorem Scanned.error (h : Scanned isMatch (c.stream r) c) : Right isMatch r starved c.error := h

theorem right_enter {o : Observed} (h : Scanned isMatch (c.stream r) c) : Right isMatch r starved (c.enter o) := by
  unfold Waiter.enter
  split_ifs
  · exact h.error
  · dsimp only
    split
    · split_ifs
      · exact h.error
      · exact scanned_start rfl rfl
    · exact scanned_start rfl rfl

theorem Scanned.unsatisfied (h : Scanned isMatch (c.stream r) c)
    (hdrained : starved = false → c.cursor.offset ≤ c.scanPos) : Right isMatch r starved c.unsatisfied := by
  unfold Waiter.unsatisfied
  rcases hrunning : c.cursor.running with _ | _
  · exact ⟨h, hrunning, hdrained⟩
  · exact ⟨h, hdrained⟩

theorem Scanned.scan (h : Scanned isMatch (c.stream r) c) : Right isMatch r starved c.scan := by
  unfold Waiter.scan
  split_ifs with hmore
  · exact ⟨h, trivial, trivial⟩
  · exact h.unsatisfied fun _ => Nat.le_of_not_lt hmore

theorem Scanned.turn {o : Observed} (h : Scanned isMatch (c.stream r) c) : Right isMatch r starved (c.turn o) := by
  unfold Waiter.turn
  split_ifs
  · exact h.error
  · exact Scanned.scan (c := { c with cursor := o }) h

theorem Scanned.answer {w : Window} (h : Scanned isMatch (c.stream r) c)
    (hpiece : ∀ data nextOffset running exitCode, w = .answered data nextOffset running exitCode c.pinned →
      PieceOf data (c.stream r) c.scanPos)
    (hright : w.Right r c.scanPos MATCH_PAGE_BYTES) (hfilled : Filled starved w) :
    Right isMatch r starved (c.answer w) := by
  unfold Waiter.answer
  split
  · rename_i data nextOffset running exitCode incarnation
    split_ifs with hincarnation
    · exact h.error
    · have hsame : incarnation = c.pinned := by simpa using hincarnation
      exact ⟨h, hpiece data nextOffset running exitCode (hsame ▸ rfl), hright.2.1, hfilled⟩
  · exact h.error
  · exact ⟨h, hright, hfilled⟩

/-- **A page is looked at**, behind what has been scanned. -/
theorem Scanned.revalidate {o : Observed} {data : Bytes} (h : Scanned isMatch (c.stream r) c)
    (hpiece : PieceOf data (c.stream r) c.scanPos) (hempty : data = [] → starved = true) :
    Right isMatch r starved (c.revalidate isMatch o data (c.scanPos + data.length)) := by
  unfold Waiter.revalidate
  split_ifs with hincarnation hdata
  · exact h.error
  · refine h.unsatisfied fun hstarved => ?_
    rw [hempty hdata] at hstarved
    cases hstarved
  · obtain ⟨P, ⟨Q, hQ⟩, hpos, hsearched⟩ := h
    have hpage : P ++ data <+: (c.stream r).drop c.startOffset := by
      rw [← hQ, List.prefix_append_right_inj]
      have hbehind : (c.stream r).drop c.scanPos = Q := by
        rw [hpos, ← List.drop_drop, ← hQ, List.drop_left]
      exact hbehind ▸ hpiece
    have hspec := matchLines_spec hsearched data
    split
    · rename_i hmatched
      rw [hmatched] at hspec
      obtain ⟨text, hshown, hmatch⟩ := hspec
      exact ⟨text, hshown.mono hpage, hmatch⟩
    · rename_i htooLong
      rw [htooLong] at hspec
      exact TooLong.mono hspec hpage
    · rename_i line hcarry
      rw [hcarry] at hspec
      refine Scanned.scan (c := { c with scanPos := c.scanPos + data.length, scanTail := line }) ?_
      refine ⟨P ++ data, hpage, ?_, hspec⟩
      rw [hpos, List.length_append, Nat.add_assoc]

/-- An answer that carries what is pinned is a piece of the stream. -/
theorem answered_piece {w w' : Window} {o : Observed} (hright : w.Right r c.scanPos MATCH_PAGE_BYTES)
    (hnames : names r o = true)
    (hstep : windowStep r c.scanPos MATCH_PAGE_BYTES w (.observation o) = some w') :
    ∀ data nextOffset running exitCode, w' = .answered data nextOffset running exitCode c.pinned →
      PieceOf data (c.stream r) c.scanPos := by
  rintro data nextOffset running exitCode rfl
  rcases hpinned : c.pinned with _ | N
  · -- none is recorded yet, so the page is of the stream before the first
    rw [hpinned] at hstep
    unfold windowStep at hstep
    split at hstep
    · split_ifs at hstep
      cases hstep
    · rename_i hfound
      cases hfound
    · rename_i before data' o' hfound
      cases hfound
      split_ifs at hstep with hreports hsame
      · simp only [Option.some.injEq, Window.answered.injEq] at hstep
        obtain ⟨rfl, -, -, -, hincarnation⟩ := hstep
        obtain ⟨-, M, hM, hpiece, -⟩ := hright
        have hnone : r.incarnation = 0 := by
          have hif := of_decide_eq_true hnames
          rw [hincarnation] at hif
          split_ifs at hif with hzero
          exact hzero
        have hzero : M = 0 := by omega
        rw [Waiter.stream, hpinned, Option.getD_none]
        exact hzero ▸ hpiece
      · cases hstep
    · cases hstep
  · have hanswer := windowStep_right hright hstep
    rw [Waiter.stream, hpinned, Option.getD_some]
    exact hanswer.2.2 N hpinned

end Steps

/-- A page that is answered is the one that was read. -/
theorem filled_observation {r : Recorded} {offset maxBytes : ℕ} {starved : Bool} {w w' : Window} {o : Observed}
    (h : Filled starved w) (hstep : windowStep r offset maxBytes w (.observation o) = some w') : Filled starved w' := by
  unfold windowStep at hstep
  split at hstep
  · split_ifs at hstep
    cases hstep
    trivial
  · rename_i hfound
    cases hfound
  · split_ifs at hstep <;> cases hstep
    · exact h
    · trivial
  · cases hstep

/-- A page that is read is empty only if the journal lags. -/
theorem filled_persisted {r : Recorded} {offset maxBytes n : ℕ} {w w' : Window} (starved : Bool)
    (hstep : windowStep r offset maxBytes w (.persisted n) = some w') :
    Filled (starved || r.page offset n = []) w' ∧ ∃ before, w' = .read before (r.page offset n) := by
  unfold windowStep at hstep
  split at hstep
  · rename_i hfound
    cases hfound
  · rename_i before n' hfound
    cases hfound
    rw [Option.ite_none_right_eq_some] at hstep
    obtain ⟨-, hread⟩ := hstep
    cases hread
    exact ⟨fun hempty => by simp [hempty], before, rfl⟩
  · rename_i hfound
    cases hfound
  · cases hstep

/-- **One step keeps what holds of a wait.** -/
theorem waitInv_step {isMatch : List Char → Bool} {w w' : World} {a : Action}
    (h : Right isMatch w.recorded w.starved w.client) (hstep : w.step isMatch a = some w') :
    Right isMatch w'.recorded w'.starved w'.client := by
  have hright := h
  unfold Right at hright
  cases a with
  | session e =>
    cases hstep
    exact h.grows (w.recorded.grows_next e)
  | found f =>
    cases f with
    | observation o =>
      simp only [World.step] at hstep
      split_ifs at hstep with hnames
      split at hstep
      · rename_i hphase
        rw [hphase] at hright
        cases hstep
        exact right_enter hright
      · rename_i hphase
        rw [hphase] at hright
        cases hstep
        exact Scanned.turn hright
      · rename_i window hphase
        rw [hphase] at hright
        obtain ⟨hscanned, hwindow, hfilled⟩ := hright
        obtain ⟨window', hwindow', rfl⟩ := Option.map_eq_some_iff.mp hstep
        exact hscanned.answer (answered_piece hwindow hnames hwindow') (windowStep_right hwindow hwindow')
          (filled_observation hfilled hwindow')
      · rename_i data nextOffset hphase
        rw [hphase] at hright
        obtain ⟨hscanned, hpiece, rfl, hempty⟩ := hright
        cases hstep
        exact hscanned.revalidate hpiece hempty
      · cases hstep
    | persisted n =>
      simp only [World.step] at hstep
      split at hstep
      · rename_i window hphase
        rw [hphase] at hright
        obtain ⟨hscanned, hwindow, -⟩ := hright
        obtain ⟨window', hwindow', rfl⟩ := Option.map_eq_some_iff.mp hstep
        obtain ⟨hfilled, before, hread⟩ := filled_persisted w.starved hwindow'
        refine hscanned.answer (fun data nextOffset running exitCode hanswer => ?_) (windowStep_right hwindow hwindow') hfilled
        rw [hread] at hanswer
        cases hanswer
      · cases hstep
  | clock expired =>
    simp only [World.step] at hstep
    split at hstep
    · rename_i hphase
      rw [hphase] at hright
      cases hstep
      unfold Waiter.pause
      split_ifs
      · exact hright.1
      · exact hright.1
    · cases hstep
  | fail =>
    simp only [World.step] at hstep
    split at hstep
    · cases hstep
    · rename_i hreturned
      cases hstep
      exact (h.scanned (hreturned _) (hreturned _)).error

/-- An ended session is read without a lag. -/
def Prompt (w : World) : Prop := w.starved = true → w.client.cursor.running = true

theorem Prompt.same {w w' : World} (h : Prompt w) (hstarved : w'.starved = w.starved)
    (hcursor : w'.client.cursor = w.client.cursor) : Prompt w' := by
  unfold Prompt at h ⊢
  rw [hstarved, hcursor]
  exact h

theorem answer_cursor (c : Waiter) (w : Window) : (c.answer w).cursor = c.cursor := by
  unfold Waiter.answer
  split
  · split_ifs <;> rfl
  · rfl
  · rfl

theorem scan_cursor (c : Waiter) : c.scan.cursor = c.cursor := by
  unfold Waiter.scan
  split_ifs <;> rfl

theorem enter_cursor (c : Waiter) (o : Observed) : (c.enter o).cursor = c.cursor := by
  unfold Waiter.enter
  split_ifs
  · rfl
  · dsimp only
    split
    · split_ifs <;> rfl
    · rfl

theorem revalidate_cursor (isMatch : List Char → Bool) (c : Waiter) (o : Observed) (data : Bytes) (nextOffset : ℕ) :
    (c.revalidate isMatch o data nextOffset).cursor = c.cursor := by
  unfold Waiter.revalidate
  split_ifs
  · rfl
  · rfl
  · split
    · rfl
    · rfl
    · exact scan_cursor _

theorem prompt_step {isMatch : List Char → Bool} {w w' : World} {a : Action} (h : Prompt w) (hcaught : Caught w a)
    (hstep : w.step isMatch a = some w') : Prompt w' := by
  cases a with
  | session e =>
    cases hstep
    exact h
  | found f =>
    cases f with
    | observation o =>
      simp only [World.step] at hstep
      split_ifs at hstep
      split at hstep
      · cases hstep
        exact h.same rfl (enter_cursor _ _)
      · cases hstep
        exact nofun
      · obtain ⟨window, -, rfl⟩ := Option.map_eq_some_iff.mp hstep
        exact h.same rfl (answer_cursor _ _)
      · cases hstep
        exact h.same rfl (revalidate_cursor _ _ _ _ _)
      · cases hstep
    | persisted n =>
      simp only [World.step] at hstep
      split at hstep
      · obtain ⟨window, -, rfl⟩ := Option.map_eq_some_iff.mp hstep
        intro hstarved
        rw [answer_cursor]
        rcases Bool.or_eq_true_iff.mp hstarved with hbefore | hempty
        · exact h hbefore
        · by_contra hrunning
          exact hcaught (by simpa using hrunning) (of_decide_eq_true hempty)
      · cases hstep
  | clock expired =>
    simp only [World.step] at hstep
    split at hstep
    · cases hstep
      exact h
    · cases hstep
  | fail =>
    simp only [World.step] at hstep
    split at hstep
    · cases hstep
    · cases hstep
      exact h

theorem Right.faithful {isMatch : List Char → Bool} {w : World}
    (h : Right isMatch w.recorded w.starved w.client) (hprompt : Prompt w) : Faithful isMatch w := by
  refine ⟨fun hphase => ?_, fun hmatched htooLong => ?_, fun hphase => ?_, fun hphase hstarved => ?_, fun hphase => ?_⟩
  · unfold Right at h
    rw [hphase] at h
    exact h
  · obtain ⟨P, hP, hpos, hsearched⟩ := h.scanned hmatched htooLong
    have hscanned : w.scanned = P := by
      rw [World.scanned, hpos, Nat.add_sub_cancel_left]
      exact (List.prefix_iff_eq_take.mp hP).symm
    rw [hscanned, hpos, Nat.add_sub_cancel_left]
    exact ⟨rfl, hsearched.noneMatches⟩
  · unfold Right at h
    rw [hphase] at h
    exact h
  · unfold Right at h
    rw [hphase] at h
    exact h.2 hstarved
  · unfold Right at h
    rw [hphase] at h
    obtain ⟨-, hended, hdrained⟩ := h
    refine ⟨hended, hdrained ?_⟩
    by_contra hstarved
    have hrunning := hprompt (by simpa using hstarved)
    rw [hended] at hrunning
    cases hrunning

/-- **What the wait says of the stream is right** if what is read of a session that has ended is never
empty: whatever pages the daemon gives otherwise, and however the session goes on meanwhile. -/
theorem wait_faithful (isMatch : List Char → Bool) (recorded : Recorded) (pinned : Option ℕ) (since : Option (ℕ × ℕ))
    (timeoutMs : ℕ) (as : List Action) {w : World}
    (hrun : Runs.run (World.step isMatch) (.start recorded pinned since timeoutMs) as = some w)
    (hcaught : Runs.Meets (World.step isMatch) Caught (.start recorded pinned since timeoutMs) as) :
    Faithful isMatch w := by
  have hstart : Right isMatch recorded false (.start pinned since timeoutMs) := scanned_start rfl rfl
  have h : Right isMatch w.recorded w.starved w.client ∧ Prompt w :=
    Runs.run_invariant_of_meets (I := fun w => Right isMatch w.recorded w.starved w.client ∧ Prompt w)
      (fun h hcaught hstep => ⟨waitInv_step h.1 hstep, prompt_step h.2 hcaught hstep⟩) hrun hcaught ⟨hstart, nofun⟩
  exact h.1.faithful h.2

/-- "café" and "ok", each on a line. -/
def twoLines : Recorded := ⟨1, Function.update (fun _ => []) 1 [99, 97, 102, 195, 169, 10, 111, 107, 10]⟩

/-- The line that is waited for. -/
def isOk (text : List Char) : Bool := text = ['o', 'k']

/-- The daemon tells of nine bytes in the first incarnation. -/
def seen (running : Bool) : Action := .found (.observation ⟨running, none, 9, some 1⟩)

/-- A page of `n` bytes, seen before and after it. -/
def pageOf (running : Bool) (n : ℕ) : List Action :=
  [seen running, .found (.persisted n), seen running, seen running]

/-- A page ends within a character, the next one is empty; the session ends, and the rest is read. -/
def inPieces : List Action :=
  [seen true, seen true] ++ pageOf true 4 ++ pageOf true 0 ++ [.clock false, seen false] ++ pageOf false 5

theorem wait_faithful_inPieces : ∃ w,
    Runs.run (World.step isOk) (.start twoLines (some 1) (some (1, 0)) 0) inPieces = some w ∧
      w.client.phase = .returned .matched ∧ Faithful isOk w := by
  have hrun : (Runs.run (World.step isOk) (.start twoLines (some 1) (some (1, 0)) 0) inPieces).any
      (fun w => decide (w.client.phase = .returned .matched)) = true := by decide +kernel
  obtain ⟨w, hw, hend⟩ := (Option.any_eq_true _ _).mp hrun
  exact ⟨w, hw, of_decide_eq_true hend,
    wait_faithful isOk twoLines (some 1) (some (1, 0)) 0 inPieces hw (by decide +kernel)⟩

/-- The session has ended, and none of its output is persisted yet. -/
def lagging : List Action := [seen true, seen false] ++ pageOf false 0

/-- It is said that nothing matches, though a line of the stream does. -/
theorem wait_lagging : ∃ w, Runs.run (World.step isOk) (.start twoLines (some 1) (some (1, 0)) 0) lagging = some w ∧
    w.client.phase = .returned .ended ∧ w.client.scanPos = 0 ∧ w.client.cursor.offset = 9 ∧
      [111, 107] ∈ (Lines.splitLines newline w.text).1 ∧ isOk (Utf8.decode [111, 107]) = true ∧ ¬ Faithful isOk w := by
  have hrun : (Runs.run (World.step isOk) (.start twoLines (some 1) (some (1, 0)) 0) lagging).any (fun w =>
      decide (w.client.phase = .returned .ended ∧ w.client.scanPos = 0 ∧ w.client.cursor.offset = 9 ∧
        [111, 107] ∈ (Lines.splitLines newline w.text).1 ∧ isOk (Utf8.decode [111, 107]) = true)) = true := by
    decide +kernel
  obtain ⟨w, hw, hend⟩ := (Option.any_eq_true _ _).mp hrun
  obtain ⟨hphase, hpos, hoffset, hline, hok⟩ := of_decide_eq_true hend
  refine ⟨w, hw, hphase, hpos, hoffset, hline, hok, fun h => ?_⟩
  obtain ⟨-, hscanned⟩ := h.ended hphase
  omega

end LogWait
end Client
end OpenRelay
