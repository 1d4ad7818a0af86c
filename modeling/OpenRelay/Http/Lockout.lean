/-
# Login attempts and the lockout

A login reads the lockout of its client's address, verifies the password, which is slow,
and then records the outcome (`http/auth.rs`). The failures of an address are counted;
the third one locks the address for a while. A success removes the record, and so does
the end of the lockout.

Between its check and its record a login is not counted. So as many passwords are tried
in one window as logins pass the check before the third failure is recorded
(`overlapping_logins_exceed`). Where a login passes only while the failures that are recorded
and the logins of its address under way are fewer than three, at most three fail
(`failures_bounded`); a login that is alone does (`spaced_of_alone`).

Key theorems: `countsInv_step`, `boundInv_step`.
-/
import Mathlib.Algebra.Group.Nat.Defs
import OpenRelay.Lib.Runs
import Mathlib.Data.List.Basic
import Mathlib.Logic.Function.Basic

namespace OpenRelay
namespace Http
namespace Lockout

/-! ### The code -/

def maxFailedAttempts : ℕ := 3

/-- Instants and durations are in nanoseconds. -/
def lockoutDuration : ℕ := 15 * 60 * 10 ^ 9

/-- What is kept of an address. -/
structure LockoutRecord where
  failedAttempts : ℕ
  lockedUntil : Option ℕ
  deriving DecidableEq, Repr

/-- What a failure comes to. -/
inductive FailureOutcome
  | lockedOut (deadline : ℕ)
  | attemptsRemaining (attempts : ℕ)
  deriving DecidableEq, Repr

section Code

variable {Ip : Type} [DecidableEq Ip]

/-- The record of each address. -/
abbrev Table (Ip : Type) := Ip → Option LockoutRecord

/-- The table after the look at it, and until when the address is locked. -/
def lockedUntil (lockout : Table Ip) (ip : Ip) (now : ℕ) : Table Ip × Option ℕ :=
  match lockout ip with
  | none => (lockout, none)
  | some record =>
    match record.lockedUntil with
    | none => (lockout, none)
    | some t => if now < t then (lockout, some t) else (Function.update lockout ip none, none)

/-- One more failure of an address; with the last one it is locked. -/
def recordFailure (lockout : Table Ip) (ip : Ip) (now : ℕ) : Table Ip × FailureOutcome :=
  let record := (lockout ip).getD ⟨0, none⟩
  let failedAttempts := record.failedAttempts + 1
  if maxFailedAttempts ≤ failedAttempts then
    (Function.update lockout ip (some ⟨failedAttempts, some (now + lockoutDuration)⟩), .lockedOut (now + lockoutDuration))
  else
    (Function.update lockout ip (some ⟨failedAttempts, record.lockedUntil⟩),
      .attemptsRemaining (maxFailedAttempts - failedAttempts))

/-- The background task evicts expired records. -/
def cleanup (lockout : Table Ip) (now : ℕ) : Table Ip := fun ip =>
  (lockout ip).filter fun record => record.lockedUntil.all fun t => decide (now < t)

/-- What a login is told. -/
inductive Answer
  | tooManyAttempts (retryAfterSeconds : ℕ)
  | invalidPassword (attemptsRemaining : ℕ)
  | token
  deriving DecidableEq, Repr

/-- The seconds until the deadline, rounded down. -/
def retryAfter (deadline now : ℕ) : ℕ := (deadline - now) / 10 ^ 9

def FailureOutcome.answer (now : ℕ) : FailureOutcome → Answer
  | .lockedOut deadline => .tooManyAttempts (retryAfter deadline now)
  | .attemptsRemaining attempts => .invalidPassword attempts

/-- The logins under way stand under their address in the list of where they are. -/
structure World (Ip : Type) where
  now : ℕ
  lockout : Table Ip
  verifying : List Ip
  failed : List Ip
  verified : List Ip
  answers : List (Ip × Answer)
  /-- The verifications that failed in the window of each address. -/
  failures : Ip → ℕ

/-- What may happen next. -/
inductive Action (Ip : Type)
  | tick (d : ℕ)
  /-- A login reads the lockout. -/
  | arrive (ip : Ip)
  /-- A password is verified. -/
  | verify (ip : Ip) (ok : Bool)
  | recordFailure (ip : Ip)
  | recordSuccess (ip : Ip)
  | cleanup
  deriving DecidableEq, Repr

namespace World

/-- No login, and nothing recorded. -/
def start : World Ip := ⟨0, fun _ => none, [], [], [], [], fun _ => 0⟩

/-- The window of an address ends when its record is removed. -/
def put (w : World Ip) (lockout : Table Ip) : World Ip :=
  { w with
    lockout := lockout
    failures := fun ip => if (w.lockout ip).isSome ∧ (lockout ip).isNone then 0 else w.failures ip }

def step (w : World Ip) : Action Ip → Option (World Ip)
  | .tick d => some { w with now := w.now + d }
  | .arrive ip =>
    match lockedUntil w.lockout ip w.now with
    | (lockout, some t) => some { w.put lockout with answers := w.answers ++ [(ip, .tooManyAttempts (retryAfter t w.now))] }
    | (lockout, none) => some { w.put lockout with verifying := ip :: w.verifying }
  | .verify ip true =>
    if ip ∈ w.verifying then
      some { w with verifying := w.verifying.erase ip, verified := ip :: w.verified }
    else none
  | .verify ip false =>
    if ip ∈ w.verifying then
      some
        { w with
          verifying := w.verifying.erase ip
          failed := ip :: w.failed
          failures := Function.update w.failures ip (w.failures ip + 1) }
    else none
  | .recordFailure ip =>
    if ip ∈ w.failed then
      let recorded := Lockout.recordFailure w.lockout ip w.now
      some
        { w.put recorded.1 with
          failed := w.failed.erase ip
          answers := w.answers ++ [(ip, recorded.2.answer w.now)] }
    else none
  | .recordSuccess ip =>
    if ip ∈ w.verified then
      some
        { w.put (Function.update w.lockout ip none) with
          verified := w.verified.erase ip
          answers := w.answers ++ [(ip, .token)] }
    else none
  | .cleanup => some (w.put (Lockout.cleanup w.lockout w.now))

end World

/-- The failures that are recorded. -/
def attempts (lockout : Table Ip) (ip : Ip) : ℕ := (lockout ip).elim 0 LockoutRecord.failedAttempts

/-- The logins of an address that have passed the check and may fail, or have failed, without
a record of it. -/
def World.underWay (w : World Ip) (ip : Ip) : ℕ := w.verifying.count ip + w.failed.count ip

/-- A login passes the check only while what is recorded and what is under way leave room for it. -/
def Spaced (w : World Ip) : Action Ip → Prop
  | .arrive ip =>
    (lockedUntil w.lockout ip w.now).2 = none →
      attempts (lockedUntil w.lockout ip w.now).1 ip + w.underWay ip < maxFailedAttempts
  | _ => True

instance (w : World Ip) (a : Action Ip) : Decidable (Spaced w a) := by
  cases a <;> unfold Spaced <;> infer_instance

/-- No more than the limit fail in a window; and when so many have failed, and their outcomes are
recorded, the next login is refused for as long as the lockout lasts. -/
structure Bounded (w : World Ip) : Prop where
  failures : ∀ ip, w.failures ip ≤ maxFailedAttempts
  refused : ∀ ip, w.failures ip = maxFailedAttempts → ip ∉ w.failed →
    ∃ record t, w.lockout ip = some record ∧ record.lockedUntil = some t ∧
      (w.now < t → w.step (.arrive ip) =
        some { w with answers := w.answers ++ [(ip, .tooManyAttempts (retryAfter t w.now))] })

/-! ### The table -/

/-- Records are removed, and none is added or changed. -/
def Removes (before after : Table Ip) : Prop := ∀ ip, after ip = before ip ∨ after ip = none

theorem removes_update (lockout : Table Ip) (ip : Ip) : Removes lockout (Function.update lockout ip none) := by
  intro other
  by_cases hother : other = ip
  · rw [hother, Function.update_self]
    exact .inr rfl
  · rw [Function.update_of_ne hother]
    exact .inl rfl

omit [DecidableEq Ip] in
theorem removes_cleanup (lockout : Table Ip) (now : ℕ) : Removes lockout (cleanup lockout now) := by
  intro ip
  unfold cleanup
  rcases lockout ip with _ | record
  · exact .inl rfl
  · rw [Option.filter_some]
    split_ifs
    · exact .inl rfl
    · exact .inr rfl

/-- The look at the lockout: the address is locked, or its record allows a login or is removed. -/
theorem lockedUntil_cases (lockout : Table Ip) (ip : Ip) (now : ℕ) :
    (∃ record t, lockout ip = some record ∧ record.lockedUntil = some t ∧ now < t ∧
      lockedUntil lockout ip now = (lockout, some t)) ∨
    ∃ after, Removes lockout after ∧ lockedUntil lockout ip now = (after, none) ∧
      ∀ record, after ip = some record → record.lockedUntil = none := by
  unfold lockedUntil
  rcases hrecord : lockout ip with _ | record
  · refine .inr ⟨lockout, fun _ => .inl rfl, rfl, fun record h => ?_⟩
    rw [hrecord] at h
    cases h
  · dsimp only
    rcases hlocked : record.lockedUntil with _ | t
    · refine .inr ⟨lockout, fun _ => .inl rfl, rfl, fun record' h => ?_⟩
      rw [hrecord] at h
      cases h
      exact hlocked
    · dsimp only
      split_ifs with hnow
      · exact .inl ⟨record, t, rfl, hlocked, hnow, rfl⟩
      · refine .inr ⟨_, removes_update lockout ip, rfl, fun record' h => ?_⟩
        rw [Function.update_self] at h
        cases h

omit [DecidableEq Ip] in
theorem attempts_removes {before after : Table Ip} (h : Removes before after) (ip : Ip) :
    attempts after ip ≤ attempts before ip := by
  unfold attempts
  rcases h ip with hsame | hnone
  · exact Nat.le_of_eq (by rw [hsame])
  · rw [hnone]
    exact Nat.zero_le _

theorem recordFailure_other (lockout : Table Ip) (ip : Ip) (now : ℕ) {other : Ip} (h : other ≠ ip) :
    (recordFailure lockout ip now).1 other = lockout other := by
  unfold recordFailure
  dsimp only
  split_ifs <;> exact Function.update_of_ne h _ _

/-- The failure is counted, and the third one locks. -/
theorem recordFailure_self (lockout : Table Ip) (ip : Ip) (now : ℕ) :
    ∃ record, (recordFailure lockout ip now).1 ip = some record ∧ record.failedAttempts = attempts lockout ip + 1 ∧
      (maxFailedAttempts ≤ record.failedAttempts → record.lockedUntil.isSome) := by
  have hattempts : ((lockout ip).getD ⟨0, none⟩).failedAttempts = attempts lockout ip := by
    unfold attempts
    rcases lockout ip with _ | record <;> rfl
  unfold recordFailure
  dsimp only
  rw [hattempts]
  split_ifs with hlimit
  · exact ⟨_, Function.update_self _ _ _, rfl, fun _ => rfl⟩
  · exact ⟨_, Function.update_self _ _ _, rfl, fun h => absurd h hlimit⟩

theorem attempts_recordFailure (lockout : Table Ip) (ip other : Ip) (now : ℕ) :
    attempts (recordFailure lockout ip now).1 other = attempts lockout other + if other = ip then 1 else 0 := by
  by_cases hother : other = ip
  · subst hother
    obtain ⟨record, hrecord, hattempts, -⟩ := recordFailure_self lockout other now
    rw [attempts, hrecord, if_pos rfl]
    exact hattempts
  · rw [attempts, recordFailure_other lockout ip now hother, if_neg hother]
    rfl

/-! ### Invariants -/

section Invariants

variable {w w' : World Ip}

/-- What holds of every run. -/
structure CountsInv (w : World Ip) : Prop where
  locked : ∀ {ip record}, w.lockout ip = some record → maxFailedAttempts ≤ record.failedAttempts →
    record.lockedUntil.isSome
  counted : ∀ ip, w.failures ip ≤ attempts w.lockout ip + w.failed.count ip

/-- What holds where logins are spaced. -/
def BoundInv (w : World Ip) : Prop := ∀ ip, attempts w.lockout ip + w.underWay ip ≤ maxFailedAttempts

theorem countsInv_start : CountsInv (World.start : World Ip) := ⟨nofun, fun _ => Nat.zero_le _⟩

theorem boundInv_start : BoundInv (World.start : World Ip) := fun _ => Nat.zero_le _

theorem count_erase_add {l : List Ip} {ip : Ip} (h : ip ∈ l) (other : Ip) :
    (l.erase ip).count other + (if other = ip then 1 else 0) = l.count other := by
  by_cases hother : other = ip
  · have := List.count_pos_iff.mpr h
    rw [hother, List.count_erase_self, if_pos rfl]
    omega
  · rw [List.count_erase_of_ne hother, if_neg hother]
    rfl

theorem count_cons_add (l : List Ip) (ip other : Ip) :
    (ip :: l).count other = l.count other + if other = ip then 1 else 0 := by
  by_cases hother : other = ip
  · rw [hother, List.count_cons_self, if_pos rfl]
  · rw [List.count_cons_of_ne (Ne.symm hother), if_neg hother]
    rfl

/-- Where records are only removed, the failures of a window are still counted. -/
theorem CountsInv.removes (h : CountsInv w) {lockout : Table Ip} (hremoves : Removes w.lockout lockout) :
    CountsInv (w.put lockout) where
  locked {ip record} hrecord := by
    have hrecord : lockout ip = some record := hrecord
    rcases hremoves ip with hsame | hnone
    · exact h.locked (hsame.symm.trans hrecord)
    · rw [hnone] at hrecord
      cases hrecord
  counted ip := by
    show (if (w.lockout ip).isSome ∧ (lockout ip).isNone then 0 else w.failures ip) ≤ attempts lockout ip + w.failed.count ip
    split_ifs with hgone
    · exact Nat.zero_le _
    · have hsame : lockout ip = w.lockout ip := by
        rcases hremoves ip with hsame | hnone
        · exact hsame
        · rcases hold : w.lockout ip with _ | record
          · exact hnone
          · rw [hold, hnone] at hgone
            exact absurd ⟨rfl, rfl⟩ hgone
      have := h.counted ip
      rw [attempts] at this ⊢
      rwa [hsame]

theorem CountsInv.recordFailure (h : CountsInv w) {ip : Ip} (hfailed : ip ∈ w.failed) :
    CountsInv { w.put (recordFailure w.lockout ip w.now).1 with failed := w.failed.erase ip } where
  locked {other record} hrecord hlimit := by
    have hrecord : (Lockout.recordFailure w.lockout ip w.now).1 other = some record := hrecord
    by_cases hother : other = ip
    · subst hother
      obtain ⟨record', hrecord', -, hlocks⟩ := recordFailure_self w.lockout other w.now
      rw [hrecord'] at hrecord
      cases hrecord
      exact hlocks hlimit
    · rw [recordFailure_other w.lockout ip w.now hother] at hrecord
      exact h.locked hrecord hlimit
  counted other := by
    show (if (w.lockout other).isSome ∧ ((Lockout.recordFailure w.lockout ip w.now).1 other).isNone then 0
      else w.failures other) ≤ attempts (Lockout.recordFailure w.lockout ip w.now).1 other + (w.failed.erase ip).count other
    have hcounted := h.counted other
    have herase := count_erase_add hfailed other
    rw [attempts_recordFailure]
    split_ifs at herase ⊢ <;> omega

/-- **One step keeps the failures counted.** -/
theorem countsInv_step {a : Action Ip} (h : CountsInv w) (hstep : w.step a = some w') : CountsInv w' := by
  cases a with
  | tick d =>
    cases hstep
    exact ⟨h.locked, h.counted⟩
  | arrive ip =>
    unfold World.step at hstep
    dsimp only at hstep
    rcases lockedUntil_cases w.lockout ip w.now with ⟨record, t, -, -, -, hlocked⟩ | ⟨after, hremoves, hpasses, -⟩
    · rw [hlocked] at hstep
      cases hstep
      have hput := @CountsInv.removes _ _ w h w.lockout fun _ => .inl rfl
      exact ⟨hput.locked, hput.counted⟩
    · rw [hpasses] at hstep
      cases hstep
      exact ⟨(h.removes hremoves).locked, (h.removes hremoves).counted⟩
  | verify ip ok =>
    cases ok with
    | true =>
      simp only [World.step, Runs.guarded] at hstep
      obtain ⟨-, rfl⟩ := hstep
      exact ⟨h.locked, h.counted⟩
    | false =>
      simp only [World.step, Runs.guarded] at hstep
      obtain ⟨-, rfl⟩ := hstep
      refine ⟨h.locked, fun other => ?_⟩
      have hcounted := h.counted other
      show Function.update w.failures ip (w.failures ip + 1) other ≤ attempts w.lockout other + (ip :: w.failed).count other
      rw [count_cons_add]
      by_cases hother : other = ip
      · subst hother
        rw [Function.update_self, if_pos rfl]
        omega
      · rw [Function.update_of_ne hother, if_neg hother]
        exact hcounted
  | recordFailure ip =>
    simp only [World.step, Runs.guarded] at hstep
    obtain ⟨hfailed, rfl⟩ := hstep
    exact ⟨(h.recordFailure hfailed).locked, (h.recordFailure hfailed).counted⟩
  | recordSuccess ip =>
    simp only [World.step, Runs.guarded] at hstep
    obtain ⟨-, rfl⟩ := hstep
    have hput := h.removes (removes_update w.lockout ip)
    exact ⟨hput.locked, hput.counted⟩
  | cleanup =>
    cases hstep
    exact h.removes (removes_cleanup w.lockout w.now)

/-- **One spaced step keeps what is recorded and under way within the limit.** -/
theorem boundInv_step {a : Action Ip} (h : BoundInv w) (hspaced : Spaced w a) (hstep : w.step a = some w') :
    BoundInv w' := by
  intro other
  have hbound := h other
  unfold World.underWay at hbound ⊢
  cases a with
  | tick d =>
    cases hstep
    exact hbound
  | arrive ip =>
    unfold World.step at hstep
    dsimp only at hstep
    rcases lockedUntil_cases w.lockout ip w.now with ⟨record, t, -, -, -, hlocked⟩ | ⟨after, hremoves, hpasses, -⟩
    · rw [hlocked] at hstep
      cases hstep
      exact hbound
    · unfold Spaced World.underWay at hspaced
      dsimp only at hspaced
      rw [hpasses] at hstep hspaced
      cases hstep
      have hroom := hspaced rfl
      have hless := attempts_removes hremoves other
      show attempts after other + ((ip :: w.verifying).count other + w.failed.count other) ≤ maxFailedAttempts
      rw [count_cons_add]
      by_cases hother : other = ip
      · subst hother
        rw [if_pos rfl]
        dsimp only at hroom
        omega
      · rw [if_neg hother]
        omega
  | verify ip ok =>
    cases ok with
    | true =>
      simp only [World.step, Runs.guarded] at hstep
      obtain ⟨hmem, rfl⟩ := hstep
      have herase := count_erase_add hmem other
      dsimp only
      omega
    | false =>
      simp only [World.step, Runs.guarded] at hstep
      obtain ⟨hmem, rfl⟩ := hstep
      have herase := count_erase_add hmem other
      dsimp only
      rw [count_cons_add]
      omega
  | recordFailure ip =>
    simp only [World.step, Runs.guarded] at hstep
    obtain ⟨hmem, rfl⟩ := hstep
    have herase := count_erase_add hmem other
    show attempts (Lockout.recordFailure w.lockout ip w.now).1 other +
      (w.verifying.count other + (w.failed.erase ip).count other) ≤ maxFailedAttempts
    rw [attempts_recordFailure]
    omega
  | recordSuccess ip =>
    simp only [World.step, Runs.guarded] at hstep
    obtain ⟨-, rfl⟩ := hstep
    have hless := attempts_removes (removes_update w.lockout ip) other
    show attempts (Function.update w.lockout ip none) other + (w.verifying.count other + w.failed.count other) ≤ _
    omega
  | cleanup =>
    cases hstep
    have hless := attempts_removes (removes_cleanup w.lockout w.now) other
    show attempts (Lockout.cleanup w.lockout w.now) other + (w.verifying.count other + w.failed.count other) ≤ _
    omega

/-- A login that is alone leaves room: its address is not locked, so what is recorded is below the limit. -/
theorem spaced_of_alone (h : CountsInv w) {ip : Ip} (halone : w.underWay ip = 0) : Spaced w (.arrive ip) := by
  intro hpass
  rcases lockedUntil_cases w.lockout ip w.now with ⟨record, t, -, -, -, hlocked⟩ | ⟨after, hremoves, hpasses, hfree⟩
  · rw [hlocked] at hpass
    cases hpass
  · rw [hpasses, halone, Nat.add_zero]
    show attempts after ip < maxFailedAttempts
    unfold attempts
    rcases hrecord : after ip with _ | record
    · decide
    · by_contra hlimit
      have hlocked := (h.removes hremoves).locked hrecord (Nat.not_lt.mp hlimit)
      rw [hfree record hrecord] at hlocked
      cases hlocked

omit [DecidableEq Ip] in
theorem put_self (w : World Ip) : w.put w.lockout = w := by
  have hfailures : (fun ip => if (w.lockout ip).isSome ∧ (w.lockout ip).isNone then 0 else w.failures ip) = w.failures := by
    funext ip
    rcases w.lockout ip with _ | record <;> simp
  unfold World.put
  rw [hfailures]

theorem bounded_of_inv (h : CountsInv w) (hbound : BoundInv w) : Bounded w where
  failures ip := by
    have hcounted := h.counted ip
    have hroom := hbound ip
    unfold World.underWay at hroom
    omega
  refused ip hmax hrecorded := by
    have hcounted := h.counted ip
    rw [List.count_eq_zero_of_not_mem hrecorded, hmax] at hcounted
    unfold attempts at hcounted
    rcases hrecord : w.lockout ip with _ | record
    · rw [hrecord] at hcounted
      exact absurd hcounted (by decide)
    · rw [hrecord] at hcounted
      obtain ⟨t, ht⟩ := Option.isSome_iff_exists.mp (h.locked hrecord hcounted)
      refine ⟨record, t, rfl, ht, fun hnow => ?_⟩
      have hlocked : lockedUntil w.lockout ip w.now = (w.lockout, some t) := by
        unfold lockedUntil
        rw [hrecord]
        dsimp only
        rw [ht]
        dsimp only
        rw [if_pos hnow]
      unfold World.step
      dsimp only
      rw [hlocked]
      dsimp only
      rw [put_self]

end Invariants

/-- **At most three passwords are tried in vain in a window**, where every login passes its check
only while what is recorded and the logins of its address under way leave room for it. -/
theorem failures_bounded (as : List (Action Ip)) {w : World Ip} (hrun : Runs.run World.step World.start as = some w)
    (hspaced : Runs.Meets World.step Spaced World.start as) : Bounded w := by
  have hinv : CountsInv w ∧ BoundInv w :=
    Runs.run_invariant_of_meets (I := fun w => CountsInv w ∧ BoundInv w)
      (fun ⟨hcounts, hbound⟩ hspaced hstep => ⟨countsInv_step hcounts hstep, boundInv_step hbound hspaced hstep⟩)
      hrun hspaced ⟨countsInv_start, boundInv_start⟩
  exact bounded_of_inv hinv.1 hinv.2

end Code

/-- Three logins at once, and one after their failures. -/
def lockedOut : List (Action ℕ) := [
  .arrive 0, .arrive 0, .arrive 0, .verify 0 false, .verify 0 false, .recordFailure 0, .verify 0 false,
  .recordFailure 0, .recordFailure 0, .tick (10 ^ 9), .arrive 0]

theorem failures_bounded_locked : ∃ w, Runs.run World.step World.start lockedOut = some w ∧ w.failures 0 = 3 ∧
    w.answers.getLast? = some (0, .tooManyAttempts 899) ∧ Bounded w := by
  have hrun : (Runs.run World.step World.start lockedOut).any
      (fun w => decide (w.failures 0 = 3 ∧ w.answers.getLast? = some (0, .tooManyAttempts 899))) = true := by
    decide +kernel
  obtain ⟨w, hw, hend⟩ := (Option.any_eq_true _ _).mp hrun
  obtain ⟨hfailures, hanswer⟩ := of_decide_eq_true hend
  exact ⟨w, hw, hfailures, hanswer, failures_bounded lockedOut hw (by decide +kernel)⟩

/-- Four logins pass the check before a failure is recorded. -/
def overlapping : List (Action ℕ) := [
  .arrive 0, .arrive 0, .arrive 0, .arrive 0, .verify 0 false, .verify 0 false, .verify 0 false, .verify 0 false]

/-- Four passwords are tried in vain. -/
theorem overlapping_logins_exceed : ∃ w, Runs.run World.step World.start overlapping = some w ∧ w.failures 0 = 4 ∧
    ¬ Bounded w := by
  have hrun : (Runs.run World.step World.start overlapping).any (fun w => decide (w.failures 0 = 4)) = true := by
    decide +kernel
  obtain ⟨w, hw, hend⟩ := (Option.any_eq_true _ _).mp hrun
  have hfour := of_decide_eq_true hend
  refine ⟨w, hw, hfour, fun hbounded => ?_⟩
  have hle := hbounded.failures 0
  rw [hfour] at hle
  exact absurd hle (by decide)

end Lockout
end Http
end OpenRelay
