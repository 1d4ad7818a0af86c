/-
# The generation of reads

The reader of a terminal counts its reads in a word that the threads which close the console look at
(`session/runtime.rs`, `record_pty_read` and `try_close_pty_generation`). A guard makes the count odd before
a chunk is processed and even behind it. A closer that saw an even count puts the closing marker in its
place, if it is still that count; then the reader leaves the word alone.

The reader's exchanges and the closers' may come in any order (`Machine.step`), and an exchange of the
reader may fail without a reason. Up to the marker the count is twice the reads, less one while one is
in progress (`Counted`), and that is why no chunk is in flight when the console is closed.

Key theorems: `counted_step`, `read_generation_fenced`.
-/
import Mathlib.Algebra.Group.Nat.Defs
import Mathlib.Tactic.SplitIfs
import OpenRelay.Lib.Runs

namespace OpenRelay
namespace Session
namespace ReadGeneration

/-! ### The code -/

def PTY_CONSOLE_CLOSING : ℕ := 2 ^ 64 - 1

/-- Where the reader is. It calls `record_pty_read` for a guard, and once more when it drops one that
is claimed. -/
inductive Reader where
  | idle
  | loading (dropping : Bool)
  | exchanging (dropping : Bool) (current : ℕ)
  | guarded (claimed : Bool)
  deriving DecidableEq, Repr

/-- What `record_pty_read` comes back to. -/
def Reader.recorded (dropping result : Bool) : Reader := if dropping then .idle else .guarded result

/-- A claimed read is in progress up to the exchange of its drop. -/
def Reader.inProgress : Reader → Bool
  | .idle => false
  | .loading dropping => dropping
  | .exchanging dropping _ => dropping
  | .guarded claimed => claimed

/-- What a closer has loaded, and the reads claimed by then. -/
structure Observation where
  observed : ℕ
  reads : ℕ
  deriving DecidableEq, Repr

/-- A close that succeeded: the reads claimed when its generation was loaded and when it was exchanged,
and whether one was in progress. -/
structure Close where
  loadedAt : ℕ
  exchangedAt : ℕ
  inProgress : Bool
  deriving DecidableEq, Repr

/-- The word, the reader, the closers, and what has been observed. -/
structure Machine where
  epoch : ℕ
  reader : Reader
  observations : List Observation
  /-- The reads claimed so far. -/
  reads : ℕ
  closes : List Close
  deriving DecidableEq, Repr

namespace Machine

/-- Nothing has been read. -/
def start : Machine := ⟨0, .idle, [], 0, []⟩

/-- What may happen next. -/
inductive Action where
  /-- The reader has a chunk, and makes a guard. -/
  | read
  | load
  /-- One turn of the loop; a weak exchange may fail on an equal value. -/
  | exchange (spurious : Bool)
  | drop
  /-- A closer loads the generation. -/
  | observe
  /-- A closer calls `try_close_pty_generation` on what it has loaded. -/
  | tryClose (i : ℕ)
  deriving DecidableEq, Repr

/-- A step on the word, where it can be taken. -/
def step (m : Machine) : Action → Option Machine
  | .read => if m.reader = .idle then some { m with reader := .loading false } else none
  | .load =>
    match m.reader with
    | .loading dropping => some { m with reader := .exchanging dropping m.epoch }
    | _ => none
  | .exchange spurious =>
    match m.reader with
    | .exchanging dropping current =>
      if current = PTY_CONSOLE_CLOSING then some { m with reader := .recorded dropping false }
      else if m.epoch = current ∧ spurious = false then
        some { m with
          epoch := current + 1
          reader := .recorded dropping true
          reads := if dropping then m.reads else m.reads + 1 }
      else some { m with reader := .exchanging dropping m.epoch }
    | _ => none
  | .drop =>
    match m.reader with
    | .guarded claimed => some { m with reader := if claimed then .loading true else .idle }
    | _ => none
  | .observe => some { m with observations := m.observations ++ [⟨m.epoch, m.reads⟩] }
  | .tryClose i =>
    match m.observations[i]? with
    | none => none
    | some o =>
      if o.observed ≠ PTY_CONSOLE_CLOSING ∧ o.observed % 2 = 0 ∧ m.epoch = o.observed then
        some { m with
          epoch := PTY_CONSOLE_CLOSING
          closes := m.closes ++ [⟨o.reads, m.reads, m.reader.inProgress⟩] }
      else some m

end Machine

/-! ### The count -/

/-- A count for that many reads: two for each, less one if the last is in progress. -/
def CountOf (reads : ℕ) (inProgress : Bool) (count : ℕ) : Prop := count + inProgress.toNat = 2 * reads

/-- The word is the count, or the marker that one close has put there while no read was in progress. -/
inductive Word (m : Machine) : Prop
  | count (hcount : CountOf m.reads m.reader.inProgress m.epoch) (hcloses : m.closes = [])
  | marker (hmarker : m.epoch = PTY_CONSOLE_CLOSING) (hquiet : m.reader.inProgress = false) (reads : ℕ)
      (hcloses : m.closes = [⟨reads, reads, false⟩])

/-- What holds of the word and of what has been observed. -/
structure Counted (m : Machine) : Prop where
  word : Word m
  observed : ∀ o ∈ m.observations, o.observed = PTY_CONSOLE_CLOSING ∨ ∃ inProgress, CountOf o.reads inProgress o.observed
  /-- A guard is dropped as it was claimed, before the marker. -/
  dropping : ∀ current, m.reader = .exchanging true current → current ≠ PTY_CONSOLE_CLOSING

section Steps

variable {m t : Machine}

/-- The count of fewer than `2 ^ 63` reads is not the marker. -/
theorem count_ne_marker {reads count : ℕ} {inProgress : Bool} (h : CountOf reads inProgress count) (hreads : reads < 2 ^ 63) :
    count ≠ PTY_CONSOLE_CLOSING := by
  unfold CountOf PTY_CONSOLE_CLOSING at *
  omega

/-- An even count has no read in progress. -/
theorem count_even {reads count : ℕ} {inProgress : Bool} (h : CountOf reads inProgress count) :
    count % 2 = 0 ↔ inProgress = false := by
  unfold CountOf at h
  cases inProgress with
  | true =>
    rw [Bool.toNat_true] at h
    exact iff_of_false (by omega) (by decide)
  | false =>
    rw [Bool.toNat_false] at h
    exact iff_of_true (by omega) rfl

/-- The reader goes on, and the count is what it was. -/
theorem Word.same (h : Word m) (hepoch : t.epoch = m.epoch) (hreads : t.reads = m.reads) (hcloses : t.closes = m.closes)
    (hprogress : t.reader.inProgress = m.reader.inProgress) : Word t := by
  cases h with
  | count hcount hnone =>
    refine .count ?_ (hcloses.trans hnone)
    rw [hepoch, hreads, hprogress]
    exact hcount
  | marker hmarker hquiet reads hone => exact .marker (hepoch.trans hmarker) (hprogress.trans hquiet) reads (hcloses.trans hone)

/-- While a read is in progress there is no marker. -/
theorem Word.of_inProgress (h : Word m) (hprogress : m.reader.inProgress = true) :
    CountOf m.reads true m.epoch ∧ m.closes = [] := by
  cases h with
  | count hcount hnone => exact ⟨hprogress ▸ hcount, hnone⟩
  | marker hmarker hquiet reads hone =>
    rw [hquiet] at hprogress
    cases hprogress

/-- Reads are only added. -/
theorem reads_mono {action : Machine.Action} (hstep : m.step action = some t) : m.reads ≤ t.reads := by
  cases action with
  | exchange spurious =>
    simp only [Machine.step] at hstep
    split at hstep
    · split_ifs at hstep <;> cases hstep <;> first | exact Nat.le_refl _ | exact Nat.le_succ _
    · cases hstep
  | observe =>
    cases hstep
    exact Nat.le_refl _
  | tryClose i =>
    simp only [Machine.step] at hstep
    split at hstep
    · cases hstep
    · split_ifs at hstep <;> cases hstep <;> exact Nat.le_refl _
  | read | load | drop =>
    simp only [Machine.step] at hstep
    split at hstep <;> cases hstep
    exact Nat.le_refl _

/-- A close that succeeded is not taken back. -/
theorem closes_mono {action : Machine.Action} (hstep : m.step action = some t) : m.closes <+: t.closes := by
  cases action with
  | exchange spurious =>
    simp only [Machine.step] at hstep
    split at hstep
    · split_ifs at hstep <;> cases hstep <;> exact List.prefix_rfl
    · cases hstep
  | observe =>
    cases hstep
    exact List.prefix_rfl
  | tryClose i =>
    simp only [Machine.step] at hstep
    split at hstep
    · cases hstep
    · split_ifs at hstep <;> cases hstep
      · exact List.prefix_append _ _
      · exact List.prefix_rfl
  | read | load | drop =>
    simp only [Machine.step] at hstep
    split at hstep <;> cases hstep
    exact List.prefix_rfl

/-- The reader's exchange succeeds: a read is claimed, or is over. -/
theorem counted_claim (h : Counted m) {dropping : Bool} (hreader : m.reader = .exchanging dropping m.epoch)
    (hopen : m.epoch ≠ PTY_CONSOLE_CLOSING) :
    Counted { m with
      epoch := m.epoch + 1
      reader := .recorded dropping true
      reads := if dropping then m.reads else m.reads + 1 } := by
  cases h.word with
  | marker hmarker _ _ _ => exact absurd hmarker hopen
  | count hcount hnone =>
    have hprogress : m.reader.inProgress = dropping := by rw [hreader]; rfl
    rw [hprogress] at hcount
    refine ⟨.count ?_ hnone, h.observed, ?_⟩
    · -- from odd to even when the guard is dropped, from even to odd when it is made
      unfold CountOf at *
      cases dropping with
      | true =>
        rw [Bool.toNat_true] at hcount
        show m.epoch + 1 + 0 = 2 * m.reads
        omega
      | false =>
        rw [Bool.toNat_false] at hcount
        show m.epoch + 1 + 1 = 2 * (m.reads + 1)
        omega
    · intro current hcurrent
      cases dropping <;> cases hcurrent

/-- A closer's exchange succeeds: no read is in progress, and none was claimed since it loaded. -/
theorem counted_close (h : Counted m) {o : Observation} (ho : o ∈ m.observations)
    (hopen : o.observed ≠ PTY_CONSOLE_CLOSING) (heven : o.observed % 2 = 0) (hepoch : m.epoch = o.observed) :
    Counted { m with
      epoch := PTY_CONSOLE_CLOSING
      closes := m.closes ++ [⟨o.reads, m.reads, m.reader.inProgress⟩] } := by
  cases h.word with
  | marker hmarker _ _ _ => exact absurd (hepoch.symm.trans hmarker) hopen
  | count hcount hnone =>
    have hquiet : m.reader.inProgress = false := (count_even hcount).mp (by rw [hepoch]; exact heven)
    have hreads : o.reads = m.reads := by
      obtain hmarker | ⟨inProgress, hthen⟩ := h.observed o ho
      · exact absurd hmarker hopen
      have hthenQuiet : inProgress = false := (count_even hthen).mp heven
      unfold CountOf at *
      rw [hquiet] at hcount
      rw [hthenQuiet] at hthen
      omega
    refine ⟨.marker rfl hquiet m.reads ?_, h.observed, h.dropping⟩
    show m.closes ++ _ = _
    rw [hnone, hreads, hquiet]
    rfl

/-- **A step** keeps the count. -/
theorem counted_step {action : Machine.Action} (h : Counted m) (hreads : t.reads < 2 ^ 63)
    (hstep : m.step action = some t) : Counted t := by
  have hbound : m.reads < 2 ^ 63 := Nat.lt_of_le_of_lt (reads_mono hstep) hreads
  have hclaimed : m.reader.inProgress = true → m.epoch ≠ PTY_CONSOLE_CLOSING := fun hprogress =>
    count_ne_marker (h.word.of_inProgress hprogress).1 hbound
  cases action with
  | read =>
    simp only [Machine.step] at hstep
    split_ifs at hstep with hidle
    cases hstep
    exact ⟨h.word.same rfl rfl rfl (by rw [hidle]; rfl), h.observed, nofun⟩
  | load =>
    simp only [Machine.step] at hstep
    split at hstep
    · rename_i dropping hreader
      cases hstep
      refine ⟨h.word.same rfl rfl rfl (by rw [hreader]; rfl), h.observed, fun current hcurrent => ?_⟩
      cases hcurrent
      exact hclaimed (by rw [hreader]; rfl)
    · cases hstep
  | exchange spurious =>
    simp only [Machine.step] at hstep
    split at hstep
    · rename_i dropping current hreader
      by_cases hclosing : current = PTY_CONSOLE_CLOSING
      · -- the marker: a guard that finds it was not claimed
        rw [if_pos hclosing] at hstep
        cases hstep
        cases dropping with
        | true => exact absurd hclosing (h.dropping current hreader)
        | false => exact ⟨h.word.same rfl rfl rfl (by rw [hreader]; rfl), h.observed, nofun⟩
      rw [if_neg hclosing] at hstep
      by_cases hequal : m.epoch = current ∧ spurious = false
      · rw [if_pos hequal] at hstep
        cases hstep
        obtain ⟨rfl, -⟩ := hequal
        exact counted_claim h hreader hclosing
      · rw [if_neg hequal] at hstep
        cases hstep
        refine ⟨h.word.same rfl rfl rfl (by rw [hreader]; rfl), h.observed, fun next hnext => ?_⟩
        cases hnext
        exact hclaimed (by rw [hreader]; rfl)
    · cases hstep
  | drop =>
    simp only [Machine.step] at hstep
    split at hstep
    · rename_i claimed hreader
      cases hstep
      refine ⟨h.word.same rfl rfl rfl ?_, h.observed, fun current hcurrent => ?_⟩
      · rw [hreader]
        cases claimed <;> rfl
      · cases claimed <;> cases hcurrent
    · cases hstep
  | observe =>
    cases hstep
    refine ⟨h.word.same rfl rfl rfl rfl, fun o ho => ?_, h.dropping⟩
    obtain ho | ho := List.mem_append.mp ho
    · exact h.observed o ho
    rw [List.mem_singleton] at ho
    subst ho
    cases h.word with
    | count hcount _ => exact .inr ⟨_, hcount⟩
    | marker hmarker _ _ _ => exact .inl hmarker
  | tryClose i =>
    simp only [Machine.step] at hstep
    split at hstep
    · cases hstep
    · rename_i o ho
      split_ifs at hstep with hclose
      · cases hstep
        exact counted_close h (List.mem_of_getElem? ho) hclose.1 hclose.2.1 hclose.2.2
      · cases hstep
        exact h

end Steps

/-! ### Runs -/

section Runs

variable {s t : Machine} {as bs : List Machine.Action}

theorem start_counted : Counted Machine.start := ⟨.count rfl rfl, nofun, nofun⟩

theorem reads_run (h : Runs.run Machine.step s as = some t) : s.reads ≤ t.reads :=
  Runs.run_invariant (I := fun m => s.reads ≤ m.reads) (fun hm hstep => Nat.le_trans hm (reads_mono hstep)) h (Nat.le_refl _)

theorem counted_run : ∀ {as : List Machine.Action} {s t : Machine}, Runs.run Machine.step s as = some t →
    t.reads < 2 ^ 63 → Counted s → Counted t
  | [], _, _, h, _, hs => by
    cases h
    exact hs
  | a :: as, s, t, h, hreads, hs => by
    obtain ⟨m, hm, ht⟩ := Runs.run_cons h
    exact counted_run ht hreads (counted_step hs (Nat.lt_of_le_of_lt (reads_run ht) hreads) hm)

theorem closes_run (h : Runs.run Machine.step s as = some t) : s.closes <+: t.closes :=
  Runs.run_invariant (I := fun m => s.closes <+: m.closes) (fun hm hstep => hm.trans (closes_mono hstep)) h List.prefix_rfl

/-- What the closers and the reader may rely on. -/
structure Fenced (m : Machine) : Prop where
  quiet : ∀ close ∈ m.closes, close.inProgress = false
  unread : ∀ close ∈ m.closes, close.loadedAt = close.exchangedAt
  once : m.closes.length ≤ 1
  marker : m.epoch = PTY_CONSOLE_CLOSING ↔ m.closes ≠ []
  parity : m.epoch ≠ PTY_CONSOLE_CLOSING → (m.epoch % 2 = 1 ↔ m.reader.inProgress = true)

theorem Counted.fenced {m : Machine} (h : Counted m) (hreads : m.reads < 2 ^ 63) : Fenced m := by
  cases h.word with
  | count hcount hnone =>
    have hne := count_ne_marker hcount hreads
    refine ⟨?_, ?_, ?_, ?_, fun _ => ?_⟩
    · rw [hnone]
      nofun
    · rw [hnone]
      nofun
    · rw [hnone]
      exact Nat.zero_le 1
    · exact iff_of_false hne (fun h => h hnone)
    · have heven := count_even hcount
      cases hprogress : m.reader.inProgress with
      | true =>
        rw [hprogress] at heven
        have hodd : ¬m.epoch % 2 = 0 := fun h => Bool.noConfusion (heven.mp h)
        exact iff_of_true (by omega) rfl
      | false =>
        have := heven.mpr hprogress
        exact iff_of_false (by omega) Bool.false_ne_true
  | marker hmarker hquiet reads hone =>
    refine ⟨?_, ?_, ?_, ?_, fun hne => absurd hmarker hne⟩
    · rw [hone]
      intro close hclose
      rw [List.mem_singleton.mp hclose]
    · rw [hone]
      intro close hclose
      rw [List.mem_singleton.mp hclose]
    · rw [hone]
      exact Nat.le_refl 1
    · rw [hone]
      exact iff_of_true hmarker (List.cons_ne_nil _ _)

/-- **The console is closed between two reads.** In every order of the steps of the reader and the
closers, the marker is put there while no read is in progress and by one close only, for whom no read was
claimed since it loaded the count. It stays. Before it the count is odd while a read is in progress. -/
theorem read_generation_fenced (hs : Runs.run Machine.step Machine.start as = some s)
    (ht : Runs.run Machine.step s bs = some t) (hreads : t.reads < 2 ^ 63) :
    Fenced t ∧ (s.epoch = PTY_CONSOLE_CLOSING → t.epoch = PTY_CONSOLE_CLOSING) := by
  have hbound : s.reads < 2 ^ 63 := Nat.lt_of_le_of_lt (reads_run ht) hreads
  have hcounted : Counted s := counted_run hs hbound start_counted
  have hfenced : Fenced t := (counted_run ht hreads hcounted).fenced hreads
  refine ⟨hfenced, fun hmarker => hfenced.marker.mpr fun hnone => ?_⟩
  have hgrown := closes_run ht
  rw [hnone, List.prefix_nil] at hgrown
  exact (hcounted.fenced hbound).marker.mp hmarker hgrown

/-- The run of a guard: closers that loaded the count before the read or in the middle of it fail, the one
that loaded it behind the read closes, and the next guard finds the marker. -/
def behindRead : List Machine.Action :=
  [.observe, .read, .load, .exchange true, .exchange false, .observe, .tryClose 0, .tryClose 1, .drop, .load,
    .exchange false, .observe, .tryClose 0, .tryClose 2]

theorem closed_behind_read :
    Fenced ⟨PTY_CONSOLE_CLOSING, .guarded false, [⟨0, 0⟩, ⟨1, 1⟩, ⟨2, 1⟩], 1, [⟨1, 1, false⟩]⟩ ∧
      ((⟨PTY_CONSOLE_CLOSING, .idle, [⟨0, 0⟩, ⟨1, 1⟩, ⟨2, 1⟩], 1, [⟨1, 1, false⟩]⟩ : Machine).epoch = PTY_CONSOLE_CLOSING →
        PTY_CONSOLE_CLOSING = PTY_CONSOLE_CLOSING) :=
  @read_generation_fenced _ _ behindRead [.tryClose 2, .read, .load, .exchange false] rfl rfl (by decide)

end Runs

end ReadGeneration
end Session
end OpenRelay
