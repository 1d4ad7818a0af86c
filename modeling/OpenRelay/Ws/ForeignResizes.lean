/-
# Sizes that other clients set

The handler of an attachment subscribes to the sizes that its session announces, and
passes on to its client those that others asked for (`session/resize.rs`,
`daemon/rpc_attach.rs`). It tells its own by the size alone: it remembers the last one
that it asked for, before it asks, and drops the first announcement of that size.

A size that the terminal has already is not announced, so the mark stays and takes a
later announcement, of another client (`foreign_resize_swallowed`). Where the first
announcement that is its own or has the marked size is always both, what is passed on
are the sizes of the others, in order (`foreign_reported`).

Key theorems: `served_announced`, `subInv_step`.
-/
import OpenRelay.Ws.AttachSource

namespace OpenRelay
namespace Ws
namespace ForeignResizes

open Session.Attachments (AttachKind AttachRole)
open Session.Control (Runtime Served SessionError serve)
open Source (ResizeSubscriber gated)

/-! ### The code -/

/-- What is sent to the subscribers: a size that is pushed onto the history is announced. -/
def announced (rt rt' : Runtime) : List (ℕ × ℕ) :=
  (rt'.resizeHistory.drop rt.resizeHistory.length).map Prod.snd

/-- A size in the channel, and whether the handler's client asked for it. -/
structure Announcement where
  own : Bool
  size : ℕ × ℕ
  deriving DecidableEq, Repr

/-- Where a client's loop is. -/
inductive Phase where
  | idle
  /-- The request is marked as sent, and the call is under way. -/
  | asked (rows cols : ℕ)
  /-- The loop has ended. -/
  | left
  deriving DecidableEq, Repr

/-- A session and one client, with the sizes that are on their way. -/
structure World where
  served : Served
  sub : ResizeSubscriber
  /-- What is announced and not received yet. -/
  queue : List Announcement
  phase : Phase
  /-- The sizes that others have set, since the subscription. -/
  foreign : List (ℕ × ℕ)
  /-- What `recv_foreign` has returned. -/
  returned : List (ℕ × ℕ)

/-- A client that has just subscribed. -/
def World.start (served : Served) (sub : ResizeSubscriber) : World := ⟨served, sub, [], .idle, [], []⟩

/-- The session goes on, and what it announces is sent. -/
def World.announce (w : World) (own : Bool) (served : Served) : World :=
  let sizes := announced w.served.rt served.rt
  { w with
    served := served, queue := w.queue ++ sizes.map (⟨own, ·⟩), foreign := w.foreign ++ if own then [] else sizes }

/-- What may happen next. -/
inductive Action where
  /-- A call of another client, or what else happens to the session. -/
  | session (a : Session.Control.Action)
  /-- The client's request is taken. -/
  | ask (rows cols : ℕ)
  /-- The call for it; `found`: the runtime is. -/
  | answer (now : ℕ) (took found : Bool)
  | receive
  | leave

/-- One step beside the loop of the attachment's handler, or of it. -/
def World.step (id : ℕ) (w : World) : Action → Option World
  | .session a => (w.served.step a).map (w.announce false)
  | .ask rows cols =>
    if w.phase = .idle then some { w with sub := .markSent rows cols, phase := .asked rows cols } else none
  | .answer now took found =>
    match w.phase with
    | .asked rows cols =>
      if found then
        let (rt, result) := serve w.served.rt now took (.resize (some id) rows cols)
        let next := w.announce true { w.served with rt := rt }
        match result with
        | .ok _ => some { next with phase := .idle }
        | .error e => some (if gated e then { next with sub := .markSent 0 0, phase := .idle } else { next with phase := .left })
      else some { w with phase := .left }
    | _ => none
  | .receive =>
    match w.phase, w.queue with
    | .idle, b :: queue =>
      let (sub, size) := w.sub.recvForeign b.size.1 b.size.2
      some { w with sub := sub, queue := queue, returned := w.returned ++ size.toList }
    | _, _ => none
  | .leave => some { w with phase := .left }

/-- What was returned, and then what the others have in the channel, is what they set. -/
def Reported (w : World) : Prop :=
  w.returned ++ (w.queue.filter fun b => !b.own).map (·.size) = w.foreign

/-! ### When the mark tells right -/

/-- The size that a call would give the terminal. -/
def resizing (rt : Runtime) : Session.Control.Request → Option (ℕ × ℕ)
  | .register _ .controller viewport => viewport
  | .resize none rows cols => some (rows, cols)
  | .resize (some id) rows cols =>
    match rt.checkControl id with
    | .ok () => some (rows, cols)
    | .error _ => none
  | .register _ .observer _ | .detach _ | .input _ _ => none

/-- The terminal takes the size, and has another one. -/
def changes (rt : Runtime) (took : Bool) (size : ℕ × ℕ) : Bool :=
  0 < size.1 ∧ 0 < size.2 ∧ rt.ptySize ≠ some size ∧ took = true

/-- The size that a call gives the terminal anew. -/
def changesTo (rt : Runtime) (took : Bool) (req : Session.Control.Request) : Option (ℕ × ℕ) :=
  (resizing rt req).filter (changes rt took)

/-- The same of whatever happens to the session. -/
def sets (rt : Runtime) : Session.Control.Action → Option (ℕ × ℕ)
  | .request req _ took => changesTo rt took req
  | .written | .closeWriter | .output _ => none

/-- The first announcement that is the client's own, or has the marked size, is both. -/
def Marked (mark : Option (ℕ × ℕ)) (queue : List Announcement) : Prop :=
  ∀ b ∈ queue.find? fun b => b.own || mark = some b.size, b.own = true ∧ mark = some b.size

/-- The client's call is made when it leaves no own announcement without its mark. -/
def Answerable (id : ℕ) (w : World) (took : Bool) (size : ℕ × ℕ) : Prop :=
  match w.served.rt.checkControl id with
  | .error _ => ∀ b ∈ w.queue, b.own = false
  | .ok () =>
    if changes w.served.rt took size then ∀ b ∈ w.queue, b.own = false ∧ b.size ≠ size
    else 0 < size.1 ∧ 0 < size.2 ∧ w.served.rt.ptySize = some size → Marked (some size) w.queue

/-- No other client sets the size that is marked, unless an own announcement of it is under way. -/
def Clear (id : ℕ) (w : World) : Action → Prop
  | .session a =>
    w.phase = .idle → ∀ size ∈ sets w.served.rt a, w.sub.lastSelfResize = some size → ∃ b ∈ w.queue, b.own = true
  | .answer _ took true =>
    match w.phase with
    | .asked rows cols => Answerable id w took (rows, cols)
    | _ => True
  | _ => True

instance (mark : Option (ℕ × ℕ)) (queue : List Announcement) : Decidable (Marked mark queue) := by
  unfold Marked
  infer_instance

instance (id : ℕ) (w : World) (took : Bool) (size : ℕ × ℕ) : Decidable (Answerable id w took size) := by
  unfold Answerable
  split <;> infer_instance

instance (id : ℕ) (w : World) (a : Action) : Decidable (Clear id w a) := by
  unfold Clear
  split
  · infer_instance
  · split <;> infer_instance
  · infer_instance

/-! ### What is announced -/

section Announced

variable (rt : Runtime)

theorem announced_self : announced rt rt = [] := by
  rw [announced, List.drop_length]
  rfl

/-- A size is announced where the terminal is given it anew. -/
theorem announced_resizePty {base : Runtime} (hhistory : base.resizeHistory = rt.resizeHistory)
    (hsize : base.ptySize = rt.ptySize) (rows cols : ℕ) (took : Bool) :
    announced rt (base.resizePty rows cols took).1 = ((some (rows, cols)).filter (changes rt took)).toList := by
  unfold Runtime.resizePty
  rw [hsize]
  split_ifs with hzero hsame htook
  · have hchanges : changes rt took (rows, cols) = false := by
      simp only [changes, decide_eq_false_iff_not]
      omega
    rw [announced, hhistory, List.drop_length, Option.filter_some, hchanges]
    rfl
  · have hchanges : changes rt took (rows, cols) = false := by simp [changes, hsame]
    rw [announced, hhistory, List.drop_length, Option.filter_some, hchanges]
    rfl
  · have hchanges : changes rt took (rows, cols) = true := by
      have hpos : 0 < rows ∧ 0 < cols := by omega
      simpa [changes, hsame, htook] using hpos
    rw [announced, hhistory, List.drop_left, Option.filter_some, hchanges]
    rfl
  · have hchanges : changes rt took (rows, cols) = false := by simp [changes, htook]
    rw [announced, hhistory, List.drop_length, Option.filter_some, hchanges]
    rfl

/-- It succeeds where the terminal has the size in the end. -/
theorem resizePty_ok (rows cols : ℕ) (took : Bool) :
    (rt.resizePty rows cols took).2 = true ↔
      changes rt took (rows, cols) = true ∨ 0 < rows ∧ 0 < cols ∧ rt.ptySize = some (rows, cols) := by
  unfold Runtime.resizePty
  split_ifs with hzero hsame htook
  · have hpos : ¬ (0 < rows ∧ 0 < cols) := by omega
    refine ⟨nofun, ?_⟩
    rintro (hchanges | ⟨hrows, hcols, -⟩)
    · obtain ⟨hrows, hcols, -⟩ := of_decide_eq_true hchanges
      exact absurd ⟨hrows, hcols⟩ hpos
    · exact absurd ⟨hrows, hcols⟩ hpos
  · have hpos : 0 < rows ∧ 0 < cols := by omega
    simp [changes, hsame, hpos]
  · have hpos : 0 < rows ∧ 0 < cols := by omega
    simp [changes, hsame, htook, hpos]
  · simp [changes, hsame, htook]

theorem announced_attachResize (attachmentId : Option ℕ) (rows cols now : ℕ) (took : Bool) :
    announced rt (rt.attachResize attachmentId rows cols now took).1 =
      (changesTo rt took (.resize attachmentId rows cols)).toList := by
  unfold Runtime.attachResize changesTo resizing
  rcases attachmentId with _ | id
  · exact announced_resizePty rt (by rfl) (by rfl) rows cols took
  · dsimp only
    rcases rt.checkControl id with e | _
    · exact announced_self rt
    · exact announced_resizePty rt (by rfl) (by rfl) rows cols took

theorem announced_registerAttachment (kind : AttachKind) (role : AttachRole) (viewport : Option (ℕ × ℕ)) (now : ℕ)
    (took : Bool) : announced rt (rt.registerAttachment kind role viewport now took).1 =
      (changesTo rt took (.register kind role viewport)).toList := by
  unfold Runtime.registerAttachment changesTo
  cases role with
  | observer => exact announced_self rt
  | controller =>
    rcases viewport with _ | ⟨rows, cols⟩
    · exact announced_self rt
    · dsimp only [resizing]
      split_ifs with hpos
      · exact announced_resizePty rt (by rfl) (by rfl) rows cols took
      · have hchanges : changes rt took (rows, cols) = false := by
          simp only [changes, decide_eq_false_iff_not]
          exact fun h => hpos ⟨h.1, h.2.1⟩
        rw [Option.filter_some, hchanges]
        exact announced_self rt

theorem attachInput_history {attachmentId : Option ℕ} {data : Bytes} {now : ℕ} {rt' : Runtime}
    (h : rt.attachInput attachmentId data now = .ok rt') : rt'.resizeHistory = rt.resizeHistory := by
  have hqueued : ∀ rt', (do
      let queued ← rt.tryWriteInput data
      pure { queued.markAttachActivity now with lastInputAt := some now } : Except SessionError Runtime) = .ok rt' →
      rt'.resizeHistory = rt.resizeHistory := by
    intro rt' h
    unfold Runtime.tryWriteInput at h
    split_ifs at h <;> cases h
    rfl
  unfold Runtime.attachInput Runtime.attachInputAction at h
  rcases attachmentId with _ | id
  · exact hqueued rt' h
  · dsimp only at h
    rcases hcheck : rt.checkControl id with e | _
    · rw [hcheck] at h
      cases h
    · rw [hcheck] at h
      exact hqueued rt' h

/-- **A call announces the size that it gives the terminal anew**, and nothing else. -/
theorem serve_announced (now : ℕ) (took : Bool) (req : Session.Control.Request) :
    announced rt (serve rt now took req).1 = (changesTo rt took req).toList := by
  cases req with
  | register kind role viewport => exact announced_registerAttachment rt kind role viewport now took
  | detach id => exact announced_self rt
  | input attachmentId data =>
    unfold serve
    dsimp only
    split
    · rename_i rt' hinput
      rw [announced, attachInput_history rt hinput, List.drop_length]
      rfl
    · exact announced_self rt
  | resize attachmentId rows cols => exact announced_attachResize rt attachmentId rows cols now took

/-- **What happens to a session is announced** where it gives the terminal a size anew. -/
theorem served_announced {s t : Served} {a : Session.Control.Action} (h : s.step a = some t) :
    announced s.rt t.rt = (sets s.rt a).toList := by
  cases a with
  | request req now took =>
    have hrt : t.rt = (serve s.rt now took req).1 := by
      unfold Served.step at h
      cases req <;> cases h <;> rfl
    rw [hrt]
    exact serve_announced s.rt now took req
  | written | closeWriter | output =>
    cases h
    exact announced_self _

theorem pos_of_sets {a : Session.Control.Action} {size : ℕ × ℕ} (h : sets rt a = some size) : 0 < size.1 := by
  cases a with
  | request req now took =>
    obtain ⟨-, hchanges⟩ := Option.filter_eq_some_iff.mp h
    exact (of_decide_eq_true hchanges).1
  | written | closeWriter | output => cases h

/-- What the call for the client's own request comes to, and what it announces. -/
inductive Outcome (id : ℕ) (took : Bool) (size : ℕ × ℕ) : Except SessionError (Option ℕ) → List (ℕ × ℕ) → Prop
  | refused {e : SessionError} (hcontrol : rt.checkControl id = .error e) (hgated : gated e = true) :
    Outcome id took size (.error e) []
  | changed (hcontrol : rt.checkControl id = .ok ()) (hchanges : changes rt took size = true) :
    Outcome id took size (.ok none) [size]
  | same (hcontrol : rt.checkControl id = .ok ()) (hchanges : changes rt took size = false)
    (hsame : 0 < size.1 ∧ 0 < size.2 ∧ rt.ptySize = some size) : Outcome id took size (.ok none) []
  | failed : Outcome id took size (.error .evicted) []

theorem gated_of_checkControl {id : ℕ} {e : SessionError} (h : rt.checkControl id = .error e) : gated e = true := by
  unfold Runtime.checkControl at h
  split_ifs at h <;> cases h <;> rfl

theorem serve_outcome (id rows cols now : ℕ) (took : Bool) :
    Outcome rt id took (rows, cols) (serve rt now took (.resize (some id) rows cols)).2
      (announced rt (serve rt now took (.resize (some id) rows cols)).1) := by
  rw [serve_announced]
  unfold changesTo resizing serve Runtime.attachResize
  dsimp only
  rcases hcontrol : rt.checkControl id with e | ⟨⟩
  · exact .refused hcontrol (gated_of_checkControl rt hcontrol)
  · have hok := resizePty_ok
      (({ rt with attachments := rt.attachments.setViewport id rows cols } : Runtime).markAttachActivity now) rows cols took
    rw [Option.filter_some]
    dsimp only
    split_ifs with hresized hchanges hchanges
    · exact .changed hcontrol hchanges
    · refine .same hcontrol (eq_false_of_ne_true hchanges) ?_
      exact (hok.mp hresized).resolve_left hchanges
    · exact absurd (hok.mpr (.inl hchanges)) hresized
    · exact .failed

end Announced

/-! ### The invariant -/

theorem reported_announce {w : World} (h : Reported w) (own : Bool) (served : Served) : Reported (w.announce own served) := by
  unfold Reported World.announce at *
  dsimp only
  rw [← h, List.filter_append, List.map_append, List.append_assoc]
  cases own <;> simp [List.filter_map, Function.comp_def]

section Marked

variable {mark : Option (ℕ × ℕ)} {size : ℕ × ℕ} {queue : List Announcement} {b : Announcement}

theorem marked_of_none (h : ∀ b ∈ queue, b.own = false ∧ mark ≠ some b.size) : Marked mark queue := by
  intro b hb
  have hmem := List.mem_of_find?_eq_some hb
  have hfound := List.find?_some hb
  simp only [(h b hmem).1, Bool.false_or, decide_eq_true_eq] at hfound
  exact absurd hfound (h b hmem).2

theorem marked_own (h : ∀ b ∈ queue, b.own = false ∧ b.size ≠ size) : Marked (some size) (queue ++ [⟨true, size⟩]) := by
  intro b hb
  have hnone : queue.find? (fun b => b.own || decide (some size = some b.size)) = none := by
    refine List.find?_eq_none.mpr fun b hmem => ?_
    simpa [(h b hmem).1] using fun heq => (h b hmem).2 heq.symm
  rw [List.find?_append, hnone, Option.none_or] at hb
  cases hb
  exact ⟨rfl, rfl⟩

theorem Marked.foreign (h : Marked mark queue) (hmark : mark = some size → ∃ b ∈ queue, b.own = true) :
    Marked mark (queue ++ [⟨false, size⟩]) := by
  intro b hb
  rw [List.find?_append] at hb
  rcases hfound : queue.find? (fun b => b.own || decide (mark = some b.size)) with _ | b'
  · rw [hfound, Option.none_or, List.find?_singleton] at hb
    split_ifs at hb with hsize
    · have heq : mark = some size := by simpa using hsize
      obtain ⟨c, hmem, hown⟩ := hmark heq
      have hnot := List.find?_eq_none.mp hfound c hmem
      rw [hown] at hnot
      exact absurd rfl hnot
    · cases hb
  · rw [hfound, Option.some_or] at hb
    cases hb
    exact h _ hfound

/-- What is received is the client's own if it has the marked size. -/
theorem Marked.head (h : Marked mark (b :: queue)) : b.own = true ↔ mark = some b.size := by
  by_cases hfound : (b.own || decide (mark = some b.size)) = true
  · have hboth := h b (List.find?_cons_of_pos hfound)
    exact iff_of_true hboth.1 hboth.2
  · simp only [Bool.or_eq_true, decide_eq_true_eq, not_or] at hfound
    exact iff_of_false hfound.1 hfound.2

theorem Marked.tail (h : Marked mark (b :: queue)) (hown : b.own = false) : Marked mark queue := by
  have hne : ¬ mark = some b.size := fun heq => by
    rw [h.head.mpr heq] at hown
    cases hown
  intro b' hb'
  refine h b' ?_
  rw [List.find?_cons_of_neg (by simp [hown, hne])]
  exact hb'

end Marked

/-- What holds of the channel beside the loop. -/
structure SubInv (w : World) : Prop where
  reported : Reported w
  positive : ∀ b ∈ w.queue, 0 < b.size.1
  single : w.queue.countP (·.own) ≤ 1
  idle : w.phase = .idle → Marked w.sub.lastSelfResize w.queue
  asked : ∀ {rows cols : ℕ}, w.phase = .asked rows cols → w.sub.lastSelfResize = some (rows, cols)

theorem subInv_start (served : Served) (sub : ResizeSubscriber) : SubInv (.start served sub) :=
  ⟨rfl, nofun, Nat.zero_le _, fun _ => nofun, nofun⟩

section Step

variable {id : ℕ} {w w' : World}

/-- Of what another client sets, and what sets nothing. -/
theorem SubInv.session {a : Session.Control.Action} {served : Served} (h : SubInv w) (hclear : Clear id w (.session a))
    (hstep : w.served.step a = some served) : SubInv (w.announce false served) := by
  have hsets := served_announced hstep
  have hreported := reported_announce h.reported false served
  rcases hsize : sets w.served.rt a with _ | size
  · have hannounce : w.announce false served = { w with served := served } := by
      rw [World.announce, hsets, hsize]
      simp
    rw [hannounce]
    exact ⟨h.reported, h.positive, h.single, h.idle, h.asked⟩
  · have hqueue : (w.announce false served).queue = w.queue ++ [⟨false, size⟩] := by
      rw [World.announce, hsets, hsize]
      rfl
    refine ⟨hreported, ?_, ?_, fun hphase => ?_, h.asked⟩
    · rw [hqueue]
      intro b hb
      rcases List.mem_append.mp hb with hb | hb
      · exact h.positive b hb
      · rw [List.mem_singleton.mp hb]
        exact pos_of_sets _ hsize
    · rw [hqueue, List.countP_append]
      exact h.single
    · rw [hqueue]
      exact (h.idle hphase).foreign (hclear hphase size (hsize ▸ rfl))

/-- Of the client's own request. -/
theorem SubInv.answer {rows cols : ℕ} {took : Bool} {answered : Runtime × Except SessionError (Option ℕ)} (h : SubInv w)
    (hmark : w.sub.lastSelfResize = some (rows, cols)) (hclear : Answerable id w took (rows, cols))
    (houtcome : Outcome w.served.rt id took (rows, cols) answered.2 (announced w.served.rt answered.1))
    (hstep : (match answered.2 with
      | .ok _ => some { w.announce true { w.served with rt := answered.1 } with phase := .idle }
      | .error e => some (if gated e then
          { w.announce true { w.served with rt := answered.1 } with sub := .markSent 0 0, phase := .idle }
          else { w.announce true { w.served with rt := answered.1 } with phase := .left })) = some w') : SubInv w' := by
  obtain ⟨rt, result⟩ := answered
  have hreported := reported_announce h.reported true { w.served with rt := rt }
  have hqueue : (w.announce true { w.served with rt := rt }).queue =
      w.queue ++ (announced w.served.rt rt).map (⟨true, ·⟩) := rfl
  have hsub : (w.announce true { w.served with rt := rt }).sub = w.sub := rfl
  dsimp only at houtcome
  generalize announced w.served.rt rt = sizes at houtcome hqueue
  generalize w.announce true { w.served with rt := rt } = next at hstep hqueue hsub hreported
  unfold Answerable at hclear
  cases houtcome with
  | @refused e hcontrol hgated =>
    dsimp only at hstep
    rw [hgated, if_pos rfl] at hstep
    rw [hcontrol] at hclear
    rw [List.map_nil, List.append_nil] at hqueue
    cases hstep
    refine ⟨hreported, hqueue ▸ h.positive, hqueue ▸ h.single, fun _ => ?_, nofun⟩
    rw [hqueue]
    refine marked_of_none fun b hb => ⟨hclear b hb, fun heq => ?_⟩
    have hpos := h.positive b hb
    rw [← Option.some.inj heq] at hpos
    exact absurd hpos (Nat.lt_irrefl 0)
  | changed hcontrol hchanges =>
    rw [hcontrol] at hclear
    dsimp only at hclear
    rw [if_pos hchanges] at hclear
    cases hstep
    refine ⟨hreported, ?_, ?_, fun _ => ?_, nofun⟩
    · intro b hb
      rw [hqueue] at hb
      rcases List.mem_append.mp hb with hb | hb
      · exact h.positive b hb
      · rw [List.mem_singleton.mp hb]
        exact (of_decide_eq_true hchanges).1
    · have hnone : w.queue.countP (·.own) = 0 :=
        List.countP_eq_zero.mpr fun b hb => by rw [(hclear b hb).1]; exact Bool.false_ne_true
      rw [hqueue, List.countP_append, hnone]
      exact Nat.le_refl 1
    · rw [hqueue, hsub, hmark]
      exact marked_own hclear
  | same hcontrol hchanges hsame =>
    rw [hcontrol] at hclear
    dsimp only at hclear
    rw [if_neg (by rw [hchanges]; exact Bool.false_ne_true)] at hclear
    rw [List.map_nil, List.append_nil] at hqueue
    cases hstep
    refine ⟨hreported, hqueue ▸ h.positive, hqueue ▸ h.single, fun _ => ?_, nofun⟩
    rw [hqueue, hsub, hmark]
    exact hclear hsame
  | failed =>
    rw [List.map_nil, List.append_nil] at hqueue
    cases hstep
    exact ⟨hreported, hqueue ▸ h.positive, hqueue ▸ h.single, nofun, nofun⟩

/-- Of an announcement that is received. -/
theorem SubInv.receive {b : Announcement} {queue : List Announcement} (h : SubInv w) (hphase : w.phase = .idle)
    (hqueue : w.queue = b :: queue) :
    SubInv { w with
      sub := (w.sub.recvForeign b.size.1 b.size.2).1, queue := queue,
      returned := w.returned ++ (w.sub.recvForeign b.size.1 b.size.2).2.toList } := by
  have hmarked := h.idle hphase
  have hreported := h.reported
  have hsingle := h.single
  have hpositive : ∀ b ∈ queue, 0 < b.size.1 := fun b hb => h.positive b (hqueue ▸ List.mem_cons_of_mem _ hb)
  have hidle : ∀ {rows cols}, ¬ w.phase = .asked rows cols := fun heq => by rw [hphase] at heq; cases heq
  rw [hqueue] at hmarked hsingle
  unfold Reported at hreported
  rw [hqueue] at hreported
  unfold ResizeSubscriber.recvForeign
  split_ifs with hmark
  · have hown := hmarked.head.mpr hmark
    rw [List.countP_cons_of_pos hown] at hsingle
    have hnone : ∀ b ∈ queue, b.own = false := fun b hb =>
      eq_false_of_ne_true (List.countP_eq_zero.mp (Nat.le_zero.mp (Nat.le_of_succ_le_succ hsingle)) b hb)
    refine ⟨?_, hpositive, Nat.le_of_succ_le hsingle, fun _ => marked_of_none fun b hb => ⟨hnone b hb, nofun⟩, fun heq => absurd heq hidle⟩
    unfold Reported
    rw [List.filter_cons_of_neg (by rw [hown]; exact Bool.false_ne_true)] at hreported
    dsimp only
    rw [Option.toList_none, List.append_nil]
    exact hreported
  · have hown : b.own = false := eq_false_of_ne_true fun hown => hmark (hmarked.head.mp hown)
    rw [List.countP_cons_of_neg (by rw [hown]; exact Bool.false_ne_true)] at hsingle
    refine ⟨?_, hpositive, hsingle, fun _ => hmarked.tail hown, fun heq => absurd heq hidle⟩
    unfold Reported
    rw [List.filter_cons_of_pos (by rw [hown]; rfl), List.map_cons] at hreported
    dsimp only
    rw [Option.toList_some, List.append_assoc]
    exact hreported

/-- **One clear step keeps the invariant.** -/
theorem subInv_step {a : Action} (h : SubInv w) (hclear : Clear id w a) (hstep : w.step id a = some w') : SubInv w' := by
  cases a with
  | session a =>
    obtain ⟨served, hserved, rfl⟩ := Option.map_eq_some_iff.mp hstep
    exact h.session hclear hserved
  | ask rows cols =>
    unfold World.step at hstep
    dsimp only at hstep
    split_ifs at hstep
    cases hstep
    exact ⟨h.reported, h.positive, h.single, nofun, fun hphase => by cases hphase; rfl⟩
  | answer now took found =>
    unfold World.step at hstep
    dsimp only at hstep
    split at hstep
    · rename_i rows cols hphase
      split_ifs at hstep with hfound
      · subst hfound
        unfold Clear at hclear
        rw [hphase] at hclear
        have houtcome := serve_outcome w.served.rt id rows cols now took
        generalize serve w.served.rt now took (.resize (some id) rows cols) = answered at hstep houtcome
        exact h.answer (h.asked hphase) hclear houtcome hstep
      · cases hstep
        exact ⟨h.reported, h.positive, h.single, nofun, nofun⟩
    · cases hstep
  | receive =>
    unfold World.step at hstep
    dsimp only at hstep
    split at hstep
    · rename_i b queue hphase hqueue
      cases hstep
      exact h.receive hphase hqueue
    · cases hstep
  | leave =>
    cases hstep
    exact ⟨h.reported, h.positive, h.single, nofun, nofun⟩

end Step

/-- **What is passed on are the sizes that other clients set**, in their order, where the first
announcement that is the client's own or has the marked size is always both. -/
theorem foreign_reported (id : ℕ) (served : Served) (sub : ResizeSubscriber) (as : List Action) {w : World}
    (hrun : Runs.run (World.step id) (.start served sub) as = some w)
    (hclear : Runs.Meets (World.step id) (Clear id) (.start served sub) as) : Reported w :=
  (Runs.run_invariant_of_meets (fun h hclear hstep => subInv_step h hclear hstep) hrun hclear
    (subInv_start served sub)).reported

/-- A controller is attached to a terminal of 24 rows and 80 columns. -/
def attached : Served :=
  ((Served.start (some (24, 80))).step (.request (.register .cli .controller none) 0 true)).getD (Served.start none)

/-- The client sets a size, and then another one does. -/
def inTurn : List Action := [
  .ask 30 90, .answer 1 true true, .session (.request (.resize none 24 80) 2 true), .receive, .receive,
  .ask 24 80, .answer 3 true true, .session (.request (.resize none 40 100) 4 true), .receive]

theorem foreign_reported_inTurn : ∃ w, Runs.run (World.step 1) (.start attached .new) inTurn = some w ∧
    w.returned = [(24, 80), (40, 100)] ∧ Reported w := by
  have hrun : (Runs.run (World.step 1) (.start attached .new) inTurn).any
      (fun w => decide (w.returned = [(24, 80), (40, 100)])) = true := by decide +kernel
  obtain ⟨w, hw, hend⟩ := (Option.any_eq_true _ _).mp hrun
  exact ⟨w, hw, of_decide_eq_true hend, foreign_reported 1 attached .new inTurn hw (by decide +kernel)⟩

/-- The client asks for the size that there is; another one sets a size, and then that one again. -/
def askedForSame : List Action := [
  .ask 24 80, .answer 1 true true, .session (.request (.resize none 30 90) 2 true), .receive,
  .session (.request (.resize none 24 80) 3 true), .receive]

/-- The last size is not passed on. -/
theorem foreign_resize_swallowed : ∃ w, Runs.run (World.step 1) (.start attached .new) askedForSame = some w ∧
    w.queue = [] ∧ w.returned = [(30, 90)] ∧ w.foreign = [(30, 90), (24, 80)] ∧ ¬ Reported w := by
  have hrun : (Runs.run (World.step 1) (.start attached .new) askedForSame).any (fun w =>
      decide (w.queue = [] ∧ w.returned = [(30, 90)] ∧ w.foreign = [(30, 90), (24, 80)])) = true := by
    decide +kernel
  obtain ⟨w, hw, hend⟩ := (Option.any_eq_true _ _).mp hrun
  obtain ⟨hqueue, hreturned, hforeign⟩ := of_decide_eq_true hend
  refine ⟨w, hw, hqueue, hreturned, hforeign, fun h => ?_⟩
  rw [Reported, hqueue, hreturned, hforeign] at h
  exact absurd h (by decide)

end ForeignResizes
end Ws
end OpenRelay
