/-
# What runs of a node connection show

In every run of `Federation/RpcRelay.lean`, with any number of calls and in any order
of steps: what a caller can get of `proxy_rpc` and `proxy_rpc_stream`, what the
secondary does for it, and how much the channels and the secondary's tasks hold.

Key theorems: `one_shot_result`, `request_executed_once`, `stream_results`,
`waiting_settled`, `late_unheard`, `stream_messages`, `connection_bounded`.
-/
import Mathlib.Data.List.Perm.Subperm
import OpenRelay.Federation.RpcRelay

namespace OpenRelay
namespace Federation
namespace RpcRelay

open RpcCall

variable {Id B R : Type} [DecidableEq Id] {codec : Codec B R} {node : String} {s t : Net Id B R} {id : Id}

/-! ### Calls -/

section Calls

variable {as : List (Action Id B R)} {c : Call B R}

/-- Numbers for bodies and responses; zero is a stream's last frame. -/
def numbers : Codec ℕ ℕ where
  request := .ok
  response := some
  error message := message.length
  isDone x := x == 0

/-- Where such a run ends. -/
def after (as : List (Action ℕ ℕ ℕ)) : Net ℕ ℕ ℕ := (Runs.run (Net.step numbers "n") Net.joined as).getD Net.joined

/-- A health request is answered. -/
def healthRun : List (Action ℕ ℕ ℕ) :=
  [.lookup 0 .oneShot ⟨.health, 5⟩, .insert 0, .send 0, .outgoing, .read, .execute 0 7, .reply 0, .sendReply, .incoming,
    .receive 0]

/-- An attach gets a frame and the last one, and sends a message. -/
def attachRun : List (Action ℕ ℕ ℕ) :=
  [.lookup 0 .stream ⟨.attachSubscribe, 5⟩, .insert 0, .send 0, .outgoing, .read, .message 0 ⟨.attachInput, 6⟩,
    .outgoing, .read, .forward, .write 0, .emit 0 3, .sendFrame, .incoming, .deliver, .receive 0]

/-- The connection is lost while a request is on its way. -/
def drainedRun : List (Action ℕ ℕ ℕ) := [.lookup 0 .oneShot ⟨.health, 5⟩, .insert 0, .send 0, .finish, .drain]

/-- A caller that had looked the node up comes when the map is drained. -/
def lateRun : List (Action ℕ ℕ ℕ) := [.lookup 0 .oneShot ⟨.health, 5⟩, .finish, .drain, .insert 0, .send 0]

/-- **One answer.** A `proxy_rpc` returns once, and a response that it returns is what the gateway makes of the
secondary's answer to its own request. -/
theorem one_shot_result (h : Run codec node as s) (hcall : s.calls id = some c) (hkind : c.kind = .oneShot) :
    c.results.length ≤ 1 ∧
      ∀ r, .ok r ∈ c.results → ∃ x, codec.response x = some r ∧ AnswerTo codec c.request (s.log id) x :=
  (run_inv h id).answered hcall hkind

theorem one_shot_result_health :
    ∃ x, numbers.response x = some 7 ∧ AnswerTo numbers ⟨.health, 5⟩ ((after healthRun).log 0) x := by
  have hrun : Run numbers "n" healthRun (after healthRun) := rfl
  have hcall : (after healthRun).calls 0 = some ⟨.oneShot, ⟨.health, 5⟩, .returned, [], [.ok 7], false⟩ := rfl
  exact (one_shot_result hrun hcall rfl).2 7 List.mem_cons_self

/-- **No request runs twice.** The secondary has one `ipc::send_request` exchange with its daemon at most for
a call, and only for what it supports. -/
theorem request_executed_once (h : Run codec node as s) (hcall : s.calls id = some c) :
    (s.log id).executed = [] ∨ ∃ req x, (s.log id).executed = [(req, x)] ∧ codec.request c.request = .ok req ∧
      isSupportedProxiedRpc req = true ∧ req.method ≠ .attachSubscribe :=
  (run_inv h id).executed hcall

theorem request_executed_once_health :
    ((after healthRun).log 0).executed = [] ∨
      ∃ req x, ((after healthRun).log 0).executed = [(req, x)] ∧ numbers.request ⟨.health, 5⟩ = .ok req ∧
        isSupportedProxiedRpc req = true ∧ req.method ≠ .attachSubscribe := by
  have hrun : Run numbers "n" healthRun (after healthRun) := rfl
  have hcall : (after healthRun).calls 0 = some ⟨.oneShot, ⟨.health, 5⟩, .returned, [], [.ok 7], false⟩ := rfl
  exact request_executed_once hrun hcall

/-- The answers that are on the way to the gateway. -/
def Net.coming (s : Net Id B R) (id : Id) : List (R × Bool) :=
  (s.view id).up ++ ((s.view id).replies.map (·, true) ++ (s.view id).frames)

/-- **A stream comes in order.** Its caller gets the frames from the first on, then at most the
error of the lost connection; as long as the entry is in the map, both loops run and the caller listens, none is
missing. -/
theorem stream_results (h : Run codec node as s) (hcall : s.calls id = some c) (hkind : c.kind = .stream) :
    (∃ oks : List R, (c.results = oks.map .ok ∨ c.results = oks.map .ok ++ [.error (.nodeNotConnected node)]) ∧
      oks <+: parsed codec (s.log id).emitted) ∧
    (∀ f ∈ (s.log id).emitted.dropLast, f.2 = false) ∧
    (s.relay.isEnded = false → s.secondary.isStopped = false → c.listening = true → s.pending id = some .stream →
      c.got ++ ((s.relay.held id).toList.map Prod.fst ++ parsed codec (s.coming id)).map .ok =
        (parsed codec (s.log id).emitted).map .ok) := by
  have hi := run_inv h id
  exact ⟨hi.stream_first hcall hkind, hi.done_last, fun hended _ hopen hp => hi.stream_whole hcall hended hopen hp⟩

theorem stream_results_attach :
    [Except.ok 3] ++ (parsed numbers ((after attachRun).coming 0)).map .ok =
      ((parsed numbers ((after attachRun).log 0).emitted).map .ok : List (Except Failure ℕ)) := by
  have hrun : Run numbers "n" attachRun (after attachRun) := rfl
  have hcall : (after attachRun).calls 0 = some ⟨.stream, ⟨.attachSubscribe, 5⟩, .waiting, [], [.ok 3], false⟩ := rfl
  exact (stream_results hrun hcall rfl).2.2 rfl rfl rfl rfl

/-- **No one waits in vain.** When the gateway has drained the map, a `proxy_rpc` that was in it has
its value; a sender is never dropped unused, so that branch of `proxy_rpc` is never taken. -/
theorem waiting_settled (h : Run codec node as s) :
    (∀ id c, s.calls id = some c → c.kind = .oneShot → c.phase = .waiting → s.relay.isDrained = true →
      c.late = false → ∃ x, c.mailbox = [x]) ∧
    ∀ id, s.step codec node (.disconnected id) = none := by
  refine ⟨fun id c hcall hkind hphase hdrained hlate => (run_inv h id).settled hcall hkind hphase hdrained hlate,
    fun id => ?_⟩
  rcases hstep : s.step codec node (.disconnected id) with _ | t
  · rfl
  · obtain ⟨c, hcall, hallowed, -⟩ := Net.caller_eq_some.mp hstep
    obtain ⟨hphase, hkind, hmail, hpending⟩ := of_decide_eq_true hallowed
    have hentry : s.pending id = some .oneShot := (run_inv h id).waits hcall hkind hphase hmail
    cases hpending.symm.trans hentry

theorem waiting_settled_drained :
    ∃ x, (after drainedRun).calls 0 = some ⟨.oneShot, ⟨.health, 5⟩, .waiting, [x], [], false⟩ := by
  have hrun : Run numbers "n" drainedRun (after drainedRun) := rfl
  have hcall : (after drainedRun).calls 0 =
      some ⟨.oneShot, ⟨.health, 5⟩, .waiting, [.error (.nodeNotConnected "n")], [], false⟩ := rfl
  obtain ⟨x, hx⟩ := (waiting_settled hrun).1 0 _ hcall rfl rfl rfl rfl
  exact ⟨x, by rw [hcall, ← hx]⟩

/-- **A late call** came into the map when it had been drained: nothing of it reaches the secondary,
and it has no response. -/
theorem late_unheard (h : Run codec node as s) (hcall : s.calls id = some c) (hlate : c.late = true) :
    s.tasks id = .none ∧ (s.log id).executed = [] ∧ (s.log id).written = [] ∧ ∀ r, .ok r ∉ c.got := by
  have hi := run_inv h id
  obtain ⟨htask, hexecuted, hgot⟩ := hi.unheard hcall hlate
  exact ⟨htask, hexecuted, (hi.writing.closed htask).2.2, hgot⟩

theorem late_unheard_late :
    (after lateRun).tasks 0 = .none ∧ ((after lateRun).log 0).executed = [] ∧ ((after lateRun).log 0).written = [] ∧
      ∀ r, .ok r ∉ Call.got (⟨.oneShot, ⟨.health, 5⟩, .waiting, [], [], true⟩ : Call ℕ ℕ) := by
  have hrun : Run numbers "n" lateRun (after lateRun) := rfl
  have hcall : (after lateRun).calls 0 = some ⟨.oneShot, ⟨.health, 5⟩, .waiting, [], [], true⟩ := rfl
  exact late_unheard hrun hcall rfl

/-- **A stream's messages** are written to the session in the order they were sent in, and only
those that may be relayed; none is missing as long as the secondary's loop and the stream's task are there. -/
theorem stream_messages (h : Run codec node as s) (id : Id) :
    (s.log id).written <+: (s.log id).sent.filterMap codec.relayable ∧
    (s.secondary.isStopped = false → (s.tasks id).live = true → ∀ inbox, s.streams id = some inbox →
      (s.log id).written ++ inbox ++
        ((s.secondary.forwarded id).toList ++ (messages (s.view id).asks).filterMap codec.relayable) =
          (s.log id).sent.filterMap codec.relayable) := by
  have hi := run_inv h id
  exact ⟨hi.writing.part, fun hrunning _ => hi.writing.whole hrunning⟩

theorem stream_messages_attach :
    ((after attachRun).log 0).written ++ [] ++ ([] ++ (messages ((after attachRun).view 0).asks).filterMap
      numbers.relayable) = ((after attachRun).log 0).sent.filterMap numbers.relayable := by
  have hrun : Run numbers "n" attachRun (after attachRun) := rfl
  exact (stream_messages hrun 0).2 rfl rfl [] rfl

end Calls

/-! ### Capacities -/

/-- The channels hold what they have places for. -/
structure Queues (s : Net Id B R) : Prop where
  outbox : s.outbox.length ≤ 64
  rpcTx : s.rpcTx.length ≤ 64
  streamFrameTx : s.streamFrameTx.length ≤ 256
  streams : ∀ i inbox, s.streams i = some inbox → inbox.length ≤ 64

/-- Only one stream's channel is another one. -/
theorem Queues.of_update (hq : Queues s) (id : Id) (inbox : Option (List (RpcRequest B)))
    (hinbox : ∀ l, inbox = some l → l.length ≤ 64) (hout : t.outbox.length ≤ 64) (hrpc : t.rpcTx.length ≤ 64)
    (hframes : t.streamFrameTx.length ≤ 256) (hstreams : t.streams = Function.update s.streams id inbox) :
    Queues t := by
  refine ⟨hout, hrpc, hframes, fun i l hl => ?_⟩
  rw [hstreams] at hl
  rcases eq_or_ne i id with rfl | hne
  · rw [Function.update_self] at hl
    exact hinbox l hl
  · rw [Function.update_of_ne hne] at hl
    exact hq.streams i l hl

/-- Of what the channels and tasks hold nothing has changed. -/
structure Rest (s t : Net Id B R) : Prop where
  outbox : t.outbox = s.outbox
  rpcTx : t.rpcTx = s.rpcTx
  streamFrameTx : t.streamFrameTx = s.streamFrameTx
  streams : t.streams = s.streams
  tasks : t.tasks = s.tasks
  relayTasks : t.relayTasks = s.relayTasks
  finished : t.finished = s.finished

theorem resolve_rest (s : Net Id B R) (id : Id) (r : R) : Rest s (s.resolve id r) := by
  unfold Net.resolve
  split <;> exact ⟨rfl, rfl, rfl, rfl, rfl, rfl, rfl⟩

omit [DecidableEq Id] in
theorem streamFrame_rest (s : Net Id B R) (id : Id) (r : R) : Rest s (s.streamFrame id r) := by
  unfold Net.streamFrame
  split <;> exact ⟨rfl, rfl, rfl, rfl, rfl, rfl, rfl⟩

/-- The gateway's loop reads a frame for its callers alone. -/
theorem incoming_rest (h : s.incoming codec = some t) : Rest s t := by
  unfold Net.incoming at h
  split at h
  · next id message rest _ _ =>
    have hconsume {u : Net Id B R} (hu : Rest (s.consume id message rest) u) : Rest s u :=
      ⟨hu.outbox, hu.rpcTx, hu.streamFrameTx, hu.streams, hu.tasks, hu.relayTasks, hu.finished⟩
    have hsame : Rest (s.consume id message rest) (s.consume id message rest) := ⟨rfl, rfl, rfl, rfl, rfl, rfl, rfl⟩
    cases message with
    | rpcResponse x =>
      cases hr : codec.response x <;> simp only [hr, Option.elim] at h <;> cases h
      · exact hconsume hsame
      · exact hconsume (resolve_rest _ id _)
    | rpcStreamFrame x done =>
      cases hr : codec.response x <;> simp only [hr, Option.elim] at h <;> cases h
      · exact hconsume hsame
      · cases done
        · exact hconsume (streamFrame_rest _ id _)
        · exact hconsume (resolve_rest _ id _)
  · cases h

theorem queues_step {a : Action Id B R} (hq : Queues s) (h : s.step codec node a = some t) : Queues t := by
  have htail {α : Type} {x : α} {l l' : List α} {n : ℕ} (hl : l = x :: l') (hn : l.length ≤ n) : l'.length ≤ n := by
    rw [hl] at hn
    exact Nat.le_of_succ_le hn
  cases a with
  | lookup id kind request =>
    simp only [Net.step, Runs.guarded] at h
    obtain ⟨-, rfl⟩ := h
    exact ⟨hq.outbox, hq.rpcTx, hq.streamFrameTx, hq.streams⟩
  | send id =>
    obtain ⟨c, -, -, ht⟩ := Net.caller_eq_some.mp h
    unfold Net.send at ht
    split_ifs at ht with hclosed hroom <;> cases ht
    · exact ⟨hq.outbox, hq.rpcTx, hq.streamFrameTx, hq.streams⟩
    · refine ⟨?_, hq.rpcTx, hq.streamFrameTx, hq.streams⟩
      rw [List.length_append]
      exact hroom
  | message id request =>
    obtain ⟨c, -, -, ht⟩ := Net.caller_eq_some.mp h
    rw [Option.ite_none_right_eq_some] at ht
    obtain ⟨⟨-, hroom⟩, ht⟩ := ht
    cases ht
    refine ⟨?_, hq.rpcTx, hq.streamFrameTx, hq.streams⟩
    rw [List.length_append]
    exact hroom
  | receive id =>
    obtain ⟨c, -, -, ht⟩ := Net.caller_eq_some.mp h
    unfold Net.receive at ht
    split at ht <;> cases ht
    exact ⟨hq.outbox, hq.rpcTx, hq.streamFrameTx, hq.streams⟩
  | insert id | disconnected id | expire id | removeExpired id | stopReading id | removePending id | drop id =>
    obtain ⟨c, -, -, ht⟩ := Net.caller_eq_some.mp h
    cases ht
    exact ⟨hq.outbox, hq.rpcTx, hq.streamFrameTx, hq.streams⟩
  | outgoing =>
    simp only [Net.step] at h
    split at h <;> cases h
    next hout => exact ⟨htail hout hq.outbox, hq.rpcTx, hq.streamFrameTx, hq.streams⟩
  | incoming =>
    have hrest := incoming_rest h
    exact ⟨hrest.outbox ▸ hq.outbox, hrest.rpcTx ▸ hq.rpcTx, hrest.streamFrameTx ▸ hq.streamFrameTx,
      hrest.streams ▸ hq.streams⟩
  | deliver =>
    have h : s.deliver = some t := h
    unfold Net.deliver at h
    split at h
    · split at h
      · cases h
      · split_ifs at h <;> cases h <;> exact ⟨hq.outbox, hq.rpcTx, hq.streamFrameTx, hq.streams⟩
    · cases h
  | finish =>
    simp only [Net.step, Option.ite_none_left_eq_some] at h
    obtain ⟨-, h⟩ := h
    cases h
    exact ⟨hq.outbox, hq.rpcTx, hq.streamFrameTx, hq.streams⟩
  | drain | disconnect | close =>
    simp only [Net.step] at h
    split at h <;> cases h
    exact ⟨hq.outbox, hq.rpcTx, hq.streamFrameTx, hq.streams⟩
  | revoke | secondaryEnds =>
    cases h
    exact ⟨hq.outbox, hq.rpcTx, hq.streamFrameTx, hq.streams⟩
  | read =>
    have h : s.read codec = some t := h
    unfold Net.read at h
    split at h
    · next id request rest _ _ =>
      cases h
      unfold Net.rpc Net.refuse Net.setLog
      split_ifs
      · exact ⟨hq.outbox, hq.rpcTx, hq.streamFrameTx, hq.streams⟩
      · split
        · split_ifs
          · exact hq.of_update id (some []) (by simp) hq.outbox hq.rpcTx hq.streamFrameTx rfl
          · exact ⟨hq.outbox, hq.rpcTx, hq.streamFrameTx, hq.streams⟩
          · exact ⟨hq.outbox, hq.rpcTx, hq.streamFrameTx, hq.streams⟩
        · exact ⟨hq.outbox, hq.rpcTx, hq.streamFrameTx, hq.streams⟩
    · cases h
      unfold Net.streamMessage
      split
      · split_ifs
        · split <;> exact ⟨hq.outbox, hq.rpcTx, hq.streamFrameTx, hq.streams⟩
        · exact ⟨hq.outbox, hq.rpcTx, hq.streamFrameTx, hq.streams⟩
      · exact ⟨hq.outbox, hq.rpcTx, hq.streamFrameTx, hq.streams⟩
    · cases h
  | forward =>
    have h : s.forward = some t := h
    unfold Net.forward at h
    split at h
    · next id request _ =>
      split at h
      · cases h
      · next inbox hinbox =>
        split_ifs at h with hlive hroom <;> cases h
        · exact hq.of_update id _ (fun l hl => by cases hl; rw [List.length_append]; exact hroom)
            hq.outbox hq.rpcTx hq.streamFrameTx rfl
        · exact hq.of_update id none (by simp) hq.outbox hq.rpcTx hq.streamFrameTx rfl
    · cases h
  | reply id =>
    have h : s.reply id = some t := h
    unfold Net.reply at h
    split at h
    · rw [Option.ite_none_right_eq_some] at h
      obtain ⟨⟨-, hroom⟩, h⟩ := h
      cases h
      refine ⟨hq.outbox, ?_, hq.streamFrameTx, hq.streams⟩
      rw [List.length_append]
      exact hroom
    · cases h
  | emit id x =>
    have h : s.emit codec id x = some t := h
    unfold Net.emit at h
    split at h
    · rw [Option.ite_none_right_eq_some] at h
      obtain ⟨⟨-, hroom⟩, h⟩ := h
      cases h
      refine ⟨hq.outbox, hq.rpcTx, ?_, hq.streams⟩
      rw [List.length_append]
      exact hroom
    · cases h
  | execute id x | quit id =>
    simp only [Net.step] at h
    split at h <;> cases h
    exact ⟨hq.outbox, hq.rpcTx, hq.streamFrameTx, hq.streams⟩
  | sendReply =>
    simp only [Net.step] at h
    split at h <;> cases h
    next hreplies => exact ⟨hq.outbox, htail hreplies hq.rpcTx, hq.streamFrameTx, hq.streams⟩
  | write id =>
    have h : s.write id = some t := h
    unfold Net.write at h
    split at h <;> cases h
    next request message inbox _ hinbox =>
      exact hq.of_update id (some inbox) (fun l hl => by cases hl; exact Nat.le_of_succ_le (hq.streams id _ hinbox))
        hq.outbox hq.rpcTx hq.streamFrameTx rfl
  | sendFrame =>
    have h : s.sendFrame = some t := h
    unfold Net.sendFrame at h
    split at h <;> cases h
    next id response done rest _ hframes =>
      have hroom := htail hframes hq.streamFrameTx
      cases done
      · exact ⟨hq.outbox, hq.rpcTx, hroom, hq.streams⟩
      · exact hq.of_update id none (by simp) hq.outbox hq.rpcTx hroom rfl
  | join =>
    simp only [Net.step] at h
    split at h <;> cases h
    exact ⟨hq.outbox, hq.rpcTx, hq.streamFrameTx, hq.streams⟩

/-! ### Tasks -/

/-- `relay_tasks` has the tasks that are not over, and those that are and not joined yet. -/
structure Counted (s : Net Id B R) : Prop where
  tasks : ∃ ids : List Id, ids.Nodup ∧ (∀ i, i ∈ ids ↔ (s.tasks i).live = true) ∧
    ids.length + s.finished = s.relayTasks
  bound : s.relayTasks ≤ 64

omit [DecidableEq Id] in
theorem Counted.of_live (hc : Counted s) (hlive : ∀ i, (t.tasks i).live = (s.tasks i).live)
    (hfinished : t.finished = s.finished) (hrelay : t.relayTasks = s.relayTasks) : Counted t := by
  obtain ⟨ids, hnodup, hmem, hcount⟩ := hc.tasks
  exact ⟨⟨ids, hnodup, fun i => by rw [hmem, hlive], by rw [hfinished, hrelay]; exact hcount⟩, hrelay ▸ hc.bound⟩

omit [DecidableEq Id] in
theorem Counted.of_eq (hc : Counted s) (htasks : t.tasks = s.tasks) (hfinished : t.finished = s.finished)
    (hrelay : t.relayTasks = s.relayTasks) : Counted t :=
  hc.of_live (fun i => by rw [htasks]) hfinished hrelay

/-- A task goes on, or one that could do nothing goes. -/
theorem Counted.proceed (hc : Counted s) {task : Task B R} (hlive : task.live = (s.tasks id).live)
    (htasks : t.tasks = Function.update s.tasks id task) (hfinished : t.finished = s.finished)
    (hrelay : t.relayTasks = s.relayTasks) : Counted t := by
  refine hc.of_live (fun i => ?_) hfinished hrelay
  rw [htasks]
  rcases eq_or_ne i id with rfl | hne
  · rw [Function.update_self, hlive]
  · rw [Function.update_of_ne hne]

theorem Counted.spawn (hc : Counted s) {task : Task B R} (hdead : (s.tasks id).live = false) (hlive : task.live = true)
    (hroom : s.relayTasks < 64) (htasks : t.tasks = Function.update s.tasks id task)
    (hfinished : t.finished = s.finished) (hrelay : t.relayTasks = s.relayTasks + 1) : Counted t := by
  obtain ⟨ids, hnodup, hmem, hcount⟩ := hc.tasks
  have hnew : id ∉ ids := by
    rw [hmem, hdead]
    exact Bool.false_ne_true
  refine ⟨⟨id :: ids, List.nodup_cons.mpr ⟨hnew, hnodup⟩, fun i => ?_, ?_⟩, hrelay ▸ hroom⟩
  · rw [List.mem_cons, htasks]
    rcases eq_or_ne i id with rfl | hne
    · rw [Function.update_self]
      exact ⟨fun _ => hlive, fun _ => .inl rfl⟩
    · rw [Function.update_of_ne hne, ← hmem]
      exact or_iff_right hne
  · rw [List.length_cons, hfinished, hrelay]
    omega

/-- A task is over, and is to be joined. -/
theorem Counted.finish (hc : Counted s) {task : Task B R} (hlive : (s.tasks id).live = true) (hdead : task.live = false)
    (htasks : t.tasks = Function.update s.tasks id task) (hfinished : t.finished = s.finished + 1)
    (hrelay : t.relayTasks = s.relayTasks) : Counted t := by
  obtain ⟨ids, hnodup, hmem, hcount⟩ := hc.tasks
  have hold : id ∈ ids := (hmem id).mpr hlive
  refine ⟨⟨ids.erase id, hnodup.erase id, fun i => ?_, ?_⟩, hrelay ▸ hc.bound⟩
  · rw [hnodup.mem_erase_iff, htasks]
    rcases eq_or_ne i id with rfl | hne
    · rw [Function.update_self, hdead]
      exact ⟨fun h => absurd rfl h.1, fun h => (by cases h)⟩
    · rw [Function.update_of_ne hne, ← hmem]
      exact and_iff_right hne
  · have hpos : 0 < ids.length := List.length_pos_of_mem hold
    rw [List.length_erase_of_mem hold, hfinished, hrelay]
    omega

/-- The secondary's relay answers a request itself. -/
theorem Counted.refuse (hc : Counted s) {rest : List (Id × Ask B)} {x : R} (hdead : (s.tasks id).live = false) :
    Counted (s.refuse id rest x) :=
  hc.proceed (by rw [hdead]; exact rfl) rfl rfl rfl

theorem counted_step {a : Action Id B R} (hi : ∀ i, Inv codec node (s.view i)) (hc : Counted s)
    (h : s.step codec node a = some t) : Counted t := by
  cases a with
  | read =>
    have h : s.read codec = some t := h
    unfold Net.read at h
    split at h
    · next id request rest _ hdown =>
      cases h
      have hv : (s.view id).down = .rpc request :: Tagged.of id rest := by simp [Net.view, hdown]
      have htask : s.tasks id = .none := ((hi id).asking.head hv).1
      have hdead : (s.tasks id).live = false := by rw [htask]; rfl
      unfold Net.rpc
      split_ifs with hfull
      · exact hc.of_eq rfl rfl rfl
      · split
        · split_ifs
          · exact hc.spawn hdead rfl (not_le.mp hfull) rfl rfl rfl
          · exact hc.spawn hdead rfl (not_le.mp hfull) rfl rfl rfl
          · exact hc.refuse hdead
        · exact hc.refuse hdead
    · cases h
      unfold Net.streamMessage
      split
      · split_ifs
        · split <;> exact hc.of_eq rfl rfl rfl
        · exact hc.of_eq rfl rfl rfl
      · exact hc.of_eq rfl rfl rfl
    · cases h
  | execute id x =>
    simp only [Net.step] at h
    split at h <;> cases h
    next htask => exact hc.proceed (by rw [htask]; rfl) rfl rfl rfl
  | reply id =>
    have h : s.reply id = some t := h
    unfold Net.reply at h
    split at h
    · next htask =>
      rw [Option.ite_none_right_eq_some] at h
      obtain ⟨-, h⟩ := h
      cases h
      exact hc.finish (by rw [htask]; rfl) rfl rfl rfl rfl
    · cases h
  | emit id x =>
    have h : s.emit codec id x = some t := h
    unfold Net.emit at h
    split at h
    · next htask =>
      rw [Option.ite_none_right_eq_some] at h
      obtain ⟨-, h⟩ := h
      cases h
      by_cases hdone : codec.isDone x = true
      · exact hc.finish (by rw [htask]; rfl) (by rw [if_pos hdone]; rfl) rfl (by simp [hdone]) rfl
      · exact hc.proceed (by rw [htask, if_neg hdone]) rfl (by simp [hdone]) rfl
    · cases h
  | quit id =>
    simp only [Net.step] at h
    split at h <;> cases h
    next htask => exact hc.finish (by rw [htask]; rfl) rfl rfl rfl rfl
  | write id =>
    have h : s.write id = some t := h
    unfold Net.write at h
    split at h <;> cases h
    next htask _ => exact hc.proceed (by rw [htask]; rfl) rfl rfl rfl
  | join =>
    simp only [Net.step] at h
    split at h <;> cases h
    next n _ hfinished =>
      obtain ⟨ids, hnodup, hmem, hcount⟩ := hc.tasks
      rw [hfinished] at hcount
      exact ⟨⟨ids, hnodup, hmem, by dsimp only; omega⟩, (Nat.sub_le _ _).trans hc.bound⟩
  | lookup id kind request =>
    simp only [Net.step, Runs.guarded] at h
    obtain ⟨-, rfl⟩ := h
    exact hc.of_eq rfl rfl rfl
  | send id =>
    obtain ⟨c, -, -, ht⟩ := Net.caller_eq_some.mp h
    unfold Net.send at ht
    split_ifs at ht <;> cases ht <;> exact hc.of_eq rfl rfl rfl
  | receive id =>
    obtain ⟨c, -, -, ht⟩ := Net.caller_eq_some.mp h
    unfold Net.receive at ht
    split at ht <;> cases ht
    exact hc.of_eq rfl rfl rfl
  | message id request =>
    obtain ⟨c, -, -, ht⟩ := Net.caller_eq_some.mp h
    rw [Option.ite_none_right_eq_some] at ht
    obtain ⟨-, ht⟩ := ht
    cases ht
    exact hc.of_eq rfl rfl rfl
  | insert id | disconnected id | expire id | removeExpired id | stopReading id | removePending id | drop id =>
    obtain ⟨c, -, -, ht⟩ := Net.caller_eq_some.mp h
    cases ht
    exact hc.of_eq rfl rfl rfl
  | incoming =>
    have hrest := incoming_rest h
    exact hc.of_eq hrest.tasks hrest.finished hrest.relayTasks
  | deliver =>
    have h : s.deliver = some t := h
    unfold Net.deliver at h
    split at h
    · split at h
      · cases h
      · split_ifs at h <;> cases h <;> exact hc.of_eq rfl rfl rfl
    · cases h
  | finish =>
    simp only [Net.step, Option.ite_none_left_eq_some] at h
    obtain ⟨-, h⟩ := h
    cases h
    exact hc.of_eq rfl rfl rfl
  | outgoing | drain | disconnect | close | sendReply =>
    simp only [Net.step] at h
    split at h <;> cases h
    exact hc.of_eq rfl rfl rfl
  | revoke | secondaryEnds =>
    cases h
    exact hc.of_eq rfl rfl rfl
  | forward =>
    have h : s.forward = some t := h
    unfold Net.forward at h
    split at h
    · split at h
      · cases h
      · split_ifs at h <;> cases h <;> exact hc.of_eq rfl rfl rfl
    · cases h
  | sendFrame =>
    have h : s.sendFrame = some t := h
    unfold Net.sendFrame at h
    split at h <;> cases h
    exact hc.of_eq rfl rfl rfl


theorem run_bounded {as : List (Action Id B R)} (h : Run codec node as s) : Queues s ∧ Counted s := by
  have hrun : (∀ i, Inv codec node (s.view i)) ∧ Queues s ∧ Counted s := by
    refine Runs.run_invariant (I := fun s => (∀ i, Inv codec node (s.view i)) ∧ Queues s ∧ Counted s)
      (fun hi hstep => ⟨view_inv hi.1 hstep, queues_step hi.2.1 hstep, counted_step hi.1 hi.2.2 hstep⟩) h
      ⟨inv_joined, ⟨Nat.zero_le _, Nat.zero_le _, Nat.zero_le _, fun _ _ hs => by cases hs⟩,
        ⟨[], List.nodup_nil, fun _ => by simp [Net.joined, Task.live], rfl⟩, Nat.zero_le _⟩
  exact hrun.2

/-- **What a connection holds** is bounded: the secondary's tasks, and the channels by their places. -/
theorem connection_bounded {as : List (Action Id B R)} (h : Run codec node as s) :
    s.outbox.length ≤ 64 ∧ s.rpcTx.length ≤ 64 ∧ s.streamFrameTx.length ≤ 256 ∧
    (∀ id inbox, s.streams id = some inbox → inbox.length ≤ 64) ∧
    (∀ id c, s.calls id = some c → c.mailbox.length ≤ 256) ∧
    ∀ ids : List Id, ids.Nodup → (∀ id ∈ ids, (s.tasks id).live = true) → ids.length ≤ 64 := by
  obtain ⟨hq, hc⟩ := run_bounded h
  refine ⟨hq.outbox, hq.rpcTx, hq.streamFrameTx, hq.streams, fun id c hcall => (run_inv h id).mailbox hcall,
    fun ids hnodup hlive => ?_⟩
  obtain ⟨all, -, hmem, hcount⟩ := hc.tasks
  have hsub : ids ⊆ all := fun i hi => (hmem i).mpr (hlive i hi)
  have hlen : ids.length ≤ all.length := (hnodup.subperm hsub).length_le
  have hbound := hc.bound
  omega

theorem connection_bounded_attach :
    (after attachRun).outbox.length ≤ 64 ∧
      ∀ ids : List ℕ, ids.Nodup → (∀ id ∈ ids, ((after attachRun).tasks id).live = true) → ids.length ≤ 64 := by
  have hrun : Run numbers "n" attachRun (after attachRun) := rfl
  obtain ⟨hout, -, -, -, -, htasks⟩ := connection_bounded hrun
  exact ⟨hout, htasks⟩

end RpcRelay
end Federation
end OpenRelay
