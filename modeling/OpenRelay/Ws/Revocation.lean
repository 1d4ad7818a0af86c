/-
# Revoking a token closes its WebSockets

A browser's attach WebSocket is authorised by a session token at its upgrade
(`http/auth.rs`), and lives on. When the token is revoked the sockets that were
opened with it are to close: `serve_attach` watches the revocation channel and
validates the token it was given again whenever something is revoked
(`http/ws.rs`). What it is given is the token of the request's headers on the
relayed arm, and the empty one on the local arm; and it watches from when the
init frame has been sent. A message is late if its socket's token had been
revoked when it arrived.

The daemon has a password; a token is issued once.

Key theorems: `SocketInv.step`, `serverInv_step`, `revocation_enforced`.
-/
import OpenRelay.Lib.Runs
import Mathlib.Data.List.Basic

namespace OpenRelay
namespace Ws

/-- A token, as it is sent. -/
abbrev Token := String

/-! ### Requests -/

/-- What an upgrade request carries: its bearer token, the `token` of its query and the
cookie, and the node that owns the session if that is another one. -/
structure Request where
  bearer : Option Token
  query : Option Token
  cookie : Option Token
  node : Option String
  deriving DecidableEq, Repr

/-- The token of a request: the bearer's first, and a cookie last. -/
def extractRequestTokenParts (r : Request) (withQuery : Bool) : Option Token :=
  r.bearer <|> (if withQuery then r.query else none) <|> r.cookie

/-- The token that the middleware validates; an attach path may carry it in its query. -/
def Request.token (r : Request) : Token := (extractRequestTokenParts r true).getD ""

/-- The token that the serve loop is given. -/
def Request.reconnectToken (r : Request) : Token :=
  match r.node with
  | some _ => (extractRequestTokenParts r false).getD ""
  | none => ""

/-! ### Sockets -/

/-- What a browser asks for. -/
inductive ClientMessage where
  | input (data : String) (waitForChange : Bool)
  | busy
  | resize (rows cols : ℕ)
  | ack (offset : ℕ)
  | detach
  | ping
  deriving DecidableEq, Repr

/-- The messages that act on the session. -/
def ClientMessage.acts : ClientMessage → Bool
  | input _ _ | resize _ _ | detach => true
  | busy | ack _ | ping => false

/-- What a socket receives: a text that may be no message, another kind of frame, a close frame, an
error, or the end. -/
inductive Inbound where
  | text (msg : Option ClientMessage)
  | other
  | close
  | error
  | gone
  deriving DecidableEq, Repr

def Inbound.acting? : Inbound → Option ClientMessage
  | text (some msg) => if msg.acts then some msg else none
  | _ => none

/-- Whether the loop goes on after a message; on the local arm the session's `answer` may end it. -/
def Inbound.keeps (relayed answer : Bool) : Inbound → Bool
  | text (some .detach) => false
  | text (some (.input _ _)) | text (some (.resize _ _)) | text (some .busy) => relayed || answer
  | text _ | other => true
  | close | error | gone => false

/-- Where a socket is. -/
inductive Phase where
  /-- The attach is being set up. -/
  | attaching
  /-- The init frame is being sent. -/
  | greeting
  /-- Between two turns of the loop; `seen` is the version of the channel it has seen. -/
  | serving (seen : ℕ)
  /-- Something was revoked: the token is being validated. -/
  | validating (seen : ℕ)
  /-- An event of the stream is being sent. -/
  | emitting (seen : ℕ) (terminal : Bool)
  /-- A message is being handled. -/
  | handling (seen : ℕ) (msg : Inbound) (late : Bool)
  | closed (revoked : Bool)
  deriving DecidableEq, Repr

/-- A socket, with what has arrived at it. -/
structure Socket where
  request : Request
  phase : Phase
  /-- What has arrived, and whether it was late. -/
  inbox : List (Inbound × Bool)
  deriving DecidableEq, Repr

/-! ### The server -/

/-- The tokens, the sockets, and what was done for them. -/
structure Server where
  /-- The tokens that are valid. -/
  sessions : List Token
  issued : List Token
  /-- The version of the revocation channel. -/
  version : ℕ
  /-- Tokens that are removed while the channel has not been told yet. -/
  notifying : List Token
  revoked : List Token
  sockets : List Socket
  /-- The messages that acted on a session, and whether they were late. -/
  applied : List (ClientMessage × Bool)
  deriving DecidableEq, Repr

/-- No token has been issued. -/
def Server.start : Server := ⟨[], [], 0, [], [], [], []⟩

/-- What a socket does next. -/
inductive SocketAction where
  | attached (ok : Bool)
  | greeted (ok : Bool)
  | arrive (msg : Inbound)
  /-- A turn of the loop; `event` is what the stream has, terminal or not. -/
  | turn (event : Option Bool)
  | validated
  | emitted (sent : Bool)
  | handled (answer : Bool)
  deriving DecidableEq, Repr

/-- What may happen next. -/
inductive Action where
  | issue (t : Token)
  | expire (t : Token)
  /-- `revoke_token`: the token is removed, then the channel is told. -/
  | revoke (t : Token)
  | notify (t : Token)
  | upgrade (r : Request)
  | socket (i : ℕ) (a : SocketAction)
  deriving DecidableEq, Repr

/-- A turn of `select!`; the branches are looked at in order. -/
def turn (s : Server) (w : Socket) (seen : ℕ) (event : Option Bool) : Option Socket :=
  if w.request.reconnectToken ≠ "" ∧ seen ≠ s.version then some { w with phase := .validating s.version }
  else match event with
    | some terminal => some { w with phase := .emitting seen terminal }
    | none =>
      match w.inbox with
      | [] => none
      | (msg, late) :: rest => some { w with phase := .handling seen msg late, inbox := rest }

/-- The socket after the action, and the messages that have acted on the session. -/
def socketStep (s : Server) (w : Socket) (a : SocketAction) : Option (Socket × List (ClientMessage × Bool)) :=
  match a, w.phase with
  | .arrive _, .closed _ => none
  | .arrive msg, _ => some ({ w with inbox := w.inbox ++ [(msg, s.revoked.contains w.request.token)] }, [])
  | .attached ok, .attaching => some ({ w with phase := if ok then .greeting else .closed false }, [])
  | .greeted ok, .greeting => some ({ w with phase := if ok then .serving s.version else .closed false }, [])
  | .turn event, .serving seen => (turn s w seen event).map (·, [])
  | .validated, .validating seen =>
    let valid := s.sessions.contains w.request.reconnectToken
    some ({ w with phase := if w.request.reconnectToken ≠ "" ∧ !valid then .closed true else .serving seen }, [])
  | .emitted sent, .emitting seen terminal =>
    some ({ w with phase := if terminal || !sent then .closed false else .serving seen }, [])
  | .handled answer, .handling seen msg late =>
    some ({ w with phase := if msg.keeps w.request.node.isSome answer then .serving seen else .closed false },
      (msg.acting?.map (·, late)).toList)
  | _, _ => none

def step (s : Server) : Action → Option Server
  | .issue t =>
    if t = "" ∨ t ∈ s.issued then none else some { s with sessions := t :: s.sessions, issued := t :: s.issued }
  | .expire t => some { s with sessions := s.sessions.filter (· ≠ t) }
  | .revoke t =>
    if t ∈ s.sessions then some { s with sessions := s.sessions.filter (· ≠ t), notifying := t :: s.notifying }
    else none
  | .notify t =>
    if t ∈ s.notifying then
      some { s with version := s.version + 1, notifying := s.notifying.erase t, revoked := t :: s.revoked }
    else none
  | .upgrade r =>
    if r.token ∈ s.sessions then some { s with sockets := s.sockets ++ [⟨r, .attaching, []⟩] } else none
  | .socket i a => do
    let w ← s.sockets[i]?
    let (w', acted) ← socketStep s w a
    some { s with sockets := s.sockets.set i w', applied := s.applied ++ acted }

/-! ### What is asked of a run -/

/-- The socket is not closed. -/
def Phase.isOpen : Phase → Bool
  | closed _ => false
  | _ => true

/-- The loop is running, and watches the channel. -/
def Phase.watches : Phase → Bool
  | attaching | greeting | closed _ => false
  | _ => true

/-- A revocation takes effect only while every open socket of the token is in its loop, which was
given the token; a loop that is given a token is given the one its upgrade was authorised by. -/
def Guarded (s : Server) : Action → Prop
  | .notify t => ∀ w ∈ s.sockets, w.request.token = t → w.phase.isOpen = true →
      w.request.reconnectToken = t ∧ w.phase.watches = true
  | .upgrade r => r.reconnectToken ≠ "" → r.reconnectToken = r.token
  | _ => True

instance (s : Server) (a : Action) : Decidable (Guarded s a) := by
  cases a <;> unfold Guarded <;> infer_instance

/-- How far the loop is from its end once its token is revoked. -/
def Phase.rank : Phase → ℕ
  | closed _ => 0
  | validating _ => 1
  | serving _ => 2
  | emitting _ _ | handling _ _ _ | attaching | greeting => 3

/-- Whatever happens next, the loop gets no further from its end; and one of its own steps brings it
nearer. -/
def Leaves (s : Server) (i : ℕ) (w : Socket) : Prop :=
  (∀ a s', step s a = some s' → ∃ w', s'.sockets[i]? = some w' ∧
    (w'.phase = w.phase ∨ w'.phase.rank < w.phase.rank)) ∧
  (w.phase.isOpen = true → ∃ a s' w', step s (.socket i a) = some s' ∧ s'.sockets[i]? = some w' ∧
    w'.phase.rank < w.phase.rank)

/-- No message that arrived after the revocation has acted on a session, the loops of the token leave, and
a socket that is closed for a revocation has lost its own token. -/
structure Enforced (s : Server) : Prop where
  applied : ∀ e ∈ s.applied, e.2 = false
  leaves : ∀ i w, s.sockets[i]? = some w → w.request.token ∈ s.revoked → Leaves s i w
  others : ∀ w ∈ s.sockets, w.phase = .closed true → w.request.token ∉ s.sessions

/-! ### The invariant of a socket -/

/-- The version that the loop has seen, while it is neither being set up nor closing. -/
def Phase.seen? : Phase → Option ℕ
  | serving seen | emitting seen _ | handling seen _ _ => some seen
  | _ => none

/-- What holds of a socket. -/
structure SocketInv (s : Server) (w : Socket) : Prop where
  /-- The token was valid once. -/
  issued : w.request.token ∈ s.issued
  given : w.request.reconnectToken ≠ "" → w.request.reconnectToken = w.request.token
  /-- A socket whose token is revoked is in its loop, which was given the token. -/
  guarded : w.request.token ∈ s.revoked → w.phase.isOpen = true →
    w.request.reconnectToken = w.request.token ∧ w.phase.watches = true
  seen_le : ∀ seen, w.phase.seen? = some seen ∨ w.phase = .validating seen → seen ≤ s.version
  /-- It has not seen the revocation of its token. -/
  seen_lt : ∀ seen, w.phase.seen? = some seen → w.request.token ∈ s.revoked → seen < s.version
  /-- What arrived late waits. -/
  inbox : ∀ m ∈ w.inbox, m.2 = true → w.request.token ∈ s.revoked
  handling : ∀ seen msg late, w.phase = .handling seen msg late → late = false
  lost : w.phase = .closed true → w.request.token ∉ s.sessions

/-- The registry: a token that is being revoked is not valid again. -/
structure RegistryInv (s : Server) : Prop where
  nonempty : "" ∉ s.issued
  issued : ∀ t ∈ s.sessions, t ∈ s.issued
  notifying : ∀ t ∈ s.notifying, t ∈ s.issued ∧ t ∉ s.sessions
  revoked : ∀ t ∈ s.revoked, t ∈ s.issued ∧ t ∉ s.sessions

section SocketStep

variable {s : Server} {w w' : Socket} {a : SocketAction} {acted : List (ClientMessage × Bool)}

/-- What a turn can come to. -/
theorem turn_cases {seen : ℕ} {event : Option Bool} (h : turn s w seen event = some w') :
    (w.request.reconnectToken ≠ "" ∧ seen ≠ s.version ∧ w' = { w with phase := .validating s.version }) ∨
    (¬ (w.request.reconnectToken ≠ "" ∧ seen ≠ s.version) ∧
      ((∃ terminal, event = some terminal ∧ w' = { w with phase := .emitting seen terminal }) ∨
        ∃ msg late rest, event = none ∧ w.inbox = (msg, late) :: rest ∧
          w' = { w with phase := .handling seen msg late, inbox := rest })) := by
  unfold turn at h
  split_ifs at h with hchanged
  · cases h
    exact .inl ⟨hchanged.1, hchanged.2, rfl⟩
  · refine .inr ⟨hchanged, ?_⟩
    rcases event with _ | terminal
    · rcases hinbox : w.inbox with _ | ⟨⟨msg, late⟩, rest⟩
      · simp [hinbox] at h
      · simp only [hinbox] at h
        exact .inr ⟨msg, late, rest, rfl, rfl, (Option.some.inj h).symm⟩
    · exact .inl ⟨terminal, rfl, (Option.some.inj h).symm⟩

/-- The moves of a socket, one for each branch of its handler. -/
inductive Move (s : Server) (w : Socket) : Socket → List (ClientMessage × Bool) → Prop where
  | arrive (msg : Inbound) (hopen : w.phase.isOpen = true) :
    Move s w { w with inbox := w.inbox ++ [(msg, s.revoked.contains w.request.token)] } []
  | attached (h : w.phase = .attaching) : Move s w { w with phase := .greeting } []
  | greeted (h : w.phase = .greeting) : Move s w { w with phase := .serving s.version } []
  | changed {seen : ℕ} (h : w.phase = .serving seen) (hgiven : w.request.reconnectToken ≠ "")
    (hseen : seen ≠ s.version) : Move s w { w with phase := .validating s.version } []
  | event {seen : ℕ} (h : w.phase = .serving seen) (hquiet : ¬ (w.request.reconnectToken ≠ "" ∧ seen ≠ s.version))
    (terminal : Bool) : Move s w { w with phase := .emitting seen terminal } []
  | receive {seen : ℕ} (h : w.phase = .serving seen) (hquiet : ¬ (w.request.reconnectToken ≠ "" ∧ seen ≠ s.version))
    {msg : Inbound} {late : Bool} {rest : List (Inbound × Bool)} (hinbox : w.inbox = (msg, late) :: rest) :
    Move s w { w with phase := .handling seen msg late, inbox := rest } []
  | valid {seen : ℕ} (h : w.phase = .validating seen)
    (hvalid : w.request.reconnectToken = "" ∨ w.request.reconnectToken ∈ s.sessions) :
    Move s w { w with phase := .serving seen } []
  | lost {seen : ℕ} (h : w.phase = .validating seen) (hgiven : w.request.reconnectToken ≠ "")
    (hlost : w.request.reconnectToken ∉ s.sessions) : Move s w { w with phase := .closed true } []
  | emitted {seen : ℕ} {terminal : Bool} (h : w.phase = .emitting seen terminal) :
    Move s w { w with phase := .serving seen } []
  | handled {seen : ℕ} {msg : Inbound} {late : Bool} (h : w.phase = .handling seen msg late) :
    Move s w { w with phase := .serving seen } (msg.acting?.map (·, late)).toList
  | last {seen : ℕ} {msg : Inbound} {late : Bool} (h : w.phase = .handling seen msg late) :
    Move s w { w with phase := .closed false } (msg.acting?.map (·, late)).toList
  | fail (hquiet : w.phase.rank = 3) : Move s w { w with phase := .closed false } []

theorem move_of_socketStep (h : socketStep s w a = some (w', acted)) : Move s w w' acted := by
  unfold socketStep at h
  split at h
  · cases h
  · rename_i hphase
    obtain ⟨rfl, rfl⟩ := Prod.mk.inj (Option.some.inj h)
    refine .arrive _ ?_
    rcases hw : w.phase <;> first | rfl | exact absurd hw (hphase _)
  · rename_i ok hphase
    obtain ⟨rfl, rfl⟩ := Prod.mk.inj (Option.some.inj h)
    cases ok with
    | true => exact .attached hphase
    | false => exact .fail (by rw [hphase]; rfl)
  · rename_i ok hphase
    obtain ⟨rfl, rfl⟩ := Prod.mk.inj (Option.some.inj h)
    cases ok with
    | true => exact .greeted hphase
    | false => exact .fail (by rw [hphase]; rfl)
  · rename_i event seen hphase
    obtain ⟨w₁, hturn, heq⟩ := Option.map_eq_some_iff.mp h
    obtain ⟨rfl, rfl⟩ := Prod.mk.inj heq
    rcases turn_cases hturn with ⟨hgiven, hseen, rfl⟩ | ⟨hquiet, ⟨terminal, -, rfl⟩ | ⟨msg, late, rest, -, hinbox, rfl⟩⟩
    · exact .changed hphase hgiven hseen
    · exact .event hphase hquiet terminal
    · exact .receive hphase hquiet hinbox
  · rename_i seen hphase
    obtain ⟨rfl, rfl⟩ := Prod.mk.inj (Option.some.inj h)
    split_ifs with hlost
    · obtain ⟨hgiven, hinvalid⟩ := hlost
      exact .lost hphase hgiven (by simpa using hinvalid)
    · refine .valid hphase ?_
      rw [not_and_or, not_not] at hlost
      exact hlost.imp_right (by simp)
  · rename_i sent seen terminal hphase
    obtain ⟨rfl, rfl⟩ := Prod.mk.inj (Option.some.inj h)
    split_ifs
    · exact .fail (by rw [hphase]; rfl)
    · exact .emitted hphase
  · rename_i answer seen msg late hphase
    obtain ⟨rfl, rfl⟩ := Prod.mk.inj (Option.some.inj h)
    split_ifs
    · exact .handled hphase
    · exact .last hphase
  · cases h

end SocketStep

/-! ### The invariant is kept -/

section Invariant

variable {s s' : Server} {w w' : Socket} {acted : List (ClientMessage × Bool)}

/-- A socket that has seen the version and is not behind has not lost its token. -/
theorem SocketInv.not_revoked (h : SocketInv s w) (hreg : RegistryInv s) {seen : ℕ} (hphase : w.phase = .serving seen)
    (hquiet : ¬ (w.request.reconnectToken ≠ "" ∧ seen ≠ s.version)) : w.request.token ∉ s.revoked := by
  intro hrevoked
  obtain ⟨hgiven, -⟩ := h.guarded hrevoked (by rw [hphase]; rfl)
  have hlt := h.seen_lt seen (by rw [hphase]; rfl) hrevoked
  refine hquiet ⟨?_, Nat.ne_of_lt hlt⟩
  rw [hgiven]
  exact fun hempty => hreg.nonempty (hempty ▸ h.issued)

/-- A socket that moves keeps to the invariant, and acts on its session with no late message. -/
theorem SocketInv.move (h : SocketInv s w) (hreg : RegistryInv s) (hmove : Move s w w' acted) :
    SocketInv s w' ∧ ∀ e ∈ acted, e.2 = false := by
  have hnone : ∀ e ∈ ([] : List (ClientMessage × Bool)), e.2 = false := nofun
  -- what the handling of a message that was not late records
  have hacted : ∀ {seen msg late}, w.phase = .handling seen msg late →
      ∀ e ∈ (msg.acting?.map (·, late)).toList, e.2 = false := by
    intro seen msg late hphase e he
    obtain ⟨m, -, rfl⟩ := Option.map_eq_some_iff.mp (Option.mem_toList.mp he)
    exact h.handling seen msg late hphase
  -- a socket that does not watch the channel yet has its token
  have hearly : w.phase = .attaching ∨ w.phase = .greeting → w.request.token ∉ s.revoked := by
    rintro hphase hrevoked
    rcases hphase with hphase | hphase
    · exact absurd (h.guarded hrevoked (by rw [hphase]; rfl)).2 (by rw [hphase]; exact Bool.false_ne_true)
    · exact absurd (h.guarded hrevoked (by rw [hphase]; rfl)).2 (by rw [hphase]; exact Bool.false_ne_true)
  have hopen : ∀ {seen}, w.phase.seen? = some seen → w.phase.isOpen = true := by
    intro seen hseen
    cases hw : w.phase <;> first | rfl | (rw [hw] at hseen; cases hseen)
  obtain ⟨hissued, hgiven, hguarded, hseenLe, hseenLt, hinbox, hhandling, hlost⟩ := h
  cases hmove with
  | arrive msg hw =>
    refine ⟨⟨hissued, hgiven, hguarded, hseenLe, hseenLt, ?_, hhandling, hlost⟩, hnone⟩
    intro m hm hlate
    rcases List.mem_append.mp hm with hm | hm
    · exact hinbox m hm hlate
    · rw [List.mem_singleton.mp hm] at hlate
      exact List.contains_iff_mem.mp hlate
  | attached hw =>
    refine ⟨⟨hissued, hgiven, ?_, by simp [Phase.seen?], nofun, hinbox, nofun, nofun⟩, hnone⟩
    exact fun hrevoked => absurd hrevoked (hearly (.inl hw))
  | greeted hw =>
    have hnot := hearly (.inr hw)
    refine ⟨⟨hissued, hgiven, fun hrevoked => absurd hrevoked hnot, ?_, ?_, hinbox, nofun, nofun⟩, hnone⟩
    · rintro seen (hseen | hseen)
      · cases hseen
        exact Nat.le_refl _
      · cases hseen
    · exact fun _ _ hrevoked => absurd hrevoked hnot
  | changed hw hne hseen =>
    refine ⟨⟨hissued, hgiven, ?_, ?_, nofun, hinbox, nofun, nofun⟩, hnone⟩
    · exact fun hrevoked _ => ⟨(hguarded hrevoked (by rw [hw]; rfl)).1, rfl⟩
    · rintro seen (hseen | hseen)
      · cases hseen
      · cases hseen
        exact Nat.le_refl _
  | event hw hquiet terminal =>
    refine ⟨⟨hissued, hgiven, ?_, ?_, ?_, hinbox, nofun, nofun⟩, hnone⟩
    · exact fun hrevoked _ => ⟨(hguarded hrevoked (by rw [hw]; rfl)).1, rfl⟩
    · exact fun seen hseen => hseenLe seen (.inl (by rw [hw]; exact hseen.resolve_right nofun))
    · exact fun seen hseen => hseenLt seen (by rw [hw]; exact hseen)
  | @receive _ hw hquiet msg late _ hin =>
    have hnot := SocketInv.not_revoked ⟨hissued, hgiven, hguarded, hseenLe, hseenLt, hinbox, hhandling, hlost⟩ hreg hw hquiet
    refine ⟨⟨hissued, hgiven, fun hrevoked => absurd hrevoked hnot, ?_, fun _ _ hrevoked => absurd hrevoked hnot, ?_, ?_, nofun⟩, hnone⟩
    · exact fun seen hseen => hseenLe seen (.inl (by rw [hw]; exact hseen.resolve_right nofun))
    · intro m hm
      exact hinbox m (hin ▸ List.mem_cons_of_mem _ hm)
    · rintro _ _ _ heq
      cases heq
      -- what is taken from the inbox was not late: the token is not revoked
      refine Bool.eq_false_iff.mpr fun hlate => hnot ?_
      exact hinbox (msg, late) (hin ▸ List.mem_cons_self) hlate
  | valid hw hvalid =>
    -- a token that is still valid has not been revoked
    have hnot : w.request.token ∉ s.revoked := by
      intro hrevoked
      obtain ⟨hsame, -⟩ := hguarded hrevoked (by rw [hw]; rfl)
      rw [hsame] at hvalid
      rcases hvalid with hempty | hvalid
      · exact hreg.nonempty (hempty ▸ hissued)
      · exact (hreg.revoked _ hrevoked).2 hvalid
    refine ⟨⟨hissued, hgiven, fun hrevoked => absurd hrevoked hnot, ?_, fun _ _ hrevoked => absurd hrevoked hnot, hinbox,
      nofun, nofun⟩, hnone⟩
    rintro seen (hseen | hseen)
    · cases hseen
      exact hseenLe _ (.inr hw)
    · cases hseen
  | lost hw hne hgone =>
    refine ⟨⟨hissued, hgiven, nofun, by simp [Phase.seen?], nofun, hinbox, nofun, ?_⟩, hnone⟩
    exact fun _ => hgiven hne ▸ hgone
  | emitted hw =>
    refine ⟨⟨hissued, hgiven, ?_, ?_, ?_, hinbox, nofun, nofun⟩, hnone⟩
    · exact fun hrevoked _ => ⟨(hguarded hrevoked (by rw [hw]; rfl)).1, rfl⟩
    · exact fun seen hseen => hseenLe seen (.inl (by rw [hw]; exact hseen.resolve_right nofun))
    · exact fun seen hseen => hseenLt seen (by rw [hw]; exact hseen)
  | handled hw =>
    refine ⟨⟨hissued, hgiven, ?_, ?_, ?_, hinbox, nofun, nofun⟩, hacted hw⟩
    · exact fun hrevoked _ => ⟨(hguarded hrevoked (by rw [hw]; rfl)).1, rfl⟩
    · exact fun seen hseen => hseenLe seen (.inl (by rw [hw]; exact hseen.resolve_right nofun))
    · exact fun seen hseen => hseenLt seen (by rw [hw]; exact hseen)
  | last hw => exact ⟨⟨hissued, hgiven, nofun, by simp [Phase.seen?], nofun, hinbox, nofun, nofun⟩, hacted hw⟩
  | fail hquiet => exact ⟨⟨hissued, hgiven, nofun, by simp [Phase.seen?], nofun, hinbox, nofun, nofun⟩, hnone⟩

/-- The sockets and what they did do not matter to each other. -/
theorem SocketInv.frame (h : SocketInv s w) (sockets : List Socket) (applied : List (ClientMessage × Bool)) :
    SocketInv { s with sockets := sockets, applied := applied } w :=
  ⟨h.issued, h.given, h.guarded, h.seen_le, h.seen_lt, h.inbox, h.handling, h.lost⟩

/-- What holds of the server all along. -/
structure ServerInv (s : Server) : Prop where
  registry : RegistryInv s
  sockets : ∀ w ∈ s.sockets, SocketInv s w
  applied : ∀ e ∈ s.applied, e.2 = false

theorem serverInv_start : ServerInv Server.start :=
  ⟨⟨nofun, nofun, nofun, nofun⟩, nofun, nofun⟩

/-- A step of the server is one of its registry, a new socket, or a move of one socket. -/
theorem step_socket {i : ℕ} {a : SocketAction} (h : step s (.socket i a) = some s') :
    ∃ w w' acted, s.sockets[i]? = some w ∧ Move s w w' acted ∧
      s' = { s with sockets := s.sockets.set i w', applied := s.applied ++ acted } := by
  obtain ⟨w, hw, h⟩ := Option.bind_eq_some_iff.mp h
  obtain ⟨⟨w', acted⟩, hstep, h⟩ := Option.bind_eq_some_iff.mp h
  exact ⟨w, w', acted, hw, move_of_socketStep hstep, (Option.some.inj h).symm⟩

theorem serverInv_step {a : Action} (h : ServerInv s) (hguarded : Guarded s a) (hstep : step s a = some s') :
    ServerInv s' := by
  obtain ⟨⟨hnonempty, hissued, hnotifying, hrevoked⟩, hsockets, happlied⟩ := h
  cases a with
  | issue t =>
    simp only [step] at hstep
    split_ifs at hstep with hnew
    cases hstep
    obtain ⟨hne, hfresh⟩ := not_or.mp hnew
    have hother : ∀ {u}, u ∈ s.issued → u ≠ t := fun hu heq => hfresh (heq ▸ hu)
    refine ⟨⟨?_, ?_, ?_, ?_⟩, ?_, happlied⟩
    · exact fun hempty => (List.mem_cons.mp hempty).elim (fun heq => hne heq.symm) hnonempty
    · exact fun u hu => (List.mem_cons.mp hu).elim (fun heq => heq ▸ List.mem_cons_self)
        fun hu => List.mem_cons_of_mem _ (hissued u hu)
    · exact fun u hu => ⟨List.mem_cons_of_mem _ (hnotifying u hu).1, fun hin =>
        (List.mem_cons.mp hin).elim (hother (hnotifying u hu).1) (hnotifying u hu).2⟩
    · exact fun u hu => ⟨List.mem_cons_of_mem _ (hrevoked u hu).1, fun hin =>
        (List.mem_cons.mp hin).elim (hother (hrevoked u hu).1) (hrevoked u hu).2⟩
    · intro w hw
      obtain ⟨hin, hgiven, hg, hle, hlt, hinbox, hhandling, hlost⟩ := hsockets w hw
      refine ⟨List.mem_cons_of_mem _ hin, hgiven, hg, hle, hlt, hinbox, hhandling, fun hphase hmem => ?_⟩
      exact (List.mem_cons.mp hmem).elim (hother hin) (hlost hphase)
  | expire t =>
    cases hstep
    refine ⟨⟨hnonempty, fun u hu => hissued u (List.mem_of_mem_filter hu), ?_, ?_⟩, ?_, happlied⟩
    · exact fun u hu => ⟨(hnotifying u hu).1, fun hin => (hnotifying u hu).2 (List.mem_of_mem_filter hin)⟩
    · exact fun u hu => ⟨(hrevoked u hu).1, fun hin => (hrevoked u hu).2 (List.mem_of_mem_filter hin)⟩
    · intro w hw
      obtain ⟨hin, hgiven, hg, hle, hlt, hinbox, hhandling, hlost⟩ := hsockets w hw
      exact ⟨hin, hgiven, hg, hle, hlt, hinbox, hhandling, fun hphase hmem => hlost hphase (List.mem_of_mem_filter hmem)⟩
  | revoke t =>
    simp only [step] at hstep
    split_ifs at hstep with hmem
    cases hstep
    refine ⟨⟨hnonempty, fun u hu => hissued u (List.mem_of_mem_filter hu), ?_, ?_⟩, ?_, happlied⟩
    · intro u hu
      rcases List.mem_cons.mp hu with rfl | hu
      · exact ⟨hissued u hmem, by simp⟩
      · exact ⟨(hnotifying u hu).1, fun hin => (hnotifying u hu).2 (List.mem_of_mem_filter hin)⟩
    · exact fun u hu => ⟨(hrevoked u hu).1, fun hin => (hrevoked u hu).2 (List.mem_of_mem_filter hin)⟩
    · intro w hw
      obtain ⟨hin, hgiven, hg, hle, hlt, hinbox, hhandling, hlost⟩ := hsockets w hw
      exact ⟨hin, hgiven, hg, hle, hlt, hinbox, hhandling, fun hphase hmem => hlost hphase (List.mem_of_mem_filter hmem)⟩
  | notify t =>
    simp only [step] at hstep
    split_ifs at hstep with hmem
    cases hstep
    refine ⟨⟨hnonempty, hissued, fun u hu => hnotifying u (List.mem_of_mem_erase hu), ?_⟩, ?_, happlied⟩
    · intro u hu
      rcases List.mem_cons.mp hu with rfl | hu
      · exact hnotifying u hmem
      · exact hrevoked u hu
    · intro w hw
      obtain ⟨hin, hgiven, hg, hle, hlt, hinbox, hhandling, hlost⟩ := hsockets w hw
      refine ⟨hin, hgiven, ?_, fun seen hseen => Nat.le_succ_of_le (hle seen hseen),
        fun seen hseen _ => Nat.lt_succ_of_le (hle seen (.inl hseen)),
        fun m hm hlate => List.mem_cons_of_mem _ (hinbox m hm hlate), hhandling, hlost⟩
      intro hin hopen
      rcases List.mem_cons.mp hin with heq | hin
      · obtain ⟨hsame, hwatches⟩ := hguarded w hw heq hopen
        exact ⟨hsame.trans heq.symm, hwatches⟩
      · exact hg hin hopen
  | upgrade r =>
    simp only [step] at hstep
    split_ifs at hstep with hvalid
    cases hstep
    refine ⟨⟨hnonempty, hissued, hnotifying, hrevoked⟩, ?_, happlied⟩
    intro w hw
    rcases List.mem_append.mp hw with hw | hw
    · exact (hsockets w hw).frame _ _
    · rw [List.mem_singleton.mp hw]
      exact ⟨hissued _ hvalid, hguarded, fun hgone => absurd hvalid (hrevoked _ hgone).2, by simp [Phase.seen?], nofun, nofun,
        nofun, nofun⟩
  | socket i a =>
    obtain ⟨w, w', acted, hw, hmove, rfl⟩ := step_socket hstep
    obtain ⟨hinv, hacted⟩ := (hsockets w (List.mem_of_getElem? hw)).move ⟨hnonempty, hissued, hnotifying, hrevoked⟩ hmove
    refine ⟨⟨hnonempty, hissued, hnotifying, hrevoked⟩, fun v hv => ?_, fun e he => ?_⟩
    · rcases List.mem_or_eq_of_mem_set hv with hv | rfl
      · exact (hsockets v hv).frame _ _
      · exact hinv.frame _ _
    · exact (List.mem_append.mp he).elim (happlied e) (hacted e)

/-- A move of a socket whose token is revoked leaves it where it is in its handler, or brings it nearer
to its end. -/
theorem rank_move (h : SocketInv s w) (hreg : RegistryInv s) (hrevoked : w.request.token ∈ s.revoked)
    (hmove : Move s w w' acted) : w'.phase = w.phase ∨ w'.phase.rank < w.phase.rank := by
  cases hmove with
  | arrive => exact .inl rfl
  | attached hw =>
    exact absurd (h.guarded hrevoked (by rw [hw]; rfl)).2 (by rw [hw]; exact Bool.false_ne_true)
  | greeted hw =>
    exact absurd (h.guarded hrevoked (by rw [hw]; rfl)).2 (by rw [hw]; exact Bool.false_ne_true)
  | changed hw => exact .inr (by rw [hw]; exact Nat.lt_succ_self 1)
  | event hw hquiet => exact absurd hrevoked (h.not_revoked hreg hw hquiet)
  | receive hw hquiet => exact absurd hrevoked (h.not_revoked hreg hw hquiet)
  | valid hw hvalid =>
    obtain ⟨hsame, -⟩ := h.guarded hrevoked (by rw [hw]; rfl)
    rw [hsame] at hvalid
    rcases hvalid with hempty | hvalid
    · exact absurd (hempty ▸ h.issued) hreg.nonempty
    · exact absurd hvalid (hreg.revoked _ hrevoked).2
  | lost hw => exact .inr (by rw [hw]; exact Nat.zero_lt_one)
  | emitted hw => exact .inr (by rw [hw]; exact Nat.lt_succ_self 2)
  | handled hw => exact .inr (by rw [hw]; exact Nat.lt_succ_self 2)
  | last hw => exact .inr (by rw [hw]; exact Nat.succ_pos 2)
  | fail hquiet => exact .inr (by rw [hquiet]; exact Nat.succ_pos 2)

theorem leaves_of_inv (h : ServerInv s) {i : ℕ} (hw : s.sockets[i]? = some w)
    (hrevoked : w.request.token ∈ s.revoked) : Leaves s i w := by
  have hinv := h.sockets w (List.mem_of_getElem? hw)
  have hset : ∀ w', (s.sockets.set i w')[i]? = some w' := fun w' =>
    List.getElem?_set_self (List.getElem?_eq_some_iff.mp hw).1
  have hkeep : ∃ w', s.sockets[i]? = some w' ∧ (w'.phase = w.phase ∨ w'.phase.rank < w.phase.rank) :=
    ⟨w, hw, .inl rfl⟩
  refine ⟨fun a s' hstep => ?_, fun hopen => ?_⟩
  · cases a with
    | issue t =>
      simp only [step] at hstep
      split_ifs at hstep
      cases hstep
      exact hkeep
    | expire t =>
      cases hstep
      exact hkeep
    | revoke t =>
      simp only [step] at hstep
      split_ifs at hstep
      cases hstep
      exact hkeep
    | notify t =>
      simp only [step] at hstep
      split_ifs at hstep
      cases hstep
      exact hkeep
    | upgrade r =>
      simp only [step] at hstep
      split_ifs at hstep
      cases hstep
      refine ⟨w, ?_, .inl rfl⟩
      rw [List.getElem?_append_left (List.getElem?_eq_some_iff.mp hw).1]
      exact hw
    | socket j a =>
      obtain ⟨v, v', acted, hv, hmove, rfl⟩ := step_socket hstep
      by_cases hj : j = i
      · subst hj
        obtain rfl : v = w := Option.some.inj (hv.symm.trans hw)
        exact ⟨v', hset v', rank_move hinv h.registry hrevoked hmove⟩
      · refine ⟨w, ?_, .inl rfl⟩
        rw [List.getElem?_set_ne hj]
        exact hw
  · obtain ⟨hsame, hwatches⟩ := hinv.guarded hrevoked hopen
    have hgiven : w.request.reconnectToken ≠ "" := by
      rw [hsame]
      exact fun hempty => h.registry.nonempty (hempty ▸ hinv.issued)
    have htake : ∀ a w' acted, socketStep s w a = some (w', acted) → w'.phase.rank < w.phase.rank →
        ∃ a s' w', step s (.socket i a) = some s' ∧ s'.sockets[i]? = some w' ∧ w'.phase.rank < w.phase.rank := by
      intro a w' acted hstep hlt
      exact ⟨a, _, w', by rw [step, hw, Option.bind_eq_bind, Option.bind_some, hstep]; rfl, hset w', hlt⟩
    rcases hphase : w.phase with _ | _ | seen | seen | ⟨seen, terminal⟩ | ⟨seen, msg, late⟩ | _
    · rw [hphase] at hwatches
      cases hwatches
    · rw [hphase] at hwatches
      cases hwatches
    · have hlt := hinv.seen_lt seen (by rw [hphase]; rfl) hrevoked
      rw [← hphase]
      refine htake (.turn none) { w with phase := .validating s.version } [] ?_ ?_
      · simp only [socketStep, hphase, turn, if_pos (And.intro hgiven (Nat.ne_of_lt hlt))]
        rfl
      · rw [hphase]
        exact Nat.lt_succ_self 1
    · have hlost : w.request.reconnectToken ∉ s.sessions := by
        rw [hsame]
        exact (h.registry.revoked _ hrevoked).2
      rw [← hphase]
      refine htake .validated { w with phase := .closed true } [] ?_ ?_
      · simp [socketStep, hphase, hgiven, hlost]
      · rw [hphase]
        exact Nat.zero_lt_one
    · rw [← hphase]
      refine htake (.emitted false) { w with phase := .closed false } [] ?_ ?_
      · simp [socketStep, hphase]
      · rw [hphase]
        exact Nat.succ_pos 2
    · rw [← hphase]
      rcases hkeeps : msg.keeps w.request.node.isSome true with _ | _
      · refine htake (.handled true) { w with phase := .closed false } (msg.acting?.map (·, late)).toList ?_ ?_
        · simp [socketStep, hphase, hkeeps]
        · rw [hphase]
          exact Nat.succ_pos 2
      · refine htake (.handled true) { w with phase := .serving seen } (msg.acting?.map (·, late)).toList ?_ ?_
        · simp [socketStep, hphase, hkeeps]
        · rw [hphase]
          exact Nat.lt_succ_self 2
    · rw [hphase] at hopen
      cases hopen

end Invariant

/-- **Revocation ends control streams** in every run in which a token is revoked only while its open
sockets are in their loops, and the loops were given it: on the relayed arm, with the token in the
headers. -/
theorem revocation_enforced {as : List Action} {s : Server} (hrun : Runs.run step .start as = some s)
    (hmeets : Runs.Meets step Guarded .start as) : Enforced s := by
  have hinv : ServerInv s := Runs.run_invariant_of_meets (fun h hC hstep => serverInv_step h hC hstep) hrun hmeets
    serverInv_start
  exact ⟨hinv.applied, fun i w hw hrevoked => leaves_of_inv hinv hw hrevoked,
    fun w hw hclosed => (hinv.sockets w hw).lost hclosed⟩

/-- The token comes in a cookie; the session is another node's. -/
def relayedRequest : Request := ⟨none, none, some "t", some "node"⟩

/-- A relayed socket is opened, its token revoked, and the loop leaves with a message waiting. -/
def revokedRun : List Action :=
  [.issue "t", .upgrade relayedRequest, .socket 0 (.attached true), .socket 0 (.greeted true), .revoke "t", .notify "t",
    .socket 0 (.arrive (.text (some .detach))), .socket 0 (.turn none), .socket 0 .validated]

theorem revocation_enforced_relayed : ∃ s, Runs.run step .start revokedRun = some s ∧
    (s.sockets.map Socket.phase = [.closed true]) ∧ Enforced s := by
  have hrun : (Runs.run step .start revokedRun).any (fun s => s.sockets.map Socket.phase = [.closed true]) = true := by
    decide +kernel
  obtain ⟨s, hs, hclosed⟩ := (Option.any_eq_true _ _).mp hrun
  exact ⟨s, hs, of_decide_eq_true hclosed, revocation_enforced hs (by decide +kernel)⟩

/-- On the local arm the loop has no token to watch: a message that arrives after the revocation acts on
the session. On the relayed arm it has not subscribed while the attach is being set up. -/
theorem revocation_missed :
    (∃ s, Runs.run step .start [.issue "t", .upgrade ⟨none, none, some "t", none⟩, .socket 0 (.attached true),
        .socket 0 (.greeted true), .revoke "t", .notify "t", .socket 0 (.arrive (.text (some (.input "rm" false)))),
        .socket 0 (.turn none), .socket 0 (.handled true)] = some s ∧ ¬ Enforced s) ∧
      ∃ s, Runs.run step .start [.issue "t", .upgrade relayedRequest, .revoke "t", .notify "t",
        .socket 0 (.attached true), .socket 0 (.greeted true),
        .socket 0 (.arrive (.text (some (.input "rm" false)))), .socket 0 (.turn none), .socket 0 (.handled true)] =
          some s ∧ ¬ Enforced s := by
  have hlate : ∀ {s : Server}, s.applied = [(.input "rm" false, true)] → ¬ Enforced s := by
    intro s happlied h
    have hnot := h.applied (.input "rm" false, true) (by rw [happlied]; exact List.mem_cons_self)
    cases hnot
  have hlocal : (Runs.run step .start [.issue "t", .upgrade ⟨none, none, some "t", none⟩, .socket 0 (.attached true),
      .socket 0 (.greeted true), .revoke "t", .notify "t", .socket 0 (.arrive (.text (some (.input "rm" false)))),
      .socket 0 (.turn none), .socket 0 (.handled true)]).any
        (fun s => s.applied = [(ClientMessage.input "rm" false, true)]) = true := by
    decide +kernel
  have hrelayed : (Runs.run step .start [.issue "t", .upgrade relayedRequest, .revoke "t", .notify "t",
      .socket 0 (.attached true), .socket 0 (.greeted true),
      .socket 0 (.arrive (.text (some (.input "rm" false)))), .socket 0 (.turn none), .socket 0 (.handled true)]).any
        (fun s => s.applied = [(ClientMessage.input "rm" false, true)]) = true := by
    decide +kernel
  obtain ⟨s, hs, happlied⟩ := (Option.any_eq_true _ _).mp hlocal
  obtain ⟨s', hs', happlied'⟩ := (Option.any_eq_true _ _).mp hrelayed
  exact ⟨⟨s, hs, hlate (of_decide_eq_true happlied)⟩, s', hs', hlate (of_decide_eq_true happlied')⟩

end Ws
end OpenRelay
