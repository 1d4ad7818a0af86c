/-
# Two nodes and the network between them

The two ends of a connection, and a network that an adversary holds: it delivers
any bytes to either end, in any order and number. Of the cipher only this is
assumed: a ciphertext that it accepts was made by one of the ends, under that key
and nonce. Then each end accepts a prefix of what the other has sealed; an end that
failed once refuses all that follows; and no nonce is used twice under a key
(`delivers_prefix`).

Key theorems: `EndInv.step`, `LinkInv.step`.
-/
import OpenRelay.Federation.Channel
import Mathlib.Logic.Function.Basic

namespace OpenRelay
namespace Federation

open BigEndian
open Ipc (text)

variable {T : Type*}

/-- An end of the connection with what it has done so far. -/
structure End where
  channel : Channel
  /-- The calls of the cipher's encryption. -/
  calls : List Call
  /-- The messages that it has sealed. -/
  sealed : List Bytes
  /-- The plaintexts that it has accepted. -/
  accepted : List Bytes
  /-- For each operation, whether it succeeded. -/
  outcomes : List Bool

/-- An end that has done nothing yet. -/
def End.start (c : Channel) : End := ⟨c, [], [], [], []⟩

/-- An operation of an end. -/
inductive Operation (T : Type*) where
  | encode (payload : Bytes)
  | decode (frame : Bytes) (parse : Bytes → Except AppError T)

/-- A parser that also keeps the plaintext. -/
def keepPlain (parse : Bytes → Except AppError T) (plain : Bytes) : Except AppError (Bytes × T) :=
  (parse plain).map fun parsed => (plain, parsed)

def End.step (P : Primitives) (e : End) : Operation T → End
  | .encode payload =>
    match e.channel.encode P payload with
    | (channel, call, .ok _) =>
      { e with channel, calls := e.calls ++ call.toList, sealed := e.sealed ++ [payload], outcomes := e.outcomes ++ [true] }
    | (channel, call, .error _) =>
      { e with channel, calls := e.calls ++ call.toList, outcomes := e.outcomes ++ [false] }
  | .decode frame parse =>
    match e.channel.decode P frame (keepPlain parse) with
    | (channel, .ok (plain, _)) =>
      { e with channel, accepted := e.accepted ++ [plain], outcomes := e.outcomes ++ [true] }
    | (channel, .error _) => { e with channel, outcomes := e.outcomes ++ [false] }

/-- The two ends of a connection. -/
inductive Side where
  | secondary
  | primary
  deriving DecidableEq, Repr

/-- The other end. -/
def Side.peer : Side → Side
  | secondary => primary
  | primary => secondary

/-- Both ends. -/
abbrev Link := Side → End

/-- Two ends that have done nothing yet. -/
def Link.start (secondary primary : Channel) : Link
  | .secondary => .start secondary
  | .primary => .start primary

/-- Any end may act at any time, on any frame. -/
def Link.step (P : Primitives) (s : Link) (a : Side × Operation T) : Option Link :=
  some (Function.update s a.1 ((s a.1).step P a.2))

/-- If the cipher accepts the ciphertext that an end asks it about, one of the ends has made it
under that key and nonce. -/
def Genuine (P : Primitives) (s : Link) : Side × Operation T → Prop
  | (_, .encode _) => True
  | (side, .decode frame _) =>
    let c := (s side).channel
    ∀ plain, P.decrypt c.recv.key (nonceFor c.recv.recvSeq) (frameAad c.recvAad c.recv.recvSeq)
      (frame.drop sealedHeaderLen) = some plain →
      ∃ maker, ∃ call ∈ (s maker).calls, call.key = c.recv.key ∧ call.nonce = nonceFor c.recv.recvSeq ∧
        call.result = some (frame.drop sealedHeaderLen)

instance (P : Primitives) (s : Link) (a : Side × Operation T) : Decidable (Genuine P s a) :=
  match a with
  | (_, .encode _) => .isTrue trivial
  | (side, .decode frame _) =>
    let c := (s side).channel
    decidable_of_iff ((P.decrypt c.recv.key (nonceFor c.recv.recvSeq) (frameAad c.recvAad c.recv.recvSeq)
        (frame.drop sealedHeaderLen)).isSome →
      ∃ call ∈ (s .secondary).calls ++ (s .primary).calls, call.key = c.recv.key ∧
        call.nonce = nonceFor c.recv.recvSeq ∧ call.result = some (frame.drop sealedHeaderLen)) <| by
      constructor
      · intro h plain hplain
        obtain ⟨call, hmem, hcall⟩ := h (by rw [hplain]; rfl)
        rcases List.mem_append.mp hmem with hmem | hmem
        · exact ⟨.secondary, call, hmem, hcall⟩
        · exact ⟨.primary, call, hmem, hcall⟩
      · intro h hsome
        obtain ⟨plain, hplain⟩ := Option.isSome_iff_exists.mp hsome
        obtain ⟨maker, call, hmem, hcall⟩ := h plain hplain
        refine ⟨call, List.mem_append.mpr ?_, hcall⟩
        cases maker
        · exact .inl hmem
        · exact .inr hmem

/-! ### One end -/

/-- What an operation can do: it fails, with no more to show for it than a flag, or with a call of
the cipher that failed; it seals a message under the next number; or it accepts the frame that
is next. -/
theorem End.step_cases (P : Primitives) (e : End) (op : Operation T) :
    (∃ sf rf, (sf = true ∨ rf = true) ∧ (e.channel.send.failed = true → sf = true) ∧
      e.step P op = { e with
        channel := { e.channel with
          send := { e.channel.send with failed := sf }
          recv := { e.channel.recv with failed := rf } }
        outcomes := e.outcomes ++ [false] }) ∨
    (∃ payload, e.channel.send.failed = false ∧ ¬maxSequence ≤ e.channel.send.sendSeq ∧
      (callFor P e.channel.send.key e.channel.sendAad e.channel.send.sendSeq payload).result = none ∧
      e.step P op = { e with
        channel := { e.channel with
          send := { e.channel.send with sendSeq := e.channel.send.sendSeq + 1, failed := true } }
        calls := e.calls ++ [callFor P e.channel.send.key e.channel.sendAad e.channel.send.sendSeq payload]
        outcomes := e.outcomes ++ [false] }) ∨
    (∃ payload ct, e.channel.send.failed = false ∧ e.channel.recv.failed = false ∧
      ¬maxSequence ≤ e.channel.send.sendSeq ∧
      (callFor P e.channel.send.key e.channel.sendAad e.channel.send.sendSeq payload).result = some ct ∧
      e.step P op = { e with
        channel := { e.channel with
          send := { e.channel.send with sendSeq := e.channel.send.sendSeq + 1 } }
        calls := e.calls ++ [callFor P e.channel.send.key e.channel.sendAad e.channel.send.sendSeq payload]
        sealed := e.sealed ++ [payload]
        outcomes := e.outcomes ++ [true] }) ∨
    (∃ frame parse plain, op = .decode frame parse ∧
      e.channel.send.failed = false ∧ e.channel.recv.failed = false ∧
      ¬maxSequence ≤ e.channel.recv.recvSeq ∧
      P.decrypt e.channel.recv.key (nonceFor e.channel.recv.recvSeq)
        (frameAad e.channel.recvAad e.channel.recv.recvSeq) (frame.drop sealedHeaderLen) = some plain ∧
      e.step P op = { e with
        channel := { e.channel with
          recv := { e.channel.recv with recvSeq := e.channel.recv.recvSeq + 1 } }
        accepted := e.accepted ++ [plain]
        outcomes := e.outcomes ++ [true] }) := by
  obtain ⟨⟨send, recv, sendAad, recvAad, hash⟩, calls, sealed, accepted, outcomes⟩ := e
  cases op with
  | encode payload =>
    simp only [End.step, Channel.encode]
    by_cases hrecv : recv.failed = true
    · refine .inl ⟨send.failed, recv.failed, .inr hrecv, id, ?_⟩
      rw [if_pos hrecv]
      simp only [Option.toList_none, List.append_nil]
    · rcases send.seal_cases P sendAad payload with ⟨err, heq⟩ | ⟨hf, hmax, hnone, err, heq⟩ |
        ⟨hf, hmax, ct, hct, heq⟩
      · refine .inl ⟨true, recv.failed, .inl rfl, fun _ => rfl, ?_⟩
        rw [if_neg hrecv, heq]
        simp only [Option.toList_none, List.append_nil]
      · refine .inr (.inl ⟨payload, hf, hmax, hnone, ?_⟩)
        rw [if_neg hrecv, heq]
        rfl
      · refine .inr (.inr (.inl ⟨payload, ct, hf, eq_false_of_ne_true hrecv, hmax, hct, ?_⟩))
        rw [if_neg hrecv, heq]
        rfl
  | decode frame parse =>
    simp only [End.step, Channel.decode]
    by_cases hsend : send.failed = true
    · refine .inl ⟨send.failed, recv.failed, .inl hsend, id, ?_⟩
      rw [if_pos hsend]
    · rcases recv.openValidated_cases P recvAad frame (keepPlain parse) with ⟨err, heq⟩ |
        ⟨hf, hmax, plain, parsed, hplain, hparsed, heq⟩
      · refine .inl ⟨send.failed, true, .inr rfl, id, ?_⟩
        rw [if_neg hsend, heq]
      · obtain ⟨t, -, rfl⟩ : ∃ t, parse plain = .ok t ∧ (plain, t) = parsed := by
          unfold keepPlain at hparsed
          rcases hp : parse plain with err | t
          · rw [hp] at hparsed
            cases hparsed
          · rw [hp] at hparsed
            exact ⟨t, rfl, Except.ok.inj hparsed⟩
        refine .inr (.inr (.inr ⟨frame, parse, plain, rfl, eq_false_of_ne_true hsend, hf, hmax, hplain, ?_⟩))
        rw [if_neg hsend, heq]

/-- An end after any operations: the keys and contexts are those it began with, the counters
count what it has done, and a failure is final. -/
structure EndInv (P : Primitives) (c₀ : Channel) (e : End) : Prop where
  sendKey : e.channel.send.key = c₀.send.key
  recvKey : e.channel.recv.key = c₀.recv.key
  sendAad : e.channel.sendAad = c₀.sendAad
  recvAad : e.channel.recvAad = c₀.recvAad
  counted : e.channel.send.sendSeq.toNat = e.calls.length
  bounded : e.calls.length ≤ maxSequence.toNat
  received : e.channel.recv.recvSeq.toNat = e.accepted.length
  numbered : ∀ (i : ℕ) (call : Call), e.calls[i]? = some call →
    call = callFor P c₀.send.key c₀.sendAad (UInt64.ofNat i) call.msg
  sealed_length : e.channel.send.failed = false → e.sealed.length = e.calls.length
  sealed_at : ∀ (i : ℕ) (call : Call), e.calls[i]? = some call → call.result.isSome →
    e.sealed[i]? = some call.msg
  failed : false ∈ e.outcomes → e.channel.send.failed = true ∨ e.channel.recv.failed = true
  final : e.outcomes.Pairwise fun earlier later => earlier = false → later = false

theorem endInv_start {P : Primitives} {c : Channel} (hsend : c.send.sendSeq = 0) (hrecv : c.recv.recvSeq = 0) :
    EndInv P c (.start c) where
  sendKey := rfl
  recvKey := rfl
  sendAad := rfl
  recvAad := rfl
  counted := by
    show c.send.sendSeq.toNat = 0
    rw [hsend]
    rfl
  bounded := Nat.zero_le _
  received := by
    show c.recv.recvSeq.toNat = 0
    rw [hrecv]
    rfl
  numbered _ _ h := by cases h
  sealed_length _ := rfl
  sealed_at _ _ h := by cases h
  failed h := by cases h
  final := .nil

/-- An element of a list with one more is one of the list or the new one. -/
theorem getElem?_snoc {α : Type*} {l : List α} {a b : α} {i : ℕ} (h : (l ++ [a])[i]? = some b) :
    l[i]? = some b ∨ i = l.length ∧ a = b := by
  rcases Nat.lt_or_ge i l.length with hlt | hge
  · rw [List.getElem?_append_left hlt] at h
    exact .inl h
  · rw [List.getElem?_append_right hge, List.getElem?_singleton] at h
    split at h
    next hi => exact .inr ⟨by omega, Option.some.inj h⟩
    next => cases h

/-- A failure stays final when another follows. -/
theorem final_snoc_false {l : List Bool} (h : l.Pairwise fun earlier later => earlier = false → later = false) :
    (l ++ [false]).Pairwise fun earlier later => earlier = false → later = false := by
  refine List.pairwise_append.mpr ⟨h, List.pairwise_singleton _ _, ?_⟩
  intro a _ b hb _
  exact List.mem_singleton.mp hb

/-- A success follows successes only. -/
theorem final_snoc_true {l : List Bool} (h : l.Pairwise fun earlier later => earlier = false → later = false)
    (hnone : false ∉ l) : (l ++ [true]).Pairwise fun earlier later => earlier = false → later = false := by
  refine List.pairwise_append.mpr ⟨h, List.pairwise_singleton _ _, ?_⟩
  intro a ha b _ hfalse
  exact absurd (hfalse ▸ ha) hnone

section Step

variable {P : Primitives} {c₀ : Channel} {e : End}

/-- The next call's number is new. -/
theorem EndInv.numbered_snoc (h : EndInv P c₀ e) {payload : Bytes} :
    ∀ (i : ℕ) (call : Call),
      (e.calls ++ [callFor P e.channel.send.key e.channel.sendAad e.channel.send.sendSeq payload])[i]? = some call →
      call = callFor P c₀.send.key c₀.sendAad (UInt64.ofNat i) call.msg := by
  intro i call hcall
  rcases getElem?_snoc hcall with hold | ⟨hi, hnew⟩
  · exact h.numbered i call hold
  · have hseq : UInt64.ofNat i = e.channel.send.sendSeq := by
      rw [hi, ← h.counted, UInt64.ofNat_toNat]
    rw [← hnew, h.sendKey, h.sendAad, hseq]
    rfl

theorem EndInv.bounded_snoc (h : EndInv P c₀ e) (hmax : ¬maxSequence ≤ e.channel.send.sendSeq) :
    e.calls.length + 1 ≤ maxSequence.toNat := by
  rw [UInt64.not_le, UInt64.lt_iff_toNat_lt, h.counted] at hmax
  exact hmax

/-- **What an end keeps.** No assumption on the cipher is needed. -/
theorem EndInv.step (h : EndInv P c₀ e) (op : Operation T) : EndInv P c₀ (e.step P op) := by
  have hno : e.channel.send.failed = false → e.channel.recv.failed = false → false ∉ e.outcomes := by
    intro hs hr hmem
    rcases h.failed hmem with h' | h'
    · rw [hs] at h'
      cases h'
    · rw [hr] at h'
      cases h'
  rcases e.step_cases P op with ⟨sf, rf, hflag, hsf, heq⟩ | ⟨payload, hf, hmax, hnone, heq⟩ |
    ⟨payload, ct, hf, hr, hmax, hct, heq⟩ | ⟨frame, parse, plain, -, hf, hr, hmax, -, heq⟩
  · rw [heq]
    refine ⟨h.sendKey, h.recvKey, h.sendAad, h.recvAad, h.counted, h.bounded, h.received, h.numbered,
      ?_, h.sealed_at, fun _ => hflag, final_snoc_false h.final⟩
    intro hfalse
    apply h.sealed_length
    rcases hsend : e.channel.send.failed with _ | _
    · rfl
    · rw [hsf hsend] at hfalse
      cases hfalse
  · rw [heq]
    refine ⟨h.sendKey, h.recvKey, h.sendAad, h.recvAad, ?_, ?_, h.received, h.numbered_snoc,
      (fun hfalse => by cases hfalse), ?_, fun _ => .inl rfl, final_snoc_false h.final⟩
    · rw [succ_toNat hmax, h.counted, List.length_append, List.length_singleton]
    · rw [List.length_append, List.length_singleton]
      exact h.bounded_snoc hmax
    · intro i call hcall hsome
      rcases getElem?_snoc hcall with hold | ⟨-, hnew⟩
      · exact h.sealed_at i call hold hsome
      · rw [← hnew, hnone] at hsome
        cases hsome
  · rw [heq]
    refine ⟨h.sendKey, h.recvKey, h.sendAad, h.recvAad, ?_, ?_, h.received, h.numbered_snoc,
      fun hfalse => ?_, ?_, fun hmem => ?_, final_snoc_true h.final (hno hf hr)⟩
    · rw [succ_toNat hmax, h.counted, List.length_append, List.length_singleton]
    · rw [List.length_append, List.length_singleton]
      exact h.bounded_snoc hmax
    · rw [List.length_append, List.length_append, h.sealed_length hfalse]
      rfl
    · intro i call hcall hsome
      rcases getElem?_snoc hcall with hold | ⟨hi, hnew⟩
      · have hsealed := h.sealed_at i call hold hsome
        rw [List.getElem?_append_left (List.getElem?_eq_some_iff.mp hsealed).1]
        exact hsealed
      · rw [hi, ← h.sealed_length hf, List.getElem?_concat_length, ← hnew]
        rfl
    · rcases List.mem_append.mp hmem with hmem | hmem
      · exact absurd hmem (hno hf hr)
      · cases List.mem_singleton.mp hmem
  · rw [heq]
    refine ⟨h.sendKey, h.recvKey, h.sendAad, h.recvAad, h.counted, h.bounded, ?_, h.numbered,
      h.sealed_length, h.sealed_at, fun hmem => ?_, final_snoc_true h.final (hno hf hr)⟩
    · rw [succ_toNat hmax, h.received, List.length_append, List.length_singleton]
    · rcases List.mem_append.mp hmem with hmem | hmem
      · exact absurd hmem (hno hf hr)
      · cases List.mem_singleton.mp hmem

end Step

theorem End.sealed_step (P : Primitives) (e : End) (op : Operation T) : e.sealed <+: (e.step P op).sealed := by
  rcases e.step_cases P op with ⟨_, _, -, -, heq⟩ | ⟨_, -, -, -, heq⟩ | ⟨payload, _, -, -, -, -, heq⟩ |
    ⟨_, _, _, -, -, -, -, -, heq⟩
  · rw [heq]
  · rw [heq]
  · rw [heq]
    exact List.prefix_append _ _
  · rw [heq]

/-! ### The handshake -/

/-- Both ends compute the same secret. -/
def Primitives.Agrees (P : Primitives) (k₁ k₂ : Bytes) : Prop :=
  ∀ x₁ x₂, P.montgomery (P.verifyingKey k₁) = .ok x₁ → P.montgomery (P.verifyingKey k₂) = .ok x₂ →
    P.diffieHellman (P.staticSecret k₁) x₂ = P.diffieHellman (P.staticSecret k₂) x₁

/-- The key derivation gives the two labels of this connection keys of their own. -/
def Primitives.LabelsApart (P : Primitives) (localKey peer transcript : Bytes) : Prop :=
  ∀ peerX keys, P.montgomery peer = .ok peerX →
    deriveChannelKeys P (P.staticSecret localKey) peerX transcript (P.verifyingKey localKey) peer = .ok keys →
      keys.c2s ≠ keys.s2c

theorem new_ok {P : Primitives} {localKey peer transcript : Bytes} {secondary : Bool} {c : Channel}
    (h : Channel.new P localKey peer transcript secondary = .ok c) :
    ∃ peerX keys, P.montgomery peer = .ok peerX ∧
      deriveChannelKeys P (P.staticSecret localKey) peerX transcript (P.verifyingKey localKey) peer = .ok keys ∧
      c = Channel.ofKeys keys (P.sha256 transcript) secondary := by
  unfold Channel.new at h
  split at h
  next => cases h
  next peerX hx =>
    rcases hkeys : deriveChannelKeys P (P.staticSecret localKey) peerX transcript (P.verifyingKey localKey)
      peer with e | keys
    · rw [hkeys] at h
      cases h
    · rw [hkeys] at h
      exact ⟨peerX, keys, hx, hkeys, (Except.ok.inj h).symm⟩

/-- The keys depend on the secret and on the two identities, not on who asks. -/
theorem deriveChannelKeys_comm {P : Primitives} {x₁ x₂ y₁ y₂ : Bytes} (transcript e₁ e₂ : Bytes)
    (h : P.diffieHellman x₁ y₂ = P.diffieHellman x₂ y₁) :
    deriveChannelKeys P x₁ y₂ transcript e₁ e₂ = deriveChannelKeys P x₂ y₁ transcript e₂ e₁ := by
  unfold deriveChannelKeys
  rw [h, orderPair_comm e₁ e₂]

/-- The two ends of a connection, as the link's steps need them. -/
structure Matched (c : Side → Channel) : Prop where
  aad : ∀ side : Side, (c side).recvAad = (c side.peer).sendAad
  /-- An end does not accept what it has sent. -/
  ownKeys : ∀ side : Side, (c side).send.key ≠ (c side).recv.key
  sendKeys : (c .secondary).send.key ≠ (c .primary).send.key
  fresh : ∀ side : Side, (c side).send.sendSeq = 0 ∧ (c side).recv.recvSeq = 0

/-- **The two ends of a handshake match.** -/
theorem matched_new {P : Primitives} {secondaryKey primaryKey transcript : Bytes} {c : Side → Channel}
    (hagree : P.Agrees secondaryKey primaryKey)
    (hlabels : P.LabelsApart secondaryKey (P.verifyingKey primaryKey) transcript)
    (hsecondary : Channel.new P secondaryKey (P.verifyingKey primaryKey) transcript true = .ok (c .secondary))
    (hprimary : Channel.new P primaryKey (P.verifyingKey secondaryKey) transcript false = .ok (c .primary)) :
    Matched c := by
  obtain ⟨x₂, keys, hx₂, hkeys, hc₁⟩ := new_ok hsecondary
  obtain ⟨x₁, keys', hx₁, hkeys', hc₂⟩ := new_ok hprimary
  have hsame : keys = keys' := by
    rw [deriveChannelKeys_comm _ _ _ (hagree x₁ x₂ hx₁ hx₂), hkeys'] at hkeys
    exact (Except.ok.inj hkeys).symm
  have hne : keys.c2s ≠ keys.s2c := hlabels x₂ keys hx₂ hkeys
  rw [← hsame] at hc₂
  refine ⟨?_, ?_, ?_, ?_⟩
  · intro side
    cases side
    · rw [hc₁, Side.peer, hc₂]
      rfl
    · rw [hc₂, Side.peer, hc₁]
      rfl
  · intro side
    cases side
    · rw [hc₁]
      exact hne
    · rw [hc₂]
      exact hne.symm
  · rw [hc₁, hc₂]
    exact hne
  · intro side
    cases side
    · rw [hc₁]
      exact ⟨rfl, rfl⟩
    · rw [hc₂]
      exact ⟨rfl, rfl⟩

/-! ### The link -/

/-- Both ends keep their invariant, and each has accepted a prefix of what the other has sealed. -/
structure LinkInv (P : Primitives) (c : Side → Channel) (s : Link) : Prop where
  ends : ∀ side, EndInv P (c side) (s side)
  delivered : ∀ side : Side, (s side).accepted <+: (s side.peer).sealed

section Link

variable {P : Primitives} {c : Side → Channel} {s t : Link}

theorem EndInv.index_lt {c₀ : Channel} {e : End} (h : EndInv P c₀ e) {i : ℕ} {call : Call}
    (hcall : e.calls[i]? = some call) : i < 2 ^ 64 := by
  have hi : i < e.calls.length := (List.getElem?_eq_some_iff.mp hcall).1
  have hmax := h.bounded
  rw [maxSequence_toNat] at hmax
  omega

/-- A call under a nonce is the one with that number. -/
theorem EndInv.call_at {c₀ : Channel} {e : End} (h : EndInv P c₀ e) {call : Call} (hmem : call ∈ e.calls)
    {seq : UInt64} (hnonce : call.nonce = nonceFor seq) :
    e.calls[seq.toNat]? = some call ∧ call = callFor P c₀.send.key c₀.sendAad seq call.msg := by
  obtain ⟨i, hi⟩ := List.mem_iff_getElem?.mp hmem
  have hcall := h.numbered i call hi
  have hseq : UInt64.ofNat i = seq := by
    rw [hcall] at hnonce
    exact nonceFor_injective hnonce
  have hnat : seq.toNat = i := by
    rw [← hseq, UInt64.toNat_ofNat', Nat.mod_eq_of_lt (h.index_lt hi)]
  rw [hnat, ← hseq]
  exact ⟨hi, hcall⟩

/-- **What an end accepts is what its peer sealed next.** -/
theorem LinkInv.accepts (hround : P.RoundTrip) (hc : Matched c) (h : LinkInv P c s) {side : Side}
    {frame : Bytes} {parse : Bytes → Except AppError T} (hgenuine : Genuine P s (side, .decode frame parse))
    {plain : Bytes}
    (hplain : P.decrypt (s side).channel.recv.key (nonceFor (s side).channel.recv.recvSeq)
      (frameAad (s side).channel.recvAad (s side).channel.recv.recvSeq) (frame.drop sealedHeaderLen) = some plain) :
    (s side.peer).sealed[(s side).accepted.length]? = some plain := by
  have hend := h.ends side
  obtain ⟨maker, call, hmem, hkey, hnonce, hresult⟩ := hgenuine plain hplain
  obtain ⟨hat, hcall⟩ := (h.ends maker).call_at hmem hnonce
  -- the maker is not this end itself, whose key is another
  have hmaker : maker = side.peer := by
    have hne : maker ≠ side := by
      rintro rfl
      have hown : call.key = (c maker).send.key := by rw [hcall]; rfl
      rw [hown, hend.recvKey] at hkey
      exact hc.ownKeys maker hkey
    cases maker <;> cases side
    · exact absurd rfl hne
    · rfl
    · rfl
    · exact absurd rfl hne
  subst hmaker
  have hmsg : plain = call.msg := by
    have hencrypt : P.encrypt call.key call.nonce call.aad call.msg = some (frame.drop sealedHeaderLen) := by
      rw [← hresult, hcall]
      rfl
    have haad : call.aad = frameAad (s side).channel.recvAad (s side).channel.recv.recvSeq := by
      rw [hend.recvAad, hc.aad side, hcall]
      rfl
    have hdecrypt := hround _ _ _ _ _ hencrypt
    rw [hkey, hnonce, haad, hplain] at hdecrypt
    exact Option.some.inj hdecrypt
  have hsealed := (h.ends side.peer).sealed_at _ call hat (by rw [hresult]; rfl)
  rw [← hend.received, hsealed, hmsg]

theorem prefix_snoc {α : Type*} {r l : List α} {a : α} (h : r <+: l) (ha : l[r.length]? = some a) :
    r ++ [a] <+: l := by
  obtain ⟨rest, rfl⟩ := h
  rw [List.getElem?_append_right (Nat.le_refl _), Nat.sub_self] at ha
  cases rest with
  | nil => cases ha
  | cons b rest =>
    rw [List.getElem?_cons_zero] at ha
    rw [Option.some.inj ha]
    exact ⟨rest, by rw [List.append_assoc, List.singleton_append]⟩

/-- **What the link keeps.** -/
theorem LinkInv.step (hround : P.RoundTrip) (hc : Matched c) (h : LinkInv P c s) {a : Side × Operation T}
    (hgenuine : Genuine P s a) (hstep : Link.step P s a = some t) : LinkInv P c t := by
  obtain ⟨side, op⟩ := a
  cases hstep
  have hpeer : side.peer ≠ side := by cases side <;> exact Side.noConfusion
  have hkeep : ∀ other, (s other).sealed <+: (Function.update s side ((s side).step P op) other).sealed := by
    intro other
    by_cases hother : other = side
    · subst hother
      rw [Function.update_self]
      exact End.sealed_step P _ op
    · rw [Function.update_of_ne hother]
  refine ⟨fun other => ?_, fun other => ?_⟩
  · by_cases hother : other = side
    · subst hother
      rw [Function.update_self]
      exact (h.ends other).step op
    · rw [Function.update_of_ne hother]
      exact h.ends other
  · by_cases hother : other = side
    · subst hother
      rw [Function.update_self, Function.update_of_ne hpeer]
      rcases (s other).step_cases P op with ⟨_, _, -, -, heq⟩ | ⟨_, -, -, -, heq⟩ | ⟨_, _, -, -, -, -, heq⟩ |
        ⟨frame, parse, plain, hop, -, -, -, hplain, heq⟩
      · rw [heq]
        exact h.delivered other
      · rw [heq]
        exact h.delivered other
      · rw [heq]
        exact h.delivered other
      · subst hop
        rw [heq]
        exact prefix_snoc (h.delivered other) (h.accepts hround hc hgenuine hplain)
    · rw [Function.update_of_ne hother]
      exact (h.delivered other).trans (hkeep other.peer)

theorem linkInv_start (hc : Matched c) : LinkInv P c (Link.start (c .secondary) (c .primary)) := by
  refine ⟨fun side => ?_, fun side => ?_⟩
  · cases side
    · exact endInv_start (hc.fresh .secondary).1 (hc.fresh .secondary).2
    · exact endInv_start (hc.fresh .primary).1 (hc.fresh .primary).2
  · cases side <;> exact List.nil_prefix

theorem linkInv_run (hround : P.RoundTrip) (hc : Matched c) {as : List (Side × Operation T)}
    (hrun : Runs.run (Link.step P) (Link.start (c .secondary) (c .primary)) as = some t)
    (hgenuine : Runs.Meets (Link.step P) (Genuine P) (Link.start (c .secondary) (c .primary)) as) :
    LinkInv P c t :=
  Runs.run_invariant_of_meets (fun h hg hstep => h.step hround hc hg hstep) hrun hgenuine (linkInv_start hc)

/-- No end uses a nonce twice. -/
theorem EndInv.nonces_nodup {c₀ : Channel} {e : End} (h : EndInv P c₀ e) :
    (e.calls.map fun call => (call.key, call.nonce)).Nodup := by
  refine List.pairwise_map.mpr (List.pairwise_iff_getElem.mpr ?_)
  intro i j hi hj hlt hsame
  have hcall_i := h.numbered i _ (List.getElem?_eq_getElem hi)
  have hcall_j := h.numbered j _ (List.getElem?_eq_getElem hj)
  have hnonce : nonceFor (UInt64.ofNat i) = nonceFor (UInt64.ofNat j) := by
    have := (Prod.mk.inj hsame).2
    rw [hcall_i, hcall_j] at this
    exact this
  have hnat := congrArg UInt64.toNat (nonceFor_injective hnonce)
  rw [UInt64.toNat_ofNat', UInt64.toNat_ofNat',
    Nat.mod_eq_of_lt (h.index_lt (List.getElem?_eq_getElem hi)),
    Nat.mod_eq_of_lt (h.index_lt (List.getElem?_eq_getElem hj))] at hnat
  omega

theorem EndInv.call_key {c₀ : Channel} {e : End} (h : EndInv P c₀ e) {call : Call} (hmem : call ∈ e.calls) :
    call.key = c₀.send.key := by
  obtain ⟨i, hi⟩ := List.mem_iff_getElem?.mp hmem
  rw [h.numbered i call hi]
  rfl

/-- No nonce is used twice under a key, by whichever end. -/
theorem LinkInv.nonces_nodup (hc : Matched c) (h : LinkInv P c s) :
    (((s .secondary).calls ++ (s .primary).calls).map fun call => (call.key, call.nonce)).Nodup := by
  rw [List.map_append, List.nodup_append]
  refine ⟨(h.ends .secondary).nonces_nodup, (h.ends .primary).nonces_nodup, ?_⟩
  intro a ha b hb hab
  obtain ⟨call₁, hmem₁, rfl⟩ := List.mem_map.mp ha
  obtain ⟨call₂, hmem₂, rfl⟩ := List.mem_map.mp hb
  have hkeys : call₁.key = call₂.key := (Prod.mk.inj hab).1
  rw [(h.ends .secondary).call_key hmem₁, (h.ends .primary).call_key hmem₂] at hkeys
  exact hc.sendKeys hkeys

/-- At the limit an end seals no more. -/
theorem EndInv.encode_limit {c₀ : Channel} {e : End} (h : EndInv P c₀ e)
    (hlimit : e.calls.length = maxSequence.toNat) (payload : Bytes) :
    ∃ err, (e.channel.encode P payload).2.2 = .error err := by
  have hmax : maxSequence ≤ e.channel.send.sendSeq := by
    rw [UInt64.le_iff_toNat_le, h.counted, hlimit]
  unfold Channel.encode
  split
  next => exact ⟨_, rfl⟩
  next =>
    unfold ChannelSide.seal
    rw [if_pos (.inr hmax)]
    exact ⟨_, rfl⟩

/-- **The sealed channel delivers a prefix.** In every run of the two ends of a handshake and a
network that does as it likes: each end has accepted a prefix of what the other has sealed; after
its first failure an end does nothing more, in either direction; no nonce is used twice under a
key; and the counters stop at their limit. -/
theorem delivers_prefix {secondaryKey primaryKey transcript : Bytes} {a b : Channel}
    (hround : P.RoundTrip) (hagree : P.Agrees secondaryKey primaryKey)
    (hlabels : P.LabelsApart secondaryKey (P.verifyingKey primaryKey) transcript)
    (hsecondary : Channel.new P secondaryKey (P.verifyingKey primaryKey) transcript true = .ok a)
    (hprimary : Channel.new P primaryKey (P.verifyingKey secondaryKey) transcript false = .ok b)
    {as : List (Side × Operation T)} (hrun : Runs.run (Link.step P) (Link.start a b) as = some t)
    (hgenuine : Runs.Meets (Link.step P) (Genuine P) (Link.start a b) as) :
    (∀ side : Side, (t side).accepted <+: (t side.peer).sealed) ∧
    (∀ side, (t side).outcomes.Pairwise fun earlier later => earlier = false → later = false) ∧
    (((t .secondary).calls ++ (t .primary).calls).map fun call => (call.key, call.nonce)).Nodup ∧
    (∀ side, (t side).calls.length ≤ maxSequence.toNat ∧
      ((t side).calls.length = maxSequence.toNat →
        ∀ payload, ∃ e, ((t side).channel.encode P payload).2.2 = .error e)) := by
  let c : Side → Channel := fun side => match side with
    | .secondary => a
    | .primary => b
  have hc : Matched c := matched_new hagree hlabels hsecondary hprimary
  have h : LinkInv P c t := linkInv_run hround hc hrun hgenuine
  exact ⟨h.delivered, fun side => (h.ends side).final, h.nonces_nodup hc,
    fun side => ⟨(h.ends side).bounded, (h.ends side).encode_limit⟩⟩

end Link

/-! ### A connection -/

/-- A stand-in with the shapes of the real packages: keys and hashes of 32 bytes, a tag of 16. -/
def toyNumber (bytes : Bytes) : ℕ := bytes.foldl (fun n b => n * 257 + b.toNat + 1) 0

def toyTag (key nonce aad msg : Bytes) : Bytes := beBytes 16 (toyNumber (key ++ nonce ++ aad ++ msg))

def toyPrimitives : Primitives where
  sha256 bytes := beBytes 32 (toyNumber bytes)
  verifyingKey k := beBytes 32 (9 * beNat k)
  montgomery peer := .ok peer
  staticSecret k := k
  diffieHellman secret peer := beBytes 32 (beNat secret * beNat peer)
  expand salt secret info := .ok (beBytes 32 (toyNumber (salt ++ secret ++ info)))
  encrypt key nonce aad msg := some (msg ++ toyTag key nonce aad msg)
  decrypt key nonce aad ct :=
    let msg := ct.take (ct.length - gcmTagLen)
    if ct.drop (ct.length - gcmTagLen) = toyTag key nonce aad msg then some msg else none

theorem toyPrimitives_roundTrip : toyPrimitives.RoundTrip := by
  intro key nonce aad msg ct h
  obtain rfl : msg ++ toyTag key nonce aad msg = ct := Option.some.inj h
  have hlen : (msg ++ toyTag key nonce aad msg).length - gcmTagLen = msg.length := by
    rw [List.length_append, toyTag, beBytes_length, gcmTagLen, Nat.add_sub_cancel]
  show (if List.drop _ _ = toyTag key nonce aad (List.take _ _) then some (List.take _ _) else none) = some msg
  rw [hlen, List.take_left, List.drop_left, if_pos rfl]

def toyKey (b : UInt8) : Bytes := List.replicate 32 b

def toyEnd (localKey peerKey : Bytes) (secondary : Bool) : Channel :=
  match Channel.new toyPrimitives localKey (toyPrimitives.verifyingKey peerKey) (text "session one") secondary with
  | .ok c => c
  | .error _ => Channel.ofKeys ⟨[], []⟩ [] secondary

/-- The frame of an end's first message. -/
def firstFrame (c : Channel) (msg : Bytes) : Bytes := (c.encode toyPrimitives msg).2.2.toOption.getD []

/-- The secondary greets, the primary answers, and the greeting is delivered once more. -/
def replayed (a b : Channel) : List (Side × Operation Bytes) :=
  [(.secondary, .encode (text "hello")), (.primary, .decode (firstFrame a (text "hello")) .ok),
    (.primary, .encode (text "ready")), (.secondary, .decode (firstFrame b (text "ready")) .ok),
    (.primary, .decode (firstFrame a (text "hello")) .ok), (.primary, .encode (text "more"))]

/-- The replay is refused, and the primary sends nothing after it. -/
theorem delivers_prefix_replayed : ∃ a b t,
    Channel.new toyPrimitives (toyKey 7) (toyPrimitives.verifyingKey (toyKey 8)) (text "session one") true = .ok a ∧
    Channel.new toyPrimitives (toyKey 8) (toyPrimitives.verifyingKey (toyKey 7)) (text "session one") false = .ok b ∧
    Runs.run (Link.step toyPrimitives) (Link.start a b) (replayed a b) = some t ∧
    ((t .primary).outcomes = [true, true, false, false] ∧ (t .primary).accepted = [text "hello"]) ∧
    ∀ side : Side, (t side).accepted <+: (t side.peer).sealed := by
  have hsecondary : Channel.new toyPrimitives (toyKey 7) (toyPrimitives.verifyingKey (toyKey 8))
      (text "session one") true = .ok (toyEnd (toyKey 7) (toyKey 8) true) := by decide +kernel
  have hprimary : Channel.new toyPrimitives (toyKey 8) (toyPrimitives.verifyingKey (toyKey 7))
      (text "session one") false = .ok (toyEnd (toyKey 8) (toyKey 7) false) := by decide +kernel
  generalize ha : toyEnd (toyKey 7) (toyKey 8) true = a at hsecondary
  generalize hb : toyEnd (toyKey 8) (toyKey 7) false = b at hprimary
  have hagree : toyPrimitives.Agrees (toyKey 7) (toyKey 8) := by
    intro x₁ x₂ h₁ h₂
    cases h₁
    cases h₂
    decide +kernel
  have hlabels : toyPrimitives.LabelsApart (toyKey 7) (toyPrimitives.verifyingKey (toyKey 8)) (text "session one") := by
    have hfacts : ∀ keys, (deriveChannelKeys toyPrimitives (toyPrimitives.staticSecret (toyKey 7))
        (toyPrimitives.verifyingKey (toyKey 8)) (text "session one") (toyPrimitives.verifyingKey (toyKey 7))
        (toyPrimitives.verifyingKey (toyKey 8))).toOption = some keys → keys.c2s ≠ keys.s2c := by
      decide +kernel
    intro peerX keys hx hkeys
    cases hx
    exact hfacts keys (by rw [hkeys]; rfl)
  have hgenuine : Runs.Meets (Link.step toyPrimitives) (Genuine toyPrimitives) (Link.start a b) (replayed a b) := by
    rw [← ha, ← hb]
    decide +kernel
  obtain ⟨t, hrun, hfacts⟩ : ∃ t : Link, Runs.run (Link.step toyPrimitives) (Link.start a b) (replayed a b) = some t ∧
      decide ((t .primary).outcomes = [true, true, false, false] ∧ (t .primary).accepted = [text "hello"]) = true := by
    apply (Option.any_eq_true _ _).mp
    rw [← ha, ← hb]
    decide +kernel
  have h := delivers_prefix toyPrimitives_roundTrip hagree hlabels hsecondary hprimary hrun hgenuine
  exact ⟨a, b, t, hsecondary, hprimary, hrun, of_decide_eq_true hfacts, h.1⟩

end Federation
end OpenRelay
