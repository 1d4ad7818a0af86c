/-
# The handshake

Two nodes sign a transcript of who they are and which nonces they drew, and derive
the keys of their channel from it (`federation_crypto.rs`). Every field of the
transcript stands behind its length, so the transcript gives its fields
(`buildTranscript_injective`).

The two ends decide by their role which key they send with. Built from one transcript
they send with one key each, which the other receives with (`matched_new`). So what
one end seals in order the other opens (`delivers`), and a frame that comes back to
the end that sealed it is refused (`reflected_refused`).

Key theorems: `DuplexInv.step`, `handshake_binds`.
-/
import Mathlib
import OpenRelay.Federation.Link
import OpenRelay.Lib.Fields
import OpenRelay.Lib.Utf8

namespace OpenRelay
namespace Federation

open BigEndian
open Ipc (text)

variable {T : Type*}

/-! ### The transcript -/

def nodeJoinContext : Bytes := text "oly-node-join-v2"

/-- The fields of the transcript in their order. -/
def transcriptFields (federationVersion : UInt16) (role name : String)
    (secondaryPub primaryPub secondaryNonce primaryNonce : Vector UInt8 32) : List Bytes :=
  [nodeJoinContext, beBytes 2 federationVersion.toNat, Utf8.encode role.toList, text "secondary", text "primary",
    Utf8.encode name.toList, secondaryPub.toList, primaryPub.toList, secondaryNonce.toList, primaryNonce.toList]

/-- Each field behind its length in four bytes; none if a length does not fit in them,
where the code panics. -/
def buildTranscript (federationVersion : UInt16) (role name : String)
    (secondaryPub primaryPub secondaryNonce primaryNonce : Vector UInt8 32) : Option Bytes :=
  let fields := transcriptFields federationVersion role name secondaryPub primaryPub secondaryNonce primaryNonce
  if ∀ field ∈ fields, field.length < 2 ^ 32 then some (Fields.framedAll (beBytes 4) fields) else none

theorem sizes_be : Fields.Sizes (beBytes 4) 4 (2 ^ 32) where
  width := beBytes_length 4
  injective hn hm h := beBytes_injOn (by omega) (by omega) h

theorem utf8_inj {s t : String} (h : Utf8.encode s.toList = Utf8.encode t.toList) : s = t := by
  rw [← String.toList_inj, ← Utf8.decode_encode s.toList, h, Utf8.decode_encode]

section Transcript

variable {v v' : UInt16} {role role' name name' : String}
  {secondaryPub secondaryPub' primaryPub primaryPub' secondaryNonce secondaryNonce' primaryNonce primaryNonce' : Vector UInt8 32}
  {t : Bytes}

theorem buildTranscript_some (h : buildTranscript v role name secondaryPub primaryPub secondaryNonce primaryNonce = some t) :
    (∀ field ∈ transcriptFields v role name secondaryPub primaryPub secondaryNonce primaryNonce, field.length < 2 ^ 32) ∧
      t = Fields.framedAll (beBytes 4) (transcriptFields v role name secondaryPub primaryPub secondaryNonce primaryNonce) := by
  unfold buildTranscript at h
  dsimp only at h
  split_ifs at h with hfits
  exact ⟨hfits, (Option.some.inj h).symm⟩

/-- Texts that are not too long have a transcript. -/
theorem buildTranscript_isSome (hrole : (Utf8.encode role.toList).length < 2 ^ 32)
    (hname : (Utf8.encode name.toList).length < 2 ^ 32) :
    (buildTranscript v role name secondaryPub primaryPub secondaryNonce primaryNonce).isSome := by
  have hfits : ∀ field ∈ transcriptFields v role name secondaryPub primaryPub secondaryNonce primaryNonce,
      field.length < 2 ^ 32 := by
    intro field hfield
    unfold transcriptFields at hfield
    simp only [List.mem_cons, List.not_mem_nil, or_false] at hfield
    rcases hfield with rfl | rfl | rfl | rfl | rfl | rfl | rfl | rfl | rfl | rfl
    · decide
    · rw [beBytes_length]
      omega
    · exact hrole
    · decide
    · decide
    · exact hname
    all_goals
      rw [Vector.length_toList]
      omega
  unfold buildTranscript
  dsimp only
  rw [if_pos hfits]
  rfl

/-- **The transcript gives its fields.** -/
theorem buildTranscript_injective
    (h : buildTranscript v role name secondaryPub primaryPub secondaryNonce primaryNonce = some t)
    (h' : buildTranscript v' role' name' secondaryPub' primaryPub' secondaryNonce' primaryNonce' = some t) :
    v = v' ∧ role = role' ∧ name = name' ∧ secondaryPub = secondaryPub' ∧ primaryPub = primaryPub' ∧
      secondaryNonce = secondaryNonce' ∧ primaryNonce = primaryNonce' := by
  obtain ⟨hfits, ht⟩ := buildTranscript_some h
  obtain ⟨hfits', ht'⟩ := buildTranscript_some h'
  have hlen : (transcriptFields v role name secondaryPub primaryPub secondaryNonce primaryNonce).length =
      (transcriptFields v' role' name' secondaryPub' primaryPub' secondaryNonce' primaryNonce').length := rfl
  have hfields := Fields.framedAll_injective sizes_be hlen hfits hfits' (ht.symm.trans ht')
  unfold transcriptFields at hfields
  simp only [List.cons.injEq, true_and, and_true, Vector.toList_inj] at hfields
  obtain ⟨hversion, hrole, hname, hrest⟩ := hfields
  have hv : v.toNat = v'.toNat :=
    beBytes_injOn (v.toNat_lt.trans_eq (by norm_num)) (v'.toNat_lt.trans_eq (by norm_num)) hversion
  exact ⟨UInt16.toNat_inj.mp hv, utf8_inj hrole, utf8_inj hname, hrest⟩

end Transcript

/-! ### The keys -/

/-- The info strings of the two directions. -/
def connectionInfos (localEd peerEd : Bytes) : List Bytes :=
  let (lo, hi) := orderPair localEd peerEd
  [channelInfo lo hi (text "c2s"), channelInfo lo hi (text "s2c")]

/-- The key derivation has a key of its own for each info string of a list. -/
def Primitives.InfosApart (P : Primitives) (salt secret : Bytes) (infos : List Bytes) : Prop :=
  ∀ i ∈ infos, ∀ j ∈ infos, ∀ key, P.expand salt secret i = .ok key → P.expand salt secret j = .ok key → i = j

theorem channelInfo_apart (lo hi : Bytes) : channelInfo lo hi (text "c2s") ≠ channelInfo lo hi (text "s2c") := by
  intro h
  unfold channelInfo at h
  exact absurd (List.append_cancel_left h) (by decide)

theorem expandKey_ok {P : Primitives} {salt secret info key : Bytes} (h : expandKey P salt secret info = .ok key) :
    P.expand salt secret info = .ok key := by
  unfold expandKey at h
  split at h
  next hkey =>
    cases h
    exact hkey
  next => cases h

/-- The two directions of a connection have keys of their own. -/
theorem labelsApart_of_infosApart {P : Primitives} {localKey peer transcript : Bytes}
    (h : ∀ peerX, P.montgomery peer = .ok peerX →
      P.InfosApart (P.sha256 transcript) (P.diffieHellman (P.staticSecret localKey) peerX)
        (connectionInfos (P.verifyingKey localKey) peer)) :
    P.LabelsApart localKey peer transcript := by
  intro peerX keys hx hkeys
  have hapart := h peerX hx
  unfold deriveChannelKeys at hkeys
  unfold connectionInfos at hapart
  dsimp only at hkeys hapart
  split_ifs at hkeys
  rcases hc2s : expandKey P (P.sha256 transcript) (P.diffieHellman (P.staticSecret localKey) peerX)
      (channelInfo (orderPair (P.verifyingKey localKey) peer).1 (orderPair (P.verifyingKey localKey) peer).2
        (text "c2s")) with e | c2s
  · rw [hc2s] at hkeys
    cases hkeys
  rcases hs2c : expandKey P (P.sha256 transcript) (P.diffieHellman (P.staticSecret localKey) peerX)
      (channelInfo (orderPair (P.verifyingKey localKey) peer).1 (orderPair (P.verifyingKey localKey) peer).2
        (text "s2c")) with e | s2c
  · rw [hc2s, hs2c] at hkeys
    cases hkeys
  rw [hc2s, hs2c] at hkeys
  cases hkeys
  intro hsame
  have hfirst := expandKey_ok hc2s
  have hsecond := expandKey_ok hs2c
  dsimp only at hsame
  rw [← hsame] at hsecond
  exact channelInfo_apart _ _ (hapart _ List.mem_cons_self _ (List.mem_cons_of_mem _ List.mem_cons_self) _ hfirst hsecond)

/-- **The two ends hold the same keys**, the other way round. -/
theorem new_keys {P : Primitives} {secondaryKey primaryKey transcript : Bytes} {a b : Channel}
    (hagree : P.Agrees secondaryKey primaryKey)
    (hsecondary : Channel.new P secondaryKey (P.verifyingKey primaryKey) transcript true = .ok a)
    (hprimary : Channel.new P primaryKey (P.verifyingKey secondaryKey) transcript false = .ok b) :
    ∃ keys, a = Channel.ofKeys keys (P.sha256 transcript) true ∧ b = Channel.ofKeys keys (P.sha256 transcript) false := by
  obtain ⟨x₂, keys, hx₂, hkeys, ha⟩ := new_ok hsecondary
  obtain ⟨x₁, keys', hx₁, hkeys', hb⟩ := new_ok hprimary
  rw [deriveChannelKeys_comm _ _ _ (hagree x₁ x₂ hx₁ hx₂), hkeys'] at hkeys
  exact ⟨keys', by rw [ha, Except.ok.inj hkeys], hb⟩

/-! ### Frames in order -/

/-- The frame is the message, sealed under the key, the context and the number. -/
def Seals (P : Primitives) (key aad : Bytes) (n : UInt64) (msg frame : Bytes) : Prop :=
  ∃ ct, P.encrypt key (nonceFor n) (frameAad aad n) msg = some ct ∧ frame = sealedFrame n ct ∧ ¬maxSequence ≤ n

section Frames

variable {P : Primitives} {side rx : ChannelSide} {aad msg frame : Bytes} {n : UInt64}

theorem seal_ok {side' : ChannelSide} {call : Option Call} (h : side.seal P aad msg = (side', call, .ok frame)) :
    side.failed = false ∧ Seals P side.key aad side.sendSeq msg frame ∧
      side' = { side with sendSeq := side.sendSeq + 1 } := by
  rcases side.seal_cases P aad msg with ⟨e, heq⟩ | ⟨-, -, -, e, heq⟩ | ⟨hfailed, hmax, ct, hct, heq⟩
  · rw [heq] at h
    cases h
  · rw [heq] at h
    cases h
  · rw [heq] at h
    cases h
    exact ⟨hfailed, ⟨ct, hct, rfl, hmax⟩, rfl⟩

/-- A frame that is next is opened. -/
theorem open_of_seals {parse : Bytes → Except AppError T} {parsed : T} (hround : P.RoundTrip) (htag : P.Tagged)
    (hseals : Seals P rx.key aad rx.recvSeq msg frame) (hfailed : rx.failed = false) (hparse : parse msg = .ok parsed) :
    rx.openValidated P aad frame parse = ({ rx with recvSeq := rx.recvSeq + 1 }, .ok parsed) := by
  obtain ⟨ct, hct, hframe, hmax⟩ := hseals
  have hcall : (callFor P rx.key aad rx.recvSeq msg).result = some ct := hct
  have hseal : (⟨rx.key, rx.recvSeq, 0, false⟩ : ChannelSide).seal P aad msg =
      (⟨rx.key, rx.recvSeq + 1, 0, false⟩, some (callFor P rx.key aad rx.recvSeq msg), .ok frame) := by
    unfold ChannelSide.seal
    rw [if_neg (by simpa using hmax)]
    dsimp only
    rw [hcall, hframe]
  have hkey : rx.key = (⟨rx.key, rx.recvSeq, 0, false⟩ : ChannelSide).key := rfl
  have hseq : rx.recvSeq = (⟨rx.key, rx.recvSeq, 0, false⟩ : ChannelSide).sendSeq := rfl
  exact ChannelSide.openValidated_seal hround htag hkey hseq hfailed hseal hparse

/-- Opening a frame that was sealed under another key fails. -/
theorem not_opened_of_apart {parse : Bytes → Except AppError T} {aad' : Bytes} {key : Bytes}
    (hapart : ∀ nonce aad msg ct nonce' aad', P.encrypt key nonce aad msg = some ct → P.decrypt rx.key nonce' aad' ct = none)
    (hseals : Seals P key aad n msg frame) : ∃ e, (rx.openValidated P aad' frame parse).2 = .error e := by
  obtain ⟨ct, hct, hframe, -⟩ := hseals
  rcases rx.openValidated_cases P aad' frame parse with ⟨e, heq⟩ | ⟨-, -, plain, parsed, hplain, -, -⟩
  · exact ⟨e, by rw [heq]⟩
  · have hbody : frame.drop sealedHeaderLen = ct := by
      rw [hframe, sealedFrame]
      exact List.drop_left' (beBytes_length 8 _)
    rw [hbody, hapart _ _ _ _ _ _ hct] at hplain
    cases hplain

end Frames

/-- The frames are these messages, sealed under the numbers from one number up to another. -/
inductive InOrder (P : Primitives) (key aad : Bytes) : UInt64 → UInt64 → List Bytes → List Bytes → Prop where
  | nil (n : UInt64) : InOrder P key aad n n [] []
  | cons {n m : UInt64} {msg frame : Bytes} {msgs frames : List Bytes} (hseals : Seals P key aad n msg frame)
      (hmore : InOrder P key aad (n + 1) m msgs frames) : InOrder P key aad n m (msg :: msgs) (frame :: frames)

theorem InOrder.snoc {P : Primitives} {key aad msg frame : Bytes} {n m : UInt64} {msgs frames : List Bytes}
    (h : InOrder P key aad n m msgs frames) (hseals : Seals P key aad m msg frame) :
    InOrder P key aad n (m + 1) (msgs ++ [msg]) (frames ++ [frame]) := by
  induction h with
  | nil n => exact .cons hseals (.nil _)
  | cons hfirst hmore ih => exact .cons hfirst (ih hseals)

theorem InOrder.uncons {P : Primitives} {key aad frame : Bytes} {n m : UInt64} {msgs frames : List Bytes}
    (h : InOrder P key aad n m msgs (frame :: frames)) :
    ∃ msg msgs', msgs = msg :: msgs' ∧ Seals P key aad n msg frame ∧ InOrder P key aad (n + 1) m msgs' frames := by
  cases h with
  | cons hseals hmore => exact ⟨_, _, rfl, hseals, hmore⟩

/-! ### A network that keeps the order -/

/-- Two ends, and for each the frames of its that are under way, oldest first; what it
has sealed, and what it got from the frames it was given. -/
structure Duplex (T : Type*) where
  channels : Side → Channel
  underWay : Side → List Bytes
  sent : Side → List Bytes
  opened : Side → List (Except AppError T)

/-- Two ends with nothing under way. -/
def Duplex.start (c : Side → Channel) : Duplex T := ⟨c, fun _ => [], fun _ => [], fun _ => []⟩

/-- What may happen next at an end. -/
inductive Move where
  | encode (side : Side) (payload : Bytes)
  /-- The end gets the oldest frame that is under way to it. -/
  | deliver (side : Side)

/-- Where sealing fails, the connection is closed. -/
def Duplex.step (P : Primitives) (parse : Bytes → Except AppError T) (s : Duplex T) : Move → Option (Duplex T)
  | .encode side payload =>
    match (s.channels side).encode P payload with
    | (_, _, .error _) => none
    | (c, _, .ok frame) => some { s with
        channels := Function.update s.channels side c
        underWay := Function.update s.underWay side (s.underWay side ++ [frame])
        sent := Function.update s.sent side (s.sent side ++ [payload]) }
  | .deliver side =>
    match s.underWay side.peer with
    | [] => none
    | frame :: rest =>
      let (c, result) := (s.channels side).decode P frame parse
      some { s with
        channels := Function.update s.channels side c
        underWay := Function.update s.underWay side.peer rest
        opened := Function.update s.opened side (s.opened side ++ [result]) }

/-- One direction: its end is in step with the other, and what is not opened yet is
under way. -/
structure DirectionInv (P : Primitives) (parse : Bytes → Except AppError T) (tx rx : Channel) (frames sent : List Bytes)
    (opened : List (Except AppError T)) : Prop where
  key : rx.recv.key = tx.send.key
  aad : rx.recvAad = tx.sendAad
  healthy : tx.send.failed = false ∧ rx.recv.failed = false
  waiting : ∃ done msgs, sent = done ++ msgs ∧ opened = done.map parse ∧
    InOrder P tx.send.key tx.sendAad rx.recv.recvSeq tx.send.sendSeq msgs frames

/-- Both directions. -/
def DuplexInv (P : Primitives) (parse : Bytes → Except AppError T) (s : Duplex T) : Prop :=
  ∀ side : Side, DirectionInv P parse (s.channels side) (s.channels side.peer) (s.underWay side) (s.sent side)
    (s.opened side.peer)

/-- What is sent, the receiver's parser takes. -/
def Parses (parse : Bytes → Except AppError T) (s : Duplex T) : Prop :=
  ∀ side, ∀ payload ∈ s.sent side, ∃ parsed, parse payload = .ok parsed

section Duplex

variable {P : Primitives} {parse : Bytes → Except AppError T} {c : Side → Channel} {s t : Duplex T}

theorem peer_ne (side : Side) : side.peer ≠ side := by cases side <;> nofun

theorem peer_peer (side : Side) : side.peer.peer = side := by cases side <;> rfl

/-- Sealing keeps the direction: the frame is under way. -/
theorem DirectionInv.encode {tx tx' rx : Channel} {frames sent : List Bytes} {opened : List (Except AppError T)}
    {payload frame : Bytes} {call : Option Call} (h : DirectionInv P parse tx rx frames sent opened)
    (hencode : tx.encode P payload = (tx', call, .ok frame)) :
    DirectionInv P parse tx' rx (frames ++ [frame]) (sent ++ [payload]) opened ∧ tx'.recv = tx.recv ∧
      tx'.recvAad = tx.recvAad := by
  unfold Channel.encode at hencode
  split_ifs at hencode
  · cases hencode
  rcases hseal : tx.send.seal P tx.sendAad payload with ⟨send, call', result⟩
  rw [hseal] at hencode
  cases hencode
  obtain ⟨-, hseals, rfl⟩ := seal_ok hseal
  obtain ⟨done, msgs, hsent, hopened, horder⟩ := h.waiting
  refine ⟨⟨h.key, h.aad, h.healthy, done, msgs ++ [payload], ?_, hopened, horder.snoc hseals⟩, rfl, rfl⟩
  rw [hsent, List.append_assoc]

/-- Opening keeps the direction, and gives what the parser makes of the oldest message
that is under way. -/
theorem DirectionInv.deliver {tx rx rx' : Channel} {frame : Bytes} {rest sent : List Bytes}
    {opened : List (Except AppError T)} {result : Except AppError T} (hround : P.RoundTrip) (htag : P.Tagged)
    (h : DirectionInv P parse tx rx (frame :: rest) sent opened) (hopen : rx.send.failed = false)
    (hparses : ∀ payload ∈ sent, ∃ parsed, parse payload = .ok parsed)
    (hdecode : rx.decode P frame parse = (rx', result)) :
    DirectionInv P parse tx rx' rest sent (opened ++ [result]) ∧ rx'.send = rx.send ∧ rx'.sendAad = rx.sendAad := by
  obtain ⟨done, msgs, hsent, hopened, horder⟩ := h.waiting
  obtain ⟨msg, msgs', rfl, hseals, hmore⟩ := horder.uncons
  obtain ⟨parsed, hparse⟩ := hparses msg (by rw [hsent]; exact List.mem_append_right _ List.mem_cons_self)
  rw [← h.key, ← h.aad] at hseals
  have hopens := open_of_seals hround htag hseals h.healthy.2 hparse
  unfold Channel.decode at hdecode
  rw [if_neg (by rw [hopen]; nofun), hopens] at hdecode
  cases hdecode
  refine ⟨⟨h.key, h.aad, h.healthy, done ++ [msg], msgs', ?_, ?_, hmore⟩, rfl, rfl⟩
  · rw [hsent, List.append_assoc]
    rfl
  · rw [hopened, List.map_append, List.map_singleton, hparse]

/-- A direction looks at the sending half of one end and at the receiving half of the
other. -/
theorem DirectionInv.congr {tx tx' rx rx' : Channel} {frames sent : List Bytes} {opened : List (Except AppError T)}
    (h : DirectionInv P parse tx rx frames sent opened) (htx : tx'.send = tx.send) (htxAad : tx'.sendAad = tx.sendAad)
    (hrx : rx'.recv = rx.recv) (hrxAad : rx'.recvAad = rx.recvAad) : DirectionInv P parse tx' rx' frames sent opened := by
  obtain ⟨hkey, haad, hhealthy, hwaiting⟩ := h
  refine ⟨?_, ?_, ?_, ?_⟩
  · rw [htx, hrx]
    exact hkey
  · rw [htxAad, hrxAad]
    exact haad
  · rw [htx, hrx]
    exact hhealthy
  · rw [htx, htxAad, hrx]
    exact hwaiting

/-- **One move** keeps both directions. -/
theorem DuplexInv.step (hround : P.RoundTrip) (htag : P.Tagged) (h : DuplexInv P parse s) (hparses : Parses parse s)
    {move : Move} (hstep : s.step P parse move = some t) : DuplexInv P parse t := by
  cases move with
  | encode side payload =>
    unfold Duplex.step at hstep
    dsimp only at hstep
    rcases hencode : (s.channels side).encode P payload with ⟨c, call, result⟩
    rw [hencode] at hstep
    rcases result with e | frame
    · cases hstep
    · cases hstep
      obtain ⟨hkept, hrecv, hrecvAad⟩ := (h side).encode hencode
      intro side'
      by_cases hside : side' = side
      · subst hside
        simp only [Function.update_self, Function.update_of_ne (peer_ne _)]
        exact hkept
      · obtain rfl : side' = side.peer := by cases side <;> cases side' <;> first | rfl | exact absurd rfl hside
        simp only [peer_peer, Function.update_self, Function.update_of_ne (peer_ne _)]
        have hother := h side.peer
        rw [peer_peer] at hother
        exact hother.congr rfl rfl hrecv hrecvAad
  | deliver side =>
    unfold Duplex.step at hstep
    dsimp only at hstep
    rcases hframes : s.underWay side.peer with _ | ⟨frame, rest⟩
    · rw [hframes] at hstep
      cases hstep
    · rw [hframes] at hstep
      dsimp only at hstep
      rcases hdecode : (s.channels side).decode P frame parse with ⟨c, result⟩
      rw [hdecode] at hstep
      cases hstep
      have hinto := h side.peer
      rw [peer_peer, hframes] at hinto
      obtain ⟨hkept, hsend, hsendAad⟩ := hinto.deliver hround htag (h side).healthy.1 (hparses side.peer) hdecode
      intro side'
      by_cases hside : side' = side
      · subst hside
        simp only [Function.update_self, Function.update_of_ne (peer_ne _), Function.update_of_ne (peer_ne _).symm]
        exact (h side').congr hsend hsendAad rfl rfl
      · obtain rfl : side' = side.peer := by cases side <;> cases side' <;> first | rfl | exact absurd rfl hside
        simp only [peer_peer, Function.update_self, Function.update_of_ne (peer_ne _)]
        exact hkept

theorem Parses.step {move : Move} (h : Parses parse s)
    (hmove : ∀ side payload, move = .encode side payload → ∃ parsed, parse payload = .ok parsed)
    (hstep : s.step P parse move = some t) : Parses parse t := by
  unfold Duplex.step at hstep
  cases move with
  | encode side payload =>
    dsimp only at hstep
    rcases hencode : (s.channels side).encode P payload with ⟨c, call, result⟩
    rw [hencode] at hstep
    rcases result with e | frame
    · cases hstep
    · cases hstep
      intro side' msg hmsg
      by_cases hside : side' = side
      · subst hside
        simp only [Function.update_self, List.mem_append, List.mem_singleton] at hmsg
        rcases hmsg with hmsg | rfl
        · exact h side' msg hmsg
        · exact hmove side' msg rfl
      · simp only [Function.update_of_ne hside] at hmsg
        exact h side' msg hmsg
  | deliver side =>
    dsimp only at hstep
    rcases hframes : s.underWay side.peer with _ | ⟨frame, rest⟩
    · rw [hframes] at hstep
      cases hstep
    · rw [hframes] at hstep
      cases hstep
      exact h

theorem InOrder.length_eq {key aad : Bytes} {n m : UInt64} {msgs frames : List Bytes}
    (h : InOrder P key aad n m msgs frames) : frames.length = msgs.length := by
  induction h with
  | nil => rfl
  | cons _ _ ih => rw [List.length_cons, List.length_cons, ih]

def bothEnds (secondary primary : Channel) : Side → Channel
  | .secondary => secondary
  | .primary => primary

theorem duplexInv_start (keys : DerivedKeys) (hash : Bytes) :
    DuplexInv P parse (Duplex.start (bothEnds (Channel.ofKeys keys hash true) (Channel.ofKeys keys hash false))) := by
  intro side
  cases side
  · exact ⟨rfl, rfl, ⟨rfl, rfl⟩, [], [], rfl, rfl, .nil _⟩
  · exact ⟨rfl, rfl, ⟨rfl, rfl⟩, [], [], rfl, rfl, .nil _⟩

/-- Everything that was delivered was opened, in order, and the rest is under way. -/
structure Delivers (parse : Bytes → Except AppError T) (t : Duplex T) (side : Side) : Prop where
  ordered : ∃ done waiting, t.sent side = done ++ waiting ∧ t.opened side.peer = done.map parse ∧
    (t.underWay side).length = waiting.length
  opened : ∀ result ∈ t.opened side.peer, ∃ parsed, result = .ok parsed

/-- **Any run.** -/
theorem delivers (hround : P.RoundTrip) (htag : P.Tagged) (hstart : DuplexInv P parse (Duplex.start c)) {as : List Move}
    (hparse : ∀ side payload, Move.encode side payload ∈ as → ∃ parsed, parse payload = .ok parsed)
    (hrun : Runs.run (fun s : Duplex T => s.step P parse) (Duplex.start c) as = some t) (side : Side) :
    Delivers parse t side := by
  have hmeets : Runs.Meets (fun s : Duplex T => s.step P parse)
      (fun _ move => ∀ side payload, move = .encode side payload → ∃ parsed, parse payload = .ok parsed)
      (Duplex.start c) as := Runs.meets_of_forall fun move hmove _ side payload heq => hparse side payload (heq ▸ hmove)
  obtain ⟨hinv, hparses⟩ : DuplexInv P parse t ∧ Parses parse t := by
    refine Runs.run_invariant_of_meets (I := fun s => DuplexInv P parse s ∧ Parses parse s) ?_ hrun hmeets
      ⟨hstart, fun _ _ h => by cases h⟩
    intro s move t h hmove hstep
    exact ⟨h.1.step hround htag h.2 hstep, h.2.step hmove hstep⟩
  obtain ⟨done, msgs, hsent, hopened, horder⟩ := (hinv side).waiting
  refine ⟨⟨done, msgs, hsent, hopened, horder.length_eq⟩, fun result hresult => ?_⟩
  rw [hopened] at hresult
  obtain ⟨msg, hmsg, rfl⟩ := List.mem_map.mp hresult
  exact hparses side msg (by rw [hsent]; exact List.mem_append_left _ hmsg)

end Duplex

/-! ### Reflection -/

/-- Under the second key no ciphertext opens that was made under the first. -/
def Primitives.Apart (P : Primitives) (k k' : Bytes) : Prop :=
  ∀ nonce aad msg ct nonce' aad', P.encrypt k nonce aad msg = some ct → P.decrypt k' nonce' aad' ct = none

section Reflection

variable {P : Primitives} {c : Side → Channel} {s t : Link}

/-- The ends keep their invariant whatever the network does. -/
theorem ends_run {as : List (Side × Operation T)} (hrun : Runs.run (Link.step P) s as = some t)
    (h : ∀ side, EndInv P (c side) (s side)) : ∀ side, EndInv P (c side) (t side) := by
  refine Runs.run_invariant (I := fun s : Link => ∀ side, EndInv P (c side) (s side)) ?_ hrun h
  intro s a t hs hstep side
  cases hstep
  by_cases hside : side = a.1
  · subst hside
    rw [Function.update_self]
    exact (hs a.1).step a.2
  · rw [Function.update_of_ne hside]
    exact hs side

/-- **A frame that comes back is refused**, however late. -/
theorem reflected_refused (hstart : ∀ side, EndInv P (c side) (s side)) {as : List (Side × Operation T)}
    (hrun : Runs.run (Link.step P) s as = some t) {side : Side} (hapart : P.Apart (c side).send.key (c side).recv.key)
    {payload frame : Bytes} {c' : Channel} {call : Option Call}
    (hencode : (s side).channel.encode P payload = (c', call, .ok frame)) (parse : Bytes → Except AppError T) :
    ∃ e, ((t side).channel.decode P frame parse).2 = .error e := by
  have hseals : Seals P (c side).send.key (s side).channel.sendAad (s side).channel.send.sendSeq payload frame := by
    unfold Channel.encode at hencode
    split_ifs at hencode
    · cases hencode
    rcases hseal : (s side).channel.send.seal P (s side).channel.sendAad payload with ⟨send, call', result⟩
    rw [hseal] at hencode
    cases hencode
    rw [← (hstart side).sendKey]
    exact (seal_ok hseal).2.1
  have hkey := (ends_run hrun hstart side).recvKey
  unfold Channel.decode
  split_ifs
  · exact ⟨_, rfl⟩
  · rw [← hkey] at hapart
    exact not_opened_of_apart hapart hseals

end Reflection

/-! ### The handshake as a whole -/

/-- **What the handshake binds.** The transcript gives its fields. Its two ends send with
one key each, which the other receives with, and with the other's additional data; so
what each seals in order the other opens, and what comes back to its sender is
refused. -/
theorem handshake_binds {P : Primitives} {secondaryKey primaryKey transcript : Bytes} {a b : Channel}
    (hround : P.RoundTrip) (htag : P.Tagged) (hagree : P.Agrees secondaryKey primaryKey)
    (hinfos : ∀ x, P.montgomery (P.verifyingKey primaryKey) = .ok x →
      P.InfosApart (P.sha256 transcript) (P.diffieHellman (P.staticSecret secondaryKey) x)
        (connectionInfos (P.verifyingKey secondaryKey) (P.verifyingKey primaryKey)))
    (hsecondary : Channel.new P secondaryKey (P.verifyingKey primaryKey) transcript true = .ok a)
    (hprimary : Channel.new P primaryKey (P.verifyingKey secondaryKey) transcript false = .ok b)
    (hideal : ∀ k ∈ [a.send.key, b.send.key], ∀ k' ∈ [a.send.key, b.send.key], k ≠ k' → P.Apart k k') :
    (∀ (v v' : UInt16) (role name role' name' : String)
      (secondaryPub primaryPub secondaryNonce primaryNonce secondaryPub' primaryPub' secondaryNonce' primaryNonce' :
        Vector UInt8 32),
      (∀ x ∈ [role, name, role', name'], (Utf8.encode x.toList).length < 2 ^ 32) →
      (buildTranscript v role name secondaryPub primaryPub secondaryNonce primaryNonce).isSome ∧
      (buildTranscript v role name secondaryPub primaryPub secondaryNonce primaryNonce =
          buildTranscript v' role' name' secondaryPub' primaryPub' secondaryNonce' primaryNonce' →
        v = v' ∧ role = role' ∧ name = name' ∧ secondaryPub = secondaryPub' ∧ primaryPub = primaryPub' ∧
          secondaryNonce = secondaryNonce' ∧ primaryNonce = primaryNonce')) ∧
    (a.send.key = b.recv.key ∧ b.send.key = a.recv.key ∧ a.send.key ≠ b.send.key ∧
      a.sendAad = b.recvAad ∧ b.sendAad = a.recvAad ∧ a.sendAad ≠ b.sendAad) ∧
    (∀ (parse : Bytes → Except AppError T) (as : List Move) (t : Duplex T),
      (∀ side payload, Move.encode side payload ∈ as → ∃ parsed, parse payload = .ok parsed) →
      Runs.run (fun s : Duplex T => s.step P parse) (Duplex.start (bothEnds a b)) as = some t →
        ∀ side, Delivers parse t side) ∧
    ∀ (as bs : List (Side × Operation T)) (s t : Link) (side : Side) (payload frame : Bytes) (c' : Channel)
      (call : Option Call) (parse : Bytes → Except AppError T),
      Runs.run (Link.step P) (Link.start a b) as = some s →
      (s side).channel.encode P payload = (c', call, .ok frame) → Runs.run (Link.step P) s bs = some t →
        ∃ e, ((t side).channel.decode P frame parse).2 = .error e := by
  have hlabels := labelsApart_of_infosApart hinfos
  have hc : Matched (bothEnds a b) := matched_new hagree hlabels hsecondary hprimary
  have hne : a.send.key ≠ b.send.key := hc.sendKeys
  obtain ⟨keys, ha, hb⟩ := new_keys hagree hsecondary hprimary
  have hab : a.send.key = b.recv.key := by
    rw [ha, hb]
    rfl
  have hba : b.send.key = a.recv.key := by
    rw [ha, hb]
    rfl
  have haad : a.sendAad ≠ b.sendAad := by
    rw [ha, hb]
    intro h
    exact absurd (List.append_cancel_left h) (by decide)
  refine ⟨?_, ⟨hab, hba, hne, (hc.aad .primary).symm, (hc.aad .secondary).symm, haad⟩, ?_, ?_⟩
  · intro v v' role name role' name' secondaryPub primaryPub secondaryNonce primaryNonce secondaryPub' primaryPub'
      secondaryNonce' primaryNonce' hshort
    have hsome := @buildTranscript_isSome v role name secondaryPub primaryPub secondaryNonce primaryNonce
      (hshort role (by simp)) (hshort name (by simp))
    refine ⟨hsome, fun heq => ?_⟩
    obtain ⟨t, ht⟩ := Option.isSome_iff_exists.mp hsome
    exact buildTranscript_injective ht (heq.symm.trans ht)
  · intro parse as t hparse hrun
    have hstart : DuplexInv P parse (Duplex.start (bothEnds a b)) := by
      rw [ha, hb]
      exact duplexInv_start keys _
    exact fun side => delivers hround htag hstart hparse hrun side
  · intro as bs s t side payload frame c' call parse hrun hencode hmore
    have hends : ∀ side, EndInv P (bothEnds a b side) (s side) := by
      refine ends_run hrun fun side => ?_
      cases side
      · exact endInv_start (hc.fresh .secondary).1 (hc.fresh .secondary).2
      · exact endInv_start (hc.fresh .primary).1 (hc.fresh .primary).2
    refine reflected_refused hends hmore ?_ hencode parse
    cases side
    · show P.Apart a.send.key a.recv.key
      rw [← hba]
      exact hideal _ List.mem_cons_self _ (List.mem_cons_of_mem _ List.mem_cons_self) hne
    · show P.Apart b.send.key b.recv.key
      rw [← hab]
      exact hideal _ (List.mem_cons_of_mem _ List.mem_cons_self) _ List.mem_cons_self hne.symm

/-- A stand-in whose tags tell the keys apart. -/
def pairTag (key nonce aad msg : Bytes) : Bytes :=
  beBytes 8 (toyNumber key) ++ beBytes 8 (toyNumber (nonce ++ aad ++ msg))

/-- Primitives in which a key opens what was sealed with it, and nothing else. -/
def pairPrimitives : Primitives := { toyPrimitives with
  encrypt := fun key nonce aad msg => some (msg ++ pairTag key nonce aad msg)
  decrypt := fun key nonce aad ct =>
    let msg := ct.take (ct.length - gcmTagLen)
    if ct.drop (ct.length - gcmTagLen) = pairTag key nonce aad msg then some msg else none }

theorem pairTag_length (key nonce aad msg : Bytes) : (pairTag key nonce aad msg).length = gcmTagLen := by
  rw [pairTag, List.length_append, beBytes_length, beBytes_length, gcmTagLen]

/-- What the stand-in makes of a ciphertext of its own. -/
theorem pair_decrypt (key nonce aad key' nonce' aad' msg : Bytes) :
    pairPrimitives.decrypt key' nonce' aad' (msg ++ pairTag key nonce aad msg) =
      if pairTag key nonce aad msg = pairTag key' nonce' aad' msg then some msg else none := by
  have hlen : (msg ++ pairTag key nonce aad msg).length - gcmTagLen = msg.length := by
    rw [List.length_append, pairTag_length, Nat.add_sub_cancel]
  show (if List.drop _ _ = pairTag key' nonce' aad' (List.take _ _) then some (List.take _ _) else none) = _
  rw [hlen, List.take_left, List.drop_left]

theorem pair_roundTrip : pairPrimitives.RoundTrip := by
  intro key nonce aad msg ct h
  obtain rfl : msg ++ pairTag key nonce aad msg = ct := Option.some.inj h
  rw [pair_decrypt, if_pos rfl]

theorem pair_tagged : pairPrimitives.Tagged := by
  intro key nonce aad msg ct h
  obtain rfl : msg ++ pairTag key nonce aad msg = ct := Option.some.inj h
  rw [List.length_append, pairTag_length]

theorem pair_apart {k k' : Bytes} (h : beBytes 8 (toyNumber k) ≠ beBytes 8 (toyNumber k')) :
    pairPrimitives.Apart k k' := by
  intro nonce aad msg ct nonce' aad' henc
  obtain rfl : msg ++ pairTag k nonce aad msg = ct := Option.some.inj henc
  rw [pair_decrypt, if_neg]
  exact fun htag => h (List.append_inj_left htag (by rw [beBytes_length, beBytes_length]))

def pairEnd (localKey peerKey : Bytes) (secondary : Bool) : Channel :=
  match Channel.new pairPrimitives localKey (pairPrimitives.verifyingKey peerKey) (text "session one") secondary with
  | .ok c => c
  | .error _ => Channel.ofKeys ⟨[], []⟩ [] secondary

/-- Both ends send, and get what the other has sent. -/
theorem handshake_binds_hello : ∃ a b,
    Channel.new pairPrimitives (toyKey 7) (pairPrimitives.verifyingKey (toyKey 8)) (text "session one") true = .ok a ∧
    Channel.new pairPrimitives (toyKey 8) (pairPrimitives.verifyingKey (toyKey 7)) (text "session one") false = .ok b ∧
    a.send.key = b.recv.key ∧ ∃ t : Duplex Bytes,
      Runs.run (fun s : Duplex Bytes => s.step pairPrimitives .ok) (Duplex.start (bothEnds a b))
        [.encode .secondary (text "hello"), .encode .primary (text "ready"), .deliver .primary] = some t ∧
      (t.opened .primary).length = 1 ∧ Delivers .ok t .secondary := by
  have hsecondary : Channel.new pairPrimitives (toyKey 7) (pairPrimitives.verifyingKey (toyKey 8))
      (text "session one") true = .ok (pairEnd (toyKey 7) (toyKey 8) true) := by decide +kernel
  have hprimary : Channel.new pairPrimitives (toyKey 8) (pairPrimitives.verifyingKey (toyKey 7))
      (text "session one") false = .ok (pairEnd (toyKey 8) (toyKey 7) false) := by decide +kernel
  have hagree : pairPrimitives.Agrees (toyKey 7) (toyKey 8) := by
    intro x₁ x₂ h₁ h₂
    cases h₁
    cases h₂
    decide +kernel
  have hinfos : ∀ x, pairPrimitives.montgomery (pairPrimitives.verifyingKey (toyKey 8)) = .ok x →
      pairPrimitives.InfosApart (pairPrimitives.sha256 (text "session one"))
        (pairPrimitives.diffieHellman (pairPrimitives.staticSecret (toyKey 7)) x)
        (connectionInfos (pairPrimitives.verifyingKey (toyKey 7)) (pairPrimitives.verifyingKey (toyKey 8))) := by
    intro x hx
    cases hx
    have hkeys : ∀ i ∈ connectionInfos (pairPrimitives.verifyingKey (toyKey 7)) (pairPrimitives.verifyingKey (toyKey 8)),
        ∀ j ∈ connectionInfos (pairPrimitives.verifyingKey (toyKey 7)) (pairPrimitives.verifyingKey (toyKey 8)),
        pairPrimitives.expand (pairPrimitives.sha256 (text "session one"))
          (pairPrimitives.diffieHellman (toyKey 7) (pairPrimitives.verifyingKey (toyKey 8))) i =
        pairPrimitives.expand (pairPrimitives.sha256 (text "session one"))
          (pairPrimitives.diffieHellman (toyKey 7) (pairPrimitives.verifyingKey (toyKey 8))) j → i = j := by
      decide +kernel
    exact fun i hi j hj key hkey hkey' => hkeys i hi j hj (hkey.trans hkey'.symm)
  have hnumbers : ∀ k ∈ [(pairEnd (toyKey 7) (toyKey 8) true).send.key, (pairEnd (toyKey 8) (toyKey 7) false).send.key],
      ∀ k' ∈ [(pairEnd (toyKey 7) (toyKey 8) true).send.key, (pairEnd (toyKey 8) (toyKey 7) false).send.key],
      k ≠ k' → beBytes 8 (toyNumber k) ≠ beBytes 8 (toyNumber k') := by decide +kernel
  have h := handshake_binds (T := Bytes) pair_roundTrip pair_tagged hagree hinfos hsecondary hprimary
    fun k hk k' hk' hne => pair_apart (hnumbers k hk k' hk' hne)
  obtain ⟨t, hrun, hopened⟩ : ∃ t : Duplex Bytes,
      Runs.run (fun s : Duplex Bytes => s.step pairPrimitives .ok)
        (Duplex.start (bothEnds (pairEnd (toyKey 7) (toyKey 8) true) (pairEnd (toyKey 8) (toyKey 7) false)))
        [.encode .secondary (text "hello"), .encode .primary (text "ready"), .deliver .primary] = some t ∧
      decide ((t.opened .primary).length = 1) = true := by
    apply (Option.any_eq_true _ _).mp
    decide +kernel
  exact ⟨_, _, hsecondary, hprimary, h.2.1.1, t, hrun, of_decide_eq_true hopened,
    h.2.2.1 .ok _ t (fun _ payload _ => ⟨payload, rfl⟩) hrun .secondary⟩

end Federation
end OpenRelay
