/-
# The sealed channel of two nodes

One end of a connection between two daemons (`federation_crypto.rs`): a key and a
counter for each direction, derived from the handshake. A frame carries its
sequence number in the clear; the number is the nonce and part of the additional
data. A failure of any kind leaves the end failed, and a failed end neither seals
nor opens. What the cipher, the key agreement and the key derivation compute is a
parameter (`Primitives`).

Key theorems: `ChannelSide.seal_cases`, `ChannelSide.openValidated_cases`,
`ChannelSide.openValidated_seal`, `orderPair_comm`.
-/
import OpenRelay.Ipc.Response
import OpenRelay.Lib.BigEndian

namespace OpenRelay
namespace Federation

open BigEndian
open Ipc (text)

variable {T : Type*}

/-- Why a frame is not sealed or opened. -/
inductive AppError where
  | protocol (message : String)
  /-- What a caller's parser may say. -/
  | other (message : String)
  deriving DecidableEq, Repr

/-- What the cryptographic packages compute. -/
structure Primitives where
  sha256 : Bytes → Bytes
  /-- The public key of a signing key. -/
  verifyingKey : Bytes → Bytes
  /-- A peer's public key as an X25519 key, unless it is no point of the curve. -/
  montgomery : Bytes → Except String Bytes
  /-- A signing key as an X25519 secret. -/
  staticSecret : Bytes → Bytes
  diffieHellman : Bytes → Bytes → Bytes
  /-- HKDF with a salt, a secret and an info. -/
  expand : Bytes → Bytes → Bytes → Except String Bytes
  /-- AES-256-GCM under a key and a nonce, with additional data. -/
  encrypt : Bytes → Bytes → Bytes → Bytes → Option Bytes
  decrypt : Bytes → Bytes → Bytes → Bytes → Option Bytes

/-! ### Keys -/

def channelInfoPrefix : Bytes := text "oly-channel-v2"

/-- The keys of the two directions. -/
structure DerivedKeys where
  /-- Secondary to primary. -/
  c2s : Bytes
  /-- Primary to secondary. -/
  s2c : Bytes
  deriving DecidableEq, Repr

/-- The two identities in an order that both ends agree on. -/
def orderPair (a b : Bytes) : Bytes × Bytes := if a ≤ b then (a, b) else (b, a)

/-- What one direction's key is derived for: both identities, in order, and the direction. -/
def channelInfo (lo hi label : Bytes) : Bytes :=
  channelInfoPrefix ++ text "|" ++ lo ++ text "|" ++ hi ++ text "|" ++ label

/-- One direction's key. -/
def expandKey (P : Primitives) (salt shared info : Bytes) : Except AppError Bytes :=
  match P.expand salt shared info with
  | .ok key => .ok key
  | .error e => .error (.protocol ("HKDF expand for channel keys failed: " ++ e))

/-- The keys of the two directions, out of the shared secret and the handshake's transcript. -/
def deriveChannelKeys (P : Primitives) (localX peerX transcript localEd peerEd : Bytes) :
    Except AppError DerivedKeys :=
  let shared := P.diffieHellman localX peerX
  if shared = List.replicate 32 0 then
    .error (.protocol "X25519 key agreement produced a zero shared secret; refusing to derive keys")
  else
    let hash := P.sha256 transcript
    let (lo, hi) := orderPair localEd peerEd
    do
      let c2s ← expandKey P hash shared (channelInfo lo hi (text "c2s"))
      let s2c ← expandKey P hash shared (channelInfo lo hi (text "s2c"))
      pure ⟨c2s, s2c⟩

/-! ### One direction -/

def frameTagSealed : UInt8 := 0x21

def sealedHeaderLen : ℕ := 1 + 8

def gcmTagLen : ℕ := 16

def minSealedFrameLen : ℕ := sealedHeaderLen + gcmTagLen

/-- The counter at which the channel closes rather than risk reuse. -/
def maxSequence : UInt64 := UInt64.ofNat (2 ^ 64 - 1) - 1

def noncePrefix : Bytes := List.replicate 4 0

/-- A frame's nonce, which has its sequence number. -/
def nonceFor (sequence : UInt64) : Bytes := noncePrefix ++ beBytes 8 sequence.toNat

/-- What is authenticated beside the message: the session, the tag and the sequence number. -/
def frameAad (context : Bytes) (seq : UInt64) : Bytes := context ++ frameTagSealed :: beBytes 8 seq.toNat

/-- One direction of a channel: its key, the next numbers, and whether it has failed. -/
structure ChannelSide where
  key : Bytes
  sendSeq : UInt64
  recvSeq : UInt64
  failed : Bool
  deriving DecidableEq, Repr

/-- A direction at its start. -/
def ChannelSide.new (key : Bytes) : ChannelSide := ⟨key, 0, 0, false⟩

/-- A call of the cipher's encryption, with what it returned. -/
structure Call where
  key : Bytes
  nonce : Bytes
  aad : Bytes
  msg : Bytes
  result : Option Bytes
  deriving DecidableEq, Repr

/-- The call that seals a message under a sequence number. -/
def callFor (P : Primitives) (key context : Bytes) (seq : UInt64) (msg : Bytes) : Call :=
  ⟨key, nonceFor seq, frameAad context seq, msg, P.encrypt key (nonceFor seq) (frameAad context seq) msg⟩

def sealedFrame (seq : UInt64) (ct : Bytes) : Bytes := frameTagSealed :: (beBytes 8 seq.toNat ++ ct)

/-- Seals a message. The second component is the call of the cipher, if it came to one. -/
def ChannelSide.seal (P : Primitives) (side : ChannelSide) (aad plaintext : Bytes) :
    ChannelSide × Option Call × Except AppError Bytes :=
  if side.failed ∨ maxSequence ≤ side.sendSeq then
    ({ side with failed := true }, none,
      .error (.protocol "sealed send counter near exhaustion; closing connection"))
  else
    let seq := side.sendSeq
    let side := { side with sendSeq := side.sendSeq + 1 }
    let call := callFor P side.key aad seq plaintext
    match call.result with
    | none => ({ side with failed := true }, some call,
        .error (.protocol "sealed frame encryption failed: aead::Error"))
    | some ct => (side, some call, .ok (sealedFrame seq ct))

/-- A byte in two hexadecimal digits. -/
def hexByte (b : UInt8) : String :=
  String.ofList [Nat.digitChar (b.toNat / 16), Nat.digitChar (b.toNat % 16)]

/-- Opens a frame: the end counts as failed until the plaintext is parsed. -/
def ChannelSide.openValidated (P : Primitives) (side : ChannelSide) (aad frame : Bytes)
    (parse : Bytes → Except AppError T) : ChannelSide × Except AppError T :=
  if side.failed ∨ maxSequence ≤ side.recvSeq then
    ({ side with failed := true }, .error (.protocol "sealed channel failed or exhausted"))
  else
    let side := { side with failed := true }
    if frame.length < minSealedFrameLen then
      (side, .error (.protocol ("sealed frame too short (" ++ toString frame.length ++
        " bytes, need at least " ++ toString minSealedFrameLen ++ ")")))
    else if frame.getD 0 0 ≠ frameTagSealed then
      (side, .error (.protocol ("sealed frame missing 0x" ++ hexByte frameTagSealed ++ " tag, got 0x" ++
        hexByte (frame.getD 0 0))))
    else
      let seq := UInt64.ofNat (beNat ((frame.drop 1).take 8))
      if seq ≠ side.recvSeq then
        (side, .error (.protocol ("sealed frame sequence mismatch: received " ++ toString seq.toNat ++
          ", expected " ++ toString side.recvSeq.toNat)))
      else
        match P.decrypt side.key (nonceFor seq) (frameAad aad seq) (frame.drop sealedHeaderLen) with
        | none => (side, .error (.protocol "sealed frame AEAD verification failed: aead::Error"))
        | some plain =>
          match parse plain with
          | .error e => (side, .error e)
          | .ok parsed => ({ side with recvSeq := side.recvSeq + 1, failed := false }, .ok parsed)

/-! ### Both directions -/

/-- One end of a connection. -/
structure Channel where
  send : ChannelSide
  recv : ChannelSide
  sendAad : Bytes
  recvAad : Bytes
  transcriptHash : Bytes
  deriving DecidableEq, Repr

/-- What every frame of a direction is bound to. -/
def frameContext (hash direction : Bytes) : Bytes := text "oly-node-frame-v2" ++ hash ++ direction

/-- The end of a connection with the given keys. -/
def Channel.ofKeys (keys : DerivedKeys) (hash : Bytes) (secondary : Bool) : Channel :=
  let (send, recv, sendLabel, recvLabel) :=
    if secondary then (keys.c2s, keys.s2c, text "c2s", text "s2c")
    else (keys.s2c, keys.c2s, text "s2c", text "c2s")
  ⟨.new send, .new recv, frameContext hash sendLabel, frameContext hash recvLabel, hash⟩

/-- The end of a connection after the handshake. -/
def Channel.new (P : Primitives) (localKey peer transcript : Bytes) (secondary : Bool) :
    Except AppError Channel :=
  match P.montgomery peer with
  | .error e => .error (.protocol e)
  | .ok peerX => do
    let keys ← deriveChannelKeys P (P.staticSecret localKey) peerX transcript (P.verifyingKey localKey) peer
    pure (Channel.ofKeys keys (P.sha256 transcript) secondary)

/-- A message is sealed, unless the receiving direction has failed. -/
def Channel.encode (P : Primitives) (c : Channel) (payload : Bytes) :
    Channel × Option Call × Except AppError Bytes :=
  if c.recv.failed then (c, none, .error (.protocol "sealed channel failed"))
  else
    let (send, call, result) := c.send.seal P c.sendAad payload
    ({ c with send := send }, call, result)

/-- A frame is opened and parsed, unless the sending direction has failed. -/
def Channel.decode (P : Primitives) (c : Channel) (frame : Bytes) (parse : Bytes → Except AppError T) :
    Channel × Except AppError T :=
  if c.send.failed then (c, .error (.protocol "sealed channel failed"))
  else
    let (recv, result) := c.recv.openValidated P c.recvAad frame parse
    ({ c with recv := recv }, result)

/-! ### Numbers and their bytes -/

theorem nonceFor_injective {a b : UInt64} (h : nonceFor a = nonceFor b) : a = b := by
  have hbytes : beBytes 8 a.toNat = beBytes 8 b.toNat := List.append_cancel_left h
  exact UInt64.toNat_inj.mp (beBytes_injOn a.toNat_lt b.toNat_lt hbytes)

theorem maxSequence_toNat : maxSequence.toNat = 2 ^ 64 - 2 := rfl

/-- A counter below the limit does not wrap. -/
theorem succ_toNat {n : UInt64} (h : ¬maxSequence ≤ n) : (n + 1).toNat = n.toNat + 1 := by
  have hlt : n.toNat < 2 ^ 64 - 2 := by
    rw [UInt64.not_le, UInt64.lt_iff_toNat_lt, maxSequence_toNat] at h
    exact h
  rw [UInt64.toNat_add, UInt64.toNat_one]
  omega

/-- Both ends put the identities in the same order. -/
theorem orderPair_comm (a b : Bytes) : orderPair a b = orderPair b a := by
  unfold orderPair
  rcases List.le_total a b with h | h
  · rw [if_pos h]
    split
    next h' => rw [List.le_antisymm h h']
    next => rfl
  · rw [if_pos h]
    split
    next h' => rw [List.le_antisymm h h']
    next => rfl

/-! ### What an operation can do -/

/-- What sealing can do: it fails and leaves the side failed, without a call of the cipher or
with one that failed; or it seals under the next number. -/
theorem ChannelSide.seal_cases (P : Primitives) (side : ChannelSide) (aad msg : Bytes) :
    (∃ e, side.seal P aad msg = ({ side with failed := true }, none, .error e)) ∨
    (side.failed = false ∧ ¬maxSequence ≤ side.sendSeq ∧
      (callFor P side.key aad side.sendSeq msg).result = none ∧
      ∃ e, side.seal P aad msg = ({ side with sendSeq := side.sendSeq + 1, failed := true },
        some (callFor P side.key aad side.sendSeq msg), .error e)) ∨
    (side.failed = false ∧ ¬maxSequence ≤ side.sendSeq ∧
      ∃ ct, (callFor P side.key aad side.sendSeq msg).result = some ct ∧
        side.seal P aad msg = ({ side with sendSeq := side.sendSeq + 1 },
          some (callFor P side.key aad side.sendSeq msg), .ok (sealedFrame side.sendSeq ct))) := by
  unfold ChannelSide.seal
  split
  next => exact .inl ⟨_, rfl⟩
  next hopen =>
    rw [not_or, Bool.not_eq_true] at hopen
    obtain ⟨hfailed, hmax⟩ := hopen
    simp only []
    split
    next hnone => exact .inr (.inl ⟨hfailed, hmax, hnone, _, rfl⟩)
    next ct hct => exact .inr (.inr ⟨hfailed, hmax, ct, hct, rfl⟩)

/-- What opening can do: it fails and leaves the side failed, or it accepts the plaintext of the
frame that is next. -/
theorem ChannelSide.openValidated_cases (P : Primitives) (side : ChannelSide) (aad frame : Bytes)
    (parse : Bytes → Except AppError T) :
    (∃ e, side.openValidated P aad frame parse = ({ side with failed := true }, .error e)) ∨
    (side.failed = false ∧ ¬maxSequence ≤ side.recvSeq ∧ ∃ plain parsed,
      P.decrypt side.key (nonceFor side.recvSeq) (frameAad aad side.recvSeq)
        (frame.drop sealedHeaderLen) = some plain ∧ parse plain = .ok parsed ∧
      side.openValidated P aad frame parse = ({ side with recvSeq := side.recvSeq + 1 }, .ok parsed)) := by
  unfold ChannelSide.openValidated
  split
  next => exact .inl ⟨_, rfl⟩
  next hopen =>
  rw [not_or, Bool.not_eq_true] at hopen
  obtain ⟨hfailed, hmax⟩ := hopen
  simp only []
  split
  next => exact .inl ⟨_, rfl⟩
  next =>
  split
  next => exact .inl ⟨_, rfl⟩
  next =>
  split
  next => exact .inl ⟨_, rfl⟩
  next hseq =>
  rw [not_not] at hseq
  rw [hseq]
  split
  next => exact .inl ⟨_, rfl⟩
  next plain hplain =>
  split
  next e _ => exact .inl ⟨e, rfl⟩
  next parsed hparsed => exact .inr ⟨hfailed, hmax, plain, parsed, hplain, hparsed, by rw [hfailed]⟩

/-! ### What is sealed is opened -/

/-- Decryption undoes encryption under the same key, nonce and additional data. -/
def Primitives.RoundTrip (P : Primitives) : Prop :=
  ∀ key nonce aad msg ct, P.encrypt key nonce aad msg = some ct → P.decrypt key nonce aad ct = some msg

/-- A ciphertext is longer than its message by the tag. -/
def Primitives.Tagged (P : Primitives) : Prop :=
  ∀ key nonce aad msg ct, P.encrypt key nonce aad msg = some ct → ct.length = msg.length + gcmTagLen

/-- **What is sealed is opened.** A receiver that is in step with the sender gets what it
parses from the sender's message. -/
theorem ChannelSide.openValidated_seal {P : Primitives} (hround : P.RoundTrip) (htag : P.Tagged)
    {tx rx tx' : ChannelSide} {aad msg frame : Bytes} {call : Option Call} {parse : Bytes → Except AppError T}
    {parsed : T} (hkey : rx.key = tx.key) (hseq : rx.recvSeq = tx.sendSeq) (hfailed : rx.failed = false)
    (hseal : tx.seal P aad msg = (tx', call, .ok frame)) (hparse : parse msg = .ok parsed) :
    rx.openValidated P aad frame parse = ({ rx with recvSeq := rx.recvSeq + 1 }, .ok parsed) := by
  rcases tx.seal_cases P aad msg with ⟨e, he⟩ | ⟨-, -, -, e, he⟩ | ⟨-, hmax, ct, hct, heq⟩
  · rw [he] at hseal
    cases hseal
  · rw [he] at hseal
    cases hseal
  · rw [heq] at hseal
    obtain ⟨-, -, hframe⟩ : _ ∧ _ ∧ sealedFrame tx.sendSeq ct = frame := by
      simpa [Prod.ext_iff] using hseal
    have hlen : frame.length = 9 + ct.length := by
      rw [← hframe, sealedFrame, List.length_cons, List.length_append, beBytes_length]
      omega
    have hshort : ¬frame.length < minSealedFrameLen := by
      have hgcm := htag _ _ _ _ _ hct
      simp only [minSealedFrameLen, sealedHeaderLen, gcmTagLen] at hgcm ⊢
      omega
    have htagged : ¬frame.getD 0 0 ≠ frameTagSealed := by
      rw [← hframe]
      exact not_not_intro rfl
    have hnumber : UInt64.ofNat (beNat ((frame.drop 1).take 8)) = rx.recvSeq := by
      rw [← hframe, sealedFrame, List.drop_one, List.tail_cons, List.take_left' (beBytes_length 8 _),
        beNat_beBytes tx.sendSeq.toNat_lt, UInt64.ofNat_toNat, hseq]
    have hbody : frame.drop sealedHeaderLen = ct := by
      rw [← hframe, sealedFrame]
      exact List.drop_left' (beBytes_length 8 _)
    have hplain : P.decrypt rx.key (nonceFor rx.recvSeq) (frameAad aad rx.recvSeq)
        (frame.drop sealedHeaderLen) = some msg := by
      rw [hbody, hkey, hseq]
      exact hround _ _ _ _ _ hct
    have hready : ¬(rx.failed = true ∨ maxSequence ≤ rx.recvSeq) := by
      rw [hfailed, hseq]
      simpa using hmax
    unfold ChannelSide.openValidated
    simp only []
    rw [if_neg hready, if_neg hshort, if_neg htagged, if_neg (not_not_intro hnumber), hnumber, hplain]
    simp only [hparse, hfailed]

end Federation
end OpenRelay
