/-
# What a caller has of its answers

The gateway's relay hands an answer to the caller whose entry is in the
connection's map: a one-shot's entry goes with its one value, a stream's with the
last. A conversation keeps (`Inv`) that no value comes twice, or out of order, or from
another request, and that a call which waits has its entry or its value. The
messages of an open stream come to the session's daemon in order (`Writing`).

Key theorems: `inv_step`, `Inv.answered`, `Inv.stream_first`, `Inv.settled`, `Inv.unheard`.
-/
import Mathlib.Data.List.Infix
import Mathlib.Tactic.SplitIfs
import OpenRelay.Federation.RpcCall

namespace OpenRelay
namespace Federation
namespace RpcCall

variable {B R : Type} {codec : Codec B R} {node : String} {v w : Conversation B R}

/-! ### The caller's channel -/

/-- What the gateway's relay has understood. -/
def parsed (codec : Codec B R) (consumed : List (R × Bool)) : List R :=
  consumed.filterMap fun x => codec.response x.1

/-- A one-shot has one value at most, and waits for it as long as there is none. -/
structure OneShot (codec : Codec B R) (pending : Option PendingRpc) (consumed : List (R × Bool)) (c : Call B R) :
    Prop where
  once : c.got.length ≤ 1
  reading : c.phase ≠ .closing
  gone : c.phase = .expired → c.got = []
  waits : c.phase = .sending ∨ c.phase = .waiting →
    (pending = some .oneShot ∧ c.got = []) ∨ (pending = none ∧ c.results = [] ∧ c.mailbox ≠ [])
  own : ∀ r, .ok r ∈ c.got → ∃ x, (x, true) ∈ consumed ∧ codec.response x = some r

/-- A stream has the answers in order, from the first. -/
structure Streaming (codec : Codec B R) (node : String) (ended : Bool) (pending : Option PendingRpc)
    (held : Option (R × Bool)) (consumed : List (R × Bool)) (c : Call B R) : Prop where
  whole : ended = false → c.listening = true → pending = some .stream ∨ held.isSome = true →
    c.got ++ (held.toList.map fun x => .ok x.1) = (parsed codec consumed).map .ok
  pure : c.listening = true → pending = some .stream → ∃ oks, c.got = oks.map .ok ∧ oks <+: parsed codec consumed
  part : ∃ oks errs, c.got = oks.map .ok ++ errs ∧ oks <+: parsed codec consumed ∧
    errs <+: [.error (.nodeNotConnected node)]

/-- What holds of a caller, its entry in the map and the response that is handed over. -/
structure Delivering (codec : Codec B R) (node : String) (v : Conversation B R) : Prop where
  order : v.drained = true → v.ended = true
  idle : v.ended = true → v.held = none
  entry : ∀ k, v.pending = some k →
    ∃ c, v.call = some c ∧ c.kind = k ∧ c.phase ≠ .looked ∧ (v.drained = true → c.late = true)
  held : ∀ x, v.held = some x → ∃ c, v.call = some c ∧ c.kind = .stream ∧ c.phase ≠ .looked
  looked : ∀ c, v.call = some c → c.phase = .looked → c.got = [] ∧ c.late = false
  sending : ∀ c, v.call = some c → c.phase = .sending → c.results = []
  late : ∀ c, v.call = some c → c.late = true → v.drained = true ∧ v.down = [] ∧ v.task = .none
  oneShot : ∀ c, v.call = some c → c.kind = .oneShot → OneShot codec v.pending v.log.consumed c
  stream : ∀ c, v.call = some c → c.kind = .stream →
    Streaming codec node v.ended v.pending v.held v.log.consumed c

theorem delivering_start {ended drained stopped : Bool} (h : drained = true → ended = true) :
    Delivering codec node (Conversation.start ended drained stopped) where
  order := h
  idle _ := rfl
  entry _ hk := by cases hk
  held _ hx := by cases hx
  looked _ hc := by cases hc
  sending _ hc := by cases hc
  late _ hc := by cases hc
  oneShot _ hc := by cases hc
  stream _ hc := by cases hc

/-! ### One lemma for each kind of channel -/

section Channels

variable {ended : Bool} {pending : Option PendingRpc} {held : Option (R × Bool)} {consumed : List (R × Bool)}
  {c c' : Call B R}

theorem parsed_append (l l' : List (R × Bool)) : parsed codec (l ++ l') = parsed codec l ++ parsed codec l' :=
  List.filterMap_append

theorem parsed_concat (x : R × Bool) :
    parsed codec (consumed ++ [x]) = parsed codec consumed ++ (codec.response x.1).toList := by
  rw [parsed_append]
  cases hx : codec.response x.1 <;> simp [parsed, hx]

theorem parsed_mono {l l' : List (R × Bool)} (h : l <+: l') : parsed codec l <+: parsed codec l' := by
  obtain ⟨rest, rfl⟩ := h
  rw [parsed_append]
  exact List.prefix_append _ _

theorem parsed_concat_first (x : R × Bool) : parsed codec consumed <+: parsed codec (consumed ++ [x]) :=
  parsed_mono (List.prefix_append _ _)

/-- Values in front of others are the first ones. -/
theorem exists_first {got rest : List (Except Failure R)} {all : List R} (h : got ++ rest = all.map .ok) :
    ∃ oks : List R, got = oks.map .ok ∧ oks <+: all := by
  obtain ⟨oks, more, rfl, rfl, -⟩ := List.map_eq_append_iff.mp h.symm
  exact ⟨oks, rfl, List.prefix_append _ _⟩

theorem listening_iff : c.listening = true ↔ c.phase = .sending ∨ c.phase = .waiting ∨ c.phase = .closing := by
  unfold Call.listening
  cases c.phase <;> simp

theorem OneShot.listens (h : OneShot codec pending consumed c) (hl : c.listening = true) :
    c.phase = .sending ∨ c.phase = .waiting := by
  rcases listening_iff.mp hl with hp | hp | hp
  · exact .inl hp
  · exact .inr hp
  · exact absurd hp h.reading

/-- The relay has read one more answer, for which this call does not wait. -/
theorem OneShot.consume (h : OneShot codec pending consumed c) (x : R × Bool) :
    OneShot codec pending (consumed ++ [x]) c :=
  { h with
    own := fun r hr => by
      obtain ⟨y, hy, hr⟩ := h.own r hr
      exact ⟨y, List.mem_append_left _ hy, hr⟩ }

/-- Its value comes, and the entry is gone. -/
theorem OneShot.resolve (h : OneShot codec (some .oneShot) consumed c) {x : Except Failure R}
    {consumed' : List (R × Bool)} (hsub : consumed ⊆ consumed')
    (hx : ∀ r, x = .ok r → ∃ y, (y, true) ∈ consumed' ∧ codec.response y = some r) :
    OneShot codec none consumed' (c.put x) := by
  by_cases hl : c.listening = true
  · have hempty : c.got = [] := by
      rcases h.waits (h.listens hl) with ⟨-, hgot⟩ | ⟨hnone, -⟩
      · exact hgot
      · cases hnone
    have hresults : c.results = [] := (List.append_eq_nil_iff.mp hempty).1
    have hgot : (c.put x).got = [x] := by
      rw [Call.put_of_listening hl]
      show c.results ++ (c.mailbox ++ [x]) = [x]
      rw [← List.append_assoc, show c.results ++ c.mailbox = [] from hempty, List.nil_append]
    refine ⟨by rw [hgot]; exact le_rfl, by rw [Call.put_phase]; exact h.reading, fun hexpired => ?_, fun _ => .inr ?_,
      fun r hr => ?_⟩
    · rw [Call.put_phase] at hexpired
      rcases h.listens hl with hp | hp <;> rw [hp] at hexpired <;> cases hexpired
    · refine ⟨rfl, by rw [Call.put_results]; exact hresults, ?_⟩
      rw [Call.put_of_listening hl]
      simp
    · rw [hgot] at hr
      exact hx r (List.mem_singleton.mp hr).symm
  · rw [Call.put_of_not_listening (by simpa using hl)]
    refine ⟨h.once, h.reading, h.gone, fun hp => absurd (listening_iff.mpr (hp.imp_right .inl)) hl, fun r hr => ?_⟩
    obtain ⟨y, hy, hr⟩ := h.own r hr
    exact ⟨y, hsub hy, hr⟩

/-- The caller goes on without its channel. -/
theorem OneShot.leave (h : OneShot codec pending consumed c) {pending' : Option PendingRpc}
    (hphase : c'.phase = .returned) (hgot : c'.got <+: c.got ∨ ∃ e, c'.got = [.error e]) :
    OneShot codec pending' consumed c' := by
  refine ⟨?_, by rw [hphase]; simp, fun hp => ?_, fun hp => ?_, fun r hr => ?_⟩
  · rcases hgot with hpre | ⟨e, he⟩
    · exact hpre.length_le.trans h.once
    · rw [he]
      exact le_rfl
  · rw [hphase] at hp
    cases hp
  · rw [hphase] at hp
    rcases hp with hp | hp <;> cases hp
  · rcases hgot with hpre | ⟨e, he⟩
    · exact h.own r (hpre.subset hr)
    · rw [he] at hr
      cases List.mem_singleton.mp hr

theorem Streaming.of_got (h : Streaming codec node ended pending held consumed c) (hgot : c'.got = c.got)
    (hl : c'.listening = true → c.listening = true) : Streaming codec node ended pending held consumed c' where
  whole hended hlist := by rw [hgot]; exact h.whole hended (hl hlist)
  pure hlist := by rw [hgot]; exact h.pure (hl hlist)
  part := by rw [hgot]; exact h.part

/-- A stream that no one listens to any more. -/
theorem Streaming.leave (h : Streaming codec node ended pending held consumed c) {ended' : Bool}
    {pending' : Option PendingRpc} {held' : Option (R × Bool)} {consumed' : List (R × Bool)}
    (hl : c'.listening = false) (hgot : c'.got <+: c.got) (hpre : parsed codec consumed <+: parsed codec consumed') :
    Streaming codec node ended' pending' held' consumed' c' := by
  refine ⟨fun _ hlist => by simp [hl] at hlist, fun hlist => by simp [hl] at hlist, ?_⟩
  obtain ⟨oks, errs, heq, hoks, herrs⟩ := h.part
  rw [heq] at hgot
  rcases List.prefix_or_prefix_of_prefix hgot (List.prefix_append _ _) with hfirst | ⟨more, hmore⟩
  · obtain ⟨rest, hrest⟩ := hfirst
    obtain ⟨oks', hoks', hle⟩ := exists_first hrest
    exact ⟨oks', [], by rw [hoks', List.append_nil], (hle.trans hoks).trans hpre, List.nil_prefix⟩
  · rw [← hmore, List.prefix_append_right_inj] at hgot
    exact ⟨oks, more, hmore.symm, hoks.trans hpre, hgot.trans herrs⟩

end Channels

/-! ### One lemma for each kind of step -/

/-- A step that shows neither in the call nor in what the relay has read. -/
theorem Delivering.of_eq (hi : Delivering codec node v) (hcall : w.call = v.call) (hpending : w.pending = v.pending)
    (hheld : w.held = v.held) (hended : w.ended = v.ended) (hdrained : w.drained = v.drained)
    (hconsumed : w.log.consumed = v.log.consumed)
    (hlate : ∀ c, v.call = some c → c.late = true → w.down = [] ∧ w.task = .none) : Delivering codec node w where
  order := by rw [hdrained, hended]; exact hi.order
  idle := by rw [hheld, hended]; exact hi.idle
  entry := by rw [hcall, hpending, hdrained]; exact hi.entry
  held := by rw [hcall, hheld]; exact hi.held
  looked := by rw [hcall]; exact hi.looked
  sending := by rw [hcall]; exact hi.sending
  late c hc hl := by
    rw [hcall] at hc
    exact ⟨hdrained.trans (hi.late c hc hl).1, hlate c hc hl⟩
  oneShot := by rw [hcall, hpending, hconsumed]; exact hi.oneShot
  stream := by rw [hcall, hended, hpending, hheld, hconsumed]; exact hi.stream

/-- A step of the call that leaves the map and the relay alone. -/
theorem Delivering.of_call (hi : Delivering codec node v) {c c' : Call B R} (hcall : v.call = some c)
    (hw : w.call = some c') (hkind : c'.kind = c.kind) (hlate : c'.late = c.late) (hlooked : c'.phase ≠ .looked)
    (hsending : c'.phase ≠ .sending)
    (hone : c.kind = .oneShot → OneShot codec v.pending v.log.consumed c → OneShot codec v.pending v.log.consumed c')
    (hstream : Streaming codec node v.ended v.pending v.held v.log.consumed c →
      Streaming codec node v.ended v.pending v.held v.log.consumed c')
    (hpending : w.pending = v.pending) (hheld : w.held = v.held) (hended : w.ended = v.ended)
    (hdrained : w.drained = v.drained) (hconsumed : w.log.consumed = v.log.consumed) (hdown : w.down = v.down)
    (htask : w.task = v.task) : Delivering codec node w where
  order := by rw [hdrained, hended]; exact hi.order
  idle := by rw [hheld, hended]; exact hi.idle
  entry k hk := by
    rw [hpending] at hk
    obtain ⟨d, hd, hkd, -, hld⟩ := hi.entry k hk
    cases hcall.symm.trans hd
    exact ⟨c', hw, hkind.trans hkd, hlooked, fun h => hlate.trans (hld (hdrained ▸ h))⟩
  held x hx := by
    rw [hheld] at hx
    obtain ⟨d, hd, hkd, -⟩ := hi.held x hx
    cases hcall.symm.trans hd
    exact ⟨c', hw, hkind.trans hkd, hlooked⟩
  looked d hd hp := by
    cases hw.symm.trans hd
    exact absurd hp hlooked
  sending d hd hp := by
    cases hw.symm.trans hd
    exact absurd hp hsending
  late d hd hl := by
    cases hw.symm.trans hd
    rw [hdrained, hdown, htask]
    exact hi.late c hcall (hlate ▸ hl)
  oneShot d hd hk := by
    cases hw.symm.trans hd
    rw [hpending, hconsumed]
    have hk' : c.kind = .oneShot := hkind.symm.trans hk
    exact hone hk' (hi.oneShot c hcall hk')
  stream d hd hk := by
    cases hw.symm.trans hd
    rw [hended, hpending, hheld, hconsumed]
    exact hstream (hi.stream c hcall (hkind ▸ hk))

/-- Without a call there is no entry, and nothing is held. -/
theorem Delivering.absent (hi : Delivering codec node v)
    (hcall : v.call = none ∨ ∃ c, v.call = some c ∧ c.phase = .looked) :
    v.pending = none ∧ v.held = none := by
  refine ⟨?_, ?_⟩
  · rcases hp : v.pending with _ | k
    · rfl
    · obtain ⟨c, hc, -, hlooked, -⟩ := hi.entry k hp
      rcases hcall with hnone | ⟨d, hd, hphase⟩
      · cases hnone.symm.trans hc
      · cases hd.symm.trans hc
        exact absurd hphase hlooked
  · rcases hh : v.held with _ | x
    · rfl
    · obtain ⟨c, hc, -, hlooked⟩ := hi.held x hh
      rcases hcall with hnone | ⟨d, hd, hphase⟩
      · cases hnone.symm.trans hc
      · cases hd.symm.trans hc
        exact absurd hphase hlooked

/-- Before the request is sent, nothing has been read. -/
theorem consumed_eq_nil (ha : Asking codec v) (hm : Answering v) {c : Call B R} (hcall : v.call = some c)
    (hearly : c.Early) : v.down = [] ∧ v.task = .none ∧ v.log.consumed = [] := by
  have htask : v.task = .none := by
    by_contra hne
    obtain ⟨d, hd, hlate, -⟩ := ha.served hne
    cases hcall.symm.trans hd
    exact hlate hearly
  have hmade := hm.made
  rw [htask] at hmade
  refine ⟨?_, htask, (hm.nothing hmade.1).1⟩
  rcases ha.unserved htask with ⟨hnil, -⟩ | ⟨d, hd, hlate, -⟩
  · exact (List.append_eq_nil_iff.mp hnil).1
  · cases hcall.symm.trans hd
    exact absurd hearly hlate

/-- The gateway's relay takes an answer, and the call's entry and channel with it. -/
theorem Delivering.read (hi : Delivering codec node v) {c c' : Call B R} (hcall : v.call = some c)
    (hw : w.call = some c') (hkind : c'.kind = c.kind) (hphase : c'.phase = c.phase) (hlate : c'.late = c.late)
    (hresults : c'.results = c.results) (hmail : c'.phase = .looked → c'.mailbox = c.mailbox)
    (hended : v.ended = false ∧ w.ended = false) (hdrained : w.drained = v.drained) (hdown : w.down = v.down)
    (htask : w.task = v.task) (hpending : ∀ k, w.pending = some k → v.pending = some k)
    (hheld : ∀ x, w.held = some x → c.kind = .stream ∧ c.phase ≠ .looked)
    (hone : c.kind = .oneShot → OneShot codec v.pending v.log.consumed c → OneShot codec w.pending w.log.consumed c')
    (hstream : c.kind = .stream → Streaming codec node v.ended v.pending v.held v.log.consumed c →
      Streaming codec node w.ended w.pending w.held w.log.consumed c') : Delivering codec node w where
  order h := by
    rw [hdrained] at h
    cases hended.1.symm.trans (hi.order h)
  idle h := by cases hended.2.symm.trans h
  entry k hk := by
    obtain ⟨d, hd, hkd, hlooked, hld⟩ := hi.entry k (hpending k hk)
    cases hcall.symm.trans hd
    exact ⟨c', hw, hkind.trans hkd, by rw [hphase]; exact hlooked, fun h => hlate.trans (hld (hdrained ▸ h))⟩
  held x hx := ⟨c', hw, hkind.trans (hheld x hx).1, by rw [hphase]; exact (hheld x hx).2⟩
  looked d hd hp := by
    cases hw.symm.trans hd
    obtain ⟨hgot, hl⟩ := hi.looked c hcall (hphase ▸ hp)
    exact ⟨by rw [Call.got, hresults, hmail hp]; exact hgot, hlate.trans hl⟩
  sending d hd hp := by
    cases hw.symm.trans hd
    exact hresults.trans (hi.sending c hcall (hphase ▸ hp))
  late d hd hl := by
    cases hw.symm.trans hd
    rw [hdrained, hdown, htask]
    exact hi.late c hcall (hlate ▸ hl)
  oneShot d hd hk := by
    cases hw.symm.trans hd
    have hk' : c.kind = .oneShot := hkind.symm.trans hk
    exact hone hk' (hi.oneShot c hcall hk')
  stream d hd hk := by
    cases hw.symm.trans hd
    have hk' : c.kind = .stream := hkind.symm.trans hk
    exact hstream hk' (hi.stream c hcall hk')

theorem Call.put_mailbox_of_looked {c : Call B R} (x : Except Failure R) (h : (c.put x).phase = .looked) :
    (c.put x).mailbox = c.mailbox := by
  rw [Call.put_phase] at h
  rw [Call.put_of_not_listening (by simp [Call.listening, h])]

theorem delivering_step (ha : Asking codec v) (hm : Answering v) (hi : Delivering codec node v)
    (h : Step codec node v w) : Delivering codec node w := by
  cases h with
  | lookup kind request hcall =>
    obtain ⟨hpending, hheld⟩ := hi.absent (.inl hcall)
    refine ⟨hi.order, hi.idle, fun k hk => ?_, fun x hx => ?_, fun c hc _ => ?_, fun c hc hp => ?_, fun c hc hl => ?_,
      fun c hc _ => ?_, fun c hc _ => ?_⟩
    · cases hpending.symm.trans hk
    · cases hheld.symm.trans hx
    · cases hc
      exact ⟨rfl, rfl⟩
    · cases hc
      rfl
    · cases hc
      cases hl
    · cases hc
      exact ⟨Nat.zero_le _, by simp, fun _ => rfl, by simp, by simp [Call.got]⟩
    · cases hc
      exact ⟨by simp [Call.listening], by simp [Call.listening], [], [], rfl, List.nil_prefix, List.nil_prefix⟩
  | insert c hcall hphase =>
    obtain ⟨-, hheld⟩ := hi.absent (.inr ⟨c, hcall, hphase⟩)
    obtain ⟨hgot, hlate⟩ := hi.looked c hcall hphase
    obtain ⟨hdown, htask, hconsumed⟩ := consumed_eq_nil ha hm hcall (.inl hphase)
    have hgot' : ({ c with phase := .sending, late := v.drained } : Call B R).got = [] := hgot
    refine ⟨hi.order, hi.idle, fun k hk => ?_, fun x hx => ?_, fun d hd hp => ?_, fun d hd _ => ?_, fun d hd hl => ?_,
      fun d hd hk => ?_, fun d hd hk => ?_⟩
    · cases hk
      exact ⟨_, rfl, rfl, by simp, id⟩
    · cases hheld.symm.trans hx
    · cases hd
      cases hp
    · cases hd
      exact (List.append_eq_nil_iff.mp hgot).1
    · cases hd
      exact ⟨hl, hdown, htask⟩
    · cases hd
      have hkind : c.kind = .oneShot := hk
      refine ⟨by rw [hgot']; exact Nat.zero_le _, by simp, by simp, fun _ => .inl ⟨?_, hgot'⟩, fun r hr => ?_⟩
      · rw [← hkind]
      · rw [hgot'] at hr
        cases hr
    · cases hd
      refine ⟨fun _ _ _ => ?_, fun _ _ => ⟨[], hgot', List.nil_prefix⟩, [], [], hgot', List.nil_prefix, List.nil_prefix⟩
      show _ ++ v.held.toList.map _ = (parsed codec v.log.consumed).map _
      rw [hgot', hheld, hconsumed]
      rfl
  | send c hcall hphase =>
    refine hi.of_call hcall rfl rfl rfl (by simp) (by simp) (fun _ ho => ?_) (fun hs => hs.of_got rfl fun _ => ?_)
      rfl rfl rfl rfl rfl rfl rfl
    · exact ⟨ho.once, by simp, by simp, fun _ => ho.waits (.inl hphase), ho.own⟩
    · simp [Call.listening, hphase]
  | sendFails c hcall hphase =>
    have hgot : c.results = [] := hi.sending c hcall hphase
    refine hi.of_call hcall rfl rfl rfl (by simp) (by simp)
      (fun _ ho => ho.leave rfl (.inr ⟨.nodeNotConnected node, ?_⟩)) (fun hs => ?_) rfl rfl rfl rfl rfl rfl rfl
    · show c.results ++ [_] ++ [] = [_]
      rw [hgot]
      rfl
    · refine ⟨by simp [Call.listening], by simp [Call.listening], [], [.error (.nodeNotConnected node)], ?_,
        List.nil_prefix, List.prefix_rfl⟩
      show c.results ++ [_] ++ [] = _
      rw [hgot]
      rfl
  | receive c x rest hcall hphase hmail =>
    have hgot : c.results ++ [x] ++ rest = c.got := by
      rw [Call.got, hmail, List.append_assoc]
      rfl
    refine hi.of_call hcall rfl rfl rfl ?_ ?_ (fun hkind ho => ?_) (fun hs => hs.of_got hgot fun _ => ?_)
      rfl rfl rfl rfl rfl rfl rfl
    · dsimp only
      split <;> simp
    · dsimp only
      split <;> simp
    · exact ho.leave (by simp [hkind]) (.inl (by rw [← hgot]; exact List.prefix_rfl))
    · simp [Call.listening, hphase]
  | disconnected c hcall hphase hkind hmail hpending =>
    rcases (hi.oneShot c hcall hkind).waits (.inr hphase) with ⟨hp, -⟩ | ⟨-, -, hne⟩
    · cases hpending.symm.trans hp
    · exact absurd hmail hne
  | expire c hcall hphase hkind hmail =>
    have hgot : c.got = [] := by
      rcases (hi.oneShot c hcall hkind).waits (.inr hphase) with ⟨-, hgot⟩ | ⟨-, -, hne⟩
      · exact hgot
      · exact absurd hmail hne
    refine hi.of_call hcall rfl rfl rfl (by simp) (by simp) (fun _ ho => ?_) (fun hs => hs.of_got rfl fun hl => ?_)
      rfl rfl rfl rfl rfl rfl rfl
    · exact ⟨ho.once, by simp, fun _ => hgot, by simp, ho.own⟩
    · cases hl
  | removeExpired c hcall hphase hkind =>
    have ho := hi.oneShot c hcall hkind
    have hgot : c.results = [] ∧ c.mailbox = [] := List.append_eq_nil_iff.mp (ho.gone hphase)
    refine ⟨hi.order, hi.idle, by simp, fun x hx => ?_, fun d hd hp => ?_, fun d hd hp => ?_,
      fun d hd hl => ?_, fun d hd _ => ?_, fun d hd hk => ?_⟩
    · obtain ⟨d, hd, hkd, -⟩ := hi.held x hx
      cases hcall.symm.trans hd
      cases hkind.symm.trans hkd
    · cases hd
      cases hp
    · cases hd
      cases hp
    · cases hd
      exact hi.late c hcall hl
    · cases hd
      refine ho.leave rfl (.inr ⟨noAnswer node c.request, ?_⟩)
      show c.results ++ [_] ++ c.mailbox = [_]
      rw [hgot.1, hgot.2]
      rfl
    · cases hd
      cases hkind.symm.trans hk
  | stopReading c hcall hphase hkind =>
    refine hi.of_call hcall rfl rfl rfl (by simp) (by simp) (fun _ ho => ?_) (fun hs => hs.of_got rfl fun _ => ?_)
      rfl rfl rfl rfl rfl rfl rfl
    · cases hkind.symm.trans ‹_›
    · simp [Call.listening, hphase]
  | removePending c hcall hphase =>
    refine ⟨hi.order, hi.idle, by simp, hi.held, hi.looked, hi.sending, hi.late, fun d hd hk => ?_,
      fun d hd hk => ?_⟩
    · cases hcall.symm.trans hd
      exact absurd hphase (hi.oneShot c hcall hk).reading
    · have hs := hi.stream d hd hk
      exact ⟨fun hended hl hwhich => hs.whole hended hl (.inr (hwhich.resolve_left (by simp))),
        fun _ hp => (by cases hp), hs.part⟩
  | drop c hcall =>
    refine hi.of_call hcall rfl rfl rfl (by simp) (by simp) (fun _ ho => ho.leave rfl (.inl ?_))
      (fun hs => hs.leave rfl ?_ List.prefix_rfl) rfl rfl rfl rfl rfl rfl rfl
    · show c.results ++ [] <+: c.results ++ c.mailbox
      exact (List.prefix_append_right_inj _).mpr List.nil_prefix
    · show c.results ++ [] <+: c.results ++ c.mailbox
      exact (List.prefix_append_right_inj _).mpr List.nil_prefix
  | ignore x rest hup hended hheld hskip =>
    refine ⟨hi.order, hi.idle, hi.entry, hi.held, hi.looked, hi.sending, hi.late,
      fun c hc hk => (hi.oneShot c hc hk).consume x, fun c hc hk => ?_⟩
    have hs := hi.stream c hc hk
    have hsame : v.pending = some .stream → parsed codec (v.log.consumed ++ [x]) = parsed codec v.log.consumed := by
      intro hp
      rcases hskip with hr | hr | ⟨-, hr⟩
      · rw [parsed_concat, hr, Option.toList_none, List.append_nil]
      · cases hp.symm.trans hr
      · cases hp.symm.trans hr
    obtain ⟨oks, errs, hgot, hoks, herrs⟩ := hs.part
    refine ⟨fun he hl hwhich => ?_, fun hl hp => ?_, oks, errs, hgot, hoks.trans (parsed_concat_first x), herrs⟩
    · show c.got ++ v.held.toList.map _ = (parsed codec (v.log.consumed ++ [x])).map _
      have hp : v.pending = some .stream := hwhich.resolve_right (by simp [Conversation.consume, hheld])
      rw [hsame hp]
      exact hs.whole he hl hwhich
    · show ∃ oks, _ ∧ oks <+: parsed codec (v.log.consumed ++ [x])
      rw [hsame hp]
      exact hs.pure hl hp
  | answer c x r rest hup hended hheld hr hpending hcall =>
    obtain ⟨d, hd, hkind, -⟩ := hi.entry _ hpending
    cases hcall.symm.trans hd
    refine hi.read hcall rfl (by simp) (by simp) (by simp) (by simp) (Call.put_mailbox_of_looked _) ⟨hended, hended⟩ rfl
      rfl rfl (by simp) (fun y hy => by cases hheld.symm.trans hy) (fun _ ho => ?_)
      (fun hk _ => by cases hkind.symm.trans hk)
    rw [hpending] at ho
    refine ho.resolve (List.subset_append_left _ _) fun r' hr' => ⟨x, List.mem_append_right _ List.mem_cons_self, ?_⟩
    cases hr'
    exact hr
  | hold x r last rest hup hended hheld hr hpending =>
    obtain ⟨c, hcall, hkind, hlooked, -⟩ := hi.entry _ hpending
    refine hi.read hcall hcall rfl rfl rfl rfl (fun _ => rfl) ⟨hended, hended⟩ rfl rfl rfl (fun k hk => ?_)
      (fun _ _ => ⟨hkind, hlooked⟩) (fun hk _ => by cases hkind.symm.trans hk) (fun _ hs => ?_)
    · rw [hpending]
      cases last with
      | true => cases hk
      | false => exact hk
    · obtain ⟨oks, errs, hgot, hoks, herrs⟩ := hs.part
      have hparsed : parsed codec (v.log.consumed ++ [(x, last)]) = parsed codec v.log.consumed ++ [r] := by
        rw [parsed_concat, hr]
        rfl
      have hwhole : c.listening = true → c.got ++ [.ok r] = (parsed codec (v.log.consumed ++ [(x, last)])).map .ok := by
        intro hl
        have hold := hs.whole hended hl (.inl hpending)
        rw [hheld, Option.toList_none, List.map_nil, List.append_nil] at hold
        rw [hparsed, List.map_append, ← hold]
        rfl
      exact ⟨fun _ hl _ => hwhole hl, fun hl _ => exists_first (hwhole hl), oks, errs, hgot,
        hoks.trans (parsed_concat_first _), herrs⟩
  | deliver c r last hheld hended hcall hopen =>
    obtain ⟨d, hd, hkind, -⟩ := hi.held _ hheld
    cases hcall.symm.trans hd
    refine hi.read hcall rfl (by simp) (by simp) (by simp) (by simp) (Call.put_mailbox_of_looked _) ⟨hended, hended⟩ rfl
      rfl rfl (fun _ => id) (fun y hy => by cases hy) (fun hk _ => by cases hkind.symm.trans hk) (fun _ hs => ?_)
    have hgot : (c.put (.ok r)).got = (parsed codec v.log.consumed).map .ok := by
      have hold := hs.whole hended hopen (.inr (by simp [hheld]))
      rw [hheld] at hold
      rw [← hold, Call.put_of_listening hopen]
      exact (List.append_assoc ..).symm
    refine ⟨fun _ _ _ => ?_, fun _ _ => ⟨_, hgot, List.prefix_rfl⟩, _, [], ?_, List.prefix_rfl, List.nil_prefix⟩
    · rw [hgot]
      simp
    · rw [hgot, List.append_nil]
  | deliverGone c r last hheld hended hcall hopen =>
    obtain ⟨d, hd, hkind, -⟩ := hi.held _ hheld
    cases hcall.symm.trans hd
    refine hi.read hcall hcall rfl rfl rfl rfl (fun _ => rfl) ⟨hended, hended⟩ rfl rfl rfl (fun k hk => ?_)
      (fun y hy => by cases hy) (fun hk _ => by cases hkind.symm.trans hk)
      (fun _ hs => hs.leave hopen List.prefix_rfl List.prefix_rfl)
    cases last
    · cases hk
    · exact hk
  | finish hended =>
    refine ⟨fun _ => rfl, fun _ => rfl, hi.entry, by simp, hi.looked, hi.sending, hi.late, hi.oneShot,
      fun c hc hk => ?_⟩
    have hs := hi.stream c hc hk
    exact ⟨by simp, hs.pure, hs.part⟩
  | drainNone hended hdrained hpending =>
    refine ⟨fun _ => hended, hi.idle, fun k hk => (by cases hpending.symm.trans hk), hi.held, hi.looked, hi.sending,
      fun c hc hl => ?_, hi.oneShot, hi.stream⟩
    cases hdrained.symm.trans (hi.late c hc hl).1
  | drain c hended hdrained hpending hcall =>
    have hheld := hi.idle hended
    refine ⟨fun _ => hended, hi.idle, by simp, fun x hx => (by cases hheld.symm.trans hx), fun d hd hp => ?_,
      fun d hd hp => ?_, fun d hd hl => ?_, fun d hd hk => ?_, fun d hd hk => ?_⟩
    · cases hd
      rw [Call.trySend_phase] at hp
      obtain ⟨k, hk⟩ := Option.ne_none_iff_exists'.mp hpending
      obtain ⟨d, hd, -, hlooked, -⟩ := hi.entry k hk
      cases hcall.symm.trans hd
      exact absurd hp hlooked
    · cases hd
      rw [Call.trySend_phase] at hp
      rw [Call.trySend_results]
      exact hi.sending c hcall hp
    · cases hd
      rw [Call.trySend_late] at hl
      cases hdrained.symm.trans (hi.late c hcall hl).1
    · cases hd
      rw [Call.trySend_kind] at hk
      have ho := hi.oneShot c hcall hk
      have hentry : v.pending = some .oneShot := by
        obtain ⟨k, hp⟩ := Option.ne_none_iff_exists'.mp hpending
        obtain ⟨d, hd, hkd, -⟩ := hi.entry k hp
        cases hcall.symm.trans hd
        rw [hp, ← hkd, hk]
      rw [hentry] at ho
      rw [show c.trySend _ = c.put _ by rw [Call.trySend, if_neg (by simp [hk])]]
      exact ho.resolve (List.Subset.refl _) fun r hr => by cases hr
    · cases hd
      rw [Call.trySend_kind] at hk
      have hs := hi.stream c hcall hk
      have hentry : v.pending = some .stream := by
        obtain ⟨k, hp⟩ := Option.ne_none_iff_exists'.mp hpending
        obtain ⟨d, hd, hkd, -⟩ := hi.entry k hp
        cases hcall.symm.trans hd
        rw [hp, ← hkd, hk]
      refine ⟨fun he => (by cases hended.symm.trans he), by simp, ?_⟩
      rcases c.trySend_cases (.error (.nodeNotConnected node)) with heq | heq
      · rw [heq]
        exact hs.part
      · rw [heq]
        by_cases hl : c.listening = true
        · obtain ⟨oks, hgot, hoks⟩ := hs.pure hl hentry
          refine ⟨oks, [.error (.nodeNotConnected node)], ?_, hoks, List.prefix_rfl⟩
          rw [Call.put_of_listening hl, ← hgot]
          exact (List.append_assoc ..).symm
        · rw [Call.put_of_not_listening (by simpa using hl)]
          exact hs.part
  | outgoing ask rest hout hended =>
    refine hi.of_eq rfl rfl rfl rfl rfl rfl fun c hc hl => ?_
    cases hended.symm.trans (hi.order (hi.late c hc hl).1)
  | refuse request x rest hdown =>
    refine hi.of_eq rfl rfl rfl rfl rfl rfl fun c hc hl => ?_
    cases hdown.symm.trans (hi.late c hc hl).2.1
  | spawnRpc request request' rest hdown =>
    refine hi.of_eq rfl rfl rfl rfl rfl rfl fun c hc hl => ?_
    cases hdown.symm.trans (hi.late c hc hl).2.1
  | spawnStream request request' rest hdown =>
    refine hi.of_eq rfl rfl rfl rfl rfl rfl fun c hc hl => ?_
    cases hdown.symm.trans (hi.late c hc hl).2.1
  | discard request rest hdown =>
    refine hi.of_eq rfl rfl rfl rfl rfl rfl fun c hc hl => ?_
    cases hdown.symm.trans (hi.late c hc hl).2.1
  | take request request' inbox rest hdown =>
    refine hi.of_eq rfl rfl rfl rfl rfl rfl fun c hc hl => ?_
    cases hdown.symm.trans (hi.late c hc hl).2.1
  | execute request x htask =>
    refine hi.of_eq rfl rfl rfl rfl rfl rfl fun c hc hl => ?_
    cases htask.symm.trans (hi.late c hc hl).2.2
  | reply request x htask =>
    refine hi.of_eq rfl rfl rfl rfl rfl rfl fun c hc hl => ?_
    cases htask.symm.trans (hi.late c hc hl).2.2
  | emit request msgsOpen x htask =>
    refine hi.of_eq rfl rfl rfl rfl rfl rfl fun c hc hl => ?_
    cases htask.symm.trans (hi.late c hc hl).2.2
  | quit request msgsOpen htask =>
    refine hi.of_eq rfl rfl rfl rfl rfl rfl fun c hc hl => ?_
    cases htask.symm.trans (hi.late c hc hl).2.2
  | write request message inbox htask =>
    refine hi.of_eq rfl rfl rfl rfl rfl rfl fun c hc hl => ?_
    cases htask.symm.trans (hi.late c hc hl).2.2
  | message | forward | forwardGone | sendReply | sendFrame | secondaryEnds =>
    exact hi.of_eq rfl rfl rfl rfl rfl rfl fun c hc hl => (hi.late c hc hl).2

/-! ### The messages of a stream -/

/-- The messages among what goes to the secondary. -/
def messages (asks : List (Ask B)) : List (RpcRequest B) :=
  asks.filterMap fun ask =>
    match ask with
    | .message request => some request
    | .rpc _ => none

@[simp] theorem messages_append (l l' : List (Ask B)) : messages (l ++ l') = messages l ++ messages l' :=
  List.filterMap_append

@[simp] theorem messages_map (l : List (RpcRequest B)) : messages (l.map .message) = l := by
  simp [messages, List.filterMap_map]

@[simp] theorem messages_message (request : RpcRequest B) (l : List (Ask B)) :
    messages (.message request :: l) = request :: messages l := rfl

@[simp] theorem messages_rpc (request : RpcRequest B) (l : List (Ask B)) :
    messages (.rpc request :: l) = messages l := rfl

/-- What is written to the session is what the caller has sent of what may be relayed, in
order; as long as the secondary's relay runs and the stream's channel is there, nothing of it is
missing. -/
structure Writing (codec : Codec B R) (v : Conversation B R) : Prop where
  whole : v.stopped = false → ∀ inbox, v.inbox = some inbox →
    v.log.written ++ inbox ++ (v.forwarding.toList ++ (messages v.asks).filterMap codec.relayable) =
      v.log.sent.filterMap codec.relayable
  near : ∀ inbox, v.inbox = some inbox → v.log.written ++ inbox <+: v.log.sent.filterMap codec.relayable
  part : v.log.written <+: v.log.sent.filterMap codec.relayable
  closed : v.task = .none → v.inbox = none ∧ v.forwarding = none ∧ v.log.written = []

theorem writing_start (ended drained stopped : Bool) : Writing codec (Conversation.start ended drained stopped) where
  whole _ _ h := by cases h
  near _ h := by cases h
  part := List.nil_prefix
  closed _ := ⟨rfl, rfl, rfl⟩

theorem Writing.of_eq (hi : Writing codec v) (hinbox : w.inbox = v.inbox) (hforwarding : w.forwarding = v.forwarding)
    (hstopped : w.stopped = v.stopped) (hmessages : messages w.asks = messages v.asks)
    (hwritten : w.log.written = v.log.written) (hsent : w.log.sent = v.log.sent)
    (htask : w.task = .none → v.task = .none) : Writing codec w where
  whole := by rw [hinbox, hforwarding, hstopped, hmessages, hwritten, hsent]; exact hi.whole
  near := by rw [hinbox, hwritten, hsent]; exact hi.near
  part := by rw [hwritten, hsent]; exact hi.part
  closed h := by rw [hinbox, hforwarding, hwritten]; exact hi.closed (htask h)

/-- The stream's channel, as long as the secondary's relay runs. -/
theorem Writing.of_whole (hi : Writing codec v) (hwritten : w.log.written = v.log.written)
    (hsent : w.log.sent = v.log.sent)
    (hclosed : w.task = .none → w.inbox = none ∧ w.forwarding = none ∧ v.log.written = [])
    (hwhole : ∀ inbox, w.inbox = some inbox →
      w.log.written ++ inbox ++ (w.forwarding.toList ++ (messages w.asks).filterMap codec.relayable) =
        w.log.sent.filterMap codec.relayable) : Writing codec w where
  whole _ := hwhole
  near inbox hinbox := by
    rw [← hwhole inbox hinbox]
    exact List.prefix_append _ _
  part := by rw [hwritten, hsent]; exact hi.part
  closed h := by rw [hwritten]; exact hclosed h

theorem writing_step (ha : Asking codec v) (hi : Writing codec v) (h : Step codec node v w) : Writing codec w := by
  cases h with
  | send c hcall hphase =>
    refine hi.of_eq rfl rfl rfl ?_ rfl rfl id
    show messages (v.down ++ (v.outbox ++ [.rpc c.request])) = messages (v.down ++ v.outbox)
    simp [messages]
  | message c request hcall hphase hkind =>
    have hgrown : v.log.sent.filterMap codec.relayable <+: (v.log.sent ++ [request]).filterMap codec.relayable := by
      rw [List.filterMap_append]
      exact List.prefix_append _ _
    refine ⟨fun hstopped inbox hinbox => ?_, fun inbox hinbox => (hi.near inbox hinbox).trans hgrown,
      hi.part.trans hgrown, hi.closed⟩
    show v.log.written ++ inbox ++ (v.forwarding.toList ++
      (messages (v.down ++ (v.outbox ++ [.message request]))).filterMap codec.relayable) =
        (v.log.sent ++ [request]).filterMap codec.relayable
    rw [List.filterMap_append, ← hi.whole hstopped inbox hinbox, Conversation.asks]
    simp [messages]
  | outgoing ask rest hout =>
    refine hi.of_eq rfl rfl rfl ?_ rfl rfl id
    show messages (v.down ++ [ask] ++ rest) = messages (v.down ++ v.outbox)
    rw [hout, List.append_assoc]
    rfl
  | refuse request x rest hdown =>
    refine hi.of_eq rfl rfl rfl ?_ rfl rfl (by simp)
    show messages (rest ++ v.outbox) = messages (v.down ++ v.outbox)
    rw [hdown]
    simp
  | spawnRpc request request' rest hdown =>
    refine hi.of_eq rfl rfl rfl ?_ rfl rfl (by simp)
    show messages (rest ++ v.outbox) = messages (v.down ++ v.outbox)
    rw [hdown]
    simp
  | spawnStream request request' rest hdown =>
    obtain ⟨htask, c, -, -, -, hrest⟩ := ha.head hdown
    obtain ⟨-, hforwarding, hwritten⟩ := hi.closed htask
    refine hi.of_whole rfl rfl (by simp) fun inbox hinbox => ?_
    cases hinbox
    show v.log.written ++ [] ++ (v.forwarding.toList ++ (messages (rest ++ v.outbox)).filterMap codec.relayable) = _
    rw [hforwarding, hwritten, hrest, messages_map]
    rfl
  | discard request rest hdown hskip hforwarding hstopped =>
    have hmessages : messages v.asks = request :: messages (rest ++ v.outbox) := by
      rw [Conversation.asks, hdown]
      rfl
    refine hi.of_whole rfl rfl hi.closed fun inbox hinbox => ?_
    have hwhole := hi.whole hstopped inbox hinbox
    rcases hskip with hnone | hnone
    · rw [hmessages, List.filterMap_cons_none hnone] at hwhole
      exact hwhole
    · cases hnone.symm.trans hinbox
  | take request request' inbox rest hdown hr hinbox hforwarding hstopped =>
    refine hi.of_whole rfl rfl (fun h => absurd h (ha.message_task hdown)) fun inbox' hinbox' => ?_
    have hwhole := hi.whole hstopped inbox' hinbox'
    rw [Conversation.asks, hdown, List.cons_append, messages_message, List.filterMap_cons_some hr,
      hforwarding] at hwhole
    exact hwhole
  | forward request inbox hforwarding hinbox hlive hstopped =>
    refine hi.of_whole rfl rfl (fun h => ?_) fun inbox' hinbox' => ?_
    · cases hinbox.symm.trans (hi.closed h).1
    · cases hinbox'
      rw [← hi.whole hstopped inbox hinbox, hforwarding]
      show v.log.written ++ (inbox ++ [request]) ++ _ = _
      simp
      rfl
  | forwardGone request hforwarding hlive =>
    exact ⟨fun _ _ h => (by cases h), fun _ h => (by cases h), hi.part, fun h => ⟨rfl, rfl, (hi.closed h).2.2⟩⟩
  | execute request x htask => exact hi.of_eq rfl rfl rfl rfl rfl rfl (by simp)
  | reply request x htask => exact hi.of_eq rfl rfl rfl rfl rfl rfl (by simp)
  | emit request msgsOpen x htask =>
    refine hi.of_eq rfl rfl rfl rfl rfl rfl ?_
    dsimp only
    split <;> simp
  | quit request msgsOpen htask => exact hi.of_eq rfl rfl rfl rfl rfl rfl (by simp)
  | write request message inbox htask hinbox =>
    have hnear := hi.near _ hinbox
    rw [List.append_cons] at hnear
    refine ⟨fun hstopped inbox' hinbox' => ?_, fun inbox' hinbox' => ?_, (List.prefix_append _ _).trans hnear, by simp⟩
    · cases hinbox'
      rw [← hi.whole hstopped _ hinbox]
      show v.log.written ++ [message] ++ inbox ++ _ = _
      rw [← List.append_cons]
      rfl
    · cases hinbox'
      exact hnear
  | sendFrame x last rest hframes =>
    cases last with
    | true =>
      exact ⟨fun _ _ h => (by cases h), fun _ h => (by cases h), hi.part, fun h => ⟨rfl, (hi.closed h).2⟩⟩
    | false => exact hi.of_eq rfl rfl rfl rfl rfl rfl id
  | secondaryEnds =>
    exact ⟨fun h => (by cases h), hi.near, hi.part, fun h => ⟨(hi.closed h).1, rfl, (hi.closed h).2.2⟩⟩
  | _ => exact hi.of_eq rfl rfl rfl rfl rfl rfl id

/-! ### The places of a stream's channel -/

/-- A stream's channel holds no more than it has places for. -/
def Room (v : Conversation B R) : Prop :=
  ∀ c, v.call = some c → c.kind = .stream → c.mailbox.length ≤ 256

theorem room_step (hd : Delivering codec node v) (hi : Room v) (h : Step codec node v w) : Room w := by
  cases h with
  | lookup kind request hcall =>
    intro c hc _
    cases hc
    exact Nat.zero_le _
  | insert c hcall | send c hcall | disconnected c hcall | expire c hcall | removeExpired c hcall
  | stopReading c hcall =>
    intro d hd' hkind
    cases hd'
    exact hi c hcall hkind
  | sendFails c hcall | drop c hcall =>
    intro d hd' _
    cases hd'
    exact Nat.zero_le _
  | receive c x rest hcall hphase hmail =>
    intro d hd' hkind
    cases hd'
    have hroom := hi c hcall hkind
    rw [hmail] at hroom
    exact Nat.le_of_succ_le hroom
  | answer c x r rest hup hended hheld hr hpending hcall =>
    intro d hd' hkind
    cases hd'
    obtain ⟨e, he, hone, -⟩ := hd.entry _ hpending
    cases hcall.symm.trans he
    rw [Call.put_kind, hone] at hkind
    cases hkind
  | deliver c r last hheld hended hcall hopen hroom =>
    intro d hd' _
    cases hd'
    rw [Call.put_of_listening hopen, List.length_append]
    exact hroom
  | drain c hended hdrained hpending hcall =>
    intro d hd' hkind
    cases hd'
    rw [Call.trySend_kind] at hkind
    have hroom := hi c hcall hkind
    unfold Call.trySend Call.put
    split_ifs with hfull hopen
    · exact hroom
    · rw [List.length_append]
      exact not_le.mp fun hle => hfull ⟨hkind, hle⟩
    · exact hroom
  | _ => exact hi

/-! ### The conversation -/

/-- What holds of the conversation all along. -/
structure Inv (codec : Codec B R) (node : String) (v : Conversation B R) : Prop where
  asking : Asking codec v
  answering : Answering v
  delivering : Delivering codec node v
  writing : Writing codec v
  room : Room v

theorem inv_start {ended drained stopped : Bool} (h : drained = true → ended = true) :
    Inv codec node (Conversation.start ended drained stopped) :=
  ⟨asking_start _ _ _, answering_start _ _ _, delivering_start h, writing_start _ _ _, fun _ hc => by cases hc⟩

/-- **A step** of the conversation keeps the invariant. -/
theorem inv_step (hi : Inv codec node v) (h : Step codec node v w) : Inv codec node w :=
  ⟨asking_step hi.asking h, answering_step hi.asking hi.answering h,
    delivering_step hi.asking hi.answering hi.delivering h, writing_step hi.asking hi.writing h,
    room_step hi.delivering hi.room h⟩

/-! ### What the invariant says -/

/-- What the gateway's relay has read is the first of what has been made. -/
theorem Answering.consumed_first (hm : Answering v) : v.log.consumed <+: v.log.emitted := by
  rw [hm.flow]
  exact List.prefix_append _ _

/-- Of what is made for a call only the last can be marked so. -/
theorem Inv.done_last (hi : Inv codec node v) : ∀ f ∈ v.log.emitted.dropLast, f.2 = false := by
  have hmade := hi.answering.made
  intro f hf
  cases htask : v.task <;> rw [htask] at hmade
  case stream => exact hmade.2.2 f (List.dropLast_subset _ hf)
  case streamed => exact hmade.2.2 f hf
  case refused => rw [hmade.1] at hf; cases hf
  case replied => rw [hmade.1] at hf; cases hf
  all_goals
    rw [hmade.1] at hf
    cases hf

/-- What a request is answered with: a refusal, what the daemon has made of it, or the
last frame of a stream. -/
def AnswerTo (codec : Codec B R) (request : RpcRequest B) (log : Log B R) (x : R) : Prop :=
  (codec.refusal request = some x ∧ log.executed = []) ∨
    ∃ req, codec.request request = .ok req ∧ isSupportedProxiedRpc req = true ∧
      ((req.method ≠ .attachSubscribe ∧ log.executed = [(req, x)]) ∨
        (req.method = .attachSubscribe ∧ log.executed = [] ∧ log.emitted.getLast? = some (x, true)))

/-- A frame marked as the last, where all before the last are not. -/
theorem getLast?_of_done {l : List (R × Bool)} {x : R} (hx : (x, true) ∈ l) (hl : ∀ f ∈ l.dropLast, f.2 = false) :
    l.getLast? = some (x, true) := by
  rcases List.eq_nil_or_concat l with rfl | ⟨l', f, rfl⟩
  · cases hx
  · rw [List.concat_eq_append, List.dropLast_concat] at hl
    rw [List.concat_eq_append] at hx ⊢
    rw [List.getLast?_concat]
    rcases List.mem_append.mp hx with hin | hlast
    · cases hl _ hin
    · rw [List.mem_singleton.mp hlast]

theorem Inv.answerTo (hi : Inv codec node v) {c : Call B R} (hcall : v.call = some c) {x : R}
    (hx : (x, true) ∈ v.log.emitted) : AnswerTo codec c.request v.log x := by
  have hmade := hi.answering.made
  have htask : v.task ≠ .none := by
    intro hnone
    rw [hnone] at hmade
    rw [hmade.1] at hx
    cases hx
  obtain ⟨d, hd, -, hof, -⟩ := hi.asking.served htask
  cases hcall.symm.trans hd
  cases ht : v.task with
  | none => exact absurd ht htask
  | refused x' =>
    rw [ht] at hmade hof
    obtain ⟨hemitted, hexecuted, -⟩ := hmade
    rw [hemitted] at hx
    cases List.mem_singleton.mp hx
    exact .inl ⟨hof, hexecuted⟩
  | rpc | replying =>
    rw [ht] at hmade
    rw [hmade.1] at hx
    cases hx
  | replied request x' =>
    rw [ht] at hmade hof
    obtain ⟨hemitted, hexecuted, -⟩ := hmade
    rw [hemitted] at hx
    cases List.mem_singleton.mp hx
    exact .inr ⟨request, hof.1, hof.2.1, .inl ⟨hof.2.2, hexecuted⟩⟩
  | stream =>
    rw [ht] at hmade
    cases hmade.2.2 _ hx
  | streamed request =>
    rw [ht] at hmade hof
    exact .inr ⟨request, hof.1, hof.2.1, .inr ⟨hof.2.2, hmade.1, getLast?_of_done hx hmade.2.2⟩⟩

/-- A request is asked of the daemon once at most, and only if it is a supported one. -/
theorem Inv.executed (hi : Inv codec node v) {c : Call B R} (hcall : v.call = some c) :
    v.log.executed = [] ∨ ∃ req x, v.log.executed = [(req, x)] ∧ codec.request c.request = .ok req ∧
      isSupportedProxiedRpc req = true ∧ req.method ≠ .attachSubscribe := by
  have hmade := hi.answering.made
  by_cases htask : v.task = .none
  · rw [htask] at hmade
    exact .inl hmade.2
  obtain ⟨d, hd, -, hof, -⟩ := hi.asking.served htask
  cases hcall.symm.trans hd
  cases ht : v.task <;> rw [ht] at hmade hof
  case none => exact absurd ht htask
  case refused => exact .inl hmade.2.1
  case rpc => exact .inl hmade.2
  case replying request x => exact .inr ⟨request, x, hmade.2, hof⟩
  case replied request x => exact .inr ⟨request, x, hmade.2.1, hof⟩
  case stream => exact .inl hmade.1
  case streamed => exact .inl hmade.1

theorem Inv.answered (hi : Inv codec node v) {c : Call B R} (hcall : v.call = some c) (hkind : c.kind = .oneShot) :
    c.results.length ≤ 1 ∧
      ∀ r, .ok r ∈ c.results → ∃ x, codec.response x = some r ∧ AnswerTo codec c.request v.log x := by
  have ho := hi.delivering.oneShot c hcall hkind
  refine ⟨le_trans ?_ ho.once, fun r hr => ?_⟩
  · rw [Call.got, List.length_append]
    exact Nat.le_add_right _ _
  · obtain ⟨x, hx, hr⟩ := ho.own r (List.mem_append_left _ hr)
    exact ⟨x, hr, hi.answerTo hcall (hi.answering.consumed_first.subset hx)⟩

theorem Inv.stream_first (hi : Inv codec node v) {c : Call B R} (hcall : v.call = some c) (hkind : c.kind = .stream) :
    ∃ oks : List R, (c.results = oks.map .ok ∨ c.results = oks.map .ok ++ [.error (.nodeNotConnected node)]) ∧
      oks <+: parsed codec v.log.emitted := by
  have hs := hi.delivering.stream c hcall hkind
  -- the values that have been taken are what a caller without a channel has
  have hleft :
      Streaming codec node v.ended v.pending v.held v.log.consumed { c with phase := .returned, mailbox := [] } :=
    hs.leave rfl ((List.prefix_append_right_inj _).mpr List.nil_prefix) List.prefix_rfl
  obtain ⟨oks, errs, hgot, hoks, herrs⟩ := hleft.part
  have hresults : c.results = oks.map .ok ++ errs := (List.append_nil _).symm.trans hgot
  refine ⟨oks, ?_, hoks.trans (parsed_mono hi.answering.consumed_first)⟩
  rcases List.prefix_cons_iff.mp herrs with rfl | ⟨rest, rfl, hrest⟩
  · exact .inl (hresults.trans (List.append_nil _))
  · rw [List.prefix_nil.mp hrest] at hresults
    exact .inr hresults

/-- As long as the stream's entry is in the map and its caller listens, nothing is missing. -/
theorem Inv.stream_whole (hi : Inv codec node v) {c : Call B R} (hcall : v.call = some c)
    (hended : v.ended = false) (hopen : c.listening = true) (hpending : v.pending = some .stream) :
    c.got ++ (v.held.toList.map Prod.fst ++ parsed codec (v.up ++ (v.replies.map (·, true) ++ v.frames))).map .ok =
      (parsed codec v.log.emitted).map .ok := by
  obtain ⟨d, hd, hkind, -⟩ := hi.delivering.entry _ hpending
  cases hcall.symm.trans hd
  have hwhole := (hi.delivering.stream c hcall hkind).whole hended hopen (.inl hpending)
  calc c.got ++ (v.held.toList.map Prod.fst ++ parsed codec _).map .ok
      = (c.got ++ v.held.toList.map fun x => .ok x.1) ++ (parsed codec _).map .ok := by
        rw [List.map_append, List.map_map, List.append_assoc]
        rfl
    _ = (parsed codec v.log.emitted).map .ok := by
        rw [hwhole, ← List.map_append, ← parsed_append, ← hi.answering.flow]

/-- A one-shot that waits has its entry in the map or its value in the channel. -/
theorem Inv.waits (hi : Inv codec node v) {c : Call B R} (hcall : v.call = some c) (hkind : c.kind = .oneShot)
    (hphase : c.phase = .waiting) (hmail : c.mailbox = []) : v.pending = some .oneShot := by
  rcases (hi.delivering.oneShot c hcall hkind).waits (.inr hphase) with ⟨hp, -⟩ | ⟨-, -, hne⟩
  · exact hp
  · exact absurd hmail hne

/-- When the relay has drained the map, a one-shot that was in it has its value. -/
theorem Inv.settled (hi : Inv codec node v) {c : Call B R} (hcall : v.call = some c) (hkind : c.kind = .oneShot)
    (hphase : c.phase = .waiting) (hdrained : v.drained = true) (hlate : c.late = false) : ∃ x, c.mailbox = [x] := by
  have ho := hi.delivering.oneShot c hcall hkind
  rcases ho.waits (.inr hphase) with ⟨hp, -⟩ | ⟨-, hresults, hne⟩
  · obtain ⟨d, hd, -, -, hl⟩ := hi.delivering.entry _ hp
    cases hcall.symm.trans hd
    cases hlate.symm.trans (hl hdrained)
  · have honce := ho.once
    rw [Call.got, hresults, List.nil_append] at honce
    exact List.length_eq_one_iff.mp (le_antisymm honce (List.length_pos_of_ne_nil hne))

/-- A call whose entry came after that has no answer: its request does not go out. -/
theorem Inv.unheard (hi : Inv codec node v) {c : Call B R} (hcall : v.call = some c) (hlate : c.late = true) :
    v.task = .none ∧ v.log.executed = [] ∧ ∀ r, .ok r ∉ c.got := by
  obtain ⟨-, -, htask⟩ := hi.delivering.late c hcall hlate
  have hmade := hi.answering.made
  rw [htask] at hmade
  obtain ⟨hconsumed, -⟩ := hi.answering.nothing hmade.1
  refine ⟨htask, hmade.2, fun r hr => ?_⟩
  cases hkind : c.kind with
  | oneShot =>
    obtain ⟨x, hx, -⟩ := (hi.delivering.oneShot c hcall hkind).own r hr
    rw [hconsumed] at hx
    cases hx
  | stream =>
    obtain ⟨oks, errs, hgot, hoks, herrs⟩ := (hi.delivering.stream c hcall hkind).part
    rw [hconsumed] at hoks
    rw [hgot, List.prefix_nil.mp hoks] at hr
    cases List.mem_singleton.mp (herrs.subset hr)

/-- No channel of a call holds more than it has places for. -/
theorem Inv.mailbox (hi : Inv codec node v) {c : Call B R} (hcall : v.call = some c) : c.mailbox.length ≤ 256 := by
  cases hkind : c.kind with
  | oneShot =>
    have honce := (hi.delivering.oneShot c hcall hkind).once
    rw [Call.got, List.length_append] at honce
    omega
  | stream => exact hi.room c hcall hkind

end RpcCall
end Federation
end OpenRelay
