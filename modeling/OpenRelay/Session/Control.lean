/-
# Who may drive a session

Input and geometry reach the terminal of a session from the clients that are attached
to it, and from operators that are not (`session/store/attach.rs`). An attachment has
an id and a role, both given when it is registered; a call that carries an id is
refused unless the id is that of a controller that is still registered
(`session/registry.rs`). A registration may size the terminal itself, if its role may.

`granted` and `detached` are what was handed out, and what was taken back. Every call
is made under the runtime's write lock, so a run is a list of calls, with whatever
the terminal and the clock do beside them.

Key theorems: `serve_refused`, `served_inv`, `control_fenced`.
-/
import OpenRelay.Basic
import OpenRelay.Session.Attachments
import Mathlib.Data.List.Nodup
import Mathlib.Data.List.Range

namespace OpenRelay
namespace Session
namespace Attachments

/-! ### The registry -/

namespace AttachmentRegistry

def find? (r : AttachmentRegistry) (id : ℕ) : Option Attachment := r.attachments.find? (·.id = id)

def canControl (r : AttachmentRegistry) (id : ℕ) : Bool := (r.find? id).any (·.role = .controller)

/-- The size that an attachment has declared last. -/
def setViewport (r : AttachmentRegistry) (id rows cols : ℕ) : AttachmentRegistry :=
  { r with attachments := r.attachments.map fun a => if a.id = id then { a with viewport := some (rows, cols) } else a }

end AttachmentRegistry

end Attachments

namespace Control

open Attachments

/-- Why a call is refused. -/
inductive SessionError where
  | evicted
  | notRunning
  | busy
  | viewOnly
  | staleAttachment
  deriving DecidableEq, Repr

/-- A call that the terminal was given. -/
inductive PtyCall where
  | input (data : Bytes)
  | resize (rows cols : ℕ)
  deriving DecidableEq, Repr

/-- The messages that the writer's queue holds. -/
def ptyWriterQueueCapacity : ℕ := 4096

/-- What the calls read and write of a runtime. -/
structure Runtime where
  attachments : AttachmentRegistry
  ptySize : Option (ℕ × ℕ)
  filteredTotalBytes : ℕ
  /-- The sizes, each with the offset of the output it holds from. -/
  resizeHistory : List (ℕ × ℕ × ℕ)
  writerQueue : List Bytes
  writerClosed : Bool
  lastAttachActivityAt : Option ℕ
  lastInputAt : Option ℕ
  /-- What the terminal has been given. -/
  ptyCalls : List PtyCall
  deriving DecidableEq, Repr

/-- A runtime that was spawned, with nothing attached. -/
def Runtime.spawned (ptySize : Option (ℕ × ℕ)) : Runtime :=
  ⟨⟨0, []⟩, ptySize, 0, (ptySize.map fun size => (0, size)).toList, [], false, none, none, []⟩

/-! ### The calls -/

namespace Runtime

variable (rt : Runtime)

/-- `try_send` on the writer's queue. -/
def tryWriteInput (data : Bytes) : Except SessionError Runtime :=
  if rt.writerClosed then .error .evicted
  else if ptyWriterQueueCapacity ≤ rt.writerQueue.length then .error .busy
  else .ok { rt with writerQueue := rt.writerQueue ++ [data], ptyCalls := rt.ptyCalls ++ [.input data] }

/-- `took`: the device took the size. -/
def resizePty (rows cols : ℕ) (took : Bool) : Runtime × Bool :=
  if rows = 0 ∨ cols = 0 then (rt, false)
  else if rt.ptySize = some (rows, cols) then (rt, true)
  else
    let asked := { rt with ptyCalls := rt.ptyCalls ++ [.resize rows cols] }
    if took then
      ({ asked with
        ptySize := some (rows, cols), resizeHistory := rt.resizeHistory ++ [(rt.filteredTotalBytes, rows, cols)] }, true)
    else (asked, false)

/-- A client has done something. -/
def markAttachActivity (now : ℕ) : Runtime := { rt with lastAttachActivityAt := some now }

def registerAttachment (kind : AttachKind) (role : AttachRole) (viewport : Option (ℕ × ℕ)) (now : ℕ) (took : Bool) :
    Runtime × ℕ :=
  let (attachments, id) := rt.attachments.register kind role viewport
  let registered := { rt.markAttachActivity now with attachments := attachments }
  match role, viewport with
  | .controller, some (rows, cols) =>
    if 0 < rows ∧ 0 < cols then ((registered.resizePty rows cols took).1, id) else (registered, id)
  | _, _ => (registered, id)

def unregisterAttachment (id : ℕ) : Runtime := { rt with attachments := rt.attachments.unregister id }

def checkControl (id : ℕ) : Except SessionError Unit :=
  if rt.attachments.contains id = false then .error .staleAttachment
  else if rt.attachments.canControl id then .ok ()
  else .error .viewOnly

/-- An operator has no attachment; `resolve` makes the bytes of what is asked for. -/
def attachInputAction (attachmentId : Option ℕ) (resolve : Runtime → Except SessionError Bytes) (now : ℕ) :
    Except SessionError Runtime := do
  match attachmentId with
  | some id => rt.checkControl id
  | none => pure ()
  let data ← resolve rt
  let queued ← rt.tryWriteInput data
  pure { queued.markAttachActivity now with lastInputAt := some now }

/-- Input of a client, or of nobody in particular. -/
def attachInput (attachmentId : Option ℕ) (data : Bytes) (now : ℕ) : Except SessionError Runtime :=
  rt.attachInputAction attachmentId (fun _ => .ok data) now

/-- A size that a client asks for. It is noted for the attachment even where the terminal has it already. -/
def attachResize (attachmentId : Option ℕ) (rows cols now : ℕ) (took : Bool) : Runtime × Except SessionError Unit :=
  let resize (rt : Runtime) :=
    let (resized, ok) := (rt.markAttachActivity now).resizePty rows cols took
    (resized, if ok then .ok () else .error .evicted)
  match attachmentId with
  | some id =>
    match rt.checkControl id with
    | .error e => (rt, .error e)
    | .ok () => resize { rt with attachments := rt.attachments.setViewport id rows cols }
  | none => resize rt

end Runtime

/-- What a client may call. -/
inductive Request where
  | register (kind : AttachKind) (role : AttachRole) (viewport : Option (ℕ × ℕ))
  | detach (id : ℕ)
  | input (attachmentId : Option ℕ) (data : Bytes)
  | resize (attachmentId : Option ℕ) (rows cols : ℕ)
  deriving DecidableEq, Repr

/-- A call, and what it returns: of a registration the id. -/
def serve (rt : Runtime) (now : ℕ) (took : Bool) : Request → Runtime × Except SessionError (Option ℕ)
  | .register kind role viewport =>
    let (rt, id) := rt.registerAttachment kind role viewport now took
    (rt, .ok (some id))
  | .detach id => (rt.unregisterAttachment id, .ok none)
  | .input attachmentId data =>
    match rt.attachInput attachmentId data now with
    | .ok rt => (rt, .ok none)
    | .error e => (rt, .error e)
  | .resize attachmentId rows cols =>
    let (rt, result) := rt.attachResize attachmentId rows cols now took
    (rt, result.map fun _ => none)

/-- The attachment that a request carries; a registration carries its own. -/
def Request.attachment? (rt : Runtime) : Request → Option ℕ
  | .register _ _ _ => some (rt.attachments.nextId + 1)
  | .detach id => some id
  | .input attachmentId _ => attachmentId
  | .resize attachmentId _ _ => attachmentId

/-! ### Runs -/

/-- A session's runtime, the attachments that were handed out, and those that were
taken back. -/
structure Served where
  rt : Runtime
  granted : List (ℕ × AttachRole)
  detached : List ℕ

/-- What may happen next. -/
inductive Action where
  | request (req : Request) (now : ℕ) (took : Bool)
  /-- The writer takes the next message. -/
  | written
  | closeWriter
  /-- The child has written to the terminal. -/
  | output (n : ℕ)

namespace Served

/-- Before the first client. -/
def start (ptySize : Option (ℕ × ℕ)) : Served := ⟨.spawned ptySize, [], []⟩

/-- A step, with what was handed out and taken back. -/
def step (s : Served) : Action → Option Served
  | .request req now took =>
    let rt := (serve s.rt now took req).1
    match req with
    | .register _ role _ => some ⟨rt, s.granted ++ [(s.rt.attachments.nextId + 1, role)], s.detached⟩
    | .detach id => some ⟨rt, s.granted, if s.rt.attachments.contains id then s.detached ++ [id] else s.detached⟩
    | .input _ _ | .resize _ _ _ => some ⟨rt, s.granted, s.detached⟩
  | .written => some { s with rt := { s.rt with writerQueue := s.rt.writerQueue.drop 1 } }
  | .closeWriter => some { s with rt := { s.rt with writerClosed := true } }
  | .output n => some { s with rt := { s.rt with filteredTotalBytes := s.rt.filteredTotalBytes + n } }

/-- The attachment was handed out as a controller's, and is not detached. -/
def controls (s : Served) (id : ℕ) : Prop := (id, AttachRole.controller) ∈ s.granted ∧ id ∉ s.detached

/-- It was handed out, and is not detached. -/
def attached (s : Served) (id : ℕ) : Prop := id ∈ s.granted.map Prod.fst ∧ id ∉ s.detached

end Served

/-- The call reaches the terminal. -/
def Drives (rt rt' : Runtime) : Prop := rt'.ptyCalls ≠ rt.ptyCalls

/-! ### Who is registered -/

/-- The ids that are registered, with their roles. -/
def roster (r : AttachmentRegistry) : List (ℕ × AttachRole) := r.attachments.map fun a => (a.id, a.role)

section Roster

variable {r : AttachmentRegistry} {id : ℕ}

theorem ids_eq_roster (r : AttachmentRegistry) : r.ids = (roster r).map Prod.fst := by
  simp [AttachmentRegistry.ids, roster, Function.comp_def]

theorem contains_iff : r.contains id = true ↔ id ∈ (roster r).map Prod.fst := by
  rw [← ids_eq_roster]
  exact List.contains_iff_mem

/-- With no id twice, an id can control if it is registered as a controller's. -/
theorem canControl_iff (hnodup : ((roster r).map Prod.fst).Nodup) :
    r.canControl id = true ↔ (id, AttachRole.controller) ∈ roster r := by
  rw [AttachmentRegistry.canControl, AttachmentRegistry.find?]
  constructor
  · intro h
    obtain ⟨a, ha, hrole⟩ := (Option.any_eq_true _ _).mp h
    have hid : a.id = id := by simpa using List.find?_some ha
    refine List.mem_map.mpr ⟨a, List.mem_of_find?_eq_some ha, ?_⟩
    rw [hid, of_decide_eq_true hrole]
  · intro h
    obtain ⟨a, ha, heq⟩ := List.mem_map.mp h
    obtain ⟨hid, hrole⟩ := Prod.mk.inj heq
    obtain ⟨b, hb⟩ : ∃ b, r.attachments.find? (·.id = id) = some b := by
      refine Option.isSome_iff_exists.mp (List.find?_isSome.mpr ⟨a, ha, ?_⟩)
      exact decide_eq_true hid
    -- the one that is found has the same id, so it is the same
    have hbid : b.id = id := by simpa using List.find?_some hb
    have hsame : b = a := by
      rw [roster, List.map_map] at hnodup
      exact List.inj_on_of_nodup_map hnodup (List.mem_of_find?_eq_some hb) ha (hbid.trans hid.symm)
    rw [hb, hsame]
    exact decide_eq_true hrole

theorem roster_register (kind : AttachKind) (role : AttachRole) (viewport : Option (ℕ × ℕ)) :
    roster (r.register kind role viewport).1 = (r.nextId + 1, role) :: roster r := rfl

theorem roster_unregister : roster (r.unregister id) = (roster r).filter fun p => p.1 ≠ id := by
  simp [roster, AttachmentRegistry.unregister, List.filter_map, Function.comp_def]

theorem roster_setViewport (rows cols : ℕ) : roster (r.setViewport id rows cols) = roster r := by
  rw [roster, AttachmentRegistry.setViewport, List.map_map, roster]
  refine List.map_congr_left fun a _ => ?_
  by_cases ha : a.id = id
  · simp [ha]
  · simp [ha]

end Roster

/-! ### One call -/

section Serve

variable {rt : Runtime} {now : ℕ} {took : Bool} {id : ℕ}

theorem resizePty_attachments (rt : Runtime) (rows cols : ℕ) (took : Bool) :
    (rt.resizePty rows cols took).1.attachments = rt.attachments := by
  unfold Runtime.resizePty
  split_ifs
  · rfl
  · rfl
  · rfl
  · rfl

theorem checkControl_eq (hcontrol : rt.attachments.canControl id = false) :
    rt.checkControl id =
      .error (if rt.attachments.contains id = true then .viewOnly else .staleAttachment) := by
  unfold Runtime.checkControl
  by_cases hcontains : rt.attachments.contains id = true
  · rw [if_neg (by rw [hcontains]; exact Bool.noConfusion), hcontrol, if_pos hcontains]
    rfl
  · rw [if_pos (by simpa using hcontains), if_neg hcontains]

/-- **A refused call changes nothing.** -/
theorem serve_refused (hcontrol : rt.attachments.canControl id = false) :
    (∀ data, serve rt now took (.input (some id) data) =
      (rt, .error (if rt.attachments.contains id = true then .viewOnly else .staleAttachment))) ∧
    ∀ rows cols, serve rt now took (.resize (some id) rows cols) =
      (rt, .error (if rt.attachments.contains id = true then .viewOnly else .staleAttachment)) := by
  constructor
  · intro data
    have hinput : rt.attachInput (some id) data now =
        .error (if rt.attachments.contains id = true then .viewOnly else .staleAttachment) := by
      rw [Runtime.attachInput, Runtime.attachInputAction]
      simp only [checkControl_eq hcontrol]
      rfl
    rw [serve, hinput]
  · intro rows cols
    have hresize : rt.attachResize (some id) rows cols now took =
        (rt, .error (if rt.attachments.contains id = true then .viewOnly else .staleAttachment)) := by
      rw [Runtime.attachResize]
      simp only [checkControl_eq hcontrol]
    rw [serve, hresize]
    rfl

theorem attachInput_attachments {attachmentId : Option ℕ} {data : Bytes} {rt' : Runtime}
    (h : rt.attachInput attachmentId data now = .ok rt') : rt'.attachments = rt.attachments := by
  have hsend : ∀ rt', (do
      let queued ← rt.tryWriteInput data
      pure { queued.markAttachActivity now with lastInputAt := some now } : Except SessionError Runtime) = .ok rt' →
      rt'.attachments = rt.attachments := by
    intro rt' h
    unfold Runtime.tryWriteInput at h
    split_ifs at h
    · cases h
    · cases h
    · cases h
      rfl
  unfold Runtime.attachInput Runtime.attachInputAction at h
  rcases attachmentId with _ | id
  · exact hsend rt' h
  · simp only at h
    rcases hcheck : rt.checkControl id with e | _
    · rw [hcheck] at h
      cases h
    · rw [hcheck] at h
      exact hsend rt' h

theorem attachResize_roster (attachmentId : Option ℕ) (rows cols : ℕ) :
    (rt.attachResize attachmentId rows cols now took).1.attachments.nextId = rt.attachments.nextId ∧
      roster (rt.attachResize attachmentId rows cols now took).1.attachments = roster rt.attachments := by
  unfold Runtime.attachResize
  rcases attachmentId with _ | id
  · simp only [resizePty_attachments]
    exact ⟨rfl, rfl⟩
  · simp only
    rcases rt.checkControl id with e | _
    · exact ⟨rfl, rfl⟩
    · simp only [resizePty_attachments]
      exact ⟨rfl, roster_setViewport rows cols⟩

theorem registerAttachment_attachments (kind : AttachKind) (role : AttachRole) (viewport : Option (ℕ × ℕ)) :
    (rt.registerAttachment kind role viewport now took).1.attachments = (rt.attachments.register kind role viewport).1 := by
  unfold Runtime.registerAttachment
  simp only
  split
  · split_ifs
    · rw [resizePty_attachments]
    · rfl
  · rfl

/-- Only a controller's registration sizes the terminal. -/
theorem registerAttachment_observer (kind : AttachKind) (viewport : Option (ℕ × ℕ)) :
    (rt.registerAttachment kind .observer viewport now took).1.ptyCalls = rt.ptyCalls := rfl

/-- **What reaches the terminal.** A call that carries an attachment comes from one
that can control, or is the registration of a controller. -/
theorem serve_drives {req : Request} (hid : req.attachment? rt = some id) (h : Drives rt (serve rt now took req).1) :
    (∃ kind viewport, req = .register kind .controller viewport) ∨ rt.attachments.canControl id = true := by
  by_cases hcontrol : rt.attachments.canControl id = true
  · exact .inr hcontrol
  have hcontrol' : rt.attachments.canControl id = false := by simpa using hcontrol
  obtain ⟨hinput, hresize⟩ := @serve_refused rt now took id hcontrol'
  cases req with
  | register kind role viewport =>
    cases role with
    | controller => exact .inl ⟨kind, viewport, rfl⟩
    | observer => exact absurd (@registerAttachment_observer rt now took kind viewport) h
  | detach id => exact absurd rfl h
  | input attachmentId data =>
    have hsome : attachmentId = some id := hid
    rw [hsome, hinput] at h
    exact absurd rfl h
  | resize attachmentId rows cols =>
    have hsome : attachmentId = some id := hid
    rw [hsome, hresize] at h
    exact absurd rfl h

end Serve

/-! ### Every run -/

/-- The ids are handed out in order; those that are registered are the ones that were
handed out, with their roles, and not detached. -/
structure ServedInv (s : Served) : Prop where
  numbered : s.granted.map Prod.fst = List.range' 1 s.rt.attachments.nextId
  known : ∀ id ∈ s.detached, id ≤ s.rt.attachments.nextId
  roster : roster s.rt.attachments = s.granted.reverse.filter fun p => p.1 ∉ s.detached

section Run

variable {s t : Served} {id : ℕ}

theorem servedInv_start (ptySize : Option (ℕ × ℕ)) : ServedInv (.start ptySize) := ⟨rfl, nofun, rfl⟩

theorem ServedInv.once (h : ServedInv s) : (s.granted.map Prod.fst).Nodup := by
  rw [h.numbered]
  exact List.nodup_range'

theorem ServedInv.roster_nodup (h : ServedInv s) : ((Control.roster s.rt.attachments).map Prod.fst).Nodup := by
  rw [h.roster]
  refine List.Nodup.sublist ((List.filter_sublist).map Prod.fst) ?_
  rw [List.map_reverse, List.nodup_reverse]
  exact h.once

/-- Who can control is an attached controller. -/
theorem ServedInv.canControl_iff (h : ServedInv s) : s.rt.attachments.canControl id = true ↔ s.controls id := by
  rw [Control.canControl_iff h.roster_nodup, h.roster, List.mem_filter, List.mem_reverse, decide_eq_true_eq]
  rfl

theorem ServedInv.contains_iff (h : ServedInv s) : s.rt.attachments.contains id = true ↔ s.attached id := by
  rw [Control.contains_iff, h.roster]
  constructor
  · intro hmem
    obtain ⟨p, hp, rfl⟩ := List.mem_map.mp hmem
    obtain ⟨hgranted, hnot⟩ := List.mem_filter.mp hp
    exact ⟨List.mem_map.mpr ⟨p, List.mem_reverse.mp hgranted, rfl⟩, of_decide_eq_true hnot⟩
  · rintro ⟨hmem, hnot⟩
    obtain ⟨p, hp, rfl⟩ := List.mem_map.mp hmem
    exact List.mem_map.mpr ⟨p, List.mem_filter.mpr ⟨List.mem_reverse.mpr hp, decide_eq_true hnot⟩, rfl⟩

/-- An id that was handed out is a number up to the last one. -/
theorem ServedInv.le_of_granted (h : ServedInv s) {p : ℕ × AttachRole} (hp : p ∈ s.granted) :
    p.1 ≤ s.rt.attachments.nextId := by
  have hmem : p.1 ∈ List.range' 1 s.rt.attachments.nextId := by
    rw [← h.numbered]
    exact List.mem_map.mpr ⟨p, hp, rfl⟩
  have := List.mem_range'_1.mp hmem
  omega

/-- **A step of the session.** -/
theorem servedInv_step {a : Action} (h : ServedInv s) (hstep : s.step a = some t) : ServedInv t := by
  have hsame : ∀ {rt : Runtime}, rt.attachments.nextId = s.rt.attachments.nextId →
      Control.roster rt.attachments = Control.roster s.rt.attachments → ServedInv ⟨rt, s.granted, s.detached⟩ := by
    intro rt hnext hroster
    exact ⟨by rw [hnext]; exact h.numbered, by rw [hnext]; exact h.known, hroster.trans h.roster⟩
  cases a with
  | request req now took =>
    cases req with
    | register kind role viewport =>
      cases hstep
      have hreg : (serve s.rt now took (.register kind role viewport)).1.attachments =
          (s.rt.attachments.register kind role viewport).1 := registerAttachment_attachments kind role viewport
      refine ⟨?_, fun id hid => ?_, ?_⟩
      · show (s.granted ++ [(s.rt.attachments.nextId + 1, role)]).map Prod.fst = _
        rw [hreg, List.map_append, h.numbered]
        show _ ++ [s.rt.attachments.nextId + 1] = List.range' 1 (s.rt.attachments.nextId + 1)
        rw [List.range'_1_concat, Nat.add_comm 1]
      · rw [hreg]
        exact (h.known id hid).trans (Nat.le_succ _)
      · have hnew : s.rt.attachments.nextId + 1 ∉ s.detached := fun hmem => by
          have := h.known _ hmem
          omega
        rw [hreg, roster_register, h.roster, List.reverse_append, List.reverse_singleton, List.singleton_append,
          List.filter_cons_of_pos (by simpa using hnew)]
    | detach id =>
      cases hstep
      have hroster : Control.roster (serve s.rt now took (.detach id)).1.attachments =
          (Control.roster s.rt.attachments).filter fun p => p.1 ≠ id := roster_unregister
      by_cases hcontains : s.rt.attachments.contains id = true
      · refine ⟨h.numbered, fun id' hid' => ?_, ?_⟩
        · rw [if_pos hcontains] at hid'
          rcases List.mem_append.mp hid' with hold | hnew
          · exact h.known id' hold
          · rw [List.mem_singleton.mp hnew]
            obtain ⟨hgranted, -⟩ := h.contains_iff.mp hcontains
            obtain ⟨p, hp, rfl⟩ := List.mem_map.mp hgranted
            exact h.le_of_granted hp
        · rw [hroster, h.roster, if_pos hcontains, List.filter_filter]
          refine List.filter_congr fun p _ => ?_
          by_cases hp : p.1 = id
          · simp [hp]
          · simp [hp]
      · -- nothing to remove
        refine ⟨h.numbered, by rw [if_neg hcontains]; exact h.known, ?_⟩
        rw [hroster, if_neg hcontains, ← h.roster]
        refine List.filter_eq_self.mpr fun p hp => decide_eq_true fun heq => hcontains ?_
        exact Control.contains_iff.mpr (List.mem_map.mpr ⟨p, hp, heq⟩)
    | input attachmentId data =>
      cases hstep
      refine hsame ?_ ?_ <;>
      · simp only [serve]
        rcases hinput : s.rt.attachInput attachmentId data now with e | rt
        · rfl
        · simp only
          rw [attachInput_attachments hinput]
    | resize attachmentId rows cols =>
      cases hstep
      obtain ⟨hnext, hroster⟩ := @attachResize_roster s.rt now took attachmentId rows cols
      exact hsame hnext hroster
  | written | closeWriter | output n =>
    cases hstep
    exact ⟨h.numbered, h.known, h.roster⟩

/-- What was handed out and what was taken back stays so. -/
theorem step_keeps {a : Action} (hstep : s.step a = some t) : s.granted <+: t.granted ∧ s.detached <+: t.detached := by
  cases a with
  | request req now took =>
    cases req with
    | register kind role viewport =>
      cases hstep
      exact ⟨List.prefix_append _ _, List.prefix_refl _⟩
    | detach id =>
      cases hstep
      refine ⟨List.prefix_refl _, ?_⟩
      by_cases hcontains : s.rt.attachments.contains id = true
      · rw [if_pos hcontains]
        exact List.prefix_append _ _
      · rw [if_neg hcontains]
    | input _ _ | resize _ _ _ =>
      cases hstep
      exact ⟨List.prefix_refl _, List.prefix_refl _⟩
  | written | closeWriter | output n =>
    cases hstep
    exact ⟨List.prefix_refl _, List.prefix_refl _⟩

end Run

/-- What holds of the calls on a session as it stands. -/
structure Fenced (s : Served) : Prop where
  /-- No id is handed out twice. -/
  once : (s.granted.map Prod.fst).Nodup
  /-- What reaches the terminal through an attachment comes from an attached
  controller; a registration is one from then on. -/
  drives : ∀ req now took id t, s.step (.request req now took) = some t → req.attachment? s.rt = some id →
    Drives s.rt t.rt → t.controls id ∧ (s.controls id ∨ ∃ kind viewport, req = .register kind .controller viewport)
  /-- A call with any other id is refused, and changes nothing. -/
  refused : ∀ id, ¬ s.controls id → ∃ e, (s.attached id → e = .viewOnly) ∧ (¬ s.attached id → e = .staleAttachment) ∧
    ∀ now took, (∀ data, serve s.rt now took (.input (some id) data) = (s.rt, .error e)) ∧
      ∀ rows cols, serve s.rt now took (.resize (some id) rows cols) = (s.rt, .error e)

theorem ServedInv.fenced {s : Served} (h : ServedInv s) : Fenced s := by
  refine ⟨h.once, fun req now took id t hstep hid hdrives => ?_, fun id hnot => ?_⟩
  · have ht := servedInv_step h hstep
    have hrt : t.rt = (serve s.rt now took req).1 := by
      cases req <;> cases hstep <;> rfl
    rw [hrt] at hdrives
    rcases serve_drives hid hdrives with ⟨kind, viewport, rfl⟩ | hcontrol
    · cases hstep
      cases hid
      refine ⟨⟨List.mem_append_right _ (List.mem_singleton_self _), fun hmem => ?_⟩, .inr ⟨kind, viewport, rfl⟩⟩
      have := h.known _ hmem
      omega
    · have hs := h.canControl_iff.mp hcontrol
      refine ⟨?_, .inl hs⟩
      cases req with
      | register kind role viewport =>
        -- a new id controls nothing yet
        cases hid
        have := h.le_of_granted hs.1
        simp only at this
        omega
      | detach id' => exact absurd rfl hdrives
      | input _ _ | resize _ _ _ =>
        cases hstep
        exact hs
  · have hcontrol : s.rt.attachments.canControl id = false := by
      simpa using fun hc => hnot (h.canControl_iff.mp hc)
    refine ⟨_, fun hatt => ?_, fun hatt => ?_, fun now took => serve_refused hcontrol⟩
    · rw [if_pos (h.contains_iff.mpr hatt)]
    · rw [if_neg fun hc => hatt (h.contains_iff.mp hc)]

/-- **Observers never drive.** After any calls of any clients: no id was handed out
twice; what reaches the terminal through an attachment comes from a controller that
is attached; a call with any other id is refused and changes nothing; and an id that
was detached controls nothing in any state that follows. Ids are natural numbers here,
so this is about fewer than 2 ^ 64 registrations (`AttachmentRegistry`). -/
theorem control_fenced {ptySize : Option (ℕ × ℕ)} {as : List Action} {s : Served}
    (hrun : Runs.run Served.step (.start ptySize) as = some s) :
    Fenced s ∧ ∀ id ∈ s.detached, ∀ bs t, Runs.run Served.step s bs = some t → ¬ t.controls id ∧ ¬ t.attached id := by
  have hinv : ServedInv s := Runs.run_invariant (fun h hstep => servedInv_step h hstep) hrun (servedInv_start ptySize)
  refine ⟨hinv.fenced, fun id hid bs t ht => ?_⟩
  have hkeeps : s.detached <+: t.detached :=
    Runs.run_invariant (I := fun u : Served => s.detached <+: u.detached)
      (fun h hstep => h.trans (step_keeps hstep).2) ht (List.prefix_refl _)
  have hmem := hkeeps.subset hid
  exact ⟨fun h => h.2 hmem, fun h => h.2 hmem⟩

/-- A controller and an observer; the controller drives, detaches and tries again, and
so does the observer. -/
def observedRun : List Action :=
  [.request (.register .cli .controller (some (24, 80))) 1 true, .request (.register .web .observer (some (9, 9))) 2 true,
    .request (.input (some 1) [65]) 3 true, .request (.input (some 2) [66]) 4 true, .request (.detach 1) 5 true,
    .request (.resize (some 1) 30 90) 6 true, .request (.register .cli .controller none) 7 true]

theorem control_fenced_observed : ∃ s, Runs.run Served.step (.start none) observedRun = some s ∧
    s.granted = [(1, .controller), (2, .observer), (3, .controller)] ∧ s.detached = [1] ∧
    s.rt.ptyCalls = [.resize 24 80, .input [65]] ∧ Fenced s := by
  have hrun : (Runs.run Served.step (.start none) observedRun).any (fun s =>
      decide (s.granted = [(1, .controller), (2, .observer), (3, .controller)] ∧ s.detached = [1] ∧
        s.rt.ptyCalls = [.resize 24 80, .input [65]])) = true := by
    decide +kernel
  obtain ⟨s, hs, hp⟩ := (Option.any_eq_true _ _).mp hrun
  obtain ⟨hgranted, hdetached, hcalls⟩ := of_decide_eq_true hp
  exact ⟨s, hs, hgranted, hdetached, hcalls, (control_fenced hs).1⟩

end Control
end Session
end OpenRelay
