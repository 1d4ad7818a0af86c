/-
# Uploads side by side

Uploads to one session may run at once, each of them a sequence of calls to the file
system (`session/file.rs`). A deduplicated one looks for a name that is free, one
existence test after another, makes the directories above it, and then creates and
writes the file.

Nothing reserves a name between the test that finds it free and the creation of the
file. So two uploads may find the same name free; then one writes over the other, and both
return the name (`uploads_overwrite`). Where no upload settles on a name that another one
has settled on and not created yet, every upload has a file of its own, and what was there
before stays (`uploads_apart`).

Key theorems: `advance_effect`, `uploadsInv_step`.
-/
import OpenRelay.Basic
import OpenRelay.Lib.Runs
import OpenRelay.Session.Upload
import Mathlib.Logic.Function.Basic

namespace OpenRelay
namespace Session
namespace Uploads

open UnixPath

/-! ### The code -/

/-- What a path names. -/
inductive Node
  | dir
  | file (bytes : Bytes)
  deriving DecidableEq, Repr

/-- What stands at each path. -/
abbrev Files := List Component → Option Node

/-- Whether a path names anything; one with a zero byte doesn't. -/
def pathExists (fs : Files) (p : Path) : Bool := !p.contains nul && (fs (components p)).isSome

/-- What a call goes on with once its directories are there. -/
inductive Next
  | resolve (relativePath : Path)
  | search (targetParent relativePath : Path)
  | create (target : Path)
  deriving DecidableEq, Repr

/-- Where a call is. An error without a text is the operating system's. -/
inductive Phase
  | called
  | making (todo : List (List Component)) (next : Next)
  | searching (filesDir : Path) (stem : List Char) (ext : Option (List Char)) (name : List Char) (suffix : ℕ)
  /-- The file is open at the length of what is written. -/
  | writing (target : Path) (written rest : Bytes)
  | returned (target : Path)
  | failed (error : Option String)
  deriving DecidableEq, Repr

/-- An upload under way. -/
structure Call where
  relativePath : List Char
  bytes : Bytes
  phase : Phase
  deriving DecidableEq, Repr

/-- The directories of a path, the topmost first. -/
def directories (p : Path) : List (List Component) :=
  (components p).inits.filter fun q => q.getLast?.any Component.isNormal

/-- `fs::create_dir_all`, one directory a step. -/
def createDirAll (p : Path) (next : Next) : Phase :=
  if nul ∈ p then .failed (some nulError) else .making (directories p) next

/-- A free name is found. -/
def settle (target : Path) : Phase :=
  match parent target with
  | none => .failed (some invalidUploadPath)
  | some dir => createDirAll dir (.create target)

/-- The search begins with the name itself. -/
def search (filesDir fileName : Path) : Phase :=
  let stem := ((fileStem fileName).filter (· ≠ [])).getD "clipboard".toList
  let ext := extension fileName
  .searching filesDir stem ext (candidateName stem ext none) 1

/-- Bytes written into a file at an offset. -/
def writeAt (content : Bytes) (offset : ℕ) (bytes : Bytes) : Bytes :=
  (content ++ List.replicate (offset - content.length) 0).take offset ++ bytes ++ content.drop (offset + bytes.length)

/-- What an upload does next. -/
inductive Move
  /-- To the next call of the file system. -/
  | go
  | mkdir (ok : Bool)
  /-- One existence test of the search. -/
  | test
  /-- The file is created, or what it holds dropped. -/
  | create (ok : Bool)
  | write (n : ℕ)
  | abort
  deriving DecidableEq, Repr

/-- One step of `write_session_upload` with `dedupe`, under the files directory of a session. -/
def Call.advance (filesDir : Path) (fs : Files) (call : Call) : Move → Option (Files × Phase)
  | .go =>
    match call.phase with
    | .called =>
      match normalizeRelativePath (trim call.relativePath) with
      | none => some (fs, .failed (some invalidUploadPath))
      | some rel => some (fs, createDirAll filesDir (.resolve rel))
    | .making [] (.resolve rel) =>
      let targetParent := join filesDir ((parent rel).getD [])
      some (fs, createDirAll targetParent (.search targetParent rel))
    | .making [] (.search targetParent rel) =>
      match fileName rel with
      | none => some (fs, .failed (some ("upload path has no file name: " ++ String.ofList rel)))
      | some name => some (fs, search targetParent name)
    | .writing target _ [] => some (fs, .returned target)
    | _ => none
  | .mkdir ok =>
    match call.phase with
    | .making (q :: todo) next =>
      match fs q with
      | some .dir => some (fs, .making todo next)
      | some (.file _) => some (fs, .failed none)
      | none => if ok then some (Function.update fs q (some .dir), .making todo next) else some (fs, .failed none)
    | _ => none
  | .test =>
    match call.phase with
    | .searching filesDir stem ext name suffix =>
      if pathExists fs (join filesDir name) then
        some (fs, .searching filesDir stem ext (candidateName stem ext (some suffix)) (suffix + 1))
      else some (fs, settle (join filesDir name))
    | _ => none
  | .create ok =>
    match call.phase with
    | .making [] (.create target) =>
      if nul ∈ target then some (fs, .failed (some nulError))
      else if ok = false ∨ fs (components target) = some .dir then some (fs, .failed none)
      else some (Function.update fs (components target) (some (.file [])), .writing target [] call.bytes)
    | _ => none
  | .write n =>
    match call.phase with
    | .writing target written rest =>
      match fs (components target) with
      | some (.file content) =>
        if 0 < n ∧ n ≤ rest.length then
          some (Function.update fs (components target) (some (.file (writeAt content written.length (rest.take n)))),
            .writing target (written ++ rest.take n) (rest.drop n))
        else none
      | _ => none
    | _ => none
  | .abort =>
    match call.phase with
    | .writing _ _ _ => some (fs, .failed none)
    | _ => none

/-- The files, and the uploads under way. -/
structure World where
  fs : Files
  calls : List Call

/-- The calls that will be made, each with its path and bytes. -/
def World.start (fs : Files) (requests : List (List Char × Bytes)) : World :=
  ⟨fs, requests.map fun r => ⟨r.1, r.2, .called⟩⟩

/-- A call takes a step. -/
def World.step (filesDir : Path) (w : World) (a : ℕ × Move) : Option World :=
  match w.calls[a.1]? with
  | none => none
  | some call =>
    (call.advance filesDir w.fs a.2).map fun next =>
      ⟨next.1, w.calls.set a.1 { call with phase := next.2 }⟩

/-- What the next existence test is about. -/
def Phase.candidate : Phase → Option Path
  | .searching filesDir _ _ name _ => some (join filesDir name)
  | _ => none

/-- The name that is settled on, before the file is created. -/
def Phase.pending : Phase → Option Path
  | .making _ (.create target) => some target
  | _ => none

/-- The name that a step finds free. -/
def World.settles (w : World) (a : ℕ × Move) : Option Path :=
  if a.2 = .test then
    ((w.calls[a.1]?).bind fun call => call.phase.candidate).filter fun p => nul ∉ p ∧ pathExists w.fs p = false
  else none

/-- No call settles on a name while another one has settled on it and not created it yet. -/
def Spaced (w : World) (a : ℕ × Move) : Prop :=
  ∀ candidate ∈ w.settles a, ∀ j < w.calls.length, j ≠ a.1 →
    ((w.calls[j]?).bind fun other => other.phase.pending.map components) ≠ some (components candidate)

instance (w : World) (a : ℕ × Move) : Decidable (Spaced w a) := by
  unfold Spaced
  infer_instance

/-- Every call that has returned has a file of its own, which was not there before, with its bytes;
and the files that were there before are as they were. -/
structure Apart (fs₀ : Files) (w : World) : Prop where
  fresh : ∀ call ∈ w.calls, ∀ target, call.phase = .returned target → fs₀ (components target) = none
  distinct : ∀ (i j : ℕ) (call other : Call) (target target' : Path), w.calls[i]? = some call → w.calls[j]? = some other → i ≠ j →
    call.phase = .returned target → other.phase = .returned target' → components target ≠ components target'
  content : ∀ call ∈ w.calls, ∀ target, call.phase = .returned target → w.fs (components target) = some (.file call.bytes)
  kept : ∀ q bytes, fs₀ q = some (.file bytes) → w.fs q = some (.file bytes)

/-! ### What a step can do -/

/-- The name a call has: that it has settled on, writes or has returned. -/
def Phase.target : Phase → Option Path
  | .making _ (.create target) | .writing target _ _ | .returned target => some target
  | _ => none

/-- The place of a name the operating system takes. -/
def Phase.claim (phase : Phase) : Option (List Component) :=
  (phase.target.filter fun p => nul ∉ p).map components

/-- Every step of a call is one of these. -/
inductive Effect (fs : Files) (call : Call) (m : Move) : Files → Phase → Prop
  /-- The call has no name, before or after, or has lost it. -/
  | unnamed {phase : Phase} (hphase : phase.target = none) : Effect fs call m fs phase
  /-- A directory is there. -/
  | found {q : List Component} {todo : List (List Component)} {next : Next}
    (hphase : call.phase = .making (q :: todo) next) : Effect fs call m fs (.making todo next)
  | made {q : List Component} {todo : List (List Component)} {next : Next}
    (hphase : call.phase = .making (q :: todo) next) (hfree : fs q = none) :
    Effect fs call m (Function.update fs q (some .dir)) (.making todo next)
  | settled {target : Path} {todo : List (List Component)} (hm : m = .test) (hphase : call.phase.candidate = some target)
    (hfree : pathExists fs target = false) : Effect fs call m fs (.making todo (.create target))
  | created {target : Path} (hphase : call.phase = .making [] (.create target)) (hnul : nul ∉ target)
    (hdir : fs (components target) ≠ some .dir) :
    Effect fs call m (Function.update fs (components target) (some (.file []))) (.writing target [] call.bytes)
  | wrote {target : Path} {written rest content : Bytes} {n : ℕ} (hphase : call.phase = .writing target written rest)
    (hfile : fs (components target) = some (.file content)) :
    Effect fs call m
      (Function.update fs (components target) (some (.file (writeAt content written.length (rest.take n)))))
      (.writing target (written ++ rest.take n) (rest.drop n))
  | returned {target : Path} {written : Bytes} (hphase : call.phase = .writing target written []) :
    Effect fs call m fs (.returned target)

theorem target_createDirAll {p : Path} {next : Next} (h : ∀ target, next ≠ .create target) :
    (createDirAll p next).target = none := by
  unfold createDirAll
  split_ifs
  · rfl
  · cases next with
    | resolve => rfl
    | search => rfl
    | create target => exact absurd rfl (h target)

theorem settle_cases (target : Path) :
    (settle target).target = none ∨ ∃ todo, settle target = .making todo (.create target) := by
  unfold settle
  split
  · exact .inl rfl
  · unfold createDirAll
    split_ifs
    · exact .inl rfl
    · exact .inr ⟨_, rfl⟩

/-- **Every step of a call has one of the effects.** -/
theorem advance_effect {filesDir : Path} {fs fs' : Files} {call : Call} {m : Move} {phase : Phase}
    (h : call.advance filesDir fs m = some (fs', phase)) : Effect fs call m fs' phase := by
  cases m with
  | go =>
    unfold Call.advance at h
    dsimp only at h
    split at h
    · split at h <;> cases h
      · exact .unnamed rfl
      · exact .unnamed (target_createDirAll nofun)
    · cases h
      exact .unnamed (target_createDirAll nofun)
    · split at h <;> cases h <;> exact .unnamed rfl
    · rename_i target written hphase
      cases h
      exact .returned hphase
    · cases h
  | mkdir ok =>
    unfold Call.advance at h
    dsimp only at h
    split at h
    · rename_i q todo next hphase
      split at h
      · cases h
        exact .found hphase
      · cases h
        exact .unnamed rfl
      · rename_i hfree
        split_ifs at h <;> cases h
        · exact .made hphase hfree
        · exact .unnamed rfl
    · cases h
  | test =>
    unfold Call.advance at h
    dsimp only at h
    split at h
    · rename_i dir stem ext name suffix hphase
      split_ifs at h with hexists <;> cases h
      · exact .unnamed rfl
      · rcases settle_cases (join dir name) with hnone | ⟨todo, hmaking⟩
        · exact .unnamed hnone
        · rw [hmaking]
          refine .settled rfl ?_ (eq_false_of_ne_true hexists)
          rw [hphase]
          rfl
    · cases h
  | create ok =>
    unfold Call.advance at h
    dsimp only at h
    split at h
    · rename_i target hphase
      split_ifs at h with hnul hfails <;> cases h
      · exact .unnamed rfl
      · exact .unnamed rfl
      · exact .created hphase hnul fun hdir => hfails (.inr hdir)
    · cases h
  | write n =>
    unfold Call.advance at h
    dsimp only at h
    split at h
    · rename_i target written rest hphase
      split at h
      · rename_i content hfile
        split_ifs at h
        cases h
        exact .wrote hphase hfile
      · cases h
    · cases h
  | abort =>
    unfold Call.advance at h
    dsimp only at h
    split at h
    · cases h
      exact .unnamed rfl
    · cases h

/-! ### The invariant -/

/-- What a call has of the files, by where it is. -/
def Call.Good (fs₀ fs : Files) (call : Call) : Prop :=
  match call.phase with
  | .making _ (.create target) =>
    nul ∉ target → fs₀ (components target) = none ∧ ∀ bytes, fs (components target) ≠ some (.file bytes)
  | .writing target written rest =>
    nul ∉ target ∧ fs₀ (components target) = none ∧ fs (components target) = some (.file written) ∧
      written ++ rest = call.bytes
  | .returned target =>
    nul ∉ target ∧ fs₀ (components target) = none ∧ fs (components target) = some (.file call.bytes)
  | _ => True

/-- No two calls have one name. -/
structure UploadsInv (fs₀ : Files) (w : World) : Prop where
  good : ∀ {i : ℕ} {call : Call}, w.calls[i]? = some call → call.Good fs₀ w.fs
  apart : ∀ {i j : ℕ} {call other : Call} {q : List Component}, w.calls[i]? = some call → w.calls[j]? = some other →
    call.phase.claim = some q → other.phase.claim = some q → i = j
  kept : ∀ {q : List Component} {node : Node}, fs₀ q = some node → w.fs q = some node

theorem claim_some {phase : Phase} {target : Path} (h : phase.target = some target) (hnul : nul ∉ target) :
    phase.claim = some (components target) := by
  rw [Phase.claim, h, Option.filter_some, if_pos (by simpa using hnul)]
  rfl

theorem claim_none {phase : Phase} (h : phase.target = none) : phase.claim = none := by
  rw [Phase.claim, h]
  rfl

theorem of_claim {phase : Phase} {q : List Component} (h : phase.claim = some q) :
    ∃ target, phase.target = some target ∧ nul ∉ target ∧ components target = q := by
  obtain ⟨target, hfilter, hq⟩ := Option.map_eq_some_iff.mp h
  obtain ⟨htarget, hnul⟩ := Option.filter_eq_some_iff.mp hfilter
  exact ⟨target, htarget, by simpa using hnul, hq⟩

theorem good_unnamed {fs₀ fs : Files} {call : Call} (h : call.phase.target = none) : call.Good fs₀ fs := by
  rcases call with ⟨path, bytes, phase⟩
  cases phase with
  | making todo next =>
    cases next with
    | create target => cases h
    | _ => trivial
  | writing | returned => cases h
  | _ => trivial

/-- What is written where a call has nothing does not concern it. -/
theorem Call.Good.update {fs₀ fs : Files} {call : Call} {q : List Component} (h : call.Good fs₀ fs) (node : Option Node)
    (hclaim : call.phase.claim ≠ some q) : call.Good fs₀ (Function.update fs q node) := by
  have hne : ∀ {target}, call.phase.target = some target → nul ∉ target → components target ≠ q :=
    fun htarget hnul heq => hclaim (heq ▸ claim_some htarget hnul)
  rcases call with ⟨path, bytes, phase⟩
  cases phase with
  | making todo next =>
    cases next with
    | create target =>
      intro hnul
      rw [Function.update_of_ne (hne rfl hnul)]
      exact h hnul
    | _ => trivial
  | writing target written rest =>
    obtain ⟨hnul, hfresh, hfile, hbytes⟩ := h
    refine ⟨hnul, hfresh, ?_, hbytes⟩
    rw [Function.update_of_ne (hne rfl hnul)]
    exact hfile
  | returned target =>
    obtain ⟨hnul, hfresh, hfile⟩ := h
    refine ⟨hnul, hfresh, ?_⟩
    rw [Function.update_of_ne (hne rfl hnul)]
    exact hfile
  | _ => trivial

/-- A directory is made where there is nothing. -/
theorem Call.Good.mkdir {fs₀ fs : Files} {call : Call} {q : List Component} (h : call.Good fs₀ fs) (hfree : fs q = none) :
    call.Good fs₀ (Function.update fs q (some .dir)) := by
  have hfile : ∀ {p bytes}, fs p = some (.file bytes) → Function.update fs q (some .dir) p = some (.file bytes) := by
    intro p bytes hp
    rw [Function.update_of_ne]
    · exact hp
    · rintro rfl
      rw [hfree] at hp
      cases hp
  rcases call with ⟨path, bytes, phase⟩
  cases phase with
  | making todo next =>
    cases next with
    | create target =>
      refine fun hnul => ⟨(h hnul).1, fun bytes hbytes => ?_⟩
      by_cases hq : components target = q
      · rw [hq, Function.update_self] at hbytes
        cases hbytes
      · rw [Function.update_of_ne hq] at hbytes
        exact (h hnul).2 bytes hbytes
    | _ => trivial
  | writing target written rest => exact ⟨h.1, h.2.1, hfile h.2.2.1, h.2.2.2⟩
  | returned target => exact ⟨h.1, h.2.1, hfile h.2.2⟩
  | _ => trivial

/-- What stands in a file that a call writes or has returned. -/
theorem Call.Good.file_of_claim {fs₀ fs : Files} {call : Call} {q : List Component} (h : call.Good fs₀ fs)
    (hclaim : call.phase.claim = some q) (hpending : call.phase.pending.map components ≠ some q) :
    ∃ bytes, fs q = some (.file bytes) := by
  obtain ⟨target, htarget, -, rfl⟩ := of_claim hclaim
  rcases call with ⟨path, bytes, phase⟩
  cases phase with
  | making todo next =>
    cases next with
    | create => cases htarget; exact absurd rfl hpending
    | _ => cases htarget
  | writing => cases htarget; exact ⟨_, h.2.2.1⟩
  | returned => cases htarget; exact ⟨_, h.2.2⟩
  | _ => cases htarget

theorem writeAt_end (content bytes : Bytes) : writeAt content content.length bytes = content ++ bytes := by
  unfold writeAt
  rw [Nat.sub_self, List.replicate_zero, List.append_nil, List.take_length,
    List.drop_eq_nil_of_le (Nat.le_add_right _ _), List.append_nil]

theorem getElem?_set_cases {calls : List Call} {i j : ℕ} {call other : Call} (h : (calls.set i call)[j]? = some other) :
    (j = i ∧ other = call) ∨ j ≠ i ∧ calls[j]? = some other := by
  by_cases hji : j = i
  · subst hji
    rw [List.getElem?_set_self'] at h
    obtain ⟨_, -, rfl⟩ := Option.map_eq_some_iff.mp h
    exact .inl ⟨rfl, rfl⟩
  · rw [List.getElem?_set_ne (Ne.symm hji)] at h
    exact .inr ⟨hji, h⟩

section Step

variable {fs₀ fs' : Files} {w : World} {i : ℕ} {call : Call} {phase : Phase}

/-- A step of one call, from what it does to that call and to the others. -/
theorem UploadsInv.advance (h : UploadsInv fs₀ w) (hgood : Call.Good fs₀ fs' { call with phase := phase })
    (hothers : ∀ {j : ℕ} {other : Call}, j ≠ i → w.calls[j]? = some other →
      other.Good fs₀ fs' ∧ ∀ q, phase.claim = some q → other.phase.claim ≠ some q)
    (hkept : ∀ {q : List Component} {node : Node}, fs₀ q = some node → fs' q = some node) :
    UploadsInv fs₀ ⟨fs', w.calls.set i { call with phase := phase }⟩ where
  good {j other} hother := by
    rcases getElem?_set_cases hother with ⟨rfl, rfl⟩ | ⟨hne, hj⟩
    · exact hgood
    · exact (hothers hne hj).1
  apart {j k other other' q} hother hother' hclaim hclaim' := by
    rcases getElem?_set_cases hother with ⟨rfl, rfl⟩ | ⟨hne, hj⟩ <;>
      rcases getElem?_set_cases hother' with ⟨rfl, rfl⟩ | ⟨hne', hk⟩
    · rfl
    · exact absurd hclaim' ((hothers hne' hk).2 q hclaim)
    · exact absurd hclaim ((hothers hne hj).2 q hclaim')
    · exact h.apart hj hk hclaim hclaim'
  kept := hkept

/-- A step that keeps the name. -/
theorem UploadsInv.others (h : UploadsInv fs₀ w) (hcall : w.calls[i]? = some call) (hclaim : phase.claim = call.phase.claim)
    {j : ℕ} {other : Call} (hne : j ≠ i) (hother : w.calls[j]? = some other) :
    ∀ q, phase.claim = some q → other.phase.claim ≠ some q :=
  fun _ hq hq' => hne (h.apart hother hcall hq' (hclaim ▸ hq))

/-- **One spaced step keeps the invariant.** -/
theorem uploadsInv_step {filesDir : Path} {a : ℕ × Move} {w' : World} (h : UploadsInv fs₀ w) (hspaced : Spaced w a)
    (hstep : w.step filesDir a = some w') : UploadsInv fs₀ w' := by
  unfold World.step at hstep
  rcases hcall : w.calls[a.1]? with _ | call
  · rw [hcall] at hstep
    cases hstep
  rw [hcall] at hstep
  obtain ⟨⟨fs', phase⟩, hadvance, rfl⟩ := Option.map_eq_some_iff.mp hstep
  have hgood := h.good hcall
  dsimp only
  cases advance_effect hadvance with
  | unnamed hphase =>
    refine h.advance (good_unnamed hphase) (fun _ hother => ⟨h.good hother, fun q hq => ?_⟩) h.kept
    rw [claim_none hphase] at hq
    cases hq
  | @found q todo next hphase =>
    have hclaim : (Phase.making todo next).claim = call.phase.claim := by
      rw [hphase]
      cases next <;> rfl
    refine h.advance ?_ (fun hne hother => ⟨h.good hother, h.others hcall hclaim hne hother⟩) h.kept
    unfold Call.Good at hgood ⊢
    rw [hphase] at hgood
    cases next <;> exact hgood
  | @made q todo next hphase hfree =>
    have hclaim : (Phase.making todo next).claim = call.phase.claim := by
      rw [hphase]
      cases next <;> rfl
    refine h.advance ?_ (fun hne hother => ⟨(h.good hother).mkdir hfree, h.others hcall hclaim hne hother⟩) ?_
    · have hmade := hgood.mkdir hfree
      unfold Call.Good at hmade ⊢
      rw [hphase] at hmade
      cases next <;> exact hmade
    · intro p node hp
      rw [Function.update_of_ne]
      · exact h.kept hp
      · rintro rfl
        have hthere := h.kept hp
        rw [hfree] at hthere
        cases hthere
  | @settled target todo hm hphase hfree =>
    have hnone : nul ∉ target → w.fs (components target) = none := fun hnul => by
      simp only [pathExists, Bool.and_eq_false_iff, Bool.not_eq_false', List.contains_iff_mem, hnul, false_or,
        Option.isSome_eq_false_iff, Option.isNone_iff_eq_none] at hfree
      exact hfree
    refine h.advance ?_ (fun {j other} hne hother => ⟨h.good hother, fun q hq hq' => ?_⟩) h.kept
    · refine fun hnul => ⟨?_, fun bytes => ?_⟩
      · rcases hbefore : fs₀ (components target) with _ | node
        · rfl
        · have hthere := h.kept hbefore
          rw [hnone hnul] at hthere
          cases hthere
      · rw [hnone hnul]
        nofun
    · obtain ⟨target', htarget', hnul, rfl⟩ := of_claim hq
      cases htarget'
      have hsettles : target ∈ w.settles a := by
        rw [World.settles, if_pos hm, hcall, Option.bind_some, hphase, Option.filter_some,
          if_pos (by simpa using ⟨hnul, hfree⟩)]
        rfl
      have hpending := hspaced target hsettles j (List.getElem?_eq_some_iff.mp hother).1 hne
      rw [hother, Option.bind_some] at hpending
      obtain ⟨bytes, hfile⟩ := (h.good hother).file_of_claim hq' hpending
      rw [hnone hnul] at hfile
      cases hfile
  | @created target hphase hnul hdir =>
    have hclaim : (Phase.writing target [] call.bytes).claim = call.phase.claim := by
      rw [hphase]
      rfl
    have hself : call.phase.claim = some (components target) := by
      rw [← hclaim]
      exact claim_some rfl hnul
    unfold Call.Good at hgood
    rw [hphase] at hgood
    obtain ⟨hfresh, -⟩ := hgood hnul
    refine h.advance ⟨hnul, hfresh, Function.update_self _ _ _, rfl⟩ (fun hne hother => ⟨?_, h.others hcall hclaim hne hother⟩) ?_
    · exact (h.good hother).update _ fun hq => hne (h.apart hother hcall hq hself)
    · intro p node hp
      rw [Function.update_of_ne]
      · exact h.kept hp
      · rintro rfl
        rw [hfresh] at hp
        cases hp
  | @wrote target written rest content n hphase hfile =>
    have hclaim : (Phase.writing target (written ++ rest.take n) (rest.drop n)).claim = call.phase.claim := by
      rw [hphase]
      rfl
    unfold Call.Good at hgood
    rw [hphase] at hgood
    obtain ⟨hnul, hfresh, hwritten, hbytes⟩ := hgood
    have hself : call.phase.claim = some (components target) := by
      rw [← hclaim]
      exact claim_some rfl hnul
    rw [hwritten] at hfile
    cases hfile
    refine h.advance ⟨hnul, hfresh, ?_, ?_⟩ (fun hne hother => ⟨?_, h.others hcall hclaim hne hother⟩) ?_
    · rw [Function.update_self, writeAt_end]
    · rw [List.append_assoc, List.take_append_drop]
      exact hbytes
    · exact (h.good hother).update _ fun hq => hne (h.apart hother hcall hq hself)
    · intro p node hp
      rw [Function.update_of_ne]
      · exact h.kept hp
      · rintro rfl
        rw [hfresh] at hp
        cases hp
  | @returned target written hphase =>
    have hclaim : (Phase.returned target).claim = call.phase.claim := by
      rw [hphase]
      rfl
    unfold Call.Good at hgood
    rw [hphase] at hgood
    obtain ⟨hnul, hfresh, hwritten, hbytes⟩ := hgood
    rw [List.append_nil] at hbytes
    refine h.advance ⟨hnul, hfresh, ?_⟩ (fun hne hother => ⟨h.good hother, h.others hcall hclaim hne hother⟩) h.kept
    rw [hwritten, hbytes]

end Step

theorem uploadsInv_start (fs₀ : Files) (requests : List (List Char × Bytes)) :
    UploadsInv fs₀ (.start fs₀ requests) := by
  have hcalled : ∀ {i : ℕ} {call : Call}, (World.start fs₀ requests).calls[i]? = some call → call.phase = .called := by
    intro i call hcall
    rw [World.start, List.getElem?_map] at hcall
    obtain ⟨r, -, rfl⟩ := Option.map_eq_some_iff.mp hcall
    rfl
  refine ⟨fun hcall => good_unnamed (by rw [hcalled hcall]; rfl), fun hcall _ hclaim _ => ?_, id⟩
  rw [hcalled hcall] at hclaim
  cases hclaim

/-- **Uploads side by side do not overwrite each other** where none settles on a name that
another one has settled on and not created yet. -/
theorem uploads_apart (filesDir : Path) (fs₀ : Files) (requests : List (List Char × Bytes)) (as : List (ℕ × Move))
    {w : World} (hrun : Runs.run (World.step filesDir) (.start fs₀ requests) as = some w)
    (hspaced : Runs.Meets (World.step filesDir) Spaced (.start fs₀ requests) as) : Apart fs₀ w := by
  have h : UploadsInv fs₀ w := Runs.run_invariant_of_meets
    (fun hinv hspaced hstep => uploadsInv_step hinv hspaced hstep) hrun hspaced (uploadsInv_start fs₀ requests)
  have hreturned : ∀ {i : ℕ} {call : Call} {target : Path}, w.calls[i]? = some call → call.phase = .returned target →
      nul ∉ target ∧ fs₀ (components target) = none ∧ w.fs (components target) = some (.file call.bytes) := by
    intro i call target hcall hphase
    have hgood := h.good hcall
    unfold Call.Good at hgood
    rw [hphase] at hgood
    exact hgood
  refine ⟨fun call hmem target hphase => ?_, fun i j call other target target' hcall hother hne hphase hphase' heq => ?_,
    fun call hmem target hphase => ?_, fun q bytes hq => h.kept hq⟩
  · obtain ⟨i, hcall⟩ := List.mem_iff_getElem?.mp hmem
    exact (hreturned hcall hphase).2.1
  · have hclaim : call.phase.claim = some (components target) := claim_some (by rw [hphase]; rfl) (hreturned hcall hphase).1
    have hclaim' : other.phase.claim = some (components target) := by
      rw [heq]
      exact claim_some (by rw [hphase']; rfl) (hreturned hother hphase').1
    exact hne (h.apart hcall hother hclaim hclaim')
  · obtain ⟨i, hcall⟩ := List.mem_iff_getElem?.mp hmem
    exact (hreturned hcall hphase).2.2

/-- Two uploads of one name into the directory `/s`. -/
def twice : World := .start (fun _ => none) [("a.txt".toList, [1]), ("a.txt".toList, [2])]

/-- A call up to its search. -/
def untilSearch (i : ℕ) : List (ℕ × Move) := [(i, .go), (i, .mkdir true), (i, .go), (i, .mkdir true), (i, .go)]

/-- A call from where it has settled on a name. -/
def untilReturn (i : ℕ) : List (ℕ × Move) := [(i, .mkdir true), (i, .create true), (i, .write 1), (i, .go)]

/-- The second upload searches once the file of the first is created. -/
def oneThenOther : List (ℕ × Move) :=
  untilSearch 0 ++ untilSearch 1 ++ (0, .test) :: untilReturn 0 ++ [(1, .test), (1, .test)] ++ untilReturn 1

theorem uploads_apart_deduped : ∃ w, Runs.run (World.step "/s".toList) twice oneThenOther = some w ∧
    w.calls.map (·.phase) = [.returned "/s/a.txt".toList, .returned "/s/a-1.txt".toList] ∧ Apart (fun _ => none) w := by
  have hrun : (Runs.run (World.step "/s".toList) twice oneThenOther).any (fun w =>
      decide (w.calls.map (·.phase) = [.returned "/s/a.txt".toList, .returned "/s/a-1.txt".toList])) = true := by
    decide +kernel
  obtain ⟨w, hw, hend⟩ := (Option.any_eq_true _ _).mp hrun
  exact ⟨w, hw, of_decide_eq_true hend, uploads_apart "/s".toList (fun _ => none)
    [("a.txt".toList, [1]), ("a.txt".toList, [2])] oneThenOther hw (by decide +kernel)⟩

/-- Both uploads find the name free before either creates the file. -/
def bothAtOnce : List (ℕ × Move) :=
  untilSearch 0 ++ untilSearch 1 ++ [(0, .test), (1, .test)] ++ untilReturn 0 ++ untilReturn 1

/-- Both return one path, and the bytes of the first are gone. -/
theorem uploads_overwrite : ∃ w, Runs.run (World.step "/s".toList) twice bothAtOnce = some w ∧
    w.calls.map (·.phase) = [.returned "/s/a.txt".toList, .returned "/s/a.txt".toList] ∧
    w.fs (components "/s/a.txt".toList) = some (.file [2]) ∧ ¬ Apart (fun _ => none) w := by
  have hrun : (Runs.run (World.step "/s".toList) twice bothAtOnce).any (fun w =>
      decide (w.calls.map (·.phase) = [.returned "/s/a.txt".toList, .returned "/s/a.txt".toList] ∧
        w.calls.map (·.bytes) = [[1], [2]] ∧ w.fs (components "/s/a.txt".toList) = some (.file [2]))) = true := by
    decide +kernel
  obtain ⟨w, hw, hend⟩ := (Option.any_eq_true _ _).mp hrun
  obtain ⟨hphases, hbytes, hfile⟩ := of_decide_eq_true hend
  refine ⟨w, hw, hphases, hfile, fun hapart => ?_⟩
  rcases hcalls : w.calls with _ | ⟨call, calls⟩
  · rw [hcalls] at hphases
    cases hphases
  rw [hcalls] at hphases hbytes
  have hfirst : call.bytes = [1] := (List.cons.inj hbytes).1
  have hcontent := hapart.content call (hcalls ▸ List.mem_cons_self) _ (List.cons.inj hphases).1
  rw [hfile, hfirst] at hcontent
  exact absurd hcontent (by decide)

end Uploads
end Session
end OpenRelay
