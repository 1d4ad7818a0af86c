/-
# The table of program statuses

The reports of the program status protocol make a table (`session/program_status.rs`):
a record for each id, the least recently updated first, with the epoch of the
report that is shown. A report replaces the record of its id and may push out the
oldest one; a clear removes an id with everything below it, and a prompt the
records that were in progress.

Ids are paths. What is shown is the newest record of the highest priority, and a
record without an app is shown with that of its nearest ancestor (`IsCurrent`).
Over any sequence of reports and clears the table holds the last report of some
ids, in the order of those reports (`TableLaws`); what a further one changes is
said of every table that can come about (`StepLaws`).

Key theorems: `ancestorApp_spec`, `parseStatus_eq_none_iff`, `status_table_laws`.
-/
import OpenRelay.Pty.Signals
import Mathlib.Data.List.Pairwise
import Mathlib.Data.List.TakeWhile

namespace OpenRelay
namespace Pty

/-- The records a clear is about: all of them if it names no id. -/
def inScope (id : Option Bytes) (r : ProgramStatus) : Bool :=
  match id with
  | none => true
  | some id => ProgramStatuses.underPath id r

/-- The records with the epoch of the selected report. -/
structure StatusTable where
  statuses : ProgramStatuses
  changedAt : Option ℕ
  deriving DecidableEq, Repr

namespace StatusTable

/-- No record, and no change yet. -/
def empty : StatusTable := ⟨⟨[]⟩, none⟩

def records (t : StatusTable) : List ProgramStatus := t.statuses.records

/-- The record that is shown. -/
def current (t : StatusTable) : Option ProgramStatus := t.statuses.current

/-- The records that `p` holds of are removed; if another one is shown then, it is so from now on. -/
def removeWhere (now : ℕ) (t : StatusTable) (p : ProgramStatus → Bool) : StatusTable × Bool :=
  let (kept, changed) := t.statuses.removeWhere p
  (⟨kept, if kept.current ≠ t.current then some now else t.changedAt⟩, changed)

def clear (now : ℕ) (t : StatusTable) : StatusTable × Bool := t.removeWhere now fun _ => true

/-- The records of programs that were at work are removed. -/
def dropTransient (now : ℕ) (t : StatusTable) : StatusTable × Bool :=
  t.removeWhere now fun r => decide (r.state = .working ∨ r.state = .blocked)

/-- A report is taken in. A malformed one changes nothing. -/
def report (now : ℕ) (t : StatusTable) (body : Bytes) : StatusTable × Bool :=
  match parseStatus body with
  | none => (t, false)
  | some (id, some record) =>
    let previous := t.records.find? fun r => decide (r.id = id)
    let others := t.records.eraseP fun r => decide (r.id = id)
    let kept := if others.length = maxRecords then others.drop 1 else others
    let next : ProgramStatuses := ⟨kept ++ [record]⟩
    let selectedChanged := decide (next.current ≠ t.current)
    (⟨next, if selectedChanged then some now else t.changedAt⟩, decide (previous ≠ some record) || selectedChanged)
  | some (id, none) => t.removeWhere now (inScope id)

theorem report_none {body : Bytes} (h : parseStatus body = none) (now : ℕ) (t : StatusTable) :
    t.report now body = (t, false) := by
  unfold report
  rw [h]

theorem report_clear {body : Bytes} {id : Option Bytes} (h : parseStatus body = some (id, none)) (now : ℕ)
    (t : StatusTable) : t.report now body = t.removeWhere now (inScope id) := by
  unfold report
  rw [h]

end StatusTable

/-- What is done to the table. -/
inductive StatusOp where
  | report (body : Bytes)
  | clear
  | dropTransient
  deriving DecidableEq, Repr

/-- A report, or one of the two removals. -/
def StatusTable.apply (now : ℕ) (t : StatusTable) : StatusOp → StatusTable × Bool
  | .report body => t.report now body
  | .clear => t.clear now
  | .dropTransient => t.dropTransient now

/-- The table after the operations, each at its time. -/
def StatusTable.after (ops : List (ℕ × StatusOp)) : StatusTable :=
  ops.foldl (fun t op => (t.apply op.1 op.2).1) .empty

/-- The records are those the signals of the scanner keep. -/
theorem StatusTable.report_statuses (now : ℕ) (t : StatusTable) (body : Bytes) :
    ((t.report now body).1.statuses, (t.report now body).2) = t.statuses.report body := by
  unfold StatusTable.report ProgramStatuses.report
  rcases parseStatus body with _ | ⟨id, _ | record⟩
  · rfl
  · rfl
  · rfl

/-! ### What is shown -/

/-- The path is below this one; below the root everything is. -/
def Ancestor : Option Bytes → Bytes → Prop
  | none, _ => True
  | some above, path => above ++ [47] <+: path

/-- How deep a record's path is; one without an id is above all others. -/
def depth : Option Bytes → ℕ
  | none => 0
  | some path => path.length + 1

/-- The app of the record with this id. -/
def appAt (records : List ProgramStatus) (id : Option Bytes) : Option Bytes :=
  (records.find? fun r => decide (r.id = id)).bind ProgramStatus.app

/-- The app of the nearest ancestor that has one. -/
def InheritedApp (records : List ProgramStatus) (path : Bytes) : Option Bytes → Prop
  | some app => ∃ a, Ancestor a path ∧ appAt records a = some app ∧
      ∀ b, Ancestor b path → depth a < depth b → appAt records b = none
  | none => ∀ a, Ancestor a path → appAt records a = none

/-- No record has a higher priority, and no newer one the same. -/
def Newest (records : List ProgramStatus) (r : ProgramStatus) : Prop :=
  ∃ older newer, records = older ++ r :: newer ∧
    (∀ x ∈ older, ProgramStatuses.priority x.state ≤ ProgramStatuses.priority r.state) ∧
    ∀ x ∈ newer, ProgramStatuses.priority x.state < ProgramStatuses.priority r.state

/-- The newest record of the highest priority; if it has no app, with that of its
nearest ancestor. -/
def IsCurrent (records : List ProgramStatus) (shown : ProgramStatus) : Prop :=
  ∃ r, Newest records r ∧ shown = { r with app := shown.app } ∧
    match r.app, r.id with
    | some app, _ => shown.app = some app
    | none, none => shown.app = none
    | none, some path => InheritedApp records path shown.app

namespace ProgramStatuses

theorem parentPath_eq_none {path : Bytes} (h : parentPath path = none) : 47 ∉ path := by
  unfold parentPath at h
  split at h
  · next hnil =>
    intro hmem
    have := List.dropWhile_eq_nil_iff.mp hnil 47 (List.mem_reverse.mpr hmem)
    simp at this
  · cases h

theorem parentPath_eq_some {path above : Bytes} (h : parentPath path = some above) :
    ∃ name, path = above ++ 47 :: name ∧ 47 ∉ name := by
  unfold parentPath at h
  split at h
  · cases h
  · next b rest hdrop =>
    injection h with habove
    have hb : b = 47 := by
      have := List.head?_dropWhile_not (fun x : UInt8 => decide (x ≠ 47)) path.reverse
      rw [hdrop] at this
      simpa using this
    have hsplit := List.takeWhile_append_dropWhile (p := fun x : UInt8 => decide (x ≠ 47)) (l := path.reverse)
    rw [hdrop, hb] at hsplit
    refine ⟨(path.reverse.takeWhile fun x => decide (x ≠ 47)).reverse, ?_, fun hmem => ?_⟩
    · rw [← habove]
      have := congrArg List.reverse hsplit
      simpa using this.symm
    · have := List.mem_takeWhile_imp (List.mem_reverse.mp hmem)
      simp at this

/-- The parent is an ancestor, and all other ancestors are the parent's own. -/
theorem ancestor_cases {path above name : Bytes} (hpath : path = above ++ 47 :: name) (hname : 47 ∉ name)
    {a : Option Bytes} (ha : Ancestor a path) : a = some above ∨ Ancestor a above := by
  cases a with
  | none => exact .inr trivial
  | some p =>
    obtain ⟨rest, hrest⟩ := ha
    have heq : p ++ 47 :: rest = above ++ 47 :: name := by
      rw [← hpath, ← hrest, List.append_assoc]; rfl
    rcases List.append_eq_append_iff.mp heq with ⟨more, hmore, htail⟩ | ⟨more, hmore, htail⟩
    · cases more with
      | nil =>
        rw [List.append_nil] at hmore
        exact .inl (congrArg some hmore.symm)
      | cons c more =>
        injection htail with hc _
        refine .inr ⟨more, ?_⟩
        rw [hmore, ← hc, List.append_assoc]; rfl
    · cases more with
      | nil =>
        rw [List.append_nil] at hmore
        exact .inl (congrArg some hmore)
      | cons c more =>
        injection htail with _ htail
        exact absurd (htail ▸ List.mem_append_right _ List.mem_cons_self) hname

theorem ancestor_parent {path above name : Bytes} (hpath : path = above ++ 47 :: name) :
    Ancestor (some above) path := ⟨name, by rw [hpath, List.append_assoc]; rfl⟩

theorem ancestor_trans {a : Option Bytes} {above path : Bytes} (ha : Ancestor a above)
    (h : Ancestor (some above) path) : Ancestor a path := by
  cases a with
  | none => trivial
  | some p =>
    exact (show p ++ [47] <+: above from ha).trans ((List.prefix_append _ _).trans h)

theorem depth_le {a : Option Bytes} {path : Bytes} (h : Ancestor a path) : depth a ≤ path.length := by
  cases a with
  | none => exact Nat.zero_le _
  | some p =>
    have := List.IsPrefix.length_le (show p ++ [47] <+: path from h)
    simpa [depth] using this

/-- **Inheritance.** The walk over the parents ends at the nearest ancestor that has
an app. -/
theorem ancestorApp_spec (records : List ProgramStatus) : ∀ (turns : ℕ) (path : Bytes), path.length < turns →
    InheritedApp records path (ancestorApp records turns (some path))
  | 0, _, h => absurd h (Nat.not_lt_zero _)
  | turns + 1, path, h => by
    unfold ancestorApp
    show InheritedApp records path (match appAt records (parentPath path) with
      | some app => some app
      | none => ancestorApp records turns (parentPath path))
    rcases hparent : parentPath path with _ | above
    · have honly : ∀ a, Ancestor a path → a = none := by
        intro a ha
        cases a with
        | none => rfl
        | some p =>
          have hmem : 47 ∈ p ++ [47] := List.mem_append_right _ List.mem_cons_self
          exact absurd ((show p ++ [47] <+: path from ha).mem hmem) (parentPath_eq_none hparent)
      rcases happ : appAt records none with _ | app
      · have hend : ancestorApp records turns none = none := by
          cases turns with
          | zero => rfl
          | succ n => rfl
        show InheritedApp records path (ancestorApp records turns none)
        rw [hend]
        intro a ha
        rw [honly a ha, happ]
      · refine ⟨none, trivial, happ, fun b hb hlt => ?_⟩
        rw [honly b hb] at hlt
        exact absurd hlt (Nat.lt_irrefl _)
    · obtain ⟨name, hpath, hname⟩ := parentPath_eq_some hparent
      have hshorter : above.length < path.length := by
        rw [hpath, List.length_append, List.length_cons]
        omega
      rcases happ : appAt records (some above) with _ | app
      · have ih := ancestorApp_spec records turns above (by omega)
        show InheritedApp records path (ancestorApp records turns (some above))
        rcases hrest : ancestorApp records turns (some above) with _ | app
        · rw [hrest] at ih
          intro a ha
          rcases ancestor_cases hpath hname ha with rfl | ha
          · exact happ
          · exact ih a ha
        · rw [hrest] at ih
          obtain ⟨a, ha, hfound, hnearest⟩ := ih
          refine ⟨a, ancestor_trans ha (ancestor_parent hpath), hfound, fun b hb hlt => ?_⟩
          rcases ancestor_cases hpath hname hb with rfl | hb
          · exact happ
          · exact hnearest b hb hlt
      · refine ⟨some above, ancestor_parent hpath, happ, fun b hb hlt => ?_⟩
        rcases ancestor_cases hpath hname hb with rfl | hb
        · exact absurd hlt (Nat.lt_irrefl _)
        · have := depth_le hb
          exact absurd hlt (Nat.not_lt.mpr (Nat.le_succ_of_le this))

/-- Another turn of the selection. -/
def better (best : Option ProgramStatus) (r : ProgramStatus) : Option ProgramStatus :=
  match best with
  | none => some r
  | some b => if priority b.state ≤ priority r.state then some r else some b

theorem selected_append (records : List ProgramStatus) (r : ProgramStatus) :
    selected (records ++ [r]) = better (selected records) r := by
  unfold selected
  rw [List.foldl_append]
  rfl

theorem selected_spec (records : List ProgramStatus) :
    (selected records).elim (records = []) (Newest records) := by
  induction records using List.reverseRecOn with
  | nil => rfl
  | append_singleton records r ih =>
    rw [selected_append]
    rcases hsel : selected records with _ | b
    · rw [hsel] at ih
      show Newest (records ++ [r]) r
      rw [show records = [] from ih]
      exact ⟨[], [], rfl, fun _ h => absurd h List.not_mem_nil, fun _ h => absurd h List.not_mem_nil⟩
    · rw [hsel] at ih
      obtain ⟨older, newer, rfl, holder, hnewer⟩ := ih
      have hbetter : better (some b) r = if priority b.state ≤ priority r.state then some r else some b := rfl
      rw [hbetter]
      by_cases hle : priority b.state ≤ priority r.state
      · rw [if_pos hle]
        show Newest (older ++ b :: newer ++ [r]) r
        refine ⟨older ++ b :: newer, [], rfl, fun x hx => ?_, fun _ h => absurd h List.not_mem_nil⟩
        rcases List.mem_append.mp hx with hx | hx
        · exact (holder x hx).trans hle
        · rcases List.mem_cons.mp hx with rfl | hx
          · exact hle
          · exact (hnewer x hx).le.trans hle
      · rw [if_neg hle]
        show Newest (older ++ b :: newer ++ [r]) b
        refine ⟨older, newer ++ [r], by rw [List.append_assoc]; rfl, holder, fun x hx => ?_⟩
        rcases List.mem_append.mp hx with hx | hx
        · exact hnewer x hx
        · rw [List.mem_singleton.mp hx]
          exact Nat.lt_of_not_le hle

/-- **What is shown.** -/
theorem current_spec (s : ProgramStatuses) : s.current.elim (s.records = []) (IsCurrent s.records) := by
  have hsel := selected_spec s.records
  unfold current
  rcases hr : selected s.records with _ | r
  · rw [hr] at hsel
    exact hsel
  · rw [hr] at hsel
    show IsCurrent s.records (match r.app with
      | some _ => r
      | none => { r with app := ancestorApp s.records ((r.id.getD []).length + 1) r.id })
    rcases happ : r.app with _ | app
    · refine ⟨r, hsel, rfl, ?_⟩
      rw [happ]
      rcases hid : r.id with _ | path
      · rfl
      · exact ancestorApp_spec s.records _ path (Nat.lt_succ_self _)
    · refine ⟨r, hsel, rfl, ?_⟩
      rw [happ]

end ProgramStatuses

/-! ### Malformed reports -/

/-- A key that is looked at: lower case letters. -/
def IsKey (key : Bytes) : Prop := key ≠ [] ∧ key.all isLower = true

/-- A pair that makes the report it is in malformed. -/
inductive BadPair (key value : Bytes) : Prop where
  | key (h : 16 < key.length)
  | value (hkey : IsKey key) (h : spoils key value = true)
  | title (h : key = ascii "title") (hvalue : value.all isValueByte = true) (htext : statusText value 192 = none)
  | msg (h : key = ascii "msg") (hvalue : value.all isValueByte = true) (htext : statusText value 2048 = none)

/-- The pairs of a report, without the white space around keys and values. -/
def pairs (body : Bytes) : List (Bytes × Bytes) :=
  ((splitOn 58 body).filterMap (splitOnce 61)).map fun pair => (trim pair.1, trim pair.2)

/-- The state of a report: that of the last pair with one that is spelt right. -/
def statedState (pairs : List (Bytes × Bytes)) : Option Bytes :=
  (pairs.filter fun pair => decide (pair.1 = ascii "state") && pair.2.all isValueByte).getLast?.map Prod.snd

/-- What makes a report malformed. -/
inductive Malformed (body : Bytes) : Prop where
  | long (h : 4088 < body.length)
  | text (h : utf8 body = none)
  | pair (pair : Bytes × Bytes) (h : pair ∈ pairs body) (hbad : BadPair pair.1 pair.2)
  | state (h : (statedState (pairs body)).bind reportedState = none)

/-- One pair, its key and value trimmed. -/
def readTrimmed (fields : StatusFields) (pair : Bytes × Bytes) : Option StatusFields :=
  if 16 < pair.1.length then none
  else if pair.1.isEmpty || !pair.1.all isLower then some fields
  else if spoils pair.1 pair.2 then none
  else if !pair.2.all isValueByte then some fields
  else assign fields pair.1 pair.2

theorem readPairs_eq : ∀ (parts : List Bytes) (fields : StatusFields),
    readPairs fields parts =
      ((parts.filterMap (splitOnce 61)).map fun pair => (trim pair.1, trim pair.2)).foldlM readTrimmed fields
  | [], _ => rfl
  | part :: parts, fields => by
    have hnext : readPairs fields (part :: parts) = (readPair fields part).bind fun f => readPairs f parts := rfl
    rw [hnext]
    unfold readPair
    rcases hsplit : splitOnce 61 part with _ | ⟨key, value⟩
    · rw [List.filterMap_cons_none hsplit]
      exact readPairs_eq parts fields
    · rw [List.filterMap_cons_some hsplit, List.map_cons, List.foldlM_cons]
      show (readTrimmed fields (trim key, trim value)).bind _ = (readTrimmed fields (trim key, trim value)).bind _
      congr 1
      exact funext fun f => readPairs_eq parts f

theorem isLower_keys : IsKey (ascii "title") ∧ IsKey (ascii "msg") := by
  unfold IsKey
  decide

theorem assign_eq_none {fields : StatusFields} {key value : Bytes} :
    assign fields key value = none ↔
      key = ascii "title" ∧ statusText value 192 = none ∨ key = ascii "msg" ∧ statusText value 2048 = none := by
  unfold assign
  by_cases htitle : key = ascii "title"
  · subst htitle
    rcases statusText value 192 with _ | title
    · simp [ascii]
    · simp [ascii]
  by_cases hmsg : key = ascii "msg"
  · subst hmsg
    rcases statusText value 2048 with _ | msg
    · simp [ascii]
    · simp [ascii]
  rw [if_neg htitle, if_neg hmsg]
  split_ifs <;> simp [htitle, hmsg]

theorem assign_state {fields fields' : StatusFields} {key value : Bytes} (h : assign fields key value = some fields') :
    fields'.state = if key = ascii "state" then some value else fields.state := by
  unfold assign at h
  split_ifs at h with h1 h2 h3 h4 h5 h6 h7
  all_goals try (rw [if_pos h1]; cases h; rfl)
  all_goals rw [if_neg h1]
  · cases h; rfl
  · cases h; rfl
  · obtain ⟨title, -, h⟩ := Option.bind_eq_some_iff.mp h
    cases h; rfl
  · obtain ⟨msg, -, h⟩ := Option.bind_eq_some_iff.mp h
    cases h; rfl
  · cases h; rfl
  · cases h; rfl
  · cases h; rfl

/-- A pair is refused exactly if it is bad. -/
theorem readTrimmed_eq_none {fields : StatusFields} {pair : Bytes × Bytes} :
    readTrimmed fields pair = none ↔ BadPair pair.1 pair.2 := by
  unfold readTrimmed
  by_cases hlong : 16 < pair.1.length
  · rw [if_pos hlong]
    exact ⟨fun _ => .key hlong, fun _ => rfl⟩
  rw [if_neg hlong]
  by_cases hkey : IsKey pair.1
  · have hskip : ¬ ((pair.1.isEmpty || !pair.1.all isLower) = true) := by
      simp [hkey.1, hkey.2]
    rw [if_neg hskip]
    by_cases hspoils : spoils pair.1 pair.2 = true
    · rw [if_pos hspoils]
      exact ⟨fun _ => .value hkey hspoils, fun _ => rfl⟩
    rw [if_neg hspoils]
    by_cases hvalue : pair.2.all isValueByte = true
    · have hread : ¬ ((!pair.2.all isValueByte) = true) := by simp [hvalue]
      rw [if_neg hread, assign_eq_none]
      refine ⟨fun h => ?_, fun h => ?_⟩
      · rcases h with ⟨hk, ht⟩ | ⟨hk, ht⟩
        · exact .title hk hvalue ht
        · exact .msg hk hvalue ht
      · cases h with
        | key h => exact absurd h hlong
        | value _ h => exact absurd h hspoils
        | title hk _ ht => exact .inl ⟨hk, ht⟩
        | msg hk _ ht => exact .inr ⟨hk, ht⟩
    · have hread : (!pair.2.all isValueByte) = true := by simpa using hvalue
      rw [if_pos hread]
      refine ⟨nofun, fun h => ?_⟩
      cases h with
      | key h => exact absurd h hlong
      | value _ h => exact absurd h hspoils
      | title _ hv _ => exact absurd hv hvalue
      | msg _ hv _ => exact absurd hv hvalue
  · have hskip : (pair.1.isEmpty || !pair.1.all isLower) = true := by
      by_contra hno
      refine hkey ?_
      simpa [IsKey] using hno
    rw [if_pos hskip]
    refine ⟨nofun, fun h => ?_⟩
    cases h with
    | key h => exact absurd h hlong
    | value hk _ => exact absurd hk hkey
    | title hk _ _ => exact absurd (hk ▸ isLower_keys.1) hkey
    | msg hk _ _ => exact absurd (hk ▸ isLower_keys.2) hkey

theorem readTrimmed_state {fields fields' : StatusFields} {pair : Bytes × Bytes}
    (h : readTrimmed fields pair = some fields') :
    fields'.state = if pair.1 = ascii "state" ∧ pair.2.all isValueByte = true then some pair.2 else fields.state := by
  unfold readTrimmed at h
  split_ifs at h with _ hskip _ hvalue
  · have hne : pair.1 ≠ ascii "state" := by
      intro hstate
      rw [hstate] at hskip
      exact absurd hskip (by decide)
    rw [if_neg fun hno => hne hno.1]
    exact congrArg StatusFields.state (Option.some.inj h).symm
  · have hno : ¬ pair.2.all isValueByte = true := by simpa using hvalue
    rw [if_neg fun hboth => hno hboth.2]
    exact congrArg StatusFields.state (Option.some.inj h).symm
  · have hvalue : pair.2.all isValueByte = true := by simpa using hvalue
    rw [assign_state h]
    simp only [hvalue, and_true]

theorem statedState_cons (pair : Bytes × Bytes) (ps : List (Bytes × Bytes)) :
    statedState (pair :: ps) = (statedState ps).or
      (if pair.1 = ascii "state" ∧ pair.2.all isValueByte = true then some pair.2 else none) := by
  unfold statedState
  by_cases hpair : pair.1 = ascii "state" ∧ pair.2.all isValueByte = true
  · rw [List.filter_cons_of_pos (by simpa using hpair), List.getLast?_cons, if_pos hpair]
    rcases (ps.filter _).getLast? with _ | last
    · rfl
    · rfl
  · rw [List.filter_cons_of_neg (by simpa using hpair), if_neg hpair, Option.or_none]

theorem readAll_state : ∀ (ps : List (Bytes × Bytes)) {fields fields' : StatusFields},
    ps.foldlM readTrimmed fields = some fields' → fields'.state = (statedState ps).or fields.state
  | [], _, _, h => congrArg StatusFields.state (Option.some.inj h).symm
  | pair :: ps, fields, fields', h => by
    rw [List.foldlM_cons] at h
    obtain ⟨f, hf, h⟩ := Option.bind_eq_some_iff.mp h
    calc fields'.state = (statedState ps).or f.state := readAll_state ps h
      _ = (statedState (pair :: ps)).or fields.state := by
        rw [readTrimmed_state hf, statedState_cons, Option.or_assoc]
        congr 1
        split_ifs with hpair
        · rfl
        · rfl

theorem readAll_eq_none : ∀ (ps : List (Bytes × Bytes)) (fields : StatusFields),
    ps.foldlM readTrimmed fields = none ↔ ∃ pair ∈ ps, BadPair pair.1 pair.2
  | [], _ => by simp
  | pair :: ps, fields => by
    rw [List.foldlM_cons, List.exists_mem_cons_iff]
    rcases hread : readTrimmed fields pair with _ | f
    · exact ⟨fun _ => .inl (readTrimmed_eq_none.mp hread), fun _ => rfl⟩
    · have hgood : ¬ BadPair pair.1 pair.2 := by
        intro hbad
        rw [readTrimmed_eq_none.mpr hbad] at hread
        cases hread
      show ps.foldlM readTrimmed f = none ↔ _
      rw [readAll_eq_none ps f]
      exact ⟨.inr, fun h => h.resolve_left hgood⟩

/-- **Malformed reports.** They are the ones that parse to nothing. -/
theorem parseStatus_eq_none_iff (body : Bytes) : parseStatus body = none ↔ Malformed body := by
  unfold parseStatus
  by_cases hlong : 4088 < body.length
  · rw [if_pos hlong]
    exact ⟨fun _ => .long hlong, fun _ => rfl⟩
  rw [if_neg hlong, readPairs_eq]
  show ((utf8 body).bind fun _ => ((pairs body).foldlM readTrimmed .empty).bind fun fields =>
    fields.state.bind fun value => _) = none ↔ _
  rcases htext : utf8 body with _ | text
  · exact ⟨fun _ => .text htext, fun _ => rfl⟩
  rcases hread : (pairs body).foldlM readTrimmed .empty with _ | fields
  · obtain ⟨pair, hpair, hbad⟩ := (readAll_eq_none _ _).mp hread
    exact ⟨fun _ => .pair pair hpair hbad, fun _ => rfl⟩
  have hgood : ∀ pair ∈ pairs body, ¬ BadPair pair.1 pair.2 := by
    intro pair hpair hbad
    rw [(readAll_eq_none _ _).mpr ⟨pair, hpair, hbad⟩] at hread
    cases hread
  have hstate : fields.state = statedState (pairs body) := by
    rw [readAll_state _ hread]
    exact Option.or_none
  show (fields.state.bind fun value => _) = none ↔ _
  rw [hstate]
  refine ⟨fun h => .state ?_, fun h => ?_⟩
  · rcases hvalue : statedState (pairs body) with _ | value
    · rfl
    rw [hvalue] at h
    show reportedState value = none
    rcases hreported : reportedState value with _ | reported
    · rfl
    simp only [Option.bind_some, hreported] at h
    cases reported <;> cases h
  · cases h with
    | long h => exact absurd h hlong
    | text h => rw [h] at htext; cases htext
    | pair pair hpair hbad => exact absurd hbad (hgood pair hpair)
    | state h =>
      rcases hvalue : statedState (pairs body) with _ | value
      · rfl
      · rw [hvalue] at h
        have hreported : reportedState value = none := h
        simp only [Option.bind_some, hreported]

/-- A record is filed under the id of its report. -/
theorem parseStatus_id {body : Bytes} {id : Option Bytes} {r : ProgramStatus}
    (h : parseStatus body = some (id, some r)) : r.id = id := by
  unfold parseStatus at h
  split at h
  · cases h
  obtain ⟨_, _, h⟩ := Option.bind_eq_some_iff.mp h
  obtain ⟨fields, _, h⟩ := Option.bind_eq_some_iff.mp h
  obtain ⟨value, _, h⟩ := Option.bind_eq_some_iff.mp h
  split at h
  · cases h
  · cases h
  · cases h
    rfl

/-! ### The order of the records -/

/-- The record the operation reports. -/
def StatusOp.reported : StatusOp → Option ProgramStatus
  | .report body => (parseStatus body).bind Prod.snd
  | _ => none

/-- The records that were reported and not replaced since, in the order of their
reports. -/
def latest (rs : List ProgramStatus) : List ProgramStatus := rs.pwFilter fun a b => a.id ≠ b.id

theorem latest_cons (x : ProgramStatus) (rs : List ProgramStatus) :
    latest (x :: rs) = if ∀ y ∈ latest rs, x.id ≠ y.id then x :: latest rs else latest rs := by
  unfold latest
  split_ifs with h
  · exact List.pwFilter_cons_of_pos h
  · exact List.pwFilter_cons_of_neg h

/-- A further report replaces the record of its id. -/
theorem latest_append (rs : List ProgramStatus) (r : ProgramStatus) :
    latest (rs ++ [r]) = ((latest rs).filter fun x => decide (x.id ≠ r.id)) ++ [r] := by
  induction rs with
  | nil => rfl
  | cons x rs ih =>
    rw [List.cons_append, latest_cons, latest_cons x rs, ih]
    by_cases hkept : ∀ y ∈ latest rs, x.id ≠ y.id
    · rw [if_pos hkept]
      by_cases hsame : x.id = r.id
      · rw [List.filter_cons_of_neg (by simpa using hsame), if_neg]
        exact fun h => h r (List.mem_append_right _ List.mem_cons_self) hsame
      · rw [List.filter_cons_of_pos (by simpa using hsame), if_pos, List.cons_append]
        intro y hy
        rcases List.mem_append.mp hy with hy | hy
        · exact hkept y (List.mem_of_mem_filter hy)
        · rw [List.mem_singleton.mp hy]
          exact hsame
    · rw [if_neg hkept, if_neg]
      intro hall
      refine hkept fun y hy hxy => ?_
      by_cases hsame : y.id = r.id
      · exact hall r (List.mem_append_right _ List.mem_cons_self) (hxy.trans hsame)
      · exact hall y (List.mem_append_left _ (List.mem_filter.mpr ⟨hy, by simpa using hsame⟩)) hxy

theorem latest_pairwise (rs : List ProgramStatus) : (latest rs).Pairwise fun a b => a.id ≠ b.id :=
  List.pairwise_pwFilter rs

/-- With distinct ids one record at most has an id. -/
theorem eraseP_eq_filter {records : List ProgramStatus} (h : records.Pairwise fun a b => a.id ≠ b.id) (id : Option Bytes) :
    (records.eraseP fun r => decide (r.id = id)) = records.filter fun r => decide (r.id ≠ id) := by
  induction records with
  | nil => rfl
  | cons x records ih =>
    rw [List.pairwise_cons] at h
    by_cases hx : x.id = id
    · have hrest : ∀ r ∈ records, decide (r.id ≠ id) = true := by
        intro r hr
        exact decide_eq_true fun hid => h.1 r hr (hx.trans hid.symm)
      rw [List.eraseP_cons_of_pos (by simpa using hx), List.filter_cons_of_neg (by simpa using hx),
        List.filter_eq_self.mpr hrest]
    · rw [List.eraseP_cons_of_neg (by simpa using hx), List.filter_cons_of_pos (by simpa using hx), ih h.2]

/-- The record is the one of the id, or below it; without an id every record is meant. -/
def InScope : Option Bytes → ProgramStatus → Prop
  | none, _ => True
  | some id, r => ∃ path, r.id = some path ∧ (path = id ∨ Ancestor (some id) path)

theorem underPath_iff (id : Bytes) (r : ProgramStatus) :
    ProgramStatuses.underPath id r = true ↔ InScope (some id) r := by
  unfold ProgramStatuses.underPath InScope
  rcases hid : r.id with _ | path
  · simp [hid]
  · simp only [hid, Bool.or_eq_true, Bool.and_eq_true, decide_eq_true_eq, Option.some.injEq, exists_eq_left']
    refine or_congr_right ⟨fun h => ?_, fun h => ?_⟩
    · obtain ⟨⟨rest, rfl⟩, hslash⟩ := h
      rw [List.getElem?_append_right (Nat.le_refl _), Nat.sub_self] at hslash
      cases rest with
      | nil => cases hslash
      | cons b rest =>
        cases hslash
        exact ⟨rest, by rw [List.append_assoc]; rfl⟩
    · obtain ⟨rest, rfl⟩ := h
      refine ⟨⟨47 :: rest, by rw [List.append_assoc]; rfl⟩, ?_⟩
      rw [List.append_assoc, List.getElem?_append_right (Nat.le_refl _), Nat.sub_self]
      rfl

theorem inScope_iff (id : Option Bytes) (r : ProgramStatus) : inScope id r = true ↔ InScope id r := by
  cases id with
  | none => exact iff_of_true rfl trivial
  | some id => exact underPath_iff id r

/-! ### The laws of the table -/

/-- What the records come to after the operations. -/
structure Ordered (done : List StatusOp) (records : List ProgramStatus) : Prop where
  sublist : records.Sublist (latest (done.filterMap StatusOp.reported))
  bounded : records.length ≤ maxRecords

theorem Ordered.distinct {done : List StatusOp} {records : List ProgramStatus} (h : Ordered done records) :
    records.Pairwise fun a b => a.id ≠ b.id := (latest_pairwise _).sublist h.sublist

theorem records_removeWhere (now : ℕ) (t : StatusTable) (p : ProgramStatus → Bool) :
    (t.removeWhere now p).1.records = t.records.filter fun r => !p r := rfl

theorem records_report {body : Bytes} {id : Option Bytes} {r : ProgramStatus} (now : ℕ) (t : StatusTable)
    (h : parseStatus body = some (id, some r)) (hdistinct : t.records.Pairwise fun a b => a.id ≠ b.id)
    (hbounded : t.records.length ≤ maxRecords) :
    (t.report now body).1.records =
      (if ∃ x ∈ t.records, x.id = id then t.records.filter fun x => decide (x.id ≠ id)
        else if t.records.length = maxRecords then t.records.tail else t.records) ++ [r] := by
  have hothers := eraseP_eq_filter hdistinct id
  have hreport : (t.report now body).1.records =
      (if (t.records.filter fun x => decide (x.id ≠ id)).length = maxRecords
        then (t.records.filter fun x => decide (x.id ≠ id)).drop 1
        else t.records.filter fun x => decide (x.id ≠ id)) ++ [r] := by
    unfold StatusTable.report
    rw [h, ← hothers]
    rfl
  rw [hreport]
  congr 1
  by_cases hknown : ∃ x ∈ t.records, x.id = id
  · obtain ⟨x, hx, hid⟩ := hknown
    have hlt : (t.records.filter fun x => decide (x.id ≠ id)).length < t.records.length := by
      refine List.length_filter_lt_length_iff_exists.mpr ⟨x, hx, ?_⟩
      simpa using hid
    have hknown : ∃ x ∈ t.records, x.id = id := ⟨x, hx, hid⟩
    rw [if_pos hknown, if_neg (Nat.ne_of_lt (hlt.trans_le hbounded))]
  · have hall : (t.records.filter fun x => decide (x.id ≠ id)) = t.records := by
      refine List.filter_eq_self.mpr fun x hx => ?_
      exact decide_eq_true fun hid => hknown ⟨x, hx, hid⟩
    rw [if_neg hknown, hall, List.drop_one]

/-- **One step.** -/
theorem Ordered.apply {done : List StatusOp} {t : StatusTable} (h : Ordered done t.records) (now : ℕ) (op : StatusOp) :
    Ordered (done ++ [op]) (t.apply now op).1.records := by
  have hremove : ∀ p, op.reported = none → (t.apply now op).1.records = t.records.filter p →
      Ordered (done ++ [op]) (t.apply now op).1.records := by
    intro p hnone hrecords
    rw [hrecords]
    refine ⟨?_, (List.length_filter_le _ _).trans h.bounded⟩
    rw [List.filterMap_append, List.filterMap_cons_none hnone, List.filterMap_nil, List.append_nil]
    exact List.filter_sublist.trans h.sublist
  cases op with
  | clear => exact hremove _ rfl rfl
  | dropTransient => exact hremove _ rfl rfl
  | report body =>
    rcases hparse : parseStatus body with _ | ⟨id, _ | r⟩
    · refine hremove (fun _ => true) ?_ ?_
      · rw [StatusOp.reported, hparse]; rfl
      · rw [StatusTable.apply, StatusTable.report_none hparse]
        exact (List.filter_eq_self.mpr fun _ _ => rfl).symm
    · refine hremove (fun r => !inScope id r) ?_ ?_
      · rw [StatusOp.reported, hparse]; rfl
      · rw [StatusTable.apply, StatusTable.report_clear hparse]
        rfl
    · have hreported : (StatusOp.report body).reported = some r := by
        rw [StatusOp.reported, hparse]; rfl
      have hid := parseStatus_id hparse
      have hkeep := h.sublist.filter fun x => decide (x.id ≠ r.id)
      have hrecords := records_report now t hparse h.distinct h.bounded
      rw [StatusTable.apply, hrecords]
      refine ⟨?_, ?_⟩
      · rw [List.filterMap_append, List.filterMap_cons_some hreported, List.filterMap_nil, latest_append]
        refine List.Sublist.append ?_ (List.Sublist.refl _)
        by_cases hknown : ∃ x ∈ t.records, x.id = id
        · rw [if_pos hknown, ← hid]
          exact hkeep
        · have hall : (t.records.filter fun x => decide (x.id ≠ r.id)) = t.records := by
            refine List.filter_eq_self.mpr fun x hx => ?_
            exact decide_eq_true fun hx' => hknown ⟨x, hx, hx'.trans hid⟩
          rw [if_neg hknown]
          rw [hall] at hkeep
          split_ifs
          · exact (List.tail_sublist _).trans hkeep
          · exact hkeep
      · have hbounded := h.bounded
        rw [List.length_append, List.length_singleton]
        split_ifs with hknown hfull
        · obtain ⟨x, hx, hxid⟩ := hknown
          have hlt : (t.records.filter fun x => decide (x.id ≠ id)).length < t.records.length := by
            refine List.length_filter_lt_length_iff_exists.mpr ⟨x, hx, ?_⟩
            simpa using hxid
          omega
        · rw [List.length_tail, hfull]
          decide
        · omega

theorem ordered_after (ops : List (ℕ × StatusOp)) :
    Ordered (ops.map Prod.snd) (StatusTable.after ops).records := by
  induction ops using List.reverseRecOn with
  | nil => exact ⟨List.nil_sublist _, Nat.zero_le _⟩
  | append_singleton ops op ih =>
    unfold StatusTable.after at ih ⊢
    rw [List.map_append, List.foldl_append]
    exact ih.apply op.1 op.2

/-- The table after the operations. -/
structure TableLaws (done : List StatusOp) (t : StatusTable) : Prop where
  unique : (t.records.map ProgramStatus.id).Nodup
  bounded : t.records.length ≤ maxRecords
  /-- The last reports of their ids, the least recent first. -/
  leastRecentFirst : t.records.Sublist (latest (done.filterMap StatusOp.reported))
  shown : t.current.elim (t.records = []) (IsCurrent t.records)

/-- What one operation does to the table. -/
structure StepLaws (t : StatusTable) : Prop where
  updates : ∀ (now : ℕ) {body : Bytes} {id : Option Bytes} {r : ProgramStatus}, parseStatus body = some (id, some r) →
    (∃ x ∈ t.records, x.id = id) →
    (t.report now body).1.records = (t.records.filter fun x => decide (x.id ≠ id)) ++ [r]
  adds : ∀ (now : ℕ) {body : Bytes} {id : Option Bytes} {r : ProgramStatus}, parseStatus body = some (id, some r) →
    (∀ x ∈ t.records, x.id ≠ id) → t.records.length < maxRecords →
    (t.report now body).1.records = t.records ++ [r]
  /-- A full table loses its oldest record. -/
  evicts : ∀ (now : ℕ) {body : Bytes} {id : Option Bytes} {r : ProgramStatus}, parseStatus body = some (id, some r) →
    (∀ x ∈ t.records, x.id ≠ id) → t.records.length = maxRecords →
    (t.report now body).1.records = t.records.tail ++ [r]
  clears : ∀ (now : ℕ) {body : Bytes} {id : Option Bytes}, parseStatus body = some (id, none) →
    (t.report now body).1.records.Sublist t.records ∧
      ∀ r, r ∈ (t.report now body).1.records ↔ r ∈ t.records ∧ ¬ InScope id r
  cleared : ∀ now, (t.clear now).1.records = []
  prompted : ∀ now, (t.dropTransient now).1.records =
    t.records.filter fun r => !decide (r.state = .working ∨ r.state = .blocked)
  stamped : ∀ now op, (t.apply now op).1.changedAt =
    if (t.apply now op).1.current = t.current then t.changedAt else some now
  malformed : ∀ (now : ℕ) {body : Bytes}, Malformed body → t.report now body = (t, false)

theorem stamped_removeWhere (now : ℕ) (t : StatusTable) (p : ProgramStatus → Bool) :
    (t.removeWhere now p).1.changedAt = if (t.removeWhere now p).1.current = t.current then t.changedAt else some now :=
  ite_not ..

theorem stamped_apply (now : ℕ) (t : StatusTable) (op : StatusOp) :
    (t.apply now op).1.changedAt = if (t.apply now op).1.current = t.current then t.changedAt else some now := by
  cases op with
  | clear => exact stamped_removeWhere now t _
  | dropTransient => exact stamped_removeWhere now t _
  | report body =>
    show (t.report now body).1.changedAt =
      if (t.report now body).1.current = t.current then t.changedAt else some now
    rcases hparse : parseStatus body with _ | ⟨id, _ | r⟩
    · rw [StatusTable.report_none hparse, if_pos rfl]
    · rw [StatusTable.report_clear hparse]
      exact stamped_removeWhere now t _
    · unfold StatusTable.report
      rw [hparse]
      simp only [decide_eq_true_eq]
      exact ite_not ..

theorem clears_scope {body : Bytes} {id : Option Bytes} (now : ℕ) (t : StatusTable)
    (h : parseStatus body = some (id, none)) (r : ProgramStatus) :
    r ∈ (t.report now body).1.records ↔ r ∈ t.records ∧ ¬ InScope id r := by
  rw [StatusTable.report_clear h, records_removeWhere, List.mem_filter, Bool.not_eq_true', ← Bool.not_eq_true,
    inScope_iff]

/-- **The laws of the status table.** After any reports and clears the ids are unique
and at most the cap, the records are the last reports of their ids with the least
recent first, and the one shown is the newest of the highest priority, with the app
of its nearest ancestor. A further operation replaces, appends or pushes out the
oldest; a clear removes what is in its scope; the epoch moves exactly when what is
shown does; a malformed report does nothing. -/
theorem status_table_laws (ops : List (ℕ × StatusOp)) :
    TableLaws (ops.map Prod.snd) (StatusTable.after ops) ∧ StepLaws (StatusTable.after ops) := by
  have hordered := ordered_after ops
  have hdistinct := hordered.distinct
  refine ⟨⟨?_, hordered.bounded, hordered.sublist, ProgramStatuses.current_spec _⟩, ?_⟩
  · exact List.pairwise_map.mpr hdistinct
  refine ⟨?_, ?_, ?_, ?_, fun now => ?_, fun now => rfl, fun now op => stamped_apply now _ op, ?_⟩
  · intro now body id r hparse hknown
    rw [records_report now _ hparse hdistinct hordered.bounded, if_pos hknown]
  · intro now body id r hparse hnew hroom
    rw [records_report now _ hparse hdistinct hordered.bounded, if_neg fun ⟨x, hx, hid⟩ => hnew x hx hid,
      if_neg (Nat.ne_of_lt hroom)]
  · intro now body id r hparse hnew hfull
    rw [records_report now _ hparse hdistinct hordered.bounded, if_neg fun ⟨x, hx, hid⟩ => hnew x hx hid,
      if_pos hfull]
  · intro now body id hparse
    refine ⟨?_, clears_scope now _ hparse⟩
    rw [StatusTable.report_clear hparse]
    exact List.filter_sublist
  · exact List.filter_eq_nil_iff.mpr fun r _ => by simp
  · intro now body hmalformed
    exact StatusTable.report_none ((parseStatus_eq_none_iff body).mpr hmalformed) now _

end Pty
end OpenRelay
