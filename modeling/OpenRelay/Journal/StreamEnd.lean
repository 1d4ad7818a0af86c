/-
# How the reading of an incarnation ends

A reader calls `next_batch` until a call fails or gives an empty batch. What comes
to that is read off the parts (`tell`): the records that are valid, part by part,
and the part at which the reading fails, if there is one. The sizes of the batches
do not matter, except that of a part that fails the records before the damage may
or may not be given (`readToEnd_spec`).

A part that ends within a record ends the reading without an error, wherever it
stands, and a part without records is passed over. So the reading is loud about the
damage of a part that others follow exactly if the first such part is neither torn
nor empty (`stream_fails_loud_iff`).

Key theorem: `pull_spec`.
-/
import OpenRelay.Journal.Stream

namespace OpenRelay
namespace Journal

/-- The bytes of an incarnation's parts. -/
def Dir.files (d : Dir) (N : ℕ) : List Bytes := (d.incarnationSegs N).map fun seg => (d.partData seg).getD []

namespace SegmentStream

/-- The loop of `next_batch`, with what it leaves of the stream also where it fails. -/
def pullLoop (d : Dir) (maxBytes : ℕ) : ℕ → SegmentStream → Except JournalError (List Record) × SegmentStream
  | 0, s => (.ok [], s)
  | turns + 1, s =>
    if s.done then (.ok [], s)
    else match s.parts[s.partIndex]? with
      | none => (.ok [], s.finished)
      | some seg =>
        match d.partData seg with
        | none => (.error (.notFound seg), s)
        | some file =>
          match s.follow (s.scan file maxBytes) with
          -- the records before the damage are counted, and dropped
          | .error e => (.error e, { s with nextSeq := (s.take (s.scan file maxBytes)).nextSeq, done := true })
          | .ok s' =>
            if (s.scan file maxBytes).records = [] then pullLoop d maxBytes turns s'
            else (.ok (s.scan file maxBytes).records, s')

/-- A batch, and the reader even where the batch is an error. -/
def pull (s : SegmentStream) (d : Dir) (maxBytes : ℕ) : Except JournalError (List Record) × SegmentStream :=
  pullLoop d maxBytes (s.parts.length - s.partIndex + 2) s

theorem nextBatchLoop_eq_pullLoop (d : Dir) (maxBytes : ℕ) : ∀ (turns : ℕ) (s : SegmentStream),
    nextBatchLoop d maxBytes turns s =
      (pullLoop d maxBytes turns s).1.map fun batch => (batch, (pullLoop d maxBytes turns s).2)
  | 0, _ => rfl
  | turns + 1, s => by
    unfold nextBatchLoop pullLoop
    split_ifs
    · rfl
    · rcases s.parts[s.partIndex]? with _ | seg
      · rfl
      simp only
      rcases d.partData seg with _ | file
      · rfl
      simp only
      rcases s.follow (s.scan file maxBytes) with e | s'
      · rfl
      · simp only
        split_ifs
        · exact nextBatchLoop_eq_pullLoop d maxBytes turns s'
        · rfl

/-- A call gives what `nextBatch` gives. -/
theorem nextBatch_eq_pull (s : SegmentStream) (d : Dir) (maxBytes : ℕ) :
    s.nextBatch d maxBytes = (s.pull d maxBytes).1.map fun batch => (batch, (s.pull d maxBytes).2) :=
  nextBatchLoop_eq_pullLoop d maxBytes _ s

end SegmentStream

/-- What a reading comes to: the records of its batches, the error that ended it,
if one did, and the stream it leaves. -/
structure Reading where
  records : List Record
  error : Option JournalError
  stream : SegmentStream

/-- Call `next_batch` with one budget after another until a call fails or gives an
empty batch. -/
def SegmentStream.readToEnd (d : Dir) : ℕ → (ℕ → ℕ) → SegmentStream → Reading
  | 0, _, s => ⟨[], none, s⟩
  | turns + 1, budgets, s =>
    match s.pull d (budgets 0) with
    | (.error e, s') => ⟨[], some e, s'⟩
    | (.ok [], s') => ⟨[], none, s'⟩
    | (.ok (r :: batch), s') =>
      let more := s'.readToEnd d turns fun n => budgets (n + 1)
      ⟨r :: batch ++ more.records, more.error, more.stream⟩

/-- A reading of incarnation `N`: every batch but the last has a record, and every
record takes a byte. -/
def SegmentStream.reading (s : SegmentStream) (d : Dir) (N : ℕ) (budgets : ℕ → ℕ) : Reading :=
  s.readToEnd d ((d.files N).flatten.length + 1) budgets

/-! ### What the parts tell -/

/-- The valid records of the parts from part `i` on, with numbers from `a` on, and
the part where a reading fails. -/
def tell : ℕ → ℕ → List Bytes → List Record × Option (ℕ × ScanStop)
  | _, _, [] => ([], none)
  | i, a, rest :: more =>
    match parseRecords (some a) rest with
    | (rs, .cleanEof) => (rs ++ (tell (i + 1) (a + rs.length) more).1, (tell (i + 1) (a + rs.length) more).2)
    | (rs, .partialTail) => (rs, none)
    | (rs, stop) => (rs, some (i, stop))

section Tell

variable {i a : ℕ} {rest : Bytes} {more : List Bytes}

theorem tell_clean {rs : List Record} (h : parseRecords (some a) rest = (rs, .cleanEof)) :
    tell i a (rest :: more) =
      (rs ++ (tell (i + 1) (a + rs.length) more).1, (tell (i + 1) (a + rs.length) more).2) := by
  rw [tell, h]

theorem tell_torn {rs : List Record} (h : parseRecords (some a) rest = (rs, .partialTail)) :
    tell i a (rest :: more) = (rs, none) := by
  rw [tell, h]

theorem tell_corrupt {rs : List Record} {stop : ScanStop} (h : parseRecords (some a) rest = (rs, stop))
    (hclean : stop ≠ .cleanEof) (htorn : stop ≠ .partialTail) : tell i a (rest :: more) = (rs, some (i, stop)) := by
  rw [tell, h]
  cases stop with
  | cleanEof => exact absurd rfl hclean
  | partialTail => exact absurd rfl htorn
  | invalidHeader | unsupportedVersion | unknownKind | oversizeLength | crcMismatch | sequenceDiscontinuity => rfl

/-- The records of the first part come first. -/
theorem prefix_tell : (parseRecords (some a) rest).1 <+: (tell i a (rest :: more)).1 := by
  rcases hp : parseRecords (some a) rest with ⟨rs, stop⟩
  by_cases hclean : stop = .cleanEof
  · rw [tell_clean (hclean ▸ hp)]
    exact List.prefix_append _ _
  by_cases htorn : stop = .partialTail
  · rw [tell_torn (htorn ▸ hp)]
  · rw [tell_corrupt hp hclean htorn]

/-- What is told from within the first part. -/
theorem tell_drop {m : ℕ} (hlt : a + (parseRecords (some a) rest).1.length < 2 ^ 64)
    (hm : m ≤ (parseRecords (some a) rest).1.length) :
    tell i (a + m) (rest.drop (sizeAll ((parseRecords (some a) rest).1.take m)) :: more) =
      ((tell i a (rest :: more)).1.drop m, (tell i a (rest :: more)).2) := by
  have hdrop := parseRecords_drop hlt hm
  rcases hp : parseRecords (some a) rest with ⟨rs, stop⟩
  rw [hp] at hdrop hm
  simp only at hdrop hm ⊢
  by_cases hclean : stop = .cleanEof
  · subst hclean
    have hnext : a + m + (rs.drop m).length = a + rs.length := by
      rw [List.length_drop]
      omega
    rw [tell_clean hdrop, tell_clean hp, hnext, List.drop_append_of_le_length hm]
  by_cases htorn : stop = .partialTail
  · subst htorn
    rw [tell_torn hdrop, tell_torn hp]
  · rw [tell_corrupt hdrop hclean htorn, tell_corrupt hp hclean htorn]

/-- What is told is not longer than the parts. -/
theorem tell_length : ∀ {more : List Bytes} {i a : ℕ}, (tell i a more).1.length ≤ more.flatten.length
  | [], _, _ => le_rfl
  | rest :: more, i, a => by
    have hle : (parseRecords (some a) rest).1.length ≤ rest.length :=
      (sizeAll_length_le _).trans (sizeAll_parseRecords_le (some a) rest)
    rw [List.flatten_cons, List.length_append]
    rcases hp : parseRecords (some a) rest with ⟨rs, stop⟩
    rw [hp] at hle
    simp only at hle
    by_cases hclean : stop = .cleanEof
    · have := @tell_length more (i + 1) (a + rs.length)
      rw [tell_clean (hclean ▸ hp), List.length_append]
      omega
    by_cases htorn : stop = .partialTail
    · rw [tell_torn (htorn ▸ hp)]
      exact Nat.le_add_right_of_le hle
    · rw [tell_corrupt hp hclean htorn]
      exact Nat.le_add_right_of_le hle

/-- The part that fails is one of the parts. -/
theorem le_of_tell : ∀ {more : List Bytes} {i a j : ℕ} {stop : ScanStop}, (tell i a more).2 = some (j, stop) → i ≤ j
  | [], _, _, _, _, h => by cases h
  | rest :: more, i, a, j, stop, h => by
    rcases hp : parseRecords (some a) rest with ⟨rs, stop'⟩
    by_cases hclean : stop' = .cleanEof
    · rw [tell_clean (hclean ▸ hp)] at h
      exact Nat.le_of_succ_le (le_of_tell h)
    by_cases htorn : stop' = .partialTail
    · rw [tell_torn (htorn ▸ hp)] at h
      cases h
    · rw [tell_corrupt hp hclean htorn] at h
      cases h
      exact le_rfl

/-- Parts that read without an error, or not. -/
theorem streamRecords_eq_tell : ∀ (more : List Bytes) (i a : ℕ),
    streamRecords a more = match (tell i a more).2 with
      | none => .ok (tell i a more).1
      | some (_, stop) => .error stop
  | [], _, _ => rfl
  | rest :: more, i, a => by
    rcases hp : parseRecords (some a) rest with ⟨rs, stop⟩
    by_cases hclean : stop = .cleanEof
    · subst hclean
      rw [streamRecords_clean hp, tell_clean hp, streamRecords_eq_tell more (i + 1)]
      simp only
      rcases (tell (i + 1) (a + rs.length) more).2 with _ | ⟨j, stop⟩
      · rfl
      · rfl
    by_cases htorn : stop = .partialTail
    · subst htorn
      rw [tell_torn hp, streamRecords, hp]
    · rw [tell_corrupt hp hclean htorn, streamRecords, hp]
      cases stop with
      | cleanEof => exact absurd rfl hclean
      | partialTail => exact absurd rfl htorn
      | invalidHeader | unsupportedVersion | unknownKind | oversizeLength | crcMismatch | sequenceDiscontinuity => rfl

end Tell

namespace SegmentStream

variable {d : Dir} {s : SegmentStream}

/-! ### One call -/

/-- What the stream has still to tell. -/
def told (s : SegmentStream) (d : Dir) : List Record × Option (ℕ × ScanStop) :=
  tell s.partIndex s.nextSeq (s.remaining d)

theorem told_done (h : s.done = true) : s.told d = ([], none) := by
  rw [told, remaining, if_pos h]
  rfl

theorem remaining_part {seg : Seg} {file : Bytes} (hdone : s.done = false) (hseg : s.parts[s.partIndex]? = some seg)
    (hfile : d.partData seg = some file) :
    s.remaining d = file.drop s.byteOffset ::
      (s.parts.drop (s.partIndex + 1)).map fun seg => (d.partData seg).getD [] := by
  have hlt := (List.getElem?_eq_some_iff.mp hseg).1
  have hdrop : s.parts.drop s.partIndex = seg :: s.parts.drop (s.partIndex + 1) := by
    rw [List.drop_eq_getElem_cons hlt, (List.getElem?_eq_some_iff.mp hseg).2]
  simp only [remaining, hdone, hdrop, hfile, Option.getD_some, Bool.false_eq_true, if_false]

theorem remaining_take {seg : Seg} {file : Bytes} (hdone : s.done = false) (hseg : s.parts[s.partIndex]? = some seg)
    (hfile : d.partData seg = some file) {result : ScanResult} {n : ℕ} (hvalid : result.validLen = s.byteOffset + n) :
    (s.take result).remaining d = (file.drop s.byteOffset).drop n ::
      (s.parts.drop (s.partIndex + 1)).map fun seg => (d.partData seg).getD [] := by
  rw [remaining_part (s := s.take result) hdone hseg hfile]
  show file.drop result.validLen :: _ = _
  rw [hvalid, List.drop_drop]
  rfl

/-- Where a scan of the part `file` leaves the stream. -/
inductive Moves (s : SegmentStream) (file : Bytes) (batch : List Record) (s' : SegmentStream) : Prop where
  | within (hindex : s'.partIndex = s.partIndex) (hoffset : s'.byteOffset = s.byteOffset + sizeAll batch)
      (hbatch : batch <+: (parseRecords (some s.nextSeq) (file.drop s.byteOffset)).1)
  | next (hindex : s'.partIndex = s.partIndex + 1) (hroom : s.partIndex + 1 < s.parts.length)
      (hoffset : s'.byteOffset = 0) (hclean : parseRecords (some s.nextSeq) (file.drop s.byteOffset) = (batch, .cleanEof))

/-- How a scan of a part leaves the stream. -/
inductive Turn (d : Dir) (s : SegmentStream) (file : Bytes) (batch : List Record) :
    Except JournalError SegmentStream → Prop where
  | goesOn {s' : SegmentStream} (hbatch : batch = (s.told d).1.take batch.length)
      (hle : batch.length ≤ (s.told d).1.length)
      (htold : s'.told d = ((s.told d).1.drop batch.length, (s.told d).2)) (hnext : s'.nextSeq = s.nextSeq + batch.length)
      (hparts : s'.parts = s.parts) (hturn : batch = [] → s'.done = true ∨ s'.partIndex = s.partIndex + 1)
      (hmoves : Moves s file batch s') :
      Turn d s file batch (.ok s')
  | fails {stop : ScanStop} (htold : (s.told d).2 = some (s.partIndex, stop)) :
      Turn d s file batch (.error (.corrupt stop))

/-- **One scan.** -/
theorem turn_spec {seg : Seg} {file : Bytes} (maxBytes : ℕ) (hdone : s.done = false)
    (hseg : s.parts[s.partIndex]? = some seg) (hfile : d.partData seg = some file)
    (hbound : s.nextSeq + (s.told d).1.length < 2 ^ 64) :
    Turn d s file (s.scan file maxBytes).records (s.follow (s.scan file maxBytes)) := by
  have hrem := remaining_part hdone hseg hfile
  generalize hmoreEq : ((s.parts.drop (s.partIndex + 1)).map fun seg => (d.partData seg).getD []) = more at hrem
  have htoldEq : s.told d = tell s.partIndex s.nextSeq (file.drop s.byteOffset :: more) := by rw [told, hrem]
  have hpre : (parseRecords (some s.nextSeq) (file.drop s.byteOffset)).1 <+: (s.told d).1 := by
    rw [htoldEq]
    exact prefix_tell
  have hplt : s.nextSeq + (parseRecords (some s.nextSeq) (file.drop s.byteOffset)).1.length < 2 ^ 64 := by
    have := hpre.length_le
    omega
  obtain ⟨m, st, hst, hoff, hout⟩ := scan_outcome maxBytes hplt
  have hdrop := @tell_drop s.partIndex s.nextSeq (file.drop s.byteOffset) more m hplt hout.le
  have hrec : (s.scan file maxBytes).records = (parseRecords (some s.nextSeq) (file.drop s.byteOffset)).1.take m := by
    rw [hout.records, hst, List.nil_append]
  have hlen : (s.scan file maxBytes).records.length = m := by
    rw [hrec, List.length_take, Nat.min_eq_left hout.le]
  have hnext := take_nextSeq (parseRecords_numbered hplt) hout.le hrec
  have hvalid : (s.scan file maxBytes).validLen = s.byteOffset +
      sizeAll ((parseRecords (some s.nextSeq) (file.drop s.byteOffset)).1.take m) := by
    rw [hout.validLen, hoff]
  have hrem' := remaining_take hdone hseg hfile hvalid
  rw [hmoreEq] at hrem'
  have htake : (s.take (s.scan file maxBytes)).told d = ((s.told d).1.drop m, (s.told d).2) := by
    show tell s.partIndex (s.take (s.scan file maxBytes)).nextSeq _ = _
    rw [hrem', hnext, hdrop, ← htoldEq]
  have hbatch : (s.scan file maxBytes).records = (s.told d).1.take m := by
    rw [hrec, List.prefix_iff_eq_take.mp hpre, List.take_take, Nat.min_eq_left hout.le]
  have hle : m ≤ (s.told d).1.length := hout.le.trans hpre.length_le
  have hwithin : ∀ s' : SegmentStream, s'.partIndex = s.partIndex →
      s'.byteOffset = (s.scan file maxBytes).validLen → Moves s file (s.scan file maxBytes).records s' := by
    intro s' hindex hoffset
    refine .within hindex ?_ ?_
    · rw [hoffset, hvalid, hrec]
    · rw [hrec]
      exact List.take_prefix _ _
  rcases hout.ends with ⟨htrunc, hstop, hne⟩ | ⟨htrunc, hall, hstop⟩
  · -- the budget ran out within the part
    have hfollow : s.follow (s.scan file maxBytes) = .ok (s.take (s.scan file maxBytes)) := by
      rw [follow, hstop]
      simp only [htrunc, if_true]
    rw [hfollow]
    refine .goesOn (by rw [hlen]; exact hbatch) (by rw [hlen]; exact hle) (by rw [hlen]; exact htake)
      (by rw [hlen]; exact hnext) rfl (fun hnil => ?_) (hwithin _ rfl rfl)
    rw [hst, List.nil_append, ← hrec] at hne
    exact absurd hnil hne
  · rcases hp : parseRecords (some s.nextSeq) (file.drop s.byteOffset) with ⟨rs, stop⟩
    rw [hp] at hstop hall
    simp only at hstop hall
    -- nothing is left to tell once the reading ends here
    have hends : s.follow (s.scan file maxBytes) = .ok (s.take (s.scan file maxBytes)).finished →
        (s.told d).1.drop m = [] → (s.told d).2 = none →
        Turn d s file (s.scan file maxBytes).records (s.follow (s.scan file maxBytes)) := by
      intro hfollow hnone herr
      rw [hfollow]
      refine .goesOn (by rw [hlen]; exact hbatch) (by rw [hlen]; exact hle) ?_ (by rw [hlen]; exact hnext) rfl
        (fun _ => .inl rfl) (hwithin _ rfl rfl)
      rw [told_done rfl, hlen, hnone, herr]
    by_cases hclean : stop = .cleanEof
    · subst hclean
      rw [tell_clean hp] at htoldEq
      by_cases hlast : s.partIndex + 1 < s.parts.length
      · have hfollow : s.follow (s.scan file maxBytes) = .ok (s.take (s.scan file maxBytes)).nextPart := by
          rw [follow, hstop]
          simp only [htrunc, Bool.false_eq_true, if_false, hlast, if_true]
        rw [hfollow]
        refine .goesOn (by rw [hlen]; exact hbatch) (by rw [hlen]; exact hle) ?_ (by rw [hlen]; exact hnext) rfl
          (fun _ => .inr rfl) (.next rfl hlast rfl ?_)
        · have hremNext : (s.take (s.scan file maxBytes)).nextPart.remaining d = more := by
            rw [← hmoreEq]
            exact remaining_nextPart (s.take (s.scan file maxBytes)) hdone
          show tell (s.partIndex + 1) (s.take (s.scan file maxBytes)).nextSeq _ = _
          rw [hremNext, hnext, hlen, htoldEq, hall, List.drop_left]
        · rw [hp, hrec, hall, hp, List.take_length]
      · have hnil : more = [] := by
          rw [← hmoreEq, List.drop_eq_nil_of_le (by omega)]
          rfl
        rw [hnil] at htoldEq
        refine hends ?_ ?_ ?_
        · rw [follow, hstop]
          simp only [htrunc, Bool.false_eq_true, if_false, hlast]
        · rw [htoldEq, hall]
          exact List.drop_left
        · rw [htoldEq]
          rfl
    by_cases htorn : stop = .partialTail
    · subst htorn
      rw [tell_torn hp] at htoldEq
      refine hends ?_ ?_ ?_
      · rw [follow, hstop]
      · rw [htoldEq, hall]
        exact List.drop_length
      · rw [htoldEq]
    · rw [tell_corrupt hp hclean htorn] at htoldEq
      have hfollow : s.follow (s.scan file maxBytes) = .error (.corrupt stop) := by
        rw [follow, hstop]
        cases stop with
        | cleanEof => exact absurd rfl hclean
        | partialTail => exact absurd rfl htorn
        | invalidHeader | unsupportedVersion | unknownKind | oversizeLength | crcMismatch | sequenceDiscontinuity => rfl
      rw [hfollow]
      exact .fails (by rw [htoldEq])

/-- How a call leaves the stream. -/
inductive Pulled (d : Dir) (s : SegmentStream) : Except JournalError (List Record) × SegmentStream → Prop where
  | batch {m : ℕ} {s' : SegmentStream} (hle : m ≤ (s.told d).1.length)
      (htold : s'.told d = ((s.told d).1.drop m, (s.told d).2)) (hnext : s'.nextSeq = s.nextSeq + m)
      (hparts : s'.parts = s.parts) (hzero : m = 0 → (s.told d).1 = [] ∧ (s.told d).2 = none) :
      Pulled d s (.ok ((s.told d).1.take m), s')
  | failed {stop : ScanStop} {s' : SegmentStream} (htold : (s.told d).2 = some (s'.partIndex, stop)) :
      Pulled d s (.error (.corrupt stop), s')

theorem pullLoop_spec (maxBytes : ℕ) : ∀ (turns : ℕ) {s : SegmentStream}, (∀ seg ∈ s.parts, (d.partData seg).isSome) →
    s.nextSeq + (s.told d).1.length < 2 ^ 64 → (s.done = false → s.parts.length - s.partIndex + 1 < turns) → 0 < turns →
    Pulled d s (pullLoop d maxBytes turns s)
  | 0, _, _, _, _, hpos => absurd hpos (lt_irrefl _)
  | turns + 1, s, hparts, hbound, hturns, _ => by
    unfold pullLoop
    have hnothing : ∀ s' : SegmentStream, s.told d = ([], none) → s'.told d = ([], none) → s'.nextSeq = s.nextSeq →
        s'.parts = s.parts → Pulled d s (.ok [], s') := by
      intro s' htold htold' hnext hparts'
      have : Pulled d s (.ok ((s.told d).1.take 0), s') := by
        refine .batch (Nat.zero_le _) ?_ hnext hparts' fun _ => by rw [htold]; exact ⟨rfl, rfl⟩
        rw [htold', htold]
        rfl
      exact this
    by_cases hdone : s.done = true
    · rw [if_pos hdone]
      exact hnothing s (told_done hdone) (told_done hdone) rfl rfl
    have hdone' : s.done = false := by simpa using hdone
    have hlt := hturns hdone'
    rw [if_neg hdone]
    rcases hseg : s.parts[s.partIndex]? with _ | seg
    · have htold : s.told d = ([], none) := by
        rw [told, remaining, if_neg hdone, List.drop_eq_nil_of_le (List.getElem?_eq_none_iff.mp hseg)]
        rfl
      exact hnothing s.finished htold (told_done rfl) rfl rfl
    obtain ⟨file, hfile⟩ := Option.isSome_iff_exists.mp (hparts seg (List.mem_of_getElem? hseg))
    have hidx := (List.getElem?_eq_some_iff.mp hseg).1
    have hturn := turn_spec maxBytes hdone' hseg hfile hbound
    simp only [hfile]
    rcases hfollow : s.follow (s.scan file maxBytes) with e | s'
    · rw [hfollow] at hturn
      cases hturn with
      | fails htold => exact .failed htold
    · rw [hfollow] at hturn
      cases hturn with
      | goesOn hbatch hle htold hnext hparts' hturn _ =>
        simp only
        by_cases hnil : (s.scan file maxBytes).records = []
        · -- nothing in this part: the stream ends, or goes on to the next part
          rw [if_pos hnil]
          rw [hnil, List.length_nil, List.drop_zero] at htold
          rw [hnil, List.length_nil, Nat.add_zero] at hnext
          have hrest := pullLoop_spec maxBytes turns (s := s') (by rw [hparts']; exact hparts)
            (by rw [hnext, htold]; exact hbound) (fun hd' => by
              rcases hturn hnil with hd | hi
              · rw [hd] at hd'
                cases hd'
              · rw [hparts', hi]
                omega) (by omega)
          generalize pullLoop d maxBytes turns s' = pulled at hrest
          cases hrest with
          | batch hle' htold' hnext' hparts'' hzero' =>
            rw [htold] at hle' htold' hzero' ⊢
            exact .batch hle' htold' (hnext'.trans (by rw [hnext])) (hparts''.trans hparts') hzero'
          | failed htold' =>
            rw [htold] at htold'
            exact .failed htold'
        · rw [if_neg hnil]
          have hpos := List.length_pos_of_ne_nil hnil
          rw [hbatch]
          exact .batch hle htold hnext hparts' fun h0 => by omega

/-- **One call.** It gives a beginning of what is told, and nothing only if nothing
is left; or it fails, at the part that is told. -/
theorem pull_spec (hparts : ∀ seg ∈ s.parts, (d.partData seg).isSome)
    (hbound : s.nextSeq + (s.told d).1.length < 2 ^ 64) (maxBytes : ℕ) : Pulled d s (s.pull d maxBytes) :=
  pullLoop_spec maxBytes _ hparts hbound (fun _ => by omega) (by omega)

/-! ### To the end -/

/-- What a reading comes to. -/
structure ReadsTold (told : List Record × Option (ℕ × ScanStop)) (reading : Reading) : Prop where
  records : reading.records <+: told.1
  whole : told.2 = none → reading.error = none ∧ reading.records = told.1
  failed : ∀ i stop, told.2 = some (i, stop) → reading.error = some (.corrupt stop) ∧ reading.stream.partIndex = i

/-- **A reading.** Whatever the budgets are, it gives what the parts tell. -/
theorem readToEnd_spec : ∀ (turns : ℕ) (budgets : ℕ → ℕ) {s : SegmentStream},
    (∀ seg ∈ s.parts, (d.partData seg).isSome) → s.nextSeq + (s.told d).1.length < 2 ^ 64 →
    (s.told d).1.length < turns → ReadsTold (s.told d) (s.readToEnd d turns budgets)
  | 0, _, _, _, _, hlt => absurd hlt (Nat.not_lt_zero _)
  | turns + 1, budgets, s, hparts, hbound, hlt => by
    have hpull := pull_spec hparts hbound (budgets 0)
    unfold readToEnd
    generalize s.pull d (budgets 0) = pulled at hpull
    cases hpull with
    | @failed stop s' htold =>
      refine ⟨List.nil_prefix, fun hnone => ?_, fun i stop' hsome => ?_⟩
      · rw [htold] at hnone
        cases hnone
      · rw [htold] at hsome
        cases hsome
        exact ⟨rfl, rfl⟩
    | @batch m s' hle htold hnext hparts' hzero =>
      rcases hbatch : (s.told d).1.take m with _ | ⟨r, batch⟩
      · have hm : m = 0 ∨ (s.told d).1 = [] := List.take_eq_nil_iff.mp hbatch
        have hnil : (s.told d).1 = [] := hm.elim (fun h0 => (hzero h0).1) id
        have hnone : (s.told d).2 = none := by
          refine hm.elim (fun h0 => (hzero h0).2) fun hnil => ?_
          rw [hnil, List.length_nil, Nat.le_zero] at hle
          exact (hzero hle).2
        refine ⟨List.nil_prefix, fun _ => ⟨rfl, hnil.symm⟩, fun i stop hsome => ?_⟩
        rw [hnone] at hsome
        cases hsome
      · have hpos : 0 < m := by
          by_contra h0
          rw [Nat.le_zero.mp (not_lt.mp h0), List.take_zero] at hbatch
          cases hbatch
        have hrest := readToEnd_spec turns (fun n => budgets (n + 1)) (s := s') (by rw [hparts']; exact hparts)
          (by rw [hnext, htold, List.length_drop]; omega) (by rw [htold, List.length_drop]; omega)
        rw [htold] at hrest
        have hsplit : r :: batch ++ (s.told d).1.drop m = (s.told d).1 := by
          rw [← hbatch, List.take_append_drop]
        refine ⟨?_, fun hnone => ?_, hrest.failed⟩
        · have := (List.prefix_append_right_inj (r :: batch)).mpr hrest.records
          rw [hsplit] at this
          exact this
        · obtain ⟨herr, hrecords⟩ := hrest.whole hnone
          refine ⟨herr, ?_⟩
          show r :: batch ++ _ = _
          rw [hrecords, hsplit]

/-- The stream's list of parts is the directory's, and it has not ended: it was
opened or refreshed. -/
structure Positioned (d : Dir) (N : ℕ) (s : SegmentStream) : Prop where
  parts : s.parts = d.incarnationSegs N
  done : s.done = false

/-- Look for parts again, without losing the place. -/
def refresh (s : SegmentStream) (d : Dir) (incarnation : ℕ) : Except JournalError SegmentStream :=
  match incarnationParts d incarnation with
  | .error e => .error e
  | .ok parts => .ok { s with parts := parts, done := false }

theorem incarnationParts_ok {N : ℕ} {parts : List Seg} (h : incarnationParts d N = .ok parts) :
    parts = d.incarnationSegs N := by
  unfold incarnationParts at h
  split_ifs at h
  exact (Except.ok.inj h).symm

theorem positioned_open {N : ℕ} (h : SegmentStream.open d N = .ok s) : Positioned d N s := by
  unfold SegmentStream.open at h
  rcases hparts : incarnationParts d N with e | parts
  · rw [hparts] at h
    cases h
  · rw [hparts] at h
    cases h
    exact ⟨incarnationParts_ok hparts, rfl⟩

theorem positioned_refresh {N : ℕ} {s' : SegmentStream} (h : s.refresh d N = .ok s') : Positioned d N s' := by
  unfold refresh at h
  rcases hparts : incarnationParts d N with e | parts
  · rw [hparts] at h
    cases h
  · rw [hparts] at h
    cases h
    exact ⟨incarnationParts_ok hparts, rfl⟩

theorem Positioned.isSome {N : ℕ} (h : Positioned d N s) : ∀ seg ∈ s.parts, (d.partData seg).isSome := by
  intro seg hseg
  rw [h.parts] at hseg
  rw [Dir.partData, Option.isSome_map]
  exact (mem_incarnationSegs.mp hseg).1

/-- The bytes that are left are bytes of the incarnation. -/
theorem Positioned.remaining_length {N : ℕ} (h : Positioned d N s) :
    (s.remaining d).flatten.length ≤ (d.files N).flatten.length := by
  have hdrop : ((s.parts.drop s.partIndex).map fun seg => (d.partData seg).getD []).flatten.length ≤
      (d.files N).flatten.length := by
    rw [Dir.files, ← h.parts]
    conv_rhs => rw [← List.take_append_drop s.partIndex s.parts]
    rw [List.map_append, List.flatten_append, List.length_append]
    exact Nat.le_add_left _ _
  unfold remaining
  rw [h.done]
  rcases hsegs : s.parts.drop s.partIndex with _ | ⟨seg, segs⟩
  · exact Nat.zero_le _
  · rw [hsegs, List.map_cons, List.flatten_cons, List.length_append] at hdrop
    simp only [Bool.false_eq_true, if_false, List.flatten_cons, List.length_append, List.length_drop]
    omega

/-- **A reading from any place.** -/
theorem reading_spec {N : ℕ} (h : Positioned d N s) (hbound : s.nextSeq + (s.told d).1.length < 2 ^ 64)
    (budgets : ℕ → ℕ) : ReadsTold (s.told d) (s.reading d N budgets) :=
  readToEnd_spec _ budgets h.isSome hbound (Nat.lt_succ_of_le (tell_length.trans h.remaining_length))

end SegmentStream

/-! ### Loud and silent damage -/

/-- What may be wrong with a part that others follow. -/
inductive PartFault where
  | torn
  | empty
  | corrupt (stop : ScanStop)
  deriving DecidableEq, Repr

/-- What is wrong with a part that is read from `offset` on. -/
def faultOf (offset : ℕ) : List Record × ScanStop → Option PartFault
  | (rs, .cleanEof) => if offset = 0 ∧ rs = [] then some .empty else none
  | (_, .partialTail) => some .torn
  | (_, stop) => some (.corrupt stop)

/-- The first part with something wrong, of all but the last. -/
def firstFault : ℕ → ℕ → ℕ → List Bytes → Option (ℕ × PartFault)
  | _, _, _, [] => none
  | _, _, _, [_] => none
  | i, a, offset, rest :: next :: more =>
    match faultOf offset (parseRecords (some a) rest) with
    | some fault => some (i, fault)
    | none => firstFault (i + 1) (a + (parseRecords (some a) rest).1.length) 0 (next :: more)

/-- Every valid record of the parts. -/
def everyRecord : ℕ → List Bytes → List Record
  | _, [] => []
  | a, rest :: more =>
    (parseRecords (some a) rest).1 ++ everyRecord (a + (parseRecords (some a) rest).1.length) more

/-- What is wrong with the part the stream is in, or with one of those that follow,
up to the last. -/
def SegmentStream.fault (s : SegmentStream) (d : Dir) : Option (ℕ × PartFault) :=
  firstFault s.partIndex s.nextSeq s.byteOffset (s.remaining d)

/-- A damaged part that others follow is reported where it stands, and a reading
ends without an error only with every record. -/
structure FailsLoud (d : Dir) (N : ℕ) (s : SegmentStream) (budgets : ℕ → ℕ) : Prop where
  reported : ∀ i fault, s.fault d = some (i, fault) →
    (s.reading d N budgets).error.isSome ∧ (s.reading d N budgets).stream.partIndex = i
  complete : (s.reading d N budgets).error = none →
    (s.reading d N budgets).records = everyRecord s.nextSeq (s.remaining d)

section Faults

variable {i a offset : ℕ} {rest next : Bytes} {more : List Bytes}

theorem firstFault_cons :
    firstFault i a offset (rest :: next :: more) = match faultOf offset (parseRecords (some a) rest) with
      | some fault => some (i, fault)
      | none => firstFault (i + 1) (a + (parseRecords (some a) rest).1.length) 0 (next :: more) := rfl

theorem faultOf_eq_none {p : List Record × ScanStop} (h : faultOf offset p = none) : p.2 = .cleanEof := by
  obtain ⟨rs, stop⟩ := p
  cases stop with
  | cleanEof => rfl
  | partialTail => cases h
  | invalidHeader | unsupportedVersion | unknownKind | oversizeLength | crcMismatch | sequenceDiscontinuity => cases h

theorem faultOf_eq_some {p : List Record × ScanStop} {fault : PartFault} (h : faultOf offset p = some fault) :
    fault = .empty ∧ p.2 = .cleanEof ∨ fault = .torn ∧ p.2 = .partialTail ∨
      fault = .corrupt p.2 ∧ p.2 ≠ .cleanEof ∧ p.2 ≠ .partialTail := by
  obtain ⟨rs, stop⟩ := p
  cases stop with
  | cleanEof =>
    rw [faultOf] at h
    split_ifs at h
    exact .inl ⟨(Option.some.inj h).symm, rfl⟩
  | partialTail => exact .inr (.inl ⟨(Option.some.inj h).symm, rfl⟩)
  | invalidHeader | unsupportedVersion | unknownKind | oversizeLength | crcMismatch | sequenceDiscontinuity =>
    exact .inr (.inr ⟨(Option.some.inj h).symm, nofun, nofun⟩)

/-- What is told of parts the first of which is read to its end. -/
theorem tell_of_clean (h : (parseRecords (some a) rest).2 = .cleanEof) :
    tell i a (rest :: more) =
      ((parseRecords (some a) rest).1 ++ (tell (i + 1) (a + (parseRecords (some a) rest).1.length) more).1,
        (tell (i + 1) (a + (parseRecords (some a) rest).1.length) more).2) := by
  refine tell_clean (Prod.ext rfl h)

/-- A damaged part that is not torn and not empty is where the reading fails. -/
theorem tell_of_corrupt : ∀ {files : List Bytes} {i a offset j : ℕ} {stop : ScanStop},
    firstFault i a offset files = some (j, .corrupt stop) → (tell i a files).2 = some (j, stop)
  | [], _, _, _, _, _, h => by cases h
  | [_], _, _, _, _, _, h => by cases h
  | rest :: next :: more, i, a, offset, j, stop, h => by
    rw [firstFault_cons] at h
    rcases hfault : faultOf offset (parseRecords (some a) rest) with _ | fault
    · rw [hfault] at h
      rw [tell_of_clean (faultOf_eq_none hfault)]
      exact tell_of_corrupt h
    · rw [hfault] at h
      cases h
      rcases faultOf_eq_some hfault with ⟨hf, -⟩ | ⟨hf, -⟩ | ⟨hf, hclean, htorn⟩
      · cases hf
      · cases hf
      · cases hf
        rw [tell_corrupt (Prod.ext rfl rfl) hclean htorn]
        rfl

/-- A torn part ends the reading without an error. -/
theorem tell_of_torn : ∀ {files : List Bytes} {i a offset j : ℕ}, firstFault i a offset files = some (j, .torn) →
    (tell i a files).2 = none
  | [], _, _, _, _, h => by cases h
  | [_], _, _, _, _, h => by cases h
  | rest :: next :: more, i, a, offset, j, h => by
    rw [firstFault_cons] at h
    rcases hfault : faultOf offset (parseRecords (some a) rest) with _ | fault
    · rw [hfault] at h
      rw [tell_of_clean (faultOf_eq_none hfault)]
      exact tell_of_torn h
    · rw [hfault] at h
      cases h
      rcases faultOf_eq_some hfault with ⟨hf, -⟩ | ⟨-, htorn⟩ | ⟨hf, -⟩
      · cases hf
      · rw [tell_torn (Prod.ext rfl htorn)]
      · cases hf

/-- An empty part is passed over: what fails is a later part. -/
theorem lt_of_empty : ∀ {files : List Bytes} {i a offset j k : ℕ} {stop : ScanStop},
    firstFault i a offset files = some (j, .empty) → (tell i a files).2 = some (k, stop) → j < k
  | [], _, _, _, _, _, _, h, _ => by cases h
  | [_], _, _, _, _, _, _, h, _ => by cases h
  | rest :: next :: more, i, a, offset, j, k, stop, h, htell => by
    rw [firstFault_cons] at h
    rcases hfault : faultOf offset (parseRecords (some a) rest) with _ | fault
    · rw [hfault] at h
      rw [tell_of_clean (faultOf_eq_none hfault)] at htell
      exact lt_of_empty h htell
    · rw [hfault] at h
      cases h
      rcases faultOf_eq_some hfault with ⟨-, hclean⟩ | ⟨hf, -⟩ | ⟨hf, -⟩
      · rw [tell_of_clean hclean] at htell
        exact le_of_tell htell
      · cases hf
      · cases hf

/-- Sound parts, read without an error, are read whole. -/
theorem tell_of_sound : ∀ {files : List Bytes} {i a offset : ℕ}, firstFault i a offset files = none →
    (tell i a files).2 = none → (tell i a files).1 = everyRecord a files
  | [], _, _, _, _, _ => rfl
  | [rest], i, a, offset, _, h => by
    show _ = (parseRecords (some a) rest).1 ++ []
    rw [List.append_nil]
    by_cases hclean : (parseRecords (some a) rest).2 = .cleanEof
    · rw [tell_of_clean hclean]
      exact List.append_nil _
    by_cases htorn : (parseRecords (some a) rest).2 = .partialTail
    · rw [tell_torn (Prod.ext rfl htorn)]
    · rw [tell_corrupt (Prod.ext rfl rfl) hclean htorn] at h
      cases h
  | rest :: next :: more, i, a, offset, hsound, h => by
    rw [firstFault_cons] at hsound
    rcases hfault : faultOf offset (parseRecords (some a) rest) with _ | fault
    · rw [hfault] at hsound
      rw [tell_of_clean (faultOf_eq_none hfault)] at h ⊢
      show _ ++ _ = _ ++ everyRecord _ (next :: more)
      rw [tell_of_sound hsound h]
    · rw [hfault] at hsound
      cases hsound

end Faults

/-- **Silent damage.** From wherever it stands in the parts of the directory, with
any budgets, a stream is loud about the damage of a part that others follow exactly
if the first such part is neither torn nor empty. -/
theorem stream_fails_loud_iff {d : Dir} {N : ℕ} {s : SegmentStream} (hs : SegmentStream.Positioned d N s)
    (hlen : s.nextSeq + (d.files N).flatten.length < 2 ^ 64) (budgets : ℕ → ℕ) :
    FailsLoud d N s budgets ↔ ∀ i fault, s.fault d = some (i, fault) → ∃ stop, fault = .corrupt stop := by
  have htold : (s.told d).1.length ≤ (d.files N).flatten.length := tell_length.trans hs.remaining_length
  have hreads := SegmentStream.reading_spec hs (by omega) budgets
  constructor
  · intro hloud i fault hfault
    obtain ⟨herror, hindex⟩ := hloud.reported i fault hfault
    cases fault with
    | corrupt stop => exact ⟨stop, rfl⟩
    | torn =>
      rw [(hreads.whole (tell_of_torn hfault)).1] at herror
      cases herror
    | empty =>
      rcases htold : (s.told d).2 with _ | ⟨k, stop⟩
      · rw [(hreads.whole htold).1] at herror
        cases herror
      · have hlt := lt_of_empty hfault htold
        rw [(hreads.failed k stop htold).2] at hindex
        omega
  · intro hloud
    refine ⟨fun i fault hfault => ?_, fun hclean => ?_⟩
    · obtain ⟨stop, rfl⟩ := hloud i fault hfault
      obtain ⟨herror, hindex⟩ := hreads.failed i stop (tell_of_corrupt hfault)
      exact ⟨by rw [herror]; rfl, hindex⟩
    · have hnone : (s.told d).2 = none := by
        rcases htold : (s.told d).2 with _ | ⟨k, stop⟩
        · rfl
        · rw [(hreads.failed k stop htold).1] at hclean
          cases hclean
      have hsound : s.fault d = none := by
        rcases hfault : s.fault d with _ | ⟨i, fault⟩
        · rfl
        · obtain ⟨stop, rfl⟩ := hloud i fault hfault
          have := tell_of_corrupt hfault
          rw [show (tell _ _ _).2 = none from hnone] at this
          cases this
      rw [(hreads.whole hnone).2]
      exact tell_of_sound hsound hnone

/-- Two records, one to a part; of the second part's record the first part has the
beginning as well. -/
def tornDir : Dir :=
  let r : ℕ → Record := fun seq => ⟨.output, seq, 0, [65]⟩
  ⟨(SortedMap.empty.insert ⟨1, 1⟩ ⟨(r 1).encode ++ (r 2).encode.take 5, []⟩).insert ⟨1, 2⟩ ⟨(r 2).encode, []⟩, none⟩

/-- The stream over it. -/
def tornStream : SegmentStream := ⟨[⟨1, 1⟩, ⟨1, 2⟩], 0, 0, 1, false⟩

/-- The reading ends after the first record, without an error. -/
theorem torn_part_is_silent :
    SegmentStream.open tornDir 1 = .ok tornStream ∧ tornStream.fault tornDir = some (0, .torn) ∧
      (everyRecord 1 (tornDir.files 1)).length = 2 ∧
      (tornStream.reading tornDir 1 fun _ => 100).records.length = 1 ∧
      (tornStream.reading tornDir 1 fun _ => 100).error = none ∧
      ¬ FailsLoud tornDir 1 tornStream fun _ => 100 := by
  have hreading : (tornStream.reading tornDir 1 fun _ => 100).error = none := by decide +kernel
  have hfault : tornStream.fault tornDir = some (0, .torn) := by decide +kernel
  refine ⟨by decide +kernel, hfault, by decide +kernel, by decide +kernel, hreading, fun hloud => ?_⟩
  have := (hloud.reported 0 .torn hfault).1
  rw [hreading] at this
  cases this

theorem stream_fails_loud_iff_torn :
    FailsLoud tornDir 1 tornStream (fun _ => 100) ↔
      ∀ i fault, tornStream.fault tornDir = some (i, fault) → ∃ stop, fault = .corrupt stop := by
  have hparts : tornStream.parts = tornDir.incarnationSegs 1 := by decide +kernel
  exact stream_fails_loud_iff ⟨hparts, rfl⟩ (by decide +kernel) fun _ => 100

end Journal
end OpenRelay
