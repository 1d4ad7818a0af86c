/-
# Screen histories, warm and cold

The daemon keeps the replays it computed screen histories with, and goes on with one
when it is asked again (`logs/screen_history.rs`, `collect_impl`): if the session
still has the same incarnation, the replay has room for as many captures or rows, and
the parts it was computed from are still there and not shorter. A request takes its
replay out of the cache, replays what was recorded since, and puts it back; other
requests and the journals go on between.

A replay in the cache has seen a beginning of its incarnation (`Seeing`), as long as
that is the latest one. So a request that succeeds answers what it would with an
empty cache (`warm_screen_history`), and the cache stays within its limit.

Key theorems: `update_place`, `collectFinish_ok`, `readersInv_step`.
-/
import OpenRelay.Session.Following
import OpenRelay.Session.ScreenReplay

namespace OpenRelay
namespace Session

open Journal Pty BoundedQueue

/-! ### The code -/

/-- The parts, each with its length and which file it is. -/
abbrev Fingerprint := List (Seg × ℕ × ℕ)

/-- A replay that is cached. -/
structure Entry (D E : Type) where
  dir : D
  incarnation : ℕ
  fingerprint : Fingerprint
  replay : ScreenReplay E

def fingerprint (d : Dir) (identity : Seg → ℕ) (incarnation : ℕ) : Except HistoryError Fingerprint :=
  match incarnationParts d incarnation with
  | .error e => .error (.journal e)
  | .ok parts => .ok (parts.map fun seg => (seg, ((d.partData seg).getD []).length, identity seg))

/-- Every part is still there: the same file, and not shorter. -/
def stillThere (old new : Fingerprint) : Bool :=
  old.all fun part => new.any fun part' => decide (part'.1 = part.1 ∧ part.2.1 ≤ part'.2.1 ∧ part'.2.2 = part.2.2)

/-- A request that is replaying. -/
structure Flight (D E : Type) where
  dir : D
  request : Request
  incarnation : ℕ
  current : Fingerprint
  replay : ScreenReplay E

/-- What comes of a request at first. -/
inductive Begun (D E : Type) where
  | refused (e : HistoryError)
  | answered (history : ScreenHistory)
  | replaying (flight : Flight D E)

/-- The request asks for no more than there may be. -/
def Request.inRange (req : Request) : Bool := decide (req.count ≤ if req.tail then maxTailRows else maxCaptures)

section Code

variable {D E : Type} [DecidableEq D] (T : Terminal E) (bare : Bool) (identity : Seg → ℕ)

/-- The replay of an entry may be gone on with. -/
def Entry.valid (e : Entry D E) (incarnation count : ℕ) (current : Fingerprint) : Bool :=
  decide (e.incarnation = incarnation ∧ count ≤ e.replay.capacity) && stillThere e.fingerprint current

/-- `collect_impl` until it has a replay to go on with. -/
def collectBegin (dir : D) (d : Dir) (entries : List (Entry D E)) (req : Request) : Begun D E × List (Entry D E) :=
  if req.inRange = false then (.refused (.invalidInput "log count exceeds supported range"), entries)
  else
    let incarnation := (listIncarnations d).getLast?.getD 0
    if req.count = 0 ∨ incarnation = 0 then
      (.answered ⟨[], ⟨incarnation, req.fromOffset⟩, defaultCols⟩, entries)
    else match fingerprint d identity incarnation with
      | .error e => (.refused e, entries)
      | .ok current =>
        let mine := fun e : Entry D E => decide (e.dir = dir ∧ e.replay.tail = req.tail)
        match (entries.find? mine).filter fun e => e.valid incarnation req.count current with
        | some e => (.replaying ⟨dir, req, incarnation, current, e.replay⟩, entries.eraseP mine)
        | none =>
          match ScreenReplay.new T d incarnation req.count req.tail with
          | .error e => (.refused e, entries.eraseP mine)
          | .ok replay => (.replaying ⟨dir, req, incarnation, current, replay⟩, entries.eraseP mine)

/-- Put an entry at the end of the cache, if it is small enough at all. -/
def store (entries : List (Entry D E)) (entry : Entry D E) : List (Entry D E) :=
  let size := entry.replay.memoryBytes T
  if size ≤ cacheBytes then makeRoom (fun e => e.replay.memoryBytes T) cacheBytes size entries ++ [entry] else entries

/-- `collect_impl` from there on. -/
def collectFinish (d : Dir) (entries : List (Entry D E)) (f : Flight D E) :
    Except HistoryError ScreenHistory × List (Entry D E) :=
  match f.replay.update T bare d with
  | .error e => (.error e, entries)
  | .ok replay =>
    match fingerprint d identity f.incarnation with
    | .error e => (.error e, entries)
    | .ok after =>
      if stillThere f.current after = false ∨ (listIncarnations d).getLast? ≠ some f.incarnation then
        (.error (.other "journal replaced or truncated during replay"), entries)
      else (.ok (replay.answer T f.request), store T entries ⟨f.dir, f.incarnation, after, replay⟩)

/-- A fresh replay: with nothing in the cache, and the journal at rest. -/
def collectFresh (dir : D) (d : Dir) (req : Request) : Except HistoryError ScreenHistory :=
  match (collectBegin T identity dir d [] req).1 with
  | .refused e => .error e
  | .answered history => .ok history
  | .replaying f => (collectFinish T bare identity d [] f).1

end Code

/-! ### The daemon -/

/-- A session's directory: left by a daemon before, or with a journal in use. -/
inductive Directory where
  | rest (d : Dir)
  | live (incarnation : ℕ) (journal : Live)

def Directory.disk : Directory → Dir
  | .rest d => d
  | .live _ journal => journal.disk

/-- What a request came to, and the directory it read. -/
structure Answer (D : Type) where
  dir : D
  disk : Dir
  request : Request
  outcome : Except HistoryError ScreenHistory

/-- The sessions' directories, and the requests for screen histories. -/
structure Readers (D E : Type) where
  dirs : D → Directory
  entries : List (Entry D E)
  flights : List (Flight D E)
  /-- The requests that have returned. -/
  answers : List (Answer D)

namespace Readers

/-- What may happen next. -/
inductive Action (D : Type) where
  | journal (dir : D) (action : Live.Action)
  /-- A new incarnation is begun. -/
  | start (dir : D) (maxPartBytes : ℕ)
  | ask (dir : D) (req : Request)
  | finish (i : ℕ)

/-- Directories at rest, and nothing asked. -/
def initial {D : Type} (E : Type) (dirs : D → Dir) : Readers D E := ⟨fun dir => .rest (dirs dir), [], [], []⟩

variable {D E : Type} [DecidableEq D] (T : Terminal E) (bare : Bool) (R : LineReader) (identity : D → Seg → ℕ)

/-- Another request with the same key is replaying. -/
def busy (w : Readers D E) (dir : D) (tail : Bool) : Bool :=
  w.flights.any fun f => decide (f.dir = dir ∧ f.request.tail = tail)

def answer (w : Readers D E) (dir : D) (req : Request) (outcome : Except HistoryError ScreenHistory)
    (entries : List (Entry D E)) : Readers D E :=
  { w with entries := entries, answers := w.answers ++ [⟨dir, (w.dirs dir).disk, req, outcome⟩] }

/-- A session's directory is now this one. -/
def become (w : Readers D E) (dir : D) (directory : Directory) : Readers D E :=
  { w with dirs := Function.update w.dirs dir directory }

def step (w : Readers D E) : Action D → Option (Readers D E)
  | .journal dir action =>
    match w.dirs dir with
    | .rest _ => none
    | .live incarnation l => (l.step R action).map fun l' => w.become dir (.live incarnation l')
  | .start dir maxPartBytes =>
    match (openJournal R).run (w.dirs dir).disk with
    | (_, .error _) => none
    | (es, .ok j) =>
      let journal := Live.opened j.incarnation maxPartBytes (applyEffects es (w.dirs dir).disk)
      some (w.become dir (.live j.incarnation journal))
  | .ask dir req =>
    -- a request out of range does not wait at the gate
    if req.inRange = true ∧ w.busy dir req.tail = true then none
    else match collectBegin T (identity dir) dir (w.dirs dir).disk w.entries req with
      | (.refused e, entries) => some (w.answer dir req (.error e) entries)
      | (.answered history, entries) => some (w.answer dir req (.ok history) entries)
      | (.replaying f, entries) => some { w with entries := entries, flights := w.flights ++ [f] }
  | .finish i =>
    match w.flights[i]? with
    | none => none
    | some f =>
      let finished := collectFinish T bare (identity f.dir) (w.dirs f.dir).disk w.entries f
      some { w.answer f.dir f.request finished.1 finished.2 with flights := w.flights.eraseIdx i }

end Readers

/-! ### A replay goes on -/

/-- The incarnation that is read. -/
def latestOf (d : Dir) : Option ℕ := (listIncarnations d).getLast?

/-- The latest incarnation has fewer records than there are numbers. -/
def FewRecords (d : Dir) : Prop := ∀ N, latestOf d = some N → 1 + (tell 0 1 (d.files N)).1.length < 2 ^ 64

section Update

variable {E : Type} {T : Terminal E} {bare : Bool} {d : Dir} {k : Scope} {capacity : ℕ} {stream : SegmentStream}
  {got : List Record} {s : Watched}

/-- **One update.** It comes to an end if the parts are not damaged and the records
behind the place are admitted; and the replay is then behind all records. -/
theorem update_place (hplace : Place (d.files k.incarnation) stream got)
    (hbound : 1 + (tell 0 1 (d.files k.incarnation)).1.length < 2 ^ 64)
    (hparts : incarnationParts d k.incarnation = .ok (d.incarnationSegs k.incarnation)) :
    ∃ stream', (∀ r, (s.replay T k capacity stream).update T bare d = .ok r ↔
        (tell 0 1 (d.files k.incarnation)).2 = none ∧
        s.AdmitsAll T bare k capacity ((tell 0 1 (d.files k.incarnation)).1.drop got.length) ∧
        r = (((tell 0 1 (d.files k.incarnation)).1.drop got.length).foldl (Watched.record T bare k) s).replay T k capacity
          stream') ∧
      ((tell 0 1 (d.files k.incarnation)).2 = none →
        Place (d.files k.incarnation) stream' (tell 0 1 (d.files k.incarnation)).1) := by
  obtain ⟨stream₁, hrefresh⟩ : ∃ stream₁, stream.refresh d k.incarnation = .ok stream₁ := by
    rw [SegmentStream.refresh, hparts]
    exact ⟨_, rfl⟩
  obtain ⟨hplace₁, hgot, hnext, htold⟩ := hplace.refreshed hrefresh hbound
  have hpositioned := SegmentStream.positioned_refresh hrefresh
  have hreads := SegmentStream.reading_spec hpositioned (by
    have := hgot.length_le
    rw [hnext, htold, List.length_drop]
    omega) fun _ => historyBatchBytes
  rw [htold] at hreads
  have hupdate : ∀ r, (s.replay T k capacity stream).update T bare d = .ok r ↔
      (s.replay T k capacity stream₁).updateLoop T bare d ((d.files k.incarnation).flatten.length + 1) = .ok r := by
    intro r
    have hposition : (s.replay T k capacity stream).position.incarnation = k.incarnation := rfl
    have hstream : (s.replay T k capacity stream).stream = stream := rfl
    rw [ScreenReplay.update, hposition, hstream, hrefresh]
    rfl
  refine ⟨(stream₁.reading d k.incarnation fun _ => historyBatchBytes).stream, fun r => ?_, fun hclean => ?_⟩
  · rw [hupdate, updateLoop_iff]
    show (stream₁.reading d k.incarnation fun _ => historyBatchBytes).error = none ∧
      s.AdmitsAll T bare k capacity (stream₁.reading d k.incarnation fun _ => historyBatchBytes).records ∧
      r = ((stream₁.reading d k.incarnation fun _ => historyBatchBytes).records.foldl (Watched.record T bare k) s).replay T k
        capacity (stream₁.reading d k.incarnation fun _ => historyBatchBytes).stream ↔ _
    rcases hend : (tell 0 1 (d.files k.incarnation)).2 with _ | ⟨i, stop⟩
    · obtain ⟨herror, hrecords⟩ := hreads.whole hend
      rw [herror, hrecords]
      simp only [true_and]
    · rw [(hreads.failed i stop hend).1]
      exact ⟨fun h => (by cases h.1), fun h => (by cases h.1)⟩
  · have hend := Place.readToEnd hclean hbound ((d.files k.incarnation).flatten.length + 1)
      (fun _ => historyBatchBytes) hplace₁ (by rw [hpositioned.parts])
    have hrecords := (hreads.whole hclean).2
    have hsplit : got ++ (stream₁.reading d k.incarnation fun _ => historyBatchBytes).records =
        (tell 0 1 (d.files k.incarnation)).1 := by
      rw [hrecords]
      exact (List.prefix_append_drop hgot).symm
    rw [← hsplit]
    exact hend

end Update

/-! ### What the cache keeps -/

/-- The latest incarnation has grown, or is a newer one. -/
inductive Evolves (d d' : Dir) : Prop where
  | grown {N : ℕ} (hlatest : latestOf d = some N) (hlatest' : latestOf d' = some N)
      (hgrown : Grown (d.files N) (d'.files N))
  | newer {M : ℕ} (hlatest' : latestOf d' = some M) (holder : ∀ N, latestOf d = some N → N < M)

section Seeing

variable {D E : Type} (T : Terminal E) (bare : Bool)

/-- The replay has seen a beginning of its incarnation, as long as that is the latest. -/
structure Seeing (d : Dir) (N : ℕ) (r : ScreenReplay E) : Prop where
  older : ∃ M, latestOf d = some M ∧ N ≤ M
  seen : latestOf d = some N → ∃ got, Place (d.files N) r.stream got ∧
    Watched.none.AdmitsAll T bare ⟨N, r.tail⟩ r.capacity got ∧
    r = (got.foldl (Watched.record T bare ⟨N, r.tail⟩) .none).replay T ⟨N, r.tail⟩ r.capacity r.stream

/-- A request that has a replay with room for what it asks for. -/
structure FlightInv (d : Dir) (f : Flight D E) : Prop where
  seeing : Seeing T bare d f.incarnation f.replay
  room : f.request.count ≤ f.replay.capacity
  tail : f.replay.tail = f.request.tail
  inRange : f.request.inRange = true
  asked : ¬ (f.request.count = 0 ∨ f.incarnation = 0)

variable {T bare} {d d' : Dir} {N : ℕ} {r : ScreenReplay E}

/-- **The journal goes on.** -/
theorem Seeing.evolves (h : Seeing T bare d N r) (he : Evolves d d') : Seeing T bare d' N r := by
  obtain ⟨L, hL, hNL⟩ := h.older
  cases he with
  | @grown M hlatest hlatest' hgrown =>
    rw [hL, Option.some.injEq] at hlatest
    subst hlatest
    refine ⟨⟨L, hlatest', hNL⟩, fun hN => ?_⟩
    rw [hlatest', Option.some.injEq] at hN
    subst hN
    obtain ⟨got, hplace, hrest⟩ := h.seen hL
    exact ⟨got, hplace.grown hgrown, hrest⟩
  | @newer M hlatest' holder =>
    have hlt := holder L hL
    refine ⟨⟨M, hlatest', by omega⟩, fun hN => ?_⟩
    rw [hlatest', Option.some.injEq] at hN
    omega

theorem FlightInv.evolves {f : Flight D E} (h : FlightInv T bare d f) (he : Evolves d d') : FlightInv T bare d' f :=
  ⟨h.seeing.evolves he, h.room, h.tail, h.inRange, h.asked⟩

theorem stillThere_refl (parts : Fingerprint) : stillThere parts parts = true := by
  rw [stillThere, List.all_eq_true]
  intro part hpart
  rw [List.any_eq_true]
  exact ⟨part, hpart, decide_eq_true ⟨rfl, le_rfl, rfl⟩⟩

/-! ### A request -/

section Request

variable [DecidableEq D] {identity : Seg → ℕ} {dir : D} {entries : List (Entry D E)} {req : Request} {f : Flight D E}

/-- What a request may begin with. -/
inductive BeginsWell (T : Terminal E) (bare : Bool) (identity : Seg → ℕ) (d : Dir) (dir : D) (req : Request) :
    Begun D E → Prop where
  | refused (e : HistoryError) : BeginsWell T bare identity d dir req (.refused e)
  | answered {history : ScreenHistory} (h : collectFresh T bare identity dir d req = .ok history) :
      BeginsWell T bare identity d dir req (.answered history)
  | replaying {f : Flight D E} (hdir : f.dir = dir) (hreq : f.request = req) (h : FlightInv T bare d f) :
      BeginsWell T bare identity d dir req (.replaying f)

/-- **A request begins.** -/
theorem collectBegin_spec (hentries : ∀ e ∈ entries, e.dir = dir → Seeing T bare d e.incarnation e.replay) :
    BeginsWell T bare identity d dir req (collectBegin T identity dir d entries req).1 ∧
      (collectBegin T identity dir d entries req).2.Sublist entries := by
  unfold collectBegin
  by_cases hrange : req.inRange = false
  · rw [if_pos hrange]
    exact ⟨.refused _, List.Sublist.refl _⟩
  rw [if_neg hrange]
  dsimp only
  by_cases hasked : req.count = 0 ∨ (listIncarnations d).getLast?.getD 0 = 0
  · rw [if_pos hasked]
    refine ⟨.answered ?_, List.Sublist.refl _⟩
    unfold collectFresh collectBegin
    rw [if_neg hrange]
    dsimp only
    rw [if_pos hasked]
  rw [if_neg hasked]
  obtain ⟨N, hlatest⟩ : ∃ N, latestOf d = some N := by
    rcases h : latestOf d with _ | N
    · exact absurd (.inr (by rw [← latestOf, h]; rfl)) hasked
    · exact ⟨N, rfl⟩
  have hN : (listIncarnations d).getLast?.getD 0 = N := by rw [← latestOf, hlatest]; rfl
  rw [hN] at hasked ⊢
  rcases hcurrent : fingerprint d identity N with e | current
  · exact ⟨.refused e, List.Sublist.refl _⟩
  dsimp only
  generalize hmine : (fun e : Entry D E => decide (e.dir = dir ∧ e.replay.tail = req.tail)) = mine
  generalize hfound : Option.filter _ (entries.find? mine) = found
  rcases found with _ | e
  · dsimp only
    rcases hnew : ScreenReplay.new T d N req.count req.tail with e | r
    · exact ⟨.refused e, List.eraseP_sublist⟩
    · -- a fresh replay has seen nothing
      unfold ScreenReplay.new at hnew
      rcases hopen : SegmentStream.open d N with e | stream
      · rw [hopen] at hnew
        cases hnew
      rw [hopen] at hnew
      cases hnew
      refine ⟨.replaying rfl rfl ⟨⟨⟨N, hlatest, le_rfl⟩, fun _ => ⟨[], place_open hopen, trivial, ?_⟩⟩, le_rfl, rfl,
        eq_true_of_ne_false hrange, hasked⟩, List.eraseP_sublist⟩
      exact @start_eq E T ⟨N, req.tail⟩ req.count stream
  · rw [Option.filter_eq_some_iff] at hfound
    obtain ⟨hfind, hvalid⟩ := hfound
    have hkey := List.find?_some hfind
    rw [← hmine, decide_eq_true_eq] at hkey
    rw [Entry.valid, Bool.and_eq_true, decide_eq_true_eq] at hvalid
    have hseeing := hentries e (List.mem_of_find?_eq_some hfind) hkey.1
    rw [hvalid.1.1] at hseeing
    exact ⟨.replaying rfl rfl ⟨hseeing, hvalid.1.2, hkey.2, eq_true_of_ne_false hrange, hasked⟩, List.eraseP_sublist⟩

theorem fingerprint_ok {parts : Fingerprint} (h : fingerprint d identity N = .ok parts) :
    incarnationParts d N = .ok (d.incarnationSegs N) := by
  unfold fingerprint at h
  rcases hparts : incarnationParts d N with e | segs
  · rw [hparts] at h
    cases h
  · rw [SegmentStream.incarnationParts_ok hparts]

/-- A fresh replay begins with nothing seen. -/
theorem collectBegin_fresh (hlatest : latestOf d = some N) (hrange : req.inRange = true)
    (hasked : ¬ (req.count = 0 ∨ N = 0)) {current : Fingerprint} (hcurrent : fingerprint d identity N = .ok current) :
    (collectBegin T identity dir d [] req : Begun D E × List (Entry D E)).1 =
      .replaying ⟨dir, req, N, current, Watched.none.replay T ⟨N, req.tail⟩ req.count ⟨d.incarnationSegs N, 0, 0, 1, false⟩⟩ := by
  have hN : (listIncarnations d).getLast?.getD 0 = N := by rw [← latestOf, hlatest]; rfl
  unfold collectBegin
  rw [if_neg (by rw [hrange]; exact Bool.noConfusion)]
  dsimp only
  rw [hN, if_neg hasked, hcurrent]
  dsimp only
  rw [List.find?_nil, Option.filter_none]
  dsimp only
  rw [ScreenReplay.new, SegmentStream.open, fingerprint_ok hcurrent]
  dsimp only
  rw [@start_eq E T ⟨N, req.tail⟩]

/-- **A request that succeeds.** A fresh replay answers the same. -/
theorem collectFinish_ok (hT : T.LimitFree) (hfew : FewRecords d) (hf : FlightInv T bare d f) {history : ScreenHistory}
    {entries' : List (Entry D E)} (h : collectFinish T bare identity d entries f = (.ok history, entries')) :
    collectFresh T bare identity f.dir d f.request = .ok history ∧
      ∃ entry, entries' = store T entries entry ∧ entry.dir = f.dir ∧ Seeing T bare d entry.incarnation entry.replay := by
  unfold collectFinish at h
  rcases hupdate : f.replay.update T bare d with e | r
  · rw [hupdate] at h
    cases h
  rw [hupdate] at h
  dsimp only at h
  rcases hafter : fingerprint d identity f.incarnation with e | current
  · rw [hafter] at h
    cases h
  rw [hafter] at h
  dsimp only at h
  by_cases hgone : stillThere f.current current = false ∨ (listIncarnations d).getLast? ≠ some f.incarnation
  · rw [if_pos hgone] at h
    cases h
  rw [if_neg hgone] at h
  cases h
  have hlatest : latestOf d = some f.incarnation := not_not.mp fun hne => hgone (.inr hne)
  have hparts := fingerprint_ok hafter
  have hbound := hfew f.incarnation hlatest
  -- what the replay has seen before, and what it sees now
  obtain ⟨got, hplace, hadmits, hr⟩ := hf.seeing.seen hlatest
  rw [hf.tail] at hadmits hr
  obtain ⟨stream', hwarm, hplace'⟩ := @update_place E T bare d ⟨f.incarnation, f.request.tail⟩ f.replay.capacity
    f.replay.stream got (got.foldl (Watched.record T bare ⟨f.incarnation, f.request.tail⟩) .none) hplace hbound hparts
  rw [hr] at hupdate
  obtain ⟨hclean, hmore, rfl⟩ := (hwarm r).mp hupdate
  have hsplit := (List.prefix_append_drop hplace.begins).symm
  rw [← List.foldl_append, hsplit]
  have hall := Watched.admitsAll_append.mpr ⟨hadmits, hmore⟩
  rw [hsplit] at hall
  -- the fresh replay sees all of it now
  obtain ⟨stream₂, hcold, -⟩ := @update_place E T bare d ⟨f.incarnation, f.request.tail⟩ f.request.count
    ⟨d.incarnationSegs f.incarnation, 0, 0, 1, false⟩ [] .none
    (place_open (by rw [SegmentStream.open, hparts])) hbound hparts
  have hfresh := (hcold _).mpr ⟨hclean, hall.mono hf.room, rfl⟩
  refine ⟨?_, _, rfl, rfl, ⟨f.incarnation, hlatest, le_rfl⟩, fun _ => ?_⟩
  · unfold collectFresh
    rw [collectBegin_fresh hlatest hf.inRange hf.asked hafter]
    dsimp only
    unfold collectFinish
    dsimp only
    rw [hfresh, hafter]
    dsimp only
    rw [if_neg (by
      rw [stillThere_refl]
      exact fun h => h.elim Bool.noConfusion fun hne => hne hlatest)]
    rw [List.length_nil, List.drop_zero]
    exact congrArg _ (answer_eq hT ordered_none.records rfl le_rfl hf.room _ _)
  · exact ⟨_, hplace' hclean, hall, rfl⟩

omit [DecidableEq D] in
/-- A request that fails leaves the cache without its replay. -/
theorem collectFinish_error {e : HistoryError} {entries' : List (Entry D E)}
    (h : collectFinish T bare identity d entries f = (.error e, entries')) : entries' = entries := by
  unfold collectFinish at h
  rcases hupdate : f.replay.update T bare d with e | r
  · rw [hupdate] at h
    cases h
    rfl
  rw [hupdate] at h
  dsimp only at h
  rcases hafter : fingerprint d identity f.incarnation with e | current
  · rw [hafter] at h
    cases h
    rfl
  rw [hafter] at h
  dsimp only at h
  split_ifs at h
  · cases h
    rfl
  · cases h

omit [DecidableEq D] in
/-- What is in the cache after a request. -/
theorem mem_store {entry e : Entry D E} (h : e ∈ store T entries entry) : e ∈ entries ∨ e = entry := by
  unfold store at h
  dsimp only at h
  split_ifs at h
  · rcases List.mem_append.mp h with h | h
    · exact .inl ((makeRoom_suffix entries).subset h)
    · exact .inr (List.mem_singleton.mp h)
  · exact .inl h

omit [DecidableEq D] in
theorem store_le (hentries : (entries.map fun e => e.replay.memoryBytes T).sum ≤ cacheBytes) (entry : Entry D E) :
    ((store T entries entry).map fun e => e.replay.memoryBytes T).sum ≤ cacheBytes := by
  unfold store
  dsimp only
  split_ifs with hsmall
  · rw [List.map_append, List.sum_append, List.map_singleton, List.sum_singleton]
    exact makeRoom_le hsmall entries
  · exact hentries

end Request

end Seeing

/-! ### The directories -/

/-- A directory at rest is small enough; a journal in use is as it was opened, and has
written since. -/
inductive DirectoryInv : Directory → Prop where
  | rest {d : Dir} (hfew : FewRecords d) : DirectoryInv (.rest d)
  | live {N : ℕ} {base : Dir} {l : Live} (hbase : ∀ seg ∈ base.listSegments, seg.incarnation ≤ N)
      (h : LiveInv N base l) : DirectoryInv (.live N l)

section Directories

variable {R : LineReader} {N : ℕ} {base d : Dir} {l : Live}

theorem latestOf_live (hbase : ∀ seg ∈ base.listSegments, seg.incarnation ≤ N) (h : LiveInv N base l) :
    latestOf l.disk = some N := by
  rw [latestOf, listIncarnations, getLast?_dedup, List.getLast?_map]
  exact h.latest hbase

theorem DirectoryInv.few {x : Directory} (h : DirectoryInv x) : FewRecords x.disk := by
  cases h with
  | rest hfew => exact hfew
  | @live N base l hbase h =>
    intro M hM
    rw [Directory.disk, latestOf_live hbase h, Option.some.injEq] at hM
    subst hM
    exact (tell_live h).2.1

/-- A journal in use. -/
theorem directory_journal {l' : Live} {action : Live.Action} (h : DirectoryInv (.live N l))
    (hstep : l.step R action = some l') : DirectoryInv (.live N l') ∧ Evolves l.disk l'.disk := by
  cases h with
  | live hbase h =>
    have h' := liveInv_step hbase h hstep
    exact ⟨.live hbase h', .grown (latestOf_live hbase h) (latestOf_live hbase h') (grown_step h hstep).1⟩

/-- A new incarnation. -/
theorem directory_start {es : List Effect} {j : OpenedJournal} (hopen : (openJournal R).run d = (es, .ok j))
    (maxPartBytes : ℕ) :
    DirectoryInv (.live j.incarnation (Live.opened j.incarnation maxPartBytes (applyEffects es d))) ∧
      Evolves d (applyEffects es d) := by
  have hbase := le_of_open hopen
  have hlive := liveInv_of_open hopen maxPartBytes
  refine ⟨.live hbase hlive, .newer (latestOf_live hbase hlive) fun N hN => ?_⟩
  obtain ⟨lines, -, -, -, hincarnation⟩ := openJournal_ok hopen
  rw [latestOf, listIncarnations, getLast?_dedup, List.getLast?_map, Option.map_eq_some_iff] at hN
  obtain ⟨seg, hseg, rfl⟩ := hN
  rw [hincarnation]
  -- a part that is retired is no longer there, but its number is known
  by_cases hret : seg.incarnation ∈ retiredIn lines
  · exact retired_lt_nextIncarnation hret
  · refine lt_nextIncarnation ?_
    rw [mem_listSegments, partData_retained, if_neg hret, ← mem_listSegments]
    exact List.mem_of_getLast? hseg

end Directories

/-! ### The daemon -/

section Readers

variable {D E : Type} [DecidableEq D] {T : Terminal E} {bare : Bool} {R : LineReader} {identity : D → Seg → ℕ}

/-- A fresh replay answers the same. -/
def Answer.Fresh (T : Terminal E) (bare : Bool) (identity : D → Seg → ℕ) (a : Answer D) : Prop :=
  ∀ history, a.outcome = .ok history → collectFresh T bare (identity a.dir) a.dir a.disk a.request = .ok history

/-- What holds of the cache, of the requests on their way and of the answers. -/
structure ReadersInv (T : Terminal E) (bare : Bool) (identity : D → Seg → ℕ) (w : Readers D E) : Prop where
  dirs : ∀ dir, DirectoryInv (w.dirs dir)
  entries : ∀ e ∈ w.entries, Seeing T bare (w.dirs e.dir).disk e.incarnation e.replay
  flights : ∀ f ∈ w.flights, FlightInv T bare (w.dirs f.dir).disk f
  memory : (w.entries.map fun e => e.replay.memoryBytes T).sum ≤ cacheBytes
  answers : ∀ a ∈ w.answers, a.Fresh T bare identity

variable {w w' : Readers D E}

/-- A directory that goes on. -/
theorem ReadersInv.become (h : ReadersInv T bare identity w) {dir : D} {x : Directory} (hx : DirectoryInv x)
    (he : Evolves (w.dirs dir).disk x.disk) : ReadersInv T bare identity (w.become dir x) := by
  have hother : ∀ dir', dir' ≠ dir → (w.become dir x).dirs dir' = w.dirs dir' :=
    fun dir' hne => Function.update_of_ne hne _ _
  have hsame : (w.become dir x).dirs dir = x := Function.update_self _ _ _
  refine ⟨fun dir' => ?_, fun e hmem => ?_, fun f hmem => ?_, h.memory, h.answers⟩
  · by_cases hd : dir' = dir
    · rw [hd, hsame]
      exact hx
    · rw [hother dir' hd]
      exact h.dirs dir'
  · by_cases hd : e.dir = dir
    · have := h.entries e hmem
      rw [hd] at this ⊢
      rw [hsame]
      exact this.evolves he
    · rw [hother e.dir hd]
      exact h.entries e hmem
  · by_cases hd : f.dir = dir
    · have := h.flights f hmem
      rw [hd] at this ⊢
      rw [hsame]
      exact this.evolves he
    · rw [hother f.dir hd]
      exact h.flights f hmem

/-- A request that returns. -/
theorem ReadersInv.answer (h : ReadersInv T bare identity w) {dir : D} {req : Request}
    {outcome : Except HistoryError ScreenHistory} {entries : List (Entry D E)} {flights : List (Flight D E)}
    (hflights : flights.Sublist w.flights) (hentries : ∀ e ∈ entries, Seeing T bare (w.dirs e.dir).disk e.incarnation e.replay)
    (hmemory : (entries.map fun e => e.replay.memoryBytes T).sum ≤ cacheBytes)
    (hfresh : Answer.Fresh T bare identity ⟨dir, (w.dirs dir).disk, req, outcome⟩) :
    ReadersInv T bare identity { w.answer dir req outcome entries with flights := flights } := by
  refine ⟨h.dirs, hentries, fun f hf => h.flights f (hflights.subset hf), hmemory, fun a ha => ?_⟩
  rcases List.mem_append.mp ha with ha | ha
  · exact h.answers a ha
  · rw [List.mem_singleton.mp ha]
    exact hfresh

omit [DecidableEq D] in
/-- Fewer entries take less memory. -/
theorem sublist_memory {entries entries' : List (Entry D E)} (hsub : entries'.Sublist entries)
    (h : (entries.map fun e => e.replay.memoryBytes T).sum ≤ cacheBytes) :
    (entries'.map fun e => e.replay.memoryBytes T).sum ≤ cacheBytes :=
  ((hsub.map _).sum_le_sum fun _ _ => Nat.zero_le _).trans h

/-- **A step.** -/
theorem readersInv_step (hT : T.LimitFree) {action : Readers.Action D} (h : ReadersInv T bare identity w)
    (hstep : w.step T bare R identity action = some w') : ReadersInv T bare identity w' := by
  cases action with
  | journal dir action =>
    unfold Readers.step at hstep
    dsimp only at hstep
    have hdir := h.dirs dir
    rcases hx : w.dirs dir with d | ⟨N, l⟩
    · rw [hx] at hstep
      cases hstep
    · rw [hx] at hstep hdir
      obtain ⟨l', hl, rfl⟩ := Option.map_eq_some_iff.mp hstep
      obtain ⟨hinv, hevolves⟩ := directory_journal hdir hl
      exact h.become hinv (by rw [hx]; exact hevolves)
  | start dir maxPartBytes =>
    unfold Readers.step at hstep
    dsimp only at hstep
    rcases hopen : (openJournal R).run (w.dirs dir).disk with ⟨es, e | j⟩
    · rw [hopen] at hstep
      cases hstep
    · rw [hopen] at hstep
      cases hstep
      obtain ⟨hinv, hevolves⟩ := directory_start hopen maxPartBytes
      exact h.become hinv hevolves
  | ask dir req =>
    unfold Readers.step at hstep
    dsimp only at hstep
    by_cases hbusy : req.inRange = true ∧ w.busy dir req.tail = true
    · rw [if_pos hbusy] at hstep
      cases hstep
    rw [if_neg hbusy] at hstep
    obtain ⟨hbegins, hsub⟩ := @collectBegin_spec D E T bare (w.dirs dir).disk _ (identity dir) dir w.entries req
      fun e he hd => hd ▸ h.entries e he
    have hentries := fun e he => h.entries e (hsub.subset he)
    have hmemory := sublist_memory hsub h.memory
    rcases hbegun : collectBegin T (identity dir) dir (w.dirs dir).disk w.entries req with ⟨begun, entries⟩
    rw [hbegun] at hstep hbegins hentries hmemory
    cases hbegins with
    | refused e =>
      cases hstep
      exact h.answer (List.Sublist.refl _) hentries hmemory nofun
    | answered hfresh =>
      cases hstep
      refine h.answer (List.Sublist.refl _) hentries hmemory fun history' heq => ?_
      cases heq
      exact hfresh
    | @replaying f hdir hreq hflight =>
      cases hstep
      refine ⟨h.dirs, hentries, fun f' hf' => ?_, hmemory, h.answers⟩
      rcases List.mem_append.mp hf' with hf' | hf'
      · exact h.flights f' hf'
      · rw [List.mem_singleton.mp hf', hdir]
        exact hflight
  | finish i =>
    unfold Readers.step at hstep
    rcases hi : w.flights[i]? with _ | f
    · simp only [hi] at hstep
      cases hstep
    simp only [hi, Option.some.injEq] at hstep
    subst hstep
    have hflight := h.flights f (List.mem_of_getElem? hi)
    have hfew := (h.dirs f.dir).few
    rcases hfinished : collectFinish T bare (identity f.dir) (w.dirs f.dir).disk w.entries f with ⟨e | history, entries⟩
    · have hsame : entries = w.entries := collectFinish_error hfinished
      exact h.answer (List.eraseIdx_sublist _ _) (hsame ▸ h.entries) (hsame ▸ h.memory) nofun
    · obtain ⟨hfresh, entry, rfl, hdir, hseeing⟩ := collectFinish_ok hT hfew hflight hfinished
      refine h.answer (List.eraseIdx_sublist _ _) (fun e he => ?_) (store_le h.memory entry) fun history' heq => ?_
      · rcases mem_store he with he | rfl
        · exact h.entries e he
        · rw [hdir]
          exact hseeing
      · cases heq
        exact hfresh

end Readers

/-- **Warm screen histories are cold ones.** In every run of requests, journals that
are written and incarnations that begin, a request that succeeds answers what a fresh
replay of the directory answers at that moment; and the cache stays within its limit. -/
theorem warm_screen_history {D E : Type} [DecidableEq D] {T : Terminal E} (hT : T.LimitFree) {bare : Bool} {R : LineReader}
    {identity : D → Seg → ℕ} {dirs : D → Dir} (hdirs : ∀ dir, FewRecords (dirs dir)) {actions : List (Readers.Action D)}
    {w : Readers D E} (hrun : Runs.run (Readers.step T bare R identity) (Readers.initial E dirs) actions = some w) :
    (∀ a ∈ w.answers, ∀ history, a.outcome = .ok history →
      collectFresh T bare (identity a.dir) a.dir a.disk a.request = .ok history) ∧
    (w.entries.map fun e => e.replay.memoryBytes T).sum ≤ cacheBytes := by
  have hinitial : ReadersInv T bare identity (Readers.initial E dirs) :=
    ⟨fun dir => .rest (hdirs dir), fun _ h => absurd h List.not_mem_nil, fun _ h => absurd h List.not_mem_nil,
      by simp [Readers.initial], fun _ h => absurd h List.not_mem_nil⟩
  have hinv : ReadersInv T bare identity w :=
    Runs.run_invariant (fun h hstep => readersInv_step hT h hstep) hrun hinitial
  exact ⟨hinv.answers, hinv.memory⟩

/-! ### An engine for plain text -/

/-- A terminal that shows lines of text. -/
structure PlainText where
  rows : ℕ
  cols : ℕ
  scrollback : ℕ
  lines : List Bytes

namespace PlainText

/-- A byte goes to the end of the last line, or begins another one. -/
def write (lines : List Bytes) (b : UInt8) : List Bytes :=
  if b = 13 then lines else if b = 10 then lines ++ [[]] else lines.dropLast ++ [lines.getLastD [] ++ [b]]

/-- A terminal that shows lines as they are. -/
def terminal : Terminal PlainText where
  new rows cols scrollback := ⟨rows, cols, scrollback, [[]]⟩
  feed e bytes := { e with lines := bytes.foldl write e.lines }
  resize e rows cols := { e with rows := rows, cols := cols }
  size e := (e.rows, e.cols)
  screenDigest e := (newest e.rows e.lines).flatten
  styledScreenRows e := newest e.rows e.lines ++ List.replicate (e.rows - e.lines.length) []
  styledHistoryRows e k := newest (min k e.scrollback) (e.lines.take (e.lines.length - e.rows))
  frameBytes frame := frame.rowsBytes.flatten.length
  scannerBytes scanner := scanner.pending.length

theorem foldl_scrollback (a : ℕ) : ∀ (inputs : List Input) (e : PlainText),
    inputs.foldl terminal.apply { e with scrollback := a } = { inputs.foldl terminal.apply e with scrollback := a }
  | [], _ => rfl
  | .feed bytes :: inputs, e => foldl_scrollback a inputs { e with lines := bytes.foldl write e.lines }
  | .resize rows cols :: inputs, e => foldl_scrollback a inputs { e with rows := rows, cols := cols }

theorem limitFree : terminal.LimitFree := by
  intro inputs k a b ha hb
  have hall : ∀ c, terminal.after c inputs = { terminal.after 0 inputs with scrollback := c } :=
    fun c => foldl_scrollback c inputs ⟨defaultRows, defaultCols, 0, [[]]⟩
  rw [hall a, hall b]
  simp only [Terminal.view, terminal, Nat.min_eq_left ha, Nat.min_eq_left hb]

end PlainText

/-- Two outputs are recorded, and each time a tail is asked for. -/
def tailsRun : List (Readers.Action Unit) :=
  let write : List (Readers.Action Unit) :=
    [.journal () (.journal .receive), .journal () (.journal .effect), .journal () (.journal .effect),
      .journal () (.journal .finish)]
  [.start () 4096, .journal () (.journal (.record .output [104, 105] 7))] ++ write ++
    [.ask () (.tailOf 2 true), .finish 0, .journal () (.journal (.record .output [106] 9))] ++ write ++
    [.ask () (.tailOf 1 true), .finish 0]

theorem warm_screen_history_tails : ∃ w,
    Runs.run (Readers.step PlainText.terminal false exactReader fun _ _ => 7)
      (Readers.initial PlainText fun _ => Dir.empty) tailsRun = some w ∧
    w.answers.length = 2 ∧ w.entries.map (fun e => e.replay.capacity) = [2] ∧
    (∀ a ∈ w.answers, a.outcome.toBool = true) ∧
    (∀ a ∈ w.answers, ∀ history, a.outcome = .ok history →
      collectFresh PlainText.terminal false (fun _ => 7) a.dir a.disk a.request = .ok history) ∧
    (w.entries.map fun e => e.replay.memoryBytes PlainText.terminal).sum ≤ cacheBytes := by
  have hrun : (Runs.run (Readers.step PlainText.terminal false exactReader fun _ _ => 7)
      (Readers.initial PlainText fun _ => Dir.empty) tailsRun).any (fun w => decide (w.answers.length = 2 ∧
        w.entries.map (fun e => e.replay.capacity) = [2] ∧ (w.answers.all fun a => a.outcome.toBool) = true)) = true := by
    decide +kernel
  obtain ⟨w, hw, hp⟩ := (Option.any_eq_true _ _).mp hrun
  obtain ⟨hanswers, hentries, hok⟩ := of_decide_eq_true hp
  have hdirs : ∀ _dir : Unit, FewRecords Dir.empty := fun _ N hN => by cases hN
  obtain ⟨hfresh, hmemory⟩ := warm_screen_history PlainText.limitFree hdirs hw
  exact ⟨w, hw, hanswers, hentries, List.all_eq_true.mp hok, hfresh, hmemory⟩

end Session
end OpenRelay
