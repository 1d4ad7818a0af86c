/-
# Following an incarnation that is being written

A reader pulls batches from the incarnation of a live journal, with any budgets,
and looks for new parts now and then. Where it stands is behind some records of a
part, and every part before it was read to its end (`Place`). The appender only adds
to the last part, or adds a part (`Grown`), so the reader's place stays one.

So what it got is always a beginning of the incarnation's records, and once it
looks again it gets the others, each once (`stream_batch_independent`).

Key theorems: `Place.pull`, `image_step`, `grown_step`.
-/
import OpenRelay.Journal.StreamEnd
import OpenRelay.Session.JournalReplay

namespace OpenRelay
namespace Session

open Journal

/-! ### Where a reader stands -/

/-- The parts are read to their ends, and hold the records with numbers from `a` on. -/
inductive ReadThrough : ℕ → List Bytes → List Record → Prop where
  | nil (a : ℕ) : ReadThrough a [] []
  | cons {a : ℕ} {file : Bytes} {files : List Bytes} {rs more : List Record}
      (hfile : parseRecords (some a) file = (rs, .cleanEof)) (hfiles : ReadThrough (a + rs.length) files more) :
      ReadThrough a (file :: files) (rs ++ more)

/-- The reader stands behind `m` records of the part `file`, and has read the parts
before it. -/
structure Standing (s : SegmentStream) (before : List Bytes) (file : Bytes) (g : List Record) (m : ℕ) : Prop where
  index : s.partIndex = before.length
  through : ReadThrough 1 before g
  within : m ≤ (parseRecords (some (1 + g.length)) file).1.length
  offset : s.byteOffset = sizeAll ((parseRecords (some (1 + g.length)) file).1.take m)
  next : s.nextSeq = 1 + g.length + m

/-- The reader has a place in the parts, and `got` are the records before it. -/
def Place (files : List Bytes) (s : SegmentStream) (got : List Record) : Prop :=
  ∃ before file after g m, files = before ++ file :: after ∧ Standing s before file g m ∧
    got = g ++ (parseRecords (some (1 + g.length)) file).1.take m

section Place

variable {files : List Bytes} {s : SegmentStream} {got : List Record} {a : ℕ}

theorem ReadThrough.snoc {file : Bytes} {rs last : List Record} (h : ReadThrough a files rs)
    (hfile : parseRecords (some (a + rs.length)) file = (last, .cleanEof)) :
    ReadThrough a (files ++ [file]) (rs ++ last) := by
  induction h with
  | nil a =>
    have := ReadThrough.cons hfile (.nil _)
    rwa [List.append_nil] at this
  | @cons a head files rs more hhead _ ih =>
    rw [List.cons_append, List.append_assoc]
    refine .cons hhead (ih ?_)
    rwa [List.length_append, ← Nat.add_assoc] at hfile

/-- What is told behind parts that are read to their ends. -/
theorem ReadThrough.tell {rs : List Record} (h : ReadThrough a files rs) (i : ℕ) (more : List Bytes) :
    Journal.tell i a (files ++ more) =
      (rs ++ (Journal.tell (i + files.length) (a + rs.length) more).1,
        (Journal.tell (i + files.length) (a + rs.length) more).2) := by
  induction h generalizing i with
  | nil a => rfl
  | @cons a head files rs rest hhead _ ih =>
    rw [List.cons_append, tell_clean hhead, ih (i + 1), List.length_append, List.length_cons]
    simp only [List.append_assoc, Nat.add_assoc, Nat.add_comm 1]

/-- What is left for a reader to be told. -/
theorem Standing.tell {before : List Bytes} {file : Bytes} {g : List Record} {m : ℕ}
    (h : Standing s before file g m) (after : List Bytes)
    (hbound : 1 + (Journal.tell 0 1 (before ++ file :: after)).1.length < 2 ^ 64) :
    Journal.tell s.partIndex s.nextSeq (file.drop s.byteOffset :: after) =
      ((Journal.tell 0 1 (before ++ file :: after)).1.drop (g.length + m),
        (Journal.tell 0 1 (before ++ file :: after)).2) := by
  have hall := h.through.tell 0 (file :: after)
  rw [Nat.zero_add] at hall
  have hpre := @prefix_tell before.length (1 + g.length) file after
  have hlt : 1 + g.length + (parseRecords (some (1 + g.length)) file).1.length < 2 ^ 64 := by
    have := hpre.length_le
    rw [hall, List.length_append] at hbound
    omega
  have hdrop := @tell_drop before.length _ _ after _ hlt h.within
  rw [h.index, h.next, h.offset, hdrop, hall]
  simp only [Prod.mk.injEq, and_true]
  rw [← List.drop_drop, List.drop_left]

theorem Standing.begins {before : List Bytes} {file : Bytes} {g : List Record} {m : ℕ}
    (h : Standing s before file g m) (after : List Bytes) :
    g ++ (parseRecords (some (1 + g.length)) file).1.take m <+: (Journal.tell 0 1 (before ++ file :: after)).1 := by
  rw [h.through.tell 0 (file :: after)]
  exact (List.prefix_append_right_inj g).mpr ((List.take_prefix m _).trans prefix_tell)

theorem Standing.got_length {before : List Bytes} {file : Bytes} {g : List Record} {m : ℕ}
    (h : Standing s before file g m) :
    (g ++ (parseRecords (some (1 + g.length)) file).1.take m).length = g.length + m := by
  rw [List.length_append, List.length_take, Nat.min_eq_left h.within]

theorem Place.begins (h : Place files s got) : got <+: (Journal.tell 0 1 files).1 := by
  obtain ⟨before, file, after, g, m, rfl, hstand, rfl⟩ := h
  exact hstand.begins after

/-! ### The incarnation grows -/

/-- The last part has grown, and parts may have been added. -/
def Grown (files files' : List Bytes) : Prop :=
  ∃ full last more rest, files = full ++ [last] ∧ files' = full ++ (last ++ more) :: rest

/-- The records of a part that grows stay its first records. -/
theorem parseRecords_grown (expected : Option ℕ) (file more : Bytes) :
    (parseRecords expected file).1 <+: (parseRecords expected (file ++ more)).1 := by
  refine parseRecords_induct
    (P := fun expected file out => out.1 <+: (parseRecords expected (file ++ more)).1) ?_ ?_ ?_ expected file
  · intros
    exact List.nil_prefix
  · intros
    exact List.nil_prefix
  · intro expected file r rs stop hr hseq _ ih
    obtain ⟨-, hsize, hread⟩ := readRecord_ok hr
    have hmore : readRecord (file ++ more) = .ok r := by
      have := hread (file.drop r.size ++ more)
      rwa [← List.append_assoc, List.take_append_drop] at this
    rw [parseRecords_cons hmore hseq, List.drop_append_of_le_length hsize]
    exact List.cons_prefix_cons.mpr ⟨rfl, ih⟩

/-- A place stays a place while the incarnation grows. -/
theorem Place.grown {files' : List Bytes} (h : Place files s got) (hgrown : Grown files files') :
    Place files' s got := by
  obtain ⟨before, file, after, g, m, hfiles, hstand, rfl⟩ := h
  obtain ⟨full, last, more, rest, hfull, rfl⟩ := hgrown
  rw [hfiles] at hfull
  rcases List.eq_nil_or_concat after with rfl | ⟨between, last', rfl⟩
  · -- the reader is in the part that grows
    obtain ⟨rfl, hlast⟩ := List.append_inj' hfull rfl
    cases hlast
    have hpre := parseRecords_grown (some (1 + g.length)) file more
    have htake : (parseRecords (some (1 + g.length)) (file ++ more)).1.take m =
        (parseRecords (some (1 + g.length)) file).1.take m := by
      rw [List.prefix_iff_eq_take.mp hpre, List.take_take, Nat.min_eq_left hstand.within]
    refine ⟨before, file ++ more, rest, g, m, rfl, ⟨hstand.index, hstand.through, ?_, ?_, hstand.next⟩, ?_⟩
    · exact hstand.within.trans hpre.length_le
    · rw [htake]
      exact hstand.offset
    · rw [htake]
  · -- the part that grows is a later one
    have hsplit : (before ++ file :: between) ++ [last'] = full ++ [last] := by
      rw [← hfull]
      simp
    obtain ⟨rfl, hlast⟩ := List.append_inj' hsplit rfl
    cases hlast
    exact ⟨before, file, between ++ (last ++ more) :: rest, g, m, by simp, hstand, rfl⟩

end Place

/-! ### A call -/

section Pull

variable {d : Dir} {N : ℕ}

/-- Fewer parts tell less, and fail only if all of them do. -/
theorem tell_take : ∀ (files : List Bytes) (i a k : ℕ),
    (tell i a (files.take k)).1 <+: (tell i a files).1 ∧
      ((tell i a files).2 = none → (tell i a (files.take k)).2 = none)
  | [], _, _, _ => by
    rw [List.take_nil]
    exact ⟨List.prefix_refl _, id⟩
  | _ :: _, _, _, 0 => ⟨List.nil_prefix, fun _ => rfl⟩
  | file :: files, i, a, k + 1 => by
    rw [List.take_succ_cons]
    rcases hp : parseRecords (some a) file with ⟨rs, stop⟩
    by_cases hclean : stop = .cleanEof
    · subst hclean
      obtain ⟨hpre, hnone⟩ := tell_take files (i + 1) (a + rs.length) k
      rw [tell_clean hp, tell_clean hp]
      exact ⟨(List.prefix_append_right_inj rs).mpr hpre, hnone⟩
    by_cases htorn : stop = .partialTail
    · subst htorn
      rw [tell_torn hp, tell_torn hp]
      exact ⟨List.prefix_refl _, id⟩
    · rw [tell_corrupt hp hclean htorn, tell_corrupt hp hclean htorn]
      exact ⟨List.prefix_refl _, id⟩

/-- The reader's list of parts is a beginning of the directory's. -/
theorem files_of_parts {s : SegmentStream} (hparts : s.parts <+: d.incarnationSegs N) {i : ℕ} {seg : Seg}
    (hseg : s.parts[i]? = some seg) :
    (d.files N)[i]? = some ((d.partData seg).getD []) ∧
      ((s.parts.drop (i + 1)).map fun seg => (d.partData seg).getD []) =
        ((d.files N).drop (i + 1)).take (s.parts.length - (i + 1)) := by
  have hlt := (List.getElem?_eq_some_iff.mp hseg).1
  have htake := List.prefix_iff_eq_take.mp hparts
  constructor
  · have hsegs : (d.incarnationSegs N)[i]? = some seg := by
      rw [htake, List.getElem?_take_of_lt hlt] at hseg
      exact hseg
    rw [Dir.files, List.getElem?_map, hsegs]
    rfl
  · conv_lhs => rw [htake]
    rw [List.drop_take, List.map_take, List.map_drop]
    rfl

/-- **A call.** It keeps the reader in a place, behind what it gave as well. -/
theorem Place.pullLoop (hclean : (tell 0 1 (d.files N)).2 = none)
    (hbound : 1 + (tell 0 1 (d.files N)).1.length < 2 ^ 64)
    (hdata : ∀ seg ∈ d.incarnationSegs N, (d.partData seg).isSome) (maxBytes : ℕ) :
    ∀ (turns : ℕ) {s : SegmentStream} {got : List Record}, Place (d.files N) s got →
      s.parts <+: d.incarnationSegs N →
      ∃ batch s', SegmentStream.pullLoop d maxBytes turns s = (.ok batch, s') ∧
        Place (d.files N) s' (got ++ batch) ∧ s'.parts = s.parts
  | 0, s, got, hplace, _ => ⟨[], s, rfl, by rwa [List.append_nil], rfl⟩
  | turns + 1, s, got, hplace, hparts => by
    have hstays : ∀ s' : SegmentStream, s'.partIndex = s.partIndex → s'.byteOffset = s.byteOffset →
        s'.nextSeq = s.nextSeq → Place (d.files N) s' (got ++ []) := by
      rintro s' hindex hoffset hnext
      obtain ⟨before, file, after, g, m, hfiles, hstand, rfl⟩ := hplace
      rw [List.append_nil]
      exact ⟨before, file, after, g, m, hfiles, ⟨hindex.trans hstand.index, hstand.through, hstand.within,
        hoffset.trans hstand.offset, hnext.trans hstand.next⟩, rfl⟩
    unfold SegmentStream.pullLoop
    by_cases hdone : s.done = true
    · rw [if_pos hdone]
      exact ⟨[], s, rfl, hstays s rfl rfl rfl, rfl⟩
    have hdone' : s.done = false := by simpa using hdone
    rw [if_neg hdone]
    rcases hseg : s.parts[s.partIndex]? with _ | seg
    · exact ⟨[], s.finished, rfl, hstays _ rfl rfl rfl, rfl⟩
    obtain ⟨file', hfile'⟩ := Option.isSome_iff_exists.mp (hdata seg (hparts.subset (List.mem_of_getElem? hseg)))
    obtain ⟨hat, hrest⟩ := files_of_parts hparts hseg
    obtain ⟨before, file, after, g, m, hfiles, hstand, rfl⟩ := hplace
    -- the part that is read is the one the reader stands in
    have hfile : file' = file := by
      rw [hfiles, hstand.index, List.getElem?_append_right le_rfl, Nat.sub_self, hfile'] at hat
      exact (Option.some.inj hat).symm
    subst hfile
    have hafter : (d.files N).drop (s.partIndex + 1) = after := by
      rw [hfiles, hstand.index, ← List.drop_drop, List.drop_left]
      rfl
    rw [hafter] at hrest
    have htold := hstand.tell after (by rw [← hfiles]; exact hbound)
    rw [← hfiles] at htold
    have hstale := tell_take (file'.drop s.byteOffset :: after) s.partIndex s.nextSeq
      (s.parts.length - (s.partIndex + 1) + 1)
    have hsome : s.told d =
        tell s.partIndex s.nextSeq ((file'.drop s.byteOffset :: after).take (s.parts.length - (s.partIndex + 1) + 1)) := by
      rw [SegmentStream.told, SegmentStream.remaining_part hdone' hseg hfile', hrest, List.take_succ_cons]
    rw [← hsome, htold] at hstale
    have hlen := hstale.1.length_le
    rw [List.length_drop] at hlen
    have hgot : g.length + m ≤ (tell 0 1 (d.files N)).1.length := by
      have := (hstand.begins after).length_le
      rw [hstand.got_length, ← hfiles] at this
      exact this
    have hturn := SegmentStream.turn_spec maxBytes hdone' hseg hfile' (by rw [hstand.next]; omega)
    have hplt : 1 + g.length + (parseRecords (some (1 + g.length)) file').1.length < 2 ^ 64 := by
      have hpre := @prefix_tell before.length (1 + g.length) file' after
      have hall := hstand.through.tell 0 (file' :: after)
      rw [Nat.zero_add, ← hfiles] at hall
      have hle := hpre.length_le
      rw [hall, List.length_append] at hbound
      omega
    have hparse := parseRecords_drop hplt hstand.within
    rw [← hstand.offset, ← hstand.next] at hparse
    simp only [hfile']
    rcases hfollow : s.follow (s.scan file' maxBytes) with e | s'
    · rw [hfollow] at hturn
      cases hturn with
      | fails hfails =>
        rw [hstale.2 hclean] at hfails
        cases hfails
    · rw [hfollow] at hturn
      cases hturn with
      | goesOn hbatch hle _ hnext hparts' _ hmoves =>
        simp only
        have hplace' : Place (d.files N) s'
            (g ++ (parseRecords (some (1 + g.length)) file').1.take m ++ (s.scan file' maxBytes).records) := by
          cases hmoves with
          | within hindex hoffset hprefix =>
            rw [hparse] at hprefix
            have htake : (parseRecords (some (1 + g.length)) file').1.take m ++ (s.scan file' maxBytes).records =
                (parseRecords (some (1 + g.length)) file').1.take (m + (s.scan file' maxBytes).records.length) := by
              rw [List.take_add, ← List.prefix_iff_eq_take.mp hprefix]
            have hwithin := hprefix.length_le
            rw [List.length_drop] at hwithin
            have hm := hstand.within
            refine ⟨before, file', after, g, m + (s.scan file' maxBytes).records.length, hfiles,
              ⟨hindex.trans hstand.index, hstand.through, by omega, ?_, ?_⟩, ?_⟩
            · rw [hoffset, hstand.offset, ← htake, sizeAll_append]
            · rw [hnext, hstand.next, Nat.add_assoc]
            · rw [List.append_assoc, htake]
          | next hindex hroom hoffset hend =>
            rw [hparse, Prod.mk.injEq] at hend
            have hwhole : (parseRecords (some (1 + g.length)) file').1.take m ++ (s.scan file' maxBytes).records =
                (parseRecords (some (1 + g.length)) file').1 := by
              rw [← hend.1, List.take_append_drop]
            -- there is a part to go on with
            obtain ⟨next, after', rfl⟩ : ∃ next after', after = next :: after' := by
              refine List.exists_cons_of_ne_nil fun hnil => ?_
              have hsegs := hparts.length_le
              have hcount : (d.files N).length = (d.incarnationSegs N).length := List.length_map _
              rw [hfiles, hnil, List.length_append, List.length_singleton] at hcount
              rw [hstand.index] at hroom
              omega
            have hthrough := @ReadThrough.snoc _ _ file' _ _ hstand.through (Prod.ext rfl hend.2)
            have hnext' : s'.nextSeq = 1 + (g ++ (parseRecords (some (1 + g.length)) file').1).length := by
              have hsum := congrArg List.length hwhole
              rw [List.length_append, List.length_take, Nat.min_eq_left hstand.within] at hsum
              rw [hnext, hstand.next, List.length_append]
              omega
            refine ⟨before ++ [file'], next, after', g ++ (parseRecords (some (1 + g.length)) file').1, 0,
              by rw [hfiles]; simp, ⟨?_, hthrough, Nat.zero_le _, hoffset, hnext'⟩, ?_⟩
            · rw [hindex, hstand.index, List.length_append, List.length_singleton]
            · rw [List.append_assoc, hwhole, List.take_zero, List.append_nil]
        by_cases hnil : (s.scan file' maxBytes).records = []
        · rw [if_pos hnil]
          rw [hnil, List.append_nil] at hplace'
          obtain ⟨batch, s'', hpull, hplace'', hparts''⟩ := Place.pullLoop hclean hbound hdata maxBytes turns hplace'
            (by rw [hparts']; exact hparts)
          exact ⟨batch, s'', hpull, hplace'', hparts''.trans hparts'⟩
        · rw [if_neg hnil]
          exact ⟨_, s', rfl, hplace', hparts'⟩

/-- A reader that was just opened. -/
theorem place_open {s : SegmentStream} (hs : SegmentStream.open d N = .ok s) : Place (d.files N) s [] := by
  unfold SegmentStream.open at hs
  rcases hparts : incarnationParts d N with e | parts
  · rw [hparts] at hs
    cases hs
  rw [hparts] at hs
  cases hs
  have hne : d.incarnationSegs N ≠ [] := by
    intro hnil
    rw [incarnationParts, if_pos hnil] at hparts
    cases hparts
  obtain ⟨file, after, hfiles⟩ := List.exists_cons_of_ne_nil (show d.files N ≠ [] by simpa [Dir.files] using hne)
  refine ⟨[], file, after, [], 0, hfiles, ⟨rfl, .nil 1, Nat.zero_le _, ?_, rfl⟩, ?_⟩
  · rw [List.take_zero]
    rfl
  · rw [List.take_zero]
    rfl

/-- **A reader that looks again.** It keeps its place, and is told the records behind it. -/
theorem Place.refreshed {s s' : SegmentStream} {got : List Record} (h : Place (d.files N) s got)
    (hs : s.refresh d N = .ok s') (hbound : 1 + (tell 0 1 (d.files N)).1.length < 2 ^ 64) :
    Place (d.files N) s' got ∧ got <+: (tell 0 1 (d.files N)).1 ∧ s'.nextSeq = 1 + got.length ∧
      s'.told d = ((tell 0 1 (d.files N)).1.drop got.length, (tell 0 1 (d.files N)).2) := by
  unfold SegmentStream.refresh at hs
  rcases hparts : incarnationParts d N with e | parts
  · rw [hparts] at hs
    cases hs
  rw [hparts] at hs
  cases hs
  rw [SegmentStream.incarnationParts_ok hparts]
  obtain ⟨before, file, after, g, m, hfiles, hstand, hgot⟩ := h
  have hlen := hstand.got_length
  rw [← hgot] at hlen
  have hcount : (d.files N).length = (d.incarnationSegs N).length := List.length_map _
  have hidx : s.partIndex < (d.incarnationSegs N).length := by
    rw [← hcount, hfiles, hstand.index, List.length_append, List.length_cons]
    omega
  have hdropped : ((d.incarnationSegs N).drop s.partIndex).map (fun seg => (d.partData seg).getD []) = file :: after := by
    rw [List.map_drop]
    show (d.files N).drop _ = _
    rw [hfiles, hstand.index, List.drop_left]
  rw [List.drop_eq_getElem_cons hidx, List.map_cons, List.cons.injEq] at hdropped
  have htold := hstand.tell after (by rw [← hfiles]; exact hbound)
  rw [← hfiles, ← hlen] at htold
  refine ⟨⟨before, file, after, g, m, hfiles, ⟨hstand.index, hstand.through, hstand.within, hstand.offset,
    hstand.next⟩, hgot⟩, ?_, by rw [hlen, ← Nat.add_assoc]; exact hstand.next, ?_⟩
  · rw [hgot, hfiles]
    exact hstand.begins after
  · have hrem : SegmentStream.remaining { s with parts := d.incarnationSegs N, done := false } d =
        file.drop s.byteOffset :: after := by
      simp only [SegmentStream.remaining, Bool.false_eq_true, if_false]
      rw [List.drop_eq_getElem_cons hidx]
      simp only [hdropped.1, hdropped.2]
    rw [SegmentStream.told, hrem]
    exact htold

/-- **A reading.** It keeps the reader in a place as well. -/
theorem Place.readToEnd (hclean : (tell 0 1 (d.files N)).2 = none)
    (hbound : 1 + (tell 0 1 (d.files N)).1.length < 2 ^ 64) :
    ∀ (turns : ℕ) (budgets : ℕ → ℕ) {s : SegmentStream} {got : List Record}, Place (d.files N) s got →
      s.parts <+: d.incarnationSegs N →
      Place (d.files N) (s.readToEnd d turns budgets).stream (got ++ (s.readToEnd d turns budgets).records)
  | 0, _, _, got, hplace, _ => by rwa [SegmentStream.readToEnd, List.append_nil]
  | turns + 1, budgets, s, got, hplace, hparts => by
    obtain ⟨batch, s', hpull, hplace', hparts'⟩ := Place.pullLoop hclean hbound
      (fun seg hseg => by rw [Dir.partData, Option.isSome_map]; exact (mem_incarnationSegs.mp hseg).1)
      (budgets 0) (s.parts.length - s.partIndex + 2) hplace hparts
    have hpull' : s.pull d (budgets 0) = (.ok batch, s') := hpull
    unfold SegmentStream.readToEnd
    rw [hpull']
    rcases batch with _ | ⟨r, batch⟩
    · exact hplace'
    · have hmore := Place.readToEnd hclean hbound turns (fun n => budgets (n + 1)) hplace' (by rw [hparts']; exact hparts)
      rw [List.append_assoc] at hmore
      exact hmore

end Pull

/-! ### A live journal -/

section Growing

variable {N : ℕ} {base d d' : Dir} {img : Image}

theorem Grown.refl {full : List Bytes} {last : Bytes} : Grown (full ++ [last]) (full ++ [last]) :=
  ⟨full, last, [], [], rfl, by rw [List.append_nil]⟩

/-- What the writer does adds to the last part, or adds a part. -/
theorem grown_after {r : Record} {e : Effect} (hv : img.Valid N) (ha : Image.Allowed N r img e) :
    Grown img.files (img.after e).files := by
  cases e with
  | createPart seg =>
    have htorn := (hv.whole (.inl ha.2)).2.2
    refine ⟨img.rotated.map encodeAll, encodeAll img.current ++ img.torn, [], [[]], rfl, ?_⟩
    simp [Image.after, Image.files, htorn]
  | writePart seg bytes =>
    refine ⟨img.rotated.map encodeAll, encodeAll img.current ++ img.torn, bytes, [], rfl, ?_⟩
    simp [Image.after, Image.files]
  | setLen _ _ | removePart _ => exact ha.elim
  | syncPart _ | appendManifest _ | syncManifest | syncDir => exact Grown.refl

/-- The directory's parts are those of the image. -/
theorem files_of_agree (h : Shape N base img d') (hagree : Agree N d d') : d.files N = img.files := by
  refine (incarnation_files ?_ fun i => ?_).2
  · rw [hagree.partData]
    exact h.partData_zero
  · rw [hagree.partData]
    exact h.partData_files i

theorem partNumbers_of_agree (h : Shape N base img d') (hagree : Agree N d d') :
    d.incarnationSegs N = (List.range' 1 img.files.length).map fun part => ⟨N, part⟩ := by
  refine (incarnation_files ?_ fun i => ?_).1
  · rw [hagree.partData]
    exact h.partData_zero
  · rw [hagree.partData]
    exact h.partData_files i

/-- What the appender does next is allowed. -/
theorem allowed_taken {s : ShadowJournal} (h : DiskInv N base s.published s.appender s.disk img)
    (action : Journal.Action) :
    taken s action = [] ∨ ∃ e r, taken s action = [e] ∧ Image.Allowed N r img e := by
  have hnext : ∀ task e todo result, s.appender.pc = .working task (e :: todo) result →
      ∃ r, Image.Allowed N r img e := by
    intro task e todo result hpc
    have hp := h.pc
    rw [hpc] at hp
    cases task with
    | append event =>
      obtain ⟨-, -, -, ⟨ha, -⟩, -⟩ := hp
      exact ⟨_, ha⟩
    | sync | finalSync =>
      obtain ⟨-, hsettled, -, -, htodo⟩ := hp
      rcases htodo with htodo | ⟨htodo, -⟩
      · cases htodo
        exact ⟨⟨.output, 0, 0, []⟩, rfl, hsettled.torn⟩
      · cases htodo
    | sealTail =>
      obtain ⟨-, -, ⟨r, ha, -⟩, -⟩ := hp
      exact ⟨r, ha⟩
  cases action with
  | effect =>
    rcases hpc : s.appender.pc with _ | ⟨task, _ | ⟨e, todo⟩, result⟩ | _ <;> simp only [taken, hpc]
    · exact .inl trivial
    · exact .inl trivial
    · obtain ⟨r, ha⟩ := hnext task e todo result hpc
      exact .inr ⟨e, r, rfl, ha⟩
    · exact .inl trivial
  | fault n =>
    rcases hpc : s.appender.pc with _ | ⟨task, _ | ⟨e, todo⟩, result⟩ | _ <;> simp only [taken, hpc]
    · exact .inl trivial
    · exact .inl trivial
    · obtain ⟨r, ha⟩ := hnext task e todo result hpc
      rcases hcut : e.cut n with _ | ⟨e', rest⟩
      · exact .inl rfl
      · have hone : rest = [] := by
          have hle : (e.cut n).length ≤ 1 := by
            cases e with
            | writePart _ _ | appendManifest _ => exact le_rfl
            | createPart _ | syncPart _ | setLen _ _ | removePart _ | syncManifest | syncDir => exact Nat.zero_le 1
          rw [hcut, List.length_cons] at hle
          exact List.eq_nil_of_length_eq_zero (by omega)
        subst hone
        exact .inr ⟨e', r, rfl, allowed_cut ha n (by rw [hcut]; exact List.mem_cons_self)⟩
    · exact .inl trivial
  | record _ _ _ | retry | stall | pollAcks | requestSync | close | receive | timeout | disconnect | finish =>
    exact .inl rfl

/-- The directory has the parts of the image. -/
structure ShowsImage (N : ℕ) (d : Dir) (img : Image) : Prop where
  files : d.files N = img.files
  segs : d.incarnationSegs N = (List.range' 1 img.files.length).map fun part => ⟨N, part⟩

theorem showsImage_of_agree (h : Shape N base img d') (hagree : Agree N d d') : ShowsImage N d img :=
  ⟨files_of_agree h hagree, partNumbers_of_agree h hagree⟩

variable {R : LineReader} {l t : Live} {action : Live.Action}

theorem image_live (h : LiveInv N base l) : ∃ img, ShowsImage N l.disk img := by
  obtain ⟨d, ⟨-, img, hd⟩, hagree⟩ := h.ghost
  exact ⟨img, showsImage_of_agree hd.shape hagree⟩

/-- What a step of a live journal does to the parts: nothing, or what the writer may do. -/
theorem image_step (h : LiveInv N base l) (hstep : l.step R action = some t) :
    ∃ img, ShowsImage N l.disk img ∧ (ShowsImage N t.disk img ∨
      ∃ r e, img.Valid N ∧ Image.Allowed N r img e ∧ ShowsImage N t.disk (img.after e)) := by
  obtain ⟨d, ⟨hcore, img, hd⟩, hagree⟩ := h.ghost
  refine ⟨img, showsImage_of_agree hd.shape hagree, ?_⟩
  have hsame : Agree N t.disk d → ShowsImage N t.disk img := showsImage_of_agree hd.shape
  cases action with
  | journal action =>
    obtain ⟨s, hs, rfl⟩ := Option.map_eq_some_iff.mp hstep
    have hfree' : NextFree l.journal d := nextFree_of_inv ⟨hcore, img, hd⟩
    have hfree : NextFree l.journal l.disk := by
      intro hpc hdead
      have hinc := rolled_incarnation ⟨hcore, img, hd⟩ hpc hdead
      rw [show l.journal.appender.writer.rolled.seg = ⟨N, l.journal.appender.writer.rolled.seg.part⟩ from
        Seg.ext hinc rfl, hagree.partData]
      rw [← hinc]
      exact hfree' hpc hdead
    have hdisk : Live.disk { l with journal := s } = applyEffects (taken l.journal action) l.disk := step_disk hs hfree
    rcases allowed_taken hd action with hnone | ⟨e, r, hone, ha⟩
    · have hnone' : taken l.journal action = [] := hnone
      refine .inl (hsame ?_)
      rw [hdisk, hnone']
      exact hagree
    · have hone' : taken l.journal action = [e] := hone
      have hagree' : Agree N (Live.disk { l with journal := s }) (e.apply d) := by
        rw [hdisk, hone']
        exact agree_apply hagree e
      exact .inr ⟨r, e, hd.valid, ha, showsImage_of_agree (shape_after hd.shape hd.valid ha) hagree'⟩
  | startSweep minIncarnation =>
    cases hstep
    exact .inl (hsame hagree)
  | sweepEffect i =>
    rcases hi : l.sweeps[i]? with _ | _ | ⟨e, todo⟩ <;> simp only [Live.step, hi] at hstep
    · cases hstep
    · cases hstep
    · cases hstep
      exact .inl (hsame (agree_sweep hagree (h.sweeps _ (List.mem_of_getElem? hi) e List.mem_cons_self)))
  | sweepFault i n =>
    rcases hi : l.sweeps[i]? with _ | _ | ⟨e, todo⟩ <;> simp only [Live.step, hi] at hstep
    · cases hstep
    · cases hstep
    · cases hstep
      exact .inl (hsame (agree_cut hagree (h.sweeps _ (List.mem_of_getElem? hi) e List.mem_cons_self) n))

/-- **A step of a live journal** leaves the incarnation as it is, or it grows. -/
theorem grown_step (h : LiveInv N base l) (hstep : l.step R action = some t) :
    Grown (l.disk.files N) (t.disk.files N) ∧ l.disk.incarnationSegs N <+: t.disk.incarnationSegs N := by
  obtain ⟨img, hshows, hsame | ⟨r, e, hv, ha, hafter⟩⟩ := image_step h hstep
  · rw [hshows.files, hshows.segs, hsame.files, hsame.segs]
    exact ⟨Grown.refl, List.prefix_refl _⟩
  · rw [hshows.files, hshows.segs, hafter.files, hafter.segs]
    have hgrown := grown_after hv ha
    have hle : img.files.length ≤ (img.after e).files.length := by
      obtain ⟨full, last, more, rest, hfull, hfull'⟩ := hgrown
      rw [hfull, hfull', List.length_append, List.length_append, List.length_singleton, List.length_cons]
      omega
    obtain ⟨k, hk⟩ := Nat.exists_eq_add_of_le hle
    rw [hk, ← List.range'_append_1, List.map_append]
    exact ⟨hgrown, List.prefix_append _ _⟩

/-- A part that is added is empty at first. -/
theorem created_step (h : LiveInv N base l) (hstep : l.step R action = some t) :
    ∀ file ∈ (t.disk.files N).drop (l.disk.files N).length, file = [] := by
  obtain ⟨img, hshows, hsame | ⟨r, e, hv, ha, hafter⟩⟩ := image_step h hstep
  · rw [hshows.files, hsame.files, List.drop_length]
    nofun
  rw [hshows.files, hafter.files]
  have hcount : img.files.length = img.rotated.length + 1 := by simp [Image.files]
  rw [hcount]
  cases e with
  | createPart seg =>
    have hfiles : (img.after (.createPart seg)).files = (img.rotated ++ [img.current]).map encodeAll ++ [[]] := rfl
    rw [hfiles, List.drop_left' (by rw [List.length_map, List.length_append, List.length_singleton])]
    exact fun file hfile => List.mem_singleton.mp hfile
  | setLen _ _ | removePart _ => exact ha.elim
  | writePart _ _ | syncPart _ | appendManifest _ | syncManifest | syncDir =>
    rw [List.drop_eq_nil_of_le (by simp [Image.after, Image.files])]
    nofun

end Growing

/-! ### A reader that follows -/

/-- A live journal, and a reader that follows its incarnation. -/
structure Following where
  live : Live
  stream : SegmentStream
  /-- The records of the batches, one after another. -/
  got : List Record
  error : Option JournalError

namespace Following

/-- What may happen next. -/
inductive Action where
  | live (action : Live.Action)
  | nextBatch (maxBytes : ℕ)
  | refresh

def step (R : LineReader) (N : ℕ) (f : Following) : Action → Option Following
  | .live action => (f.live.step R action).map fun live => { f with live := live }
  | .nextBatch maxBytes =>
    match f.stream.pull f.live.disk maxBytes with
    | (.ok batch, stream) => some { f with stream := stream, got := f.got ++ batch }
    | (.error e, stream) => some { f with stream := stream, error := some e }
  | .refresh =>
    match f.stream.refresh f.live.disk N with
    | .ok stream => some { f with stream := stream }
    | .error e => some { f with error := some e }

end Following

section Follows

variable {R : LineReader} {N : ℕ} {base : Dir} {l : Live}

/-- What an incarnation tells that a directory holds. -/
theorem tell_holds {d : Dir} {groups : List (List Record)} {current : List Record} {torn : Bytes}
    (h : Holds d N groups current torn) : tell 0 1 (d.files N) = (groups.flatten ++ current, none) := by
  have hfiles : d.files N = partFiles groups current torn := (incarnation_files h.zero h.files).2
  have hstream := streamRecords_parts h.fits h.numbered h.bound h.torn
  have htell := streamRecords_eq_tell (partFiles groups current torn) 0 1
  rw [hstream] at htell
  rcases hsnd : (tell 0 1 (partFiles groups current torn)).2 with _ | ⟨i, stop⟩
  · rw [hsnd] at htell
    simp only [Except.ok.injEq] at htell
    rw [hfiles, htell, ← hsnd]
  · rw [hsnd] at htell
    cases htell

/-- What a live journal's incarnation tells: a beginning of the published records. -/
theorem tell_live (h : LiveInv N base l) :
    (tell 0 1 (l.disk.files N)).2 = none ∧ 1 + (tell 0 1 (l.disk.files N)).1.length < 2 ^ 64 ∧
      (tell 0 1 (l.disk.files N)).1 <+: l.journal.published.map OrderedEvent.record ∧
      incarnationParts l.disk N = .ok (l.disk.incarnationSegs N) ∧
      ∀ seg ∈ l.disk.incarnationSegs N, (l.disk.partData seg).isSome := by
  obtain ⟨groups, current, torn, hholds, hpre⟩ := holds_live h
  have hfiles := incarnation_files hholds.zero hholds.files
  rw [tell_holds hholds]
  refine ⟨rfl, hholds.bound, hpre, ?_, fun seg hseg => ?_⟩
  · refine incarnationParts_eq (p := groups.length) ?_
    rw [hfiles.1, partFiles, List.length_append, List.length_map, List.length_singleton]
  · rw [Dir.partData, Option.isSome_map]
    exact (mem_incarnationSegs.mp hseg).1

/-- A reader in a place, with a list of parts that was the directory's once. -/
structure FollowingInv (N : ℕ) (base : Dir) (f : Following) : Prop where
  live : LiveInv N base f.live
  parts : f.stream.parts <+: f.live.disk.incarnationSegs N
  place : Place (f.live.disk.files N) f.stream f.got
  error : f.error = none

/-- **A step of the journal or of the reader.** -/
theorem followingInv_step {f t : Following} {action : Following.Action}
    (hbase : ∀ seg ∈ base.listSegments, seg.incarnation ≤ N) (h : FollowingInv N base f)
    (hstep : f.step R N action = some t) : FollowingInv N base t := by
  obtain ⟨hclean, hbound, -, hlist, hdata⟩ := tell_live h.live
  cases action with
  | live action =>
    obtain ⟨l, hl, rfl⟩ := Option.map_eq_some_iff.mp hstep
    obtain ⟨hgrown, hsegs⟩ := grown_step h.live hl
    exact ⟨liveInv_step hbase h.live hl, h.parts.trans hsegs, h.place.grown hgrown, h.error⟩
  | nextBatch maxBytes =>
    obtain ⟨batch, s, hpull, hplace, hparts⟩ := Place.pullLoop hclean hbound hdata maxBytes
      (f.stream.parts.length - f.stream.partIndex + 2) h.place h.parts
    have hpull' : f.stream.pull f.live.disk maxBytes = (.ok batch, s) := hpull
    simp only [Following.step, hpull', Option.some.injEq] at hstep
    subst hstep
    exact ⟨h.live, by rw [hparts]; exact h.parts, hplace, h.error⟩
  | refresh =>
    simp only [Following.step, SegmentStream.refresh, hlist, Option.some.injEq] at hstep
    subst hstep
    exact ⟨h.live, List.prefix_refl _, (h.place.refreshed (by rw [SegmentStream.refresh, hlist]) hbound).1, h.error⟩

theorem followingInv_open (h : LiveInv N base l) {s : SegmentStream} (hs : SegmentStream.open l.disk N = .ok s) :
    FollowingInv N base ⟨l, s, [], none⟩ := by
  obtain ⟨-, -, -, hlist, -⟩ := tell_live h
  have hplace := place_open hs
  rw [SegmentStream.open, hlist] at hs
  cases hs
  exact ⟨h, List.prefix_refl _, hplace, rfl⟩

/-- What a reader with a place gets once it has looked for parts again. -/
theorem told_refreshed {f : Following} (h : FollowingInv N base f) {s : SegmentStream}
    (hs : f.stream.refresh f.live.disk N = .ok s) :
    s.told f.live.disk = ((tell 0 1 (f.live.disk.files N)).1.drop f.got.length, none) ∧
      s.nextSeq = 1 + f.got.length ∧ f.got <+: (tell 0 1 (f.live.disk.files N)).1 := by
  obtain ⟨hclean, hbound, -, -, -⟩ := tell_live h.live
  obtain ⟨-, hgot, hnext, htold⟩ := h.place.refreshed hs hbound
  exact ⟨by rw [htold, hclean], hnext, hgot⟩

end Follows

/-- The reading gives what a scan of the whole parts accepts, or ends with what the
scan rejects. -/
def ReadsWhole (files : List Bytes) (reading : Reading) : Prop :=
  match streamRecords 1 files with
  | .ok rs => reading.records = rs ∧ reading.error = none
  | .error stop => reading.error = some (.corrupt stop) ∧ reading.records <+: (tell 0 1 files).1

theorem readsWhole_open {d : Dir} {N : ℕ} {s : SegmentStream} (hs : SegmentStream.open d N = .ok s)
    (hbound : 1 + (tell 0 1 (d.files N)).1.length < 2 ^ 64) (budgets : ℕ → ℕ) :
    ReadsWhole (d.files N) (s.reading d N budgets) := by
  have hpos := SegmentStream.positioned_open hs
  have hstart : s.partIndex = 0 ∧ s.byteOffset = 0 ∧ s.nextSeq = 1 := by
    unfold SegmentStream.open at hs
    rcases hparts : incarnationParts d N with e | parts
    · rw [hparts] at hs
      cases hs
    · rw [hparts] at hs
      cases hs
      exact ⟨rfl, rfl, rfl⟩
  obtain ⟨hindex, hoffset, hnext⟩ := hstart
  have hrem : s.remaining d = d.files N := by
    rw [SegmentStream.remaining, hpos.done, hindex, hoffset, hpos.parts, List.drop_zero, Dir.files]
    rcases d.incarnationSegs N with _ | ⟨seg, segs⟩
    · rfl
    · rfl
  have htold : s.told d = tell 0 1 (d.files N) := by rw [SegmentStream.told, hindex, hnext, hrem]
  have hreads := SegmentStream.reading_spec hpos (by rw [hnext, htold]; exact hbound) budgets
  rw [htold] at hreads
  rw [ReadsWhole, streamRecords_eq_tell _ 0]
  rcases herr : (tell 0 1 (d.files N)).2 with _ | ⟨i, stop⟩
  · exact (hreads.whole herr).symm
  · exact ⟨(hreads.failed i stop herr).1, hreads.records⟩

/-- **Reading in batches.** With any budgets, a stream that is opened on an
incarnation gives the records of the parts, each once and in order, if they are
valid; otherwise it ends with the error of the part that is not. A reader that
follows a live journal has, after any steps of the two, a beginning of the records
that are on disk, which are published ones; and when it looks for parts again and
reads on, it gets exactly the rest. -/
theorem stream_batch_independent :
    (∀ {d : Dir} {N : ℕ} {s : SegmentStream}, SegmentStream.open d N = .ok s →
      1 + (tell 0 1 (d.files N)).1.length < 2 ^ 64 →
      ∀ budgets, ReadsWhole (d.files N) (s.reading d N budgets)) ∧
    ∀ {R : LineReader} {d₀ : Dir} {es : List Effect} {j : OpenedJournal} {maxPartBytes : ℕ} {before : List Live.Action}
      {l : Live} {s : SegmentStream} {actions : List Following.Action} {f : Following},
      (openJournal R).run d₀ = (es, .ok j) →
      Runs.run (Live.step R) (Live.opened j.incarnation maxPartBytes (applyEffects es d₀)) before = some l →
      SegmentStream.open l.disk j.incarnation = .ok s →
      Runs.run (Following.step R j.incarnation) ⟨l, s, [], none⟩ actions = some f →
      f.error = none ∧ ∃ all, streamRecords 1 (f.live.disk.files j.incarnation) = .ok all ∧
        all <+: f.live.journal.published.map OrderedEvent.record ∧ f.got <+: all ∧
        ∃ s', f.stream.refresh f.live.disk j.incarnation = .ok s' ∧ ∀ budgets,
          (s'.reading f.live.disk j.incarnation budgets).records = all.drop f.got.length ∧
          (s'.reading f.live.disk j.incarnation budgets).error = none := by
  refine ⟨fun hs hbound budgets => readsWhole_open hs hbound budgets, ?_⟩
  intro R d₀ es j maxPartBytes before l s actions f hopen hbefore hs hrun
  have hbase := le_of_open hopen
  have hlive := (liveInv_of_open hopen maxPartBytes).run hbase hbefore
  have hinv : FollowingInv j.incarnation (applyEffects es d₀) f :=
    Runs.run_invariant (fun h hstep => followingInv_step hbase h hstep) hrun (followingInv_open hlive hs)
  obtain ⟨hclean, hbound, hpublished, hlist, -⟩ := tell_live hinv.live
  obtain ⟨s', hs'⟩ : ∃ s', f.stream.refresh f.live.disk j.incarnation = .ok s' := by
    rw [SegmentStream.refresh, hlist]
    exact ⟨_, rfl⟩
  obtain ⟨htold, hnext, hgot⟩ := told_refreshed hinv hs'
  have hreads := fun budgets => SegmentStream.reading_spec (SegmentStream.positioned_refresh hs')
    (by
      have := hgot.length_le
      rw [hnext, htold, List.length_drop]
      omega) budgets
  refine ⟨hinv.error, _, ?_, hpublished, hgot, s', hs', fun budgets => ?_⟩
  · rw [streamRecords_eq_tell _ 0, hclean]
  · have hwhole := (hreads budgets).whole (by rw [htold])
    rw [htold] at hwhole
    exact hwhole.symm

/-- A reader gets the first record; the second one is written to another part. -/
def followingRun : List Following.Action :=
  .nextBatch 1 :: ((tornRun.take 8).map fun action => .live (.journal action)) ++ [.refresh, .nextBatch 0] ++
    ((tornRun.drop 8 ++ [Journal.Action.effect, .finish]).map fun action => .live (.journal action)) ++ [.nextBatch 1]

set_option maxRecDepth 20000 in
theorem stream_batch_independent_followed : ∃ f,
    Runs.run (Following.step exactReader 1)
      ⟨Live.opened 1 40 (applyEffects [.createPart ⟨1, 1⟩, .syncDir] Dir.empty), ⟨[⟨1, 1⟩], 0, 0, 1, false⟩, [], none⟩
      followingRun = some f ∧
    f.got.length = 1 ∧ f.live.journal.published.length = 2 ∧ (f.live.disk.files 1).length = 2 ∧ f.error = none ∧
    (∃ all, streamRecords 1 (f.live.disk.files 1) = .ok all ∧ f.got <+: all ∧
      ∃ s', f.stream.refresh f.live.disk 1 = .ok s' ∧
        ∀ budgets, (s'.reading f.live.disk 1 budgets).records = all.drop f.got.length) ∧
    ∀ budgets, ReadsWhole (tornDir.files 1) (tornStream.reading tornDir 1 budgets) := by
  have hrun : (Runs.run (Following.step exactReader 1)
      ⟨Live.opened 1 40 (applyEffects [.createPart ⟨1, 1⟩, .syncDir] Dir.empty), ⟨[⟨1, 1⟩], 0, 0, 1, false⟩, [], none⟩
      followingRun).any (fun f => decide (f.got.length = 1 ∧ f.live.journal.published.length = 2 ∧
        (f.live.disk.files 1).length = 2)) = true := by
    decide +kernel
  obtain ⟨f, hf, hp⟩ := (Option.any_eq_true _ _).mp hrun
  obtain ⟨hgot, hpublished, hfiles⟩ := of_decide_eq_true hp
  obtain ⟨hstatic, hlive⟩ := stream_batch_independent
  obtain ⟨herror, all, hall, -, hpre, s', hs', hreads⟩ :=
    @hlive exactReader Dir.empty _ ⟨1, none⟩ 40 [] _ ⟨[⟨1, 1⟩], 0, 0, 1, false⟩ followingRun f open_empty rfl rfl hf
  have hopen : SegmentStream.open tornDir 1 = .ok tornStream := by decide +kernel
  have hbound : 1 + (tell 0 1 (tornDir.files 1)).1.length < 2 ^ 64 := by decide +kernel
  have hwhole := @hstatic tornDir 1 tornStream hopen hbound
  exact ⟨f, hf, hgot, hpublished, hfiles, herror, ⟨all, hall, hpre, s', hs', fun budgets => (hreads budgets).1⟩,
    hwhole⟩

end Session
end OpenRelay
