/-
# Pastes in the terminal's input

The client reads its terminal's input a character at a time (`client/attach_input.rs`).
A bracketed paste is collected and sent as one; everything else is passed on raw, where
the characters of an escape sequence are held until it is complete, since it must not be
split.

While characters are held the next escape completes them, and is passed on with them.
So a paste whose start marker comes right after a lone escape, or after an escape sequence
that is not complete, is not recognised: the rest of the marker and the pasted text are
passed on as if they were typed (`escape_hides_paste`). Where no start marker finds
characters held, every one opens a paste (`pastes_delivered_iff`).

Key theorems: `feed_conserves`, `feed_paste`, `hidden_paste`.
-/
import OpenRelay.Basic
import OpenRelay.Lib.Overlap
import OpenRelay.Lib.Utf8

namespace OpenRelay
namespace Client
namespace AttachInput

open Overlap

/-! ### The code -/

def pasteStart : List Char := ['\x1b', '[', '2', '0', '0', '~']

def pasteEnd : List Char := ['\x1b', '[', '2', '0', '1', '~']

/-- An X10 mouse report, whose three fields may be any characters. -/
def isMouseReport (sequence : List Char) : Bool :=
  let bytes := Utf8.encode sequence
  decide (bytes[1]? = some 0x5b ∧ bytes[2]? = some 0x4d)

/-- Whether the characters behind an escape are a whole sequence; one that grows too long counts as whole. -/
def vtSequenceComplete (sequence : List Char) : Bool :=
  let bytes := Utf8.encode sequence
  if 256 < bytes.length then true
  else
    match bytes[1]? with
    | none => false
    | some b =>
      if isMouseReport sequence then decide (6 ≤ sequence.length)
      else if b = 0x5b ∨ b = 0x4f then (bytes.drop 2).any fun byte => !decide (0x20 ≤ byte ∧ byte ≤ 0x3f)
      else true

/-- What the input comes to: bytes to be sent as they are, or the text of a paste. -/
inductive DecodedInput
  | raw (bytes : Bytes)
  | paste (text : List Char)
  deriving DecidableEq, Repr

/-- What has come and is not decided yet, and the text of a paste that is under way. -/
structure PasteDecoder where
  pending : List Char
  paste : Option (List Char)
  deriving DecidableEq, Repr

namespace PasteDecoder

/-- Between sequences, outside a paste. -/
def new : PasteDecoder := ⟨[], none⟩

/-- The loop of `push`, over what is pending. -/
def settle (paste : Option (List Char)) (out : List DecodedInput) : List Char → PasteDecoder × List DecodedInput
  | [] => (⟨[], paste⟩, out)
  | ch :: rest =>
    let pending := ch :: rest
    let marker := if paste.isSome then pasteEnd else pasteStart
    if pending = marker then
      match paste with
      | some text => (⟨[], none⟩, out ++ [.paste text])
      | none => (⟨[], some []⟩, out)
    else if pending <+: marker then (⟨pending, paste⟩, out)
    else if paste = none ∧ ch = '\x1b' then
      if vtSequenceComplete pending then (⟨[], none⟩, out ++ [.raw (Utf8.encode pending)]) else (⟨pending, none⟩, out)
    else
      -- the front is no part of a marker
      match paste with
      | some text => settle (some (text ++ [ch])) out rest
      | none => settle none (out ++ [.raw (Utf8.encode [ch])]) rest

/-- One more character. -/
def push (d : PasteDecoder) (ch : Char) : PasteDecoder × List DecodedInput := settle d.paste [] (d.pending ++ [ch])

/-- The characters one after another. -/
def feed (d : PasteDecoder) : List Char → PasteDecoder × List DecodedInput
  | [] => (d, [])
  | ch :: chs =>
    let next := d.push ch
    let more := feed next.1 chs
    (more.1, next.2 ++ more.2)

end PasteDecoder

open PasteDecoder

/-! ### What is passed on -/

/-- What an item has been read from. -/
def DecodedInput.source : DecodedInput → Bytes
  | .raw bytes => bytes
  | .paste text => Utf8.encode (pasteStart ++ text ++ pasteEnd)

/-- What is read and not passed on yet. -/
def PasteDecoder.held (d : PasteDecoder) : List Char :=
  match d.paste with
  | some text => pasteStart ++ text ++ d.pending
  | none => d.pending

/-- The decoder has a paste open, of which nothing is read. -/
def PasteDecoder.opened : PasteDecoder := ⟨[], some []⟩

/-- What the input must come to. The items and what is held are the input. A start marker outside
of a paste and of a mouse report opens one. While it is open nothing is passed on, up to the first
end marker; and then the text before that, as one paste. -/
structure Delivers (input : List Char) : Prop where
  conserved : (new.feed input).2.flatMap DecodedInput.source ++ Utf8.encode (new.feed input).1.held = Utf8.encode input
  opens : ∀ before after, input = before ++ pasteStart ++ after → (new.feed before).1.paste = none →
    isMouseReport (new.feed before).1.pending = false → (new.feed (before ++ pasteStart)).1 = opened
  holds : ∀ before text after, input = before ++ text ++ after → (new.feed before).1 = opened →
    ¬ pasteEnd <:+: text → (opened.feed text).2 = [] ∧ (opened.feed text).1.held = pasteStart ++ text
  closes : ∀ before text after, input = before ++ (text ++ pasteEnd) ++ after → (new.feed before).1 = opened →
    ¬ pasteEnd <:+: (text ++ pasteEnd).dropLast → opened.feed (text ++ pasteEnd) = (new, [.paste text])

/-! ### Feeding -/

section Feed

variable {d : PasteDecoder}

theorem feed_append (xs ys : List Char) :
    d.feed (xs ++ ys) = (((d.feed xs).1.feed ys).1, (d.feed xs).2 ++ ((d.feed xs).1.feed ys).2) := by
  induction xs generalizing d with
  | nil => rfl
  | cons x xs ih => simp only [List.cons_append, feed, ih, List.append_assoc]

theorem feed_concat (xs : List Char) (ch : Char) :
    d.feed (xs ++ [ch]) = (((d.feed xs).1.push ch).1, (d.feed xs).2 ++ ((d.feed xs).1.push ch).2) := by
  rw [feed_append]
  simp [feed]

@[simp] theorem encode_nil : Utf8.encode [] = [] := rfl

@[simp] theorem encode_append (xs ys : List Char) : Utf8.encode (xs ++ ys) = Utf8.encode xs ++ Utf8.encode ys :=
  List.flatMap_append

theorem settle_some (text : List Char) (out : List DecodedInput) (ch : Char) (rest : List Char) :
    settle (some text) out (ch :: rest) =
      if ch :: rest = pasteEnd then (new, out ++ [.paste text])
      else if ch :: rest <+: pasteEnd then (⟨ch :: rest, some text⟩, out)
      else settle (some (text ++ [ch])) out rest := by
  simp only [settle, Option.isSome_some, if_true, reduceCtorEq, false_and, if_false]
  rfl

theorem settle_none (out : List DecodedInput) (ch : Char) (rest : List Char) :
    settle none out (ch :: rest) =
      if ch :: rest = pasteStart then (opened, out)
      else if ch :: rest <+: pasteStart then (⟨ch :: rest, none⟩, out)
      else if ch = '\x1b' then
        if vtSequenceComplete (ch :: rest) then (new, out ++ [.raw (Utf8.encode (ch :: rest))]) else (⟨ch :: rest, none⟩, out)
      else settle none (out ++ [.raw (Utf8.encode [ch])]) rest := by
  simp only [settle, Option.isSome_none, Bool.false_eq_true, if_false, true_and]
  rfl

theorem settle_conserves (paste : Option (List Char)) (out : List DecodedInput) (pending : List Char) :
    (settle paste out pending).2.flatMap DecodedInput.source ++ Utf8.encode (settle paste out pending).1.held =
      out.flatMap DecodedInput.source ++ Utf8.encode (PasteDecoder.held ⟨pending, paste⟩) := by
  induction pending generalizing paste out with
  | nil => rfl
  | cons ch rest ih =>
    rcases paste with _ | text
    · rw [settle_none]
      split_ifs with hmarker hbegins hescape hcomplete
      · rw [hmarker]
        rfl
      · rfl
      · simp [PasteDecoder.held, DecodedInput.source, new]
      · rfl
      · rw [ih, List.flatMap_append, List.append_assoc]
        simp only [PasteDecoder.held, DecodedInput.source, List.flatMap_cons, List.flatMap_nil, List.append_nil]
        rw [← encode_append, List.singleton_append]
    · rw [settle_some]
      split_ifs with hmarker hbegins
      · rw [hmarker]
        simp [PasteDecoder.held, DecodedInput.source, new]
      · rfl
      · rw [ih]
        simp [PasteDecoder.held, List.append_assoc]

theorem push_conserves (ch : Char) :
    (d.push ch).2.flatMap DecodedInput.source ++ Utf8.encode (d.push ch).1.held = Utf8.encode (d.held ++ [ch]) := by
  rw [push, settle_conserves]
  rcases d with ⟨pending, _ | text⟩ <;> simp [PasteDecoder.held, List.append_assoc]

/-- **Nothing is lost, added or moved.** -/
theorem feed_conserves (input : List Char) :
    (d.feed input).2.flatMap DecodedInput.source ++ Utf8.encode (d.feed input).1.held = Utf8.encode (d.held ++ input) := by
  induction input generalizing d with
  | nil => simp [feed]
  | cons ch chs ih =>
    simp only [feed, List.flatMap_append, List.append_assoc]
    rw [ih, encode_append, ← List.append_assoc, push_conserves, ← encode_append, List.append_assoc, List.singleton_append]

end Feed

/-! ### In a paste -/

/-- The front of what is pending is pasted up to where the end marker may have begun. -/
theorem settle_paste (text : List Char) (out : List DecodedInput) (pending : List Char) :
    ∃ pasted, pasted ++ overlap pasteEnd pending = pending ∧ settle (some text) out pending =
      if overlap pasteEnd pending = pasteEnd then (new, out ++ [.paste (text ++ pasted)])
      else (⟨overlap pasteEnd pending, some (text ++ pasted)⟩, out) := by
  induction pending generalizing text with
  | nil => exact ⟨[], rfl, by simp [settle, overlap, pasteEnd]⟩
  | cons ch rest ih =>
    rw [settle_some]
    by_cases hbegins : ch :: rest <+: pasteEnd
    · refine ⟨[], ?_, ?_⟩
      · rw [overlap_self hbegins, List.nil_append]
      · rw [overlap_self hbegins, List.append_nil, if_pos hbegins]
    · have hover : overlap pasteEnd (ch :: rest) = overlap pasteEnd rest := by
        rw [overlap, if_neg hbegins]
      have hmarker : ch :: rest ≠ pasteEnd := fun h => hbegins (h ▸ List.prefix_rfl)
      obtain ⟨pasted, hsplit, hsettle⟩ := ih (text ++ [ch])
      refine ⟨ch :: pasted, by rw [hover, List.cons_append, hsplit], ?_⟩
      rw [hover, if_neg hmarker, if_neg hbegins, hsettle, List.append_assoc, List.singleton_append]

/-- **An open paste holds the text up to the first end marker.** -/
theorem feed_paste (text : List Char) (h : ¬ pasteEnd <:+: text) :
    ∃ pasted, pasted ++ overlap pasteEnd text = text ∧
      opened.feed text = (⟨overlap pasteEnd text, some pasted⟩, []) := by
  induction text using List.reverseRecOn with
  | nil => exact ⟨[], rfl, rfl⟩
  | append_singleton text ch ih =>
    obtain ⟨pasted, hsplit, hfeed⟩ := ih fun hin => h (hin.trans (List.prefix_append _ _).isInfix)
    have hnot : overlap pasteEnd (text ++ [ch]) ≠ pasteEnd := fun heq =>
      h (overlap_eq_self.mp heq).isInfix
    obtain ⟨more, hmore, hsettle⟩ := settle_paste pasted [] (overlap pasteEnd text ++ [ch])
    rw [← overlap_concat] at hmore hsettle
    rw [if_neg hnot] at hsettle
    refine ⟨pasted ++ more, ?_, ?_⟩
    · rw [List.append_assoc, hmore, ← List.append_assoc, hsplit]
    · rw [feed_concat, hfeed]
      dsimp only [push]
      rw [hsettle]
      rfl

/-- **And then the text, as one paste.** -/
theorem feed_closes (text : List Char) (h : ¬ pasteEnd <:+: (text ++ pasteEnd).dropLast) :
    opened.feed (text ++ pasteEnd) = (new, [.paste text]) := by
  have hlast : text ++ pasteEnd = (text ++ pasteEnd).dropLast ++ ['~'] := by
    rw [List.dropLast_append_of_ne_nil (by decide), List.append_assoc]
    rfl
  obtain ⟨pasted, hsplit, hfeed⟩ := feed_paste _ h
  have hover : overlap pasteEnd ((text ++ pasteEnd).dropLast ++ ['~']) = pasteEnd := by
    rw [← hlast]
    exact overlap_eq_self.mpr (List.suffix_append _ _)
  obtain ⟨more, hmore, hsettle⟩ := settle_paste pasted [] (overlap pasteEnd (text ++ pasteEnd).dropLast ++ ['~'])
  rw [← overlap_concat, hover] at hmore hsettle
  rw [if_pos rfl] at hsettle
  have htext : pasted ++ more = text := by
    have hends : pasted ++ more ++ pasteEnd = text ++ pasteEnd := by
      rw [List.append_assoc, hmore, ← List.append_assoc, hsplit, ← hlast]
    exact List.append_cancel_right hends
  rw [hlast, feed_concat, hfeed]
  dsimp only [push]
  rw [hsettle, htext]
  rfl

/-! ### Outside of a paste -/

/-- What is held outside of a paste begins an escape sequence that is not complete. -/
def Unfinished (pending : List Char) : Prop := pending.head? = some '\x1b' ∧ vtSequenceComplete pending = false

theorem unfinished_of_begins {pending : List Char} (h : pending <+: pasteStart) (hne : pending ≠ [])
    (hmarker : pending ≠ pasteStart) : Unfinished pending := by
  have hmem : pending ∈ pasteStart.inits := (List.mem_inits _ _).mpr h
  rw [show pasteStart.inits = [[], ['\x1b'], ['\x1b', '['], ['\x1b', '[', '2'], ['\x1b', '[', '2', '0'],
    ['\x1b', '[', '2', '0', '0'], pasteStart] from rfl] at hmem
  simp only [List.mem_cons, List.not_mem_nil, or_false] at hmem
  rcases hmem with rfl | rfl | rfl | rfl | rfl | rfl | rfl
  · exact absurd rfl hne
  · exact ⟨rfl, by decide⟩
  · exact ⟨rfl, by decide⟩
  · exact ⟨rfl, by decide⟩
  · exact ⟨rfl, by decide⟩
  · exact ⟨rfl, by decide⟩
  · exact absurd rfl hmarker

theorem settle_unfinished (paste : Option (List Char)) (out : List DecodedInput) (pending : List Char)
    (h : (settle paste out pending).1.paste = none) :
    (settle paste out pending).1.pending = [] ∨ Unfinished (settle paste out pending).1.pending := by
  induction pending generalizing paste out with
  | nil => exact .inl rfl
  | cons ch rest ih =>
    rcases paste with _ | text
    · rw [settle_none] at h ⊢
      split_ifs at h ⊢ with hmarker hbegins hescape hcomplete
      · exact .inl rfl
      · exact .inr (unfinished_of_begins hbegins (List.cons_ne_nil _ _) hmarker)
      · exact .inl rfl
      · exact .inr ⟨congrArg some hescape, eq_false_of_ne_true hcomplete⟩
      · exact ih none _ h
    · rw [settle_some] at h ⊢
      by_cases hmarker : ch :: rest = pasteEnd
      · rw [if_pos hmarker]
        exact .inl rfl
      · rw [if_neg hmarker] at h ⊢
        by_cases hbegins : ch :: rest <+: pasteEnd
        · rw [if_pos hbegins] at h
          cases h
        · rw [if_neg hbegins] at h ⊢
          exact ih _ _ h

theorem feed_unfinished (input : List Char) (h : (new.feed input).1.paste = none) :
    (new.feed input).1.pending = [] ∨ Unfinished (new.feed input).1.pending := by
  rcases List.eq_nil_or_concat input with rfl | ⟨before, ch, rfl⟩
  · exact .inl rfl
  · rw [List.concat_eq_append, feed_concat] at h ⊢
    exact settle_unfinished _ _ _ h

/-- **An escape completes what is held**, unless that is a mouse report. -/
theorem complete_of_escape {pending : List Char} (h : Unfinished pending) (hmouse : isMouseReport pending = false) :
    vtSequenceComplete (pending ++ ['\x1b']) = true := by
  obtain ⟨hhead, hopen⟩ := h
  rcases pending with _ | ⟨ch, rest⟩
  · cases hhead
  cases hhead
  have hold : Utf8.encode ('\x1b' :: rest) = 0x1b :: Utf8.encode rest := rfl
  have hnew : Utf8.encode ('\x1b' :: rest ++ ['\x1b']) = 0x1b :: (Utf8.encode rest ++ [0x1b]) := by
    rw [encode_append, hold]
    rfl
  unfold isMouseReport at hmouse
  unfold vtSequenceComplete isMouseReport at hopen
  unfold vtSequenceComplete isMouseReport
  rw [hold] at hmouse hopen
  rw [hnew]
  generalize Utf8.encode rest = body at hmouse hopen
  rcases body with _ | ⟨b, _ | ⟨c, body⟩⟩
  · simp
  · simp only [List.getElem?_cons_succ, List.getElem?_cons_zero, Option.some.injEq] at hopen ⊢
    split_ifs at hopen ⊢ <;> simp_all
  · simp only [List.getElem?_cons_succ, List.getElem?_cons_zero, Option.some.injEq, List.cons_append] at hmouse hopen ⊢
    split_ifs at hopen ⊢ <;> simp_all

/-- **A start marker after what is held is hidden.** Its escape is passed on with that, and the
rest of it as typed. -/
theorem hidden_paste {d : PasteDecoder} (hpaste : d.paste = none) (h : Unfinished d.pending)
    (hmouse : isMouseReport d.pending = false) :
    d.feed pasteStart = (new, .raw (Utf8.encode (d.pending ++ ['\x1b'])) :: (new.feed pasteStart.tail).2) := by
  have hbegins : ¬ d.pending ++ ['\x1b'] <+: pasteStart := by
    rintro ⟨more, hmore⟩
    obtain ⟨hhead, -⟩ := h
    rcases hpending : d.pending with _ | ⟨ch, rest⟩
    · rw [hpending] at hhead
      cases hhead
    · rw [hpending] at hmore
      have htail : rest ++ ['\x1b'] ++ more = pasteStart.tail := congrArg List.tail hmore
      have hmem : '\x1b' ∈ pasteStart.tail := by
        rw [← htail]
        simp
      exact absurd hmem (by decide)
  have hmarker : d.pending ++ ['\x1b'] ≠ pasteStart := fun heq => hbegins (heq ▸ List.prefix_rfl)
  have hpush : d.push '\x1b' = (new, [.raw (Utf8.encode (d.pending ++ ['\x1b']))]) := by
    have hcomplete := complete_of_escape h hmouse
    obtain ⟨hhead, -⟩ := h
    rw [push, hpaste]
    rcases hpending : d.pending with _ | ⟨ch, rest⟩
    · rw [hpending] at hhead
      cases hhead
    · rw [hpending] at hhead hcomplete hbegins hmarker
      cases hhead
      rw [List.cons_append] at hcomplete hbegins hmarker ⊢
      rw [settle_none, if_neg hmarker, if_neg hbegins, if_pos rfl, if_pos hcomplete]
      rfl
  have htail : (new.feed pasteStart.tail).1 = new := by decide
  have hfeed : d.feed ('\x1b' :: pasteStart.tail) = ((new.feed pasteStart.tail).1,
      [.raw (Utf8.encode (d.pending ++ ['\x1b']))] ++ (new.feed pasteStart.tail).2) := by
    rw [feed, hpush]
  rw [htail] at hfeed
  exact hfeed

theorem feed_start : new.feed pasteStart = (opened, []) := by decide

/-- **When every paste is delivered.** The input comes to what it must if and only if no start
marker outside of a paste and of a mouse report finds an escape sequence held that is not
complete. -/
theorem pastes_delivered_iff (input : List Char) : Delivers input ↔
    ∀ before after, input = before ++ pasteStart ++ after → (new.feed before).1.paste = none →
      isMouseReport (new.feed before).1.pending = false → (new.feed before).1.pending = [] := by
  have hfeed : ∀ before, (new.feed (before ++ pasteStart)).1 = ((new.feed before).1.feed pasteStart).1 := fun before => by
    rw [feed_append]
  constructor
  · intro h before after hinput hpaste hmouse
    have hopened := h.opens before after hinput hpaste hmouse
    rcases feed_unfinished before hpaste with hnil | hheld
    · exact hnil
    · rw [hfeed, hidden_paste hpaste hheld hmouse] at hopened
      cases hopened
  · intro h
    refine ⟨?_, fun before after hinput hpaste hmouse => ?_, fun before text after hinput hopened htext => ?_,
      fun before text after hinput hopened htext => feed_closes text htext⟩
    · rw [feed_conserves]
      rfl
    · have hnil := h before after hinput hpaste hmouse
      have hnew : (new.feed before).1 = new := by
        rcases hstate : (new.feed before).1 with ⟨pending, paste⟩
        rw [hstate] at hnil hpaste
        rw [show pending = [] from hnil, show paste = none from hpaste]
        rfl
      rw [hfeed, hnew, feed_start]
    · obtain ⟨pasted, hsplit, hfed⟩ := feed_paste text htext
      rw [hfed]
      refine ⟨rfl, ?_⟩
      show pasteStart ++ pasted ++ overlap pasteEnd text = pasteStart ++ text
      rw [List.append_assoc, hsplit]

/-- A lone escape, and then a paste. -/
def escapedPaste : List Char := '\x1b' :: pasteStart ++ ['r', 'm', '\r'] ++ pasteEnd

/-- The paste is passed on as if it were typed. -/
theorem escape_hides_paste : ¬ Delivers escapedPaste := by
  intro h
  have hopened := h.opens ['\x1b'] (['r', 'm', '\r'] ++ pasteEnd) rfl (by decide) (by decide)
  exact absurd hopened (by decide)

end AttachInput
end Client
end OpenRelay
