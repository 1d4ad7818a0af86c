/-
# If-None-Match

A request for a file names the entity tags that the client has, and is answered without the file if the
current one is among them (`http/static_files.rs`, `etag_matches`). All values of the field are put
together and cut at the commas that aren't in quotes; every piece must be a tag.

The field's grammar says the same (`Reads`): elements between commas, each of them blank or a tag with
blanks around it. The tags match if the field reads and has one with the current one's text, or if it is
the wildcard alone (`etag_matches_iff`).

Key theorems: `split_of_reads`, `reads_of_valid`.
-/
import OpenRelay.Basic
import OpenRelay.Lib.Trim

namespace OpenRelay
namespace Http
namespace EntityTags

open Texts (trim)

/-! ### The code -/

/-- What a header may hold: no control byte but the tab. -/
structure HeaderValue where
  bytes : Bytes
  visible : ∀ b ∈ bytes, b = 9 ∨ 32 ≤ b ∧ b ≠ 127

def quote : UInt8 := 34

def comma : UInt8 := 44

def isAsciiWhitespace (b : UInt8) : Bool := b == 32 || b == 9 || b == 10 || b == 12 || b == 13

/-- All occurrences of the field, with commas between them. -/
def candidates : List HeaderValue → Bytes
  | [] => []
  | value :: values => value.bytes ++ values.flatMap fun value => comma :: value.bytes

/-- The tag without the mark of a weak one. -/
def stripWeak : Bytes → Bytes
  | 87 :: 47 :: tag => tag
  | tag => tag

/-- A byte that a tag may have. -/
def isEtagChar (b : UInt8) : Bool := b == 0x21 || (0x23 ≤ b && b ≤ 0x7e) || 0x80 ≤ b

/-- The text between the quotes. -/
def stripQuotes (tag : Bytes) : Option Bytes :=
  match tag with
  | 34 :: tag => if tag.getLast? = some quote then some tag.dropLast else none
  | _ => none

/-- A tag in quotes, perhaps a weak one. -/
def validEtag (tag : Bytes) : Bool :=
  match stripQuotes (stripWeak tag) with
  | none => false
  | some content => content.all isEtagChar

/-- The loop of `split_etag_list`, with the piece that is under way. -/
def splitLoop : Bool → Bytes → Bytes → List Bytes
  | _, piece, [] => [trim isAsciiWhitespace piece]
  | inQuotes, piece, ch :: value =>
    if ch = quote then splitLoop (!inQuotes) (piece ++ [ch]) value
    else if ch = comma ∧ inQuotes = false then trim isAsciiWhitespace piece :: splitLoop inQuotes [] value
    else splitLoop inQuotes (piece ++ [ch]) value

/-- The tags of a list, the empty ones left out. -/
def splitEtagList (value : Bytes) : List Bytes := (splitLoop false [] value).filter fun tag => !tag.isEmpty

/-- The values name the tag: as an asterisk alone, or in a list of tags that are all right; weakly. -/
def etagMatches (values : List HeaderValue) (etag : HeaderValue) : Bool :=
  if values.isEmpty then false
  else if trim isAsciiWhitespace (candidates values) = [42] then true
  else
    let tags := splitEtagList (candidates values)
    if !tags.all validEtag then false
    else tags.any fun tag => stripWeak tag = stripWeak etag.bytes

/-! ### The grammar -/

/-- A tag whose content is right. -/
structure EntityTag where
  weak : Bool
  content : Bytes
  legal : ∀ b ∈ content, isEtagChar b = true

namespace EntityTag

/-- The text between its quotes, and the mark of a weak one before. -/
def text (tag : EntityTag) : Bytes := (if tag.weak then [87, 47] else []) ++ quote :: tag.content ++ [quote]

/-- Tags are compared without the mark. -/
def WeaklyEqual (s t : EntityTag) : Prop := s.content = t.content

end EntityTag

/-- Optional blanks. -/
def Blank (bytes : Bytes) : Prop := ∀ b ∈ bytes, b = 32 ∨ b = 9

/-- What stands between commas: nothing but blanks, or a tag. -/
inductive Element : Bytes → List EntityTag → Prop
  | empty {l : Bytes} (h : Blank l) : Element l []
  | tag {l r : Bytes} (hl : Blank l) (t : EntityTag) (hr : Blank r) : Element (l ++ t.text ++ r) [t]

/-- The field is a list of the tags. -/
inductive Reads : Bytes → List EntityTag → Prop
  | last {e : Bytes} {ts : List EntityTag} (h : Element e ts) : Reads e ts
  | cons {e : Bytes} {ts : List EntityTag} {field : Bytes} {tags : List EntityTag} (h : Element e ts)
      (hmore : Reads field tags) : Reads (e ++ comma :: field) (ts ++ tags)

/-- The field is the wildcard. -/
def Wildcard (field : Bytes) : Prop := ∃ l r, Blank l ∧ Blank r ∧ field = l ++ [42] ++ r

/-! ### Tags -/

section Tags

variable {tag content : Bytes}

theorem stripQuotes_quoted (content : Bytes) : stripQuotes (quote :: (content ++ [quote])) = some content := by
  simp [stripQuotes, quote]

theorem quoted_of_stripQuotes (h : stripQuotes tag = some content) : tag = quote :: (content ++ [quote]) := by
  unfold stripQuotes at h
  split at h
  · rename_i rest
    split_ifs at h with hlast
    cases h
    obtain ⟨before, rfl⟩ := List.getLast?_eq_some_iff.mp hlast
    rw [List.dropLast_concat]
    rfl
  · cases h

/-- The mark is there, or nothing is done. -/
theorem stripWeak_cases (tag : Bytes) : tag = 87 :: 47 :: stripWeak tag ∨ tag = stripWeak tag := by
  unfold stripWeak
  split
  · exact .inl rfl
  · exact .inr rfl

namespace EntityTag

variable (t : EntityTag)

theorem text_eq : t.text = (if t.weak then [87, 47] else []) ++ quote :: (t.content ++ [quote]) := by
  rw [text, List.append_assoc, List.cons_append]

theorem stripWeak_text : stripWeak t.text = quote :: (t.content ++ [quote]) := by
  rw [text_eq]
  cases t.weak with
  | true => rfl
  | false => rfl

theorem validEtag_text : validEtag t.text = true := by
  rw [validEtag, stripWeak_text, stripQuotes_quoted]
  exact List.all_eq_true.mpr t.legal

theorem text_ne_nil : t.text ≠ [] := by
  rw [text_eq]
  exact List.append_ne_nil_of_right_ne_nil _ (List.cons_ne_nil _ _)

theorem weaklyEqual_iff {s t : EntityTag} : stripWeak s.text = stripWeak t.text ↔ s.WeaklyEqual t := by
  rw [stripWeak_text, stripWeak_text, List.cons.injEq, List.append_cancel_right_eq]
  exact and_iff_right rfl

end EntityTag

/-- A tag that passes is one of the grammar. -/
theorem tag_of_valid (h : validEtag tag = true) : ∃ t : EntityTag, t.text = tag := by
  unfold validEtag at h
  split at h
  · cases h
  · rename_i content hquotes
    have hquoted := quoted_of_stripQuotes hquotes
    rcases stripWeak_cases tag with htag | htag
    · exact ⟨⟨true, content, List.all_eq_true.mp h⟩, by rw [EntityTag.text_eq, htag, hquoted]; rfl⟩
    · exact ⟨⟨false, content, List.all_eq_true.mp h⟩, by rw [EntityTag.text_eq, htag, hquoted]; rfl⟩

end Tags

/-! ### Blanks -/

theorem Blank.whitespace {l : Bytes} (h : Blank l) : ∀ b ∈ l, isAsciiWhitespace b = true := by
  intro b hb
  rcases h b hb with rfl | rfl <;> rfl

/-- Of the whitespace only blanks are in a header. -/
theorem blank_of_whitespace {l : Bytes} (hl : ∀ b ∈ l, isAsciiWhitespace b = true)
    (hvisible : ∀ b ∈ l, b = 9 ∨ 32 ≤ b ∧ b ≠ 127) : Blank l := by
  intro b hb
  have hws := hl b hb
  simp only [isAsciiWhitespace, Bool.or_eq_true, beq_iff_eq] at hws
  rcases hvisible b hb with h | ⟨h, -⟩
  · exact .inr h
  · rcases hws with (((rfl | rfl) | rfl) | rfl) | rfl
    · exact .inl rfl
    all_goals exact absurd h (by decide)

theorem trim_tag {l r : Bytes} (hl : Blank l) (t : EntityTag) (hr : Blank r) :
    trim isAsciiWhitespace (l ++ t.text ++ r) = t.text := by
  refine Texts.trim_of_between hl.whitespace hr.whitespace ?_ ?_
  · rw [EntityTag.text_eq]
    cases t.weak with
    | true => simp [isAsciiWhitespace]
    | false => simp [isAsciiWhitespace, quote]
  · rw [EntityTag.text, List.getLast?_concat]
    simp [isAsciiWhitespace, quote]

/-! ### The list is read -/

section Split

variable {e field : Bytes} {ts tags : List EntityTag}

/-- What the loop goes on through. -/
theorem splitLoop_plain {inQuotes : Bool} {x : Bytes} (hx : ∀ b ∈ x, b ≠ quote ∧ (inQuotes = true ∨ b ≠ comma))
    (piece value : Bytes) : splitLoop inQuotes piece (x ++ value) = splitLoop inQuotes (piece ++ x) value := by
  induction x generalizing piece with
  | nil => rw [List.nil_append, List.append_nil]
  | cons b x ih =>
    obtain ⟨hquote, hcomma⟩ := hx b List.mem_cons_self
    have hgoes : ¬ (b = comma ∧ inQuotes = false) := by
      rintro ⟨rfl, rfl⟩
      simp at hcomma
    rw [List.cons_append, splitLoop, if_neg hquote, if_neg hgoes, ih fun b' hb' => hx b' (List.mem_cons_of_mem _ hb'),
      List.append_assoc, List.singleton_append]

theorem splitLoop_quote (inQuotes : Bool) (piece value : Bytes) :
    splitLoop inQuotes piece (quote :: value) = splitLoop (!inQuotes) (piece ++ [quote]) value := by
  rw [splitLoop, if_pos rfl]

/-- There is no quote within a tag's quotes. -/
theorem content_plain (t : EntityTag) : ∀ b ∈ t.content, b ≠ quote ∧ (true = true ∨ b ≠ comma) := by
  intro b hb
  refine ⟨?_, .inl rfl⟩
  rintro rfl
  exact absurd (t.legal _ hb) (by decide)

theorem splitLoop_tag (t : EntityTag) (piece value : Bytes) :
    splitLoop false piece (t.text ++ value) = splitLoop false (piece ++ t.text) value := by
  have hmark : ∀ b ∈ (if t.weak then [87, 47] else []), b ≠ quote ∧ (false = true ∨ b ≠ comma) := by
    cases t.weak with
    | true =>
      intro b hb
      obtain rfl | rfl : b = 87 ∨ b = 47 := by simpa using hb
      · exact ⟨by decide, .inr (by decide)⟩
      · exact ⟨by decide, .inr (by decide)⟩
    | false => exact nofun
  rw [EntityTag.text_eq, List.append_assoc, splitLoop_plain hmark, List.cons_append, splitLoop_quote, Bool.not_false,
    List.append_assoc t.content, splitLoop_plain (content_plain t), List.singleton_append, splitLoop_quote]
  simp

theorem blank_plain {l : Bytes} (h : Blank l) : ∀ b ∈ l, b ≠ quote ∧ (false = true ∨ b ≠ comma) := by
  intro b hb
  rcases h b hb with rfl | rfl <;> decide

/-- An element is a piece. -/
theorem splitLoop_element (h : Element e ts) (value : Bytes) :
    splitLoop false [] (e ++ value) = splitLoop false e value := by
  cases h with
  | empty h => exact splitLoop_plain (blank_plain h) [] value
  | @tag l r hl t hr =>
    rw [List.append_assoc, List.append_assoc, splitLoop_plain (blank_plain hl), splitLoop_tag,
      splitLoop_plain (blank_plain hr), List.nil_append]

/-- And it is its tag, or it is dropped. -/
theorem trim_element (h : Element e ts) :
    ([trim isAsciiWhitespace e].filter fun tag => !tag.isEmpty) = ts.map EntityTag.text := by
  cases h with
  | empty h =>
    rw [Texts.trim_of_blank h.whitespace]
    rfl
  | tag hl t hr =>
    rw [trim_tag hl t hr]
    simp [t.text_ne_nil]

/-- **A field that reads is cut into its tags.** -/
theorem split_of_reads (h : Reads field tags) : splitEtagList field = tags.map EntityTag.text := by
  rw [splitEtagList]
  induction h with
  | @last e ts h =>
    have hpiece := splitLoop_element h []
    rw [List.append_nil] at hpiece
    rw [hpiece, splitLoop]
    exact trim_element h
  | @cons e ts field tags h _ ih =>
    rw [splitLoop_element h, splitLoop, if_neg (by decide), if_pos ⟨rfl, rfl⟩, List.map_append, ← ih, ← trim_element h,
      ← List.filter_append]
    rfl

/-- The piece is an element if it is dropped or a tag. -/
theorem element_of_valid {piece : Bytes} (hvisible : ∀ b ∈ piece, b = 9 ∨ 32 ≤ b ∧ b ≠ 127)
    (hvalid : trim isAsciiWhitespace piece ≠ [] → validEtag (trim isAsciiWhitespace piece) = true) :
    ∃ ts, Element piece ts := by
  obtain ⟨l, r, hpiece, hl, hr⟩ := Texts.trim_between isAsciiWhitespace piece
  have hblank : ∀ x : Bytes, (∀ b ∈ x, isAsciiWhitespace b = true) → x ⊆ piece → Blank x := fun x hx hsub =>
    blank_of_whitespace hx fun b hb => hvisible b (hsub hb)
  have hbl : Blank l := hblank l hl (by rw [hpiece]; intro b hb; simp [hb])
  have hbr : Blank r := hblank r hr (by rw [hpiece]; intro b hb; simp [hb])
  by_cases hempty : trim isAsciiWhitespace piece = []
  · rw [hempty, List.append_nil] at hpiece
    rw [hpiece]
    exact ⟨[], .empty fun b hb => (List.mem_append.mp hb).elim (hbl b) (hbr b)⟩
  · obtain ⟨t, ht⟩ := tag_of_valid (hvalid hempty)
    rw [hpiece, ← ht]
    exact ⟨[t], .tag hbl t hbr⟩

/-- **A field whose pieces are tags reads.** -/
theorem reads_of_valid : ∀ {value piece : Bytes} {inQuotes : Bool}, (∀ b ∈ piece ++ value, b = 9 ∨ 32 ≤ b ∧ b ≠ 127) →
    (∀ tag ∈ splitLoop inQuotes piece value, tag ≠ [] → validEtag tag = true) → ∃ tags, Reads (piece ++ value) tags
  | [], piece, inQuotes, hvisible, hvalid => by
    rw [List.append_nil] at hvisible ⊢
    obtain ⟨ts, hts⟩ := element_of_valid hvisible (hvalid _ List.mem_cons_self)
    exact ⟨ts, .last hts⟩
  | ch :: value, piece, inQuotes, hvisible, hvalid => by
    have hnext : ∀ q, (∀ tag ∈ splitLoop q (piece ++ [ch]) value, tag ≠ [] → validEtag tag = true) →
        ∃ tags, Reads (piece ++ ch :: value) tags := fun q hq => by
      rw [List.append_cons] at hvisible ⊢
      exact reads_of_valid hvisible hq
    rw [splitLoop] at hvalid
    split_ifs at hvalid with hquote hcomma
    · exact hnext _ hvalid
    · obtain ⟨rfl, rfl⟩ := hcomma
      obtain ⟨ts, hts⟩ := element_of_valid (fun b hb => hvisible b (List.mem_append_left _ hb))
        (hvalid _ List.mem_cons_self)
      obtain ⟨tags, htags⟩ := @reads_of_valid value [] false
        (fun b hb => hvisible b (List.mem_append_right _ (List.mem_cons_of_mem _ hb)))
        fun tag htag => hvalid tag (List.mem_cons_of_mem _ htag)
      exact ⟨ts ++ tags, .cons hts htags⟩
    · exact hnext _ hvalid

end Split

/-! ### The match -/

theorem candidates_visible (values : List HeaderValue) : ∀ b ∈ candidates values, b = 9 ∨ 32 ≤ b ∧ b ≠ 127 := by
  rcases values with _ | ⟨value, values⟩
  · exact nofun
  · intro b hb
    rcases List.mem_append.mp hb with hb | hb
    · exact value.visible b hb
    · obtain ⟨value', -, hb⟩ := List.mem_flatMap.mp hb
      rcases List.mem_cons.mp hb with rfl | hb
      · exact .inr (by decide)
      · exact value'.visible b hb

theorem wildcard_iff {field : Bytes} (hvisible : ∀ b ∈ field, b = 9 ∨ 32 ≤ b ∧ b ≠ 127) :
    trim isAsciiWhitespace field = [42] ↔ Wildcard field := by
  constructor
  · intro htrim
    obtain ⟨l, r, hfield, hl, hr⟩ := Texts.trim_between isAsciiWhitespace field
    rw [htrim] at hfield
    have hsub : ∀ x : Bytes, x ⊆ field → ∀ b ∈ x, b = 9 ∨ 32 ≤ b ∧ b ≠ 127 := fun x hx b hb => hvisible b (hx hb)
    refine ⟨l, r, blank_of_whitespace hl (hsub l ?_), blank_of_whitespace hr (hsub r ?_), hfield⟩
    all_goals
      rw [hfield]
      intro b hb
      simp [hb]
  · rintro ⟨l, r, hl, hr, rfl⟩
    exact Texts.trim_of_between hl.whitespace hr.whitespace (by simp [isAsciiWhitespace]) (by simp [isAsciiWhitespace])

namespace EntityTag

/-- The tag as the value of a header. -/
def header (t : EntityTag) : HeaderValue where
  bytes := t.text
  visible := by
    have hcontent : ∀ b ∈ t.content, b = 9 ∨ 32 ≤ b ∧ b ≠ 127 := by
      intro b hb
      have hlegal := t.legal b hb
      simp only [isEtagChar, Bool.or_eq_true, Bool.and_eq_true, beq_iff_eq, decide_eq_true_eq] at hlegal
      refine .inr ?_
      rw [UInt8.le_iff_toNat_le, ne_eq, ← UInt8.toNat_inj]
      rcases hlegal with (rfl | ⟨hlow, hhigh⟩) | hhigh
      · decide
      · rw [UInt8.le_iff_toNat_le] at hlow hhigh
        have h1 : (0x23 : UInt8).toNat = 35 := rfl
        have h2 : (0x7e : UInt8).toNat = 126 := rfl
        have h3 : (32 : UInt8).toNat = 32 := rfl
        have h4 : (127 : UInt8).toNat = 127 := rfl
        omega
      · rw [UInt8.le_iff_toNat_le] at hhigh
        have h1 : (0x80 : UInt8).toNat = 128 := rfl
        have h3 : (32 : UInt8).toNat = 32 := rfl
        have h4 : (127 : UInt8).toNat = 127 := rfl
        omega
    intro b hb
    rw [text_eq, List.mem_append, List.mem_cons, List.mem_append, List.mem_singleton] at hb
    rcases hb with hb | rfl | hb | rfl
    · cases hweak : t.weak with
      | true =>
        simp only [hweak, if_true, List.mem_cons, List.not_mem_nil, or_false] at hb
        rcases hb with rfl | rfl <;> decide
      | false => simp [hweak] at hb
    · decide
    · exact hcontent b hb
    · decide

end EntityTag

/-- A list with a tag matches if one of its tags does. -/
theorem etagMatches_of_reads {values : List HeaderValue} {tags : List EntityTag} (h : Reads (candidates values) tags)
    (hstar : ¬ Wildcard (candidates values)) (current : EntityTag) :
    etagMatches values current.header = true ↔ ∃ t ∈ tags, t.WeaklyEqual current := by
  have hsplit := split_of_reads h
  rw [etagMatches]
  by_cases hnone : values.isEmpty = true
  · -- without the field there are no tags
    rw [if_pos hnone]
    rw [List.isEmpty_iff.mp hnone] at hsplit
    have htags : tags = [] := List.map_eq_nil_iff.mp hsplit.symm
    rw [htags]
    exact iff_of_false Bool.false_ne_true (by simp)
  rw [if_neg hnone, if_neg (mt (wildcard_iff (candidates_visible values)).mp hstar)]
  simp only [hsplit]
  have hvalid : (tags.map EntityTag.text).all validEtag = true := by simp [EntityTag.validEtag_text]
  rw [hvalid, Bool.not_true, if_neg Bool.false_ne_true, List.any_eq_true]
  constructor
  · rintro ⟨tag, hmem, hequal⟩
    obtain ⟨t, ht, rfl⟩ := List.mem_map.mp hmem
    exact ⟨t, ht, EntityTag.weaklyEqual_iff.mp (of_decide_eq_true hequal)⟩
  · rintro ⟨t, ht, hequal⟩
    exact ⟨t.text, List.mem_map_of_mem ht, decide_eq_true (EntityTag.weaklyEqual_iff.mpr hequal)⟩

theorem etagMatches_of_wildcard {values : List HeaderValue} (h : Wildcard (candidates values)) (etag : HeaderValue) :
    etagMatches values etag = true := by
  have hsome : values.isEmpty = false := by
    rcases values with _ | ⟨value, values⟩
    · obtain ⟨l, r, -, -, hnil⟩ := h
      simp [candidates] at hnil
    · rfl
  rw [etagMatches, hsome, if_neg Bool.false_ne_true, if_pos ((wildcard_iff (candidates_visible values)).mpr h)]

/-- A field that doesn't read has no match. -/
theorem etagMatches_malformed {values : List HeaderValue} (h : ¬ ∃ tags, Reads (candidates values) tags)
    (hstar : ¬ Wildcard (candidates values)) (etag : HeaderValue) : etagMatches values etag = false := by
  rw [etagMatches]
  by_cases hnone : values.isEmpty = true
  · rw [if_pos hnone]
  rw [if_neg hnone, if_neg (mt (wildcard_iff (candidates_visible values)).mp hstar)]
  have hinvalid : (!(splitEtagList (candidates values)).all validEtag) = true := by
    by_contra hvalid
    rw [Bool.not_eq_true', Bool.not_eq_false, List.all_eq_true] at hvalid
    refine h (@reads_of_valid (candidates values) [] false (candidates_visible values) fun tag htag hne => hvalid tag ?_)
    exact List.mem_filter.mpr ⟨htag, by simpa using hne⟩
  simp only [hinvalid, if_true]

/-- Two values of the field as one. -/
def HeaderValue.join (a b : HeaderValue) : HeaderValue where
  bytes := a.bytes ++ comma :: b.bytes
  visible := by
    intro c hc
    rcases List.mem_append.mp hc with hc | hc
    · exact a.visible c hc
    · rcases List.mem_cons.mp hc with rfl | hc
      · exact .inr (by decide)
      · exact b.visible c hc

theorem candidates_join (before after : List HeaderValue) (a b : HeaderValue) :
    candidates (before ++ a :: b :: after) = candidates (before ++ a.join b :: after) := by
  rcases before with _ | ⟨value, before⟩
  · simp [candidates, HeaderValue.join]
  · simp [candidates, HeaderValue.join]

theorem etagMatches_congr {values values' : List HeaderValue} (h : candidates values = candidates values')
    (hnone : values.isEmpty = values'.isEmpty) (etag : HeaderValue) : etagMatches values etag = etagMatches values' etag := by
  rw [etagMatches, etagMatches, h, hnone]

/-- **A match is one of the grammar.** The tags match if and only if the field, all its values put together, is
a list with a tag that is weakly the current one, or the wildcard alone; a malformed field is neither. And it
doesn't matter whether two values stand on a line each, or on one. -/
theorem etag_matches_iff :
    (∀ (values : List HeaderValue) (current : EntityTag), etagMatches values current.header = true ↔
      (∃ tags, Reads (candidates values) tags ∧ ∃ t ∈ tags, t.WeaklyEqual current) ∨ Wildcard (candidates values)) ∧
    ∀ (before after : List HeaderValue) (a b etag : HeaderValue),
      etagMatches (before ++ a :: b :: after) etag = etagMatches (before ++ a.join b :: after) etag := by
  refine ⟨fun values current => ?_, fun before after a b etag =>
    etagMatches_congr (candidates_join before after a b) (by cases before <;> rfl) etag⟩
  by_cases hstar : Wildcard (candidates values)
  · exact iff_of_true (etagMatches_of_wildcard hstar _) (.inr hstar)
  by_cases hreads : ∃ tags, Reads (candidates values) tags
  · obtain ⟨tags, htags⟩ := hreads
    rw [etagMatches_of_reads htags hstar]
    constructor
    · exact fun hmatch => .inl ⟨tags, htags, hmatch⟩
    · rintro (⟨tags', htags', hmatch⟩ | hwild)
      · rw [← etagMatches_of_reads htags hstar]
        exact (etagMatches_of_reads htags' hstar current).mpr hmatch
      · exact absurd hwild hstar
  · rw [etagMatches_malformed hreads hstar]
    refine iff_of_false Bool.false_ne_true ?_
    rintro (⟨tags, htags, -⟩ | hwild)
    · exact hreads ⟨tags, htags⟩
    · exact hstar hwild

end EntityTags
end Http
end OpenRelay
