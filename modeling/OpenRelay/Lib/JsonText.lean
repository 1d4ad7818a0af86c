/-
# Lists of strings as JSON

A list of strings as compact JSON text: the strings in quotes with commas between them, a quote, a backslash and
the control characters escaped (`array`).

Who looks for a text in the JSON finds it in one of the strings only if the text is none that the JSON brings
itself (`Searchable`): it has no quote and no control character, no backslash but at its beginning, it
doesn't begin inside an escape, and it isn't what stands between two quotes. For such a text looking in the JSON is
looking in the strings (`infix_array`), and for no other one (`searchable_of_infix`).
-/
import Mathlib.Data.List.Basic
import Mathlib.Data.List.Infix
import Mathlib.Data.Nat.Notation
import Mathlib.Tactic.SplitIfs

namespace JsonText

/-- A text, character by character. -/
abbrev Text := List Char

def hexDigit (n : ℕ) : Char := if n < 10 then Char.ofNat (48 + n) else Char.ofNat (87 + n)

/-- A control character, by its short form if it has one. -/
def controlEscape (n : ℕ) : Text :=
  match n with
  | 8 => ['\\', 'b']
  | 9 => ['\\', 't']
  | 10 => ['\\', 'n']
  | 12 => ['\\', 'f']
  | 13 => ['\\', 'r']
  | n => ['\\', 'u', '0', '0', hexDigit (n / 16), hexDigit (n % 16)]

/-- A character within quotes. -/
def escape (c : Char) : Text :=
  if c = '"' then ['\\', '"'] else if c = '\\' then ['\\', '\\'] else if c.toNat < 32 then controlEscape c.toNat else [c]

/-- What stands between the quotes. -/
def content (s : Text) : Text := s.flatMap escape

def string (s : Text) : Text := '"' :: (content s ++ ['"'])

/-- The array behind one of its strings. -/
def arrayRest : List Text → Text
  | [] => [']']
  | s :: ss => ',' :: (string s ++ arrayRest ss)

def array : List Text → Text
  | [] => ['[', ']']
  | s :: ss => '[' :: (string s ++ arrayRest ss)

/-! ### Escapes -/

/-- A character that is written as it is. -/
def Plain (c : Char) : Prop := c ≠ '"' ∧ c ≠ '\\' ∧ 32 ≤ c.toNat

theorem escape_plain {c : Char} (h : Plain c) : escape c = [c] := by
  unfold escape
  rw [if_neg h.1, if_neg h.2.1, if_neg (Nat.not_lt_of_le h.2.2)]

theorem escape_control {c : Char} (h : c.toNat < 32) : escape c = controlEscape c.toNat := by
  unfold escape
  rw [if_neg (by rintro rfl; exact absurd h (by decide)), if_neg (by rintro rfl; exact absurd h (by decide)), if_pos h]

theorem controlEscape_all : ∀ n < 32, (controlEscape n).head? = some '\\' ∧ 2 ≤ (controlEscape n).length ∧
    (controlEscape n).all (fun c => decide (c ≠ '"' ∧ 32 ≤ c.toNat)) = true := by decide

theorem controlEscape_spec {n : ℕ} (h : n < 32) : (controlEscape n).head? = some '\\' ∧ 2 ≤ (controlEscape n).length ∧
    ∀ c ∈ controlEscape n, c ≠ '"' ∧ 32 ≤ c.toNat := by
  obtain ⟨hhead, hlength, hall⟩ := controlEscape_all n h
  exact ⟨hhead, hlength, fun c hc => of_decide_eq_true (List.all_eq_true.mp hall c hc)⟩

theorem visible_of_all {t : Text} (h : t.all (fun c => decide (32 ≤ c.toNat)) = true) : ∀ c ∈ t, 32 ≤ c.toNat :=
  fun c hc => of_decide_eq_true (List.all_eq_true.mp h c hc)

theorem escape_cases (c : Char) : Plain c ∨ c = '"' ∨ c = '\\' ∨ c.toNat < 32 := by
  by_cases hquote : c = '"'
  · exact .inr (.inl hquote)
  by_cases hbackslash : c = '\\'
  · exact .inr (.inr (.inl hbackslash))
  by_cases hcontrol : c.toNat < 32
  · exact .inr (.inr (.inr hcontrol))
  · exact .inl ⟨hquote, hbackslash, Nat.le_of_not_lt hcontrol⟩

/-- What isn't plain is longer than it was, behind a backslash. -/
theorem escape_special {c : Char} (h : ¬Plain c) : ∃ e, escape c = '\\' :: e ∧ e ≠ [] := by
  obtain hplain | rfl | rfl | hcontrol := escape_cases c
  · exact absurd hplain h
  · exact ⟨['"'], by decide, List.cons_ne_nil _ _⟩
  · exact ⟨['\\'], by decide, List.cons_ne_nil _ _⟩
  · obtain ⟨hhead, hlength, -⟩ := controlEscape_spec hcontrol
    rw [escape_control hcontrol]
    cases hescape : controlEscape c.toNat with
    | nil =>
      rw [hescape] at hhead
      cases hhead
    | cons d e =>
      rw [hescape] at hhead hlength
      cases hhead
      refine ⟨e, rfl, fun hnil => ?_⟩
      rw [hnil] at hlength
      exact absurd hlength (by decide)

theorem escape_ne_nil (c : Char) : escape c ≠ [] := by
  by_cases h : Plain c
  · rw [escape_plain h]
    exact List.cons_ne_nil _ _
  · obtain ⟨e, he, -⟩ := escape_special h
    rw [he]
    exact List.cons_ne_nil _ _

@[simp] theorem content_nil : content [] = [] := rfl

@[simp] theorem content_cons (c : Char) (s : Text) : content (c :: s) = escape c ++ content s := List.flatMap_cons

@[simp] theorem content_append (s t : Text) : content (s ++ t) = content s ++ content t := List.flatMap_append

theorem content_plain : ∀ {s : Text}, (∀ c ∈ s, Plain c) → content s = s
  | [], _ => rfl
  | c :: s, h => by
    rw [content_cons, escape_plain (h c List.mem_cons_self), content_plain fun d hd => h d (List.mem_cons_of_mem c hd)]
    rfl

/-- No control character is in the JSON. -/
theorem escape_visible (c : Char) : ∀ d ∈ escape c, 32 ≤ d.toNat := by
  obtain hplain | rfl | rfl | hcontrol := escape_cases c
  · rw [escape_plain hplain]
    intro d hd
    rw [List.mem_singleton.mp hd]
    exact hplain.2.2
  · exact visible_of_all (by decide)
  · exact visible_of_all (by decide)
  · rw [escape_control hcontrol]
    exact fun d hd => ((controlEscape_spec hcontrol).2.2 d hd).2

theorem string_visible (s : Text) : ∀ d ∈ string s, 32 ≤ d.toNat := by
  intro d hd
  obtain rfl | hd := List.mem_cons.mp hd
  · decide
  obtain hd | hd := List.mem_append.mp hd
  · obtain ⟨c, -, hd⟩ := List.mem_flatMap.mp hd
    exact escape_visible c d hd
  · rw [List.mem_singleton.mp hd]
    decide

theorem arrayRest_visible : ∀ ss : List Text, ∀ d ∈ arrayRest ss, 32 ≤ d.toNat
  | [], d, hd => by
    rw [List.mem_singleton.mp hd]
    decide
  | s :: ss, d, hd => by
    obtain rfl | hd := List.mem_cons.mp hd
    · decide
    · exact (List.mem_append.mp hd).elim (string_visible s d) (arrayRest_visible ss d)

theorem array_visible : ∀ ss : List Text, ∀ d ∈ array ss, 32 ≤ d.toNat
  | [], d, hd => visible_of_all (by decide) d hd
  | s :: ss, d, hd => by
    obtain rfl | hd := List.mem_cons.mp hd
    · decide
    · exact (List.mem_append.mp hd).elim (string_visible s d) (arrayRest_visible ss d)

/-! ### Texts that may be looked for -/

/-- The text begins where an escape of a control character has begun, or is a part of one. -/
def startsInEscape (v : Text) : Bool :=
  (List.range 32).any fun n => (controlEscape n).tails.any fun r => !r.isEmpty && (r.isPrefixOf v || v.isPrefixOf r)

/-- A text that is found in an array exactly where it is found in one of the array's texts: it has nothing of the
quoting, and is none of the array's own marks. -/
def Searchable (v : Text) : Prop :=
  (∀ c ∈ v, c ≠ '"' ∧ 32 ≤ c.toNat) ∧ '\\' ∉ v.tail ∧ startsInEscape v = false ∧
    v ∉ [['['], [']'], ['[', ']'], [',']]

instance (v : Text) : Decidable (Searchable v) :=
  have : Decidable (∀ c ∈ v, c ≠ '"' ∧ 32 ≤ c.toNat) := List.decidableBAll (fun c => c ≠ '"' ∧ 32 ≤ c.toNat) v
  inferInstanceAs (Decidable (_ ∧ _ ∧ _ ∧ _))

theorem startsInEscape_of {v r : Text} {n : ℕ} (hn : n < 32) (hr : r <:+ controlEscape n) (hne : r ≠ [])
    (h : r <+: v ∨ v <+: r) : startsInEscape v = true := by
  refine List.any_eq_true.mpr ⟨n, List.mem_range.mpr hn, List.any_eq_true.mpr ⟨r, (List.mem_tails r _).mpr hr, ?_⟩⟩
  rw [Bool.and_eq_true, Bool.or_eq_true, List.isPrefixOf_iff_prefix, List.isPrefixOf_iff_prefix]
  exact ⟨by simpa using hne, h⟩

theorem startsInEscape_iff {v : Text} :
    startsInEscape v = true ↔ ∃ n < 32, ∃ r, r <:+ controlEscape n ∧ r ≠ [] ∧ (r <+: v ∨ v <+: r) := by
  constructor
  · intro h
    obtain ⟨n, hn, h⟩ := List.any_eq_true.mp h
    obtain ⟨r, hr, h⟩ := List.any_eq_true.mp h
    rw [Bool.and_eq_true, Bool.or_eq_true, List.isPrefixOf_iff_prefix, List.isPrefixOf_iff_prefix] at h
    exact ⟨n, List.mem_range.mp hn, r, (List.mem_tails r _).mp hr, by simpa using h.1, h.2⟩
  · rintro ⟨n, hn, r, hr, hne, h⟩
    exact startsInEscape_of hn hr hne h

section Found

variable {v : Text}

/-- Nothing but plain characters behind its first one. -/
theorem Searchable.plain_tail (h : Searchable v) : ∀ c ∈ v.tail, Plain c := fun c hc =>
  have hchar := h.1 c (List.mem_of_mem_tail hc)
  ⟨hchar.1, fun hbackslash => h.2.1 (hbackslash ▸ hc), hchar.2⟩

/-- Where something begins with the text: in the front, or behind it. -/
theorem infix_append_cases {l m : Text} (h : v <:+: l ++ m) : (∃ r, r <:+ l ∧ r ≠ [] ∧ v <+: r ++ m) ∨ v <:+: m := by
  induction l with
  | nil => exact .inr h
  | cons c l ih =>
    obtain h | h := List.infix_cons_iff.mp h
    · exact .inl ⟨c :: l, List.suffix_rfl, List.cons_ne_nil _ _, h⟩
    · obtain ⟨r, hr, hne, h⟩ | h := ih h
      · exact .inl ⟨r, hr.trans (List.suffix_cons c l), hne, h⟩
      · exact .inr h

/-- Plain characters that stand at the beginning of a string's content stand at the beginning of the string. -/
theorem prefix_of_content : ∀ {w s m : Text}, (∀ c ∈ w, Plain c) → w <+: content s ++ '"' :: m → w <+: s
  | [], s, m, _, _ => List.nil_prefix
  | d :: w, [], m, hw, h => by
    have hd := hw d List.mem_cons_self
    obtain ⟨rfl, -⟩ := List.cons_prefix_cons.mp h
    exact absurd rfl hd.1
  | d :: w, c :: s, m, hw, h => by
    have hd := hw d List.mem_cons_self
    rw [content_cons, List.append_assoc] at h
    by_cases hc : Plain c
    · rw [escape_plain hc] at h
      obtain ⟨rfl, hrest⟩ := List.cons_prefix_cons.mp h
      exact List.cons_prefix_cons.mpr ⟨rfl, prefix_of_content (fun e he => hw e (List.mem_cons_of_mem d he)) hrest⟩
    · obtain ⟨e, he, -⟩ := escape_special hc
      rw [he] at h
      obtain ⟨rfl, -⟩ := List.cons_prefix_cons.mp h
      exact absurd rfl hd.2.1

theorem suffix_pair {a b : Char} {r : Text} (h : r <:+ [a, b]) (hne : r ≠ []) : r = [a, b] ∨ r = [b] := by
  obtain h | h := List.suffix_cons_iff.mp h
  · exact .inl h
  obtain h | h := List.suffix_cons_iff.mp h
  · exact .inr h
  · exact absurd (List.suffix_nil.mp h) hne

/-- From inside an escape on. -/
theorem Searchable.prefix_escape (h : Searchable v) (hv : v ≠ []) {c : Char} {r s m : Text} (hr : r <:+ escape c) (hne : r ≠ [])
    (hfront : v <+: r ++ (content s ++ '"' :: m)) : v <+: c :: s := by
  obtain ⟨d, w, rfl⟩ := List.exists_cons_of_ne_nil hv
  have hw : ∀ e ∈ w, Plain e := h.plain_tail
  have hd := h.1 d List.mem_cons_self
  -- the first character, when it stands for itself
  have hwhole : ∀ e, d :: w <+: e :: (content s ++ '"' :: m) → d :: w <+: e :: s := fun e he => by
    obtain ⟨rfl, hrest⟩ := List.cons_prefix_cons.mp he
    exact List.cons_prefix_cons.mpr ⟨rfl, prefix_of_content hw hrest⟩
  -- a backslash with what isn't plain behind it is no text to look for
  have hpair : ∀ {e : Char} {l : Text}, ¬Plain e → ¬d :: w <+: '\\' :: e :: l := fun hspecial hescape => by
    obtain ⟨rfl, hrest⟩ := List.cons_prefix_cons.mp hescape
    cases w with
    | nil => exact absurd h.2.2.1 (by decide)
    | cons f w =>
      obtain ⟨rfl, -⟩ := List.cons_prefix_cons.mp hrest
      exact hspecial (hw f List.mem_cons_self)
  obtain hplain | rfl | rfl | hcontrol := escape_cases c
  · rw [escape_plain hplain] at hr
    obtain hone | hnil := List.suffix_cons_iff.mp hr
    · rw [hone] at hfront
      exact hwhole c hfront
    · exact absurd (List.suffix_nil.mp hnil) hne
  · obtain rfl | rfl := suffix_pair (show r <:+ ['\\', '"'] from hr) hne
    · exact absurd hfront (hpair fun hquote => hquote.1 rfl)
    · obtain ⟨rfl, -⟩ := List.cons_prefix_cons.mp hfront
      exact absurd rfl hd.1
  · obtain rfl | rfl := suffix_pair (show r <:+ ['\\', '\\'] from hr) hne
    · exact absurd hfront (hpair fun hbackslash => hbackslash.2.1 rfl)
    · exact hwhole '\\' hfront
  · rw [escape_control hcontrol] at hr
    have hcomparable := List.prefix_or_prefix_of_prefix (List.prefix_append r (content s ++ '"' :: m)) hfront
    have hstarts := startsInEscape_of hcontrol hr hne hcomparable
    rw [h.2.2.1] at hstarts
    cases hstarts

/-- In a string's content, or behind it. -/
theorem Searchable.infix_content (h : Searchable v) (hv : v ≠ []) {m : Text} : ∀ {s : Text}, v <:+: content s ++ '"' :: m →
    v <:+: s ∨ v <:+: m
  | [], hinside => by
    obtain hfront | hinside := List.infix_cons_iff.mp hinside
    · obtain ⟨d, w, rfl⟩ := List.exists_cons_of_ne_nil hv
      obtain ⟨rfl, -⟩ := List.cons_prefix_cons.mp hfront
      exact absurd rfl (h.1 '"' List.mem_cons_self).1
    · exact .inr hinside
  | c :: s, hinside => by
    rw [content_cons, List.append_assoc] at hinside
    obtain ⟨r, hr, hne, hfront⟩ | hinside := infix_append_cases hinside
    · exact .inl (h.prefix_escape hv hr hne hfront).isInfix
    · obtain hs | hm := h.infix_content hv hinside
      · exact .inl (List.infix_cons_iff.mpr (.inr hs))
      · exact .inr hm

theorem Searchable.infix_string (h : Searchable v) (hv : v ≠ []) {s m : Text} (hinside : v <:+: string s ++ m) :
    v <:+: s ∨ v <:+: m := by
  have hstring : string s ++ m = '"' :: (content s ++ '"' :: m) := by
    show '"' :: (content s ++ ['"'] ++ m) = _
    rw [List.append_assoc]
    rfl
  rw [hstring] at hinside
  obtain hfront | hinside := List.infix_cons_iff.mp hinside
  · obtain ⟨d, w, rfl⟩ := List.exists_cons_of_ne_nil hv
    obtain ⟨rfl, -⟩ := List.cons_prefix_cons.mp hfront
    exact absurd rfl (h.1 '"' List.mem_cons_self).1
  · exact h.infix_content hv hinside

/-- At a character of the array and a quote: only the character itself, which is none to look for. -/
theorem Searchable.not_prefix_mark (h : Searchable v) (hv : v ≠ []) {c : Char} (hc : [c] ∈ [['['], [']'], ['[', ']'], [',']])
    {m : Text} (hm : m.head? = some '"' ∨ m = []) : ¬v <+: c :: m := fun hfront => by
  obtain ⟨d, w, rfl⟩ := List.exists_cons_of_ne_nil hv
  obtain ⟨rfl, hrest⟩ := List.cons_prefix_cons.mp hfront
  cases w with
  | nil => exact h.2.2.2 hc
  | cons e w =>
    cases m with
    | nil => exact absurd (List.prefix_nil.mp hrest) (List.cons_ne_nil _ _)
    | cons f m =>
      obtain ⟨rfl, -⟩ := List.cons_prefix_cons.mp hrest
      obtain hquote | hnil := hm
      · cases hquote
        exact absurd rfl (h.plain_tail '"' List.mem_cons_self).1
      · cases hnil

theorem Searchable.infix_arrayRest (h : Searchable v) (hv : v ≠ []) : ∀ {ss : List Text}, v <:+: arrayRest ss → ∃ s ∈ ss, v <:+: s
  | [], hinside => by
    obtain hfront | hnil := List.infix_cons_iff.mp hinside
    · exact absurd hfront (h.not_prefix_mark hv (by decide) (.inr rfl))
    · exact absurd (List.infix_nil.mp hnil) hv
  | s :: ss, hinside => by
    obtain hfront | hinside := List.infix_cons_iff.mp hinside
    · exact absurd hfront (h.not_prefix_mark hv (by decide) (.inl rfl))
    obtain hs | hrest := h.infix_string hv hinside
    · exact ⟨s, List.mem_cons_self, hs⟩
    · obtain ⟨t, ht, hfound⟩ := h.infix_arrayRest hv hrest
      exact ⟨t, List.mem_cons_of_mem s ht, hfound⟩

/-- A text found in a string is found in its content: plain characters stay together, and a backslash in front of
them is doubled. -/
theorem Searchable.content_suffix (h : Searchable v) : v <:+ content v := by
  cases v with
  | nil => exact List.suffix_rfl
  | cons d w =>
    have hw : content w = w := content_plain h.plain_tail
    rw [content_cons, hw]
    by_cases hbackslash : d = '\\'
    · rw [hbackslash]
      exact List.suffix_cons _ _
    · have hd := h.1 d List.mem_cons_self
      rw [escape_plain ⟨hd.1, hbackslash, hd.2⟩]
      exact List.suffix_rfl

theorem string_infix_array : ∀ {ss : List Text} {s : Text}, s ∈ ss → string s <:+: array ss := by
  have hrest : ∀ {ss : List Text} {s : Text}, s ∈ ss → string s <:+: arrayRest ss := by
    intro ss
    induction ss with
    | nil => nofun
    | cons t ss ih =>
      intro s hs
      refine List.infix_cons_iff.mpr (.inr ?_)
      obtain rfl | hs := List.mem_cons.mp hs
      · exact (List.prefix_append _ _).isInfix
      · exact (ih hs).trans (List.suffix_append _ _).isInfix
  rintro (_ | ⟨t, ss⟩) s hs
  · cases hs
  · refine List.infix_cons_iff.mpr (.inr ?_)
    obtain rfl | hs := List.mem_cons.mp hs
    · exact (List.prefix_append _ _).isInfix
    · exact (hrest hs).trans (List.suffix_append _ _).isInfix

theorem content_infix_array {ss : List Text} {s : Text} (hs : s ∈ ss) : content s <:+: array ss :=
  (List.infix_append ['"'] (content s) ['"']).trans (string_infix_array hs)

theorem content_infix_content {s t : Text} (h : s <:+: t) : content s <:+: content t := by
  obtain ⟨l, r, rfl⟩ := h
  rw [content_append, content_append]
  exact List.infix_append _ _ _

/-- **A searchable text** is in the JSON if it is in one of the strings. -/
theorem infix_array (h : Searchable v) (hv : v ≠ []) (ss : List Text) : v <:+: array ss ↔ ∃ s ∈ ss, v <:+: s := by
  constructor
  · intro hinside
    cases ss with
    | nil =>
      -- the two brackets
      obtain hfront | hinside := List.infix_cons_iff.mp hinside
      · obtain ⟨d, w, rfl⟩ := List.exists_cons_of_ne_nil hv
        obtain ⟨rfl, hrest⟩ := List.cons_prefix_cons.mp hfront
        obtain hnil | hone := List.prefix_cons_iff.mp hrest
        · rw [hnil] at h
          exact absurd h.2.2.2 (by decide)
        · obtain ⟨t, rfl, ht⟩ := hone
          rw [List.prefix_nil.mp ht] at h
          exact absurd h.2.2.2 (by decide)
      · exact absurd hinside fun hlast => by
          obtain ⟨s, hs, -⟩ := @Searchable.infix_arrayRest v h hv [] hlast
          cases hs
    | cons s ss =>
      obtain hfront | hinside := List.infix_cons_iff.mp hinside
      · exact absurd hfront (h.not_prefix_mark hv (by decide) (.inl rfl))
      obtain hs | hrest := h.infix_string hv hinside
      · exact ⟨s, List.mem_cons_self, hs⟩
      · obtain ⟨t, ht, hfound⟩ := h.infix_arrayRest hv hrest
        exact ⟨t, List.mem_cons_of_mem s ht, hfound⟩
  · rintro ⟨s, hs, hfound⟩
    exact (h.content_suffix.isInfix.trans (content_infix_content hfound)).trans (content_infix_array hs)

end Found

/-! ### Texts that may not be looked for -/

section Unfound

variable {v mid : Text} {c d : Char}

/-- Escapes don't shorten, and only plain characters keep the length. -/
theorem length_content_le : ∀ s : Text, s.length ≤ (content s).length ∧ ((content s).length ≤ s.length → ∀ c ∈ s, Plain c)
  | [] => ⟨Nat.le_refl _, nofun⟩
  | c :: s => by
    obtain ⟨hle, hplain⟩ := length_content_le s
    rw [content_cons, List.length_append, List.length_cons]
    by_cases hc : Plain c
    · rw [escape_plain hc, List.length_singleton]
      refine ⟨by omega, fun h d hd => ?_⟩
      obtain rfl | hd := List.mem_cons.mp hd
      · exact hc
      · exact hplain (by omega) d hd
    · obtain ⟨e, he, hne⟩ := escape_special hc
      have hlength : 0 < e.length := List.length_pos_of_ne_nil hne
      rw [he, List.length_cons]
      exact ⟨by omega, fun h => by omega⟩

/-- A text that is found in its own JSON, but not without its first or its last character: what is between them is
plain, and it begins with the end of an escape and ends with the beginning of one. -/
theorem window (hself : c :: (mid ++ [d]) <:+: array [c :: (mid ++ [d])])
    (htail : ¬c :: (mid ++ [d]) <:+: content mid ++ (escape d ++ ['"', ']']))
    (hinit : ¬c :: (mid ++ [d]) <:+: '[' :: '"' :: escape c ++ content mid) :
    (∀ e ∈ mid, Plain e) ∧ (∃ l, escape c = l ++ [c]) ∧ ∃ r, escape d = d :: r := by
  obtain ⟨A, B, hAB⟩ := hself
  have hJson : array [c :: (mid ++ [d])] = ('[' :: '"' :: escape c) ++ (content mid ++ (escape d ++ ['"', ']'])) := by
    show '[' :: ('"' :: (content (c :: (mid ++ [d])) ++ ['"']) ++ [']']) = _
    rw [content_cons, content_append, content_cons, content_nil]
    simp only [List.append_assoc, List.cons_append, List.nil_append]
  rw [hJson, List.append_assoc] at hAB
  -- it begins in front of what is between, and not at its first character
  obtain ⟨first, hfirst, hrest⟩ : ∃ first, '[' :: '"' :: escape c = A ++ first ∧
      c :: (mid ++ [d]) ++ B = first ++ (content mid ++ (escape d ++ ['"', ']'])) := by
    obtain ⟨first, hfirst, hrest⟩ | ⟨more, -, hrest⟩ := List.append_eq_append_iff.mp hAB
    · exact ⟨first, hfirst, hrest⟩
    · exact absurd ⟨more, B, by rw [hrest, List.append_assoc]⟩ htail
  have hfirstNe : first ≠ [] := by
    rintro rfl
    exact htail ⟨[], B, by rw [List.nil_append, hrest, List.nil_append]⟩
  -- and ends behind it
  obtain ⟨last, hlast, hwhole⟩ : ∃ last, escape d ++ ['"', ']'] = last ++ B ∧ c :: (mid ++ [d]) = first ++ content mid ++ last := by
    rw [← List.append_assoc first] at hrest
    obtain ⟨more, hmore, -⟩ | ⟨last, hwhole, hlast⟩ := List.append_eq_append_iff.mp hrest
    · refine absurd ⟨A, more, ?_⟩ hinit
      rw [hfirst, List.append_assoc, List.append_assoc, hmore]
    · exact ⟨last, hlast, hwhole⟩
  have hlastNe : last ≠ [] := by
    rintro rfl
    refine hinit ⟨A, [], ?_⟩
    rw [hwhole, hfirst]
    simp only [List.append_nil, List.append_assoc]
  have hlengths := congrArg List.length hwhole
  simp only [List.length_cons, List.length_append, List.length_nil] at hlengths
  have hfirstPos := List.length_pos_of_ne_nil hfirstNe
  have hlastPos := List.length_pos_of_ne_nil hlastNe
  obtain ⟨hle, hplain⟩ := length_content_le mid
  have hmid : ∀ e ∈ mid, Plain e := hplain (by omega)
  rw [content_plain hmid] at hwhole hlengths
  obtain ⟨p, rfl⟩ := List.length_eq_one_iff.mp (show first.length = 1 by omega)
  obtain ⟨q, rfl⟩ := List.length_eq_one_iff.mp (show last.length = 1 by omega)
  obtain ⟨rfl, hmidLast⟩ := List.cons.inj hwhole
  obtain rfl := List.singleton_inj.mp ((List.append_right_inj mid).mp hmidLast)
  refine ⟨hmid, ?_, ?_⟩
  · obtain hnil | ⟨l, e, hl⟩ := List.eq_nil_or_concat (escape c)
    · exact absurd hnil (escape_ne_nil c)
    · rw [List.concat_eq_append] at hl
      rw [hl, ← List.cons_append, ← List.cons_append] at hfirst
      obtain ⟨-, he⟩ := List.append_inj' hfirst rfl
      exact ⟨l, hl.trans (by rw [he])⟩
  · cases hd : escape d with
    | nil => exact absurd hd (escape_ne_nil d)
    | cons e r =>
      rw [hd] at hlast
      obtain ⟨rfl, -⟩ := List.cons.inj hlast
      exact ⟨r, rfl⟩

/-- Strings that tell texts apart: of the text's own characters, quotes and control characters. -/
def Probe (v s : Text) : Prop := ∀ c ∈ s, c ∈ v ∨ c = '"' ∨ c.toNat < 32

/-- Looking in the JSON is looking in the strings. -/
def Found (v : Text) : Prop := ∀ ss : List Text, (∀ s ∈ ss, Probe v s) → (v <:+: array ss ↔ ∃ s ∈ ss, v <:+: s)

theorem Found.self (h : Found v) : v <:+: array [v] :=
  (h [v] fun _ hs _ hc => .inl (List.mem_singleton.mp hs ▸ hc)).mpr ⟨v, List.mem_cons_self, List.infix_rfl⟩

/-- A string whose content has the text has it. -/
theorem Found.of_content (h : Found v) {s : Text} (hs : Probe v s) (hinside : v <:+: content s) : v <:+: s := by
  have hprobe : ∀ t ∈ [s], Probe v t := fun t ht => List.mem_singleton.mp ht ▸ hs
  obtain ⟨t, ht, hfound⟩ := (h [s] hprobe).mp (hinside.trans (content_infix_array List.mem_cons_self))
  exact List.mem_singleton.mp ht ▸ hfound

theorem Found.visible (h : Found v) : ∀ c ∈ v, 32 ≤ c.toNat := fun c hc => array_visible [v] c (h.self.subset hc)

/-- A quote stands in front of a string's content, too. -/
theorem Found.not_quoted (h : Found v) {s : Text} (hs : Probe v s) (hplain : ∀ c ∈ s, Plain c) : v ≠ '"' :: s := by
  rintro rfl
  have hstring : '"' :: s <:+: array [s] := by
    refine List.IsInfix.trans ?_ (string_infix_array List.mem_cons_self)
    show '"' :: s <:+: '"' :: (content s ++ ['"'])
    rw [content_plain hplain, ← List.cons_append]
    exact (List.prefix_append _ _).isInfix
  obtain ⟨t, ht, hfound⟩ := (h [s] fun t ht => List.mem_singleton.mp ht ▸ hs).mp hstring
  have hlength := hfound.length_le
  rw [List.mem_singleton.mp ht, List.length_cons] at hlength
  omega

/-- Between its ends the text is plain, at its end too, and it doesn't begin with a quote. -/
theorem Found.plain_tail (h : Found (c :: (mid ++ [d]))) : (∀ e ∈ mid ++ [d], Plain e) ∧ c ≠ '"' := by
  have hshorter : ∀ {s : Text}, Probe (c :: (mid ++ [d])) s → s.length < (mid ++ [d]).length + 1 →
      ¬c :: (mid ++ [d]) <:+: content s := fun hs hlt hinside => by
    have hlength := (h.of_content hs hinside).length_le
    rw [List.length_cons] at hlength
    omega
  have htail : ¬c :: (mid ++ [d]) <:+: content mid ++ (escape d ++ ['"', ']']) := fun hinside => by
    have hJson : content mid ++ (escape d ++ ['"', ']']) <:+: array [mid ++ [d]] := by
      refine ⟨['[', '"'], [], ?_⟩
      show _ = '[' :: ('"' :: (content (mid ++ [d]) ++ ['"']) ++ [']'])
      rw [content_append, content_cons, content_nil]
      simp only [List.append_assoc, List.cons_append, List.nil_append, List.append_nil]
    obtain ⟨s, hs, hfound⟩ := (h [mid ++ [d]] fun s hs e he => .inl (List.mem_cons_of_mem c (List.mem_singleton.mp hs ▸ he))).mp
      (hinside.trans hJson)
    have hlength := hfound.length_le
    rw [List.mem_singleton.mp hs, List.length_cons] at hlength
    omega
  have hinit : ¬c :: (mid ++ [d]) <:+: '[' :: '"' :: escape c ++ content mid := fun hinside => by
    have hJson : '[' :: '"' :: escape c ++ content mid <:+: array [c :: mid] := by
      refine ⟨[], ['"', ']'], ?_⟩
      show _ = '[' :: ('"' :: (content (c :: mid) ++ ['"']) ++ [']'])
      rw [content_cons]
      simp only [List.append_assoc, List.cons_append, List.nil_append]
    have hprobe : Probe (c :: (mid ++ [d])) (c :: mid) := fun e he => .inl (by
      obtain rfl | he := List.mem_cons.mp he
      · exact List.mem_cons_self
      · exact List.mem_cons_of_mem c (List.mem_append_left _ he))
    obtain ⟨s, hs, hfound⟩ := (h [c :: mid] fun s hs => List.mem_singleton.mp hs ▸ hprobe).mp (hinside.trans hJson)
    have hlength := hfound.length_le
    rw [List.mem_singleton.mp hs, List.length_cons, List.length_cons, List.length_append, List.length_singleton] at hlength
    omega
  obtain ⟨hmid, ⟨l, hl⟩, r, hr⟩ := window h.self htail hinit
  have hmem : ∀ e ∈ mid ++ [d], e ∈ c :: (mid ++ [d]) := fun e he => List.mem_cons_of_mem c he
  have hvisible := h.visible
  have hd : Plain d := by
    obtain hplain | rfl | rfl | hcontrol := escape_cases d
    · exact hplain
    · exact absurd hr (by rw [show escape '"' = ['\\', '"'] from rfl]; exact fun heq => absurd (List.cons.inj heq).1 (by decide))
    · -- a quote in the backslash's place begins alike
      have hprobe : Probe (c :: (mid ++ ['\\'])) (c :: (mid ++ ['"'])) := fun e he => by
        obtain rfl | he := List.mem_cons.mp he
        · exact .inl List.mem_cons_self
        obtain he | he := List.mem_append.mp he
        · exact .inl (List.mem_cons_of_mem c (List.mem_append_left _ he))
        · exact .inr (.inl (List.mem_singleton.mp he))
      have hcontent : c :: (mid ++ ['\\']) <:+: content (c :: (mid ++ ['"'])) := by
        refine ⟨l, ['"'], ?_⟩
        rw [content_cons, content_append, content_plain hmid, hl]
        simp only [List.append_assoc, List.cons_append, List.nil_append]
        rfl
      obtain ⟨A, B, hAB⟩ := h.of_content hprobe hcontent
      have hlengths := congrArg List.length hAB
      simp only [List.length_append, List.length_cons, List.length_nil] at hlengths
      obtain rfl : A = [] := List.eq_nil_of_length_eq_zero (by omega)
      obtain rfl : B = [] := List.eq_nil_of_length_eq_zero (by omega)
      rw [List.nil_append, List.append_nil] at hAB
      have hlast := (List.append_right_inj mid).mp (List.cons.inj hAB).2
      exact absurd (List.cons.inj hlast).1 (by decide)
    · exact absurd (hvisible d (hmem d (List.mem_append_right _ List.mem_cons_self))) (Nat.not_le_of_lt hcontrol)
  have hplain : ∀ e ∈ mid ++ [d], Plain e := fun e he => by
    obtain he | he := List.mem_append.mp he
    · exact hmid e he
    · exact List.mem_singleton.mp he ▸ hd
  refine ⟨hplain, ?_⟩
  rintro rfl
  exact h.not_quoted (fun e he => .inl (hmem e he)) hplain rfl

/-- **A text that is found in the JSON** just when it is in one of the strings is searchable. -/
theorem searchable_of_infix (hv : v ≠ []) (h : Found v) : Searchable v := by
  obtain ⟨c, w, rfl⟩ := List.exists_cons_of_ne_nil hv
  have hvisible := h.visible
  obtain ⟨hw, hc⟩ : (∀ e ∈ w, Plain e) ∧ c ≠ '"' := by
    obtain rfl | ⟨mid, d, rfl⟩ := List.eq_nil_or_concat w
    · refine ⟨nofun, ?_⟩
      rintro rfl
      exact h.not_quoted (s := []) nofun nofun rfl
    · rw [List.concat_eq_append] at h ⊢
      exact h.plain_tail
  refine ⟨fun e he => ⟨?_, hvisible e he⟩, fun hbackslash => (hw _ hbackslash).2.1 rfl, ?_, ?_⟩
  · obtain rfl | he := List.mem_cons.mp he
    · exact hc
    · exact (hw e he).1
  · -- a control character in the place of the escape's part
    by_contra hstarts
    obtain ⟨n, hn, r, hr, hne, hcomparable⟩ := startsInEscape_iff.mp (eq_true_of_ne_false hstarts)
    have hcontrol : ∀ m < 32, (Char.ofNat m).toNat = m := by decide
    have hescape : escape (Char.ofNat n) = controlEscape n := by rw [escape_control (by rw [hcontrol n hn]; exact hn), hcontrol n hn]
    have hnot : Char.ofNat n ∉ c :: w := fun hmem => by
      have := hvisible _ hmem
      rw [hcontrol n hn] at this
      omega
    obtain ⟨t, ht⟩ | hpart := hcomparable
    · have hplain : ∀ e ∈ t, Plain e := fun e he => by
        obtain ⟨f, r, rfl⟩ := List.exists_cons_of_ne_nil hne
        obtain ⟨-, hrest⟩ := List.cons.inj ht
        exact hw e (hrest ▸ List.mem_append_right r he)
      have hprobe : Probe (c :: w) (Char.ofNat n :: t) := fun e he => by
        obtain rfl | he := List.mem_cons.mp he
        · exact .inr (.inr (by rw [hcontrol n hn]; exact hn))
        · exact .inl (ht ▸ List.mem_append_right r he)
      have hcontent : c :: w <:+: content (Char.ofNat n :: t) := by
        obtain ⟨before, hbefore⟩ := hr
        refine ⟨before, [], ?_⟩
        rw [← ht, content_cons, hescape, content_plain hplain, ← hbefore]
        simp only [List.append_assoc, List.append_nil]
      have hfound := h.of_content hprobe hcontent
      have hlength := congrArg List.length ht
      rw [List.length_append] at hlength
      have hpos := List.length_pos_of_ne_nil hne
      have heq := hfound.eq_of_length_le (show t.length + 1 ≤ (c :: w).length by omega)
      exact hnot (heq ▸ List.mem_cons_self)
    · have hprobe : Probe (c :: w) [Char.ofNat n] := fun e he => by
        rw [List.mem_singleton.mp he, hcontrol n hn]
        exact .inr (.inr hn)
      have hcontent : c :: w <:+: content [Char.ofNat n] := by
        rw [content_cons, hescape, content_nil, List.append_nil]
        exact hpart.isInfix.trans hr.isInfix
      have hc := (h.of_content hprobe hcontent).subset List.mem_cons_self
      exact hnot (List.mem_singleton.mp hc ▸ List.mem_cons_self)
  · intro hmem
    have hbrackets : ¬c :: w <:+: array [] := fun hinside => by
      obtain ⟨s, hs, -⟩ := (h [] nofun).mp hinside
      cases hs
    have hempty : ∀ s ∈ [([] : Text), []], s = [] := fun s hs => by simpa using hs
    have hcomma : ¬c :: w <:+: array [[], []] := fun hinside => by
      obtain ⟨s, hs, hfound⟩ := (h [[], []] fun s hs => by rw [hempty s hs]; nofun).mp hinside
      obtain rfl := hempty s hs
      exact absurd (List.infix_nil.mp hfound) (List.cons_ne_nil _ _)
    simp only [List.mem_cons, List.not_mem_nil, or_false] at hmem
    obtain hmem | hmem | hmem | hmem := hmem
    · exact hbrackets (by rw [hmem]; exact ⟨[], [']'], rfl⟩)
    · exact hbrackets (by rw [hmem]; exact ⟨['['], [], rfl⟩)
    · exact hbrackets (by rw [hmem]; exact ⟨[], [], rfl⟩)
    · exact hcomma (by rw [hmem]; exact ⟨['[', '"', '"'], ['"', '"', ']'], rfl⟩)

end Unfound

end JsonText
