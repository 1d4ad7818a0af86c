/-
# The search filter

The list of sessions is filtered by the words of a search text (`db.rs`). A word with a known prefix is looked for
in one column, any other word in six; the columns of the tags and the arguments hold JSON
(`pushSearchFilter`). What is meant is a substring of the field, of a tag or of an argument (`Matches`).

The words go into `LIKE` as they are, so a wildcard in a word is one in the pattern; and what JSON brings is found
with the strings. A word that is neither, and none with an unknown prefix and nothing behind it, is clean. With
clean words the filter is right for every session, and a single word for which it is right is clean
(`search_clean`).

Key theorems: `term_right`, `cleanTerm_of_right`.
-/
import OpenRelay.Lib.JsonText
import OpenRelay.Lib.Like
import OpenRelay.Lib.Trim
import OpenRelay.Session.Upload

namespace OpenRelay
namespace Store
namespace Search

open Sql (Text like lower around isWildcard)
open JsonText (Searchable)

/-! ### The code -/

/-- The columns of a session that the search looks at, and the one that the list is ordered by. -/
structure Session where
  id : Text
  title : Option Text
  tags : List Text
  command : Text
  args : List Text
  cwd : Option Text
  createdAt : Text
  deriving DecidableEq, Repr

/-- A field that a term may be about. -/
inductive SearchField where
  | id
  | title
  | tags
  | command
  | args
  | cwd
  deriving DecidableEq, Repr

/-- Without white space at the ends. -/
def trim (t : Text) : Text := Texts.trim Session.isWhitespace t

def SearchField.fromPrefix (pre : Text) : Option SearchField :=
  let name := lower (trim pre)
  if name = "id".toList then some .id
  else if name = "title".toList then some .title
  else if name = "tag".toList ∨ name = "tags".toList then some .tags
  else if name = "cmd".toList ∨ name = "command".toList then some .command
  else if name = "arg".toList ∨ name = "args".toList then some .args
  else if name = "cwd".toList then some .cwd
  else none

def likeNeedle (value : Text) : Text := around (lower (trim value))

/-- A column of the table. -/
inductive Column where
  | id
  | title
  | tags
  | command
  | args
  | cwd
  deriving DecidableEq, Repr

/-- Columns, each with what it is to be `LIKE`; one of them is enough. -/
abbrev Clause := List (Column × Text)

/-- A term that is looked for in every column. -/
def pushBroadSearch (term : Text) : Clause :=
  let needle := likeNeedle term
  [(.id, needle), (.title, needle), (.tags, needle), (.command, needle), (.args, needle), (.cwd, needle)]

/-- A term that is looked for in its field's columns. -/
def pushScopedSearch (field : SearchField) (value : Text) : Clause :=
  let needle := likeNeedle value
  match field with
  | .id => [(.id, needle)]
  | .title => [(.title, needle)]
  | .tags => [(.tags, needle)]
  | .cwd => [(.cwd, needle)]
  | .args => [(.args, needle)]
  | .command => [(.command, needle), (.args, needle)]

/-- The words of a text, where `cur` is the beginning of one. -/
def splitLoop (cur : Text) : Text → List Text
  | [] => [cur]
  | c :: t => if Session.isWhitespace c then cur :: splitLoop [] t else splitLoop (cur ++ [c]) t

def splitWhitespace (t : Text) : List Text := (splitLoop [] t).filter fun word => !word.isEmpty

/-- `split_once(':')`. -/
def splitOnce (t : Text) : Option (Text × Text) :=
  if ':' ∈ t then some (t.takeWhile (· != ':'), (t.dropWhile (· != ':')).tail) else none

/-- The clause of a term, if it isn't ignored. -/
def pushTerm (term : Text) : Option Clause :=
  match splitOnce term with
  | none => some (pushBroadSearch term)
  | some (pre, value) =>
    let value := trim value
    if value.isEmpty then none
    else
      match SearchField.fromPrefix pre with
      | some field => some (pushScopedSearch field value)
      | none => some (pushBroadSearch term)

def pushSearchFilter (search : Text) : List Clause := (splitWhitespace search).filterMap pushTerm

/-- What the column holds, with nothing for `NULL`; lists are written as JSON. -/
def Column.text (toJson : List Text → Text) (s : Session) : Column → Text
  | .id => s.id
  | .title => s.title.getD []
  | .tags => toJson s.tags
  | .command => s.command
  | .args => toJson s.args
  | .cwd => s.cwd.getD []

def Clause.passes (toJson : List Text → Text) (s : Session) (clause : Clause) : Bool :=
  clause.any fun alternative => like alternative.2 (lower (alternative.1.text toJson s))

def passes (toJson : List Text → Text) (s : Session) (search : Text) : Bool :=
  (pushSearchFilter search).all (Clause.passes toJson s)

/-! ### What is meant -/

/-- A text has a value in it, whatever the case of the letters. -/
def Contains (v t : Text) : Prop := lower v <:+: lower t

instance (v t : Text) : Decidable (Contains v t) := List.decidableInfix (lower v) (lower t)

def FieldMatches (s : Session) (v : Text) : SearchField → Prop
  | .id => Contains v s.id
  | .title => ∃ title ∈ s.title, Contains v title
  | .tags => ∃ tag ∈ s.tags, Contains v tag
  | .command => Contains v s.command ∨ ∃ arg ∈ s.args, Contains v arg
  | .args => ∃ arg ∈ s.args, Contains v arg
  | .cwd => ∃ cwd ∈ s.cwd, Contains v cwd

instance (s : Session) (v : Text) : DecidablePred (FieldMatches s v)
  | .id => inferInstanceAs (Decidable (Contains v s.id))
  | .title => Option.decidableExistsMem s.title
  | .tags => List.decidableBEx (Contains v) s.tags
  | .command =>
    have : Decidable (∃ arg, arg ∈ s.args ∧ Contains v arg) := List.decidableBEx (Contains v) s.args
    inferInstanceAs (Decidable (_ ∨ _))
  | .args => List.decidableBEx (Contains v) s.args
  | .cwd => Option.decidableExistsMem s.cwd

def AnyMatches (s : Session) (v : Text) : Prop := ∃ field, FieldMatches s v field

theorem any_iff {s : Session} {v : Text} : AnyMatches s v ↔ FieldMatches s v .id ∨ FieldMatches s v .title ∨ FieldMatches s v .tags ∨
    FieldMatches s v .command ∨ FieldMatches s v .args ∨ FieldMatches s v .cwd := by
  constructor
  · rintro ⟨field, h⟩
    cases field <;> simp only [h, true_or, or_true]
  · rintro (h | h | h | h | h | h) <;> exact ⟨_, h⟩

instance (s : Session) (v : Text) : Decidable (AnyMatches s v) := decidable_of_iff _ any_iff.symm

/-- The field and the value of a term with a known prefix. -/
def scopeOf (term : Text) : Option (SearchField × Text) :=
  (splitOnce term).bind fun split => (SearchField.fromPrefix split.1).map fun field => (field, split.2)

def TermMatches (s : Session) (term : Text) : Prop :=
  match scopeOf term with
  | some (field, value) => value = [] ∨ FieldMatches s value field
  | none => AnyMatches s term

instance (s : Session) (term : Text) : Decidable (TermMatches s term) :=
  match h : scopeOf term with
  | some (field, value) => decidable_of_iff (value = [] ∨ FieldMatches s value field) (by rw [TermMatches, h])
  | none => decidable_of_iff (AnyMatches s term) (by rw [TermMatches, h])

def Matches (s : Session) (search : Text) : Prop := ∀ term ∈ splitWhitespace search, TermMatches s term

instance (s : Session) (search : Text) : Decidable (Matches s search) :=
  List.decidableBAll (TermMatches s) (splitWhitespace search)

/-! ### Clean terms -/

/-- A field with a column of JSON. -/
def SearchField.inJson : SearchField → Bool
  | .tags | .command | .args => true
  | _ => false

/-- No character of a value stands for others. -/
def NoWildcards (v : Text) : Prop := ∀ c ∈ v, isWildcard c = false

instance (v : Text) : Decidable (NoWildcards v) := List.decidableBAll (fun c => isWildcard c = false) v

/-- A term that is searched for as it is meant: without wildcards, and without what the quoting of a list would
hide. -/
def CleanTerm (term : Text) : Prop :=
  match scopeOf term with
  | some (field, value) => value = [] ∨ NoWildcards value ∧ (field.inJson = true → Searchable (lower value))
  | none => (∀ split ∈ splitOnce term, split.2 ≠ []) ∧ NoWildcards term ∧ Searchable (lower term)

instance (term : Text) : Decidable (CleanTerm term) :=
  match h : scopeOf term with
  | some (field, value) =>
    decidable_of_iff (value = [] ∨ NoWildcards value ∧ (field.inJson = true → Searchable (lower value))) (by rw [CleanTerm, h])
  | none =>
    have : Decidable (∀ split ∈ splitOnce term, split.2 ≠ []) := Option.decidableForallMem (splitOnce term)
    decidable_of_iff ((∀ split ∈ splitOnce term, split.2 ≠ []) ∧ NoWildcards term ∧ Searchable (lower term)) (by rw [CleanTerm, h])

/-! ### Words -/

section Words

variable {term value : Text}

theorem splitLoop_word : ∀ {t cur word : Text}, (∀ c ∈ cur, Session.isWhitespace c = false) → word ∈ splitLoop cur t →
    ∀ c ∈ word, Session.isWhitespace c = false
  | [], cur, word, hcur, hword => by
    rw [List.mem_singleton.mp hword]
    exact hcur
  | d :: t, cur, word, hcur, hword => by
    unfold splitLoop at hword
    split_ifs at hword with hblank
    · obtain rfl | hword := List.mem_cons.mp hword
      · exact hcur
      · exact splitLoop_word (fun _ hc => absurd hc List.not_mem_nil) hword
    · refine splitLoop_word (fun c hc => ?_) hword
      obtain hc | hc := List.mem_append.mp hc
      · exact hcur c hc
      · rw [List.mem_singleton.mp hc]
        exact eq_false_of_ne_true hblank

/-- A word: not empty, and without blanks. -/
structure Word (t : Text) : Prop where
  nonempty : t ≠ []
  solid : ∀ c ∈ t, Session.isWhitespace c = false

theorem word_of_mem {search : Text} (h : term ∈ splitWhitespace search) : Word term := by
  obtain ⟨hmem, hne⟩ := List.mem_filter.mp h
  exact ⟨by simpa using hne, splitLoop_word (fun _ hc => absurd hc List.not_mem_nil) hmem⟩

theorem trim_solid {t : Text} (h : ∀ c ∈ t, Session.isWhitespace c = false) : trim t = t := by
  have hnone : ∀ c ∈ ([] : Text), Session.isWhitespace c = true := fun _ hc => absurd hc List.not_mem_nil
  have htrim := @Texts.trim_of_between _ Session.isWhitespace [] t [] hnone hnone (fun c hc => h c (List.mem_of_head? hc))
    fun c hc => h c (List.mem_of_getLast? hc)
  rwa [List.nil_append, List.append_nil] at htrim

theorem mem_of_splitOnce {pre : Text} (h : splitOnce term = some (pre, value)) : ∀ c ∈ value, c ∈ term := by
  unfold splitOnce at h
  split_ifs at h
  cases h
  exact fun c hc => (List.dropWhile_suffix _).subset (List.mem_of_mem_tail hc)

/-- The value of a word with a known prefix has no blanks. -/
theorem Word.value_solid (h : Word term) {field : SearchField} (hscope : scopeOf term = some (field, value)) :
    ∀ c ∈ value, Session.isWhitespace c = false := by
  obtain ⟨⟨pre, v⟩, hsplit, hfield⟩ := Option.bind_eq_some_iff.mp hscope
  obtain ⟨f, -, heq⟩ := Option.map_eq_some_iff.mp hfield
  cases heq
  exact fun c hc => h.solid c (mem_of_splitOnce hsplit c hc)

theorem Word.pushTerm_scoped (h : Word term) {field : SearchField} (hscope : scopeOf term = some (field, value)) :
    pushTerm term = if value = [] then none else some (pushScopedSearch field value) := by
  have hvalue := trim_solid (h.value_solid hscope)
  obtain ⟨⟨pre, v⟩, hsplit, hfield⟩ := Option.bind_eq_some_iff.mp hscope
  obtain ⟨f, hf, heq⟩ := Option.map_eq_some_iff.mp hfield
  cases heq
  unfold pushTerm
  simp only [hsplit, hvalue, hf, List.isEmpty_iff]

theorem Word.pushTerm_broad (h : Word term) (hscope : scopeOf term = none) :
    ((∀ split ∈ splitOnce term, split.2 ≠ []) → pushTerm term = some (pushBroadSearch term)) ∧
      (∀ split ∈ splitOnce term, split.2 = [] → pushTerm term = none) := by
  cases hsplit : splitOnce term with
  | none =>
    refine ⟨fun _ => ?_, nofun⟩
    unfold pushTerm
    rw [hsplit]
  | some split =>
    obtain ⟨pre, value⟩ := split
    have hvalue : trim value = value := trim_solid fun c hc => h.solid c (mem_of_splitOnce hsplit c hc)
    have hfield : SearchField.fromPrefix pre = none := by
      unfold scopeOf at hscope
      rw [hsplit] at hscope
      exact Option.map_eq_none_iff.mp hscope
    constructor
    · intro hne
      unfold pushTerm
      simp only [hsplit, hvalue, List.isEmpty_iff, hfield]
      exact if_neg (hne _ rfl)
    · intro other hother hnil
      cases hother
      unfold pushTerm
      simp only [hsplit, hvalue, List.isEmpty_iff]
      exact if_pos hnil

theorem passes_iff {toJson : List Text → Text} {s : Session} {search : Text} :
    passes toJson s search = true ↔
      ∀ term ∈ splitWhitespace search, ∀ clause ∈ pushTerm term, clause.passes toJson s = true := by
  unfold passes pushSearchFilter
  rw [List.all_eq_true]
  constructor
  · exact fun h term hterm clause hclause => h clause (List.mem_filterMap.mpr ⟨term, hterm, hclause⟩)
  · intro h clause hclause
    obtain ⟨term, hterm, hclause⟩ := List.mem_filterMap.mp hclause
    exact h term hterm clause hclause

end Words

/-! ### Columns -/

section Columns

variable {v t : Text} {s : Session}

theorem NoWildcards.lower (h : NoWildcards v) : NoWildcards (lower v) := by
  intro d hd
  obtain ⟨c, hc, rfl⟩ := List.mem_map.mp hd
  have hplain := h c hc
  unfold isWildcard at *
  rw [Bool.or_eq_false_iff] at *
  refine ⟨?_, ?_⟩
  · by_contra hwild
    rw [Sql.eq_of_toLower (by decide) (by simpa using hwild : c.toLower = '%')] at hplain
    exact absurd hplain.1 (by decide)
  · by_contra hwild
    rw [Sql.eq_of_toLower (by decide) (by simpa using hwild : c.toLower = '_')] at hplain
    exact absurd hplain.2 (by decide)

theorem likeNeedle_eq (hsolid : ∀ c ∈ v, Session.isWhitespace c = false) : likeNeedle v = around (lower v) := by
  unfold likeNeedle
  rw [trim_solid hsolid]

/-- Without wildcards the needle is found where the text is. -/
theorem like_iff (hsolid : ∀ c ∈ v, Session.isWhitespace c = false) (hwild : NoWildcards v) :
    like (likeNeedle v) (lower t) = true ↔ Contains v t := by
  rw [likeNeedle_eq hsolid, Sql.like_around hwild.lower, Sql.lower_lower, Sql.lower_lower]
  exact Iff.rfl

theorem contains_nil (hv : v ≠ []) : ¬Contains v [] := fun h => by
  have hlength := h.length_le
  rw [Sql.length_lower, Sql.length_lower] at hlength
  exact hv (List.eq_nil_of_length_eq_zero (Nat.le_zero.mp hlength))

theorem contains_getD {o : Option Text} (hv : v ≠ []) : Contains v (o.getD []) ↔ ∃ t ∈ o, Contains v t := by
  cases o with
  | none => exact iff_of_false (contains_nil hv) (by rintro ⟨t, ht, -⟩; cases ht)
  | some t =>
    constructor
    · exact fun h => ⟨t, rfl, h⟩
    · rintro ⟨u, hu, h⟩
      cases hu
      exact h

theorem controlEscape_map {f : Char → Char}
    (hf : (List.range 32).all (fun n => (JsonText.controlEscape n).map f == JsonText.controlEscape n) = true) {n : ℕ} (hn : n < 32) :
    (JsonText.controlEscape n).map f = JsonText.controlEscape n :=
  eq_of_beq (List.all_eq_true.mp hf n (List.mem_range.mpr hn))

theorem lower_escape (c : Char) : lower (JsonText.escape c) = JsonText.escape c.toLower := by
  obtain hplain | rfl | rfl | hcontrol := JsonText.escape_cases c
  · have hlower : JsonText.Plain c.toLower := by
      obtain hsame | ⟨hlow, hhigh, htoNat⟩ := Sql.toLower_cases c
      · rw [hsame]
        exact hplain
      · refine ⟨?_, ?_, by omega⟩
        · intro heq
          rw [heq] at htoNat
          exact absurd htoNat (by rw [show ('"').toNat = 34 from rfl]; omega)
        · intro heq
          rw [heq] at htoNat
          rw [show ('\\').toNat = 92 from rfl] at htoNat
          omega
    rw [JsonText.escape_plain hplain, JsonText.escape_plain hlower]
    rfl
  · rfl
  · rfl
  · have hsame : c.toLower = c := by
      obtain hsame | ⟨hlow, -, -⟩ := Sql.toLower_cases c
      · exact hsame
      · omega
    rw [hsame, JsonText.escape_control hcontrol]
    exact controlEscape_map (by decide) hcontrol

/-- A letter for a letter, in the strings or in their JSON. -/
theorem map_content {f : Char → Char} (hf : ∀ c, (JsonText.escape c).map f = JsonText.escape (f c)) :
    ∀ t : Text, (JsonText.content t).map f = JsonText.content (t.map f)
  | [] => rfl
  | c :: t => by
    rw [JsonText.content_cons, List.map_append, hf, map_content hf t]
    rfl

theorem map_array {f : Char → Char} (hf : ∀ c, (JsonText.escape c).map f = JsonText.escape (f c))
    (hmarks : ['[', ']', ',', '"'].map f = ['[', ']', ',', '"']) (ss : List Text) :
    (JsonText.array ss).map f = JsonText.array (ss.map fun t => t.map f) := by
  obtain ⟨hopen, hclose, hcomma, hquote⟩ : f '[' = '[' ∧ f ']' = ']' ∧ f ',' = ',' ∧ f '"' = '"' := by simpa using hmarks
  have hstring : ∀ t : Text, (JsonText.string t).map f = JsonText.string (t.map f) := fun t => by
    unfold JsonText.string
    rw [List.map_cons, List.map_append, map_content hf, hquote, List.map_singleton, hquote]
  have hrest : ∀ ss : List Text, (JsonText.arrayRest ss).map f = JsonText.arrayRest (ss.map fun t => t.map f) := by
    intro ss
    induction ss with
    | nil => simp [JsonText.arrayRest, hclose]
    | cons t ss ih => simp only [JsonText.arrayRest, List.map_cons, List.map_append, hstring, ih, hcomma]
  cases ss with
  | nil => simp [JsonText.array, hopen, hclose]
  | cons t ss => simp only [JsonText.array, List.map_cons, List.map_append, hstring, hrest, hopen]

theorem lower_array (ss : List Text) : lower (JsonText.array ss) = JsonText.array (ss.map lower) :=
  map_array lower_escape (by decide) ss

/-- A searchable text is in the JSON if it is in one of the strings. -/
theorem contains_array (hv : v ≠ []) (hsearchable : Searchable (lower v)) (ss : List Text) :
    Contains v (JsonText.array ss) ↔ ∃ t ∈ ss, Contains v t := by
  have hne : lower v ≠ [] := fun h => hv (List.map_eq_nil_iff.mp h)
  unfold Contains
  rw [lower_array, JsonText.infix_array hsearchable hne]
  simp only [List.mem_map, exists_exists_and_eq_and]

end Columns

/-! ### Clauses -/

section Clauses

variable {toJson : List Text → Text} {v : Text} {s : Session} {field : SearchField}

theorem scoped_passes : (pushScopedSearch field v).passes toJson s = true ↔
    match field with
    | .id => like (likeNeedle v) (lower s.id) = true
    | .title => like (likeNeedle v) (lower (s.title.getD [])) = true
    | .tags => like (likeNeedle v) (lower (toJson s.tags)) = true
    | .command => like (likeNeedle v) (lower s.command) = true ∨ like (likeNeedle v) (lower (toJson s.args)) = true
    | .args => like (likeNeedle v) (lower (toJson s.args)) = true
    | .cwd => like (likeNeedle v) (lower (s.cwd.getD [])) = true := by
  cases field <;>
    simp only [pushScopedSearch, Clause.passes, Column.text, List.any_cons, List.any_nil, Bool.or_false, Bool.or_eq_true]

/-- A term without a field is looked for in each one. -/
theorem broad_passes : (pushBroadSearch v).passes toJson s = true ↔
    ∃ field, (pushScopedSearch field v).passes toJson s = true := by
  constructor
  · intro h
    simp only [pushBroadSearch, Clause.passes, Column.text, List.any_cons, List.any_nil, Bool.or_false, Bool.or_eq_true] at h
    obtain h | h | h | h | h | h := h
    · exact ⟨.id, scoped_passes.mpr h⟩
    · exact ⟨.title, scoped_passes.mpr h⟩
    · exact ⟨.tags, scoped_passes.mpr h⟩
    · exact ⟨.command, scoped_passes.mpr (.inl h)⟩
    · exact ⟨.args, scoped_passes.mpr h⟩
    · exact ⟨.cwd, scoped_passes.mpr h⟩
  · rintro ⟨field, h⟩
    simp only [pushBroadSearch, Clause.passes, Column.text, List.any_cons, List.any_nil, Bool.or_false, Bool.or_eq_true]
    have h := scoped_passes.mp h
    cases field with
    | id => exact .inl h
    | title => exact .inr (.inl h)
    | tags => exact .inr (.inr (.inl h))
    | command =>
      obtain h | h := h
      · exact .inr (.inr (.inr (.inl h)))
      · exact .inr (.inr (.inr (.inr (.inl h))))
    | args => exact .inr (.inr (.inr (.inr (.inl h))))
    | cwd => exact .inr (.inr (.inr (.inr (.inr h))))

/-- With a clean value the clause is right. -/
theorem scoped_right (hjson : ∀ ss, toJson ss = JsonText.array ss) (hv : v ≠ [])
    (hsolid : ∀ c ∈ v, Session.isWhitespace c = false) (hwild : NoWildcards v)
    (hsearchable : field.inJson = true → Searchable (lower v)) :
    (pushScopedSearch field v).passes toJson s = true ↔ FieldMatches s v field := by
  rw [scoped_passes]
  cases field with
  | id => exact like_iff hsolid hwild
  | title => exact (like_iff hsolid hwild).trans (contains_getD hv)
  | tags =>
    show like (likeNeedle v) (lower (toJson s.tags)) = true ↔ _
    rw [hjson]
    exact (like_iff hsolid hwild).trans (contains_array hv (hsearchable rfl) s.tags)
  | command =>
    show _ ∨ like (likeNeedle v) (lower (toJson s.args)) = true ↔ _
    rw [hjson]
    exact or_congr (like_iff hsolid hwild) ((like_iff hsolid hwild).trans (contains_array hv (hsearchable rfl) s.args))
  | args =>
    show like (likeNeedle v) (lower (toJson s.args)) = true ↔ _
    rw [hjson]
    exact (like_iff hsolid hwild).trans (contains_array hv (hsearchable rfl) s.args)
  | cwd => exact (like_iff hsolid hwild).trans (contains_getD hv)

theorem broad_right (hjson : ∀ ss, toJson ss = JsonText.array ss) (hv : v ≠ [])
    (hsolid : ∀ c ∈ v, Session.isWhitespace c = false) (hwild : NoWildcards v) (hsearchable : Searchable (lower v)) :
    (pushBroadSearch v).passes toJson s = true ↔ AnyMatches s v := by
  rw [broad_passes]
  exact exists_congr fun field => scoped_right hjson hv hsolid hwild fun _ => hsearchable

end Clauses

/-! ### Clean terms are right -/

section Right

variable {toJson : List Text → Text} {term : Text}

def TermPasses (toJson : List Text → Text) (s : Session) (term : Text) : Prop :=
  ∀ clause ∈ pushTerm term, clause.passes toJson s = true

theorem termPasses_some {s : Session} {clause : Clause} (h : pushTerm term = some clause) :
    TermPasses toJson s term ↔ clause.passes toJson s = true := by
  unfold TermPasses
  rw [h]
  exact ⟨fun hpasses => hpasses clause rfl, fun hpasses _ hclause => Option.mem_some.mp hclause ▸ hpasses⟩

theorem termPasses_none {s : Session} (h : pushTerm term = none) : TermPasses toJson s term := by
  unfold TermPasses
  rw [h]
  nofun

/-- **A clean term** is passed by the sessions that it matches. -/
theorem term_right (hjson : ∀ ss, toJson ss = JsonText.array ss) (hword : Word term) (hclean : CleanTerm term) (s : Session) :
    TermPasses toJson s term ↔ TermMatches s term := by
  unfold CleanTerm at hclean
  unfold TermMatches
  cases hscope : scopeOf term with
  | none =>
    rw [hscope] at hclean
    obtain ⟨hvalue, hwild, hsearchable⟩ := hclean
    rw [termPasses_some ((hword.pushTerm_broad hscope).1 hvalue)]
    exact broad_right hjson hword.nonempty hword.solid hwild hsearchable
  | some scope =>
    obtain ⟨field, value⟩ := scope
    rw [hscope] at hclean
    have hpush := hword.pushTerm_scoped hscope
    by_cases hnil : value = []
    · rw [if_pos hnil] at hpush
      exact iff_of_true (termPasses_none hpush) (.inl hnil)
    · rw [if_neg hnil] at hpush
      obtain ⟨hwild, hsearchable⟩ := hclean.resolve_left hnil
      rw [termPasses_some hpush, scoped_right hjson hnil (hword.value_solid hscope) hwild hsearchable]
      exact (or_iff_right hnil).symm

end Right

/-! ### Terms that are right are clean -/

section Clean

variable {toJson : List Text → Text} {v term : Text} {field : SearchField}

def blank : Session := { id := [], title := none, tags := [], command := [], args := [], cwd := none, createdAt := [] }

/-- A session with one text, in a field. -/
def holding (t : Text) : SearchField → Session
  | .id => { blank with id := t }
  | .title => { blank with title := some t }
  | .tags => { blank with tags := [t] }
  | .command => { blank with command := t }
  | .args => { blank with args := [t] }
  | .cwd => { blank with cwd := some t }

theorem blank_field (hv : v ≠ []) : ¬FieldMatches blank v field := fun h => by
  cases field with
  | id => exact contains_nil hv h
  | title =>
    obtain ⟨title, htitle, -⟩ := h
    cases htitle
  | tags =>
    obtain ⟨tag, htag, -⟩ := h
    cases htag
  | command =>
    obtain h | ⟨arg, harg, -⟩ := h
    · exact contains_nil hv h
    · cases harg
  | args =>
    obtain ⟨arg, harg, -⟩ := h
    cases harg
  | cwd =>
    obtain ⟨cwd, hcwd, -⟩ := h
    cases hcwd

theorem holding_field {t : Text} : FieldMatches (holding t field) v field ↔ Contains v t := by
  cases field <;> simp [FieldMatches, holding, blank]

/-- Wildcards become letters. -/
def masked (c : Char) : Char := if isWildcard c then 'x' else c

theorem masked_of_plain {c : Char} (h : isWildcard c = false) : masked c = c := if_neg (by simp [h])

theorem isWildcard_masked (c : Char) : isWildcard (masked c) = false := by
  unfold masked
  split_ifs with h
  · decide
  · exact eq_false_of_ne_true h

theorem toLower_masked (c : Char) : (masked c.toLower).toLower = masked c.toLower := by
  unfold masked
  split_ifs
  · decide
  · exact Sql.toLower_toLower c

theorem lower_masked (t : Text) : lower ((lower t).map masked) = (lower t).map masked := by
  unfold lower
  simp only [List.map_map]
  exact List.map_congr_left fun c _ => toLower_masked c

theorem escape_masked (c : Char) : (JsonText.escape c).map masked = JsonText.escape (masked c) := by
  by_cases hwild : isWildcard c = true
  · obtain rfl | rfl : c = '%' ∨ c = '_' := by simpa [isWildcard] using hwild
    · decide
    · decide
  · rw [masked_of_plain (eq_false_of_ne_true hwild)]
    obtain hplain | rfl | rfl | hcontrol := JsonText.escape_cases c
    · rw [JsonText.escape_plain hplain, List.map_singleton, masked_of_plain (eq_false_of_ne_true hwild)]
    · decide
    · decide
    · rw [JsonText.escape_control hcontrol]
      exact controlEscape_map (by decide) hcontrol

/-- The text with letters for its wildcards is another one. -/
theorem noWildcards_of_masked (h : Contains v ((lower v).map masked)) : NoWildcards v := by
  unfold Contains at h
  rw [lower_masked] at h
  have heq : lower v = (lower v).map masked := h.eq_of_length (List.length_map _).symm
  intro c hc
  by_contra hwild
  have hlower : c.toLower = c := by
    obtain rfl | rfl := Sql.isWildcard_iff.mp (eq_true_of_ne_false hwild)
    · rfl
    · rfl
  have hmem : c ∈ lower v := List.mem_map.mpr ⟨c, hc, hlower⟩
  rw [heq] at hmem
  obtain ⟨d, -, rfl⟩ := List.mem_map.mp hmem
  exact hwild (isWildcard_masked d)

theorem like_masked {t : Text} (h : like (likeNeedle v) (lower t) = true) :
    like (likeNeedle v) (lower ((lower t).map masked)) = true := by
  rw [lower_masked]
  exact Sql.like_map (fun _ => masked_of_plain) h

theorem like_own (hsolid : ∀ c ∈ v, Session.isWhitespace c = false) : like (likeNeedle v) (lower v) = true := by
  rw [likeNeedle_eq hsolid]
  have hself := Sql.around_self (lower v) [] []
  rwa [List.nil_append, List.append_nil] at hself

/-- A field's clause that is right for its own value finds the masked one, too. -/
theorem scoped_masked (hjson : ∀ ss, toJson ss = JsonText.array ss) (hsolid : ∀ c ∈ v, Session.isWhitespace c = false)
    (hown : (pushScopedSearch field v).passes toJson (holding v field) = true) :
    (pushScopedSearch field v).passes toJson (holding ((lower v).map masked) field) = true := by
  have harray : like (likeNeedle v) (lower (toJson [v])) = true →
      like (likeNeedle v) (lower (toJson [(lower v).map masked])) = true := fun h => by
    rw [hjson, lower_array] at h ⊢
    have hmap := map_array escape_masked (by decide) [lower v]
    rw [List.map_singleton, lower_masked, ← List.map_singleton (f := List.map masked), ← hmap]
    exact Sql.like_map (fun _ => masked_of_plain) h
  rw [scoped_passes] at hown ⊢
  cases field with
  | id => exact like_masked hown
  | title => exact like_masked hown
  | tags => exact harray hown
  | command => exact .inl (like_masked (like_own hsolid))
  | args => exact harray hown
  | cwd => exact like_masked hown

theorem contains_own : Contains v v := List.infix_rfl

theorem scoped_noWildcards (hjson : ∀ ss, toJson ss = JsonText.array ss)
    (hsolid : ∀ c ∈ v, Session.isWhitespace c = false)
    (h : ∀ s, (pushScopedSearch field v).passes toJson s = true ↔ FieldMatches s v field) : NoWildcards v := by
  have hown := (h (holding v field)).mpr (holding_field.mpr contains_own)
  exact noWildcards_of_masked (holding_field.mp ((h _).mp (scoped_masked hjson hsolid hown)))

/-- The strings that tell texts apart have no upper letters. -/
theorem lower_probe {t : Text} (h : JsonText.Probe (lower v) t) : lower t = t := by
  unfold lower
  conv_rhs => rw [← List.map_id t]
  refine List.map_congr_left fun c hc => ?_
  obtain hmem | rfl | hcontrol := h c hc
  · obtain ⟨d, -, rfl⟩ := List.mem_map.mp hmem
    exact Sql.toLower_toLower d
  · rfl
  · obtain hsame | ⟨hlow, -, -⟩ := Sql.toLower_cases c
    · exact hsame
    · omega

theorem contains_probes {ss : List Text} (h : ∀ t ∈ ss, JsonText.Probe (lower v) t) :
    (Contains v (JsonText.array ss) ↔ lower v <:+: JsonText.array ss) ∧
      ((∃ t ∈ ss, Contains v t) ↔ ∃ t ∈ ss, lower v <:+: t) := by
  have hsame : ss.map lower = ss := by
    conv_rhs => rw [← List.map_id ss]
    exact List.map_congr_left fun t ht => lower_probe (h t ht)
  refine ⟨?_, ?_⟩
  · unfold Contains
    rw [lower_array, hsame]
  · refine exists_congr fun t => and_congr_right fun ht => ?_
    unfold Contains
    rw [lower_probe (h t ht)]

/-- A session with a list, of tags or of arguments. -/
def listing (ss : List Text) : SearchField → Session
  | .tags => { blank with tags := ss }
  | _ => { blank with args := ss }

theorem scoped_listing (hjson : ∀ ss, toJson ss = JsonText.array ss) (hv : v ≠ [])
    (hsolid : ∀ c ∈ v, Session.isWhitespace c = false) (hwild : NoWildcards v) (hfield : field.inJson = true) (ss : List Text) :
    ((pushScopedSearch field v).passes toJson (listing ss field) = true ↔ Contains v (JsonText.array ss)) ∧
      (FieldMatches (listing ss field) v field ↔ ∃ t ∈ ss, Contains v t) := by
  rw [scoped_passes]
  have hempty : ¬like (likeNeedle v) (lower []) = true := fun h => contains_nil hv ((like_iff hsolid hwild).mp h)
  have hlist : like (likeNeedle v) (lower (toJson ss)) = true ↔ Contains v (JsonText.array ss) := by
    rw [hjson]
    exact like_iff hsolid hwild
  cases field with
  | tags => exact ⟨hlist, Iff.rfl⟩
  | command => exact ⟨(or_iff_right hempty).trans hlist, or_iff_right (contains_nil hv)⟩
  | args => exact ⟨hlist, Iff.rfl⟩
  | id => cases hfield
  | title => cases hfield
  | cwd => cases hfield

theorem lower_ne_nil (hv : v ≠ []) : lower v ≠ [] := fun h => hv (List.map_eq_nil_iff.mp h)

theorem scoped_searchable (hjson : ∀ ss, toJson ss = JsonText.array ss) (hv : v ≠ [])
    (hsolid : ∀ c ∈ v, Session.isWhitespace c = false) (hwild : NoWildcards v) (hfield : field.inJson = true)
    (h : ∀ s, (pushScopedSearch field v).passes toJson s = true ↔ FieldMatches s v field) : Searchable (lower v) := by
  refine JsonText.searchable_of_infix (lower_ne_nil hv) fun ss hprobe => ?_
  obtain ⟨hpasses, hmatches⟩ := scoped_listing hjson hv hsolid hwild hfield ss
  obtain ⟨hJson, hstrings⟩ := contains_probes hprobe
  rw [← hJson, ← hpasses, h, hmatches, hstrings]

theorem any_title (hv : v ≠ []) {t : Text} (h : AnyMatches (holding t .title) v) : Contains v t := by
  obtain h | h | h | h | h | h := any_iff.mp h
  · exact absurd h (contains_nil hv)
  · exact holding_field.mp h
  · exact absurd h (@blank_field v .tags hv)
  · exact absurd h (@blank_field v .command hv)
  · exact absurd h (@blank_field v .args hv)
  · exact absurd h (@blank_field v .cwd hv)

theorem any_args (hv : v ≠ []) {ss : List Text} : AnyMatches (listing ss .args) v ↔ ∃ t ∈ ss, Contains v t := by
  constructor
  · intro h
    obtain h | h | h | h | h | h := any_iff.mp h
    · exact absurd h (contains_nil hv)
    · exact absurd h (@blank_field v .title hv)
    · exact absurd h (@blank_field v .tags hv)
    · exact h.resolve_left (contains_nil hv)
    · exact h
    · exact absurd h (@blank_field v .cwd hv)
  · exact fun h => ⟨.args, h⟩

theorem broad_noWildcards (hv : v ≠ []) (hsolid : ∀ c ∈ v, Session.isWhitespace c = false)
    (h : ∀ s, (pushBroadSearch v).passes toJson s = true ↔ AnyMatches s v) : NoWildcards v := by
  have hmasked := (h (holding ((lower v).map masked) .title)).mp
    (broad_passes.mpr ⟨.title, scoped_passes.mpr (like_masked (like_own hsolid))⟩)
  exact noWildcards_of_masked (any_title hv hmasked)

theorem broad_searchable (hjson : ∀ ss, toJson ss = JsonText.array ss) (hv : v ≠ [])
    (hsolid : ∀ c ∈ v, Session.isWhitespace c = false) (hwild : NoWildcards v)
    (h : ∀ s, (pushBroadSearch v).passes toJson s = true ↔ AnyMatches s v) : Searchable (lower v) := by
  have hlisting := fun field hfield ss => (@scoped_listing _ v field hjson hv hsolid hwild hfield ss).1
  have hempty : ¬like (likeNeedle v) (lower []) = true := fun hlike => contains_nil hv ((like_iff hsolid hwild).mp hlike)
  -- nothing is found in an empty list
  have hbrackets : ¬Contains v (JsonText.array []) := fun hcontains => by
    obtain ⟨t, ht, -⟩ := (any_args hv).mp ((h (listing [] .args)).mp (broad_passes.mpr ⟨.args, (hlisting .args rfl []).mpr hcontains⟩))
    cases ht
  have hargs : ∀ ss, (pushBroadSearch v).passes toJson (listing ss .args) = true ↔ Contains v (JsonText.array ss) := by
    intro ss
    rw [broad_passes]
    constructor
    · rintro ⟨field, hfield⟩
      cases field with
      | id => exact absurd (scoped_passes.mp hfield) hempty
      | title => exact absurd (scoped_passes.mp hfield) hempty
      | tags => exact absurd ((hlisting .tags rfl []).mp hfield) hbrackets
      | command => exact (hlisting .command rfl ss).mp hfield
      | args => exact (hlisting .args rfl ss).mp hfield
      | cwd => exact absurd (scoped_passes.mp hfield) hempty
    · exact fun hcontains => ⟨.args, (hlisting .args rfl ss).mpr hcontains⟩
  refine JsonText.searchable_of_infix (lower_ne_nil hv) fun ss hprobe => ?_
  obtain ⟨hJson, hstrings⟩ := contains_probes hprobe
  rw [← hJson, ← hargs, h, any_args hv, hstrings]

/-- **A term that is right** for every session is clean. -/
theorem cleanTerm_of_right (hjson : ∀ ss, toJson ss = JsonText.array ss) (hword : Word term)
    (h : ∀ s, TermPasses toJson s term ↔ TermMatches s term) : CleanTerm term := by
  unfold TermMatches at h
  unfold CleanTerm
  cases hscope : scopeOf term with
  | none =>
    rw [hscope] at h
    obtain ⟨hsome, hnone⟩ := hword.pushTerm_broad hscope
    -- an ignored term would be passed by the blank session
    have hvalue : ∀ split ∈ splitOnce term, split.2 ≠ [] := fun split hsplit hnil => by
      obtain ⟨field, hfield⟩ := (h blank).mp (termPasses_none (hnone split hsplit hnil))
      exact blank_field hword.nonempty hfield
    have hright := fun s => (@termPasses_some toJson _ s _ (hsome hvalue)).symm.trans (h s)
    have hwild := broad_noWildcards hword.nonempty hword.solid hright
    exact ⟨hvalue, hwild, broad_searchable hjson hword.nonempty hword.solid hwild hright⟩
  | some scope =>
    obtain ⟨field, value⟩ := scope
    rw [hscope] at h
    have hpush := hword.pushTerm_scoped hscope
    refine or_iff_not_imp_left.mpr fun hnil => ?_
    rw [if_neg hnil] at hpush
    have hsolid := hword.value_solid hscope
    have hright := fun s =>
      ((@termPasses_some toJson _ s _ hpush).symm.trans (h s)).trans (or_iff_right hnil)
    have hwild := scoped_noWildcards hjson hsolid hright
    exact ⟨hwild, fun hfield => scoped_searchable hjson hnil hsolid hwild hfield hright⟩

/-- **The search is one for substrings** when all its words are clean. A single word for which it is one, whatever the
sessions, is clean. -/
theorem search_clean (toJson : List Text → Text) (hjson : ∀ ss, toJson ss = JsonText.array ss) (search : Text) :
    ((∀ term ∈ splitWhitespace search, CleanTerm term) → ∀ s, passes toJson s search = true ↔ Matches s search) ∧
      ∀ term, splitWhitespace search = [term] → (∀ s, passes toJson s search = true ↔ Matches s search) →
        CleanTerm term := by
  constructor
  · intro hclean s
    rw [passes_iff]
    exact forall_congr' fun term => forall_congr' fun hterm => term_right hjson (word_of_mem hterm) (hclean term hterm) s
  · intro term hterm hright
    have hmem : term ∈ splitWhitespace search := hterm ▸ List.mem_singleton_self term
    refine cleanTerm_of_right hjson (word_of_mem hmem) fun s => ?_
    have h := hright s
    rw [passes_iff] at h
    unfold Matches at h
    rw [hterm, List.forall_mem_singleton, List.forall_mem_singleton] at h
    exact h

/-- A word of the title, and an argument. -/
theorem api_clean :
    passes JsonText.array { blank with title := some "Web API".toList, args := ["-v".toList] } "title:api -V".toList =
      true ↔
    Matches { blank with title := some "Web API".toList, args := ["-v".toList] } "title:api -V".toList :=
  (search_clean JsonText.array (fun _ => rfl) "title:api -V".toList).1 (by decide) _

/-- The `_` of the word takes any letter; an empty list has brackets; a word that ends with a colon is ignored. -/
theorem search_deceived :
    (passes JsonText.array { blank with title := some "axb".toList } "a_b".toList = true ∧
      ¬Matches { blank with title := some "axb".toList } "a_b".toList) ∧
    (passes JsonText.array blank "[]".toList = true ∧ ¬Matches blank "[]".toList) ∧
    (passes JsonText.array { blank with args := ["\"x\"".toList] } "arg:x\"".toList = false ∧
      Matches { blank with args := ["\"x\"".toList] } "arg:x\"".toList) ∧
    (passes JsonText.array blank "nope:".toList = true ∧ ¬Matches blank "nope:".toList) := by
  decide

end Clean

end Search
end Store
end OpenRelay
