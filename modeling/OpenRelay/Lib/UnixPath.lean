/-
# Unix paths

A path is its text; what it names is its components: the root if the text
begins with a slash, a leading dot, and the pieces between slashes that are
neither empty nor a dot. A path is pushed onto another with a slash between
them, and an absolute one takes its place (`join`). The components of a path
joined with a relative one are those of the two in a row (`components_join`),
so a path lies under whatever it was joined from; a path spelt from components
has them again (`components_ofComponents`).

Key theorem: `namesChild_iff`.
-/
import Mathlib.Data.List.Induction

namespace UnixPath

/-- A path as it is written. -/
abbrev Path := List Char

/-- What a path is made of. -/
inductive Component where
  | rootDir
  | curDir
  | parentDir
  | normal (name : List Char)
  deriving DecidableEq, Repr

/-- The path that names the component alone. -/
def Component.text : Component → Path
  | rootDir => ['/']
  | curDir => ['.']
  | parentDir => ['.', '.']
  | normal name => name

def Component.isNormal : Component → Bool
  | normal _ => true
  | _ => false

def isAbsolute (p : Path) : Bool := p.head? = some '/'

/-- The pieces between the slashes that count as components of their own. -/
def segments (p : Path) : List (List Char) :=
  (p.splitOn '/').filter fun s => s ≠ [] ∧ s ≠ ['.']

/-- What a name stands for: two dots for the parent. -/
def component (s : List Char) : Component := if s = ['.', '.'] then .parentDir else .normal s

/-- What a path begins with: the root, a dot, or neither. -/
def lead (p : Path) : List Component :=
  if isAbsolute p then [.rootDir] else if (p.splitOn '/').head? = some ['.'] then [.curDir] else []

def components (p : Path) : List Component := lead p ++ (segments p).map component

/-- `PathBuf::push`: an absolute path replaces the one it is pushed onto. -/
def join (p q : Path) : Path :=
  if isAbsolute q then q else if p = [] ∨ p.getLast? = some '/' then p ++ q else p ++ '/' :: q

/-- The path of the components, pushed one after another. -/
def ofComponents (cs : List Component) : Path := cs.foldl (fun p c => join p c.text) []

/-- The path without its last component, unless that is the root; spelt anew. -/
def parent (p : Path) : Option Path :=
  match (components p).getLast? with
  | none | some .rootDir => none
  | some _ => some (ofComponents (components p).dropLast)

def fileName (p : Path) : Option (List Char) :=
  match (components p).getLast? with
  | some (.normal name) => some name
  | _ => none

/-- A file name's stem and its extension: what stands before and after the last
dot, unless nothing stands before it. -/
def rsplitFileAtDot (name : List Char) : List Char × Option (List Char) :=
  if name = ['.', '.'] then (name, none)
  else
    let after := (name.reverse.takeWhile (· ≠ '.')).reverse
    match name.reverse.dropWhile (· ≠ '.') with
    | [] | [_] => (name, none)
    | _ :: before => (before.reverse, some after)

def fileStem (p : Path) : Option (List Char) := (fileName p).map fun name => (rsplitFileAtDot name).1

def extension (p : Path) : Option (List Char) := (fileName p).bind fun name => (rsplitFileAtDot name).2

/-! ### Joining -/

theorem isAbsolute_append {p : Path} (q : Path) (hp : p ≠ []) : isAbsolute (p ++ q) = isAbsolute p := by
  obtain ⟨c, p, rfl⟩ := List.exists_cons_of_ne_nil hp
  rfl

theorem segments_slash (p q : Path) : segments (p ++ '/' :: q) = segments p ++ segments q := by
  rw [segments, List.splitOn_append_cons_self, List.filter_append]
  rfl

@[simp] theorem segments_nil : segments [] = [] := rfl

theorem lead_slash {p : Path} (q : Path) (hp : p ≠ []) : lead (p ++ '/' :: q) = lead p := by
  have hhead : ((p ++ '/' :: q).splitOn '/').head? = (p.splitOn '/').head? := by
    rw [List.splitOn_append_cons_self, List.head?_append]
    rw [List.head?_eq_some_head (List.splitOn_ne_nil '/' p)]
    rfl
  rw [lead, lead, isAbsolute_append _ hp, hhead]

/-- A slash at the end of a path names nothing. -/
theorem components_slash {p : Path} (hp : p ≠ []) : components (p ++ ['/']) = components p := by
  rw [components, components, lead_slash [] hp, segments_slash, segments_nil, List.append_nil]

theorem join_of_absolute {p q : Path} (hq : isAbsolute q = true) : join p q = q := if_pos hq

/-- A path that begins with a name adds all its components. -/
theorem components_eq_map {q : Path} (hq : lead q = []) : components q = (segments q).map component := by
  rw [components, hq, List.nil_append]

theorem join_ne_nil {p q : Path} (h : p ≠ [] ∨ q ≠ []) : join p q ≠ [] := by
  unfold join
  split_ifs with habs hp
  · rintro rfl
    cases habs
  · intro hnil
    obtain ⟨rfl, rfl⟩ := List.append_eq_nil_iff.mp hnil
    simp at h
  · simp

/-- **The components of a join.** A relative path pushed onto a path adds its
own pieces to the components, whatever slashes and dots either holds. -/
theorem components_join {p q : Path} (hp : p ≠ []) (hq : isAbsolute q = false) :
    components (join p q) = components p ++ (segments q).map component := by
  rw [join, if_neg (by simp [hq])]
  split_ifs with hslash
  · obtain ⟨r, rfl⟩ := List.getLast?_eq_some_iff.mp (hslash.resolve_left hp)
    rw [List.append_assoc, List.singleton_append]
    rcases r with _ | ⟨c, r⟩
    · -- the path is the root alone
      have hroot : ∀ t : Path, lead ('/' :: t) = [.rootDir] := fun t => if_pos rfl
      have hseg := segments_slash [] q
      rw [List.nil_append] at hseg ⊢
      rw [components, components, hroot, hseg]
      rfl
    · have hr : c :: r ≠ [] := List.cons_ne_nil c r
      rw [components_slash hr, components, components, lead_slash q hr, segments_slash,
        List.map_append, List.append_assoc]
  · rw [components, components, lead_slash q hp, segments_slash, List.map_append, List.append_assoc]

theorem isAbsolute_of_lead {q : Path} (hq : lead q = []) : isAbsolute q = false := by
  unfold lead at hq
  split_ifs at hq with habs
  exact Bool.eq_false_iff.mpr habs

theorem components_join_of_lead {p q : Path} (hp : p ≠ []) (hq : lead q = []) :
    components (join p q) = components p ++ components q := by
  rw [components_join hp (isAbsolute_of_lead hq), components_eq_map hq]

theorem mem_join_left {p q : Path} {c : Char} (hq : isAbsolute q = false) (hc : c ∈ p) : c ∈ join p q := by
  rw [join, if_neg (by simp [hq])]
  split_ifs <;> exact List.mem_append_left _ hc

theorem mem_join_right {p q : Path} {c : Char} (hc : c ∈ q) : c ∈ join p q := by
  unfold join
  split_ifs
  · exact hc
  · exact List.mem_append_right _ hc
  · exact List.mem_append_right _ (List.mem_cons_of_mem _ hc)

theorem of_mem_join {p q : Path} {c : Char} (hc : c ∈ join p q) (hslash : c ≠ '/') : c ∈ p ∨ c ∈ q := by
  unfold join at hc
  split_ifs at hc
  · exact .inr hc
  · exact List.mem_append.mp hc
  · rcases List.mem_append.mp hc with hc | hc
    · exact .inl hc
    · exact .inr ((List.mem_cons.mp hc).resolve_left hslash)

/-! ### Children of a directory -/

theorem component_injective : Function.Injective component := by
  intro s t h
  unfold component at h
  split_ifs at h with hs ht ht
  · rw [hs, ht]
  · exact Component.normal.inj h

theorem component_eq_normal {s t : List Char} : component s = .normal t ↔ s = t ∧ t ≠ ['.', '.'] := by
  unfold component
  split_ifs with hs
  · simp only [false_iff, not_and, not_not]
    rintro rfl
    exact hs
  · rw [Component.normal.injEq]
    exact ⟨fun h => ⟨h, h ▸ hs⟩, And.left⟩

theorem components_of_absolute {p : Path} (h : isAbsolute p = true) :
    components p = .rootDir :: (segments p).map component := by
  rw [components, lead, if_pos h]
  rfl

theorem rootDir_mem_components {p : Path} : .rootDir ∈ components p ↔ isAbsolute p = true := by
  refine ⟨fun h => ?_, fun h => components_of_absolute h ▸ List.mem_cons_self⟩
  rcases List.mem_append.mp h with h | h
  · unfold lead at h
    split_ifs at h with habs <;> simp at h
    exact habs
  · obtain ⟨s, -, hs⟩ := List.mem_map.mp h
    unfold component at hs
    split_ifs at hs

/-- The path names a child of the directory: one piece if it is relative, the directory's own
pieces and one more if it is absolute. -/
def NamesChild (dir p : Path) : Prop :=
  ∃ name, name ≠ ['.', '.'] ∧
    if isAbsolute p = true then isAbsolute dir = true ∧ segments p = segments dir ++ [name]
    else segments p = [name]

/-- **A path joined onto a directory** is a child of it just if the path names one. -/
theorem namesChild_iff {dir p : Path} (hdir : dir ≠ []) :
    (∃ name, components (join dir p) = components dir ++ [.normal name]) ↔ NamesChild dir p := by
  refine exists_congr fun name => ?_
  by_cases habs : isAbsolute p = true
  · rw [if_pos habs, join_of_absolute habs, components_of_absolute habs]
    constructor
    · intro h
      have hroot : .rootDir ∈ components dir := by
        have hmem : .rootDir ∈ components dir ++ [.normal name] := h ▸ List.mem_cons_self
        exact (List.mem_append.mp hmem).resolve_right (by simp)
      have hdirabs := rootDir_mem_components.mp hroot
      rw [components_of_absolute hdirabs, List.cons_append] at h
      obtain ⟨front, last, hsegments, hfront, hlast⟩ := List.map_eq_append_iff.mp (List.cons.inj h).2
      obtain ⟨s, rfl, hs⟩ := List.map_eq_singleton_iff.mp hlast
      obtain ⟨rfl, hdots⟩ := component_eq_normal.mp hs
      rw [(List.map_inj_right component_injective).mp hfront] at hsegments
      exact ⟨hdots, hdirabs, hsegments⟩
    · rintro ⟨hdots, hdirabs, hsegments⟩
      rw [components_of_absolute hdirabs, hsegments, List.map_append, List.map_singleton,
        component_eq_normal.mpr ⟨rfl, hdots⟩, List.cons_append]
  · rw [if_neg habs, components_join hdir (Bool.eq_false_iff.mpr habs), List.append_cancel_left_eq,
      List.map_eq_singleton_iff]
    constructor
    · rintro ⟨s, hsegments, hs⟩
      obtain ⟨rfl, hdots⟩ := component_eq_normal.mp hs
      exact ⟨hdots, hsegments⟩
    · rintro ⟨hdots, hsegments⟩
      exact ⟨name, hsegments, component_eq_normal.mpr ⟨rfl, hdots⟩⟩

/-! ### File names -/

/-- A piece of a path that is a component with a name of its own. -/
structure IsName (s : List Char) : Prop where
  ne_nil : s ≠ []
  ne_dot : s ≠ ['.']
  ne_dotdot : s ≠ ['.', '.']
  slashless : '/' ∉ s

namespace IsName

variable {s : List Char}

theorem splitOn_eq (h : IsName s) : s.splitOn '/' = [s] := List.splitOn_eq_singleton h.slashless

theorem segments_eq (h : IsName s) : segments s = [s] := by
  rw [segments, h.splitOn_eq, List.filter_cons_of_pos (by simp [h.ne_nil, h.ne_dot]), List.filter_nil]

theorem component_eq (h : IsName s) : component s = .normal s := if_neg h.ne_dotdot

theorem relative (h : IsName s) : isAbsolute s = false := by
  rcases s with _ | ⟨c, s⟩
  · rfl
  · have hc : '/' ≠ c := fun hc => h.slashless (hc ▸ List.mem_cons_self)
    simpa [isAbsolute] using hc.symm

theorem components_eq (h : IsName s) : components s = [.normal s] := by
  rw [components, lead, h.relative, h.segments_eq, h.splitOn_eq]
  simp [h.ne_dot, h.component_eq]

theorem components_join (h : IsName s) {p : Path} (hp : p ≠ []) :
    components (join p s) = components p ++ [.normal s] := by
  rw [UnixPath.components_join hp h.relative, h.segments_eq, List.map_singleton, h.component_eq]

end IsName

theorem IsName.fileName_eq {s : List Char} (h : IsName s) : fileName s = some s := by
  rw [fileName, h.components_eq]
  rfl

/-- A name of its own names a child of every directory. -/
theorem IsName.namesChild {s : List Char} (h : IsName s) (dir : Path) : NamesChild dir s :=
  ⟨s, h.ne_dotdot, by rw [h.relative]; exact h.segments_eq⟩

/-- A name is its stem, and its extension after a dot. -/
theorem rsplitFileAtDot_spells (name : List Char) :
    name = (rsplitFileAtDot name).1 ++ (rsplitFileAtDot name).2.elim [] (fun e => '.' :: e) ∧
      (name ≠ [] → (rsplitFileAtDot name).1 ≠ []) := by
  unfold rsplitFileAtDot
  split_ifs
  · exact ⟨(List.append_nil name).symm, id⟩
  · have hsplit := List.takeWhile_append_dropWhile (p := (· ≠ '.')) (l := name.reverse)
    have hdot := List.head?_dropWhile_not (· ≠ '.') name.reverse
    rcases hdrop : name.reverse.dropWhile (· ≠ '.') with _ | ⟨c, _ | ⟨d, before⟩⟩
    · exact ⟨(List.append_nil name).symm, id⟩
    · exact ⟨(List.append_nil name).symm, id⟩
    · rw [hdrop] at hsplit hdot
      obtain rfl : c = '.' := by simpa using hdot
      refine ⟨?_, fun _ => by simp⟩
      calc name = (name.reverse.takeWhile (· ≠ '.') ++ '.' :: d :: before).reverse := by
            rw [hsplit, List.reverse_reverse]
        _ = (d :: before).reverse ++ '.' :: (name.reverse.takeWhile (· ≠ '.')).reverse := by simp

theorem slashless_of_mem_splitOn {p s : List Char} (h : s ∈ p.splitOn '/') : '/' ∉ s := by
  induction p generalizing s with
  | nil =>
    rw [List.splitOn_nil, List.mem_singleton] at h
    simp [h]
  | cons c p ih =>
    rw [List.splitOn_cons_eq_if_modifyHead] at h
    obtain ⟨t, ts, hsplit⟩ := List.exists_cons_of_ne_nil (List.splitOn_ne_nil '/' p)
    rw [hsplit] at ih h
    by_cases hc : c = '/'
    · rw [if_pos (by simp [hc])] at h
      rcases List.mem_cons.mp h with rfl | h
      · simp
      · exact ih h
    · rw [if_neg (by simpa using hc), List.modifyHead_cons] at h
      rcases List.mem_cons.mp h with rfl | h
      · exact fun hs => (List.mem_cons.mp hs).elim (fun he => hc he.symm) (ih List.mem_cons_self)
      · exact ih (List.mem_cons_of_mem _ h)

/-- A component that is a name of its own. -/
theorem isName_of_mem_components {p : Path} {s : List Char} (h : .normal s ∈ components p) : IsName s := by
  rcases List.mem_append.mp h with h | h
  · unfold lead at h
    split_ifs at h <;> simp at h
  · obtain ⟨t, ht, heq⟩ := List.mem_map.mp h
    obtain ⟨hsplit, hcounts⟩ := List.mem_filter.mp ht
    have hcounts := of_decide_eq_true hcounts
    unfold component at heq
    split_ifs at heq with hdots
    obtain rfl : t = s := Component.normal.inj heq
    exact ⟨hcounts.1, hcounts.2, hdots, slashless_of_mem_splitOn hsplit⟩

/-- A path whose components are all names begins with a name. -/
theorem lead_of_isNormal {p : Path} (h : ∀ c ∈ components p, c.isNormal = true) : lead p = [] := by
  rw [List.eq_nil_iff_forall_not_mem]
  intro c hc
  have hnormal := h c (List.mem_append_left _ hc)
  unfold lead at hc
  split_ifs at hc <;> simp at hc
  · subst hc
    cases hnormal
  · subst hc
    cases hnormal

/-! ### Paths spelt from components -/

theorem lead_tail (p : Path) : (lead p).tail = [] := by
  unfold lead
  split_ifs <;> rfl

/-- After the first, every component is a name or a step up. -/
theorem of_mem_tail {p : Path} {c : Component} (h : c ∈ (components p).tail) :
    c = .parentDir ∨ ∃ s, IsName s ∧ c = .normal s := by
  have hmap : c ∈ (segments p).map component := by
    rw [components] at h
    rcases hlead : lead p with _ | ⟨l, ls⟩
    · rw [hlead] at h
      exact List.mem_of_mem_tail h
    · obtain rfl : ls = [] := by simpa [hlead] using lead_tail p
      rw [hlead] at h
      exact h
  obtain ⟨t, -, rfl⟩ := List.mem_map.mp hmap
  by_cases hdots : t = ['.', '.']
  · exact .inl (if_pos hdots)
  · have hnormal : component t = .normal t := if_neg hdots
    refine .inr ⟨t, isName_of_mem_components (p := p) ?_, hnormal⟩
    exact hnormal ▸ List.mem_of_mem_tail h

@[simp] theorem ofComponents_concat (cs : List Component) (c : Component) :
    ofComponents (cs ++ [c]) = join (ofComponents cs) c.text := by
  rw [ofComponents, List.foldl_append]
  rfl

/-- **Spelling components.** The path spelt from the components another begins with has
just these. -/
theorem components_ofComponents {p : Path} {cs : List Component} (h : cs <+: components p) :
    components (ofComponents cs) = cs := by
  induction cs using List.reverseRecOn with
  | nil => rfl
  | append_singleton cs c ih =>
    have ih := ih ((List.prefix_append cs [c]).trans h)
    obtain ⟨rest, hrest⟩ := h
    have hmem : c ∈ components p := hrest ▸ List.mem_append_left rest (by simp)
    rw [ofComponents_concat]
    by_cases hcs : cs = []
    · subst hcs
      show components (join [] c.text) = [c]
      cases c with
      | rootDir => rfl
      | curDir => rfl
      | parentDir => rfl
      | normal s =>
        have hs := isName_of_mem_components hmem
        have hjoin : join [] s = s := by simp [join]
        rw [Component.text, hjoin, hs.components_eq]
    · have hne : ofComponents cs ≠ [] := fun hnil => hcs (by rw [← ih, hnil]; rfl)
      have htail : c ∈ (components p).tail := by
        rw [← hrest, List.append_assoc, List.tail_append_of_ne_nil hcs]
        exact List.mem_append_right _ (by simp)
      rcases of_mem_tail htail with rfl | ⟨s, hs, rfl⟩
      · rw [Component.text, components_join hne rfl, ih]
        rfl
      · rw [Component.text, hs.components_join hne, ih]

theorem components_parent {p q : Path} (h : parent p = some q) : components q = (components p).dropLast := by
  unfold parent at h
  split at h
  · cases h
  · cases h
  · cases h
    exact components_ofComponents (List.dropLast_prefix _)

end UnixPath
