/-
# Uploads

A file sent to a session is stored under `sessions/<id>/files/`
(`session/file.rs`). Its path is read component by component and refused
unless all of them are names; the id is joined onto the sessions directory as
it came. An upload is a program over the file tree: it makes the directories
that are missing and writes the file. A failed effect ends it, after a
beginning of the effects it takes otherwise. The retention sweep does check an
id before it joins it (`namesChild_of_safeSessionDir`).

Paths are read as on Unix: a backslash is a character like any other.
-/
import Mathlib.Data.List.Infix
import OpenRelay.Lib.Effects
import OpenRelay.Lib.UnixPath

namespace OpenRelay
namespace Session

open Effects Effects.Prog UnixPath

/-! ### The file tree -/

/-- What there is in the file system: some paths, and all that lies above them. -/
structure Tree where
  nodes : List (List Component)
  deriving DecidableEq, Repr

namespace Tree

/-- The root is always there, and so is the directory an empty path names. -/
def present (t : Tree) (p : List Component) : Bool :=
  p.isPrefixOf [.rootDir] || t.nodes.any p.isPrefixOf

theorem present_iff {t : Tree} {p : List Component} :
    t.present p = true ↔ p <+: [.rootDir] ∨ ∃ q ∈ t.nodes, p <+: q := by
  simp [present]

/-- What lies above something that is there is there. -/
theorem present_above {t : Tree} {p q : List Component} (h : t.present p = true) (hq : q <+: p) :
    t.present q = true := by
  rw [present_iff] at h ⊢
  rcases h with h | ⟨r, hr, h⟩
  · exact .inl (hq.trans h)
  · exact .inr ⟨r, hr, hq.trans h⟩

end Tree

/-- What an upload does to the file system. -/
inductive UploadEffect where
  | mkdir (p : List Component)
  | write (p : List Component)
  deriving DecidableEq, Repr

namespace UploadEffect

/-- The file or directory that is made or written. -/
def target : UploadEffect → List Component
  | mkdir p | write p => p

def apply (e : UploadEffect) (t : Tree) : Tree := ⟨e.target :: t.nodes⟩

theorem present_target (e : UploadEffect) (t : Tree) : (e.apply t).present e.target = true :=
  Tree.present_iff.mpr (.inr ⟨_, List.mem_cons_self, List.prefix_rfl⟩)

theorem present_apply {e : UploadEffect} {t : Tree} {p : List Component} (h : t.present p = true) :
    (e.apply t).present p = true := by
  rw [Tree.present_iff] at h ⊢
  exact h.imp_right fun ⟨q, hq, hp⟩ => ⟨q, List.mem_cons_of_mem _ hq, hp⟩

theorem present_applyAll {p : List Component} {es : List UploadEffect} {t : Tree} (h : t.present p = true) :
    (applyAll apply es t).present p = true :=
  applyAll_invariant (I := fun t : Tree => t.present p = true) (P := fun _ => True) (fun h _ => present_apply h)
    (fun _ _ => trivial) h

end UploadEffect

/-- An upload, over the tree as its effects leave it. It ends with an error, or is left
looking for a free name (`none`). -/
abbrev UploadM (α : Type) : Type := Prog UploadEffect.apply (Option String) α

/-! ### The file system's own operations -/

def nul : Char := Char.ofNat 0

/-- The operating system takes no path with a NUL in it. -/
def nulError : String := "file name contained an unexpected NUL byte"

/-- The directories of the path that are not there, the topmost first. -/
def missing (t : Tree) (p : List Component) : List (List Component) :=
  p.inits.filter fun q => q.getLast?.any Component.isNormal && !t.present q

/-- The directories are made one after another. -/
def makeAll : List (List Component) → UploadM Unit
  | [] => pure ()
  | p :: ps => do
    act (.mkdir p)
    makeAll ps

/-- `fs::create_dir_all`. -/
def createDirAll (p : Path) : UploadM Unit :=
  if nul ∈ p then fail (some nulError)
  else do
    let t ← get
    makeAll (missing t (components p))

/-- `fs::write`. -/
def writeFile (p : Path) : UploadM Unit :=
  if nul ∈ p then fail (some nulError) else act (.write (components p))

/-- `Path::exists`. -/
def pathExists (t : Tree) (p : Path) : Bool := !p.contains nul && t.present (components p)

/-! ### The upload -/

/-- Where the daemon keeps its files. -/
structure PathsConfig where
  stateDir : Path
  /-- No path the process was given holds a NUL. -/
  nulFree : nul ∉ stateDir

def PathsConfig.sessionsDir (paths : PathsConfig) : Path := join paths.stateDir "sessions".toList

def invalidUploadPath : String := "invalid upload path"

/-- The names of a path one behind another. Only names are let through, and there must be one. -/
def normalizeComponents : Path → List Component → Option Path
  | normalized, [] => if normalized = [] then none else some normalized
  | normalized, .curDir :: cs => normalizeComponents normalized cs
  | normalized, .normal part :: cs => normalizeComponents (join normalized part) cs
  | _, .parentDir :: _ | _, .rootDir :: _ => none

def normalizeRelativePath (p : Path) : Option Path := normalizeComponents [] (components p)

/-- Unicode's white space. -/
def isWhitespace (c : Char) : Bool :=
  let n := c.toNat
  (9 ≤ n && n ≤ 13) || (0x2000 ≤ n && n ≤ 0x200a) ||
    [0x20, 0x85, 0xa0, 0x1680, 0x2028, 0x2029, 0x202f, 0x205f, 0x3000].contains n

/-- Without white space at the ends. -/
def trim (s : List Char) : List Char := ((s.dropWhile isWhitespace).reverse.dropWhile isWhitespace).reverse

def normalizeSessionUploadRelativePath (path : List Char) : Option Path := normalizeRelativePath (trim path)

/-- The directory that a session's uploads are stored in. -/
def PathsConfig.filesDir (paths : PathsConfig) (id : List Char) : Path :=
  join (join paths.sessionsDir id) "files".toList

/-- That directory is made, if it is missing. -/
def ensureSessionFilesDir (paths : PathsConfig) (id : List Char) : UploadM Path := do
  createDirAll (paths.filesDir id)
  return paths.filesDir id

/-- The name of the file, with a suffix from the second attempt on. -/
def candidateName (stem : List Char) (ext : Option (List Char)) (suffix : Option ℕ) : List Char :=
  stem ++ (suffix.elim [] fun n => '-' :: Nat.toDigits 10 n) ++ ext.elim [] fun e => '.' :: e

/-- The loop over the suffixes, for so many turns. -/
def nextFree (t : Tree) (filesDir : Path) (stem : List Char) (ext : Option (List Char)) :
    ℕ → List Char → ℕ → Option Path
  | 0, _, _ => none
  | turns + 1, name, suffix =>
    if pathExists t (join filesDir name) then
      nextFree t filesDir stem ext turns (candidateName stem ext (some suffix)) (suffix + 1)
    else some (join filesDir name)

/-- A name that is not taken: the given one, or that one with a number. -/
def uniquePathForName (t : Tree) (filesDir fileName : Path) (turns : ℕ) : Option Path :=
  let stem := ((fileStem fileName).filter (· ≠ [])).getD "clipboard".toList
  let ext := extension fileName
  nextFree t filesDir stem ext turns (candidateName stem ext none) 1

def resolveSessionUploadTarget (uploadRoot relativePath : Path) (dedupe : Bool) (turns : ℕ) : UploadM Path :=
  if dedupe then do
    let targetParent := join uploadRoot ((parent relativePath).getD [])
    createDirAll targetParent
    match fileName relativePath with
    | none => fail (some ("upload path has no file name: " ++ String.ofList relativePath))
    | some name => do
      let t ← get
      match uniquePathForName t targetParent name turns with
      | none => fail none
      | some target => return target
  else return join uploadRoot relativePath

/-- An upload by its path: the target is found, its directory made and the file written. -/
def writeSessionUploadPath (paths : PathsConfig) (id : List Char) (relativePath : Path) (dedupe : Bool)
    (turns : ℕ) : UploadM Path :=
  match normalizeRelativePath relativePath with
  | none => fail (some invalidUploadPath)
  | some relativePath => do
    let uploadRoot ← ensureSessionFilesDir paths id
    let targetPath ← resolveSessionUploadTarget uploadRoot relativePath dedupe turns
    match parent targetPath with
    | none => fail (some invalidUploadPath)
    | some dir => do
      createDirAll dir
      writeFile targetPath
      return targetPath

def writeSessionUpload (paths : PathsConfig) (id relativePath : List Char) (dedupe : Bool) (turns : ℕ) :
    UploadM Path :=
  writeSessionUploadPath paths id (trim relativePath) dedupe turns

/-! ### What an upload can reach -/

/-- Where `dir` is there, the program makes and writes nothing outside it, and what it ends with
has `Q`. -/
def Stays (dir : List Component) {α : Type} (m : UploadM α) (Q : α → Prop) : Prop :=
  ∀ t : Tree, t.present dir = true →
    (∀ e ∈ (m.run t).1, dir <+: e.target) ∧ ∀ a, (m.run t).2 = .ok a → Q a

section Stays

variable {dir : List Component} {α β : Type}

theorem stays_pure {Q : α → Prop} {a : α} (h : Q a) : Stays dir (pure a) Q :=
  fun _ _ => ⟨nofun, fun _ heq => by cases heq; exact h⟩

theorem stays_fail {Q : α → Prop} (e : Option String) : Stays dir (fail e) Q :=
  fun _ _ => ⟨nofun, nofun⟩

theorem stays_act {e : UploadEffect} (h : dir <+: e.target) : Stays dir (act e) fun _ => True :=
  fun _ _ => ⟨fun e' he' => by rwa [List.mem_singleton.mp he'], fun _ _ => trivial⟩

theorem stays_bind {m : UploadM α} {f : α → UploadM β} {Q : α → Prop} {R : β → Prop} (hm : Stays dir m Q)
    (hf : ∀ a, Q a → Stays dir (f a) R) : Stays dir (m >>= f) R := by
  intro t ht
  obtain ⟨hes, hend⟩ := hm t ht
  rcases hrun : m.run t with ⟨es, error | a⟩
  · rw [bind_of_error hrun]
    rw [hrun] at hes
    exact ⟨hes, nofun⟩
  · rw [bind_of_ok hrun]
    rw [hrun] at hes hend
    obtain ⟨hes', hend'⟩ := hf a (hend a rfl) _ (UploadEffect.present_applyAll ht)
    exact ⟨fun e he => (List.mem_append.mp he).elim (hes e) (hes' e), hend'⟩

end Stays

theorem makeAll_run : ∀ (ps : List (List Component)) (t : Tree),
    (makeAll ps).run t = (ps.map .mkdir, .ok ())
  | [], _ => rfl
  | p :: ps, t => by
    show ((act (.mkdir p) : UploadM Unit) >>= fun _ => makeAll ps).run t = _
    rw [bind_of_act, makeAll_run ps]
    rfl

theorem createDirAll_run {p : Path} (hp : nul ∉ p) (t : Tree) :
    (createDirAll p).run t = ((missing t (components p)).map .mkdir, .ok ()) := by
  rw [createDirAll, if_neg hp]
  show ((get : UploadM Tree) >>= fun t => makeAll (missing t (components p))).run t = _
  rw [bind_of_read (get_run t), makeAll_run]

theorem createDirAll_nul {p : Path} (hp : nul ∈ p) (t : Tree) :
    (createDirAll p).run t = ([], .error (some nulError)) := by
  rw [createDirAll, if_pos hp, fail_run]

theorem mem_missing {t : Tree} {p q : List Component} :
    q ∈ missing t p ↔ q <+: p ∧ q.getLast?.any Component.isNormal = true ∧ t.present q = false := by
  rw [missing, List.mem_filter, List.mem_inits, Bool.and_eq_true, Bool.not_eq_true']

theorem present_of_mem {es : List UploadEffect} {e : UploadEffect} (t : Tree) (h : e ∈ es) :
    (applyAll UploadEffect.apply es t).present e.target = true := by
  obtain ⟨front, rest, rfl⟩ := List.append_of_mem h
  rw [applyAll_append, applyAll_cons]
  exact UploadEffect.present_applyAll (e.present_target _)

/-- A directory that has been made with all above it is there. -/
theorem present_missing {p : List Component} (hp : p.getLast?.any Component.isNormal = true) (t : Tree) :
    (applyAll UploadEffect.apply ((missing t p).map .mkdir) t).present p = true := by
  by_cases hpresent : t.present p = true
  · exact UploadEffect.present_applyAll hpresent
  · have hmem : p ∈ missing t p := mem_missing.mpr ⟨List.prefix_rfl, hp, Bool.eq_false_iff.mpr hpresent⟩
    exact present_of_mem t (List.mem_map_of_mem (f := UploadEffect.mkdir) hmem)

/-- Below a directory that is there only what is missing below it is made. -/
theorem stays_createDirAll {dir : List Component} {p : Path} (hp : dir <+: components p) :
    Stays dir (createDirAll p) fun _ => True := by
  intro t ht
  refine ⟨?_, fun _ _ => trivial⟩
  by_cases hnul : nul ∈ p
  · rw [createDirAll_nul hnul]
    exact nofun
  · rw [createDirAll_run hnul]
    intro e he
    obtain ⟨q, hq, rfl⟩ := List.mem_map.mp he
    obtain ⟨hqp, -, hmissing⟩ := mem_missing.mp hq
    rcases List.prefix_or_prefix_of_prefix hp hqp with h | h
    · exact h
    · rw [Tree.present_above ht h] at hmissing
      cases hmissing

theorem stays_writeFile {dir : List Component} {p : Path} (hp : dir <+: components p) :
    Stays dir (writeFile p) fun _ => True := by
  unfold writeFile
  split_ifs
  · exact stays_fail _
  · exact stays_act hp

/-! ### Accepted paths -/

/-- A path of names alone. -/
structure IsNames (p : Path) : Prop where
  isNormal : ∀ c ∈ components p, c.isNormal = true
  components_ne_nil : p ≠ [] → components p ≠ []

theorem isNames_push {p : Path} {s : List Char} (hp : IsNames p) (hs : IsName s) : IsNames (join p s) := by
  by_cases hnil : p = []
  · subst hnil
    have hjoin : join [] s = s := by simp [join]
    rw [hjoin]
    refine ⟨?_, fun _ => ?_⟩ <;> rw [hs.components_eq]
    · rintro c hc
      rw [List.mem_singleton.mp hc]
      rfl
    · exact List.cons_ne_nil _ _
  · refine ⟨?_, fun _ => ?_⟩ <;> rw [hs.components_join hnil]
    · rintro c hc
      rcases List.mem_append.mp hc with hc | hc
      · exact hp.isNormal c hc
      · rw [List.mem_singleton.mp hc]
        rfl
    · exact List.append_ne_nil_of_right_ne_nil _ (List.cons_ne_nil _ _)

theorem isNames_normalizeComponents : ∀ {cs : List Component} {p rel : Path}, IsNames p →
    (∀ s, .normal s ∈ cs → IsName s) → normalizeComponents p cs = some rel → IsNames rel ∧ rel ≠ []
  | [], p, rel, hp, _, h => by
    rw [normalizeComponents] at h
    split_ifs at h with hnil
    cases h
    exact ⟨hp, hnil⟩
  | .curDir :: cs, p, rel, hp, hcs, h =>
    isNames_normalizeComponents hp (fun s hs => hcs s (List.mem_cons_of_mem _ hs))
      (show normalizeComponents p cs = some rel from h)
  | .normal part :: cs, p, rel, hp, hcs, h =>
    isNames_normalizeComponents (isNames_push hp (hcs part List.mem_cons_self))
      (fun s hs => hcs s (List.mem_cons_of_mem _ hs)) (show normalizeComponents (join p part) cs = some rel from h)
  | .parentDir :: _, _, _, _, _, h => by cases h
  | .rootDir :: _, _, _, _, _, h => by cases h

/-- A path that is not refused consists of names, and of one at least. -/
theorem isNames_normalizeRelativePath {p rel : Path} (h : normalizeRelativePath p = some rel) :
    IsNames rel ∧ rel ≠ [] :=
  isNames_normalizeComponents ⟨by simp [components, lead, segments, isAbsolute], absurd rfl⟩
    (fun _ hs => isName_of_mem_components hs) h

/-- A path of names, one at least, ends with a name. -/
theorem IsNames.concat {p : Path} (h : IsNames p) (hp : p ≠ []) :
    ∃ cs s, components p = cs ++ [.normal s] ∧ IsName s := by
  obtain ⟨cs, c, hcs⟩ := (List.eq_nil_or_concat (components p)).resolve_left (h.components_ne_nil hp)
  rw [List.concat_eq_append] at hcs
  have hmem : c ∈ components p := hcs ▸ List.mem_append_right cs List.mem_cons_self
  have hnormal := h.isNormal c hmem
  cases c with
  | normal s => exact ⟨cs, s, hcs, isName_of_mem_components hmem⟩
  | rootDir => cases hnormal
  | curDir => cases hnormal
  | parentDir => cases hnormal

/-- The names a deduplicated file can get are names of their own. -/
theorem isName_candidateName {name : List Char} (h : IsName name) (suffix : Option ℕ) :
    IsName (candidateName (rsplitFileAtDot name).1 (rsplitFileAtDot name).2 suffix) := by
  obtain ⟨hspell, hstem⟩ := rsplitFileAtDot_spells name
  generalize (rsplitFileAtDot name).1 = stem at *
  generalize (rsplitFileAtDot name).2 = ext at *
  cases suffix with
  | none =>
    have heq : candidateName stem ext none = name := by rw [hspell, candidateName, Option.elim_none, List.append_nil]
    rwa [heq]
  | some n =>
    have hdash : '-' ∈ candidateName stem ext (some n) := by simp [candidateName]
    refine ⟨List.ne_nil_of_mem hdash, ?_, ?_, ?_⟩
    · intro heq
      rw [heq] at hdash
      simp at hdash
    · intro heq
      rw [heq] at hdash
      simp at hdash
    · intro hslash
      have hname : '/' ∉ stem ++ ext.elim [] fun e => '.' :: e := hspell ▸ h.slashless
      rw [List.mem_append, not_or] at hname
      rcases List.mem_append.mp hslash with hslash | hslash
      · rcases List.mem_append.mp hslash with hslash | hslash
        · exact hname.1 hslash
        · rcases List.mem_cons.mp hslash with hslash | hslash
          · cases hslash
          · have := Nat.isDigit_of_mem_toDigits (by decide) (by decide) hslash
            cases this
      · exact hname.2 hslash

theorem nextFree_eq {t : Tree} {filesDir target : Path} {stem : List Char} {ext : Option (List Char)} :
    ∀ {turns suffix : ℕ} {k : Option ℕ},
      nextFree t filesDir stem ext turns (candidateName stem ext k) suffix = some target →
      ∃ k, target = join filesDir (candidateName stem ext k)
  | 0, _, _, h => by cases h
  | turns + 1, suffix, k, h => by
    unfold nextFree at h
    split_ifs at h with hexists
    · exact nextFree_eq h
    · cases h
      exact ⟨k, rfl⟩

/-- The target of a deduplicated upload is a name in the given directory. -/
theorem uniquePathForName_eq {t : Tree} {filesDir target : Path} {name : List Char} {turns : ℕ} (hname : IsName name)
    (h : uniquePathForName t filesDir name turns = some target) :
    ∃ s, IsName s ∧ target = join filesDir s := by
  have hstem : ((fileStem name).filter (· ≠ [])).getD "clipboard".toList = (rsplitFileAtDot name).1 := by
    have hne := (rsplitFileAtDot_spells name).2 hname.ne_nil
    rw [fileStem, hname.fileName_eq, Option.map_some, Option.filter_some, if_pos (by simpa using hne), Option.getD_some]
  have hext : extension name = (rsplitFileAtDot name).2 := by
    rw [extension, hname.fileName_eq, Option.bind_some]
  simp only [uniquePathForName, hstem, hext] at h
  obtain ⟨k, rfl⟩ := nextFree_eq h
  exact ⟨_, isName_candidateName hname k, rfl⟩

/-- The path is a name in something at or below `dir`. -/
def NamesFile (dir : List Component) (target : Path) : Prop :=
  ∃ above s, dir <+: above ∧ components target = above ++ [.normal s]

theorem stays_resolveSessionUploadTarget {root rel : Path} {turns : ℕ} (dedupe : Bool) (hroot : root ≠ [])
    (hrel : IsNames rel) (hne : rel ≠ []) :
    Stays (components root) (resolveSessionUploadTarget root rel dedupe turns) (NamesFile (components root)) := by
  obtain ⟨cs, s, hcs, hs⟩ := hrel.concat hne
  cases dedupe with
  | false =>
    refine stays_pure ⟨components root ++ cs, s, List.prefix_append _ _, ?_⟩
    rw [components_join_of_lead hroot (lead_of_isNormal hrel.isNormal), hcs, List.append_assoc]
  | true =>
    have hbelow : components root <+: components (join root ((parent rel).getD [])) := by
      have hrelative : isAbsolute ((parent rel).getD []) = false := by
        rcases hparent : parent rel with _ | dir
        · rfl
        · refine isAbsolute_of_lead (lead_of_isNormal fun c hc => ?_)
          rw [Option.getD_some, components_parent hparent] at hc
          exact hrel.isNormal c (List.mem_of_mem_dropLast hc)
      rw [components_join hroot hrelative]
      exact List.prefix_append _ _
    have hname : fileName rel = some s := by rw [fileName, hcs, List.getLast?_concat]
    unfold resolveSessionUploadTarget
    rw [if_pos rfl]
    refine stays_bind (stays_createDirAll hbelow) fun _ _ => ?_
    simp only [hname]
    intro t ht
    rw [bind_of_read (get_run t)]
    rcases hunique : uniquePathForName t (join root ((parent rel).getD [])) s turns with _ | target
    · exact stays_fail none t ht
    · refine stays_pure ?_ t ht
      obtain ⟨s', hs', rfl⟩ := uniquePathForName_eq hs hunique
      exact ⟨_, s', hbelow, hs'.components_join (join_ne_nil (.inl hroot))⟩

/-- Once the session's files directory is there, the upload stays in it. -/
theorem stays_upload {root rel : Path} {turns : ℕ} (dedupe : Bool) (hroot : root ≠ [])
    (hrel : IsNames rel) (hne : rel ≠ []) :
    Stays (components root) (do
      let targetPath ← resolveSessionUploadTarget root rel dedupe turns
      match parent targetPath with
      | none => fail (some invalidUploadPath)
      | some dir => do
        createDirAll dir
        writeFile targetPath
        return targetPath) fun _ => True := by
  refine stays_bind (stays_resolveSessionUploadTarget dedupe hroot hrel hne) ?_
  rintro target ⟨above, s, habove, hs⟩
  rcases hparent : parent target with _ | dir
  · exact stays_fail _
  · have hdir : components dir = above := by rw [components_parent hparent, hs, List.dropLast_concat]
    have htarget : components root <+: components target := hs ▸ habove.trans (List.prefix_append _ _)
    refine stays_bind (stays_createDirAll (hdir ▸ habove)) fun _ _ => ?_
    exact stays_bind (stays_writeFile htarget) fun _ _ => stays_pure trivial

/-! ### Where uploads land -/

section Landing

variable (paths : PathsConfig) (id path : List Char) (dedupe : Bool) (t : Tree)

theorem sessionsDir_ne_nil : paths.sessionsDir ≠ [] := join_ne_nil (.inr (by decide))

theorem isName_files : IsName "files".toList := ⟨by decide, by decide, by decide, by decide⟩

theorem components_filesDir :
    components (paths.filesDir id) = components (join paths.sessionsDir id) ++ [.normal "files".toList] :=
  isName_files.components_join (join_ne_nil (.inl (sessionsDir_ne_nil paths)))

/-- The operating system takes the path of the files directory unless there is a NUL in the id. -/
theorem nul_mem_filesDir : nul ∈ paths.filesDir id ↔ nul ∈ id := by
  have hslash : nul ≠ '/' := by decide
  constructor
  · intro h
    have hfiles : nul ∉ "files".toList := by decide
    have hsessions : nul ∉ "sessions".toList := by decide
    have hjoin := (of_mem_join h hslash).resolve_right hfiles
    refine (of_mem_join hjoin hslash).resolve_left fun hdir => ?_
    exact (of_mem_join hdir hslash).elim paths.nulFree hsessions
  · intro h
    exact mem_join_left isName_files.relative (mem_join_right h)

/-- The effects of an upload whose path is refused. -/
theorem writeSessionUpload_refused {turns : ℕ} (h : normalizeRelativePath (trim path) = none) :
    (writeSessionUpload paths id path dedupe turns).run t = ([], .error (some invalidUploadPath)) := by
  rw [writeSessionUpload, writeSessionUploadPath, h]
  rfl

theorem writeSessionUpload_nul {turns : ℕ} (h : nul ∈ id) :
    ((writeSessionUpload paths id path dedupe turns).run t).1 = [] := by
  rcases hrel : normalizeRelativePath (trim path) with _ | rel
  · rw [writeSessionUpload_refused paths id path dedupe t hrel]
  · have hensure : (ensureSessionFilesDir paths id).run t = ([], .error (some nulError)) :=
      bind_of_error (createDirAll_nul ((nul_mem_filesDir paths id).mpr h) t) _
    rw [writeSessionUpload, writeSessionUploadPath, hrel]
    simp only [bind_of_error hensure]

/-- An accepted upload makes what is missing down to the files directory, and goes on below it. -/
theorem writeSessionUpload_accepted (turns : ℕ) {rel : Path} (hrel : normalizeRelativePath (trim path) = some rel)
    (hid : nul ∉ id) :
    ∃ rest, ((writeSessionUpload paths id path dedupe turns).run t).1 =
        (missing t (components (paths.filesDir id))).map .mkdir ++ rest ∧
      ∀ e ∈ rest, components (paths.filesDir id) <+: e.target := by
  obtain ⟨hnames, hne⟩ := isNames_normalizeRelativePath hrel
  have hroot : paths.filesDir id ≠ [] := join_ne_nil (.inr (by decide))
  have hensure : (ensureSessionFilesDir paths id).run t =
      ((missing t (components (paths.filesDir id))).map .mkdir, .ok (paths.filesDir id)) := by
    rw [ensureSessionFilesDir, bind_of_ok (createDirAll_run (mt (nul_mem_filesDir paths id).mp hid) t)]
    simp only [pure_run, List.append_nil]
  have hpresent : (applyAll UploadEffect.apply ((missing t (components (paths.filesDir id))).map .mkdir) t).present
      (components (paths.filesDir id)) = true :=
    present_missing (by rw [components_filesDir, List.getLast?_concat]; rfl) t
  rw [writeSessionUpload, writeSessionUploadPath, hrel]
  simp only [bind_of_ok hensure]
  exact ⟨_, rfl, (stays_upload dedupe hroot hnames hne _ hpresent).1⟩

/-- Whatever the call makes or writes lies under `sessions_dir/<id>/files`, and `sessions_dir/<id>` is a
direct child of `sessions_dir`; `turns` of the search for a free name are taken, at most. -/
def Inside : Prop :=
  (∃ name, components (join paths.sessionsDir id) = components paths.sessionsDir ++ [.normal name]) ∧
    ∀ turns, ∀ e ∈ ((writeSessionUpload paths id path dedupe turns).run t).1,
      components (paths.filesDir id) <+: e.target

/-- **An upload stays inside its session** just if its id names a child of the sessions directory and
the session directory is there already, unless the upload is refused for its path or for a NUL in the
id. The path can move nothing outside; the id is joined unchecked. -/
theorem upload_inside :
    Inside paths id path dedupe t ↔
      NamesChild paths.sessionsDir id ∧
        (normalizeSessionUploadRelativePath path = none ∨ nul ∈ id ∨
          t.present (components (join paths.sessionsDir id)) = true) := by
  rw [Inside, namesChild_iff (sessionsDir_ne_nil paths)]
  refine and_congr_right fun hchild => ?_
  obtain ⟨name, hname⟩ := (namesChild_iff (sessionsDir_ne_nil paths)).mpr hchild
  unfold normalizeSessionUploadRelativePath
  rcases hrel : normalizeRelativePath (trim path) with _ | rel
  · refine ⟨fun _ => .inl rfl, fun _ turns e he => ?_⟩
    rw [writeSessionUpload_refused paths id path dedupe t hrel] at he
    cases he
  by_cases hid : nul ∈ id
  · refine ⟨fun _ => .inr (.inl hid), fun _ turns e he => ?_⟩
    rw [writeSessionUpload_nul paths id path dedupe t hid] at he
    cases he
  simp only [reduceCtorEq, hid, false_or]
  have hfiles := components_filesDir paths id
  constructor
  · intro hall
    by_contra habsent
    -- the session's own directory is made, and does not lie under its files
    obtain ⟨rest, hrun, -⟩ := writeSessionUpload_accepted paths id path dedupe t 0 hrel hid
    have hmissing : components (join paths.sessionsDir id) ∈ missing t (components (paths.filesDir id)) := by
      refine mem_missing.mpr ⟨hfiles ▸ List.prefix_append _ _, ?_, Bool.eq_false_iff.mpr habsent⟩
      rw [hname, List.getLast?_concat]
      rfl
    have hunder := hall 0 (.mkdir (components (join paths.sessionsDir id))) (by
      rw [hrun]
      exact List.mem_append_left rest (List.mem_map_of_mem (f := UploadEffect.mkdir) hmissing))
    have hle := hunder.length_le
    rw [hfiles, List.length_append] at hle
    exact absurd hle (Nat.not_succ_le_self _)
  · intro hpresent turns e he
    obtain ⟨rest, hrun, hrest⟩ := writeSessionUpload_accepted paths id path dedupe t turns hrel hid
    rw [hrun] at he
    rcases List.mem_append.mp he with he | he
    · obtain ⟨q, hq, rfl⟩ := List.mem_map.mp he
      obtain ⟨hqp, -, hmissing⟩ := mem_missing.mp hq
      rw [hfiles, List.prefix_concat_iff] at hqp
      rcases hqp with rfl | hqp
      · rw [hfiles]
        exact List.prefix_rfl
      · rw [Tree.present_above hpresent hqp] at hmissing
        cases hmissing
    · exact hrest e he

end Landing

/-- An absolute id takes the place of the sessions directory: the file is written under `/etc`. -/
theorem upload_outside :
    let paths : PathsConfig := ⟨"/state".toList, by decide⟩
    let t : Tree := ⟨[[.rootDir, .normal "etc".toList], [.rootDir, .normal "state".toList, .normal "sessions".toList]]⟩
    .write [.rootDir, .normal "etc".toList, .normal "files".toList, .normal "a.txt".toList] ∈
        ((writeSessionUpload paths "/etc".toList "a.txt".toList true 1).run t).1 ∧
      ¬ Inside paths "/etc".toList "a.txt".toList true t := by
  refine ⟨by decide +kernel, ?_⟩
  rintro ⟨⟨name, hname⟩, -⟩
  have hdir : components (join "/state/sessions".toList "/etc".toList) = [.rootDir, .normal "etc".toList] := by
    decide +kernel
  have hsessions : (components (PathsConfig.sessionsDir ⟨"/state".toList, by decide⟩)).length = 3 := by
    decide +kernel
  have hlength := congrArg List.length (hdir.symm.trans hname)
  rw [List.length_append, hsessions] at hlength
  cases hlength

/-! ### The checked counterpart -/

/-- The directory the retention sweep takes for a session: ids of letters, digits, `-` and `_`
alone (`daemon/journal_retention.rs`). -/
def safeSessionDir (sessionsDir : Path) (id : List Char) : Option Path :=
  if id.all fun c => c.isAlphanum || c = '-' || c = '_' then
    match components id with
    | [.normal first] => if first = id then some (join sessionsDir id) else none
    | _ => none
  else none

/-- An id that retention takes names a child of the sessions directory. -/
theorem namesChild_of_safeSessionDir {sessionsDir dir : Path} {id : List Char}
    (h : safeSessionDir sessionsDir id = some dir) : NamesChild sessionsDir id ∧ dir = join sessionsDir id := by
  unfold safeSessionDir at h
  split_ifs at h
  split at h
  · rename_i first hfirst
    split_ifs at h with heq
    subst heq
    have hname : IsName first := isName_of_mem_components (p := first) (hfirst ▸ List.mem_cons_self)
    exact ⟨hname.namesChild sessionsDir, (Option.some.inj h).symm⟩
  · cases h

end Session
end OpenRelay
