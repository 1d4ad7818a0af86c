/-
# Finite maps with sorted keys

A finite map over a linear order as the list of its entries, in strictly
ascending key order. Looking up, inserting, erasing and adjusting commute as
expected (`get?_insert`, `get?_erase`, `get?_adjust`); the keys are the entries'
and ascend (`keys_pairwise`), so the last one is the greatest (`le_of_last`).
-/
import Mathlib.Order.Lattice
import Mathlib.Order.Basic
import Mathlib.Data.List.Basic
import Mathlib.Data.List.Pairwise

/-- A finite map whose entries stand in ascending key order. -/
structure SortedMap (κ ν : Type*) [LinearOrder κ] where
  entries : List (κ × ν)
  sorted : entries.Pairwise fun a b => a.1 < b.1

namespace SortedMap

variable {κ ν : Type*} [LinearOrder κ]

instance [DecidableEq ν] : DecidableEq (SortedMap κ ν) := fun m n =>
  decidable_of_iff (m.entries = n.entries) <| by
    cases m; cases n; simp

/-- No entry. -/
def empty : SortedMap κ ν := ⟨[], .nil⟩

/-- The value under a key. -/
def get? (m : SortedMap κ ν) (k : κ) : Option ν := (m.entries.find? (·.1 = k)).map Prod.snd

def keys (m : SortedMap κ ν) : List κ := m.entries.map Prod.fst

/-- The entries with the one of `k` replaced or added in its place. -/
def insertEntry (k : κ) (v : ν) : List (κ × ν) → List (κ × ν)
  | [] => [(k, v)]
  | e :: es => if k < e.1 then (k, v) :: e :: es
    else if k = e.1 then (k, v) :: es
    else e :: insertEntry k v es

theorem mem_insertEntry {k : κ} {v : ν} {e : κ × ν} :
    ∀ {es : List (κ × ν)}, e ∈ insertEntry k v es → e = (k, v) ∨ e ∈ es
  | [], h => .inl (by simpa [insertEntry] using h)
  | e' :: es, h => by
    unfold insertEntry at h
    split at h
    · simpa using h
    · split at h
      · rcases List.mem_cons.mp h with h | h
        · exact .inl h
        · exact .inr (List.mem_cons_of_mem _ h)
      · rcases List.mem_cons.mp h with h | h
        · exact .inr (h ▸ List.mem_cons_self)
        · exact (mem_insertEntry h).imp_right (List.mem_cons_of_mem _)

theorem insertEntry_pairwise (k : κ) (v : ν) :
    ∀ {es : List (κ × ν)}, es.Pairwise (fun a b => a.1 < b.1) →
      (insertEntry k v es).Pairwise fun a b => a.1 < b.1
  | [], _ => List.pairwise_singleton _ _
  | e :: es, h => by
    obtain ⟨he, hes⟩ := List.pairwise_cons.mp h
    unfold insertEntry
    split
    · rename_i hlt
      refine List.pairwise_cons.mpr ⟨fun e' h' => ?_, h⟩
      rcases List.mem_cons.mp h' with rfl | h'
      · exact hlt
      · exact hlt.trans (he e' h')
    · split
      · rename_i heq
        exact List.pairwise_cons.mpr ⟨fun e' h' => heq ▸ he e' h', hes⟩
      · rename_i hlt heq
        refine List.pairwise_cons.mpr ⟨fun e' h' => ?_, insertEntry_pairwise k v hes⟩
        rcases mem_insertEntry h' with rfl | h'
        · exact lt_of_le_of_ne (not_lt.mp hlt) (Ne.symm heq)
        · exact he e' h'

/-- The value is put under the key, whatever was there. -/
def insert (m : SortedMap κ ν) (k : κ) (v : ν) : SortedMap κ ν :=
  ⟨insertEntry k v m.entries, insertEntry_pairwise k v m.sorted⟩

/-- Nothing is under the key. -/
def erase (m : SortedMap κ ν) (k : κ) : SortedMap κ ν :=
  ⟨m.entries.filter (·.1 ≠ k), m.sorted.filter _⟩

/-- The value of `k` changed by `f`, if there is one. -/
def adjust (m : SortedMap κ ν) (k : κ) (f : ν → ν) : SortedMap κ ν where
  entries := m.entries.map fun e => if e.1 = k then (e.1, f e.2) else e
  sorted := by
    refine List.Pairwise.map _ (fun a b h => ?_) m.sorted
    split <;> split <;> exact h

/-- Every value changed by `f`. -/
def mapVals (m : SortedMap κ ν) (f : κ → ν → ν) : SortedMap κ ν where
  entries := m.entries.map fun e => (e.1, f e.1 e.2)
  sorted := m.sorted.map _ fun _ _ h => h

@[simp] theorem get?_empty (k : κ) : (empty : SortedMap κ ν).get? k = none := rfl

theorem find?_insertEntry_self (k : κ) (v : ν) :
    ∀ es : List (κ × ν), (insertEntry k v es).find? (·.1 = k) = some (k, v)
  | [] => by simp [insertEntry]
  | e :: es => by
    unfold insertEntry
    split
    · simp
    · split
      · simp
      · rename_i hne
        rw [List.find?_cons_of_neg (by simpa using Ne.symm hne)]
        exact find?_insertEntry_self k v es

theorem find?_insertEntry_ne {k k' : κ} (h : k' ≠ k) (v : ν) :
    ∀ es : List (κ × ν), (insertEntry k v es).find? (·.1 = k') = es.find? (·.1 = k')
  | [] => by simp [insertEntry, Ne.symm h]
  | e :: es => by
    unfold insertEntry
    split
    · rw [List.find?_cons_of_neg (by simpa using Ne.symm h)]
    · split
      · rename_i heq
        rw [List.find?_cons_of_neg (by simpa using Ne.symm h),
          List.find?_cons_of_neg (by simpa [← heq] using Ne.symm h)]
      · simp only [List.find?_cons, find?_insertEntry_ne h v es]

theorem get?_insert (m : SortedMap κ ν) (k k' : κ) (v : ν) :
    (m.insert k v).get? k' = if k' = k then some v else m.get? k' := by
  unfold get? insert
  split
  · rename_i h
    rw [h, find?_insertEntry_self]; rfl
  · rename_i h
    rw [find?_insertEntry_ne h]

theorem find?_filter_ne {k k' : κ} (h : k' ≠ k) :
    ∀ es : List (κ × ν), (es.filter (·.1 ≠ k)).find? (·.1 = k') = es.find? (·.1 = k')
  | [] => rfl
  | e :: es => by
    by_cases he : e.1 = k
    · rw [List.filter_cons_of_neg (by simpa using he), find?_filter_ne h es,
        List.find?_cons_of_neg (by simpa [he] using Ne.symm h)]
    · rw [List.filter_cons_of_pos (by simpa using he)]
      simp only [List.find?_cons, find?_filter_ne h es]

theorem get?_erase (m : SortedMap κ ν) (k k' : κ) :
    (m.erase k).get? k' = if k' = k then none else m.get? k' := by
  unfold get? erase
  split
  · rename_i h
    rw [h, List.find?_eq_none.mpr (by simp)]; rfl
  · rename_i h
    rw [find?_filter_ne h]

theorem find?_map_adjust (k k' : κ) (f : ν → ν) : ∀ es : List (κ × ν),
    ((es.map fun e => if e.1 = k then (e.1, f e.2) else e).find? (·.1 = k')).map Prod.snd =
      if k' = k then ((es.find? (·.1 = k')).map Prod.snd).map f
      else (es.find? (·.1 = k')).map Prod.snd
  | [] => by simp
  | e :: es => by
    have ih := find?_map_adjust k k' f es
    by_cases he : e.1 = k'
    · rw [List.map_cons, List.find?_cons_of_pos (by split <;> simpa using he),
        List.find?_cons_of_pos (by simpa using he)]
      by_cases hk : k' = k
      · simp [he, hk]
      · simp [he, hk]
    · rw [List.map_cons, List.find?_cons_of_neg (by split <;> simpa using he),
        List.find?_cons_of_neg (by simpa using he)]
      exact ih

theorem get?_adjust (m : SortedMap κ ν) (k k' : κ) (f : ν → ν) :
    (m.adjust k f).get? k' = if k' = k then (m.get? k').map f else m.get? k' :=
  find?_map_adjust k k' f m.entries

theorem get?_mapVals (m : SortedMap κ ν) (f : κ → ν → ν) (k : κ) :
    (m.mapVals f).get? k = (m.get? k).map (f k) := by
  unfold get? mapVals
  simp only [List.find?_map, Function.comp_def, Option.map_map]
  refine Option.map_congr fun e he => ?_
  have hk : e.1 = k := by simpa using List.find?_some he
  rw [hk]

theorem find?_of_mem {e : κ × ν} : ∀ {es : List (κ × ν)}, es.Pairwise (fun a b => a.1 < b.1) → e ∈ es →
    es.find? (·.1 = e.1) = some e
  | x :: es, h, he => by
    obtain ⟨hx, hes⟩ := List.pairwise_cons.mp h
    rcases List.mem_cons.mp he with rfl | he
    · rw [List.find?_cons_of_pos (by simp)]
    · rw [List.find?_cons_of_neg (by simpa using (hx e he).ne), find?_of_mem hes he]

theorem get?_of_mem {m : SortedMap κ ν} {e : κ × ν} (he : e ∈ m.entries) : m.get? e.1 = some e.2 := by
  unfold get?
  rw [find?_of_mem m.sorted he]
  rfl

theorem mem_of_get? {m : SortedMap κ ν} {k : κ} {v : ν} (h : m.get? k = some v) : (k, v) ∈ m.entries := by
  obtain ⟨e, he, rfl⟩ := Option.map_eq_some_iff.mp h
  have hkey : e.1 = k := by simpa using List.find?_some he
  rw [← hkey]
  exact List.mem_of_find?_eq_some he

/-! ### Keys -/

theorem keys_pairwise (m : SortedMap κ ν) : m.keys.Pairwise (· < ·) :=
  List.pairwise_map.mpr m.sorted

theorem mem_keys (m : SortedMap κ ν) (k : κ) : k ∈ m.keys ↔ (m.get? k).isSome := by
  simp only [keys, get?, List.mem_map, Option.isSome_map, List.find?_isSome, decide_eq_true_eq]

theorem get?_eq_none (m : SortedMap κ ν) (k : κ) : m.get? k = none ↔ k ∉ m.keys := by
  rw [mem_keys, Option.not_isSome_iff_eq_none]

@[simp] theorem keys_mapVals (m : SortedMap κ ν) (f : κ → ν → ν) : (m.mapVals f).keys = m.keys := by
  simp only [keys, mapVals, List.map_map]
  rfl

theorem mem_keys_insert (m : SortedMap κ ν) (k k' : κ) (v : ν) :
    k' ∈ (m.insert k v).keys ↔ k' = k ∨ k' ∈ m.keys := by
  rw [mem_keys, mem_keys, get?_insert]
  by_cases h : k' = k <;> simp [h]

theorem mem_keys_erase (m : SortedMap κ ν) (k k' : κ) :
    k' ∈ (m.erase k).keys ↔ k' ≠ k ∧ k' ∈ m.keys := by
  rw [mem_keys, mem_keys, get?_erase]
  by_cases h : k' = k <;> simp [h]

/-- The last key is the greatest. -/
theorem le_of_last {m : SortedMap κ ν} {k l : κ} (hl : m.keys.getLast? = some l) (hk : k ∈ m.keys) :
    k ≤ l := by
  obtain ⟨ks, hks⟩ := List.getLast?_eq_some_iff.mp hl
  have hp := m.keys_pairwise
  rw [hks, List.pairwise_append] at hp
  rw [hks] at hk
  rcases List.mem_append.mp hk with hk | hk
  · exact (hp.2.2 k hk l (by simp)).le
  · exact (List.mem_singleton.mp hk).le

/-- A key that bounds all others is the last one. -/
theorem last_of_le {m : SortedMap κ ν} {l : κ} (hl : l ∈ m.keys) (h : ∀ k ∈ m.keys, k ≤ l) :
    m.keys.getLast? = some l := by
  rcases hlast : m.keys.getLast? with _ | l'
  · rw [List.getLast?_eq_none_iff] at hlast
    rw [hlast] at hl; cases hl
  · have h1 := le_of_last hlast hl
    have h2 := h l' (List.mem_of_getLast? hlast)
    rw [le_antisymm h2 h1]

/-- Ascending lists of the same keys are equal. -/
theorem eq_of_ascending {l l' : List κ} (h : l.Pairwise (· < ·)) (h' : l'.Pairwise (· < ·))
    (hmem : ∀ k, k ∈ l ↔ k ∈ l') : l = l' := by
  have hperm : l.Perm l' := (List.perm_ext_iff_of_nodup (h.imp ne_of_lt) (h'.imp ne_of_lt)).mpr hmem
  exact hperm.eq_of_pairwise (fun a b _ _ hab hba => absurd hba (lt_asymm hab)) h h'

end SortedMap
