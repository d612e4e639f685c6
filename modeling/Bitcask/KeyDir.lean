import Bitcask.Basic

/-!
# Sums over the KeyDir

The statistics invariant counts, for each file, the keys whose KeyDir entry points into
it and the bytes those entries cover.  Both are sums of a weight over the KeyDir's
entries, `total`, and the three ways the engine changes an entry — `insert`
(`put`, recovery), `erase` (`delete`) and `replace` (merge) — change such a sum by the
weight of the entry removed and the entry added.  This file proves that once, for every
weight; `liveKeysIn`/`liveBytesIn` are the two instances.
-/

namespace Bitcask

/-- The sum of `w` over a list of KeyDir entries. -/
def entriesTotal (w : KeyDirEntry → Nat) : List (Σ _ : Bytes, KeyDirEntry) → Nat
  | [] => 0
  | s :: rest => w s.2 + entriesTotal w rest

/-- The weight of a key's entry, `0` when the key is absent. -/
def weightOf (w : KeyDirEntry → Nat) (entry : Option KeyDirEntry) : Nat :=
  (entry.map w).getD 0

@[simp] theorem weightOf_none (w : KeyDirEntry → Nat) : weightOf w none = 0 := rfl
@[simp] theorem weightOf_some (w : KeyDirEntry → Nat) (e : KeyDirEntry) :
    weightOf w (some e) = w e := rfl

theorem entriesTotal_kerase (w : KeyDirEntry → Nat) (k : Bytes) :
    ∀ l : List (Σ _ : Bytes, KeyDirEntry),
      entriesTotal w l = entriesTotal w (l.kerase k) + weightOf w (l.dlookup k)
  | [] => rfl
  | ⟨k', e⟩ :: rest => by
      by_cases h : k = k'
      · subst h
        simp [entriesTotal, List.kerase_cons_eq, List.dlookup_cons_eq, Nat.add_comm]
      · have ih := entriesTotal_kerase w k rest
        simp only [entriesTotal, List.kerase_cons_ne, List.dlookup_cons_ne, ne_eq, h,
          not_false_eq_true]
        omega

theorem entriesTotal_kreplace (w : KeyDirEntry → Nat) (k : Bytes) (e : KeyDirEntry) :
    ∀ l : List (Σ _ : Bytes, KeyDirEntry), k ∈ l.keys →
      entriesTotal w (l.kreplace k e) + weightOf w (l.dlookup k) = entriesTotal w l + w e
  | [], h => by simp at h
  | ⟨k', e'⟩ :: rest, h => by
      by_cases hk : k = k'
      · subst hk
        simp [List.kreplace, List.lookmap_cons_some, entriesTotal, List.dlookup_cons_eq]
        omega
      · have hmem : k ∈ rest.keys := by simpa [List.keys, hk] using h
        have ih := entriesTotal_kreplace w k e rest hmem
        simp only [List.kreplace] at ih ⊢
        rw [List.lookmap_cons_none _ _ (by simp [hk])]
        simp only [entriesTotal, List.dlookup_cons_ne, ne_eq, hk, not_false_eq_true]
        omega

theorem dlookup_kreplace (k k' : Bytes) (e : KeyDirEntry) :
    ∀ l : List (Σ _ : Bytes, KeyDirEntry),
      (l.kreplace k e).dlookup k' = if k' = k ∧ k ∈ l.keys then some e else l.dlookup k'
  | [] => by simp [List.kreplace]
  | ⟨k₁, e₁⟩ :: rest => by
      have ih := dlookup_kreplace k k' e rest
      by_cases hk : k = k₁
      · subst hk
        by_cases h' : k' = k
        · subst h'; simp [List.kreplace, List.lookmap_cons_some, List.dlookup_cons_eq]
        · simp [List.kreplace, List.lookmap_cons_some, List.dlookup_cons_ne, h']
      · simp only [List.kreplace] at ih ⊢
        rw [List.lookmap_cons_none _ _ (by simp [hk])]
        by_cases h' : k' = k₁
        · subst h'
          simp [List.dlookup_cons_eq, Ne.symm hk]
        · simp only [List.dlookup_cons_ne, ne_eq, h', not_false_eq_true, ih]
          exact if_congr (by simp [List.keys, hk]) rfl rfl

/-- The sum of `w` over the KeyDir's entries. -/
def total (kd : KeyDir) (w : KeyDirEntry → Nat) : Nat := entriesTotal w kd.entries

theorem entriesTotal_perm (w : KeyDirEntry → Nat) {l l' : List (Σ _ : Bytes, KeyDirEntry)}
    (h : l.Perm l') : entriesTotal w l = entriesTotal w l' := by
  induction h with
  | nil => rfl
  | cons s _ ih => simp only [entriesTotal, ih]
  | swap a b l => simp only [entriesTotal]; omega
  | trans _ _ ih₁ ih₂ => exact ih₁.trans ih₂

/-- The sums read the KeyDir only through `lookup`: the order in which the map iterates is
immaterial. -/
theorem total_congr {kd kd' : KeyDir} (h : ∀ k, kd.lookup k = kd'.lookup k)
    (w : KeyDirEntry → Nat) : total kd w = total kd' w :=
  entriesTotal_perm w (List.lookup_ext kd.nodupKeys kd'.nodupKeys fun k e => by
    show e ∈ kd.lookup k ↔ e ∈ kd'.lookup k
    rw [h])

theorem total_insert (kd : KeyDir) (k : Bytes) (e : KeyDirEntry) (w : KeyDirEntry → Nat) :
    total (kd.insert k e) w + weightOf w (kd.lookup k) = total kd w + w e := by
  have := entriesTotal_kerase w k kd.entries
  simp only [total, AList.insert_entries, entriesTotal, AList.lookup] at this ⊢
  omega

theorem total_erase (kd : KeyDir) (k : Bytes) (w : KeyDirEntry → Nat) :
    total (kd.erase k) w + weightOf w (kd.lookup k) = total kd w :=
  (entriesTotal_kerase w k kd.entries).symm

theorem total_replace (kd : KeyDir) (k : Bytes) (e : KeyDirEntry) (w : KeyDirEntry → Nat)
    (h : k ∈ kd) : total (kd.replace k e) w + weightOf w (kd.lookup k) = total kd w + w e :=
  entriesTotal_kreplace w k e kd.entries (AList.mem_keys.1 h)

theorem entriesTotal_eq_zero (w : KeyDirEntry → Nat) : ∀ l : List (Σ _ : Bytes, KeyDirEntry),
    (∀ s ∈ l, w s.2 = 0) → entriesTotal w l = 0
  | [], _ => rfl
  | s :: rest, h => by
      simp [entriesTotal, h s (List.mem_cons_self _ _),
        entriesTotal_eq_zero w rest fun x hx => h x (List.mem_cons_of_mem _ hx)]

/-- Every entry in the KeyDir's list is what its key looks up. -/
theorem lookup_of_mem_entries {kd : KeyDir} {s : Σ _ : Bytes, KeyDirEntry} (hs : s ∈ kd.entries) :
    kd.lookup s.1 = some s.2 :=
  AList.mem_lookup_iff.2 hs

/-- A weight no entry carries sums to zero. -/
theorem total_eq_zero {kd : KeyDir} {w : KeyDirEntry → Nat}
    (h : ∀ k e, kd.lookup k = some e → w e = 0) : total kd w = 0 :=
  entriesTotal_eq_zero w _ fun s hs => h s.1 s.2 (lookup_of_mem_entries hs)

/-- A key's weight is part of the total. -/
theorem weightOf_le_total (kd : KeyDir) (k : Bytes) (w : KeyDirEntry → Nat) :
    weightOf w (kd.lookup k) ≤ total kd w := by
  have := total_erase kd k w
  omega

theorem lookup_replace (kd : KeyDir) (k k' : Bytes) (e : KeyDirEntry) :
    (kd.replace k e).lookup k' = if k' = k ∧ k ∈ kd then some e else kd.lookup k' := by
  simp only [AList.lookup, AList.replace, dlookup_kreplace, AList.mem_keys, AList.keys]

@[simp] theorem lookup_replace_self {kd : KeyDir} {k : Bytes} (e : KeyDirEntry) (h : k ∈ kd) :
    (kd.replace k e).lookup k = some e := by
  simp [lookup_replace, h]

@[simp] theorem lookup_replace_ne {kd : KeyDir} {k k' : Bytes} (e : KeyDirEntry) (h : k' ≠ k) :
    (kd.replace k e).lookup k' = kd.lookup k' := by
  simp [lookup_replace, h]

/-- Whether an entry points into file `fileid`, as a count. -/
def inFile (fileid : Nat) (e : KeyDirEntry) : Nat := if e.fileid = fileid then 1 else 0

/-- The bytes an entry covers in file `fileid`. -/
def bytesInFile (fileid : Nat) (e : KeyDirEntry) : Nat := if e.fileid = fileid then e.len else 0

@[simp] theorem inFile_mk (f g len pos : Nat) (t : Int) :
    inFile g ⟨f, len, pos, t⟩ = if f = g then 1 else 0 := rfl

@[simp] theorem bytesInFile_mk (f g len pos : Nat) (t : Int) :
    bytesInFile g ⟨f, len, pos, t⟩ = if f = g then len else 0 := rfl

/-- The number of keys whose entry points into file `fileid`. -/
def liveKeysIn (kd : KeyDir) (fileid : Nat) : Nat := total kd (inFile fileid)

/-- The bytes covered by the entries pointing into file `fileid`. -/
def liveBytesIn (kd : KeyDir) (fileid : Nat) : Nat := total kd (bytesInFile fileid)

/-- A file some entry points into has a live key. -/
theorem one_le_liveKeysIn {kd : KeyDir} {k : Bytes} {e : KeyDirEntry}
    (h : kd.lookup k = some e) : 1 ≤ liveKeysIn kd e.fileid := by
  have := weightOf_le_total kd k (inFile e.fileid)
  simpa [h, inFile] using this

end Bitcask
