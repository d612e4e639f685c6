import Mathlib.Algebra.BigOperators.Group.List
import Mathlib.Algebra.Order.Ring.Nat
import Bitcask.Log
import Bitcask.KeyDir

/-!
# KeyDir validity and per-file accounting

The two invariants the engine's comments and the spec state about its in-memory maps,
relative to the data files they describe:

* `KeyDirValid` — every KeyDir entry names a record of its key, with a value, whose
  timestamp is the entry's: the premise of the `unsafe` reads in `Reader::get` and in
  the merge loop;
* `FileAccounts` — for one file, `live_keys` is the number of keys pointing into it,
  `live_keys + dead_keys` the number of its records, and `dead_bytes` plus the bytes the
  live entries cover its size.

`Accounts` bundles them for every file.  The engine changes the triple
`(KeyDir, statistics, data files)` in only four ways, and each keeps `Accounts`:

* `Accounts.appendLive` — a record with a value is appended to a file, the KeyDir points
  its key at it, and the entry it replaces turns dead (`put`; replaying a live record);
* `Accounts.appendDead` — a record no entry points at is appended and counted dead
  (the tombstone of `delete`; replaying a tombstone);
* `Accounts.dropKey` — a key is removed and its record turns dead (`delete`);
* `Accounts.createEmpty` — a new empty file appears (rollover, merge, open).

The form of `FileAccounts` is the one these steps keep; the last section turns it into
the statement about unreferenced records (`FileAccounts.dead_eq_unreferenced`).
-/

namespace Bitcask

/-- The frames of data file `fileid`; a missing file has none. -/
def framesOf (files : FileMap DataFile) (fileid : Nat) : DataFile :=
  (files.lookup fileid).getD []

@[simp] theorem framesOf_insert (files : FileMap DataFile) (f g : Nat) (file : DataFile) :
    framesOf (files.insert f file) g = if g = f then file else framesOf files g := by
  by_cases h : g = f
  · subst h; simp [framesOf, AList.lookup_insert]
  · simp [framesOf, AList.lookup_insert_ne h, h]

theorem framesOf_of_lookup {files : FileMap DataFile} {f : Nat} {file : DataFile}
    (h : files.lookup f = some file) : framesOf files f = file := by
  simp [framesOf, h]

/-- The KeyDir entry of `key` names, in `files`, a record of `key` that has a value and
carries the entry's timestamp. -/
def EntryValid (files : FileMap DataFile) (key : Bytes) (entry : KeyDirEntry) : Prop :=
  ∃ file fr, files.lookup entry.fileid = some file ∧ file.read entry.len entry.pos = some fr ∧
    fr.entry.key = key ∧ fr.entry.value.isSome ∧ fr.entry.tstamp = entry.tstamp

/-- Every KeyDir entry is valid. -/
def KeyDirValid (kd : KeyDir) (files : FileMap DataFile) : Prop :=
  ∀ key entry, kd.lookup key = some entry → EntryValid files key entry

theorem EntryValid.mem {files : FileMap DataFile} {key : Bytes} {entry : KeyDirEntry}
    (h : EntryValid files key entry) : entry.fileid ∈ files := by
  obtain ⟨file, -, h1, -⟩ := h
  exact mem_of_lookup h1

/-- Every file of `files` is still in `files'`, possibly with frames appended after its
own: how every operation but the removals of a merge changes the directory. -/
def Extends (files files' : FileMap DataFile) : Prop :=
  ∀ f file, files.lookup f = some file → ∃ more, files'.lookup f = some (file ++ more)

theorem Extends.refl (files : FileMap DataFile) : Extends files files :=
  fun _ file h => ⟨[], by simpa using h⟩

theorem Extends.trans {files₁ files₂ files₃ : FileMap DataFile} (h₁ : Extends files₁ files₂)
    (h₂ : Extends files₂ files₃) : Extends files₁ files₃ := fun f file h => by
  obtain ⟨m₁, h⟩ := h₁ f file h
  obtain ⟨m₂, h⟩ := h₂ f _ h
  exact ⟨m₁ ++ m₂, by simpa using h⟩

theorem extends_append {files : FileMap DataFile} {f : Nat} {file : DataFile}
    (hf : files.lookup f = some file) (more : DataFile) :
    Extends files (files.insert f (file ++ more)) := fun g file' hg => by
  by_cases h : g = f
  · subst h; rw [hf] at hg; cases hg; exact ⟨more, by simp⟩
  · exact ⟨[], by simp [AList.lookup_insert_ne h, hg]⟩

theorem extends_insert_fresh {files : FileMap DataFile} {f : Nat} (hf : f ∉ files)
    (file : DataFile) : Extends files (files.insert f file) := fun g file' hg => by
  have h : g ≠ f := fun h => hf (h ▸ mem_of_lookup hg)
  exact ⟨[], by simp [AList.lookup_insert_ne h, hg]⟩

theorem EntryValid.mono {files files' : FileMap DataFile} {key : Bytes} {entry : KeyDirEntry}
    (h : EntryValid files key entry) (hx : Extends files files') : EntryValid files' key entry := by
  obtain ⟨file, fr, h1, h2, rest⟩ := h
  obtain ⟨more, h1'⟩ := hx _ _ h1
  exact ⟨file ++ more, fr, h1', DataFile.read_append more h2, rest⟩

/-- Turn the entry a key had, if any, dead in the statistics of its file: the block
`if let Some(prev) = keydir.insert(..) { stats.entry(prev.fileid).or_default().overwrite(prev.len) }`
shared by `put`, `delete` and both replays. -/
def overwritePrev (stats : Stats) : Option KeyDirEntry → Stats
  | some prev => updateStats stats prev.fileid (·.overwrite prev.len)
  | none => stats

@[simp] theorem overwritePrev_none (stats : Stats) : overwritePrev stats none = stats := rfl

/-- An overwrite gives statistics only to ids that had them and to the previous entry's file. -/
theorem forall_mem_overwritePrev {p : Nat → Prop} {stats : Stats} {prev : Option KeyDirEntry}
    (hs : ∀ g ∈ stats, p g) (hp : ∀ q, prev = some q → p q.fileid) :
    ∀ g ∈ overwritePrev stats prev, p g := by
  cases prev with
  | none => exact hs
  | some q => exact fun g hg => ((mem_updateStats _ _ _ _).1 hg).elim (fun he => he ▸ hp q rfl) (hs g)

/-- The accounting of one file. -/
structure FileAccounts (kd : KeyDir) (stats : Stats) (files : FileMap DataFile) (f : Nat) :
    Prop where
  live : (statsOf stats f).liveKeys = liveKeysIn kd f
  keys : (statsOf stats f).liveKeys + (statsOf stats f).deadKeys = (framesOf files f).length
  bytes : (statsOf stats f).deadBytes + liveBytesIn kd f = (framesOf files f).size

/-- KeyDir validity and the accounting of every file, with no statistics for a file that
does not exist. -/
structure Accounts (kd : KeyDir) (stats : Stats) (files : FileMap DataFile) : Prop where
  valid : KeyDirValid kd files
  accounts : ∀ f, FileAccounts kd stats files f
  stats_mem : ∀ f ∈ stats, f ∈ files

section Steps

variable {kd : KeyDir} {stats : Stats} {files : FileMap DataFile} {f : Nat} {file : DataFile}

/-! ### How each map changes, as sums -/

theorem statsOf_overwritePrev (stats : Stats) (prev : Option KeyDirEntry) (g : Nat) :
    (statsOf (overwritePrev stats prev) g).liveKeys
        = (statsOf stats g).liveKeys - weightOf (inFile g) prev ∧
      (statsOf (overwritePrev stats prev) g).deadKeys
        = (statsOf stats g).deadKeys + weightOf (inFile g) prev ∧
      (statsOf (overwritePrev stats prev) g).deadBytes
        = (statsOf stats g).deadBytes + weightOf (bytesInFile g) prev := by
  cases prev with
  | none => simp
  | some p =>
      by_cases h : p.fileid = g
      · subst h; simp [overwritePrev, inFile, bytesInFile]
      · simp [overwritePrev, inFile, bytesInFile, h, Ne.symm h]

theorem statsOf_addLive (stats : Stats) (f g : Nat) :
    (statsOf (updateStats stats f LogStatistics.addLive) g).liveKeys
        = (statsOf stats g).liveKeys + (if f = g then 1 else 0) ∧
      (statsOf (updateStats stats f LogStatistics.addLive) g).deadKeys = (statsOf stats g).deadKeys ∧
      (statsOf (updateStats stats f LogStatistics.addLive) g).deadBytes
        = (statsOf stats g).deadBytes := by
  by_cases h : f = g
  · subst h; simp
  · simp [h, Ne.symm h]

theorem statsOf_addDead (stats : Stats) (f g n : Nat) :
    (statsOf (updateStats stats f (·.addDead n)) g).liveKeys = (statsOf stats g).liveKeys ∧
      (statsOf (updateStats stats f (·.addDead n)) g).deadKeys
        = (statsOf stats g).deadKeys + (if f = g then 1 else 0) ∧
      (statsOf (updateStats stats f (·.addDead n)) g).deadBytes
        = (statsOf stats g).deadBytes + (if f = g then n else 0) := by
  by_cases h : f = g
  · subst h; simp
  · simp [h, Ne.symm h]

theorem framesOf_append (hf : files.lookup f = some file) (more : DataFile) (g : Nat) :
    (framesOf (files.insert f (file ++ more)) g).length
        = (framesOf files g).length + (if f = g then more.length else 0) ∧
      (framesOf (files.insert f (file ++ more)) g).size
        = (framesOf files g).size + (if f = g then more.size else 0) := by
  by_cases h : f = g
  · subst h; simp [framesOf_of_lookup hf]
  · simp [h, Ne.symm h]

/-- The invariant reads the files only through `lookup`. -/
theorem Accounts.congr {files' : FileMap DataFile} (h : Accounts kd stats files)
    (hl : ∀ f, files'.lookup f = files.lookup f) : Accounts kd stats files' := by
  have hfr : ∀ g, framesOf files' g = framesOf files g := fun g => by simp [framesOf, hl]
  refine ⟨fun key entry he => ?_, fun g => ?_, fun g hg => ?_⟩
  · obtain ⟨file, fr, h1, rest⟩ := h.valid key entry he
    exact ⟨file, fr, by rw [hl]; exact h1, rest⟩
  · obtain ⟨hlive, hkeys, hbytes⟩ := h.accounts g
    exact ⟨hlive, by rw [hfr]; exact hkeys, by rw [hfr]; exact hbytes⟩
  · rw [← AList.lookup_isSome, hl, AList.lookup_isSome]; exact h.stats_mem g hg

/-! ### The four steps -/

/-- **Appending a live record.** -/
theorem Accounts.appendLive (h : Accounts kd stats files) (hf : files.lookup f = some file)
    (fr : Frame) (hv : fr.entry.value.isSome) :
    Accounts (kd.insert fr.entry.key ⟨f, fr.len, file.size, fr.entry.tstamp⟩)
      (overwritePrev (updateStats stats f LogStatistics.addLive) (kd.lookup fr.entry.key))
      (files.insert f (file ++ [fr])) := by
  refine ⟨fun key entry hl => ?_, fun g => ?_, ?_⟩
  · by_cases hk : key = fr.entry.key
    · subst hk
      rw [AList.lookup_insert] at hl
      cases hl
      exact ⟨file ++ [fr], fr, by simp [AList.lookup_insert],
        DataFile.read_eq_some.2 ⟨DataFile.frameAt_append_size file fr [], rfl⟩, rfl, hv, rfl⟩
    · rw [AList.lookup_insert_ne hk] at hl
      exact (h.valid key entry hl).mono (extends_append hf [fr])
  · obtain ⟨hl, hkeys, hbytes⟩ := h.accounts g
    have hk : liveKeysIn _ g + _ = liveKeysIn kd g + _ := total_insert kd fr.entry.key
      ⟨f, fr.len, file.size, fr.entry.tstamp⟩ (inFile g)
    have hb : liveBytesIn _ g + _ = liveBytesIn kd g + _ := total_insert kd fr.entry.key
      ⟨f, fr.len, file.size, fr.entry.tstamp⟩ (bytesInFile g)
    have hw : _ ≤ liveKeysIn kd g := weightOf_le_total kd fr.entry.key (inFile g)
    obtain ⟨s1, s2, s3⟩ := statsOf_overwritePrev (updateStats stats f .addLive)
      (kd.lookup fr.entry.key) g
    obtain ⟨a1, a2, a3⟩ := statsOf_addLive stats f g
    obtain ⟨fl, fs⟩ := framesOf_append hf [fr] g
    simp only [inFile_mk, bytesInFile_mk, List.length_singleton, DataFile.size_cons,
      DataFile.size_nil, Nat.add_zero] at hk hb fl fs
    exact ⟨by omega, by omega, by omega⟩
  · exact forall_mem_overwritePrev
      (fun g hg => (AList.mem_insert _).2 (((mem_updateStats _ _ _ _).1 hg).imp_right (h.stats_mem g)))
      fun q hq => (AList.mem_insert _).2 (.inr (h.valid _ _ hq).mem)

/-- **Appending a dead record**, one no entry points at. -/
theorem Accounts.appendDead (h : Accounts kd stats files) (hf : files.lookup f = some file)
    (fr : Frame) :
    Accounts kd (updateStats stats f (·.addDead fr.len)) (files.insert f (file ++ [fr])) := by
  have hfmem : f ∈ files := mem_of_lookup hf
  refine ⟨fun key entry hl => (h.valid key entry hl).mono (extends_append hf [fr]), fun g => ?_,
    fun g hg => ?_⟩
  · obtain ⟨hl, hkeys, hbytes⟩ := h.accounts g
    obtain ⟨a1, a2, a3⟩ := statsOf_addDead stats f g fr.len
    obtain ⟨fl, fs⟩ := framesOf_append hf [fr] g
    simp only [List.length_singleton, DataFile.size_cons, DataFile.size_nil, Nat.add_zero] at fl fs
    exact ⟨by omega, by omega, by omega⟩
  · rcases (mem_updateStats _ _ _ _).1 hg with rfl | hg
    · simp [hfmem]
    · simp [h.stats_mem g hg]

/-- **Removing a key**: its record turns dead. -/
theorem Accounts.dropKey (h : Accounts kd stats files) (key : Bytes) :
    Accounts (kd.erase key) (overwritePrev stats (kd.lookup key)) files := by
  refine ⟨fun k entry hl => ?_, fun g => ?_, ?_⟩
  · by_cases hk : k = key
    · subst hk; simp at hl
    · exact h.valid k entry (by rwa [AList.lookup_erase_ne hk] at hl)
  · obtain ⟨hl, hkeys, hbytes⟩ := h.accounts g
    have hk : liveKeysIn _ g + _ = liveKeysIn kd g := total_erase kd key (inFile g)
    have hb : liveBytesIn _ g + _ = liveBytesIn kd g := total_erase kd key (bytesInFile g)
    have hw : _ ≤ liveKeysIn kd g := weightOf_le_total kd key (inFile g)
    obtain ⟨s1, s2, s3⟩ := statsOf_overwritePrev stats (kd.lookup key) g
    exact ⟨by omega, by omega, by omega⟩
  · exact forall_mem_overwritePrev h.stats_mem fun q hq => (h.valid _ _ hq).mem

/-- **A new empty file.** -/
theorem Accounts.createEmpty (h : Accounts kd stats files) (hf : f ∉ files) :
    Accounts kd stats (files.insert f []) := by
  refine ⟨fun key entry hl => (h.valid key entry hl).mono (extends_insert_fresh hf []), fun g => ?_,
    fun g hg => AList.mem_insert _ |>.2 (.inr (h.stats_mem g hg))⟩
  by_cases hgf : g = f
  · subst hgf
    have hs : statsOf stats g = {} := by
      simp [statsOf, AList.lookup_eq_none.2 (fun hm => hf (h.stats_mem g hm))]
    have hz : framesOf files g = [] := by simp [framesOf, AList.lookup_eq_none.2 hf]
    obtain ⟨hl, -, hbytes⟩ := h.accounts g
    rw [hz] at hbytes
    exact ⟨hl, by simp [hs], by simpa using hbytes⟩
  · obtain ⟨hl, hkeys, hbytes⟩ := h.accounts g
    exact ⟨hl, by simpa [hgf] using hkeys, by simpa [hgf] using hbytes⟩

end Steps

/-! ## Records no entry references

`FileAccounts` counts a file's dead records as its records minus its live keys.  With a
valid KeyDir the live keys of a file are in one-to-one correspondence with the records of
the file some entry names (two entries naming one record would name one key), so the
dead counts are exactly the records no entry references, and their bytes. -/

/-- Whether some KeyDir entry names the record at index `idx` of file `f`. -/
def isReferenced (kd : KeyDir) (f : Nat) (idx : LogIndex) : Bool :=
  kd.entries.any fun s => s.2.fileid = f && s.2.pos = idx.pos && s.2.len = idx.len

/-- The records of file `f`, with their indexes, that no KeyDir entry names. -/
def unreferenced (kd : KeyDir) (files : FileMap DataFile) (f : Nat) :
    List (LogIndex × DataFileEntry) :=
  (DataFile.logIterator (framesOf files f) 0).filter fun p => !isReferenced kd f p.1

/-- Two valid entries naming the same bytes of the same file are the entry of one key. -/
theorem KeyDirValid.key_eq (hv : KeyDirValid kd files) {k₁ k₂ : Bytes} {e₁ e₂ : KeyDirEntry}
    (h₁ : kd.lookup k₁ = some e₁) (h₂ : kd.lookup k₂ = some e₂) (hf : e₁.fileid = e₂.fileid)
    (hp : e₁.pos = e₂.pos) (hl : e₁.len = e₂.len) : k₁ = k₂ := by
  obtain ⟨f₁, r₁, hf₁, hr₁, hk₁, -⟩ := hv _ _ h₁
  obtain ⟨f₂, r₂, hf₂, hr₂, hk₂, -⟩ := hv _ _ h₂
  rw [hf, hf₂] at hf₁; cases hf₁
  rw [hp, hl, hr₂] at hr₁; cases hr₁
  exact hk₁.symm.trans hk₂

theorem entriesTotal_inFile (f : Nat) : ∀ l : List (Σ _ : Bytes, KeyDirEntry),
    entriesTotal (inFile f) l = (l.filter fun s => s.2.fileid = f).length
  | [] => rfl
  | s :: rest => by
      by_cases h : s.2.fileid = f <;>
        simp [entriesTotal, inFile, h, List.filter_cons, entriesTotal_inFile f rest, Nat.add_comm]

theorem entriesTotal_bytesInFile (f : Nat) : ∀ l : List (Σ _ : Bytes, KeyDirEntry),
    entriesTotal (bytesInFile f) l = ((l.filter fun s => s.2.fileid = f).map (·.2.len)).sum
  | [] => rfl
  | s :: rest => by
      by_cases h : s.2.fileid = f <;>
        simp [entriesTotal, bytesInFile, h, List.filter_cons, entriesTotal_bytesInFile f rest]

theorem sum_len_logIterator : ∀ (file : DataFile) (pos : Nat),
    ((DataFile.logIterator file pos).map (·.1.len)).sum = file.size
  | [], _ => rfl
  | fr :: rest, pos => by simp [sum_len_logIterator rest]

/-- The entries pointing into `f` and the records of `f` some entry names are the same
`(pos, len)` pairs, each once. -/
theorem referenced_perm (hv : KeyDirValid kd files) (f : Nat) :
    ((kd.entries.filter fun s => s.2.fileid = f).map fun s => (s.2.pos, s.2.len)).Perm
      (((DataFile.logIterator (framesOf files f) 0).filter fun p => isReferenced kd f p.1).map
        fun p => (p.1.pos, p.1.len)) := by
  refine (List.perm_ext_iff_of_nodup ?_ ?_).2 fun ⟨a, b⟩ => ?_
  · refine List.Nodup.map_on (fun x hx y hy hxy => ?_) (kd.nodupKeys.nodup.filter _)
    obtain ⟨hx, hxf⟩ := List.mem_filter.1 hx
    obtain ⟨hy, hyf⟩ := List.mem_filter.1 hy
    simp only [decide_eq_true_eq] at hxf hyf
    simp only [Prod.mk.injEq] at hxy
    have hk : x.1 = y.1 :=
      hv.key_eq (lookup_of_mem_entries hx) (lookup_of_mem_entries hy) (hxf.trans hyf.symm) hxy.1 hxy.2
    have hv' : x.2 = y.2 :=
      Option.some_injective _ ((lookup_of_mem_entries hx).symm.trans (hk ▸ lookup_of_mem_entries hy))
    cases x; cases y; simp_all
  · refine List.Pairwise.map _ (fun p q hpq heq => ?_)
      ((DataFile.pairwise_logIterator _ 0).filter _)
    simp only [Prod.mk.injEq] at heq
    omega
  · simp only [List.mem_map, List.mem_filter, Prod.mk.injEq, decide_eq_true_eq]
    constructor
    · rintro ⟨s, ⟨hs, hsf⟩, rfl, rfl⟩
      obtain ⟨file, fr, hfile, hr, -⟩ := hv _ _ (lookup_of_mem_entries hs)
      rw [hsf] at hfile
      obtain ⟨hfa, hlen⟩ := DataFile.read_eq_some.1 hr
      refine ⟨(⟨s.2.len, s.2.pos⟩, fr.entry), ⟨?_, ?_⟩, rfl, rfl⟩
      · rw [framesOf_of_lookup hfile]
        exact DataFile.mem_logIterator.2 ⟨Nat.zero_le _, fr, by simpa using hfa, hlen, rfl⟩
      · exact List.any_eq_true.2 ⟨s, hs, by simp [hsf]⟩
    · rintro ⟨p, ⟨-, hp⟩, rfl, rfl⟩
      obtain ⟨s, hs, hsp⟩ := List.any_eq_true.1 hp
      simp only [Bool.and_eq_true, decide_eq_true_eq] at hsp
      exact ⟨s, ⟨hs, hsp.1.1⟩, hsp.1.2, hsp.2⟩

/-- **Dead records are the unreferenced ones.**  With a valid KeyDir, the accounting of a
file says that its dead keys and dead bytes are the number and the total length of the
records of the file no KeyDir entry names. -/
theorem FileAccounts.dead_eq_unreferenced (h : FileAccounts kd stats files f) (hv : KeyDirValid kd files) :
    (statsOf stats f).deadKeys = (unreferenced kd files f).length ∧
      (statsOf stats f).deadBytes = ((unreferenced kd files f).map (·.1.len)).sum := by
  have hp := referenced_perm hv f
  have hlen := hp.length_eq
  have hsum := (hp.map Prod.snd).sum_eq
  simp only [List.length_map, List.map_map, Function.comp_def] at hlen hsum
  have hl : liveKeysIn kd f = _ := entriesTotal_inFile f kd.entries
  have hb : liveBytesIn kd f = _ := entriesTotal_bytesInFile f kd.entries
  have hsplit : (DataFile.logIterator (framesOf files f) 0).length = _ :=
    List.length_eq_length_filter_add fun p => isReferenced kd f p.1
  have hbytes := List.sum_map_filter_add_sum_map_filter_not
    (fun p : LogIndex × DataFileEntry => isReferenced kd f p.1 = true) (·.1.len)
    (DataFile.logIterator (framesOf files f) 0)
  simp only [Bool.decide_eq_true, decide_not, sum_len_logIterator] at hbytes
  simp only [DataFile.length_logIterator] at hsplit
  obtain ⟨hlive, hkeys, hdead⟩ := h
  exact ⟨by simp only [unreferenced]; omega, by simp only [unreferenced]; omega⟩

/-- A file with no dead keys has each of its records named by some entry. -/
theorem FileAccounts.referenced_of_deadKeys (h : FileAccounts kd stats files f)
    (hv : KeyDirValid kd files) (h0 : (statsOf stats f).deadKeys = 0)
    {p : LogIndex × DataFileEntry} (hp : p ∈ DataFile.logIterator (framesOf files f) 0) :
    ∃ k entry, kd.lookup k = some entry ∧ entry.fileid = f ∧ entry.pos = p.1.pos ∧
      entry.len = p.1.len := by
  have hnil : unreferenced kd files f = [] :=
    List.length_eq_zero.1 (by rw [← (h.dead_eq_unreferenced hv).1]; exact h0)
  have href : isReferenced kd f p.1 = true := by
    by_contra hn
    have hmem : p ∈ unreferenced kd files f := List.mem_filter.2 ⟨hp, by simpa using hn⟩
    simp [hnil] at hmem
  obtain ⟨s, hs, hsp⟩ := List.any_eq_true.1 href
  simp only [Bool.and_eq_true, decide_eq_true_eq] at hsp
  exact ⟨s.1, s.2, lookup_of_mem_entries hs, hsp.1.1, hsp.1.2, hsp.2⟩

/-- Two KeyDirs with the same entries pointing into file `f` count the same live keys and
live bytes there. -/
theorem liveIn_congr {kd' : KeyDir}
    (h : ∀ k en, en.fileid = f → (kd.lookup k = some en ↔ kd'.lookup k = some en)) :
    liveKeysIn kd f = liveKeysIn kd' f ∧ liveBytesIn kd f = liveBytesIn kd' f := by
  have hp : (kd.entries.filter fun s => s.2.fileid = f).Perm
      (kd'.entries.filter fun s => s.2.fileid = f) := by
    refine (List.perm_ext_iff_of_nodup (kd.nodupKeys.nodup.filter _)
      (kd'.nodupKeys.nodup.filter _)).2 fun s => ?_
    simp only [List.mem_filter, decide_eq_true_eq]
    exact ⟨fun ⟨hs, hf⟩ => ⟨AList.mem_lookup_iff.1 ((h _ _ hf).1 (lookup_of_mem_entries hs)), hf⟩,
      fun ⟨hs, hf⟩ => ⟨AList.mem_lookup_iff.1 ((h _ _ hf).2 (lookup_of_mem_entries hs)), hf⟩⟩
  simp only [liveKeysIn, liveBytesIn, total, entriesTotal_inFile, entriesTotal_bytesInFile]
  exact ⟨hp.length_eq, (hp.map _).sum_eq⟩

/-- **The accounting fixes the statistics.**  Two statistics maps that account for files
with the same frames in `f`, with KeyDirs that count the same live keys and bytes there,
agree on `f`. -/
theorem FileAccounts.statsOf_eq_of_live {kd' : KeyDir} {stats' : Stats}
    {files' : FileMap DataFile} (h : FileAccounts kd stats files f)
    (h' : FileAccounts kd' stats' files' f) (hfr : framesOf files' f = framesOf files f)
    (hl : liveKeysIn kd f = liveKeysIn kd' f) (hb : liveBytesIn kd f = liveBytesIn kd' f) :
    statsOf stats f = statsOf stats' f := by
  obtain ⟨l, k, b⟩ := h
  obtain ⟨l', k', b'⟩ := h'
  rw [hfr] at k' b'
  cases hs : statsOf stats f
  cases hs' : statsOf stats' f
  rw [hs] at l k b
  rw [hs'] at l' k' b'
  simp only [LogStatistics.mk.injEq] at l k b l' k' b' ⊢
  omega

/-- Two statistics maps that account for the same files, with KeyDirs that agree on every
key, agree on every file. -/
theorem FileAccounts.statsOf_eq {kd' : KeyDir} {stats' : Stats}
    (h : FileAccounts kd stats files f) (h' : FileAccounts kd' stats' files f)
    (hk : ∀ k, kd.lookup k = kd'.lookup k) : statsOf stats f = statsOf stats' f :=
  h.statsOf_eq_of_live h' rfl (total_congr hk _) (total_congr hk _)

end Bitcask
