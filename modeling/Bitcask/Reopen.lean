import Bitcask.MergeOutputs

/-!
# Reopening gives back the live KeyDir

`rebuild_storage` replays the data files in ascending id order, each from its first
record, and a record with a value points its key's entry at it.  So the KeyDir it builds
has an entry for every key that has a record with a value, and that entry names the last
such record in the order (file id, position).  This file states that characterisation,
shows that recovery meets it and that it determines the KeyDir, and shows that the live
engine keeps its entries where recovery would put them: `put` appends to the file with the
largest id, `delete` only removes entries, and `merge` copies each record it moves into a
file newer than every file it keeps.

## Main Definitions

* `ValueAt files key f pos` — file `f` holds a record of `key` with a value at byte `pos`.
* `AtOrBefore` — the order in which recovery replays records.
* `Latest kd files` — every KeyDir entry names the last value record of its key.
* `ValuesLive kd files` — every key with a value record has an entry.
* `Rebuilt kd files` — both: what a replay of `files` builds.

## Main Statements

* `rebuildStorage_rebuilt` — the KeyDir `rebuild_storage` returns is `Rebuilt` over the
  directory.
* `Rebuilt.lookup_eq` — two valid KeyDirs `Rebuilt` over the same files agree on every key.
* `Reachable.latest` — every reachable state satisfies `Latest`; a run without `delete`
  keeps `Rebuilt` (`Steps.rebuilt`).
* `reopen_keeps_live_entries` — reopening a reachable state keeps every KeyDir entry.
* `reopen_exact_without_delete` — after a run without `delete`, reopening gives back the
  KeyDir and the statistics.
* `rebuild_storage_latest` — the characterisation of `rebuild_storage` itself.

## Design Notes

A tombstone is not a value record, so `ValueAt` does not see it: replaying a tombstone
changes no entry, which is why a key deleted before a close comes back after the reopen
(`reopen_after_delete_resurrects`) and why `ValuesLive` is kept by every step but
`delete`.  `Latest` is kept by all of them.
-/

namespace Bitcask

/-! ## Value records and their order -/

/-- File `f` of `files` holds, at byte `pos`, a record of `key` that has a value. -/
def ValueAt (files : FileMap DataFile) (key : Bytes) (f pos : Nat) : Prop :=
  ∃ file fr, files.lookup f = some file ∧ file.frameAt pos = some fr ∧ fr.entry.key = key ∧
    fr.entry.value.isSome

/-- The order in which recovery replays records: by file id, then by position. -/
def AtOrBefore (f pos f' pos' : Nat) : Prop :=
  f < f' ∨ (f = f' ∧ pos ≤ pos')

theorem AtOrBefore.refl (f pos : Nat) : AtOrBefore f pos f pos := .inr ⟨rfl, le_rfl⟩

theorem AtOrBefore.antisymm {f pos f' pos' : Nat} (h : AtOrBefore f pos f' pos')
    (h' : AtOrBefore f' pos' f pos) : f = f' ∧ pos = pos' := by
  unfold AtOrBefore at h h'
  omega

/-- Every KeyDir entry names the last record of its key that has a value. -/
def Latest (kd : KeyDir) (files : FileMap DataFile) : Prop :=
  ∀ key entry f pos, kd.lookup key = some entry → ValueAt files key f pos →
    AtOrBefore f pos entry.fileid entry.pos

/-- Every key with a value record has a KeyDir entry. -/
def ValuesLive (kd : KeyDir) (files : FileMap DataFile) : Prop :=
  ∀ key f pos, ValueAt files key f pos → key ∈ kd

/-- What a replay of `files` builds: an entry for every key with a value record, naming the
last one. -/
structure Rebuilt (kd : KeyDir) (files : FileMap DataFile) : Prop where
  latest : Latest kd files
  live : ValuesLive kd files

section Records

variable {kd : KeyDir} {files : FileMap DataFile} {key : Bytes} {f pos : Nat}
  {file : DataFile}

/-- A valid entry names a value record of its key. -/
theorem EntryValid.valueAt {entry : KeyDirEntry} (h : EntryValid files key entry) :
    ValueAt files key entry.fileid entry.pos := by
  obtain ⟨file, fr, h1, h2, hk, hv, -⟩ := h
  exact ⟨file, fr, h1, (DataFile.read_eq_some.1 h2).1, hk, hv⟩

theorem ValueAt.mem (h : ValueAt files key f pos) : f ∈ files := by
  obtain ⟨file, -, h1, -⟩ := h
  exact mem_of_lookup h1

/-- A value record lies within its file. -/
theorem ValueAt.lt_size (h : ValueAt files key f pos) (hf : files.lookup f = some file) :
    pos < file.size := by
  obtain ⟨file', fr, h1, h2, -⟩ := h
  rw [hf] at h1; cases h1
  have := DataFile.frameAt_bound h2
  have := fr.len_pos
  omega

/-- A value record is read through `lookup` only. -/
theorem ValueAt.of_lookup {files' : FileMap DataFile} (h : ValueAt files' key f pos)
    (hl : files'.lookup f = files.lookup f) : ValueAt files key f pos := by
  obtain ⟨file, fr, h1, rest⟩ := h
  exact ⟨file, fr, hl ▸ h1, rest⟩

/-- Growing files keeps every value record. -/
theorem ValueAt.mono {files' : FileMap DataFile} (h : ValueAt files key f pos)
    (hx : Extends files files') : ValueAt files' key f pos := by
  obtain ⟨file, fr, h1, h2, rest⟩ := h
  obtain ⟨more, h1'⟩ := hx _ _ h1
  exact ⟨file ++ more, fr, h1', DataFile.frameAt_append more h2, rest⟩

/-- An empty file holds no record. -/
theorem ValueAt.not_empty (h : ValueAt files key f pos) : files.lookup f ≠ some [] := by
  obtain ⟨file, fr, h1, h2, -⟩ := h
  intro h0
  rw [h0] at h1; cases h1
  simp [DataFile.frameAt] at h2

/-- A value record after an empty file was written under some id is a value record from
before. -/
theorem ValueAt.of_insert_empty {g : Nat} (h : ValueAt (files.insert g []) key f pos) :
    ValueAt files key f pos := by
  by_cases hf : f = g
  · subst hf; exact absurd (AList.lookup_insert _) h.not_empty
  · exact h.of_lookup (AList.lookup_insert_ne hf)

/-- A value record after one frame was appended to file `f` is a value record from before,
or the appended frame. -/
theorem ValueAt.of_append {g : Nat} {fr : Frame} (hf : files.lookup f = some file)
    (h : ValueAt (files.insert f (file ++ [fr])) key g pos) :
    ValueAt files key g pos ∨ (g = f ∧ pos = file.size ∧ fr.entry.key = key ∧
      fr.entry.value.isSome) := by
  by_cases hg : g = f
  · subst hg
    obtain ⟨file', x, h1, h2, hk, hv⟩ := h
    rw [AList.lookup_insert] at h1; cases h1
    rcases DataFile.frameAt_append_singleton h2 with h2 | ⟨rfl, rfl⟩
    · exact .inl ⟨file, x, hf, h2, hk, hv⟩
    · exact .inr ⟨rfl, rfl, hk, hv⟩
  · exact .inl (h.of_lookup (AList.lookup_insert_ne hg))

end Records

/-! ## How the steps of the engine and of recovery change them -/

section Steps

variable {kd : KeyDir} {files : FileMap DataFile} {f : Nat} {file : DataFile}

/-- **Appending a value record** to the file with the largest id, and pointing its key at
it, keeps `Latest`: the new record comes after every record there is. -/
theorem Latest.appendValue (h : Latest kd files) (hf : files.lookup f = some file)
    (hmax : ∀ g ∈ files, g ≤ f) (fr : Frame) :
    Latest (kd.insert fr.entry.key ⟨f, fr.len, file.size, fr.entry.tstamp⟩)
      (files.insert f (file ++ [fr])) := by
  intro key entry g pos hk hx
  by_cases hkey : key = fr.entry.key
  · subst hkey
    rw [AList.lookup_insert] at hk; cases hk
    show AtOrBefore g pos f file.size
    rcases hx.of_append hf with hold | ⟨rfl, rfl, -⟩
    · have hg := hmax g hold.mem
      by_cases hgf : g = f
      · subst hgf; exact .inr ⟨rfl, (hold.lt_size hf).le⟩
      · exact .inl (by omega)
    · exact AtOrBefore.refl _ _
  · rw [AList.lookup_insert_ne hkey] at hk
    rcases hx.of_append hf with hx | ⟨-, -, hk', -⟩
    · exact h key entry g pos hk hx
    · exact absurd hk'.symm hkey

theorem ValuesLive.appendValue (h : ValuesLive kd files) (hf : files.lookup f = some file)
    (fr : Frame) (entry : KeyDirEntry) :
    ValuesLive (kd.insert fr.entry.key entry) (files.insert f (file ++ [fr])) := by
  intro key g pos hx
  rcases hx.of_append hf with hx | ⟨-, -, rfl, -⟩
  · exact (AList.mem_insert _).2 (.inr (h key g pos hx))
  · exact (AList.mem_insert _).2 (.inl rfl)

/-- Appending a tombstone adds no value record. -/
theorem ValueAt.of_appendDead {key : Bytes} {g pos : Nat} {fr : Frame}
    (hf : files.lookup f = some file) (hv : fr.entry.value = none)
    (h : ValueAt (files.insert f (file ++ [fr])) key g pos) : ValueAt files key g pos := by
  rcases h.of_append hf with h | ⟨-, -, -, hs⟩
  · exact h
  · simp [hv] at hs

theorem Latest.appendDead (h : Latest kd files) (hf : files.lookup f = some file) (fr : Frame)
    (hv : fr.entry.value = none) : Latest kd (files.insert f (file ++ [fr])) :=
  fun key entry g pos hk hx => h key entry g pos hk (hx.of_appendDead hf hv)

theorem ValuesLive.appendDead (h : ValuesLive kd files) (hf : files.lookup f = some file)
    (fr : Frame) (hv : fr.entry.value = none) : ValuesLive kd (files.insert f (file ++ [fr])) :=
  fun key g pos hx => h key g pos (hx.of_appendDead hf hv)

theorem Latest.createEmpty (h : Latest kd files) (f : Nat) : Latest kd (files.insert f []) :=
  fun key entry g pos hk hx => h key entry g pos hk hx.of_insert_empty

theorem ValuesLive.createEmpty (h : ValuesLive kd files) (f : Nat) :
    ValuesLive kd (files.insert f []) :=
  fun key g pos hx => h key g pos hx.of_insert_empty

/-- Removing a key keeps `Latest`, which speaks of the entries there are. -/
theorem Latest.erase (h : Latest kd files) (key : Bytes) : Latest (kd.erase key) files :=
  fun k entry g pos hk hx => by
    by_cases hkey : k = key
    · subst hkey; simp at hk
    · exact h k entry g pos (by rwa [AList.lookup_erase_ne hkey] at hk) hx

theorem Latest.congr {files' : FileMap DataFile} (h : Latest kd files)
    (hl : ∀ g, files'.lookup g = files.lookup g) : Latest kd files' :=
  fun key entry g pos hk hx => h key entry g pos hk (hx.of_lookup (hl g))

theorem ValuesLive.congr {files' : FileMap DataFile} (h : ValuesLive kd files)
    (hl : ∀ g, files'.lookup g = files.lookup g) : ValuesLive kd files' :=
  fun key g pos hx => h key g pos (hx.of_lookup (hl g))

theorem Rebuilt.appendValue (h : Rebuilt kd files) (hf : files.lookup f = some file)
    (hmax : ∀ g ∈ files, g ≤ f) (fr : Frame) :
    Rebuilt (kd.insert fr.entry.key ⟨f, fr.len, file.size, fr.entry.tstamp⟩)
      (files.insert f (file ++ [fr])) :=
  ⟨h.latest.appendValue hf hmax fr, h.live.appendValue hf fr _⟩

theorem Rebuilt.appendDead (h : Rebuilt kd files) (hf : files.lookup f = some file) (fr : Frame)
    (hv : fr.entry.value = none) : Rebuilt kd (files.insert f (file ++ [fr])) :=
  ⟨h.latest.appendDead hf fr hv, h.live.appendDead hf fr hv⟩

theorem Rebuilt.createEmpty (h : Rebuilt kd files) (f : Nat) : Rebuilt kd (files.insert f []) :=
  ⟨h.latest.createEmpty f, h.live.createEmpty f⟩

theorem Rebuilt.congr {files' : FileMap DataFile} (h : Rebuilt kd files)
    (hl : ∀ g, files'.lookup g = files.lookup g) : Rebuilt kd files' :=
  ⟨h.latest.congr hl, h.live.congr hl⟩

end Steps

/-! ## Uniqueness -/

section Unique

variable {kd₁ kd₂ : KeyDir} {files : FileMap DataFile}

/-- **`Latest` fixes the entry.**  Two valid KeyDirs with `Latest` over the same files give
a key they both hold the same entry: both name the last value record of the key, and a
record determines its length and timestamp. -/
theorem Latest.entry_eq (h₁ : Latest kd₁ files) (h₂ : Latest kd₂ files)
    (v₁ : KeyDirValid kd₁ files) (v₂ : KeyDirValid kd₂ files) {k : Bytes}
    {en₁ en₂ : KeyDirEntry} (hk₁ : kd₁.lookup k = some en₁) (hk₂ : kd₂.lookup k = some en₂) :
    en₁ = en₂ := by
  obtain ⟨hf, hp⟩ := AtOrBefore.antisymm
    (h₂ k en₂ _ _ hk₂ (v₁ k en₁ hk₁).valueAt) (h₁ k en₁ _ _ hk₁ (v₂ k en₂ hk₂).valueAt)
  obtain ⟨file₁, fr₁, hf₁, hr₁, -, -, ht₁⟩ := v₁ k en₁ hk₁
  obtain ⟨file₂, fr₂, hf₂, hr₂, -, -, ht₂⟩ := v₂ k en₂ hk₂
  obtain ⟨ha₁, hl₁⟩ := DataFile.read_eq_some.1 hr₁
  obtain ⟨ha₂, hl₂⟩ := DataFile.read_eq_some.1 hr₂
  rw [hf, hf₂] at hf₁; cases hf₁
  rw [hp, ha₂] at ha₁; cases ha₁
  cases en₁; cases en₂
  simp_all

/-- **`Rebuilt` fixes the KeyDir.**  Two valid KeyDirs that are `Rebuilt` over the same
files look every key up alike. -/
theorem Rebuilt.lookup_eq (h₁ : Rebuilt kd₁ files) (h₂ : Rebuilt kd₂ files)
    (v₁ : KeyDirValid kd₁ files) (v₂ : KeyDirValid kd₂ files) (k : Bytes) :
    kd₁.lookup k = kd₂.lookup k := by
  cases hk₁ : kd₁.lookup k with
  | none =>
      cases hk₂ : kd₂.lookup k with
      | none => rfl
      | some en₂ =>
          have hm := h₁.live k _ _ (v₂ k en₂ hk₂).valueAt
          rw [← AList.lookup_isSome, hk₁] at hm
          cases hm
  | some en₁ =>
      obtain ⟨en₂, hk₂⟩ := Option.isSome_iff_exists.1
        (AList.lookup_isSome.2 (h₂.live k _ _ (v₁ k en₁ hk₁).valueAt))
      rw [hk₂, h₁.latest.entry_eq h₂.latest v₁ v₂ hk₁ hk₂]

end Unique

/-! ## Recovery -/

/-- Replaying the records `more` of file `f`, which follow `pre`, from a KeyDir `Rebuilt`
over a virtual directory where `f` holds `pre` and has the largest id, gives a KeyDir
`Rebuilt` over the directory where `f` holds `pre ++ more`. -/
theorem Rebuilt.replay {acc : Recovered} {vf : FileMap DataFile} {f : Nat} {pre : DataFile}
    (h : Rebuilt acc.1 vf) (hf : vf.lookup f = some pre) (hmax : ∀ g ∈ vf, g ≤ f)
    (more : DataFile) :
    Rebuilt ((DataFile.logIterator more pre.size).foldl (datafileStep f) acc).1
      (vf.insert f (pre ++ more)) := by
  induction more generalizing acc vf pre with
  | nil =>
      refine h.congr fun g => ?_
      by_cases hg : g = f
      · subst hg; simp [hf]
      · simp [AList.lookup_insert_ne hg]
  | cons fr rest ih =>
      have hrest : (vf.insert f (pre ++ [fr])).insert f (pre ++ [fr] ++ rest) =
          vf.insert f (pre ++ fr :: rest) := by simp [AList.insert_insert]
      rw [DataFile.logIterator_cons, List.foldl_cons, ← hrest,
        show pre.size + fr.len = (pre ++ [fr]).size by simp]
      refine ih ?_ (by simp) (forall_mem_insert hmax le_rfl _)
      cases hv : fr.entry.value with
      | none =>
          have hstep : (datafileStep f acc (⟨fr.len, pre.size⟩, fr.entry)).1 = acc.1 := by
            simp [datafileStep, hv]
          rw [hstep]
          exact h.appendDead hf fr hv
      | some v =>
          have hstep : (datafileStep f acc (⟨fr.len, pre.size⟩, fr.entry)).1 =
              acc.1.insert fr.entry.key ⟨f, fr.len, pre.size, fr.entry.tstamp⟩ := by
            simp [datafileStep, hv, recoverLive_eq]
          rw [hstep]
          exact h.appendValue hf hmax fr

/-- The loop of `rebuild_storage` over ascending ids of existing files, each above every
file replayed so far, keeps `Rebuilt` on the virtual directory extended by those files. -/
theorem rebuildFrom_rebuilt {d : Disk} (hh : HintsAgree d.datafiles d.hintfiles) :
    ∀ (ids : List Nat) (acc : Recovered) (vf : FileMap DataFile) (o : Option Nat),
      ids.Sorted (· < ·) → (∀ f ∈ ids, f ∈ d.datafiles) → (∀ f ∈ ids, ∀ g ∈ vf, g < f) →
      Rebuilt acc.1 vf →
        ∃ acc' o' vf', rebuildFrom d ids acc o = .ok (acc', o') ∧ Rebuilt acc'.1 vf' ∧
          ∀ g, vf'.lookup g = if g ∈ ids then d.datafiles.lookup g else vf.lookup g
  | [], acc, vf, o, _, _, _, h => ⟨acc, o, vf, rfl, h, by simp⟩
  | f :: rest, acc, vf, o, hs, hmem, hlt, h => by
      obtain ⟨file, hf⟩ := Option.isSome_iff_exists.1
        (AList.lookup_isSome.2 (hmem f (List.mem_cons_self _ _)))
      obtain ⟨hfr, hs'⟩ := List.sorted_cons.1 hs
      have hmax : ∀ g ∈ vf.insert f [], g ≤ f :=
        forall_mem_insert (fun g hg => (hlt f (List.mem_cons_self _ _) g hg).le) le_rfl _
      have h0 : (vf.insert f ([] : DataFile)).lookup f = some [] := by simp
      have hacc := (h.createEmpty f).replay h0 hmax file
      simp only [DataFile.size_nil, List.nil_append, AList.insert_insert] at hacc
      obtain ⟨acc', o', vf', hrun, hacc', hvf'⟩ := rebuildFrom_rebuilt hh rest _ _ _ hs'
        (fun g hg => hmem g (List.mem_cons_of_mem _ hg))
        (fun g hg x hx => by
          rcases (AList.mem_insert _).1 hx with rfl | hx
          · exact hfr g hg
          · exact hlt g (List.mem_cons_of_mem _ hg) x hx)
        hacc
      refine ⟨acc', o', vf', ?_, hacc', fun g => ?_⟩
      · simp only [rebuildFrom, rebuildFile_eq hh hf]
        exact hrun
      · rw [hvf']
        by_cases hg : g = f
        · subst hg
          have hgr : g ∉ rest := fun hm => Nat.lt_irrefl g (hfr g hm)
          simp [hgr, hf]
        · simp [AList.lookup_insert_ne hg, hg]

/-- **Recovery rebuilds every key's last value.**  On a directory with `DiskInv`, the
KeyDir `rebuild_storage` returns is `Rebuilt` over the directory's data files. -/
theorem rebuildStorage_rebuilt {d : Disk} (h : DiskInv d) :
    ∃ kd stats n, rebuildStorage d = .ok (kd, stats, n) ∧ Rebuilt kd d.datafiles := by
  have hsorted : (sortedFileids d).Sorted (· < ·) :=
    (List.sorted_insertionSort _ _).lt_of_le
      ((List.perm_insertionSort _ _).nodup_iff.2 d.datafiles.keys_nodup)
  obtain ⟨⟨kd, stats⟩, o', vf', hrun, hreb, hvf'⟩ := rebuildFrom_rebuilt h.hints (sortedFileids d)
    (∅, ∅) ∅ none hsorted (fun _ => mem_sortedFileids.1) (fun _ _ _ hg => by simp at hg)
    ⟨fun _ _ _ _ hk => by simp at hk, fun _ _ _ hx => absurd hx.mem (by simp)⟩
  refine ⟨kd, stats, (o'.map (· + 1)).getD 0, by simp [rebuildStorage, hrun],
    hreb.congr fun g => ?_⟩
  rw [hvf']
  by_cases hg : g ∈ d.datafiles
  · simp [mem_sortedFileids.2 hg]
  · simp [mem_sortedFileids, hg, AList.lookup_eq_none.2 hg]

/-- `Bitcask::open` once `rebuild_storage` has returned: the engine over the directory with
a new empty active file. -/
theorem Engine.open_of_rebuildStorage {d : Disk} (hf : d.faults = []) {kd : KeyDir}
    {stats : Stats} {n : Nat} (h : rebuildStorage d = .ok (kd, stats, n)) :
    Engine.open d = .ok ⟨⟨[], kd, stats⟩, ⟨⟨n⟩, n, 0⟩, d.create (.data n)⟩ := by
  simp [Engine.open, h, bind, EStateM.bind, create_of_noFaults, hf, LogWriter.new_of_noFaults]

/-- Opening a directory with `DiskInv`: the KeyDir is `Rebuilt` over the directory and
accounts for it with the statistics, and the directory gains only a fresh empty file. -/
theorem Engine.open_rebuilt {d : Disk} (hd : DiskInv d) :
    ∃ e, Engine.open d = .ok e ∧ Rebuilt e.ctx.keydir d.datafiles ∧
      Accounts e.ctx.keydir e.ctx.stats d.datafiles ∧
      e.disk.datafiles = d.datafiles.insert e.writer.activeFileid [] ∧
      e.writer.activeFileid ∉ d.datafiles := by
  obtain ⟨kd, stats, n, hrun, hacc, hbelow⟩ := rebuildStorage_spec hd
  obtain ⟨kd', stats', n', hrun', hreb⟩ := rebuildStorage_rebuilt hd
  rw [hrun] at hrun'; cases hrun'
  exact ⟨_, Engine.open_of_rebuildStorage hd.noFaults hrun, hreb, hacc, rfl,
    fun hm => Nat.lt_irrefl n (hbelow.data_lt n hm)⟩

theorem Rebuilt.of_open {d : Disk} {e : Engine} (hd : DiskInv d) (h : Engine.open d = .ok e) :
    Rebuilt e.ctx.keydir e.disk.datafiles := by
  obtain ⟨e', h', hreb, -, hfiles, -⟩ := Engine.open_rebuilt hd
  rw [h] at h'; cases h'
  rw [hfiles]
  exact hreb.createEmpty _

/-! ## The engine's steps -/

variable {conf : Config} {codec : Codec} {e e' : Engine} {op : Op} {out : Option Bool}

theorem Latest.rolloverIf (h : Latest e.ctx.keydir e.disk.datafiles) :
    Latest (e.rolloverIf conf).ctx.keydir (e.rolloverIf conf).disk.datafiles := by
  unfold Engine.rolloverIf
  split
  · exact h.createEmpty _
  · exact h

theorem ValuesLive.rolloverIf (h : ValuesLive e.ctx.keydir e.disk.datafiles) :
    ValuesLive (e.rolloverIf conf).ctx.keydir (e.rolloverIf conf).disk.datafiles := by
  unfold Engine.rolloverIf
  split
  · exact h.createEmpty _
  · exact h

/-- In a file with no dead keys every record is the one its key's entry names, with the
record's length and timestamp. -/
theorem FileAccounts.entry_of_frameAt {kd : KeyDir} {stats : Stats} {files : FileMap DataFile}
    {f pos : Nat} {file : DataFile} {fr : Frame} (h : FileAccounts kd stats files f)
    (hv : KeyDirValid kd files) (h0 : (statsOf stats f).deadKeys = 0)
    (hfile : files.lookup f = some file) (hat : file.frameAt pos = some fr) :
    ∃ entry, kd.lookup fr.entry.key = some entry ∧ entry.fileid = f ∧ entry.pos = pos ∧
      entry.len = fr.len ∧ entry.tstamp = fr.entry.tstamp := by
  have hp : (⟨fr.len, pos⟩, fr.entry) ∈ DataFile.logIterator (framesOf files f) 0 := by
    rw [framesOf_of_lookup hfile]
    exact DataFile.mem_logIterator.2 ⟨Nat.zero_le _, fr, by simpa using hat, rfl, rfl⟩
  obtain ⟨k, entry, hk, hf, hpos, hlen⟩ := h.referenced_of_deadKeys hv h0 hp
  have hpos' : entry.pos = pos := hpos
  obtain ⟨file', fr', hfile', hr, hkey', -, ht⟩ := hv k entry hk
  rw [hf, hfile] at hfile'; cases hfile'
  have hat' := (DataFile.read_eq_some.1 hr).1
  rw [hpos', hat] at hat'; cases hat'
  exact ⟨entry, by rw [hkey']; exact hk, hf, hpos', hlen, ht.symm⟩

/-- In a file with no dead keys every value record is the one its key's entry names. -/
theorem FileAccounts.entry_of_valueAt {kd : KeyDir} {stats : Stats} {files : FileMap DataFile}
    {f pos : Nat} {key : Bytes} (h : FileAccounts kd stats files f) (hv : KeyDirValid kd files)
    (h0 : (statsOf stats f).deadKeys = 0) (hx : ValueAt files key f pos) :
    ∃ entry, kd.lookup key = some entry ∧ entry.fileid = f ∧ entry.pos = pos := by
  obtain ⟨file, fr, hfile, hat, rfl, -⟩ := hx
  obtain ⟨entry, hk, hf, hpos, -⟩ := h.entry_of_frameAt hv h0 hfile hat
  exact ⟨entry, hk, hf, hpos⟩

/-- The ids of the directory after a merge: the files the merge started from, the merge
files, and the new active file. -/
theorem MergePost.fileid_cases {S : List Nat} (hp : MergePost S e e') {g : Nat}
    (hg : g ∈ e'.disk.datafiles) :
    g ≤ e.writer.activeFileid ∨ (e.writer.activeFileid < g ∧ g < e'.writer.activeFileid) ∨
      g = e'.writer.activeFileid := by
  have := hp.inv.writer.below.data_lt g hg
  omega

section Merge

variable {S : List Nat} (hp : MergePost S e e')
  (hold : ∀ g ≤ e.writer.activeFileid, g ∉ S →
    e'.disk.datafiles.lookup g = e.disk.datafiles.lookup g)
  (hact : e'.disk.datafiles.lookup e'.writer.activeFileid = some [])

include hp hold hact

/-- A value record after a merge sits in a file the merge kept, where it sat before, or is
the record its key's entry names in a merge file. -/
theorem MergePost.valueAt_cases {key : Bytes} {g pos : Nat}
    (hx : ValueAt e'.disk.datafiles key g pos) :
    (g ≤ e.writer.activeFileid ∧ g ∉ S ∧ ValueAt e.disk.datafiles key g pos) ∨
      ∃ entry, e'.ctx.keydir.lookup key = some entry ∧ entry.fileid = g ∧ entry.pos = pos := by
  rcases hp.fileid_cases hx.mem with hg | ⟨h1, h2⟩ | rfl
  · have hgS : g ∉ S := fun hS => (hp.removed g hS).2.1 hx.mem
    exact .inl ⟨hg, hgS, hx.of_lookup (hold g hg hgS)⟩
  · obtain ⟨-, -, hdead, -⟩ := hp.outputs g h1 h2
    exact .inr ((hp.inv.accounts.accounts g).entry_of_valueAt hp.inv.accounts.valid hdead hx)
  · exact absurd hact hx.not_empty

/-- **A merge keeps `Latest`**: a kept entry still names the last value record of its key,
since the merge files hold no other record of it, and a moved entry names a record newer
than every file the merge kept. -/
theorem Latest.merge (h : Inv e) (hl : Latest e.ctx.keydir e.disk.datafiles) :
    Latest e'.ctx.keydir e'.disk.datafiles := by
  intro key en' g pos hk hx
  rcases hp.valueAt_cases hold hact hx with ⟨hg, -, hx⟩ | ⟨en₂, hk₂, rfl, rfl⟩
  · obtain ⟨en, hk₀⟩ := Option.isSome_iff_exists.1
      (AList.lookup_isSome.2 ((hp.mem_keydir h key).1 (mem_of_lookup hk)))
    by_cases hS : en.fileid ∈ S
    · obtain ⟨en'', hk'', h1, -⟩ := hp.moved key en hk₀ hS
      rw [hk] at hk''; cases hk''
      exact .inl (by omega)
    · rw [hp.outside key en hk₀ hS, Option.some_inj] at hk
      rw [← hk]
      exact hl key en g pos hk₀ hx
  · rw [hk] at hk₂; cases hk₂
    exact AtOrBefore.refl _ _

/-- A merge keeps `ValuesLive`: a merge file's records are named by entries, and the KeyDir
keeps its key set. -/
theorem ValuesLive.merge (h : Inv e) (hl : ValuesLive e.ctx.keydir e.disk.datafiles) :
    ValuesLive e'.ctx.keydir e'.disk.datafiles := by
  intro key g pos hx
  rcases hp.valueAt_cases hold hact hx with ⟨-, -, hx⟩ | ⟨en, hk, -⟩
  · exact (hp.mem_keydir h key).2 (hl key g pos hx)
  · exact mem_of_lookup hk

end Merge

/-- **Every step keeps `Latest`.** -/
theorem Step.latest (h : Inv e) (hl : Latest e.ctx.keydir e.disk.datafiles)
    (hs : Step conf codec e op out e') : Latest e'.ctx.keydir e'.disk.datafiles := by
  obtain ⟨file, hf⟩ := h.activeFile
  have hmax : ∀ g ∈ e.disk.datafiles, g ≤ e.writer.activeFileid :=
    fun g hg => Nat.lt_succ_iff.1 (h.writer.below.data_lt g hg)
  have hf' := h.writer.handle ▸ hf
  cases hs with
  | put t key value hrun =>
      rw [Writer.put_of_noFaults conf codec h.writer.below.noFaults hf'] at hrun
      cases hrun
      rw [Engine.rolloverIf_pointKey]
      refine Latest.rolloverIf ?_
      simp only [Engine.pointKey, Engine.appendRecord, h.writer.handle, Disk.setData_datafiles]
      exact hl.appendValue hf hmax (codec.frame ⟨t, key, some value⟩)
  | delete t key hrun =>
      rw [Writer.delete_of_noFaults conf codec h.writer.below.noFaults hf'] at hrun
      cases hrun
      rw [Engine.rolloverIf_dropKey]
      refine Latest.rolloverIf ?_
      simp only [Engine.dropKey, Engine.appendRecord, h.writer.handle, Disk.setData_datafiles]
      exact (hl.appendDead hf (codec.frame ⟨t, key, none⟩) rfl).erase key
  | merge S hS hrun =>
      obtain ⟨e'', h1, hp, hold, hact⟩ := Writer.mergeFiles_datafiles conf h hS
      rw [hrun] at h1; cases h1
      exact hl.merge hp hold hact h

/-- Every step but `delete` keeps `ValuesLive`. -/
theorem Step.valuesLive (h : Inv e) (hl : ValuesLive e.ctx.keydir e.disk.datafiles)
    (hs : Step conf codec e op out e') (hop : ∀ t key, op ≠ .delete t key) :
    ValuesLive e'.ctx.keydir e'.disk.datafiles := by
  obtain ⟨file, hf⟩ := h.activeFile
  have hf' := h.writer.handle ▸ hf
  cases hs with
  | put t key value hrun =>
      rw [Writer.put_of_noFaults conf codec h.writer.below.noFaults hf'] at hrun
      cases hrun
      rw [Engine.rolloverIf_pointKey]
      refine ValuesLive.rolloverIf ?_
      simp only [Engine.pointKey, Engine.appendRecord, h.writer.handle, Disk.setData_datafiles]
      exact hl.appendValue hf (codec.frame ⟨t, key, some value⟩) _
  | delete t key _ => exact absurd rfl (hop t key)
  | merge S hS hrun =>
      obtain ⟨e'', h1, hp, hold, hact⟩ := Writer.mergeFiles_datafiles conf h hS
      rw [hrun] at h1; cases h1
      exact hl.merge hp hold hact h

/-- **Every reachable state satisfies `Latest`.** -/
theorem Reachable.latest (h : Reachable conf codec e) : Latest e.ctx.keydir e.disk.datafiles := by
  induction h with
  | «open» hopen => exact (Rebuilt.of_open diskInv_empty hopen).latest
  | step hr hs ih => exact hs.latest hr.inv ih
  | reopen hr hopen _ => exact (Rebuilt.of_open hr.inv.diskInv hopen).latest

/-- A run without `delete` keeps the invariant and `Rebuilt`. -/
theorem Steps.rebuilt {ops : List Op} {outs : List (Option Bool)}
    (hs : Steps conf codec e ops outs e') (hnd : ∀ op ∈ ops, ∀ t key, op ≠ .delete t key) :
    Inv e → Rebuilt e.ctx.keydir e.disk.datafiles →
      Inv e' ∧ Rebuilt e'.ctx.keydir e'.disk.datafiles := by
  induction hs with
  | nil => exact fun h hr => ⟨h, hr⟩
  | cons hstep _ ih =>
      intro h hr
      have hop := hnd _ (List.mem_cons_self _ _)
      exact ih (fun op hm => hnd op (List.mem_cons_of_mem _ hm)) (hstep.spec h).1
        ⟨hstep.latest h hr.latest, hstep.valuesLive h hr.live hop⟩

/-! ## Reopening -/

/-- Opening a directory with `DiskInv` keeps every entry of a valid KeyDir with `Latest`
over the directory: recovery builds an entry for the key, and `Latest` fixes which. -/
theorem Latest.open_keeps {d : Disk} {kd : KeyDir} (hl : Latest kd d.datafiles) (hd : DiskInv d)
    (hv : KeyDirValid kd d.datafiles) :
    ∃ e', Engine.open d = .ok e' ∧
      ∀ k entry, kd.lookup k = some entry → e'.ctx.keydir.lookup k = some entry := by
  obtain ⟨e', hopen, hreb, hacc, -⟩ := Engine.open_rebuilt hd
  refine ⟨e', hopen, fun k en hk => ?_⟩
  obtain ⟨en', hk'⟩ := Option.isSome_iff_exists.1
    (AList.lookup_isSome.2 (hreb.live k _ _ (hv k en hk).valueAt))
  rw [hk', hl.entry_eq hreb.latest hv hacc.valid hk hk']

/-- **Reopening keeps every live entry.**  From every reachable state, opening the engine's
directory again succeeds, and every key with a KeyDir entry has the same entry after the
reopen: the same file, position, length and timestamp.  (A key deleted before the reopen
may come back: `reopen_after_delete_resurrects`.) -/
theorem reopen_keeps_live_entries (h : Reachable conf codec e) :
    ∃ e', Engine.open e.disk = .ok e' ∧
      ∀ k entry, e.ctx.keydir.lookup k = some entry → e'.ctx.keydir.lookup k = some entry :=
  h.latest.open_keeps h.inv.diskInv h.inv.accounts.valid

/-- After two puts of one key and two of another, a reopen keeps both entries. -/
theorem reopen_keeps_live_entries_sample :
    ∃ e, Reachable ⟨1, 1000, ⟨0, 0, 0⟩⟩ Codec.sample e ∧
      e.ctx.keydir.lookup [1] = some ⟨0, 27, 54, 2⟩ ∧
      ∃ e', Engine.open e.disk = .ok e' ∧
        ∀ k entry, e.ctx.keydir.lookup k = some entry → e'.ctx.keydir.lookup k = some entry := by
  have h : Reachable ⟨1, 1000, ⟨0, 0, 0⟩⟩ Codec.sample _ :=
    .step (.step (.step (.open Engine.open_empty) (.put 0 [1] [2] rfl)) (.put 1 [2] [3] rfl))
      (.put 2 [1] [4] rfl)
  exact ⟨_, h, rfl, reopen_keeps_live_entries h⟩

/-- **Without `delete`, reopening gives back the engine's maps.**  Open a directory with
`DiskInv` (every hint file lists exactly its data file's records, all values, and no file
operation fails), run any successful `put` and `merge` operations, and open the directory
again: every key looks up the same entry and every file has the same statistics as in the
engine before the reopen. -/
theorem reopen_exact_without_delete {d : Disk} {ops : List Op} {outs : List (Option Bool)}
    (hd : DiskInv d) (h₀ : Engine.open d = .ok e) (hs : Steps conf codec e ops outs e')
    (hnd : ∀ op ∈ ops, ∀ t key, op ≠ .delete t key) :
    ∃ e'', Engine.open e'.disk = .ok e'' ∧
      (∀ k, e''.ctx.keydir.lookup k = e'.ctx.keydir.lookup k) ∧
      ∀ f, statsOf e''.ctx.stats f = statsOf e'.ctx.stats f := by
  obtain ⟨hinv, hreb⟩ := hs.rebuilt hnd (Inv.of_open hd h₀) (Rebuilt.of_open hd h₀)
  obtain ⟨e'', hopen, hreb', hacc', -⟩ := Engine.open_rebuilt hinv.diskInv
  have hk : ∀ k, e''.ctx.keydir.lookup k = e'.ctx.keydir.lookup k :=
    hreb'.lookup_eq hreb hacc'.valid hinv.accounts.valid
  exact ⟨e'', hopen, hk, fun f => (hacc'.accounts f).statsOf_eq (hinv.accounts.accounts f) hk⟩

/-- Two puts of one key, a rollover and a merge of the first file, then a reopen. -/
theorem reopen_exact_without_delete_sample :
    ∃ e, Steps ⟨1, 30, ⟨0, 0, 0⟩⟩ Codec.sample Engine.initial
        [.put 0 [1] [2], .put 1 [1] [3], .merge [0]] [none, none, none] e ∧
      ∃ e'', Engine.open e.disk = .ok e'' ∧
        (∀ k, e''.ctx.keydir.lookup k = e.ctx.keydir.lookup k) ∧
        ∀ f, statsOf e''.ctx.stats f = statsOf e.ctx.stats f := by
  have h₂ : Steps ⟨1, 30, ⟨0, 0, 0⟩⟩ Codec.sample Engine.initial
      [.put 0 [1] [2], .put 1 [1] [3]] [none, none] _ :=
    .cons (.put 0 [1] [2] rfl) (.cons (.put 1 [1] [3] rfl) .nil)
  have hinv := (h₂.spec (Inv.of_open diskInv_empty Engine.open_empty) ∅
    (Engine.refines_open_empty Engine.open_empty)).1
  obtain ⟨e₃, hrun, -⟩ := Writer.mergeFiles_spec ⟨1, 30, ⟨0, 0, 0⟩⟩ hinv
    (show ∀ f ∈ [0], f ∈ _ by decide)
  have hs := h₂.snoc (.merge [0] (by decide) hrun)
  exact ⟨e₃, hs, reopen_exact_without_delete diskInv_empty Engine.open_empty hs (by simp)⟩

/-- **What `rebuild_storage` computes.**  On a directory with `DiskInv` (every hint file
lists exactly its data file's records, all values, and no file operation fails), the KeyDir
`rebuild_storage` returns holds exactly the keys that have a record with a value, and the
entry of each names a record of its key, with a value, that is the last such record in
the order of file id and position. -/
theorem rebuild_storage_latest {d : Disk} (hd : DiskInv d) :
    ∃ kd stats n, rebuildStorage d = .ok (kd, stats, n) ∧
      ∀ k, (k ∈ kd ↔ ∃ f pos, ValueAt d.datafiles k f pos) ∧
        ∀ entry, kd.lookup k = some entry →
          ValueAt d.datafiles k entry.fileid entry.pos ∧
          ∀ f pos, ValueAt d.datafiles k f pos → AtOrBefore f pos entry.fileid entry.pos := by
  obtain ⟨kd, stats, n, hrun, hacc, -⟩ := rebuildStorage_spec hd
  obtain ⟨kd', stats', n', hrun', hreb⟩ := rebuildStorage_rebuilt hd
  rw [hrun] at hrun'; cases hrun'
  refine ⟨kd, stats, n, hrun, fun k => ⟨⟨fun hk => ?_, fun ⟨f, pos, hx⟩ => hreb.live k f pos hx⟩,
    fun entry hk => ⟨(hacc.valid k entry hk).valueAt, fun f pos => hreb.latest k entry f pos hk⟩⟩⟩
  obtain ⟨entry, hk⟩ := Option.isSome_iff_exists.1 (AList.lookup_isSome.2 hk)
  exact ⟨_, _, (hacc.valid k entry hk).valueAt⟩

/-- After a put and a delete of one key, recovery gives the key its value back: the value
record is still in the file, and the tombstone after it is not a value record. -/
theorem rebuild_storage_latest_sample :
    ∃ e, Reachable ⟨1, 1000, ⟨0, 0, 0⟩⟩ Codec.sample e ∧ e.ctx.keydir.lookup [1] = none ∧
      ∃ kd stats n, rebuildStorage e.disk = .ok (kd, stats, n) ∧
        ∀ k, (k ∈ kd ↔ ∃ f pos, ValueAt e.disk.datafiles k f pos) ∧
          ∀ entry, kd.lookup k = some entry →
            ValueAt e.disk.datafiles k entry.fileid entry.pos ∧
            ∀ f pos, ValueAt e.disk.datafiles k f pos → AtOrBefore f pos entry.fileid entry.pos := by
  have h : Reachable ⟨1, 1000, ⟨0, 0, 0⟩⟩ Codec.sample _ :=
    .step (.step (.open Engine.open_empty) (.put 0 [1] [2] rfl)) (.delete 1 [1] rfl)
  exact ⟨_, h, rfl, rebuild_storage_latest h.inv.diskInv⟩

end Bitcask
