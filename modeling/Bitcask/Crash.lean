import Bitcask.Reopen
import Bitcask.Concurrency
import Bitcask.Faults

/-!
# Crashes

A crash stops the process wherever it is.  The directory keeps every byte written to a
file; the KeyDir, the statistics and the bytes a `BufWriter` holds are lost.  Restarting is
`Bitcask::open` on the directory as the crash left it.

In the frame model `LogWriter::append` writes its record through to the file, as the
repository's tests need when they read a record back right after `put`.  The merge data
file is written through a `BufWriter`, which holds up to 8 KiB of copied records and writes
them when the next record would overflow it, or when it is dropped; the hint file beside it
is a `LogWriter`.

## Main Statements

* `crash_after_append` — a crash right after `put` appended its record: recovery gives the
  key exactly the entry `put` would have installed, and keeps every other live entry.  The
  write path appends before it updates the KeyDir, and this is what that order buys.
* `crash_mid_merge_unreadable` — a crash inside a merge, after the copy loop repointed a
  key at bytes still in the `BufWriter`: the hint file already lists the copy, so recovery
  points the key at bytes that were never written, and `get` of the key fails after the
  restart.
* `crash_in_merge_removal` — a crash later in the same merge, once the merge data file is
  flushed, at any file operation of the loop that removes the merged files: recovery
  succeeds and every key reads the value it read before the merge.  The loop removes each
  hint file before its data file, so recovery never meets a hint file without its data.

## Main Definitions

* `endState` — the engine a run leaves, returned or failed; with the fault plan marking
  the operation a crash stops at, it is the state the crash leaves.
-/

namespace Bitcask

variable {conf : Config} {codec : Codec} {e : Engine}

/-! ## A crash inside `put` -/

/-- **A crash after the append recovers the put.**  From every reachable state, if the
process stops right after `put`'s `LogWriter::append` returned, before the KeyDir is
updated, then `Bitcask::open` on the directory succeeds, gives the key exactly the entry
`put` was about to install (the active id and the returned index), and keeps the entry of
every other key. -/
theorem crash_after_append (h : Reachable conf codec e) (t : Int) (k v : Bytes) :
    ∃ idx e₁ e', e.writer.writer.append codec ⟨t, k, some v⟩ e = .ok idx e₁ ∧
      Engine.open e₁.disk = .ok e' ∧
      e'.ctx.keydir.lookup k = some ⟨e.writer.activeFileid, idx.len, idx.pos, t⟩ ∧
      ∀ k' entry, k' ≠ k → e.ctx.keydir.lookup k' = some entry →
        e'.ctx.keydir.lookup k' = some entry := by
  have hinv := h.inv
  obtain ⟨file, hf⟩ := hinv.activeFile
  have happ := LogWriter.append_of_noFaults hinv.writer.below.noFaults e.writer.writer codec
    ⟨t, k, some v⟩ (hinv.writer.handle ▸ hf)
  rw [hinv.writer.handle] at happ
  have hlive := hinv.appendLive codec hf ⟨t, k, some v⟩ rfl
  have hd := hlive.diskInv
  have hv := hlive.accounts.valid
  simp only [Engine.pointKey, Engine.appendRecord, hinv.writer.handle, Disk.setData_datafiles]
    at hd hv
  obtain ⟨e', hopen, hkeep⟩ := (h.latest.appendValue hf
    (fun g hg => Nat.lt_succ_iff.1 (hinv.writer.below.data_lt g hg))
    (codec.frame ⟨t, k, some v⟩)).open_keeps hd hv
  exact ⟨_, _, e', happ, hopen, hkeep k _ (AList.lookup_insert _),
    fun k' en hne hk => hkeep k' en ((AList.lookup_insert_ne hne).trans hk)⟩

/-- After `put([2], [3])`, a crash after the append of `put([1], [2])`: the reopen gives
`[1]` its new entry and keeps the entry of `[2]`. -/
theorem crash_after_append_keeps_other :
    ∃ e, Reachable ⟨1, 1000, ⟨0, 0, 0⟩⟩ Codec.sample e ∧
      e.ctx.keydir.lookup [2] = some ⟨0, 27, 0, 0⟩ ∧
      ∃ idx e₁ e', e.writer.writer.append Codec.sample ⟨1, [1], some [2]⟩ e = .ok idx e₁ ∧
        Engine.open e₁.disk = .ok e' ∧
        e'.ctx.keydir.lookup [1] = some ⟨e.writer.activeFileid, idx.len, idx.pos, 1⟩ ∧
        e'.ctx.keydir.lookup [2] = some ⟨0, 27, 0, 0⟩ := by
  have h : Reachable ⟨1, 1000, ⟨0, 0, 0⟩⟩ Codec.sample _ :=
    .step (.open Engine.open_empty) (.put 0 [2] [3] rfl)
  obtain ⟨idx, e₁, e', happ, hopen, hk, hkeep⟩ := crash_after_append h 1 [1] [2]
  exact ⟨_, h, rfl, idx, e₁, e', happ, hopen, hk, hkeep [2] _ (by decide) rfl⟩

/-! ## Recovery on any directory -/

/-- Replaying one file succeeds when its data file exists. -/
theorem rebuildFile_ok {d : Disk} {f : Nat} (hf : f ∈ d.datafiles) (acc : Recovered) :
    ∃ acc', rebuildFile d acc f = .ok acc' := by
  obtain ⟨file, hfile⟩ := Option.isSome_iff_exists.1 (AList.lookup_isSome.2 hf)
  cases hh : d.hintfiles.lookup f with
  | none => exact ⟨(DataFile.logIterator file 0).foldl (datafileStep f) acc, by
      simp [rebuildFile, populateKeydirWithHintfile, populateKeydirWithDatafile, hh, hfile]⟩
  | some hint => exact ⟨hint.foldl (hintfileStep f) acc, by
      simp [rebuildFile, populateKeydirWithHintfile, hh]⟩

/-- The loop of `rebuild_storage` runs its ids in order: a run over `l₁ ++ l₂` is a run over
`l₁` followed by a run over `l₂`. -/
theorem rebuildFrom_append {d : Disk} (l₂ : List Nat) :
    ∀ (l₁ : List Nat) (acc : Recovered) (o : Option Nat),
      rebuildFrom d (l₁ ++ l₂) acc o = match rebuildFrom d l₁ acc o with
        | .ok (acc', o') => rebuildFrom d l₂ acc' o'
        | .error err => .error err
  | [], _, _ => rfl
  | f :: rest, acc, o => by
      simp only [List.cons_append, rebuildFrom]
      split
      · exact rebuildFrom_append l₂ rest _ _
      · rfl

/-- The loop of `rebuild_storage` succeeds over ids of existing data files. -/
theorem rebuildFrom_ok {d : Disk} : ∀ (ids : List Nat) (acc : Recovered) (o : Option Nat),
    (∀ f ∈ ids, f ∈ d.datafiles) → ∃ acc' o', rebuildFrom d ids acc o = .ok (acc', o')
  | [], acc, o, _ => ⟨acc, o, rfl⟩
  | f :: rest, acc, o, h => by
      obtain ⟨acc₁, h₁⟩ := rebuildFile_ok (h f (List.mem_cons_self _ _)) acc
      obtain ⟨acc', o', h'⟩ := rebuildFrom_ok rest acc₁ _ fun g hg => h g (List.mem_cons_of_mem _ hg)
      exact ⟨acc', o', by simp only [rebuildFrom, h₁]; exact h'⟩

/-- A strictly ascending list ends with its largest element. -/
theorem eq_append_of_sorted {l : List Nat} {m : Nat} (hs : l.Sorted (· < ·)) (hm : m ∈ l)
    (hmax : ∀ x ∈ l, x ≤ m) : ∃ l', l = l' ++ [m] := by
  rcases List.eq_nil_or_concat l with rfl | ⟨l', a, rfl⟩
  · simp at hm
  · rw [List.concat_eq_append] at hs hm hmax ⊢
    have ha := hmax a (by simp)
    rcases List.mem_append.1 hm with hm | hm
    · have := (List.pairwise_append.1 hs).2.2 m hm a (List.mem_singleton_self a)
      omega
    · rw [List.mem_singleton.1 hm]
      exact ⟨l', rfl⟩

/-- Replaying a hint file in which `hh` is the only entry of its key gives the key the entry
`hh` names. -/
theorem lookup_foldl_hintfileStep (f : Nat) {hh : HintFileEntry} :
    ∀ (hint : List HintFileEntry) (acc : Recovered), (∀ h' ∈ hint, h'.key = hh.key → h' = hh) →
      (hint.foldl (hintfileStep f) acc).1.lookup hh.key =
        if hh ∈ hint then some ⟨f, hh.len, hh.pos, hh.tstamp⟩ else acc.1.lookup hh.key
  | [], _, _ => by simp
  | h₀ :: rest, acc, hu => by
      have ih := lookup_foldl_hintfileStep f rest (hintfileStep f acc h₀)
        fun h' hm => hu h' (List.mem_cons_of_mem _ hm)
      rw [List.foldl_cons, ih]
      by_cases hk : h₀.key = hh.key
      · obtain rfl := hu h₀ (List.mem_cons_self _ _) hk
        simp [hintfileStep, recoverLive_eq]
      · have hne : h₀ ≠ hh := fun he => hk (he ▸ rfl)
        simp [hintfileStep, recoverLive_eq, AList.lookup_insert_ne (Ne.symm hk), Ne.symm hne]

/-- **Recovery of a key from the last file.**  On a directory whose largest data file id `M`
has a hint file in which `hh` is the only entry of its key, `rebuild_storage` succeeds,
gives the key the entry `hh` names, and returns an active id above `M`. -/
theorem rebuildStorage_of_last_hint {d : Disk} {M : Nat} {hint : HintFile} {hh : HintFileEntry}
    (hM : M ∈ d.datafiles) (hmax : ∀ f ∈ d.datafiles, f ≤ M)
    (hhint : d.hintfiles.lookup M = some hint) (hmem : hh ∈ hint)
    (huniq : ∀ h' ∈ hint, h'.key = hh.key → h' = hh) :
    ∃ kd stats n, rebuildStorage d = .ok (kd, stats, n) ∧ M < n ∧
      kd.lookup hh.key = some ⟨M, hh.len, hh.pos, hh.tstamp⟩ := by
  have hsorted : (sortedFileids d).Sorted (· < ·) :=
    (List.sorted_insertionSort _ _).lt_of_le
      ((List.perm_insertionSort _ _).nodup_iff.2 d.datafiles.keys_nodup)
  obtain ⟨l', hl'⟩ := eq_append_of_sorted hsorted (mem_sortedFileids.2 hM)
    fun x hx => hmax x (mem_sortedFileids.1 hx)
  obtain ⟨acc', o', hrun'⟩ := rebuildFrom_ok l' (∅, ∅) none
    fun f hf => mem_sortedFileids.1 (hl' ▸ List.mem_append_left _ hf)
  obtain ⟨o'', hrun⟩ : ∃ o'', rebuildFrom d (sortedFileids d) (∅, ∅) none =
      .ok (hint.foldl (hintfileStep M) acc', o'') := by
    rw [hl', rebuildFrom_append, hrun']
    simp only [rebuildFrom, rebuildFile, populateKeydirWithHintfile, hhint]
    exact ⟨_, rfl⟩
  obtain ⟨mx, hmx, hle⟩ := rebuildFrom_bound hrun M (.inl (mem_sortedFileids.2 hM))
  refine ⟨_, _, _, by rw [rebuildStorage, hrun], by rw [hmx]; simp; omega, ?_⟩
  rw [lookup_foldl_hintfileStep M hint acc' huniq, if_pos hmem]

/-- Flushing a buffer into a data file keeps the set of data files. -/
theorem Disk.mem_appendData (d : Disk) (f g : Nat) (frames : List Frame) :
    g ∈ (d.appendData f frames).datafiles ↔ g ∈ d.datafiles := by
  rw [← AList.lookup_isSome, ← AList.lookup_isSome, Disk.appendData_lookup]
  split
  next h => subst h; simp
  next => exact Iff.rfl

/-! ## A crash inside a merge -/

/-- In a file with no dead record, a key whose entry names the file has exactly one hint
entry there, the one its entry describes. -/
theorem FileAccounts.hintsOf_key {kd : KeyDir} {stats : Stats} {files : FileMap DataFile}
    {f : Nat} {file : DataFile} (h : FileAccounts kd stats files f) (hv : KeyDirValid kd files)
    (h0 : (statsOf stats f).deadKeys = 0) (hf : files.lookup f = some file) {k : Bytes}
    {en : KeyDirEntry} (hk : kd.lookup k = some en) (hfid : en.fileid = f) :
    (⟨en.tstamp, en.len, en.pos, k⟩ : HintFileEntry) ∈ file.hintsOf ∧
      ∀ h' ∈ file.hintsOf, h'.key = k → h' = ⟨en.tstamp, en.len, en.pos, k⟩ := by
  obtain ⟨file', fr, hfile, hr, hkey, -, ht⟩ := hv k en hk
  rw [hfid, hf] at hfile; cases hfile
  obtain ⟨hat, hlen⟩ := DataFile.read_eq_some.1 hr
  refine ⟨List.mem_map.2 ⟨(⟨fr.len, en.pos⟩, fr.entry),
    DataFile.mem_logIterator.2 ⟨Nat.zero_le _, fr, by simpa using hat, rfl, rfl⟩,
    by rw [hlen, ht, hkey]⟩, fun h' hm hk' => ?_⟩
  obtain ⟨⟨⟨len', pos'⟩, ent'⟩, hp, rfl⟩ := List.mem_map.1 hm
  obtain ⟨-, fr', hat', hlen', rfl⟩ := DataFile.mem_logIterator.1 hp
  obtain ⟨en', hk₂, -, hpos', hlen₂, ht₂⟩ := h.entry_of_frameAt hv h0 hf (by simpa using hat')
  simp only at hk' hpos' hlen'
  rw [hk', hk] at hk₂; cases hk₂
  simp only [HintFileEntry.mk.injEq]
  exact ⟨ht₂.symm, hlen'.symm.trans hlen₂.symm, by simpa using hpos'.symm, hk'⟩

/-- Inside the copy loop, a crash and a restart leave every key whose entry names bytes the
merge `BufWriter` holds with that same entry, whose bytes the file does not have: the hint
file lists the copy, and the merge data file is the last file recovery replays. -/
theorem LoopInv.crash_unreadable {S : List Nat} {e₀ : Engine}
    {rest : List (Σ _ : Bytes, KeyDirEntry)} {c : MergeCursor} (hl : LoopInv S e₀ rest c e)
    {k : Bytes} {en : KeyDirEntry} (hk : e.ctx.keydir.lookup k = some en)
    (hfid : en.fileid = c.mergeFileid)
    (hpos : (framesOf e.disk.datafiles c.mergeFileid).size ≤ en.pos) :
    ∃ e', Engine.open e.disk = .ok e' ∧ e'.ctx.keydir.lookup k = some en ∧
      Reader.get e' k = .error .serialization := by
  have hv := hl.view
  -- the merge data file: its flushed frames, then the buffer; its hint file lists both
  obtain ⟨F, hF⟩ := Option.isSome_iff_exists.1 (AList.lookup_isSome.2 hv.data_mem)
  obtain ⟨F₀, hF₀, rfl⟩ : ∃ F₀, e.disk.datafiles.lookup c.mergeFileid = some F₀ ∧
      F₀ ++ c.datafileWriter.buf = F := by simpa [hl.dataWriter] using hF
  obtain ⟨hint, hh⟩ := Option.isSome_iff_exists.1 (AList.lookup_isSome.2 hv.hint_mem)
  obtain ⟨file, hfile, rfl, -⟩ := hv.hints _ hint hh
  rw [hF] at hfile; cases hfile
  have hMS : c.mergeFileid ∉ S := fun hS => by
    have := hv.S_le _ hS; have := hv.fresh; omega
  obtain ⟨hmem, huniq⟩ := (hv.accounts _ hMS).hintsOf_key hv.valid (hv.mergeDead _ hv.fresh).1 hF
    hk hfid
  -- recovery replays that hint file last
  obtain ⟨kd, stats, n, hrun, hn, hkd⟩ := rebuildStorage_of_last_hint (mem_of_lookup hF₀)
    (fun f hf => hv.data_le f ((Disk.mem_appendData _ _ _ _).2 hf)) hh hmem huniq
  have hen : (⟨c.mergeFileid, en.len, en.pos, en.tstamp⟩ : KeyDirEntry) = en := by
    cases en; simp_all
  rw [hen] at hkd
  simp only at hkd
  refine ⟨_, Engine.open_of_rebuildStorage hl.noFaults hrun, hkd, ?_⟩
  -- and the restarted reader reads past the flushed bytes
  rw [framesOf_of_lookup hF₀] at hpos
  simp only [Reader.get, hkd]
  rw [hfid, Disk.create_data_datafiles, AList.lookup_insert_ne (by omega), hF₀]
  simp only [DataFile.read_of_size_le hpos]

/-- **A crash during a merge can leave a key unreadable.**  In every reachable handle, a key
whose entry names bytes still in the merge data file's `BufWriter` holds a value in the
map the handle stands for.  Yet if the process stops there, `Bitcask::open` on the
directory points the key at those bytes, which never reached the file, and `get` of the
key fails after the restart. -/
theorem crash_mid_merge_unreadable {h : Handle} {m : Store} (hr : HandleReachable conf codec h m)
    {k : Bytes} (hb : h.Buffered k) :
    (∃ v, m.lookup k = some v) ∧ ∃ e' entry, h.engine.ctx.keydir.lookup k = some entry ∧
      Engine.open h.engine.disk = .ok e' ∧ e'.ctx.keydir.lookup k = some entry ∧
      Reader.get e' k = .error .serialization := by
  rcases h with ⟨e, _ | ⟨S, rest, c⟩⟩
  · exact hb.elim
  obtain ⟨e₀, -, hm, hl⟩ := hr.inv
  obtain ⟨en, hk, hfid, hpos⟩ := hb
  obtain ⟨e', hopen, hkd, hget⟩ := hl.crash_unreadable hk hfid hpos
  refine ⟨?_, e', en, hk, hopen, hkd, hget⟩
  obtain ⟨file, fr, hfile, hr', -, hval, -⟩ := hl.view.valid k en hk
  obtain ⟨v, hv⟩ := Option.isSome_iff_exists.1 hval
  refine ⟨v, ?_⟩
  rw [← hm k, Engine.valueOf, ← hl.view.frames k]
  simp only [lookupFrame, hk, hfile, hr', hv, Option.some_bind]

/-- After `put([1], [2])`, a merge of file `0` copies the record into its `BufWriter` and
repoints the key; a crash there leaves `[1]` unreadable after the restart. -/
theorem crash_mid_merge_unreadable_sample :
    ∃ h, HandleReachable ⟨1, 1000, ⟨0, 0, 0⟩⟩ Codec.sample h ((∅ : Store).insert [1] [2]) ∧
      h.Buffered [1] ∧
      ((∃ v, ((∅ : Store).insert [1] [2]).lookup [1] = some v) ∧
        ∃ e' entry, h.engine.ctx.keydir.lookup [1] = some entry ∧
          Engine.open h.engine.disk = .ok e' ∧ e'.ctx.keydir.lookup [1] = some entry ∧
          Reader.get e' [1] = .error .serialization) := by
  have hr : HandleReachable ⟨1, 1000, ⟨0, 0, 0⟩⟩ Codec.sample _ _ :=
    .step (.step (.step (.open Engine.open_empty) (.put 0 [1] [2] rfl))
      (.mergeBegin [0] (by decide) rfl)) (.mergeEntry (by decide) rfl)
  exact ⟨_, hr, ⟨_, rfl, rfl, Nat.zero_le _⟩,
    crash_mid_merge_unreadable hr ⟨_, rfl, rfl, Nat.zero_le _⟩⟩


/-! ## A crash while merged files are removed

Once the merge data file's writer is dropped, the removal loop unlinks, for each merged id,
its hint file and then its data file.  A crash there is modelled by the fault plan: the
operation the process stops at fails, and nothing after it runs. -/

/-- Reopening a directory with `DiskInv`, with a valid KeyDir that has `Latest` over it:
every key of the KeyDir reads, after the reopen, the value its entry names. -/
theorem Latest.open_reads {d : Disk} {kd : KeyDir} (hl : Latest kd d.datafiles) (hd : DiskInv d)
    (hv : KeyDirValid kd d.datafiles) :
    ∃ e', Engine.open d = .ok e' ∧
      ∀ k ∈ kd, Reader.get e' k = .ok ((lookupFrame d.datafiles kd k).bind (·.entry.value)) := by
  obtain ⟨e', hopen, hkeep⟩ := hl.open_keeps hd hv
  obtain ⟨e'', hopen', -, -, hdisk, hact⟩ := Engine.open_rebuilt hd
  rw [hopen] at hopen'; cases hopen'
  refine ⟨e', hopen, fun k hk => ?_⟩
  obtain ⟨en, hen⟩ := Option.isSome_iff_exists.1 (AList.lookup_isSome.2 hk)
  obtain ⟨file, fr, h1, h2, -⟩ := hv k en hen
  have hne : en.fileid ≠ e'.writer.activeFileid := fun h => hact (h ▸ mem_of_lookup h1)
  simp [Reader.get, hkeep k en hen, hdisk, AList.lookup_insert_ne hne, h1, h2, lookupFrame, hen]

/-- After the copy loop the KeyDir names the last value record of each key in the view: a
kept entry did so before the merge, and a moved entry names its copy, in a file newer than
every file the merge started from. -/
theorem ViewInv.latest {S : List Nat} {e₀ : Engine} {m p : Nat} {kd : KeyDir} {stats : Stats} {vd : FileMap DataFile}
    {vh : FileMap HintFile} (hv : ViewInv S e₀ [] m p kd stats vd vh) (h₀ : Inv e₀)
    (hl : Latest e₀.ctx.keydir e₀.disk.datafiles) : Latest kd vd := by
  intro key en g pos hk hx
  by_cases hg : g ≤ e₀.writer.activeFileid
  · obtain ⟨en₀, hk₀⟩ : ∃ en₀, e₀.ctx.keydir.lookup key = some en₀ :=
      Option.isSome_iff_exists.1 (by
        rw [← isSome_lookupFrame h₀.accounts.valid, ← hv.frames, isSome_lookupFrame hv.valid, hk]
        rfl)
    by_cases hS : en₀.fileid ∈ S
    · obtain ⟨en', hk', h1, -⟩ := hv.moved key en₀ hk₀ hS (by simp)
      rw [hk] at hk'; cases hk'
      exact .inl (by omega)
    · rw [hv.outside key en₀ hk₀ hS, Option.some_inj] at hk
      exact hk ▸ hl key en₀ g pos hk₀ (hx.of_lookup (hv.old g hg).1)
  · have hgS : g ∉ S := fun h => hg (hv.S_le g h)
    obtain ⟨en', hk', rfl, rfl⟩ :=
      (hv.accounts g hgS).entry_of_valueAt hv.valid (hv.mergeDead g (by omega)).1 hx
    rw [hk] at hk'; cases hk'
    exact AtOrBefore.refl _ _

/-- **The directories the removal loop passes through are safe.**  After the copy loop,
with the merge data file flushed, take the directory with the data files of `T` and the
hint files of `T'` removed, `T ⊆ T' ⊆ S`.  Recovery can read it, and every key of the
engine the merge started from reads its value after the reopen. -/
theorem LoopInv.removal_reads {S : List Nat} {e₀ e₂ : Engine} {c : MergeCursor}
    (hl : LoopInv S e₀ [] c e₂)
    (h₀ : Inv e₀) (hlat : Latest e₀.ctx.keydir e₀.disk.datafiles) {d : Disk}
    {T T' : List Nat} (hT : T ⊆ T') (hT' : T' ⊆ S)
    (hdata : d.datafiles = T.foldl (fun s f => s.erase f) (e₂.flush c.datafileWriter).disk.datafiles)
    (hhint : d.hintfiles = T'.foldl (fun s f => s.erase f) (e₂.flush c.datafileWriter).disk.hintfiles)
    (hcreated : d.created = (e₂.flush c.datafileWriter).disk.created) (hf : d.faults = []) :
    ∃ e', Engine.open d = .ok e' ∧ ∀ k ∈ e₀.ctx.keydir, Reader.get e' k = .ok (e₀.valueOf k) := by
  rw [Engine.flush_hintfiles] at hhint
  rw [Engine.flush_created] at hcreated
  have hv := hl.view
  have hd : ∀ g, d.datafiles.lookup g =
      if g ∈ T then none else (e₂.disk.appendData c.mergeFileid c.datafileWriter.buf).datafiles.lookup g :=
    fun g => by rw [hdata, lookup_foldl_erase, Engine.lookup_flush, hl.dataWriter]
  have hkept : ∀ g ∉ S, d.datafiles.lookup g =
      (e₂.disk.appendData c.mergeFileid c.datafileWriter.buf).datafiles.lookup g :=
    fun g hg => by rw [hd, if_neg fun h => hg (hT' (hT h))]
  have hmS : c.mergeFileid ∉ S := fun hS => by
    have := hv.S_le _ hS; have := hv.fresh; omega
  have hdisk : DiskInv d := by
    refine ⟨hf, hcreated ▸ hl.created_fresh, fun f hint hh => ?_, fun x hx =>
      ⟨c.mergeFileid, ?_, hl.created_le x (hcreated ▸ hx)⟩⟩
    · rw [hhint, lookup_foldl_erase] at hh
      split at hh
      · cases hh
      · obtain ⟨file, h1, h2⟩ := hv.hints f hint hh
        exact ⟨file, by rw [hd, if_neg fun h => ‹f ∉ T'› (hT h)]; exact h1, h2⟩
    · rw [← AList.lookup_isSome, hkept _ hmS, AList.lookup_isSome]
      exact hv.data_mem
  have hvalid : KeyDirValid e₂.ctx.keydir d.datafiles := fun k en hk => by
    obtain ⟨file, fr, h1, rest⟩ := hv.valid k en hk
    exact ⟨file, fr, by rw [hkept _ (hv.not_mem hk)]; exact h1, rest⟩
  have hlatV := hv.latest h₀ hlat
  have hlatd : Latest e₂.ctx.keydir d.datafiles := fun key en g pos hk hx => by
    have hgT : g ∉ T := fun hg => by simpa [← AList.lookup_isSome, hd, hg] using hx.mem
    exact hlatV key en g pos hk (hx.of_lookup (by rw [hd, if_neg hgT]))
  obtain ⟨e', hopen, hread⟩ := hlatd.open_reads hdisk hvalid
  refine ⟨e', hopen, fun k hk => ?_⟩
  have hk₂ : k ∈ e₂.ctx.keydir := by
    rw [← AList.lookup_isSome, ← isSome_lookupFrame hv.valid, hv.frames,
      isSome_lookupFrame h₀.accounts.valid, AList.lookup_isSome]
    exact hk
  obtain ⟨en, hen⟩ := Option.isSome_iff_exists.1 (AList.lookup_isSome.2 hk₂)
  rw [hread k hk₂, Engine.valueOf, ← hv.frames]
  simp [lookupFrame, hen, hkept _ (hv.not_mem hen)]

theorem ignoreNotFound_removeFile_pass {rest : List Bool} (h : e.disk.faults = false :: rest)
    (n : FileName) :
    ignoreNotFound (removeFile n) e = .ok () ({ e with disk := e.disk.remove n }.withFaults rest) := by
  have hc : (e.withFaults rest).disk.contains n = e.disk.contains n := by cases n <;> rfl
  simp only [ignoreNotFound, removeFile, tryCatch, tryCatchThe, MonadExceptOf.tryCatch,
    EStateM.tryCatch, syscall_of_pass _ h, bind, EStateM.bind, getThe, MonadStateOf.get,
    EStateM.get, hc]
  cases hc' : e.disk.contains n
  · simp [Disk.remove_of_not_contains hc', throw, throwThe, MonadExceptOf.throw, EStateM.throw,
      pure, EStateM.pure]
    rfl
  · simp [modifyDisk, modify, modifyGet, MonadStateOf.modifyGet, EStateM.modifyGet]
    cases n <;> rfl

theorem ignoreNotFound_removeFile_fail {rest : List Bool} (h : e.disk.faults = true :: rest)
    (n : FileName) :
    ignoreNotFound (removeFile n) e = .error (.io .other) (e.withFaults rest) := by
  simp [ignoreNotFound, removeFile, syscall_of_fail _ h, tryCatch, tryCatchThe,
    MonadExceptOf.tryCatch, EStateM.tryCatch, throw, throwThe, MonadExceptOf.throw, EStateM.throw]
  rfl

theorem ignoreNotFound_removeFile_cases (e : Engine) (n : FileName) :
    ignoreNotFound (removeFile n) e =
        .ok () ({ e with disk := e.disk.remove n }.withFaults e.disk.faults.tail) ∨
      ignoreNotFound (removeFile n) e = .error (.io .other) (e.withFaults e.disk.faults.tail) := by
  rcases hf : e.disk.faults with _ | ⟨_ | _, rest⟩
  · refine .inl ((ignoreNotFound_removeFile hf n).trans ?_)
    obtain ⟨ctx, w, ⟨data, hints, faults, created⟩⟩ := e
    simp only at hf; subst hf
    cases n <;> rfl
  · exact .inl (ignoreNotFound_removeFile_pass hf n)
  · exact .inr (ignoreNotFound_removeFile_fail hf n)

/-- The engine a run of the writer leaves, whether the run returned or failed. -/
def endState {α : Type} : EStateM.Result Error Engine α → Engine
  | .ok _ e => e
  | .error _ e => e

theorem Writer.removeMerged_ends : ∀ (S : List Nat) (e : Engine), ∃ T T' : List Nat,
    T ⊆ T' ∧ T' ⊆ S ∧
    (endState (Writer.removeMerged S e)).disk.datafiles =
      T.foldl (fun d f => d.erase f) e.disk.datafiles ∧
    (endState (Writer.removeMerged S e)).disk.hintfiles =
      T'.foldl (fun d f => d.erase f) e.disk.hintfiles ∧
    (endState (Writer.removeMerged S e)).disk.created = e.disk.created
  | [], e => ⟨[], [], by simp, by simp, rfl, rfl, rfl⟩
  | f :: rest, e => by
      let e₁ : Engine := { e with ctx := { e.ctx with stats := e.ctx.stats.erase f } }
      let e₂ := { e₁ with disk := e₁.disk.remove (.hint f) }.withFaults e₁.disk.faults.tail
      let e₃ := { e₂ with disk := e₂.disk.remove (.data f) }.withFaults e₂.disk.faults.tail
      have hrun : Writer.removeMerged (f :: rest) e =
          (do ignoreNotFound (removeFile (.hint f)); ignoreNotFound (removeFile (.data f))
              Writer.removeMerged rest) e₁ := rfl
      rcases ignoreNotFound_removeFile_cases e₁ (.hint f) with h₂ | h₂
      · rcases ignoreNotFound_removeFile_cases e₂ (.data f) with h₃ | h₃
        · obtain ⟨T, T', hT, hT', hd, hh, hc⟩ := Writer.removeMerged_ends rest e₃
          have hrun' : Writer.removeMerged (f :: rest) e = Writer.removeMerged rest e₃ := by
            rw [hrun]; simp only [bind, EStateM.bind, h₂, h₃]
          rw [hrun']
          exact ⟨f :: T, f :: T', List.cons_subset_cons f hT, List.cons_subset_cons f hT', hd, hh, hc⟩
        · have hrun' : Writer.removeMerged (f :: rest) e =
              .error (.io .other) (e₂.withFaults e₂.disk.faults.tail) := by
            rw [hrun]; simp only [bind, EStateM.bind, h₂, h₃]
          rw [hrun']
          exact ⟨[], [f], by simp, by simp, rfl, rfl, rfl⟩
      · have hrun' : Writer.removeMerged (f :: rest) e =
            .error (.io .other) (e₁.withFaults e₁.disk.faults.tail) := by
          rw [hrun]; simp only [bind, EStateM.bind, h₂]
        rw [hrun']
        exact ⟨[], [], by simp, by simp, rfl, rfl, rfl⟩

/-- **A crash while merged files are removed loses no value.**  From every reachable state,
run a merge of any files with statistics to the end of its copy scope: `merge_begin`, the
copy loop and the drop of the merge data file's writer succeed.  Wherever the removal loop
then stops, at whichever of its file operations, or after the last, `Bitcask::open` on
the directory succeeds, and every key the engine held before the merge reads the value it
read then. -/
theorem crash_in_merge_removal (h : Reachable conf codec e) {S : List Nat}
    (hS : ∀ f ∈ S, f ∈ e.ctx.stats) :
    ∃ c₀ e₁ c e₂ e₃, Writer.mergeBegin (e.writer.activeFileid + 1) e = .ok c₀ e₁ ∧
      Writer.mergeLoop conf S e₁.ctx.keydir.entries c₀ e₁ = .ok c e₂ ∧
      c.datafileWriter.drop e₂ = .ok () e₃ ∧
      ∀ plan : List Bool, ∃ e', Engine.open { (endState (Writer.removeMerged S
          ((e₃.markMerged S).withFaults plan))).disk with faults := [] } = .ok e' ∧
        ∀ k ∈ e.ctx.keydir, Reader.get e' k = .ok (e.valueOf k) := by
  have hinv := h.inv
  obtain ⟨c, e₂, hloop, hl⟩ := Writer.mergeLoop_spec conf _ _ _ (LoopInv.start hinv hS)
  refine ⟨_, _, c, e₂, _, Writer.mergeBegin_of_noFaults hinv.writer.below.noFaults _, hloop,
    BufWriter.drop_of_noFaults hl.noFaults _, fun plan => ?_⟩
  obtain ⟨T, T', hT, hT', hd, hh, hc⟩ :=
    Writer.removeMerged_ends S (((e₂.flush c.datafileWriter).markMerged S).withFaults plan)
  exact hl.removal_reads hinv h.latest hT hT' hd hh hc rfl

/-- After `put([1], [2])`, a merge of file `0`: a crash anywhere in the removal loop keeps
`[1]` readable. -/
theorem crash_in_merge_removal_sample :
    ∃ e, Reachable ⟨1, 1000, ⟨0, 0, 0⟩⟩ Codec.sample e ∧ (∀ f ∈ [0], f ∈ e.ctx.stats) ∧
      ∃ c₀ e₁ c e₂ e₃, Writer.mergeBegin (e.writer.activeFileid + 1) e = .ok c₀ e₁ ∧
        Writer.mergeLoop ⟨1, 1000, ⟨0, 0, 0⟩⟩ [0] e₁.ctx.keydir.entries c₀ e₁ = .ok c e₂ ∧
        c.datafileWriter.drop e₂ = .ok () e₃ ∧
        ∀ plan : List Bool, ∃ e', Engine.open { (endState (Writer.removeMerged [0]
            ((e₃.markMerged [0]).withFaults plan))).disk with faults := [] } = .ok e' ∧
          ∀ k ∈ e.ctx.keydir, Reader.get e' k = .ok (e.valueOf k) := by
  have h : Reachable ⟨1, 1000, ⟨0, 0, 0⟩⟩ Codec.sample _ :=
    .step (.open Engine.open_empty) (.put 0 [1] [2] rfl)
  exact ⟨_, h, by decide, crash_in_merge_removal h (by decide)⟩

end Bitcask
