import Bitcask.Merge
import Bitcask.Invariant

/-!
# The copy loop of merge

The copy loop of `Writer::merge` writes each live record of the merge set `S` into a
`BufWriter`, and repoints the record's key at where the record *will* be once the buffer
is flushed.  Until then the KeyDir runs ahead of the directory.  The invariant of the loop
is therefore stated about the *view*: the directory with the current buffer appended to
the current merge data file, which is what the directory becomes when the writer is
dropped.  Whatever part of its buffer a `write_all` writes out, the view gains exactly the
copied record (`Engine.writeAll_view`).

## Main Definitions

* `Writer.mergeEntry_of_noFaults` — what one iteration does when nothing fails:
  `Engine.repoint` (KeyDir, statistics, hint file) and, past `max_file_size`,
  `Engine.nextMergeFile` (next data file, flush, next hint file).
* `ViewInv` — the loop invariant over the view, relative to the engine `e₀` the merge
  started from and to the entries `rest` still to visit.
* `LoopInv` — `ViewInv` together with what the loop leaves alone.

## Main Statements

* `ViewInv.copy`, `ViewInv.next`, `ViewInv.skip`, `ViewInv.congr` — the loop's steps keep
  the invariant over the view.
* `Writer.mergeLoop_spec` — from a state with the invariant, the loop succeeds and ends
  with it, every entry visited.

## Design Notes

Inside the loop the files of `S` are not accounted for: their records were copied but
their statistics still count them.  They are removed, statistics and all, after the loop
(`Bitcask.MergeCorrect`), and `ViewInv.todo_S` is what makes that sound: when the loop
ends no entry points into `S`.
-/

namespace Bitcask

/-! ## The loop's primitives when nothing fails -/

variable {e : Engine}

theorem ignoreNotFound_removeFile (h : e.disk.faults = []) (n : FileName) :
    ignoreNotFound (removeFile n) e = .ok () { e with disk := e.disk.remove n } := by
  rw [ignoreNotFound]
  cases hc : e.disk.contains n
  · simp [removeFile_of_noFaults h, hc, Disk.remove_of_not_contains hc, tryCatch, tryCatchThe,
      MonadExceptOf.tryCatch, EStateM.tryCatch, pure, EStateM.pure]
    rfl
  · simp [removeFile_of_noFaults h, hc, tryCatch, tryCatchThe, MonadExceptOf.tryCatch,
      EStateM.tryCatch]

/-- The KeyDir entry a copy gives a key: the same timestamp, at the merge cursor. -/
def MergeCursor.entryFor (c : MergeCursor) (entry : KeyDirEntry) (len : Nat) : KeyDirEntry :=
  { entry with fileid := c.mergeFileid, len, pos := c.mergePos }

/-- One iteration of the copy loop up to its size check, when nothing fails: `key` points
at `merged`, one more key is live in the merge file, and the hint entry of `merged` goes
after `hint` in the merge hint file. -/
def Engine.repoint (e : Engine) (c : MergeCursor) (key : Bytes) (merged : KeyDirEntry)
    (hint : HintFile) : Engine :=
  { e with
    ctx := { e.ctx with keydir := e.ctx.keydir.replace key merged,
                        stats := updateStats e.ctx.stats c.mergeFileid .addLive }
    disk := e.disk.setHint c.hintfileWriter.fileid
      (hint ++ [⟨merged.tstamp, merged.len, merged.pos, key⟩]) }

section Repoint

variable (e : Engine) (c : MergeCursor) (key : Bytes) (merged : KeyDirEntry) (hint : HintFile)

@[simp] theorem Engine.repoint_ctx : (e.repoint c key merged hint).ctx =
    { e.ctx with keydir := e.ctx.keydir.replace key merged,
                 stats := updateStats e.ctx.stats c.mergeFileid .addLive } := rfl
@[simp] theorem Engine.repoint_writer : (e.repoint c key merged hint).writer = e.writer := rfl
@[simp] theorem Engine.repoint_faults :
    (e.repoint c key merged hint).disk.faults = e.disk.faults := rfl
@[simp] theorem Engine.repoint_created :
    (e.repoint c key merged hint).disk.created = e.disk.created := rfl
@[simp] theorem Engine.repoint_hintfiles : (e.repoint c key merged hint).disk.hintfiles =
    e.disk.hintfiles.insert c.hintfileWriter.fileid
      (hint ++ [⟨merged.tstamp, merged.len, merged.pos, key⟩]) := rfl

end Repoint

/-- The switch to merge file `fileid` when nothing fails: its data file is created, the
writer `w` of the previous one dropped (which flushes it), and its hint file created. -/
def Engine.nextMergeFile (e : Engine) (w : BufWriter) (fileid : Nat) : Engine :=
  let e := { e with disk := e.disk.create (.data fileid) }.flush w
  { e with disk := e.disk.create (.hint fileid) }

@[simp] theorem Engine.nextMergeFile_ctx (e : Engine) (w : BufWriter) (fileid : Nat) :
    (e.nextMergeFile w fileid).ctx = e.ctx := by
  simp [Engine.nextMergeFile]
@[simp] theorem Engine.nextMergeFile_writer (e : Engine) (w : BufWriter) (fileid : Nat) :
    (e.nextMergeFile w fileid).writer = e.writer := by
  simp [Engine.nextMergeFile]
@[simp] theorem Engine.nextMergeFile_faults (e : Engine) (w : BufWriter) (fileid : Nat) :
    (e.nextMergeFile w fileid).disk.faults = e.disk.faults := by
  simp [Engine.nextMergeFile]
@[simp] theorem Engine.nextMergeFile_created (e : Engine) (w : BufWriter) (fileid : Nat) :
    (e.nextMergeFile w fileid).disk.created = e.disk.created ++ [.data fileid, .hint fileid] := by
  simp [Engine.nextMergeFile]
@[simp] theorem Engine.nextMergeFile_hintfiles (e : Engine) (w : BufWriter) (fileid : Nat) :
    (e.nextMergeFile w fileid).disk.hintfiles = e.disk.hintfiles.insert fileid [] := by
  simp [Engine.nextMergeFile]

/-- After the switch the data files are the previous ones with `w`'s buffer flushed, and
an empty file `fileid`. -/
theorem Engine.nextMergeFile_lookup (e : Engine) (w : BufWriter) {fileid : Nat}
    (hw : w.fileid ≠ fileid) (g : Nat) :
    (e.nextMergeFile w fileid).disk.datafiles.lookup g =
      ((e.disk.appendData w.fileid w.buf).datafiles.insert fileid []).lookup g := by
  simp only [Engine.nextMergeFile, Disk.create_hint_datafiles, Engine.lookup_flush,
    Disk.appendData_lookup, Disk.create_data_datafiles]
  by_cases h1 : g = fileid
  · subst h1; simp [hw.symm]
  · by_cases h2 : g = w.fileid
    · subst h2; simp [AList.lookup_insert_ne hw]
    · simp [h1, h2, AList.lookup_insert_ne h1]

variable (conf : Config)

theorem Writer.mergeEntry_of_noFaults (h : e.disk.faults = []) {c : MergeCursor} {key : Bytes}
    {entry : KeyDirEntry} {file : DataFile} {fr : Frame} {hint : HintFile}
    (hf : e.disk.datafiles.lookup entry.fileid = some file)
    (hr : file.read entry.len entry.pos = some fr)
    (hh : e.disk.hintfiles.lookup c.hintfileWriter.fileid = some hint) :
    Writer.mergeEntry conf c key entry e =
      let p := e.writeAll c.datafileWriter fr
      let e' := p.1.repoint c key (c.entryFor entry fr.len) hint
      if conf.maxFileSize < c.mergePos + fr.len then
        .ok ⟨c.mergeFileid + 1, 0, ⟨c.mergeFileid + 1, []⟩, ⟨c.mergeFileid + 1⟩⟩
          (e'.nextMergeFile p.2 (c.mergeFileid + 1))
      else .ok { c with mergePos := c.mergePos + fr.len, datafileWriter := p.2 } e' := by
  simp only [Writer.mergeEntry, bind, EStateM.bind, dropOnError, tryCatch, tryCatchThe,
    MonadExceptOf.tryCatch, EStateM.tryCatch, copyRaw_of_noFaults h hf hr, modifyCtx, modify,
    modifyGet, MonadStateOf.modifyGet, EStateM.modifyGet]
  rw [LogWriter.appendHint_of_noFaults (by simpa using h) _ _ (by simpa using hh)]
  simp only
  split
  · simp [create_of_noFaults, h, BufWriter.drop_of_noFaults, LogWriter.new_of_noFaults, pure,
      EStateM.pure, EStateM.tryCatch, EStateM.bind, Engine.nextMergeFile, Engine.repoint,
      MergeCursor.entryFor]
  · simp [pure, EStateM.pure, Engine.repoint, MergeCursor.entryFor]

/-! ## The invariant over the view -/

section View

variable (S : List Nat) (e₀ : Engine)

/-- The copy loop's invariant over the view `vd` of the data files (and the hint files
`vh`), with `m` the current merge file, `pos` the copy position in it, and `rest` the
entries still to visit.  `A = e₀.writer.activeFileid` bounds every file the merge
started from; the merge files are the ids in `(A, m]`. -/
structure ViewInv (rest : List (Σ _ : Bytes, KeyDirEntry)) (m pos : Nat) (kd : KeyDir)
    (stats : Stats) (vd : FileMap DataFile) (vh : FileMap HintFile) : Prop where
  S_le : ∀ f ∈ S, f ≤ e₀.writer.activeFileid
  fresh : e₀.writer.activeFileid < m
  mergePos : (framesOf vd m).size = pos
  data_mem : m ∈ vd
  hint_mem : m ∈ vh
  data_le : ∀ f ∈ vd, f ≤ m
  hint_le : ∀ f ∈ vh, f ≤ m
  range_mem : ∀ j, e₀.writer.activeFileid < j → j ≤ m → j ∈ vd ∧ j ∈ vh
  hints : HintsAgree vd vh
  valid : KeyDirValid kd vd
  accounts : ∀ g ∉ S, FileAccounts kd stats vd g
  stats_mem : ∀ g ∈ stats, g ∈ vd
  mergeDead : ∀ g, e₀.writer.activeFileid < g →
    (statsOf stats g).deadKeys = 0 ∧ (statsOf stats g).deadBytes = 0
  old : ∀ f ≤ e₀.writer.activeFileid,
    vd.lookup f = e₀.disk.datafiles.lookup f ∧ vh.lookup f = e₀.disk.hintfiles.lookup f
  frames : ∀ k, lookupFrame vd kd k = lookupFrame e₀.disk.datafiles e₀.ctx.keydir k
  rest_mem : ∀ s ∈ rest, e₀.ctx.keydir.lookup s.1 = some s.2
  rest_nodup : rest.keys.Nodup
  todo : ∀ k ∈ rest.keys, kd.lookup k = e₀.ctx.keydir.lookup k
  todo_S : ∀ k entry, kd.lookup k = some entry → entry.fileid ∈ S → k ∈ rest.keys
  outside : ∀ k entry, e₀.ctx.keydir.lookup k = some entry → entry.fileid ∉ S →
    kd.lookup k = some entry
  moved : ∀ k entry, e₀.ctx.keydir.lookup k = some entry → entry.fileid ∈ S → k ∉ rest.keys →
    ∃ entry', kd.lookup k = some entry' ∧ e₀.writer.activeFileid < entry'.fileid ∧
      entry'.fileid ≤ m

variable {S e₀} {rest : List (Σ _ : Bytes, KeyDirEntry)} {m pos : Nat} {kd : KeyDir}
  {stats : Stats} {vd : FileMap DataFile} {vh : FileMap HintFile}

/-- A copy moves one key's entry from a file of `S` into merge file `m`: for every file
outside `S` the accounting is kept. -/
theorem FileAccounts.copy {g : Nat} (h : FileAccounts kd stats vd g) {file : DataFile}
    (hf : vd.lookup m = some file) (fr : Frame) {key : Bytes} {old : KeyDirEntry}
    (hk : kd.lookup key = some old) (hg : old.fileid ≠ g) (t : Int) :
    FileAccounts (kd.replace key ⟨m, fr.len, file.size, t⟩) (updateStats stats m .addLive)
      (vd.insert m (file ++ [fr])) g := by
  obtain ⟨hl, hkeys, hbytes⟩ := h
  have hk1 : liveKeysIn _ g + _ = liveKeysIn kd g + _ :=
    total_replace kd key ⟨m, fr.len, file.size, t⟩ (inFile g) (mem_of_lookup hk)
  have hk2 : liveBytesIn _ g + _ = liveBytesIn kd g + _ :=
    total_replace kd key ⟨m, fr.len, file.size, t⟩ (bytesInFile g) (mem_of_lookup hk)
  obtain ⟨a1, a2, a3⟩ := statsOf_addLive stats m g
  obtain ⟨fl, fs⟩ := framesOf_append hf [fr] g
  simp only [hk, weightOf_some, inFile, bytesInFile, hg, if_false, List.length_singleton,
    DataFile.size_cons, DataFile.size_nil, Nat.add_zero] at hk1 hk2 fl fs
  exact ⟨by omega, by omega, by omega⟩

/-- The view may be any directory with the same files. -/
theorem ViewInv.congr {vd' : FileMap DataFile} (h : ViewInv S e₀ rest m pos kd stats vd vh)
    (hl : ∀ g, vd'.lookup g = vd.lookup g) : ViewInv S e₀ rest m pos kd stats vd' vh := by
  have hmem : ∀ g, g ∈ vd' ↔ g ∈ vd := fun g => by
    rw [← AList.lookup_isSome, hl, AList.lookup_isSome]
  have hfr : ∀ g, framesOf vd' g = framesOf vd g := fun g => by simp [framesOf, hl]
  have hlf : lookupFrame vd' kd = lookupFrame vd kd := by funext k; simp [lookupFrame, hl]
  refine { h with
    mergePos := by rw [hfr]; exact h.mergePos
    data_mem := (hmem m).2 h.data_mem
    data_le := fun f hf => h.data_le f ((hmem f).1 hf)
    range_mem := fun j h1 h2 => ⟨(hmem j).2 (h.range_mem j h1 h2).1, (h.range_mem j h1 h2).2⟩
    hints := fun f hint hh => by simpa [hl] using h.hints f hint hh
    valid := fun k en hk => by simpa [EntryValid, hl] using h.valid k en hk
    accounts := fun g hg => by
      obtain ⟨a, b, c⟩ := h.accounts g hg
      exact ⟨a, by rw [hfr]; exact b, by rw [hfr]; exact c⟩
    stats_mem := fun g hg => (hmem g).2 (h.stats_mem g hg)
    old := fun f hf => by rw [hl]; exact h.old f hf
    frames := fun k => by rw [hlf]; exact h.frames k }

/-- **One copy.**  The record of `key`, found at its entry in a file of `S`, goes after
the frames of merge file `m` in the view; the key points at it, it counts live in `m`, and
its hint entry is appended to `m`'s hint file. -/
theorem ViewInv.copy {key : Bytes} {entry : KeyDirEntry}
    (h : ViewInv S e₀ (⟨key, entry⟩ :: rest) m pos kd stats vd vh) (hS : entry.fileid ∈ S)
    {file F : DataFile} {fr : Frame} {hint : HintFile}
    (hfile : vd.lookup entry.fileid = some file) (hr : file.read entry.len entry.pos = some fr)
    (hF : vd.lookup m = some F) (hh : vh.lookup m = some hint) :
    ViewInv S e₀ rest m (pos + fr.len) (kd.replace key ⟨m, fr.len, pos, entry.tstamp⟩)
      (updateStats stats m .addLive) (vd.insert m (F ++ [fr]))
      (vh.insert m (hint ++ [⟨entry.tstamp, fr.len, pos, key⟩])) := by
  have hk0 : e₀.ctx.keydir.lookup key = some entry := h.rest_mem _ (List.mem_cons_self _ _)
  have hk : kd.lookup key = some entry := (h.todo key (by simp [List.keys])).trans hk0
  obtain ⟨file', fr', h1, h2, hkey, hval, hts⟩ := h.valid key entry hk
  rw [hfile] at h1; cases h1; rw [hr] at h2; cases h2
  obtain ⟨F', hF', rfl, hvals⟩ := h.hints m hint hh
  rw [hF] at hF'; cases hF'
  have hmS : m ∉ S := fun hm => by have := h.S_le m hm; have := h.fresh; omega
  have hpos : F.size = pos := by have := h.mergePos; rwa [framesOf_of_lookup hF] at this
  have hkm : key ∈ kd := mem_of_lookup hk
  have hnd := List.nodup_cons.1 h.rest_nodup
  have hx : Extends vd (vd.insert m (F ++ [fr])) := extends_append hF [fr]
  have hread : (F ++ [fr]).read fr.len pos = some fr := DataFile.read_eq_some.2 ⟨by simp [← hpos], rfl⟩
  have hhint : F.hintsOf ++ [⟨entry.tstamp, fr.len, pos, key⟩] = DataFile.hintsOf (F ++ [fr]) := by
    simp [hpos, hkey, hts]
  rw [hhint]
  refine { h with
    mergePos := by simp [hpos]
    data_mem := by simp
    hint_mem := by simp
    data_le := forall_mem_insert h.data_le le_rfl _
    hint_le := forall_mem_insert h.hint_le le_rfl _
    range_mem := fun j h1 h2 => ⟨(AList.mem_insert _).2 (.inr (h.range_mem j h1 h2).1),
      (AList.mem_insert _).2 (.inr (h.range_mem j h1 h2).2)⟩
    hints := h.hints.insert m _ fun x hx =>
      (List.mem_append.1 hx).elim (hvals x) fun hx => List.mem_singleton.1 hx ▸ hval
    valid := ?valid
    accounts := ?accounts
    stats_mem := ?stats_mem
    mergeDead := ?mergeDead
    old := ?old
    frames := ?frames
    rest_mem := fun s hs => h.rest_mem s (List.mem_cons_of_mem _ hs)
    rest_nodup := hnd.2
    todo := ?todo
    todo_S := ?todo_S
    outside := ?outside
    moved := ?moved }
  case valid =>
    intro k en hk'
    by_cases hkk : k = key
    · subst hkk
      rw [lookup_replace_self _ hkm] at hk'
      cases hk'
      exact ⟨F ++ [fr], fr, by simp, hread, hkey, hval, hts⟩
    · rw [lookup_replace_ne _ hkk] at hk'
      exact (h.valid k en hk').mono hx
  case accounts =>
    intro g hg
    have := (h.accounts g hg).copy hF fr hk (fun he => hg (he ▸ hS)) entry.tstamp
    rwa [hpos] at this
  case stats_mem =>
    intro g hg
    rcases (mem_updateStats _ _ _ _).1 hg with rfl | hg
    · simp
    · exact (AList.mem_insert _).2 (.inr (h.stats_mem g hg))
  case mergeDead =>
    intro g hg
    obtain ⟨a, b⟩ := h.mergeDead g hg
    obtain ⟨-, a2, a3⟩ := statsOf_addLive stats m g
    exact ⟨by omega, by omega⟩
  case old =>
    intro f hf
    have hfm : f ≠ m := by have := h.fresh; omega
    simpa [AList.lookup_insert_ne hfm] using h.old f hf
  case frames =>
    intro k
    rw [← h.frames k]
    by_cases hkk : k = key
    · subst hkk
      simp [lookupFrame, lookup_replace_self _ hkm, hread, hk, hfile, hr]
    · have hlf := lookupFrame_mono h.valid hx
      simp only [lookupFrame, lookup_replace_ne _ hkk] at hlf ⊢
      exact congrFun hlf k
  case todo =>
    intro k hk'
    rw [lookup_replace_ne _ fun (he : k = key) => hnd.1 (he ▸ hk')]
    exact h.todo k (by simp [List.keys] at hk' ⊢; exact .inr hk')
  case todo_S =>
    intro k en hk' hen
    by_cases hkk : k = key
    · subst hkk
      rw [lookup_replace_self _ hkm] at hk'
      cases hk'
      exact absurd hen hmS
    · rw [lookup_replace_ne _ hkk] at hk'
      simpa [List.keys, hkk] using h.todo_S k en hk' hen
  case outside =>
    intro k en hk' hen
    have hkk : k ≠ key := by
      rintro rfl
      rw [hk0] at hk'; cases hk'
      exact hen hS
    rw [lookup_replace_ne _ hkk]
    exact h.outside k en hk' hen
  case moved =>
    intro k en hk' hen hkr
    by_cases hkk : k = key
    · subst hkk
      exact ⟨_, lookup_replace_self _ hkm, h.fresh, le_rfl⟩
    · rw [lookup_replace_ne _ hkk]
      exact h.moved k en hk' hen (by simpa [List.keys, hkk] using hkr)

/-- **The next merge file.**  An empty data file and an empty hint file `m + 1` join the
view; nothing else changes. -/
theorem ViewInv.next (h : ViewInv S e₀ rest m pos kd stats vd vh) :
    ViewInv S e₀ rest (m + 1) 0 kd stats (vd.insert (m + 1) []) (vh.insert (m + 1) []) := by
  have hd : m + 1 ∉ vd := fun hm => by have := h.data_le _ hm; omega
  have hh : m + 1 ∉ vh := fun hm => by have := h.hint_le _ hm; omega
  have hfr : ∀ g, framesOf (vd.insert (m + 1) []) g = framesOf vd g := fun g => by
    by_cases hg : g = m + 1
    · subst hg; simp [framesOf, AList.lookup_eq_none.2 hd]
    · simp [hg]
  refine { h with
    fresh := by have := h.fresh; omega
    mergePos := by simp
    data_mem := by simp
    hint_mem := by simp
    data_le := forall_mem_insert (fun f hf => Nat.le_succ_of_le (h.data_le f hf)) le_rfl _
    hint_le := forall_mem_insert (fun f hf => Nat.le_succ_of_le (h.hint_le f hf)) le_rfl _
    range_mem := fun j h1 h2 => ?_
    hints := h.hints.insert (m + 1) [] (by simp)
    valid := fun k en hk => (h.valid k en hk).mono (extends_insert_fresh hd [])
    accounts := fun g hg => by
      obtain ⟨a, b, c⟩ := h.accounts g hg
      exact ⟨a, by rw [hfr]; exact b, by rw [hfr]; exact c⟩
    stats_mem := fun g hg => (AList.mem_insert _).2 (.inr (h.stats_mem g hg))
    old := fun f hf => ?_
    frames := fun k => by rw [lookupFrame_mono h.valid (extends_insert_fresh hd [])]; exact h.frames k
    moved := fun k en hk hen hkr => ?_ }
  · rcases Nat.lt_or_ge m j with hj | hj
    · obtain rfl : j = m + 1 := by omega
      simp
    · exact ⟨(AList.mem_insert _).2 (.inr (h.range_mem j h1 hj).1),
        (AList.mem_insert _).2 (.inr (h.range_mem j h1 hj).2)⟩
  · have hfm : f ≠ m + 1 := by have := h.fresh; omega
    simpa [AList.lookup_insert_ne hfm] using h.old f hf
  · obtain ⟨en', h1, h2, h3⟩ := h.moved k en hk hen hkr
    exact ⟨en', h1, h2, Nat.le_succ_of_le h3⟩

/-- An entry outside `S` is passed over. -/
theorem ViewInv.skip {key : Bytes} {entry : KeyDirEntry}
    (h : ViewInv S e₀ (⟨key, entry⟩ :: rest) m pos kd stats vd vh) (hS : entry.fileid ∉ S) :
    ViewInv S e₀ rest m pos kd stats vd vh := by
  have hk0 : e₀.ctx.keydir.lookup key = some entry := h.rest_mem _ (List.mem_cons_self _ _)
  have hnd := List.nodup_cons.1 h.rest_nodup
  refine { h with
    rest_mem := fun s hs => h.rest_mem s (List.mem_cons_of_mem _ hs)
    rest_nodup := hnd.2
    todo := fun k hk => h.todo k (by simp [List.keys] at hk ⊢; exact .inr hk)
    todo_S := fun k en hk hen => ?_
    moved := fun k en hk hen hkr => ?_ }
  · have hkey := h.todo_S k en hk hen
    rcases List.mem_cons.1 hkey with rfl | hkey
    · rw [h.todo _ (List.mem_cons_self _ _), hk0] at hk
      cases hk
      exact absurd hen hS
    · exact hkey
  · by_cases hkk : k = key
    · subst hkk; rw [hk0] at hk; cases hk; exact absurd hen hS
    · exact h.moved k en hk hen (by simp [List.keys, hkk] at hkr ⊢; exact hkr)

end View

/-! ## The loop -/

section Loop

variable (S : List Nat) (e₀ : Engine)

/-- The copy loop's invariant: `ViewInv` over the directory with the buffer flushed, and
what the loop leaves alone. -/
structure LoopInv (rest : List (Σ _ : Bytes, KeyDirEntry)) (c : MergeCursor) (e : Engine) :
    Prop where
  writer : e.writer = e₀.writer
  merged : e.ctx.merged = e₀.ctx.merged
  noFaults : e.disk.faults = []
  dataWriter : c.datafileWriter.fileid = c.mergeFileid
  hintWriter : c.hintfileWriter.fileid = c.mergeFileid
  created_le : ∀ x ∈ e.disk.created, x.fileid ≤ c.mergeFileid
  created_fresh : e.disk.created.Pairwise Fresh
  view : ViewInv S e₀ rest c.mergeFileid c.mergePos e.ctx.keydir e.ctx.stats
    (e.disk.appendData c.mergeFileid c.datafileWriter.buf).datafiles e.disk.hintfiles

variable {S e₀} {c : MergeCursor} {key : Bytes} {entry : KeyDirEntry}
  {rest : List (Σ _ : Bytes, KeyDirEntry)}

/-- The view after a copy: whatever `write_all` wrote out, the record goes after the merge
file's frames and buffer. -/
theorem MergeCursor.view_copy (hd : c.datafileWriter.fileid = c.mergeFileid) {F₀ : DataFile}
    (hF₀ : e.disk.datafiles.lookup c.mergeFileid = some F₀) (fr : Frame) (key : Bytes)
    (merged : KeyDirEntry) (hint : HintFile) (g : Nat) :
    (((e.writeAll c.datafileWriter fr).1.repoint c key merged hint).disk.appendData
        c.mergeFileid (e.writeAll c.datafileWriter fr).2.buf).datafiles.lookup g =
      ((e.disk.appendData c.mergeFileid c.datafileWriter.buf).datafiles.insert c.mergeFileid
        (F₀ ++ c.datafileWriter.buf ++ [fr])).lookup g := calc
  _ = ((e.writeAll c.datafileWriter fr).1.disk.appendData c.mergeFileid
        (e.writeAll c.datafileWriter fr).2.buf).datafiles.lookup g := by simp [Engine.repoint]
  _ = (e.disk.appendData c.mergeFileid (c.datafileWriter.buf ++ [fr])).datafiles.lookup g := by
    rw [← hd]; exact e.writeAll_view c.datafileWriter fr g
  _ = _ := by
    by_cases hg : g = c.mergeFileid
    · subst hg; simp [hF₀]
    · simp [hg, AList.lookup_insert_ne hg]

/-- The view after a copy that fills the merge file: the switch adds the next one, empty. -/
theorem MergeCursor.view_next (hd : c.datafileWriter.fileid = c.mergeFileid) {F₀ : DataFile}
    (hF₀ : e.disk.datafiles.lookup c.mergeFileid = some F₀) (fr : Frame) (key : Bytes)
    (merged : KeyDirEntry) (hint : HintFile) (g : Nat) :
    ((((e.writeAll c.datafileWriter fr).1.repoint c key merged hint).nextMergeFile
        (e.writeAll c.datafileWriter fr).2 (c.mergeFileid + 1)).disk.appendData
        (c.mergeFileid + 1) []).datafiles.lookup g =
      (((e.disk.appendData c.mergeFileid c.datafileWriter.buf).datafiles.insert c.mergeFileid
        (F₀ ++ c.datafileWriter.buf ++ [fr])).insert (c.mergeFileid + 1) []).lookup g := by
  have hm : (e.writeAll c.datafileWriter fr).2.fileid ≠ c.mergeFileid + 1 := by simp [hd]
  simp only [Disk.appendData_lookup, List.append_nil, Option.map_id',
    Engine.nextMergeFile_lookup _ _ hm]
  by_cases h1 : g = c.mergeFileid + 1
  · subst h1; simp
  · rw [if_neg h1, AList.lookup_insert_ne h1, AList.lookup_insert_ne h1,
      ← c.view_copy hd hF₀ fr key merged hint g, Engine.writeAll_fileid, hd]

/-- One iteration on an entry of `S` succeeds and keeps the invariant. -/
theorem LoopInv.step (h : LoopInv S e₀ (⟨key, entry⟩ :: rest) c e) (hS : entry.fileid ∈ S) :
    ∃ c' e', Writer.mergeEntry conf c key entry e = .ok c' e' ∧ LoopInv S e₀ rest c' e' := by
  have hv := h.view
  have hk : e.ctx.keydir.lookup key = some entry :=
    (hv.todo key (by simp [List.keys])).trans (hv.rest_mem _ (List.mem_cons_self _ _))
  obtain ⟨file, fr, hfile, hr, -⟩ := hv.valid key entry hk
  have hne : entry.fileid ≠ c.mergeFileid := by
    have := hv.S_le _ hS; have := hv.fresh; omega
  have hfile' : e.disk.datafiles.lookup entry.fileid = some file := by simpa [hne] using hfile
  obtain ⟨hint, hh⟩ := Option.isSome_iff_exists.1 (AList.lookup_isSome.2 hv.hint_mem)
  obtain ⟨F, hF⟩ := Option.isSome_iff_exists.1 (AList.lookup_isSome.2 hv.data_mem)
  obtain ⟨F₀, hF₀, rfl⟩ : ∃ F₀, e.disk.datafiles.lookup c.mergeFileid = some F₀ ∧
      F₀ ++ c.datafileWriter.buf = F := by simpa using hF
  have hcopy := hv.copy hS hfile hr hF hh
  rw [Writer.mergeEntry_of_noFaults conf h.noFaults hfile' hr (h.hintWriter ▸ hh)]
  simp only
  split
  · have hlt : ∀ a ∈ e.disk.created, a.fileid < c.mergeFileid + 1 :=
      fun a ha => Nat.lt_succ_of_le (h.created_le a ha)
    refine ⟨_, _, rfl, by simp [h.writer], by simp [h.merged], by simp [h.noFaults], rfl, rfl,
      by simpa using fileid_le_append_pair hlt,
      by simpa using pairwise_fresh_append_pair h.created_fresh hlt, ?_⟩
    simp only [Engine.nextMergeFile_ctx, Engine.nextMergeFile_hintfiles, Engine.repoint_ctx,
      Engine.repoint_hintfiles, Engine.writeAll_ctx, Engine.writeAll_hintfiles, h.hintWriter,
      MergeCursor.entryFor]
    exact hcopy.next.congr (c.view_next h.dataWriter hF₀ fr key _ hint)
  · refine ⟨_, _, rfl, by simp [h.writer], by simp [h.merged], by simp [h.noFaults],
      by simp [h.dataWriter], h.hintWriter, by simpa using h.created_le,
      by simpa using h.created_fresh, ?_⟩
    simp only [Engine.repoint_ctx, Engine.repoint_hintfiles, Engine.writeAll_ctx,
      Engine.writeAll_hintfiles, h.hintWriter, MergeCursor.entryFor]
    exact hcopy.congr (c.view_copy h.dataWriter hF₀ fr key _ hint)

/-- **The copy loop**, from a state with the invariant, succeeds and visits every entry. -/
theorem Writer.mergeLoop_spec : ∀ (rest : List (Σ _ : Bytes, KeyDirEntry)) (c : MergeCursor)
    (e : Engine), LoopInv S e₀ rest c e →
      ∃ c' e', Writer.mergeLoop conf S rest c e = .ok c' e' ∧ LoopInv S e₀ [] c' e'
  | [], c, e, h => ⟨c, e, rfl, h⟩
  | ⟨key, entry⟩ :: rest, c, e, h => by
      by_cases hS : entry.fileid ∈ S
      · obtain ⟨c₁, e₁, h₁, hinv⟩ := h.step conf hS
        obtain ⟨c', e', h', hend⟩ := Writer.mergeLoop_spec rest c₁ e₁ hinv
        exact ⟨c', e', by simp [Writer.mergeLoop, hS, bind, EStateM.bind, h₁, h'], hend⟩
      · obtain ⟨c', e', h', hend⟩ := Writer.mergeLoop_spec rest c e { h with view := h.view.skip hS }
        exact ⟨c', e', by simp [Writer.mergeLoop, hS, h'], hend⟩

end Loop

end Bitcask
