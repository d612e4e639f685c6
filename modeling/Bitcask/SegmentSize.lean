import Bitcask.Run

/-!
# Segment sizes

`Writer::write` rolls the active file over once the bytes written to it exceed
`max_file_size`, and the copy loop of `Writer::merge` starts a new merge file once its
position does.  Both check after the record is written, so a file can pass the threshold,
but only by its last record.

## Main Definitions

* `SegmentsBounded` — every data file holds at most the threshold's bytes before its last
  record.
* `SizeInv` — the engine's files are bounded so, and its active file has not passed the
  threshold.

## Main Statements

* `Writer.mergeLoop_sizes` — the copy loop keeps the bound over the directory it writes,
  its buffer flushed.
* `Reachable.sizeInv` — every reachable state satisfies `SizeInv`.
* `segment_size_bounded` — the same, as a statement about the directory.
-/

namespace Bitcask

/-- Every data file holds at most `limit` bytes before its last record. -/
def SegmentsBounded (limit : Nat) (files : FileMap DataFile) : Prop :=
  ∀ f file, files.lookup f = some file → DataFile.size (List.dropLast file) ≤ limit

section Bounded

variable {limit : Nat} {files : FileMap DataFile}

theorem SegmentsBounded.congr (h : SegmentsBounded limit files) {files' : FileMap DataFile}
    (hl : ∀ g, files'.lookup g = files.lookup g) : SegmentsBounded limit files' :=
  fun f file hf => h f file ((hl f).symm.trans hf)

/-- Fewer files, or the same ones, stay bounded. -/
theorem SegmentsBounded.sub (h : SegmentsBounded limit files) {files' : FileMap DataFile}
    (hs : ∀ g file, files'.lookup g = some file → files.lookup g = some file) :
    SegmentsBounded limit files' :=
  fun g file hg => h g file (hs g file hg)

/-- A file within the threshold may take one more record. -/
theorem SegmentsBounded.append (h : SegmentsBounded limit files) (f : Nat) {file : DataFile}
    (hsize : file.size ≤ limit) (fr : Frame) :
    SegmentsBounded limit (files.insert f (file ++ [fr])) := by
  intro g file' hg
  by_cases hgf : g = f
  · subst hgf
    rw [AList.lookup_insert, Option.some_inj] at hg
    subst hg
    rwa [List.dropLast_concat]
  · exact h g file' (by rwa [AList.lookup_insert_ne hgf] at hg)

/-- A new file is empty. -/
theorem SegmentsBounded.insert_empty (h : SegmentsBounded limit files) (f : Nat) :
    SegmentsBounded limit (files.insert f []) := by
  intro g file' hg
  by_cases hgf : g = f
  · subst hgf
    rw [AList.lookup_insert, Option.some_inj] at hg
    subst hg
    simp
  · exact h g file' (by rwa [AList.lookup_insert_ne hgf] at hg)

end Bounded

/-- The size invariant of an engine: its files are bounded by `max_file_size` but for their
last record, and the active file has not passed the threshold. -/
structure SizeInv (conf : Config) (e : Engine) : Prop where
  segments : SegmentsBounded conf.maxFileSize e.disk.datafiles
  written : e.writer.writtenBytes ≤ conf.maxFileSize

variable {conf : Config} {codec : Codec} {e e' : Engine}

/-- The size check at the end of `write` puts the active file back within the threshold. -/
theorem SizeInv.rolloverIf (h : SegmentsBounded conf.maxFileSize e.disk.datafiles) :
    SizeInv conf (e.rolloverIf conf) := by
  unfold Engine.rolloverIf
  split
  · exact ⟨by simpa [Engine.rollover] using h.insert_empty _, Nat.zero_le _⟩
  · exact ⟨h, by omega⟩

/-- `Bitcask::open` keeps the directory's files and starts an empty active file. -/
theorem SizeInv.of_open {d : Disk} (hd : DiskInv d)
    (hb : SegmentsBounded conf.maxFileSize d.datafiles) (hopen : Engine.open d = .ok e) :
    SizeInv conf e := by
  obtain ⟨e', h1, hinv, hdisk⟩ := Engine.open_spec hd
  rw [hopen] at h1; cases h1
  have hw := hinv.writer.writtenBytes
  rw [hdisk] at hw
  simp only [Disk.create_data_datafiles, framesOf_insert, if_pos, DataFile.size_nil] at hw
  refine ⟨?_, by omega⟩
  rw [hdisk, Disk.create_data_datafiles]
  exact hb.insert_empty _

/-! ## The copy loop -/

section Loop

variable {S : List Nat} {e₀ : Engine} {c : MergeCursor} {key : Bytes} {entry : KeyDirEntry}
  {rest : List (Σ _ : Bytes, KeyDirEntry)}

/-- One copy keeps the bound over the directory with the merge buffer flushed: the merge
data file, within the threshold before the copy, takes the copied record, and a switch to
the next merge file adds that one empty. -/
theorem LoopInv.step_sizes (h : LoopInv S e₀ (⟨key, entry⟩ :: rest) c e) (hS : entry.fileid ∈ S)
    (hb : SegmentsBounded conf.maxFileSize
      (e.disk.appendData c.mergeFileid c.datafileWriter.buf).datafiles)
    (hpos : c.mergePos ≤ conf.maxFileSize) {c' : MergeCursor}
    (hrun : Writer.mergeEntry conf c key entry e = .ok c' e') :
    SegmentsBounded conf.maxFileSize
        (e'.disk.appendData c'.mergeFileid c'.datafileWriter.buf).datafiles ∧
      c'.mergePos ≤ conf.maxFileSize := by
  have hv := h.view
  have hk : e.ctx.keydir.lookup key = some entry :=
    (hv.todo key (by simp [List.keys])).trans (hv.rest_mem _ (List.mem_cons_self _ _))
  obtain ⟨file, fr, hfile, hr, -⟩ := hv.valid key entry hk
  have hne : entry.fileid ≠ c.mergeFileid := by
    have := hv.S_le _ hS; have := hv.fresh; omega
  have hfile' : e.disk.datafiles.lookup entry.fileid = some file := by simpa [hne] using hfile
  obtain ⟨hint, hh⟩ := Option.isSome_iff_exists.1 (AList.lookup_isSome.2 hv.hint_mem)
  obtain ⟨F, hF⟩ := Option.isSome_iff_exists.1 (AList.lookup_isSome.2 hv.data_mem)
  obtain ⟨F₀, hF₀, rfl⟩ : ∃ F₀, e.disk.datafiles.lookup c.mergeFileid = some F₀ ∧
      F₀ ++ c.datafileWriter.buf = F := by simpa using hF
  -- the merge data file holds `merge_pos` bytes, within the threshold
  have hsize : (F₀ ++ c.datafileWriter.buf).size ≤ conf.maxFileSize := by
    have := hv.mergePos
    rw [framesOf_of_lookup hF] at this
    omega
  have happ := hb.append c.mergeFileid hsize fr
  rw [Writer.mergeEntry_of_noFaults conf h.noFaults hfile' hr (h.hintWriter ▸ hh)] at hrun
  simp only at hrun
  split at hrun <;> cases hrun
  · -- the switch to the next merge file
    exact ⟨(happ.insert_empty (c.mergeFileid + 1)).congr
      (c.view_next h.dataWriter hF₀ fr key _ hint), Nat.zero_le _⟩
  · exact ⟨happ.congr (c.view_copy h.dataWriter hF₀ fr key _ hint), by simp only; omega⟩

/-- **The copy loop keeps the bound** over the directory it writes, its buffer flushed. -/
theorem Writer.mergeLoop_sizes : ∀ (rest : List (Σ _ : Bytes, KeyDirEntry)) (c : MergeCursor)
    (e : Engine), LoopInv S e₀ rest c e →
      SegmentsBounded conf.maxFileSize
        (e.disk.appendData c.mergeFileid c.datafileWriter.buf).datafiles →
      c.mergePos ≤ conf.maxFileSize → ∀ {c' : MergeCursor} {e' : Engine},
      Writer.mergeLoop conf S rest c e = .ok c' e' →
        SegmentsBounded conf.maxFileSize
          (e'.disk.appendData c'.mergeFileid c'.datafileWriter.buf).datafiles
  | [], _, _, _, hb, _, _, _, hrun => by cases hrun; exact hb
  | ⟨key, entry⟩ :: rest, c, e, h, hb, hpos, c', e', hrun => by
      by_cases hS : entry.fileid ∈ S
      · obtain ⟨c₁, e₁, h₁, hinv⟩ := h.step conf hS
        obtain ⟨hb₁, hpos₁⟩ := h.step_sizes hS hb hpos h₁
        exact Writer.mergeLoop_sizes rest c₁ e₁ hinv hb₁ hpos₁
          (by simpa [Writer.mergeLoop, hS, bind, EStateM.bind, h₁] using hrun)
      · exact Writer.mergeLoop_sizes rest c e { h with view := h.view.skip hS } hb hpos
          (by simpa [Writer.mergeLoop, hS] using hrun)

end Loop

/-- A merge keeps `SizeInv`: the files it keeps are unchanged, the merge files are bounded
by the loop, and the new active file is empty. -/
theorem SizeInv.mergeFiles {S : List Nat} (h : Inv e) (hs : SizeInv conf e)
    (hS : ∀ f ∈ S, f ∈ e.ctx.stats)
    (hrun : Writer.mergeFiles conf S (e.writer.activeFileid + 1) e = .ok () e') :
    SizeInv conf e' := by
  obtain ⟨c, e₂, hloop, hl⟩ := Writer.mergeLoop_spec conf _ _ _ (LoopInv.start h hS)
  rw [Writer.mergeFiles_of_loop conf h.writer.below.noFaults hloop hl.noFaults] at hrun
  cases hrun
  have hb := Writer.mergeLoop_sizes _ _ _ (LoopInv.start h hS)
    ((hs.segments.insert_empty (e.writer.activeFileid + 1)).congr fun g => by
      by_cases hg : g = e.writer.activeFileid + 1
      · subst hg; simp
      · simp [hg, AList.lookup_insert_ne hg])
    (Nat.zero_le _) hloop
  refine ⟨?_, Nat.zero_le _⟩
  simp only [Engine.rollover, Disk.create_data_datafiles, foldl_forget, Engine.markMerged]
  refine (hb.sub fun g file hg => ?_).insert_empty _
  rw [lookup_foldl_erase] at hg
  split at hg
  · cases hg
  · rwa [Engine.lookup_flush, hl.dataWriter] at hg

/-- Every step keeps `SizeInv`. -/
theorem SizeInv.step {op : Op} {out : Option Bool} (h : Inv e) (hs : SizeInv conf e)
    (hst : Step conf codec e op out e') : SizeInv conf e' := by
  obtain ⟨file, hf⟩ := h.activeFile
  have hsize : file.size ≤ conf.maxFileSize := by
    have := h.writer.writtenBytes
    rw [framesOf_of_lookup hf] at this
    exact this ▸ hs.written
  -- `write` appends to the active file, within the threshold, then checks the size
  have hwrite : ∀ entry, SizeInv conf ((e.appendRecord codec file entry).rolloverIf conf) :=
    fun entry => SizeInv.rolloverIf (by
      simp only [Engine.appendRecord, Disk.setData_datafiles, h.writer.handle]
      exact hs.segments.append _ hsize _)
  cases hst with
  | put t key value hrun =>
      rw [Writer.put_of_noFaults conf codec h.writer.below.noFaults (h.writer.handle ▸ hf)] at hrun
      cases hrun
      exact ⟨(hwrite _).segments, (hwrite _).written⟩
  | delete t key hrun =>
      rw [Writer.delete_of_noFaults conf codec h.writer.below.noFaults (h.writer.handle ▸ hf)]
        at hrun
      cases hrun
      exact ⟨(hwrite _).segments, (hwrite _).written⟩
  | merge S hS hrun => exact hs.mergeFiles h hS hrun

/-- **Every reachable state satisfies `SizeInv`.** -/
theorem Reachable.sizeInv (h : Reachable conf codec e) : SizeInv conf e := by
  induction h with
  | «open» hopen => exact SizeInv.of_open diskInv_empty (fun _ _ h => by simp [Disk.empty] at h) hopen
  | step hr hs ih => exact ih.step hr.inv hs
  | reopen hr hopen ih => exact SizeInv.of_open hr.inv.diskInv ih.segments hopen

/-- **Files pass `max_file_size` only by their last record.**  In every reachable state,
every data file, whether active, rolled over or written by a merge, holds at most
`max_file_size` bytes before its last record, and the active file holds at most
`max_file_size` bytes. -/
theorem segment_size_bounded (h : Reachable conf codec e) :
    (∀ f file, e.disk.datafiles.lookup f = some file →
      DataFile.size (List.dropLast file) ≤ conf.maxFileSize) ∧
      (framesOf e.disk.datafiles e.writer.activeFileid).size ≤ conf.maxFileSize :=
  ⟨h.sizeInv.segments, h.inv.writer.writtenBytes ▸ h.sizeInv.written⟩

/-- With `max_file_size` `30`, two puts of 27-byte records: the second takes file `0` to
54 bytes and rolls the writer over to file `1`. -/
theorem segment_size_bounded_rollover :
    ∃ e, Reachable ⟨1, 30, ⟨0, 0, 0⟩⟩ Codec.sample e ∧ e.writer.activeFileid = 1 ∧
      (framesOf e.disk.datafiles 0).size = 54 ∧
      ((∀ f file, e.disk.datafiles.lookup f = some file → DataFile.size (List.dropLast file) ≤ 30) ∧
        (framesOf e.disk.datafiles e.writer.activeFileid).size ≤ 30) := by
  have h : Reachable ⟨1, 30, ⟨0, 0, 0⟩⟩ Codec.sample _ :=
    .step (.step (.open Engine.open_empty) (.put 0 [1] [2] rfl)) (.put 1 [1] [3] rfl)
  exact ⟨_, h, rfl, rfl, segment_size_bounded h⟩

end Bitcask
