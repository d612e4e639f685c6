import Bitcask.Writer
import Bitcask.Accounting

/-!
# The writer when no file operation fails

With an empty fault plan every primitive succeeds whenever the file it needs exists, and
the writer's operations become plain functions of the engine.  This file names those
functions and proves that the monadic code computes them:

* `Engine.appendRecord` — what `write` leaves before its size check: the record appended
  to the file of the writer's handle and counted in the active file's statistics;
* `Engine.rollover`, `Engine.rolloverIf` — `new_active_datafile`, and the size check
  that calls it;
* `Engine.pointKey`, `Engine.dropKey` — the KeyDir update of `put` and of `delete`, with
  the replaced entry turned dead;
* `Engine.flush`, `Engine.writeAll` — the drop and the `write_all` of the merge
  `BufWriter`: what reaches the merge data file, and what stays in the buffer.

`write_of_noFaults`, `put_of_noFaults` and `delete_of_noFaults` are the evaluation
lemmas; everything later about successful runs starts from them.  `Engine.writeAll_view`
says that a `write_all` appends exactly its record to the data file with the buffer
appended, whatever part of the buffer it writes out.
-/

namespace Bitcask

variable {e : Engine}

/-! ## Primitives -/

theorem fault_of_noFaults (h : e.disk.faults = []) : fault e = .ok false e := by
  simp [fault, h]

theorem syscall_of_noFaults {α : Type} (op : BitcaskM α) (h : e.disk.faults = []) :
    syscall op e = op e := by
  simp [syscall, bind, EStateM.bind, fault_of_noFaults h]

theorem create_of_noFaults (h : e.disk.faults = []) (n : FileName) :
    create n e = .ok () { e with disk := e.disk.create n } := by
  simp [create, syscall_of_noFaults _ h, modifyDisk, modify, modifyGet,
    MonadStateOf.modifyGet, EStateM.modifyGet]

theorem LogWriter.new_of_noFaults (h : e.disk.faults = []) (f : Nat) :
    LogWriter.new f e = .ok ⟨f⟩ e := by
  simp [LogWriter.new, syscall_of_noFaults _ h, pure, EStateM.pure]

theorem LogDir.get_of_lookup {f : Nat} {file : DataFile}
    (hf : e.disk.datafiles.lookup f = some file) : LogDir.get f e = .ok file e := by
  simp [LogDir.get, hf, bind, EStateM.bind, getThe, MonadStateOf.get, EStateM.get, pure,
    EStateM.pure]

theorem LogWriter.append_of_noFaults (h : e.disk.faults = []) (w : LogWriter) (codec : Codec)
    (entry : DataFileEntry) {file : DataFile} (hf : e.disk.datafiles.lookup w.fileid = some file) :
    w.append codec entry e = .ok ⟨codec.len entry, file.size⟩
      { e with disk := e.disk.setData w.fileid (file ++ [codec.frame entry]) } := by
  simp [LogWriter.append, syscall_of_noFaults _ h, LogDir.get_of_lookup hf, bind, EStateM.bind,
    modifyDisk, modify, modifyGet, MonadStateOf.modifyGet, EStateM.modifyGet, pure, EStateM.pure]

theorem LogWriter.appendHint_of_noFaults (h : e.disk.faults = []) (w : LogWriter)
    (entry : HintFileEntry) {hint : HintFile} (hf : e.disk.hintfiles.lookup w.fileid = some hint) :
    w.appendHint entry e = .ok () { e with disk := e.disk.setHint w.fileid (hint ++ [entry]) } := by
  simp [LogWriter.appendHint, syscall_of_noFaults _ h, hf, bind, EStateM.bind, getThe,
    MonadStateOf.get, EStateM.get, modifyDisk, modify, modifyGet, MonadStateOf.modifyGet,
    EStateM.modifyGet]

/-- What dropping the `BufWriter` `w` leaves when nothing fails: its buffer flushed. -/
def Engine.flush (e : Engine) (w : BufWriter) : Engine :=
  if w.buf.isEmpty then e else { e with disk := e.disk.appendData w.fileid w.buf }

@[simp] theorem Engine.flush_ctx (e : Engine) (w : BufWriter) : (e.flush w).ctx = e.ctx := by
  unfold Engine.flush; split <;> rfl
@[simp] theorem Engine.flush_writer (e : Engine) (w : BufWriter) :
    (e.flush w).writer = e.writer := by
  unfold Engine.flush; split <;> rfl
@[simp] theorem Engine.flush_faults (e : Engine) (w : BufWriter) :
    (e.flush w).disk.faults = e.disk.faults := by
  unfold Engine.flush; split <;> simp
@[simp] theorem Engine.flush_created (e : Engine) (w : BufWriter) :
    (e.flush w).disk.created = e.disk.created := by
  unfold Engine.flush; split <;> simp
@[simp] theorem Engine.flush_hintfiles (e : Engine) (w : BufWriter) :
    (e.flush w).disk.hintfiles = e.disk.hintfiles := by
  unfold Engine.flush; split <;> simp

/-- Flushing reaches the files as appending the buffer does. -/
theorem Engine.lookup_flush (e : Engine) (w : BufWriter) (g : Nat) :
    (e.flush w).disk.datafiles.lookup g = (e.disk.appendData w.fileid w.buf).datafiles.lookup g := by
  unfold Engine.flush
  split
  · rename_i hw
    rw [List.isEmpty_iff.1 hw]
    by_cases hg : g = w.fileid
    · subst hg; cases hl : e.disk.datafiles.lookup w.fileid <;> simp [hl]
    · simp [hg]
  · rfl

theorem BufWriter.flushBuf_of_noFaults (h : e.disk.faults = []) (w : BufWriter) :
    w.flushBuf e = .ok { w with buf := [] } (e.flush w) := by
  unfold BufWriter.flushBuf Engine.flush
  split
  · rename_i hw
    obtain ⟨f, b⟩ := w
    simp only [List.isEmpty_iff] at hw
    subst hw
    rfl
  · simp [syscall_of_noFaults _ h, bind, EStateM.bind, modifyDisk, modify, modifyGet,
      MonadStateOf.modifyGet, EStateM.modifyGet, pure, EStateM.pure]

/-- What `write_all` of `fr` through `w` leaves when nothing fails: the engine, whose merge
data file holds what the `BufWriter` wrote out, and the writer. -/
def Engine.writeAll (e : Engine) (w : BufWriter) (fr : Frame) : Engine × BufWriter :=
  if fr.len < BufWriter.capacity - DataFile.size w.buf then (e, { w with buf := w.buf ++ [fr] })
  else if BufWriter.capacity ≤ fr.len then
    ({ e with disk := (e.flush w).disk.appendData w.fileid [fr] }, { w with buf := [] })
  else if BufWriter.capacity - DataFile.size w.buf < fr.len then (e.flush w, { w with buf := [fr] })
  else (e, { w with buf := w.buf ++ [fr] })

theorem BufWriter.writeAll_of_noFaults (h : e.disk.faults = []) (w : BufWriter) (fr : Frame) :
    w.writeAll fr e = .ok (e.writeAll w fr).2 (e.writeAll w fr).1 := by
  unfold BufWriter.writeAll Engine.writeAll
  have hfl : (e.flush w).disk.faults = [] := by simp [h]
  by_cases h1 : fr.len < BufWriter.capacity - DataFile.size w.buf
  · simp [h1, pure, EStateM.pure]
  by_cases h2 : BufWriter.capacity - DataFile.size w.buf < fr.len
  · by_cases h3 : BufWriter.capacity ≤ fr.len <;>
      simp [h1, h2, h3, bind, EStateM.bind, BufWriter.flushBuf_of_noFaults h,
        syscall_of_noFaults _ hfl, modifyDisk, modify, modifyGet, MonadStateOf.modifyGet,
        EStateM.modifyGet, pure, EStateM.pure]
  by_cases h3 : BufWriter.capacity ≤ fr.len
  · -- the record fills the spare capacity exactly and is at least the capacity: the buffer
    -- is empty, and the record is written straight through
    obtain ⟨f, b⟩ := w
    obtain rfl : b = [] := by
      cases b with
      | nil => rfl
      | cons g rest => have := g.len_pos; have := fr.len_pos; simp at h1 h2; omega
    simp only [DataFile.size_nil, Nat.sub_zero] at h1 h2
    simp [h1, h2, h3, bind, EStateM.bind, syscall_of_noFaults _ h, Engine.flush, modifyDisk,
      modify, modifyGet, MonadStateOf.modifyGet, EStateM.modifyGet, pure, EStateM.pure]
  · simp [h1, h2, h3, bind, EStateM.bind, pure, EStateM.pure]

@[simp] theorem Engine.writeAll_ctx (e : Engine) (w : BufWriter) (fr : Frame) :
    (e.writeAll w fr).1.ctx = e.ctx := by
  unfold Engine.writeAll; split_ifs <;> simp
@[simp] theorem Engine.writeAll_writer (e : Engine) (w : BufWriter) (fr : Frame) :
    (e.writeAll w fr).1.writer = e.writer := by
  unfold Engine.writeAll; split_ifs <;> simp
@[simp] theorem Engine.writeAll_faults (e : Engine) (w : BufWriter) (fr : Frame) :
    (e.writeAll w fr).1.disk.faults = e.disk.faults := by
  unfold Engine.writeAll; split_ifs <;> simp
@[simp] theorem Engine.writeAll_created (e : Engine) (w : BufWriter) (fr : Frame) :
    (e.writeAll w fr).1.disk.created = e.disk.created := by
  unfold Engine.writeAll; split_ifs <;> simp
@[simp] theorem Engine.writeAll_hintfiles (e : Engine) (w : BufWriter) (fr : Frame) :
    (e.writeAll w fr).1.disk.hintfiles = e.disk.hintfiles := by
  unfold Engine.writeAll; split_ifs <;> simp
@[simp] theorem Engine.writeAll_fileid (e : Engine) (w : BufWriter) (fr : Frame) :
    (e.writeAll w fr).2.fileid = w.fileid := by
  unfold Engine.writeAll; split_ifs <;> rfl

/-- `write_all` writes only to its writer's file. -/
theorem Engine.writeAll_lookup_ne (e : Engine) (w : BufWriter) (fr : Frame) {g : Nat}
    (hg : g ≠ w.fileid) :
    (e.writeAll w fr).1.disk.datafiles.lookup g = e.disk.datafiles.lookup g := by
  unfold Engine.writeAll; split_ifs <;> simp [Engine.lookup_flush, hg]

/-- **Whatever `write_all` writes out, the file with the buffer appended gains exactly the
record**: buffered, flushed first, or written straight through. -/
theorem Engine.writeAll_lookup_self (e : Engine) (w : BufWriter) (fr : Frame) :
    ((e.writeAll w fr).1.disk.datafiles.lookup w.fileid).map (· ++ (e.writeAll w fr).2.buf) =
      (e.disk.datafiles.lookup w.fileid).map (· ++ (w.buf ++ [fr])) := by
  unfold Engine.writeAll
  split_ifs <;> simp [Engine.lookup_flush, Option.map_map, Function.comp_def]

/-- **`write_all` appends exactly the record to the view**: the directory with the buffer
appended gains `fr` after the buffer and nothing else. -/
theorem Engine.writeAll_view (e : Engine) (w : BufWriter) (fr : Frame) (g : Nat) :
    ((e.writeAll w fr).1.disk.appendData w.fileid (e.writeAll w fr).2.buf).datafiles.lookup g =
      (e.disk.appendData w.fileid (w.buf ++ [fr])).datafiles.lookup g := by
  rw [Disk.appendData_lookup, Disk.appendData_lookup]
  split_ifs with hg
  · subst hg; exact e.writeAll_lookup_self w fr
  · exact e.writeAll_lookup_ne w fr hg

theorem copyRaw_of_noFaults (h : e.disk.faults = []) {fileid len pos : Nat} {file : DataFile}
    {fr : Frame} (hf : e.disk.datafiles.lookup fileid = some file)
    (hr : file.read len pos = some fr) (w : BufWriter) :
    copyRaw fileid len pos w e = .ok ((e.writeAll w fr).2, fr.len) (e.writeAll w fr).1 := by
  simp [copyRaw, syscall_of_noFaults _ h, LogDir.get_of_lookup hf, hr, bind, EStateM.bind,
    BufWriter.writeAll_of_noFaults h, pure, EStateM.pure]

theorem BufWriter.drop_of_noFaults (h : e.disk.faults = []) (w : BufWriter) :
    w.drop e = .ok () (e.flush w) := by
  unfold BufWriter.drop Engine.flush
  split
  · simp_all [pure, EStateM.pure]
  · simp_all [bind, EStateM.bind, fault_of_noFaults h, modifyDisk, modify, modifyGet,
      MonadStateOf.modifyGet, EStateM.modifyGet]

theorem removeFile_of_noFaults (h : e.disk.faults = []) (n : FileName) :
    removeFile n e = if e.disk.contains n then .ok () { e with disk := e.disk.remove n }
      else .error (.io .notFound) e := by
  simp only [removeFile, syscall_of_noFaults _ h, bind, EStateM.bind, getThe, MonadStateOf.get,
    EStateM.get]
  split <;> simp_all [modifyDisk, modify, modifyGet, MonadStateOf.modifyGet, EStateM.modifyGet,
    throw, throwThe, MonadExceptOf.throw, EStateM.throw]

theorem metadataLen_of_noFaults (h : e.disk.faults = []) {f : Nat} {file : DataFile}
    (hf : e.disk.datafiles.lookup f = some file) : metadataLen f e = .ok file.size e := by
  simp [metadataLen, syscall_of_noFaults _ h, LogDir.get_of_lookup hf, bind, EStateM.bind,
    pure, EStateM.pure]

/-! ## The writer's operations -/

/-- What `new_active_datafile` leaves when nothing fails. -/
def Engine.rollover (e : Engine) (fileid : Nat) : Engine :=
  { e with writer := ⟨⟨fileid⟩, fileid, 0⟩, disk := e.disk.create (.data fileid) }

/-- The size check at the end of `write`. -/
def Engine.rolloverIf (conf : Config) (e : Engine) : Engine :=
  if conf.maxFileSize < e.writer.writtenBytes then e.rollover (e.writer.activeFileid + 1) else e

/-- What `write` leaves before its size check: the record appended through the writer's
handle and counted in the statistics of the active file. -/
def Engine.appendRecord (codec : Codec) (e : Engine) (file : DataFile) (entry : DataFileEntry) :
    Engine :=
  let stats := updateStats e.ctx.stats e.writer.activeFileid
    (recordStats entry.value (codec.len entry))
  { e with
    disk := e.disk.setData e.writer.writer.fileid (file ++ [codec.frame entry])
    writer := { e.writer with writtenBytes := e.writer.writtenBytes + codec.len entry }
    ctx := { e.ctx with stats } }

/-- The KeyDir update of `put`: point `key` at `entry`; the entry it replaces turns dead. -/
def Engine.pointKey (e : Engine) (key : Bytes) (entry : KeyDirEntry) : Engine :=
  let stats := overwritePrev e.ctx.stats (e.ctx.keydir.lookup key)
  { e with ctx := { e.ctx with keydir := e.ctx.keydir.insert key entry, stats } }

/-- The KeyDir update of `delete`: remove `key`; the entry it had turns dead. -/
def Engine.dropKey (e : Engine) (key : Bytes) : Engine :=
  let stats := overwritePrev e.ctx.stats (e.ctx.keydir.lookup key)
  { e with ctx := { e.ctx with keydir := e.ctx.keydir.erase key, stats } }

@[simp] theorem Engine.rollover_ctx (e : Engine) (f : Nat) : (e.rollover f).ctx = e.ctx := rfl
@[simp] theorem Engine.rollover_faults (e : Engine) (f : Nat) :
    (e.rollover f).disk.faults = e.disk.faults := by simp [Engine.rollover]
@[simp] theorem Engine.rolloverIf_ctx (conf : Config) (e : Engine) :
    (e.rolloverIf conf).ctx = e.ctx := by
  unfold Engine.rolloverIf; split <;> rfl
@[simp] theorem Engine.rolloverIf_faults (conf : Config) (e : Engine) :
    (e.rolloverIf conf).disk.faults = e.disk.faults := by
  unfold Engine.rolloverIf; split <;> simp
@[simp] theorem Engine.appendRecord_faults (codec : Codec) (e : Engine) (file entry) :
    (e.appendRecord codec file entry).disk.faults = e.disk.faults := rfl
@[simp] theorem Engine.appendRecord_keydir (codec : Codec) (e : Engine) (file entry) :
    (e.appendRecord codec file entry).ctx.keydir = e.ctx.keydir := rfl

theorem Writer.newActiveDatafile_of_noFaults (h : e.disk.faults = []) (f : Nat) :
    Writer.newActiveDatafile f e = .ok () (e.rollover f) := by
  simp [Writer.newActiveDatafile, bind, EStateM.bind, modifyWriter, modify, modifyGet,
    MonadStateOf.modifyGet, EStateM.modifyGet, create_of_noFaults, h, LogWriter.new_of_noFaults,
    Engine.rollover]

variable (conf : Config) (codec : Codec)

theorem Writer.write_of_noFaults (h : e.disk.faults = []) {file : DataFile}
    (hf : e.disk.datafiles.lookup e.writer.writer.fileid = some file) (t : Int) (k : Bytes)
    (v : Option Bytes) :
    Writer.write conf codec t k v e =
      .ok ⟨e.writer.activeFileid, codec.len ⟨t, k, v⟩, file.size, t⟩
        ((e.appendRecord codec file ⟨t, k, v⟩).rolloverIf conf) := by
  simp only [Writer.write, bind, EStateM.bind, getThe, MonadStateOf.get, EStateM.get,
    LogWriter.append_of_noFaults h _ _ _ hf, modifyWriter, modifyCtx, modify, modifyGet,
    MonadStateOf.modifyGet, EStateM.modifyGet]
  unfold Engine.rolloverIf Engine.appendRecord
  split
  · simp [Writer.newActiveDatafile_of_noFaults, h, EStateM.bind, pure, EStateM.pure]
  · simp [EStateM.bind, pure, EStateM.pure]

theorem Writer.put_of_noFaults (h : e.disk.faults = []) {file : DataFile}
    (hf : e.disk.datafiles.lookup e.writer.writer.fileid = some file) (t : Int) (k v : Bytes) :
    Writer.put conf codec t k v e =
      .ok () (((e.appendRecord codec file ⟨t, k, some v⟩).rolloverIf conf).pointKey k
        ⟨e.writer.activeFileid, codec.len ⟨t, k, some v⟩, file.size, t⟩) := by
  simp only [Writer.put, bind, EStateM.bind, Writer.write_of_noFaults conf codec h hf, getThe,
    MonadStateOf.get, EStateM.get, modifyCtx, modify, modifyGet, MonadStateOf.modifyGet,
    EStateM.modifyGet]
  cases hp : e.ctx.keydir.lookup k <;>
    simp [Engine.pointKey, overwritePrev, hp, pure, EStateM.pure, EStateM.bind, modifyCtx, modify,
      modifyGet, MonadStateOf.modifyGet, EStateM.modifyGet]

/-- Deleting an absent key changes nothing in memory. -/
theorem Engine.dropKey_of_lookup_none {k : Bytes} (h : e.ctx.keydir.lookup k = none) :
    e.dropKey k = e := by
  unfold Engine.dropKey
  rw [h, erase_of_not_mem (AList.lookup_eq_none.1 h)]
  rfl

theorem Writer.delete_of_noFaults (h : e.disk.faults = []) {file : DataFile}
    (hf : e.disk.datafiles.lookup e.writer.writer.fileid = some file) (t : Int) (k : Bytes) :
    Writer.delete conf codec t k e =
      .ok (e.ctx.keydir.lookup k).isSome
        (((e.appendRecord codec file ⟨t, k, none⟩).rolloverIf conf).dropKey k) := by
  simp only [Writer.delete, bind, EStateM.bind, Writer.write_of_noFaults conf codec h hf, getThe,
    MonadStateOf.get, EStateM.get, modifyCtx, modify, modifyGet, MonadStateOf.modifyGet,
    EStateM.modifyGet]
  cases hp : e.ctx.keydir.lookup k with
  | none =>
    rw [Engine.dropKey_of_lookup_none (by simpa using hp)]
    simp [hp, pure, EStateM.pure]
  | some prev =>
    simp [Engine.dropKey, overwritePrev, hp, pure, EStateM.pure, EStateM.bind, modifyCtx, modify,
      modifyGet, MonadStateOf.modifyGet, EStateM.modifyGet]

end Bitcask
