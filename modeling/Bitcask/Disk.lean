import Bitcask.Log

/-!
# The directory and the writer's file operations

Every file operation the writer performs is one of the primitives below.  Each consults
the directory's fault plan first (`syscall`): the environment decides which operations
fail, and on a failure the operation changes nothing but the plan.  With an empty plan no
operation fails, and every primitive has an evaluation lemma (`create_of_noFaults`, ...)
saying what it does then.

Two primitives are not plain `?`-propagating calls in the source:

* `BufWriter.drop` — dropping a `BufWriter` flushes its buffer and, as `Drop` cannot
  return an error, discards a failed flush: the buffered bytes are lost and the caller
  goes on;
* `removeFile` — `fs::remove_file` reports a missing file as `NotFound`, which `merge`
  inspects.

Reads (`LogDir.get`) fail only on a missing file: the reader side of the engine is not
subjected to injected faults.
-/

namespace Bitcask

namespace Disk

/-- Whether the named file exists. -/
def contains (d : Disk) : FileName → Bool
  | .data f => f ∈ d.datafiles
  | .hint f => f ∈ d.hintfiles

/-- Replace the contents of a data file. -/
def setData (d : Disk) (fileid : Nat) (file : DataFile) : Disk :=
  { d with datafiles := d.datafiles.insert fileid file }

/-- Replace the contents of a hint file. -/
def setHint (d : Disk) (fileid : Nat) (hint : HintFile) : Disk :=
  { d with hintfiles := d.hintfiles.insert fileid hint }

/-- Write frames at the end of a data file; bytes written to an unlinked file vanish. -/
def appendData (d : Disk) (fileid : Nat) (frames : List Frame) : Disk :=
  match d.datafiles.lookup fileid with
  | some file => d.setData fileid (file ++ frames)
  | none => d

/-- `log::create`: the named file, empty, recorded in the ghost list of creations. -/
def create (d : Disk) (name : FileName) : Disk :=
  match name with
  | .data f => { d with datafiles := d.datafiles.insert f [], created := d.created ++ [name] }
  | .hint f => { d with hintfiles := d.hintfiles.insert f [], created := d.created ++ [name] }

/-- Unlink the named file. -/
def remove (d : Disk) : FileName → Disk
  | .data f => { d with datafiles := d.datafiles.erase f }
  | .hint f => { d with hintfiles := d.hintfiles.erase f }

@[simp] theorem setData_datafiles (d : Disk) (f : Nat) (file : DataFile) :
    (d.setData f file).datafiles = d.datafiles.insert f file := rfl
@[simp] theorem setData_hintfiles (d : Disk) (f : Nat) (file : DataFile) :
    (d.setData f file).hintfiles = d.hintfiles := rfl
@[simp] theorem setData_faults (d : Disk) (f : Nat) (file : DataFile) :
    (d.setData f file).faults = d.faults := rfl
@[simp] theorem setData_created (d : Disk) (f : Nat) (file : DataFile) :
    (d.setData f file).created = d.created := rfl
@[simp] theorem setHint_datafiles (d : Disk) (f : Nat) (h : HintFile) :
    (d.setHint f h).datafiles = d.datafiles := rfl
@[simp] theorem setHint_hintfiles (d : Disk) (f : Nat) (h : HintFile) :
    (d.setHint f h).hintfiles = d.hintfiles.insert f h := rfl
@[simp] theorem setHint_faults (d : Disk) (f : Nat) (h : HintFile) :
    (d.setHint f h).faults = d.faults := rfl
@[simp] theorem setHint_created (d : Disk) (f : Nat) (h : HintFile) :
    (d.setHint f h).created = d.created := rfl

@[simp] theorem create_faults (d : Disk) (n : FileName) : (d.create n).faults = d.faults := by
  cases n <;> rfl
@[simp] theorem create_created (d : Disk) (n : FileName) :
    (d.create n).created = d.created ++ [n] := by
  cases n <;> rfl
@[simp] theorem create_data_datafiles (d : Disk) (f : Nat) :
    (d.create (.data f)).datafiles = d.datafiles.insert f [] := rfl
@[simp] theorem create_data_hintfiles (d : Disk) (f : Nat) :
    (d.create (.data f)).hintfiles = d.hintfiles := rfl
@[simp] theorem create_hint_datafiles (d : Disk) (f : Nat) :
    (d.create (.hint f)).datafiles = d.datafiles := rfl
@[simp] theorem create_hint_hintfiles (d : Disk) (f : Nat) :
    (d.create (.hint f)).hintfiles = d.hintfiles.insert f [] := rfl

@[simp] theorem remove_faults (d : Disk) (n : FileName) : (d.remove n).faults = d.faults := by
  cases n <;> rfl
@[simp] theorem remove_created (d : Disk) (n : FileName) : (d.remove n).created = d.created := by
  cases n <;> rfl

@[simp] theorem appendData_faults (d : Disk) (f : Nat) (frames : List Frame) :
    (d.appendData f frames).faults = d.faults := by
  unfold appendData; split <;> rfl
@[simp] theorem appendData_created (d : Disk) (f : Nat) (frames : List Frame) :
    (d.appendData f frames).created = d.created := by
  unfold appendData; split <;> rfl
@[simp] theorem appendData_hintfiles (d : Disk) (f : Nat) (frames : List Frame) :
    (d.appendData f frames).hintfiles = d.hintfiles := by
  unfold appendData; split <;> rfl

@[simp] theorem remove_data_datafiles (d : Disk) (f : Nat) :
    (d.remove (.data f)).datafiles = d.datafiles.erase f := rfl
@[simp] theorem remove_data_hintfiles (d : Disk) (f : Nat) :
    (d.remove (.data f)).hintfiles = d.hintfiles := rfl
@[simp] theorem remove_hint_datafiles (d : Disk) (f : Nat) :
    (d.remove (.hint f)).datafiles = d.datafiles := rfl
@[simp] theorem remove_hint_hintfiles (d : Disk) (f : Nat) :
    (d.remove (.hint f)).hintfiles = d.hintfiles.erase f := rfl

theorem remove_of_not_contains {d : Disk} {n : FileName} (h : d.contains n = false) :
    d.remove n = d := by
  cases n <;> simp only [contains, decide_eq_false_iff_not] at h <;>
    simp [remove, erase_of_not_mem h]

@[simp] theorem appendData_lookup (d : Disk) (f g : Nat) (frames : List Frame) :
    (d.appendData f frames).datafiles.lookup g =
      if g = f then (d.datafiles.lookup f).map (· ++ frames) else d.datafiles.lookup g := by
  unfold appendData
  by_cases hg : g = f
  · subst hg; split <;> simp_all
  · split <;> simp [AList.lookup_insert_ne hg, hg]

end Disk

/-! ## The writer's primitives -/

/-- Replace the directory. -/
def modifyDisk (g : Disk → Disk) : BitcaskM Unit :=
  modify fun e => { e with disk := g e.disk }

/-- Whether the writer's next file operation fails, by the fault plan. -/
def fault : BitcaskM Bool := fun e =>
  match e.disk.faults with
  | [] => .ok false e
  | b :: rest => .ok b { e with disk := { e.disk with faults := rest } }

/-- A file operation: it fails with an I/O error when the fault plan says so. -/
def syscall {α : Type} (op : BitcaskM α) : BitcaskM α := do
  if ← fault then throw (.io .other) else op

/-- `log::create`. -/
def create (name : FileName) : BitcaskM Unit :=
  syscall (modifyDisk (·.create name))

/-- `LogWriter::new`: an append handle on the data or hint file `fileid`. -/
def LogWriter.new (fileid : Nat) : BitcaskM LogWriter :=
  syscall (pure ⟨fileid⟩)

/-- `LogDir::get`: map a data file, which must exist. -/
def LogDir.get (fileid : Nat) : BitcaskM DataFile := do
  match (← getThe Engine).disk.datafiles.lookup fileid with
  | some file => pure file
  | none => throw (.io .notFound)

/-- `LogWriter::append` on a data file: the record goes after the last one, and its index
is returned.  The file is looked up by id, so an append through a handle whose file was
unlinked fails with `NotFound`, where the code's file descriptor writes to the unlinked
file and returns `Ok`.  Only runs in which a file operation failed reach such a handle:
every state that successful operations reach has the handle's file (`Inv.activeFile`). -/
def LogWriter.append (w : LogWriter) (codec : Codec) (entry : DataFileEntry) :
    BitcaskM LogIndex :=
  syscall do
    let file ← LogDir.get w.fileid
    modifyDisk (·.setData w.fileid (file ++ [codec.frame entry]))
    pure ⟨codec.len entry, file.size⟩

/-- `LogWriter::append` on a hint file. -/
def LogWriter.appendHint (w : LogWriter) (entry : HintFileEntry) : BitcaskM Unit :=
  syscall do
    match (← getThe Engine).disk.hintfiles.lookup w.fileid with
    | some hint => modifyDisk (·.setHint w.fileid (hint ++ [entry]))
    | none => throw (.io .notFound)

/-- The capacity `BufWriter::new` gives its buffer: std's `DEFAULT_BUF_SIZE`, 8 KiB. -/
def BufWriter.capacity : Nat := 8 * 1024

/-- `BufWriter::flush_buf`: the buffered bytes are written to the file; on a failure they
stay buffered. -/
def BufWriter.flushBuf (w : BufWriter) : BitcaskM BufWriter :=
  if w.buf.isEmpty then pure w else
    syscall do
      modifyDisk (·.appendData w.fileid w.buf)
      pure { w with buf := [] }

/-- `BufWriter::write_all` of one record's bytes, as std implements it: a record shorter
than the spare capacity is buffered; a longer one first has the buffer written out (unless
it fills the spare capacity exactly), and is then written straight to the file if it is
at least the capacity, and buffered otherwise. -/
def BufWriter.writeAll (w : BufWriter) (fr : Frame) : BitcaskM BufWriter := do
  let spare := BufWriter.capacity - DataFile.size w.buf
  if fr.len < spare then pure { w with buf := w.buf ++ [fr] } else do
    let w ← if spare < fr.len then w.flushBuf else pure w
    if BufWriter.capacity ≤ fr.len then do
      syscall (modifyDisk (·.appendData w.fileid [fr]))
      pure w
    else pure { w with buf := w.buf ++ [fr] }

/-- `readers.get(path, fileid)?.copy_raw(len, pos, &mut w)`: the bytes of the record at
`(len, pos)` go to `w` in one `write_all`; the number of bytes copied is returned. -/
def copyRaw (fileid len pos : Nat) (w : BufWriter) : BitcaskM (BufWriter × Nat) := do
  let file ← LogDir.get fileid
  syscall do
    match file.read len pos with
    | some fr => return (← w.writeAll fr, fr.len)
    | none => throw .serialization

/-- Dropping a `BufWriter`: its buffer is flushed, and a failed flush is discarded. -/
def BufWriter.drop (w : BufWriter) : BitcaskM Unit :=
  if w.buf.isEmpty then pure () else do
    if ← fault then pure () else modifyDisk (·.appendData w.fileid w.buf)

/-- `fs::remove_file`. -/
def removeFile (name : FileName) : BitcaskM Unit :=
  syscall do
    if (← getThe Engine).disk.contains name then modifyDisk (·.remove name) else throw (.io .notFound)

/-- `fs::metadata(datafile_name(path, fileid))?.len()`. -/
def metadataLen (fileid : Nat) : BitcaskM Nat :=
  syscall do return (← LogDir.get fileid).size

end Bitcask
