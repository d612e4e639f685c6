import Bitcask.Disk

/-!
# The write path and the read path

`Writer::put`, `Writer::delete`, `Writer::write` and `Writer::new_active_datafile`, step
for step, and `Reader::get`.  The writer's statements run in `BitcaskM`, so a failed
file operation keeps every change made before it; this is what the failure analysis of
`Bitcask.Faults` relies on.

Two details of the source are kept as they are, because the results below turn on them:

* `write` counts the new record in the active file's statistics and only *then* checks
  the size limit and rolls over, and `put` updates the KeyDir only after `write` returns;
* `new_active_datafile` assigns `active_fileid` before creating the file, so a failed
  `log::create` leaves `active_fileid` ahead of the handle the writer appends through.

`utils::timestamp()` is an input (`tstamp`): timestamps are carried along but never
compared.
-/

namespace Bitcask

/-- Update the shared context. -/
def modifyCtx (g : Context → Context) : BitcaskM Unit :=
  modify fun e => { e with ctx := g e.ctx }

/-- Update the writer's own fields. -/
def modifyWriter (g : Writer → Writer) : BitcaskM Unit :=
  modify fun e => { e with writer := g e.writer }

/-- The statistics update `write` makes for a new record of `len` bytes: a value is a new
live key, a tombstone a new dead key. -/
def recordStats (value : Option Bytes) (len : Nat) : LogStatistics → LogStatistics :=
  match value with
  | some _ => LogStatistics.addLive
  | none => (·.addDead len)

namespace Writer

variable (conf : Config) (codec : Codec)

/-- `Writer::new_active_datafile`: the active id is updated first, then the file is
created and a handle opened on it. -/
def newActiveDatafile (fileid : Nat) : BitcaskM Unit := do
  modifyWriter fun w => { w with activeFileid := fileid }
  create (.data fileid)
  let writer ← LogWriter.new fileid
  modifyWriter fun w => { w with writer, writtenBytes := 0 }

/-- `Writer::write`: append the record to the active file, count it in the active file's
statistics, and roll over once the file exceeds `max_file_size`. -/
def write (tstamp : Int) (key : Bytes) (value : Option Bytes) : BitcaskM KeyDirEntry := do
  let datafileEntry : DataFileEntry := ⟨tstamp, key, value⟩
  let index ← (← getThe Engine).writer.writer.append codec datafileEntry
  let activeFileid := (← getThe Engine).writer.activeFileid
  let keydirEntry : KeyDirEntry := ⟨activeFileid, index.len, index.pos, tstamp⟩
  modifyWriter fun w => { w with writtenBytes := w.writtenBytes + index.len }
  modifyCtx fun c => { c with stats := updateStats c.stats activeFileid (recordStats value index.len) }
  if conf.maxFileSize < (← getThe Engine).writer.writtenBytes then
    newActiveDatafile (activeFileid + 1)
  pure keydirEntry

/-- `Writer::put`: write the record, then point the KeyDir at it; a value it replaces
turns dead in the statistics of its file. -/
def put (tstamp : Int) (key value : Bytes) : BitcaskM Unit := do
  let keydirEntry ← write conf codec tstamp key (some value)
  let prev := (← getThe Engine).ctx.keydir.lookup key
  modifyCtx fun c => { c with keydir := c.keydir.insert key keydirEntry }
  if let some prevKeydirEntry := prev then
    modifyCtx fun c =>
      { c with stats := updateStats c.stats prevKeydirEntry.fileid (·.overwrite prevKeydirEntry.len) }

/-- `Writer::delete`: write a tombstone, then remove the key; `true` iff it was present. -/
def delete (tstamp : Int) (key : Bytes) : BitcaskM Bool := do
  let _ ← write conf codec tstamp key none
  match (← getThe Engine).ctx.keydir.lookup key with
  | some prevKeydirEntry =>
      modifyCtx fun c => { c with keydir := c.keydir.erase key }
      modifyCtx fun c =>
        { c with stats := updateStats c.stats prevKeydirEntry.fileid (·.overwrite prevKeydirEntry.len) }
      pure true
  | none => pure false

end Writer

/-- `Reader::get`: look the key up, then decode the record the entry names.  The reader's
cache of mappings, with its eviction of merged ids, is transparent: a read maps the file
as the directory holds it. -/
def Reader.get (e : Engine) (key : Bytes) : Except Error (Option Bytes) :=
  match e.ctx.keydir.lookup key with
  | some keydirEntry =>
      match e.disk.datafiles.lookup keydirEntry.fileid with
      | some file =>
          match file.read keydirEntry.len keydirEntry.pos with
          | some fr => .ok fr.entry.value
          | none => .error .serialization
      | none => .error (.io .notFound)
  | none => .ok none

end Bitcask
