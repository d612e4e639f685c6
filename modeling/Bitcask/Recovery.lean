import Bitcask.Writer

/-!
# Recovery

`rebuild_storage`, `populate_keydir_with_hintfile`, `populate_keydir_with_datafile` and
`Bitcask::open`.  Recovery walks the data file ids in ascending order and replays each
file into a fresh KeyDir and fresh statistics: through its hint file when there is one,
through the data file itself otherwise.

Both replays treat a live entry the same way — insert it, count it live, and turn the
entry it replaces dead — so that block is one definition, `recoverLive`.  The data-file
replay counts a tombstone as a dead key and does nothing else: in particular it does not
remove the key from the KeyDir.

`utils::sorted_fileids` is not under `src/`: `sortedFileids` is modelled from the spec's
words ("enumerate segment IDs by scanning the directory", ascending).  Opening files for
reading is not subjected to injected faults, and the frame model has no torn trailing
record, so a replay fails only on a missing file.  The reader pool `Bitcask::open` fills
is the subject of a separate model.
-/

namespace Bitcask

/-- The KeyDir and statistics a replay builds. -/
abbrev Recovered := KeyDir × Stats

/-- The live-entry block shared by both replays: count the entry live in `fileid`, point
the KeyDir at it, and turn the entry it replaces dead. -/
def recoverLive (fileid : Nat) (acc : Recovered) (key : Bytes) (keydirEntry : KeyDirEntry) :
    Recovered :=
  let stats := updateStats acc.2 fileid LogStatistics.addLive
  match acc.1.lookup key with
  | some prev => (acc.1.insert key keydirEntry, updateStats stats prev.fileid (·.overwrite prev.len))
  | none => (acc.1.insert key keydirEntry, stats)

/-- One entry of `populate_keydir_with_hintfile`: hint files hold live keys only. -/
def hintfileStep (fileid : Nat) (acc : Recovered) (entry : HintFileEntry) : Recovered :=
  recoverLive fileid acc entry.key ⟨fileid, entry.len, entry.pos, entry.tstamp⟩

/-- One record of `populate_keydir_with_datafile`. -/
def datafileStep (fileid : Nat) (acc : Recovered) (item : LogIndex × DataFileEntry) : Recovered :=
  match item.2.value with
  | none => (acc.1, updateStats acc.2 fileid (·.addDead item.1.len))
  | some _ => recoverLive fileid acc item.2.key ⟨fileid, item.1.len, item.1.pos, item.2.tstamp⟩

/-- `populate_keydir_with_hintfile`. -/
def populateKeydirWithHintfile (disk : Disk) (fileid : Nat) (acc : Recovered) :
    Except Error Recovered :=
  match disk.hintfiles.lookup fileid with
  | some hint => .ok (hint.foldl (hintfileStep fileid) acc)
  | none => .error (.io .notFound)

/-- `populate_keydir_with_datafile`. -/
def populateKeydirWithDatafile (disk : Disk) (fileid : Nat) (acc : Recovered) :
    Except Error Recovered :=
  match disk.datafiles.lookup fileid with
  | some file => .ok ((DataFile.logIterator file 0).foldl (datafileStep fileid) acc)
  | none => .error (.io .notFound)

/-- Modelled from the spec: `utils::sorted_fileids` (not under `src/`) lists the ids of
the data files in the directory, ascending. -/
def sortedFileids (disk : Disk) : List Nat :=
  disk.datafiles.keys.insertionSort (· ≤ ·)

/-- One file of `rebuild_storage`: remember the largest id, then replay the hint file,
falling back to the data file when the hint file is not found. -/
def rebuildFile (disk : Disk) (acc : Recovered) (fileid : Nat) : Except Error Recovered :=
  match populateKeydirWithHintfile disk fileid acc with
  | .ok acc => .ok acc
  | .error (.io .notFound) => populateKeydirWithDatafile disk fileid acc
  | .error e => .error e

/-- The loop of `rebuild_storage` over the sorted ids, with the largest id seen so far. -/
def rebuildFrom (disk : Disk) : List Nat → Recovered → Option Nat → Except Error (Recovered × Option Nat)
  | [], acc, activeFileid => .ok (acc, activeFileid)
  | fileid :: rest, acc, activeFileid =>
      let activeFileid := match activeFileid with
        | none => some fileid
        | some id => some (if id < fileid then fileid else id)
      match rebuildFile disk acc fileid with
      | .ok acc => rebuildFrom disk rest acc activeFileid
      | .error e => .error e

/-- `rebuild_storage`: the KeyDir, the statistics and the id of the new active file, one
past the largest id found (`0` in an empty directory). -/
def rebuildStorage (disk : Disk) : Except Error (KeyDir × Stats × Nat) :=
  match rebuildFrom disk (sortedFileids disk) (∅, ∅) none with
  | .ok ((keydir, stats), activeFileid) => .ok (keydir, stats, (activeFileid.map (· + 1)).getD 0)
  | .error e => .error e

/-- `Bitcask::open`: rebuild the in-memory state from the directory, then create the new
active file and open the writer on it. -/
def Engine.open (disk : Disk) : Except Error Engine :=
  match rebuildStorage disk with
  | .error e => .error e
  | .ok (keydir, stats, activeFileid) =>
      let engine : Engine := ⟨⟨[], keydir, stats⟩, ⟨⟨activeFileid⟩, activeFileid, 0⟩, disk⟩
      match (do create (.data activeFileid); LogWriter.new activeFileid : BitcaskM LogWriter) engine with
      | .ok writer e => .ok { e with writer := ⟨writer, activeFileid, 0⟩ }
      | .error err _ => .error err

/-- An empty directory, on which no operation will fail. -/
def Disk.empty : Disk := ⟨∅, ∅, [], []⟩

end Bitcask
