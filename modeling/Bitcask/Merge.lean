import Bitcask.Writer

/-!
# Merging

`Context::fileids_to_merge` and `Writer::merge`.  The copy loop is split at its natural
seams so that the concurrency model of `Bitcask.Concurrency` can interleave readers
between its iterations:

* `mergeEntry` — one iteration: copy the record into the merge data file's `BufWriter`,
  repoint the KeyDir entry, count it live, append its hint entry, and move to the next
  merge file once the current one exceeds `max_file_size`;
* `mergeLoop` — the iterations over a snapshot of the KeyDir's entries, in the KeyDir's
  order, skipping the entries outside the merge set;
* `mergeBegin`, `mergeEnd` — what comes before the loop (the first merge files) and after
  it (the flush, the removals and the rollover);
* `mergeFiles` — everything `Writer::merge` does once the merge set is chosen.

A `?` inside the loop leaves the function while the current `BufWriter` is still alive:
its destructor flushes the buffered bytes before the error reaches the caller, and
`dropOnError` says so.  The writer's reader cache (`readers.drop`) is not modelled.
-/

namespace Bitcask

/-- `LogStatistics::fragmentation`: the share of dead keys, `0` when there are none.  The
code returns the ratio (its doc comment says an integer percentage) as an `f64` quotient;
the model takes the exact rational.  The two can order differently against a threshold
next to the ratio, so the results below compare fragmentations only where rounding cannot
matter: against a bound that is itself compared with the same threshold. -/
def LogStatistics.fragmentation (s : LogStatistics) : ℚ :=
  if s.deadKeys = 0 then 0 else (s.deadKeys : ℚ) / (s.deadKeys + s.liveKeys)

/-- The per-file inclusion test of `fileids_to_merge`, with the fragmentation compared as an
exact rational where the code compares `f64` values. -/
def MergeThresholds.includes (t : MergeThresholds) (s : LogStatistics) (len : Nat) : Bool :=
  t.deadBytes < s.deadBytes || t.fragmentation < s.fragmentation || len < t.smallFile

/-- The loop of `fileids_to_merge` over the statistics entries; every file's metadata is
read, included or not. -/
def fileidsToMergeFrom (conf : Config) : List (Σ _ : Nat, LogStatistics) → BitcaskM (List Nat)
  | [] => pure []
  | ⟨fileid, stats⟩ :: rest => do
      let len ← metadataLen fileid
      let fileids ← fileidsToMergeFrom conf rest
      pure (if conf.thresholds.includes stats len then fileid :: fileids else fileids)

/-- `Context::fileids_to_merge`: the ids of the files to merge, ascending, as a
`BTreeSet` iterates them. -/
def fileidsToMerge (conf : Config) : BitcaskM (List Nat) := do
  let fileids ← fileidsToMergeFrom conf (← getThe Engine).ctx.stats.entries
  pure (fileids.insertionSort (· ≤ ·))

/-- The locals of the copy loop of `Writer::merge`. -/
structure MergeCursor where
  mergeFileid : Nat
  mergePos : Nat
  datafileWriter : BufWriter
  hintfileWriter : LogWriter

/-- Run `x`; if it fails, the live `BufWriter` `w` is dropped, and so flushed, before the
error propagates. -/
def dropOnError {α : Type} (w : BufWriter) (x : BitcaskM α) : BitcaskM α :=
  tryCatch x fun err => do w.drop; throw err

/-- `?` that swallows `NotFound`, as the removal loop of `Writer::merge` does. -/
def ignoreNotFound (x : BitcaskM Unit) : BitcaskM Unit :=
  tryCatch x fun err => if err = .io .notFound then pure () else throw err

namespace Writer

variable (conf : Config)

/-- One iteration of the copy loop of `Writer::merge`, on the KeyDir entry of `key`. -/
def mergeEntry (c : MergeCursor) (key : Bytes) (keydirEntry : KeyDirEntry) :
    BitcaskM MergeCursor := do
  let (datafileWriter, nbytes) ← dropOnError c.datafileWriter
    (copyRaw keydirEntry.fileid keydirEntry.len keydirEntry.pos c.datafileWriter)
  let merged : KeyDirEntry :=
    { keydirEntry with fileid := c.mergeFileid, len := nbytes, pos := c.mergePos }
  modifyCtx fun ctx => { ctx with keydir := ctx.keydir.replace key merged }
  modifyCtx fun ctx => { ctx with stats := updateStats ctx.stats c.mergeFileid LogStatistics.addLive }
  dropOnError datafileWriter
    (c.hintfileWriter.appendHint ⟨merged.tstamp, merged.len, merged.pos, key⟩)
  let mergePos := c.mergePos + nbytes
  if conf.maxFileSize < mergePos then
    let mergeFileid := c.mergeFileid + 1
    dropOnError datafileWriter (create (.data mergeFileid))
    datafileWriter.drop
    create (.hint mergeFileid)
    let hintfileWriter ← LogWriter.new mergeFileid
    pure ⟨mergeFileid, 0, ⟨mergeFileid, []⟩, hintfileWriter⟩
  else
    pure { c with mergePos, datafileWriter }

/-- The copy loop of `Writer::merge` over a snapshot of the KeyDir's entries. -/
def mergeLoop (fileids : List Nat) :
    List (Σ _ : Bytes, KeyDirEntry) → MergeCursor → BitcaskM MergeCursor
  | [], c => pure c
  | ⟨key, keydirEntry⟩ :: rest, c =>
      if keydirEntry.fileid ∈ fileids then do
        let c ← mergeEntry conf c key keydirEntry
        mergeLoop fileids rest c
      else mergeLoop fileids rest c

/-- The removal loop of `Writer::merge`: forget the statistics of each merged file, then
unlink its hint file and its data file, a missing one being no error. -/
def removeMerged : List Nat → BitcaskM Unit
  | [] => pure ()
  | fileid :: rest => do
      modifyCtx fun ctx => { ctx with stats := ctx.stats.erase fileid }
      ignoreNotFound (removeFile (.hint fileid))
      ignoreNotFound (removeFile (.data fileid))
      removeMerged rest

/-- The start of the copy scope of `Writer::merge`: the first merge data file, behind a
`BufWriter`, and its hint file, behind a `LogWriter`. -/
def mergeBegin (minMergeFileid : Nat) : BitcaskM MergeCursor := do
  create (.data minMergeFileid)
  create (.hint minMergeFileid)
  let hintfileWriter ← LogWriter.new minMergeFileid
  pure ⟨minMergeFileid, 0, ⟨minMergeFileid, []⟩, hintfileWriter⟩

/-- `Writer::merge` after the copy loop: the end of the scope drops the merge data file's
writer (which flushes it), the merged ids are recorded, their statistics and files are
removed, and the active file rolls over past the last merge file. -/
def mergeEnd (fileids : List Nat) (c : MergeCursor) : BitcaskM Unit := do
  c.datafileWriter.drop
  modifyCtx fun ctx => { ctx with merged := fileids.foldl (fun m fileid => m.insert fileid) ctx.merged }
  removeMerged fileids
  newActiveDatafile (c.mergeFileid + 1)

/-- `Writer::merge` once the files to merge are chosen: copy their live records into
fresh merge files from `minMergeFileid` on, mark them merged, delete them, and roll the
active file over past the last merge file. -/
def mergeFiles (fileids : List Nat) (minMergeFileid : Nat) : BitcaskM Unit := do
  let c ← mergeBegin minMergeFileid
  let entries := (← getThe Engine).ctx.keydir.entries
  let c ← mergeLoop conf fileids entries c
  mergeEnd fileids c

/-- `Writer::merge`. -/
def merge : BitcaskM Unit := do
  let minMergeFileid := (← getThe Engine).writer.activeFileid + 1
  let fileids ← fileidsToMerge conf
  mergeFiles conf fileids minMergeFileid

end Writer

end Bitcask
