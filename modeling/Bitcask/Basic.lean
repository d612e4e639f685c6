import Mathlib.Data.List.AList
import Mathlib.Data.Rat.Defs
import Mathlib.Data.List.Sort

/-!
# The Bitcask data model

The storage engine of `src/storage/bitcask.rs` keeps three kinds of state: the directory
of data and hint files, the shared `Context` (the KeyDir, the per-file `LogStatistics` and
the set of merged file ids), and the `Writer`, the sole mutator, which owns the append
handle of the active data file.  This file fixes the Lean shapes of all three.

## Main Definitions

* `DataFileEntry`, `HintFileEntry`, `KeyDirEntry`, `LogStatistics` — the records of the
  source, field for field.  Every `u64` and `i64` is a `Nat` or an `Int`: the byte counts
  and file ids the engine computes never come near `2^64`, and `LogStatistics::overwrite`
  is shown never to go below zero (`Bitcask.Invariant`), so no wrap-around is lost.
* `Frame`, `DataFile`, `HintFile` — a data file is the list of the records appended to it,
  each with the number of bytes it occupies; a hint file is the list of its entries.
* `Disk` — the directory: data files and hint files by id, the environment's fault plan,
  and the ghost list of every file `log::create` ever made there.
* `Context`, `Writer`, `Engine` — the shared maps, the writer's own fields, and the whole
  instance together with its directory; `BitcaskM` is the fallible state monad the
  writer's operations run in.

## Design Notes

`log.rs`, `bufio.rs` and `utils.rs` are not under `src/`.  What the engine needs of them —
that an append returns the `(pos, len)` at which the record can be read back, that a raw
copy moves a record's bytes unchanged, that iterating a file yields its records at
consecutive indexes — is built into the frame model: a file *is* its list of frames, so
these properties hold by construction.  The codec only contributes the length of a
serialized record, which is a parameter (`Codec`) carrying the one fact the model relies
on: a framed record occupies at least one byte.

The `DashMap`s become association lists (`AList`).  Their iteration order stands for
`DashMap`'s hash order, which the code never relies on; every theorem quantifies over it.
-/

namespace Bitcask

/-- `bytes::Bytes`: keys and values are opaque byte strings. -/
abbrev Bytes := List UInt8

/-- `DataFileEntry`: one record of a data file.  A `value` of `none` is a tombstone. -/
structure DataFileEntry where
  tstamp : Int
  key : Bytes
  value : Option Bytes
  deriving DecidableEq, Repr

/-- `HintFileEntry`: one entry of a hint file, the KeyDir entry of a merged record. -/
structure HintFileEntry where
  tstamp : Int
  len : Nat
  pos : Nat
  key : Bytes
  deriving DecidableEq, Repr

/-- `KeyDirEntry`: where the live record of a key sits. -/
structure KeyDirEntry where
  fileid : Nat
  len : Nat
  pos : Nat
  tstamp : Int
  deriving DecidableEq, Repr

/-- The index `(len, pos)` that appending a record returns and iterating a file yields. -/
structure LogIndex where
  len : Nat
  pos : Nat
  deriving DecidableEq, Repr

/-! ## Per-file statistics -/

/-- `LogStatistics`: live keys, dead keys and the bytes the dead keys occupy. -/
structure LogStatistics where
  liveKeys : Nat := 0
  deadKeys : Nat := 0
  deadBytes : Nat := 0
  deriving DecidableEq, Repr

namespace LogStatistics

/-- `add_live`: one more live key. -/
def addLive (s : LogStatistics) : LogStatistics :=
  { s with liveKeys := s.liveKeys + 1 }

/-- `add_dead`: one more dead key, occupying `nbytes` on disk. -/
def addDead (s : LogStatistics) (nbytes : Nat) : LogStatistics :=
  { s with deadKeys := s.deadKeys + 1, deadBytes := s.deadBytes + nbytes }

/-- `overwrite`: a live key of `nbytes` bytes turns dead. -/
def overwrite (s : LogStatistics) (nbytes : Nat) : LogStatistics :=
  { liveKeys := s.liveKeys - 1, deadKeys := s.deadKeys + 1, deadBytes := s.deadBytes + nbytes }

@[simp] theorem addLive_liveKeys (s : LogStatistics) : s.addLive.liveKeys = s.liveKeys + 1 := rfl
@[simp] theorem addLive_deadKeys (s : LogStatistics) : s.addLive.deadKeys = s.deadKeys := rfl
@[simp] theorem addLive_deadBytes (s : LogStatistics) : s.addLive.deadBytes = s.deadBytes := rfl
@[simp] theorem addDead_liveKeys (s : LogStatistics) (n : Nat) :
    (s.addDead n).liveKeys = s.liveKeys := rfl
@[simp] theorem addDead_deadKeys (s : LogStatistics) (n : Nat) :
    (s.addDead n).deadKeys = s.deadKeys + 1 := rfl
@[simp] theorem addDead_deadBytes (s : LogStatistics) (n : Nat) :
    (s.addDead n).deadBytes = s.deadBytes + n := rfl
@[simp] theorem overwrite_liveKeys (s : LogStatistics) (n : Nat) :
    (s.overwrite n).liveKeys = s.liveKeys - 1 := rfl
@[simp] theorem overwrite_deadKeys (s : LogStatistics) (n : Nat) :
    (s.overwrite n).deadKeys = s.deadKeys + 1 := rfl
@[simp] theorem overwrite_deadBytes (s : LogStatistics) (n : Nat) :
    (s.overwrite n).deadBytes = s.deadBytes + n := rfl

end LogStatistics

/-! ## Framed records and files -/

/-- The serialized length of a data record, from the codec of `log.rs` (not under `src/`).
Every framed record has a fixed-width header, so it occupies at least one byte. -/
structure Codec where
  len : DataFileEntry → Nat
  len_pos : ∀ e, 0 < len e

/-- A codec for concrete runs, with the sizes of a `bincode` encoding: the timestamp,
the key's length prefix and the option tag take 17 bytes, a present value 8 more for its
length prefix. -/
def Codec.sample : Codec where
  len e := 17 + e.key.length + (match e.value with | some v => 8 + v.length | none => 0)
  len_pos _ := by show 0 < 17 + _ + _; omega

/-- A record as it sits in a data file, with the number of bytes it occupies. -/
structure Frame where
  entry : DataFileEntry
  len : Nat
  len_pos : 0 < len

/-- The frame `LogWriter::append` writes for `entry`. -/
def Codec.frame (codec : Codec) (entry : DataFileEntry) : Frame :=
  ⟨entry, codec.len entry, codec.len_pos entry⟩

/-- A data file: the frames appended to it, first to last. -/
abbrev DataFile := List Frame

/-- A hint file: its entries, first to last. -/
abbrev HintFile := List HintFileEntry

/-- The kind of an I/O error; only `NotFound` is ever inspected by the code. -/
inductive ErrorKind
  | notFound
  | other
  deriving DecidableEq, Repr

/-- `Error`: the engine's errors.  Asynchronous-task errors belong to the merge task's
scheduling and are not modelled. -/
inductive Error
  | io (kind : ErrorKind)
  | serialization
  deriving DecidableEq, Repr

/-- `utils::datafile_name` / `utils::hintfile_name`: the two files an id can name. -/
inductive FileName
  | data (fileid : Nat)
  | hint (fileid : Nat)
  deriving DecidableEq, Repr

/-- The id a file name carries. -/
def FileName.fileid : FileName → Nat
  | .data f => f
  | .hint f => f

/-- A finite map from file ids. -/
abbrev FileMap (β : Type) := AList (fun _ : Nat => β)

/-- The directory of one engine.  `faults` is the environment's plan for the writer's
next file operations (`true`: that operation fails; once it runs out, all succeed), and
`created` is a ghost record of every `log::create`, oldest first. -/
structure Disk where
  datafiles : FileMap DataFile
  hintfiles : FileMap HintFile
  faults : List Bool
  created : List FileName

/-! ## The engine -/

/-- `DashMap<Bytes, KeyDirEntry>`. -/
abbrev KeyDir := AList (fun _ : Bytes => KeyDirEntry)

/-- `DashMap<u64, LogStatistics>`. -/
abbrev Stats := FileMap LogStatistics

theorem mem_of_lookup {α β : Type} [DecidableEq α] {s : AList (fun _ : α => β)} {a : α} {b : β}
    (h : s.lookup a = some b) : a ∈ s :=
  AList.lookup_isSome.1 (by rw [h]; rfl)

/-- Erasing an absent key changes nothing. -/
theorem erase_of_not_mem {α β : Type} [DecidableEq α] {s : AList (fun _ : α => β)} {a : α}
    (h : a ∉ s) : s.erase a = s :=
  AList.ext (List.kerase_of_not_mem_keys h)

/-- The statistics of a file, a missing entry read as all zeros (`or_default`). -/
def statsOf (stats : Stats) (fileid : Nat) : LogStatistics :=
  (stats.lookup fileid).getD {}

/-- `stats.entry(fileid).or_default()` followed by the in-place update `op`. -/
def updateStats (stats : Stats) (fileid : Nat) (op : LogStatistics → LogStatistics) : Stats :=
  stats.insert fileid (op (statsOf stats fileid))

@[simp] theorem statsOf_updateStats (stats : Stats) (f g : Nat) (op) :
    statsOf (updateStats stats f op) g = if g = f then op (statsOf stats f) else statsOf stats g := by
  by_cases h : g = f
  · subst h; simp [statsOf, updateStats, AList.lookup_insert]
  · simp [statsOf, updateStats, AList.lookup_insert_ne h, h]

@[simp] theorem mem_updateStats (stats : Stats) (f g : Nat) (op) :
    g ∈ updateStats stats f op ↔ g = f ∨ g ∈ stats := AList.mem_insert _

/-- `LogWriter`: an append handle, known by the id of the file it was opened on. -/
structure LogWriter where
  fileid : Nat
  deriving DecidableEq, Repr

/-- `BufWriter<File>` over a merge data file: the records in `buf` are held in memory, and
reach the file when the next record would overflow the buffer or when the writer is
dropped. -/
structure BufWriter where
  fileid : Nat
  buf : List Frame

/-- `Context`: the state shared by the writer and every reader.  The configuration and
the path are fixed for the instance's lifetime and passed as parameters instead. -/
structure Context where
  merged : List Nat
  keydir : KeyDir
  stats : Stats

/-- `Writer`: the writer's own fields.  Its reader cache is not modelled: a read goes to
the directory, which is what a fresh cache entry maps. -/
structure Writer where
  writer : LogWriter
  activeFileid : Nat
  writtenBytes : Nat

/-- An engine instance together with the directory it owns. -/
structure Engine where
  ctx : Context
  writer : Writer
  disk : Disk

/-- The writer's operations: they may fail, and a failure keeps every change made before
it, as a Rust `?` does. -/
abbrev BitcaskM := EStateM Error Engine

/-- `MergeThresholds`: when a file is included in a merge.  The source compares `f64`
fragmentations; the model compares exact rationals (see `LogStatistics.fragmentation`). -/
structure MergeThresholds where
  fragmentation : ℚ
  deadBytes : Nat
  smallFile : Nat

/-- `Config`, with the fields the storage core reads. -/
structure Config where
  concurrency : Nat
  maxFileSize : Nat
  thresholds : MergeThresholds

end Bitcask
