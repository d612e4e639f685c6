import Bitcask.Run

/-!
# Readers during a merge

A `Handle` is shared by one writer, behind the writer mutex, and by any number of readers,
each of which looks a key up in the shared KeyDir and reads the named file's bytes.  This
file interleaves the two.  The writer's `put` and `delete` are single steps: the record is
appended before the KeyDir entry is changed, so a reader in between sees the old entry,
whose record is still there.  `Writer::merge` is split where readers can observe it:

* `mergeBegin` — the first merge data file (behind a `BufWriter`) and its hint file;
* one `mergeEntry` per KeyDir entry of the merge set, which copies the record into the
  `BufWriter` and repoints the entry; entries outside the set are skipped;
* `mergeEnd` — the writer is dropped, and so flushed, then the merged files are removed
  and the active file rolls over.

A reader step changes nothing the model keeps, so a `Handle::get` is `Reader.get` on the
engine of a reachable handle.

## Main Definitions

* `Phase`, `Handle` — where the writer is, and the shared engine.
* `WriterStep`, `HandleReachable` — the writer's steps with the map they stand for, and
  the handles they reach from an empty directory.
* `Handle.Buffered` — a key whose entry names bytes the merge `BufWriter` still holds.

## Main Statements

* `HandleReachable.inv` — every reachable handle satisfies `HandleInv`: the engine
  invariant between operations, the copy loop's invariant inside a merge.
* `get_or_buffered` — every `Handle::get` of a reachable handle returns the value the
  map holds, unless the key's entry names bytes still in the merge `BufWriter`.
* `get_reads_unflushed_merge_record` — that exception happens: right after the copy loop
  repoints a key, a reader's `get` of it fails, although the key holds a value throughout.

## Design Notes

The copy loop iterates the KeyDir with `iter_mut`, which write-locks one `DashMap` shard
at a time; an iteration of the model is one copy together with its repointing.  The
failing read of `get_reads_unflushed_merge_record` comes after the last iteration, when no
shard is locked and the `BufWriter` is not yet dropped, so it does not depend on how keys
fall into shards.  The `BufWriter` writes its 8 KiB buffer out whenever the next record
would overflow it (`BufWriter.writeAll`), so `Handle.Buffered` names exactly the bytes the
code has not yet written; the records of the runs here are far smaller than the buffer.
-/

namespace Bitcask

/-- Where the writer task is: between operations, or inside `Writer::merge` of the set
`fileids`, with the KeyDir entries its loop has still to visit and the loop's locals. -/
inductive Phase
  | idle
  | merging (fileids : List Nat) (rest : List (Σ _ : Bytes, KeyDirEntry)) (c : MergeCursor)

/-- A `Handle`: the engine the writer and the readers share, and where the writer is. -/
structure Handle where
  engine : Engine
  phase : Phase

variable (conf : Config) (codec : Codec)

/-- One step of the writer task, with the map the handle stands for before and after it:
`put` and `delete` update the map, the steps of a merge leave it. -/
inductive WriterStep : Handle → Store → Handle → Store → Prop
  | put {e e' : Engine} {m : Store} (t : Int) (key value : Bytes) :
      Writer.put conf codec t key value e = .ok () e' →
      WriterStep ⟨e, .idle⟩ m ⟨e', .idle⟩ (m.insert key value)
  | delete {e e' : Engine} {m : Store} {b : Bool} (t : Int) (key : Bytes) :
      Writer.delete conf codec t key e = .ok b e' →
      WriterStep ⟨e, .idle⟩ m ⟨e', .idle⟩ (m.erase key)
  | mergeBegin {e e' : Engine} {m : Store} {c : MergeCursor} (fileids : List Nat) :
      (∀ f ∈ fileids, f ∈ e.ctx.stats) →
      Writer.mergeBegin (e.writer.activeFileid + 1) e = .ok c e' →
      WriterStep ⟨e, .idle⟩ m ⟨e', .merging fileids e'.ctx.keydir.entries c⟩ m
  | mergeEntry {e e' : Engine} {m : Store} {c c' : MergeCursor} {fileids : List Nat}
      {key : Bytes} {entry : KeyDirEntry} {rest : List (Σ _ : Bytes, KeyDirEntry)} :
      entry.fileid ∈ fileids → Writer.mergeEntry conf c key entry e = .ok c' e' →
      WriterStep ⟨e, .merging fileids (⟨key, entry⟩ :: rest) c⟩ m ⟨e', .merging fileids rest c'⟩ m
  | mergeSkip {e : Engine} {m : Store} {c : MergeCursor} {fileids : List Nat}
      {key : Bytes} {entry : KeyDirEntry} {rest : List (Σ _ : Bytes, KeyDirEntry)} :
      entry.fileid ∉ fileids →
      WriterStep ⟨e, .merging fileids (⟨key, entry⟩ :: rest) c⟩ m ⟨e, .merging fileids rest c⟩ m
  | mergeEnd {e e' : Engine} {m : Store} {c : MergeCursor} {fileids : List Nat} :
      Writer.mergeEnd fileids c e = .ok () e' →
      WriterStep ⟨e, .merging fileids [] c⟩ m ⟨e', .idle⟩ m

/-- The handles reachable from an engine opened on an empty directory, with the map each
stands for. -/
inductive HandleReachable : Handle → Store → Prop
  | open {e : Engine} : Engine.open Disk.empty = .ok e → HandleReachable ⟨e, .idle⟩ ∅
  | step {h h' : Handle} {m m' : Store} :
      HandleReachable h m → WriterStep conf codec h m h' m' → HandleReachable h' m'

/-- The invariant of a reachable handle: between operations the engine invariant, with
the engine standing for the map; inside a merge started from `e₀`, the copy loop's
invariant, with `e₀` standing for the map. -/
def HandleInv (h : Handle) (m : Store) : Prop :=
  match h.phase with
  | .idle => Inv h.engine ∧ h.engine.Refines m
  | .merging fileids rest c =>
      ∃ e₀, Inv e₀ ∧ e₀.Refines m ∧ LoopInv fileids e₀ rest c h.engine

/-- The entry of `key` names bytes of the current merge data file that its `BufWriter`
still holds. -/
def Handle.Buffered (h : Handle) (key : Bytes) : Prop :=
  match h.phase with
  | .idle => False
  | .merging _ _ c => ∃ entry, h.engine.ctx.keydir.lookup key = some entry ∧
      entry.fileid = c.mergeFileid ∧
      (framesOf h.engine.disk.datafiles c.mergeFileid).size ≤ entry.pos

variable {conf codec} {h h' : Handle} {m m' : Store}

/-- **A writer step keeps the handle invariant.** -/
theorem WriterStep.inv (hi : HandleInv h m) (hs : WriterStep conf codec h m h' m') :
    HandleInv h' m' := by
  cases hs with
  | put t key value hrun => exact
      let ⟨hinv, hmap⟩ := (Step.put t key value hrun : Step conf codec _ _ _ _).spec hi.1
      ⟨hinv, (hmap m hi.2).1⟩
  | delete t key hrun => exact
      let ⟨hinv, hmap⟩ := (Step.delete t key hrun : Step conf codec _ _ _ _).spec hi.1
      ⟨hinv, (hmap m hi.2).1⟩
  | mergeBegin S hS hrun =>
      obtain ⟨hinv, hm⟩ := hi
      rw [Writer.mergeBegin_of_noFaults hinv.writer.below.noFaults] at hrun
      cases hrun
      exact ⟨_, hinv, hm, LoopInv.start hinv hS⟩
  | mergeEntry hS hrun =>
      obtain ⟨e₀, hinv, hm, hl⟩ := hi
      obtain ⟨c', e', hrun', hl'⟩ := hl.step conf hS
      rw [hrun] at hrun'; cases hrun'
      exact ⟨e₀, hinv, hm, hl'⟩
  | mergeSkip hS =>
      obtain ⟨e₀, hinv, hm, hl⟩ := hi
      exact ⟨e₀, hinv, hm, { hl with view := hl.view.skip hS }⟩
  | mergeEnd hrun =>
      obtain ⟨e₀, hinv, hm, hl⟩ := hi
      rw [Writer.mergeEnd_of_noFaults hl.noFaults] at hrun
      cases hrun
      have hp := hl.finish
      exact ⟨hp.inv, fun k => by rw [hp.valueOf_eq]; exact hm k⟩

/-- **Every reachable handle satisfies the invariant.** -/
theorem HandleReachable.inv (hr : HandleReachable conf codec h m) : HandleInv h m := by
  induction hr with
  | «open» hopen => exact ⟨Inv.of_open diskInv_empty hopen, Engine.refines_open_empty hopen⟩
  | step _ hs ih => exact hs.inv ih

/-- Inside the copy loop, a read returns what the key read when the merge started, unless
its entry names bytes the `BufWriter` still holds: the KeyDir agrees with the directory
with the buffer flushed, and the directory differs from that only in the bytes of the
current merge file past its flushed end. -/
theorem LoopInv.get {S : List Nat} {e₀ e : Engine} {rest : List (Σ _ : Bytes, KeyDirEntry)}
    {c : MergeCursor} (hl : LoopInv S e₀ rest c e) (k : Bytes) :
    Reader.get e k = .ok (e₀.valueOf k) ∨ ∃ entry, e.ctx.keydir.lookup k = some entry ∧
      entry.fileid = c.mergeFileid ∧ (framesOf e.disk.datafiles c.mergeFileid).size ≤ entry.pos := by
  have hv := hl.view
  cases hk : e.ctx.keydir.lookup k with
  | none => exact .inl (by rw [Engine.valueOf, ← hv.frames k]; simp [Reader.get, hk, lookupFrame])
  | some entry =>
      obtain ⟨file, fr, hfile, hread, -⟩ := hv.valid k entry hk
      have hframe : lookupFrame (e.disk.appendData c.mergeFileid c.datafileWriter.buf).datafiles
          e.ctx.keydir k = some fr := by
        simp only [lookupFrame, hk, hfile, hread, Option.some_bind]
      have hvalue : e₀.valueOf k = fr.entry.value := by
        rw [Engine.valueOf, ← hv.frames k, hframe]; rfl
      by_cases hm : entry.fileid = c.mergeFileid
      · rw [hm, Disk.appendData_lookup, if_pos rfl] at hfile
        obtain ⟨F₀, hF₀, rfl⟩ := Option.map_eq_some'.1 hfile
        by_cases hpos : entry.pos < DataFile.size F₀
        · have hread₀ : DataFile.read F₀ entry.len entry.pos = some fr := by
            rw [DataFile.read_eq_some, ← DataFile.frameAt_append_of_lt _ hpos,
              ← DataFile.read_eq_some]
            exact hread
          exact .inl (by simp only [Reader.get, hk]; rw [hm, hF₀]; simp [hread₀, hvalue])
        · exact .inr ⟨entry, rfl, hm, by rw [framesOf_of_lookup hF₀]; omega⟩
      · rw [Disk.appendData_lookup, if_neg hm] at hfile
        exact .inl (by simp [Reader.get, hk, hfile, hread, hvalue])

/-- **Reads against a running writer.**  On every reachable handle, whatever the writer
is doing, `Handle::get` of a key returns the value the map holds for it, unless the key's
entry names bytes that the merge data file's `BufWriter` has not yet written. -/
theorem get_or_buffered (hr : HandleReachable conf codec h m) (k : Bytes) :
    Reader.get h.engine k = .ok (m.lookup k) ∨ h.Buffered k := by
  have hi := hr.inv
  rcases h with ⟨e, _ | ⟨S, rest, c⟩⟩
  · exact .inl (by rw [Reader.get_of_valid hi.1.accounts.valid, hi.2 k])
  · obtain ⟨e₀, -, hm, hl⟩ := hi
    rw [← hm k]
    exact hl.get k

/-- A merge of file `0` that has created its merge files and not yet copied anything. -/
theorem get_or_buffered_merging :
    ∃ h, HandleReachable ⟨1, 1000, ⟨0, 0, 0⟩⟩ Codec.sample h ((∅ : Store).insert [1] [2]) ∧
      ∀ k, Reader.get h.engine k = .ok (((∅ : Store).insert [1] [2]).lookup k) ∨ h.Buffered k :=
  have hr : HandleReachable ⟨1, 1000, ⟨0, 0, 0⟩⟩ Codec.sample _ _ :=
    .step (.step (.open Engine.open_empty) (.put 0 [1] [2] rfl)) (.mergeBegin [0] (by decide) rfl)
  ⟨_, hr, get_or_buffered hr⟩

/-- A reader sees a merged key before its record reaches the disk.  After `put([1], [2])`,
a merge of file `0` starts and its loop copies the record into the `BufWriter` and
repoints the key at merge file `1`, which is still empty.  A `Handle::get([1])` then fails,
although the map holds `[2]` for the key before, during and after the merge. -/
theorem get_reads_unflushed_merge_record :
    ∃ h, HandleReachable ⟨1, 1000, ⟨0, 0, 0⟩⟩ Codec.sample h ((∅ : Store).insert [1] [2]) ∧
      h.Buffered [1] ∧ Reader.get h.engine [1] = .error .serialization :=
  ⟨_, .step (.step (.step (.open Engine.open_empty) (.put 0 [1] [2] rfl))
    (.mergeBegin [0] (by decide) rfl)) (.mergeEntry (by decide) rfl),
    ⟨_, rfl, rfl, Nat.zero_le _⟩, rfl⟩

end Bitcask
