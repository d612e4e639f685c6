import Bitcask.MergeCorrect

/-!
# Runs of the engine

A client opens an engine on a directory and calls `put`, `delete` and `merge`; between
operations it may drop the engine and open the directory again.  This file states what
holds along every such run.  Each result comes from the invariant `Inv`, which every
operation keeps (`Bitcask.Invariant`, `Bitcask.MergeCorrect`) and every reopen
re-establishes (`Bitcask.RecoveryCorrect`).

## Main Definitions

* `Op`, `Store`, `Op.apply`, `Op.output`, `Op.run` — the client's operations and what they
  mean on a finite map: `put` inserts, `delete` erases and reports whether the key was
  there, `merge` changes nothing.
* `Step`, `Steps` — one successful operation of the writer, and a run of them.
* `Reachable` — the states of an engine over the lifetime of one directory: opened on an
  empty directory, then moved by successful operations and by reopening.

## Main Statements

* `Step.spec` — a successful operation keeps `Inv` and moves what every key reads as the
  operation moves the map.
* `Reachable.inv` — every reachable state satisfies `Inv`.
* `map_refinement` — **the engine is a finite map**: after any run of successful
  operations from an empty directory, `Reader::get` returns, key by key, what the map
  the operations build holds, and every `delete` answered whether its key was there.
* `keydir_entries_valid` — in every reachable state each KeyDir entry names an existing
  file, lies within its written bytes, and frames a record of its key with a value.
* `stats_account` — in every reachable state the statistics of a file count the keys
  pointing into it and the records of it nothing points at.
* `created_files_fresh` — every file created over a directory's lifetime is new, with an id
  above every earlier one except for the hint file merge creates beside a merge data file.

## Design Notes

A merge step takes any set of files that have statistics, not only the one
`fileids_to_merge` selects: the source compares `f64` fragmentations against
configurable thresholds, and no result here depends on which set is chosen.
`Step.of_merge` shows that every successful `Writer::merge` is such a step.

A run does not include a reopen in `Steps`: reopening after a `delete` can bring the
deleted value back (`reopen_after_delete_resurrects`), so the map refinement holds for
the lifetime of one engine.  `Reachable` does include reopens, and the invariants hold
across them.
-/

namespace Bitcask

/-! ## Operations and the map they stand for -/

/-- A client's request to the writer. -/
inductive Op
  | put (tstamp : Int) (key value : Bytes)
  | delete (tstamp : Int) (key : Bytes)
  | merge (fileids : List Nat)
  deriving DecidableEq, Repr

/-- The finite map from keys to values a store stands for. -/
abbrev Store := AList (fun _ : Bytes => Bytes)

namespace Op

/-- What an operation does to the map. -/
def apply : Op → Store → Store
  | .put _ key value, m => m.insert key value
  | .delete _ key, m => m.erase key
  | .merge _, m => m

/-- What an operation returns: `delete` whether its key was in the map, the others
nothing. -/
def output : Op → Store → Option Bool
  | .delete _ key, m => some (decide (key ∈ m))
  | _, _ => none

/-- The map a run of operations leaves, and the outputs it returns in order. -/
def run : List Op → Store → Store × List (Option Bool)
  | [], m => (m, [])
  | op :: ops, m => ((run ops (op.apply m)).1, op.output m :: (run ops (op.apply m)).2)

end Op

/-- An engine stands for a map when every key reads the map's value. -/
def Engine.Refines (e : Engine) (m : Store) : Prop :=
  ∀ k, e.valueOf k = m.lookup k

/-! ## Steps and runs -/

variable (conf : Config) (codec : Codec)

/-- One successful operation of the writer, with its output. -/
inductive Step : Engine → Op → Option Bool → Engine → Prop
  | put {e e' : Engine} (t : Int) (key value : Bytes) :
      Writer.put conf codec t key value e = .ok () e' → Step e (.put t key value) none e'
  | delete {e e' : Engine} {b : Bool} (t : Int) (key : Bytes) :
      Writer.delete conf codec t key e = .ok b e' → Step e (.delete t key) (some b) e'
  | merge {e e' : Engine} (fileids : List Nat) : (∀ f ∈ fileids, f ∈ e.ctx.stats) →
      Writer.mergeFiles conf fileids (e.writer.activeFileid + 1) e = .ok () e' →
      Step e (.merge fileids) none e'

/-- A run of successful operations, with their outputs. -/
inductive Steps : Engine → List Op → List (Option Bool) → Engine → Prop
  | nil {e : Engine} : Steps e [] [] e
  | cons {e e₁ e' : Engine} {op : Op} {out : Option Bool} {ops : List Op}
      {outs : List (Option Bool)} :
      Step conf codec e op out e₁ → Steps e₁ ops outs e' → Steps e (op :: ops) (out :: outs) e'

/-- The states of an engine over the lifetime of one directory. -/
inductive Reachable : Engine → Prop
  | open {e : Engine} : Engine.open Disk.empty = .ok e → Reachable e
  | step {e e' : Engine} {op : Op} {out : Option Bool} :
      Reachable e → Step conf codec e op out e' → Reachable e'
  | reopen {e e' : Engine} : Reachable e → Engine.open e.disk = .ok e' → Reachable e'

variable {conf codec} {e e' e₀ : Engine} {op : Op} {out : Option Bool}

/-- Every successful `Writer::merge` is a merge step, on the set `fileids_to_merge`
selects. -/
theorem Step.of_merge (h : Inv e) (hrun : Writer.merge conf e = .ok () e') :
    ∃ S, Step conf codec e (.merge S) none e' := by
  obtain ⟨S, hsel, hS⟩ := fileidsToMerge_spec conf h
  refine ⟨S, .merge S hS ?_⟩
  rw [← hrun]
  simp [Writer.merge, bind, EStateM.bind, getThe, MonadStateOf.get, EStateM.get, hsel]

/-- **One step.**  A successful operation keeps the invariant, and on an engine that
stands for a map it returns the map's answer and leaves an engine standing for the
updated map. -/
theorem Step.spec (h : Inv e) (hs : Step conf codec e op out e') :
    Inv e' ∧ ∀ m, e.Refines m → e'.Refines (op.apply m) ∧ out = op.output m := by
  cases hs with
  | put t key value hrun =>
      obtain ⟨e'', h1, hinv, hval⟩ := Writer.put_spec conf codec h t key value
      rw [hrun] at h1; cases h1
      refine ⟨hinv, fun m hm => ⟨fun k => ?_, rfl⟩⟩
      by_cases hk : k = key
      · subst hk; simp [Op.apply, hval]
      · simp [Op.apply, hval, hk, AList.lookup_insert_ne hk, hm k]
  | delete t key hrun =>
      obtain ⟨e'', h1, hinv, hval⟩ := Writer.delete_spec conf codec h t key
      rw [hrun] at h1; cases h1
      refine ⟨hinv, fun m hm => ⟨fun k => ?_, congrArg some (Bool.eq_iff_iff.2 ?_)⟩⟩
      · by_cases hk : k = key
        · subst hk; simp [Op.apply, hval]
        · simp [Op.apply, hval, hk, AList.lookup_erase_ne hk, hm k]
      · rw [hm key, decide_eq_true_iff]; exact AList.lookup_isSome
  | merge S hS hrun =>
      obtain ⟨e'', h1, hpost⟩ := Writer.mergeFiles_spec conf h hS
      rw [hrun] at h1; cases h1
      exact ⟨hpost.inv, fun m hm => ⟨fun k => by rw [hpost.valueOf_eq]; exact hm k, rfl⟩⟩

/-- **A run.**  A run of successful operations keeps the invariant, returns the outputs
the map returns, and leaves an engine standing for the map the run builds. -/
theorem Steps.spec {ops : List Op} {outs : List (Option Bool)}
    (hs : Steps conf codec e ops outs e') :
    Inv e → ∀ m, e.Refines m → Inv e' ∧ e'.Refines (Op.run ops m).1 ∧ outs = (Op.run ops m).2 := by
  induction hs with
  | nil => exact fun h m hm => ⟨h, hm, rfl⟩
  | cons hstep _ ih =>
      intro h m hm
      obtain ⟨hinv, hmap⟩ := hstep.spec h
      obtain ⟨hm', hout⟩ := hmap m hm
      obtain ⟨hinv', hm'', houts⟩ := ih hinv _ hm'
      exact ⟨hinv', hm'', by rw [hout, houts]; rfl⟩

/-- Opening a directory with `DiskInv` gives an engine with the invariant. -/
theorem Inv.of_open {d : Disk} (hd : DiskInv d) (h : Engine.open d = .ok e) : Inv e := by
  obtain ⟨e'', h1, hinv, -⟩ := Engine.open_spec hd
  rw [h] at h1; cases h1
  exact hinv

/-- The engine `Bitcask::open` returns on an empty directory: empty maps, and the writer
on a new data file `0`. -/
def Engine.initial : Engine := ⟨⟨[], ∅, ∅⟩, ⟨⟨0⟩, 0, 0⟩, Disk.empty.create (.data 0)⟩

theorem Engine.open_empty : Engine.open Disk.empty = .ok Engine.initial := rfl

/-- The engine opened on an empty directory stands for the empty map. -/
theorem Engine.refines_open_empty (h : Engine.open Disk.empty = .ok e) : e.Refines ∅ := by
  rw [Engine.open_empty] at h; cases h
  exact fun _ => rfl

/-- **Every reachable state satisfies the invariant.** -/
theorem Reachable.inv (h : Reachable conf codec e) : Inv e := by
  induction h with
  | «open» hopen => exact Inv.of_open diskInv_empty hopen
  | step _ hs ih => exact (hs.spec ih).1
  | reopen _ hopen ih => exact Inv.of_open ih.diskInv hopen

/-- A run followed by one more step is a run. -/
theorem Steps.snoc {e₁ : Engine} {ops : List Op} {outs : List (Option Bool)}
    (hs : Steps conf codec e ops outs e₁) (hstep : Step conf codec e₁ op out e') :
    Steps conf codec e (ops ++ [op]) (outs ++ [out]) e' := by
  induction hs with
  | nil => exact .cons hstep .nil
  | cons h _ ih => exact .cons h (ih hstep)

/-! ## The engine is a finite map -/

/-- **The engine is a finite map.**  After any run of successful `put`, `delete` and
`merge` operations on an engine opened on an empty directory, with any `max_file_size`
and any merge sets, `Reader::get` returns for every key what the map built by the run
holds, and the run returned what the map returns: every `delete` answered whether its
key was in the map just before it. -/
theorem map_refinement {ops : List Op} {outs : List (Option Bool)}
    (h₀ : Engine.open Disk.empty = .ok e₀) (hs : Steps conf codec e₀ ops outs e) :
    outs = (Op.run ops ∅).2 ∧ ∀ k, Reader.get e k = .ok ((Op.run ops ∅).1.lookup k) := by
  obtain ⟨hinv, hm, houts⟩ :=
    hs.spec (Inv.of_open diskInv_empty h₀) ∅ (Engine.refines_open_empty h₀)
  exact ⟨houts, fun k => by rw [Reader.get_of_valid hinv.accounts.valid, hm k]⟩

/-- A run with an overwrite, a rollover, a delete and a merge of the first file. -/
theorem map_refinement_sample :
    ∃ e, Steps ⟨1, 30, ⟨0, 0, 0⟩⟩ Codec.sample Engine.initial
        [.put 0 [1] [2], .put 1 [2] [3], .put 2 [1] [4], .delete 3 [2], .merge [0]]
        [none, none, none, some true, none] e ∧
      Reader.get e [1] = .ok (some [4]) ∧ Reader.get e [2] = .ok none := by
  have h₄ : Steps ⟨1, 30, ⟨0, 0, 0⟩⟩ Codec.sample Engine.initial
      [.put 0 [1] [2], .put 1 [2] [3], .put 2 [1] [4], .delete 3 [2]]
      [none, none, none, some true] _ :=
    .cons (.put 0 [1] [2] rfl) (.cons (.put 1 [2] [3] rfl) (.cons (.put 2 [1] [4] rfl)
      (.cons (.delete 3 [2] rfl) .nil)))
  have hinv := (h₄.spec (Inv.of_open diskInv_empty Engine.open_empty) ∅
    (Engine.refines_open_empty Engine.open_empty)).1
  obtain ⟨e₅, hrun, -⟩ := Writer.mergeFiles_spec ⟨1, 30, ⟨0, 0, 0⟩⟩ hinv
    (show ∀ f ∈ [0], f ∈ _ by decide)
  have hs := h₄.snoc (.merge [0] (by decide) hrun)
  exact ⟨e₅, hs, (map_refinement Engine.open_empty hs).2 [1],
    (map_refinement Engine.open_empty hs).2 [2]⟩

/-! ## Invariants of every reachable state -/

/-- **KeyDir validity.**  In every reachable state, each KeyDir entry `k ↦ (fileid, len, pos)`
names an existing data file, `[pos, pos + len)` lies within its written bytes, and the
record framed there has key `k` and a value: the premise of the `unsafe` reads. -/
theorem keydir_entries_valid (h : Reachable conf codec e) (k : Bytes) (entry : KeyDirEntry)
    (hk : e.ctx.keydir.lookup k = some entry) :
    ∃ file fr, e.disk.datafiles.lookup entry.fileid = some file ∧
      entry.pos + entry.len ≤ file.size ∧ file.read entry.len entry.pos = some fr ∧
      fr.entry.key = k ∧ fr.entry.value.isSome := by
  obtain ⟨file, fr, hfile, hread, hkey, hval, -⟩ := h.inv.accounts.valid k entry hk
  obtain ⟨hat, hlen⟩ := DataFile.read_eq_some.1 hread
  exact ⟨file, fr, hfile, hlen ▸ DataFile.frameAt_bound hat, hread, hkey, hval⟩

/-- After two puts, a rollover and a reopen, the entry of the second key, rebuilt from
data file `0`, frames its record. -/
theorem keydir_entries_valid_reopened :
    ∃ e, Reachable ⟨1, 30, ⟨0, 0, 0⟩⟩ Codec.sample e ∧
      e.ctx.keydir.lookup [2] = some ⟨0, 27, 27, 1⟩ ∧
      ∃ file fr, e.disk.datafiles.lookup 0 = some file ∧ 27 + 27 ≤ file.size ∧
        file.read 27 27 = some fr ∧ fr.entry.key = [2] ∧ fr.entry.value.isSome := by
  have h : Reachable ⟨1, 30, ⟨0, 0, 0⟩⟩ Codec.sample _ :=
    .reopen (.step (.step (.open Engine.open_empty) (.put 0 [1] [2] rfl)) (.put 1 [2] [3] rfl)) rfl
  exact ⟨_, h, rfl, keydir_entries_valid h [2] ⟨0, 27, 27, 1⟩ rfl⟩

/-- **Statistics accounting.**  In every reachable state, for every file id (a missing
statistics entry read as zeros): `live_keys` is the number of keys whose entry points into
the file, `dead_keys` and `dead_bytes` are the number and total length of the file's
records no entry names, and every file an entry points into has a live key, so
`LogStatistics::overwrite` never subtracts below zero. -/
theorem stats_account (h : Reachable conf codec e) (f : Nat) :
    (statsOf e.ctx.stats f).liveKeys = (e.ctx.keydir.entries.filter fun s => s.2.fileid = f).length ∧
      (statsOf e.ctx.stats f).deadKeys = (unreferenced e.ctx.keydir e.disk.datafiles f).length ∧
      (statsOf e.ctx.stats f).deadBytes =
        ((unreferenced e.ctx.keydir e.disk.datafiles f).map (·.1.len)).sum ∧
      ∀ k prev, e.ctx.keydir.lookup k = some prev →
        1 ≤ (statsOf e.ctx.stats prev.fileid).liveKeys := by
  have hacc := h.inv.accounts
  obtain ⟨hdead, hbytes⟩ := (hacc.accounts f).dead_eq_unreferenced hacc.valid
  refine ⟨(hacc.accounts f).live.trans (entriesTotal_inFile f _), hdead, hbytes,
    fun k prev hk => ?_⟩
  rw [(hacc.accounts _).live]
  exact one_le_liveKeysIn hk

/-- After an overwrite and a reopen, file `0` holds one live and one dead record. -/
theorem stats_account_reopened :
    ∃ e, Reachable ⟨1, 1000, ⟨0, 0, 0⟩⟩ Codec.sample e ∧
      statsOf e.ctx.stats 0 = ⟨1, 1, 27⟩ ∧
      ((statsOf e.ctx.stats 0).liveKeys =
          (e.ctx.keydir.entries.filter fun s => s.2.fileid = 0).length ∧
        (statsOf e.ctx.stats 0).deadKeys = (unreferenced e.ctx.keydir e.disk.datafiles 0).length ∧
        (statsOf e.ctx.stats 0).deadBytes =
          ((unreferenced e.ctx.keydir e.disk.datafiles 0).map (·.1.len)).sum ∧
        ∀ k prev, e.ctx.keydir.lookup k = some prev →
          1 ≤ (statsOf e.ctx.stats prev.fileid).liveKeys) := by
  have h : Reachable ⟨1, 1000, ⟨0, 0, 0⟩⟩ Codec.sample _ :=
    .reopen (.step (.step (.open Engine.open_empty) (.put 0 [1] [2] rfl)) (.put 1 [1] [3] rfl)) rfl
  exact ⟨_, h, rfl, stats_account h 0⟩

/-- A creation is never the creation it follows. -/
theorem Fresh.ne {a b : FileName} (h : Fresh a b) : a ≠ b := by
  rintro rfl
  rcases h with hlt | ⟨h1, h2⟩
  · exact Nat.lt_irrefl _ hlt
  · rw [h1] at h2; cases h2

/-- **File ids are fresh.**  Over the lifetime of a directory, every file `log::create`
makes is created once, and it has a larger id than every file created before it, except
for the hint file merge creates for a merge data file, which carries that data file's id. -/
theorem created_files_fresh (h : Reachable conf codec e) :
    e.disk.created.Pairwise Fresh ∧ e.disk.created.Nodup :=
  have hp := h.inv.writer.below.created_fresh
  ⟨hp, hp.imp Fresh.ne⟩

/-- Rollovers, a reopen and a merge on one directory create only fresh files. -/
theorem created_files_fresh_sample :
    ∃ e, Reachable ⟨1, 30, ⟨0, 0, 0⟩⟩ Codec.sample e ∧
      e.disk.created.Pairwise Fresh ∧ e.disk.created.Nodup := by
  have h₁ : Reachable ⟨1, 30, ⟨0, 0, 0⟩⟩ Codec.sample _ :=
    .reopen (.step (.step (.open Engine.open_empty) (.put 0 [1] [2] rfl)) (.put 1 [2] [3] rfl)) rfl
  obtain ⟨e', hrun, -⟩ := Writer.mergeFiles_spec ⟨1, 30, ⟨0, 0, 0⟩⟩ h₁.inv
    (show ∀ f ∈ [0], f ∈ _ by decide)
  have h₂ := h₁.step (.merge [0] (by decide) hrun)
  exact ⟨e', h₂, created_files_fresh h₂⟩

/-- A merge creates its hint file under the id of the merge data file it created just
before: on a fresh directory, the files created are data `0` by the open, data `1` and
hint `1` by the merge, and data `2` for the new active file. -/
theorem merge_hint_shares_data_id :
    ∃ e, Reachable ⟨1, 30, ⟨0, 0, 0⟩⟩ Codec.sample e ∧
      e.disk.created = [.data 0, .data 1, .hint 1, .data 2] ∧
      ¬ e.disk.created.Pairwise fun a b => a.fileid < b.fileid := by
  have h : Reachable ⟨1, 30, ⟨0, 0, 0⟩⟩ Codec.sample _ :=
    .step (.open Engine.open_empty) (.merge [] (by simp) rfl)
  exact ⟨_, h, rfl, by decide⟩

end Bitcask
