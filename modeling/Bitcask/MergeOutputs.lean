import Bitcask.Run

/-!
# What the merge files hold

`Bitcask.MergeCorrect` shows that a merge keeps the invariant and moves no key's record.
This file reads off what that means for the files a merge writes:

* the KeyDir keeps its key set;
* every record of a merge data file is the copy of exactly one key that pointed into the
  merge set, and that key's entry now names it, so no entry is lost or copied twice;
* recovery through a merge file's hint file builds the same KeyDir and statistics as
  recovery through its data file.

## Main Definitions

* `MergeCopies` — the one-record-per-moved-key property of the merge files.

## Main Statements

* `merge_postcondition` — a successful `Writer::merge` on the set `fileids_to_merge`
  selects establishes `MergePost`, keeps the key set, and writes `MergeCopies`.
* `merge_hints_agree` — for every merge file and every starting KeyDir and statistics,
  `populate_keydir_with_hintfile` and `populate_keydir_with_datafile` return the same
  result.
-/

namespace Bitcask

/-- Every record of every merge file (the ids after the old active file and before the
new one) is named by the new entry of exactly one key, and that key's entry before the
merge pointed into the merge set. -/
def MergeCopies (S : List Nat) (e e' : Engine) : Prop :=
  ∀ j, e.writer.activeFileid < j → j < e'.writer.activeFileid →
    ∀ p ∈ DataFile.logIterator (framesOf e'.disk.datafiles j) 0,
      ∃! k, ∃ entry entry', e.ctx.keydir.lookup k = some entry ∧ entry.fileid ∈ S ∧
        e'.ctx.keydir.lookup k = some entry' ∧ entry'.fileid = j ∧ entry'.pos = p.1.pos ∧
        entry'.len = p.1.len

variable {conf : Config} {codec : Codec} {S : List Nat} {e e' : Engine}

/-- A merge keeps the KeyDir's key set: it moves frames, and a valid KeyDir has a frame
exactly for its keys. -/
theorem MergePost.mem_keydir (hp : MergePost S e e') (h : Inv e) (k : Bytes) :
    k ∈ e'.ctx.keydir ↔ k ∈ e.ctx.keydir := by
  rw [← AList.lookup_isSome, ← AList.lookup_isSome, ← isSome_lookupFrame hp.inv.accounts.valid,
    ← isSome_lookupFrame h.accounts.valid, hp.frames]

/-- Each record of a merge file is named by exactly one key, which came from the merge
set: a merge file has no dead keys, so every record is named; two keys naming one record
are one key; and an entry outside the merge set stays in a file older than every merge
file. -/
theorem MergePost.copies (hp : MergePost S e e') (h : Inv e) : MergeCopies S e e' := by
  intro j hA hj p hmem
  obtain ⟨-, -, hdead, -⟩ := hp.outputs j hA hj
  have hv' := hp.inv.accounts.valid
  obtain ⟨k, entry', hk', hf, hpos, hlen⟩ :=
    (hp.inv.accounts.accounts j).referenced_of_deadKeys hv' hdead hmem
  refine ⟨k, ?_, fun k₂ ⟨_, entry₂', _, _, hk₂', hf₂, hpos₂, hlen₂⟩ =>
    hv'.key_eq hk₂' hk' (hf₂.trans hf.symm) (hpos₂.trans hpos.symm) (hlen₂.trans hlen.symm)⟩
  obtain ⟨entry, hk⟩ := Option.isSome_iff_exists.1
    (AList.lookup_isSome.2 ((hp.mem_keydir h k).1 (mem_of_lookup hk')))
  refine ⟨entry, entry', hk, ?_, hk', hf, hpos, hlen⟩
  by_contra hS
  have hkeep := hp.outside k entry hk hS
  rw [hk'] at hkeep; cases hkeep
  have hold := h.writer.below.data_lt _ (h.accounts.valid k _ hk).mem
  omega

/-- **The merge postcondition.**  From a state with the invariant, a successful
`Writer::merge` with the set `S` that `fileids_to_merge` selected leaves the same key set;
the entries outside `S` unchanged and those inside moved into the merge files, each
naming the record it named before (`MergePost.outside`, `.moved`, `.frames`); every record
of a merge file the copy of exactly one moved key (`MergeCopies`); no statistics, entry,
data file or hint file of `S` (`.removed`); `S` in the merged set, and the new active id
one past the last merge file (`.merged`, `.active`, `.outputs`). -/
theorem merge_postcondition (h : Inv e) (hsel : fileidsToMerge conf e = .ok S e)
    (hrun : Writer.merge conf e = .ok () e') :
    MergePost S e e' ∧ (∀ k, k ∈ e'.ctx.keydir ↔ k ∈ e.ctx.keydir) ∧ MergeCopies S e e' := by
  have hp := MergePost.of_merge conf h hsel hrun
  exact ⟨hp, hp.mem_keydir h, hp.copies h⟩

/-- Two keys in file `0` and one in file `1`, merged with every small file selected. -/
theorem merge_postcondition_sample :
    ∃ e S e', Reachable ⟨1, 30, ⟨0, 0, 100⟩⟩ Codec.sample e ∧
      fileidsToMerge ⟨1, 30, ⟨0, 0, 100⟩⟩ e = .ok S e ∧
      Writer.merge ⟨1, 30, ⟨0, 0, 100⟩⟩ e = .ok () e' ∧
      (MergePost S e e' ∧ (∀ k, k ∈ e'.ctx.keydir ↔ k ∈ e.ctx.keydir) ∧ MergeCopies S e e') := by
  have hr : Reachable ⟨1, 30, ⟨0, 0, 100⟩⟩ Codec.sample _ :=
    .step (.step (.step (.open Engine.open_empty) (.put 0 [1] [2] rfl)) (.put 1 [2] [3] rfl))
      (.put 2 [3] [4] rfl)
  obtain ⟨S, e', hsel, hrun, -⟩ := Writer.merge_spec ⟨1, 30, ⟨0, 0, 100⟩⟩ hr.inv
  exact ⟨_, S, e', hr, hsel, hrun, merge_postcondition hr.inv hsel hrun⟩

/-- **Hint replay agrees with data replay on merge files.**  For every file a successful
`Writer::merge` wrote, from a state with the invariant, and for every KeyDir and
statistics to start from, `populate_keydir_with_hintfile` and
`populate_keydir_with_datafile` both succeed with the same result. -/
theorem merge_hints_agree (h : Inv e) (hrun : Writer.merge conf e = .ok () e') (j : Nat)
    (hA : e.writer.activeFileid < j) (hj : j < e'.writer.activeFileid) (acc : Recovered) :
    ∃ r, populateKeydirWithHintfile e'.disk j acc = .ok r ∧
      populateKeydirWithDatafile e'.disk j acc = .ok r := by
  obtain ⟨S, e'', -, hrun', hp⟩ := Writer.merge_spec conf h
  rw [hrun] at hrun'; cases hrun'
  obtain ⟨-, hhint, -⟩ := hp.outputs j hA hj
  obtain ⟨hint, hl⟩ := Option.isSome_iff_exists.1 (AList.lookup_isSome.2 hhint)
  obtain ⟨file, hf, rfl, hval⟩ := hp.inv.writer.below.hints j hint hl
  exact ⟨(DataFile.logIterator file 0).foldl (datafileStep j) acc,
    by simp [populateKeydirWithHintfile, hl, foldl_hintfileStep_hintsOf j file hval],
    by simp [populateKeydirWithDatafile, hf]⟩

/-- The first merge file of a merge of two small files agrees under both replays. -/
theorem merge_hints_agree_sample :
    ∃ e e', Reachable ⟨1, 30, ⟨0, 0, 100⟩⟩ Codec.sample e ∧
      Writer.merge ⟨1, 30, ⟨0, 0, 100⟩⟩ e = .ok () e' ∧
      e.writer.activeFileid < e.writer.activeFileid + 1 ∧
      e.writer.activeFileid + 1 < e'.writer.activeFileid ∧
      ∃ r, populateKeydirWithHintfile e'.disk (e.writer.activeFileid + 1) (∅, ∅) = .ok r ∧
        populateKeydirWithDatafile e'.disk (e.writer.activeFileid + 1) (∅, ∅) = .ok r := by
  have hr : Reachable ⟨1, 30, ⟨0, 0, 100⟩⟩ Codec.sample _ :=
    .step (.step (.step (.open Engine.open_empty) (.put 0 [1] [2] rfl)) (.put 1 [2] [3] rfl))
      (.put 2 [3] [4] rfl)
  obtain ⟨S, e', -, hrun, hp⟩ := Writer.merge_spec ⟨1, 30, ⟨0, 0, 100⟩⟩ hr.inv
  exact ⟨_, e', hr, hrun, Nat.lt_succ_self _, hp.active,
    merge_hints_agree hr.inv hrun _ (Nat.lt_succ_self _) hp.active (∅, ∅)⟩

end Bitcask
