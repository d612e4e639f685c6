import Bitcask.Recovery
import Bitcask.Invariant

/-!
# Recovery keeps the invariant, but not the map

`rebuild_storage` replays every data file, in ascending id order, into a fresh KeyDir and
fresh statistics.  The replay of one record is one of the steps of `Bitcask.Accounting`
on a *virtual* directory that holds the records replayed so far: a value is
`Accounts.appendLive`, a tombstone `Accounts.appendDead`, and a new file
`Accounts.createEmpty`.  When the loop ends the virtual directory has the same files as
the real one, so the rebuilt maps satisfy `Accounts` there (`rebuildStorage_spec`).

A hint file changes nothing in this: a hint file lists the records of its data file, all
of them values (`HintsAgree`), and replaying it is replaying the data file
(`foldl_hintfileStep_hintsOf`).

## Main Statements

* `Engine.open_spec` — on a directory the engine produced, `Bitcask::open` succeeds and
  the engine it returns satisfies `Inv`.
* `reopen_after_delete_resurrects` — the replay keeps a key whose last record is a
  tombstone: after `put`, `delete` and a reopen the deleted value is back, and the
  statistics of the file differ from those before the close.
-/

namespace Bitcask

/-! ## One file -/

/-- `recoverLive` is the KeyDir and statistics update of `Accounts.appendLive`. -/
theorem recoverLive_eq (f : Nat) (acc : Recovered) (key : Bytes) (entry : KeyDirEntry) :
    recoverLive f acc key entry =
      (acc.1.insert key entry, overwritePrev (updateStats acc.2 f .addLive) (acc.1.lookup key)) := by
  unfold recoverLive
  split <;> simp_all [overwritePrev]

/-- **Hint replay is data replay** for a file whose records are all values, read through
the hint file that lists them. -/
theorem foldl_hintfileStep_hintsOf (f : Nat) (file : DataFile)
    (hv : ∀ fr ∈ file, fr.entry.value.isSome) (acc : Recovered) :
    (DataFile.hintsOf file).foldl (hintfileStep f) acc =
      (DataFile.logIterator file 0).foldl (datafileStep f) acc := by
  rw [DataFile.hintsOf, List.foldl_map]
  refine List.foldl_ext _ _ _ fun acc item hi => ?_
  obtain ⟨-, fr, hfr, -, he⟩ := DataFile.mem_logIterator.1 (show (item.1, item.2) ∈ _ from hi)
  obtain ⟨v, hv⟩ := Option.isSome_iff_exists.1 (he ▸ hv fr (DataFile.frameAt_mem hfr))
  simp [datafileStep, hintfileStep, hv]

/-- Replaying the records `more` of file `f`, which follow `pre`, is a run of the
accounting steps on a virtual directory where `f` holds `pre`. -/
theorem Accounts.replay {kd : KeyDir} {stats : Stats} {vf : FileMap DataFile} {f : Nat}
    {pre : DataFile} (h : Accounts kd stats vf) (hf : vf.lookup f = some pre) (more : DataFile) :
    Accounts ((DataFile.logIterator more pre.size).foldl (datafileStep f) (kd, stats)).1
      ((DataFile.logIterator more pre.size).foldl (datafileStep f) (kd, stats)).2
      (vf.insert f (pre ++ more)) := by
  induction more generalizing kd stats vf pre with
  | nil =>
      refine h.congr fun g => ?_
      by_cases hg : g = f
      · subst hg; simp [hf]
      · simp [AList.lookup_insert_ne hg]
  | cons fr rest ih =>
      have hnext : (vf.insert f (pre ++ [fr])).lookup f = some (pre ++ [fr]) := by simp
      have hrest : (vf.insert f (pre ++ [fr])).insert f (pre ++ [fr] ++ rest) =
          vf.insert f (pre ++ fr :: rest) := by simp [AList.insert_insert]
      rw [DataFile.logIterator_cons, List.foldl_cons, ← hrest,
        show pre.size + fr.len = (pre ++ [fr]).size by simp]
      cases hv : fr.entry.value with
      | none =>
          have hstep : datafileStep f (kd, stats) (⟨fr.len, pre.size⟩, fr.entry) =
              (kd, updateStats stats f (·.addDead fr.len)) := by simp [datafileStep, hv]
          rw [hstep]
          exact ih (h.appendDead hf fr) hnext
      | some v =>
          have hstep : datafileStep f (kd, stats) (⟨fr.len, pre.size⟩, fr.entry) =
              (kd.insert fr.entry.key ⟨f, fr.len, pre.size, fr.entry.tstamp⟩,
                overwritePrev (updateStats stats f .addLive) (kd.lookup fr.entry.key)) := by
            simp [datafileStep, hv, recoverLive_eq]
          rw [hstep]
          exact ih (h.appendLive hf fr (by simp [hv])) hnext

/-- One file of `rebuild_storage`: through the hint file when there is one, through the
data file otherwise, the result is the data-file replay. -/
theorem rebuildFile_eq {d : Disk} (hh : HintsAgree d.datafiles d.hintfiles) {f : Nat} {file : DataFile}
    (hf : d.datafiles.lookup f = some file) (acc : Recovered) :
    rebuildFile d acc f = .ok ((DataFile.logIterator file 0).foldl (datafileStep f) acc) := by
  cases hl : d.hintfiles.lookup f with
  | none => simp [rebuildFile, populateKeydirWithHintfile, populateKeydirWithDatafile, hl, hf]
  | some hint =>
      obtain ⟨file', h1, rfl, hv⟩ := hh f hint hl
      rw [hf] at h1
      cases h1
      simp [rebuildFile, populateKeydirWithHintfile, hl, foldl_hintfileStep_hintsOf f file hv]

/-! ## The loop over the files -/

/-- The id the loop ends with bounds every id it walked over. -/
theorem rebuildFrom_bound {d : Disk} : ∀ {ids : List Nat} {acc acc' : Recovered}
    {o o' : Option Nat}, rebuildFrom d ids acc o = .ok (acc', o') →
      ∀ f, f ∈ ids ∨ o = some f → ∃ m, o' = some m ∧ f ≤ m
  | [], acc, acc', o, o', h, f, hf => by
      simp only [rebuildFrom, Except.ok.injEq, Prod.mk.injEq] at h
      obtain ⟨-, rfl⟩ := h
      rcases hf with hf | rfl
      · simp at hf
      · exact ⟨f, rfl, le_rfl⟩
  | g :: rest, acc, acc', o, o', h, f, hf => by
      simp only [rebuildFrom] at h
      split at h
      · rename_i acc₁ _
        have step : ∀ m, g ≤ m → (∀ f, o = some f → f ≤ m) →
            rebuildFrom d rest acc₁ (some m) = .ok (acc', o') → ∃ m', o' = some m' ∧ f ≤ m' := by
          intro m hgm hom hr
          obtain ⟨m', hm', hmm'⟩ := rebuildFrom_bound hr m (.inr rfl)
          rcases hf with hf | hf
          · rcases List.mem_cons.1 hf with rfl | hf
            · exact ⟨m', hm', by omega⟩
            · exact rebuildFrom_bound hr f (.inl hf)
          · exact ⟨m', hm', le_trans (hom f hf) hmm'⟩
        cases o with
        | none => exact step g le_rfl (by simp) h
        | some id =>
            exact step _ (by split_ifs <;> omega) (fun f hf => by cases hf; split_ifs <;> omega) h
      · cases h

/-- The loop of `rebuild_storage` over distinct ids of existing files: it succeeds, and the
maps it builds satisfy `Accounts` on the virtual directory extended by those files. -/
theorem rebuildFrom_spec {d : Disk} (hh : HintsAgree d.datafiles d.hintfiles) : ∀ (ids : List Nat) (acc : Recovered)
    (vf : FileMap DataFile) (o : Option Nat), ids.Nodup → (∀ f ∈ ids, f ∈ d.datafiles) →
    (∀ f ∈ ids, f ∉ vf) → Accounts acc.1 acc.2 vf →
      ∃ acc' o' vf', rebuildFrom d ids acc o = .ok (acc', o') ∧ Accounts acc'.1 acc'.2 vf' ∧
        ∀ g, vf'.lookup g = if g ∈ ids then d.datafiles.lookup g else vf.lookup g
  | [], acc, vf, o, _, _, _, h => ⟨acc, o, vf, rfl, h, by simp⟩
  | f :: rest, acc, vf, o, hnd, hmem, hfresh, h => by
      obtain ⟨file, hf⟩ := Option.isSome_iff_exists.1
        (AList.lookup_isSome.2 (hmem f (List.mem_cons_self _ _)))
      have h0 : (vf.insert f ([] : DataFile)).lookup f = some [] := by simp
      have hacc := (h.createEmpty (hfresh f (List.mem_cons_self _ _))).replay h0 file
      simp only [DataFile.size_nil, List.nil_append, AList.insert_insert] at hacc
      have hnd' := List.nodup_cons.1 hnd
      obtain ⟨acc', o', vf', hrun, hacc', hvf'⟩ := rebuildFrom_spec hh rest _ _ _ hnd'.2
        (fun g hg => hmem g (List.mem_cons_of_mem _ hg))
        (fun g hg hgm => by
          rcases (AList.mem_insert _).1 hgm with rfl | hgm
          · exact hnd'.1 hg
          · exact hfresh g (List.mem_cons_of_mem _ hg) hgm)
        hacc
      refine ⟨acc', o', vf', ?_, hacc', fun g => ?_⟩
      · simp only [rebuildFrom, rebuildFile_eq hh hf]
        exact hrun
      · rw [hvf']
        by_cases hg : g = f
        · subst hg; simp [hnd'.1, hf]
        · simp [AList.lookup_insert_ne hg, hg]

/-! ## Reopening -/

/-- What the results on recovery assume of a directory, more than `rebuild_storage` needs
to succeed: every hint file lists exactly the records of its data file, all of them values
(`HintsAgree`); every creation was fresh and is bounded by an existing data file; and no
file operation is going to fail.  Every directory the engine leaves between operations has
it (`Inv.diskInv`); the directory a lost flush of the merge `BufWriter` leaves does not,
since its hint file lists records its data file lacks. -/
structure DiskInv (d : Disk) : Prop where
  noFaults : d.faults = []
  created_fresh : d.created.Pairwise Fresh
  hints : HintsAgree d.datafiles d.hintfiles
  created_le : ∀ x ∈ d.created, ∃ f ∈ d.datafiles, x.fileid ≤ f

theorem diskInv_empty : DiskInv Disk.empty :=
  ⟨rfl, List.Pairwise.nil, fun _ _ h => by simp [Disk.empty] at h, fun _ h => by
    simp [Disk.empty] at h⟩

/-- Every engine with the invariant leaves a directory with `DiskInv`. -/
theorem Inv.diskInv {e : Engine} (h : Inv e) : DiskInv e.disk :=
  ⟨h.writer.below.noFaults, h.writer.below.created_fresh, h.writer.below.hints,
    fun x hx => ⟨_, h.writer.active_mem, Nat.lt_succ_iff.1 (h.writer.below.created_lt x hx)⟩⟩

theorem mem_sortedFileids {d : Disk} {f : Nat} : f ∈ sortedFileids d ↔ f ∈ d.datafiles := by
  simp [sortedFileids, (List.perm_insertionSort _ _).mem_iff, AList.mem_keys]

/-- `rebuild_storage` succeeds on such a directory; the maps it returns satisfy `Accounts`,
and the directory lies below the id it returns for the new active file. -/
theorem rebuildStorage_spec {d : Disk} (h : DiskInv d) :
    ∃ kd stats n, rebuildStorage d = .ok (kd, stats, n) ∧ Accounts kd stats d.datafiles ∧
      DiskBelow d n := by
  have hempty : Accounts (∅ : KeyDir) (∅ : Stats) (∅ : FileMap DataFile) :=
    ⟨fun _ _ h => by simp at h, fun _ => ⟨rfl, rfl, rfl⟩, fun _ h => by simp at h⟩
  obtain ⟨⟨kd, stats⟩, o', vf', hrun, hacc, hvf'⟩ := rebuildFrom_spec h.hints (sortedFileids d)
    (∅, ∅) ∅ none ((List.perm_insertionSort _ _).nodup_iff.2 d.datafiles.keys_nodup)
    (fun _ => mem_sortedFileids.1) (fun _ _ => by simp) hempty
  have hlt : ∀ f ∈ d.datafiles, f < (o'.map (· + 1)).getD 0 := fun f hf => by
    obtain ⟨m, rfl, hm⟩ := rebuildFrom_bound hrun f (.inl (mem_sortedFileids.2 hf))
    simp; omega
  refine ⟨kd, stats, _, by simp [rebuildStorage, hrun], hacc.congr fun g => ?_,
    ⟨h.noFaults, hlt, fun f hf => ?_, fun x hx => ?_, h.created_fresh, h.hints⟩⟩
  · rw [hvf']
    by_cases hg : g ∈ d.datafiles
    · simp [mem_sortedFileids.2 hg]
    · simp [mem_sortedFileids, hg, AList.lookup_eq_none.2 hg]
  · obtain ⟨file, hfile, -⟩ := h.hints f _ (Option.get_mem (AList.lookup_isSome.2 hf))
    exact hlt f (mem_of_lookup hfile)
  · obtain ⟨f, hf, hle⟩ := h.created_le x hx
    have := hlt f hf; omega

/-- **Reopening keeps the invariant.**  On a directory the engine produced, `Bitcask::open`
succeeds, and the engine it returns satisfies `Inv`; its directory is the old one with the
new active file added. -/
theorem Engine.open_spec {d : Disk} (h : DiskInv d) :
    ∃ e, Engine.open d = .ok e ∧ Inv e ∧ e.disk = d.create (.data e.writer.activeFileid) := by
  obtain ⟨kd, stats, n, hrun, hacc, hbelow⟩ := rebuildStorage_spec h
  refine ⟨⟨⟨[], kd, stats⟩, ⟨⟨n⟩, n, 0⟩, d.create (.data n)⟩, ?_,
    ⟨hbelow.startActive, hacc.createEmpty fun hm => Nat.lt_irrefl n (hbelow.data_lt n hm)⟩, rfl⟩
  simp [Engine.open, hrun, bind, EStateM.bind, create_of_noFaults, hbelow.noFaults,
    LogWriter.new_of_noFaults]

/-- Reopening after a delete brings the deleted value back.  `put` and `delete` of one key
leave the key absent and file `0` with two dead records; the data-file replay counts the
tombstone dead but keeps the key's entry for the older value, so after the reopen the key
reads that value again and file `0` has one live and one dead record. -/
theorem reopen_after_delete_resurrects :
    ∃ e₀ e₁ e₂, Engine.open Disk.empty = .ok e₀ ∧
      (do Writer.put ⟨1, 1000, ⟨0, 0, 0⟩⟩ Codec.sample 0 [1] [2]
          Writer.delete ⟨1, 1000, ⟨0, 0, 0⟩⟩ Codec.sample 1 [1]) e₀ = .ok true e₁ ∧
      Reader.get e₁ [1] = .ok none ∧ statsOf e₁.ctx.stats 0 = ⟨0, 2, 45⟩ ∧
      Engine.open e₁.disk = .ok e₂ ∧
      Reader.get e₂ [1] = .ok (some [2]) ∧ statsOf e₂.ctx.stats 0 = ⟨1, 1, 18⟩ :=
  ⟨_, _, _, rfl, rfl, rfl, rfl, rfl, rfl, rfl⟩

end Bitcask
