import Bitcask.MergeLoop
import Bitcask.RecoveryCorrect

/-!
# Merging keeps the invariant and every key's record

`Writer::merge` after its copy loop: the merge data file's writer is dropped (which
flushes it), the merged ids are recorded, the statistics, hint files and data files of
the merged ids are removed, and the active file rolls over past the last merge file.

## Main Definitions

* `Engine.forget`, `Engine.markMerged` — the removal loop and the merged-set update, when
  nothing fails.
* `MergePost` — what a successful merge guarantees: the invariant, the same frame behind
  every key, the entries outside the merge set untouched, those inside moved into the
  merge files, the merge set gone, and merge files that hold live records only, each with
  its hint file.

## Main Statements

* `Writer.mergeFiles_spec` — from a state with the invariant, merging any set of files
  that have statistics succeeds and establishes `MergePost`.
* `Writer.merge_spec` — the same for `Writer::merge`, whose set `fileids_to_merge`
  chooses.
-/

namespace Bitcask

/-! ## The removal loop -/

/-- What the removal loop does to one merged id when nothing fails. -/
def Engine.forget (e : Engine) (f : Nat) : Engine :=
  { e with ctx := { e.ctx with stats := e.ctx.stats.erase f },
           disk := (e.disk.remove (.hint f)).remove (.data f) }

/-- The merged-set update of `merge`. -/
def Engine.markMerged (e : Engine) (S : List Nat) : Engine :=
  { e with ctx := { e.ctx with merged := S.foldl (fun m fileid => m.insert fileid) e.ctx.merged } }

theorem Writer.removeMerged_of_noFaults : ∀ (S : List Nat) (e : Engine), e.disk.faults = [] →
    Writer.removeMerged S e = .ok () (S.foldl Engine.forget e)
  | [], _, _ => rfl
  | f :: rest, e, h => by
      have ih := Writer.removeMerged_of_noFaults rest (e.forget f) (by simp [Engine.forget, h])
      simp only [Writer.removeMerged, bind, EStateM.bind, modifyCtx, modify, modifyGet,
        MonadStateOf.modifyGet, EStateM.modifyGet, ignoreNotFound_removeFile h]
      simp [ignoreNotFound_removeFile, h]
      exact ih

/-- The removal loop erases the merged ids from the three maps and nothing else. -/
theorem foldl_forget (S : List Nat) (e : Engine) :
    S.foldl Engine.forget e = { e with
      ctx := { e.ctx with stats := S.foldl (fun s f => s.erase f) e.ctx.stats }
      disk := { e.disk with datafiles := S.foldl (fun d f => d.erase f) e.disk.datafiles,
                            hintfiles := S.foldl (fun d f => d.erase f) e.disk.hintfiles } } := by
  induction S generalizing e with
  | nil => rfl
  | cons f rest ih => exact ih (e.forget f)

theorem lookup_foldl_erase {β : Type} (S : List Nat) : ∀ (s : FileMap β) (g : Nat),
    (S.foldl (fun s f => s.erase f) s).lookup g = if g ∈ S then none else s.lookup g := by
  induction S with
  | nil => simp
  | cons f rest ih =>
      intro s g
      rw [List.foldl_cons, ih]
      by_cases hg : g = f
      · subst hg; simp
      · simp [hg, AList.lookup_erase_ne hg]

/-- A map that is `s` with the ids of `S` erased has exactly the ids of `s` outside `S`. -/
theorem mem_iff_of_lookup_ite {β : Type} {s s' : FileMap β} {S : List Nat}
    (h : ∀ g, s'.lookup g = if g ∈ S then none else s.lookup g) (g : Nat) :
    g ∈ s' ↔ g ∉ S ∧ g ∈ s := by
  rw [← AList.lookup_isSome, h, ← AList.lookup_isSome]
  split <;> simp_all

theorem mem_foldl_insert (S l : List Nat) (f : Nat) :
    f ∈ S.foldl (fun m fileid => m.insert fileid) l ↔ f ∈ S ∨ f ∈ l := by
  induction S generalizing l with
  | nil => simp
  | cons g rest ih =>
      simp only [List.foldl_cons, ih, List.mem_insert_iff, List.mem_cons]
      tauto

variable {e : Engine} (conf : Config)

theorem Writer.mergeBegin_of_noFaults (h : e.disk.faults = []) (n : Nat) :
    Writer.mergeBegin n e =
      .ok ⟨n, 0, ⟨n, []⟩, ⟨n⟩⟩ { e with disk := (e.disk.create (.data n)).create (.hint n) } := by
  simp [Writer.mergeBegin, bind, EStateM.bind, create_of_noFaults, h, LogWriter.new_of_noFaults,
    pure, EStateM.pure]

theorem Writer.mergeEnd_of_noFaults (h : e.disk.faults = []) (S : List Nat) (c : MergeCursor) :
    Writer.mergeEnd S c e = .ok ()
      ((S.foldl Engine.forget ((e.flush c.datafileWriter).markMerged S)).rollover
        (c.mergeFileid + 1)) := by
  simp only [Writer.mergeEnd, bind, EStateM.bind]
  rw [BufWriter.drop_of_noFaults h]
  simp only [modifyCtx, modify, modifyGet, MonadStateOf.modifyGet, EStateM.modifyGet]
  rw [Writer.removeMerged_of_noFaults S _ (by simp [h])]
  simp only
  rw [Writer.newActiveDatafile_of_noFaults (by simp [foldl_forget, Engine.markMerged, h])]
  rfl

theorem Writer.mergeFiles_of_loop (h : e.disk.faults = []) {S : List Nat} {n : Nat}
    {c : MergeCursor} {e₂ : Engine}
    (hloop : Writer.mergeLoop conf S e.ctx.keydir.entries ⟨n, 0, ⟨n, []⟩, ⟨n⟩⟩
      { e with disk := (e.disk.create (.data n)).create (.hint n) } = .ok c e₂)
    (h₂ : e₂.disk.faults = []) :
    Writer.mergeFiles conf S n e = .ok ()
      ((S.foldl Engine.forget ((e₂.flush c.datafileWriter).markMerged S)).rollover
        (c.mergeFileid + 1)) := by
  simp [Writer.mergeFiles, bind, EStateM.bind, Writer.mergeBegin_of_noFaults h, getThe,
    MonadStateOf.get, EStateM.get, hloop, Writer.mergeEnd_of_noFaults h₂]

/-! ## Entering and leaving the loop -/

variable {S : List Nat}

/-- The loop starts from the engine with the first merge data and hint files created. -/
theorem LoopInv.start (h : Inv e) (hS : ∀ f ∈ S, f ∈ e.ctx.stats) :
    LoopInv S e e.ctx.keydir.entries
      ⟨e.writer.activeFileid + 1, 0, ⟨e.writer.activeFileid + 1, []⟩, ⟨e.writer.activeFileid + 1⟩⟩
      { e with
        disk := (e.disk.create (.data (e.writer.activeFileid + 1))).create (.hint (e.writer.activeFileid + 1)) } := by
  have hb := h.writer.below
  have hd : e.writer.activeFileid + 1 ∉ e.disk.datafiles := fun hm => Nat.lt_irrefl _ (hb.data_lt _ hm)
  have hacc := h.accounts.createEmpty hd
  have hfresh : ∀ g, e.writer.activeFileid < g → g ∉ e.ctx.stats := fun g hg hm => by
    have := hb.data_lt g (h.accounts.stats_mem g hm); omega
  refine ⟨rfl, rfl, by simp [hb.noFaults], rfl, rfl, ?_, ?_, ?_⟩
  · simpa only [Disk.create_created] using fileid_le_append_pair hb.created_lt
  · simpa only [Disk.create_created] using pairwise_fresh_append_pair hb.created_fresh hb.created_lt
  · have hview : ViewInv S e e.ctx.keydir.entries (e.writer.activeFileid + 1) 0 e.ctx.keydir
        e.ctx.stats (e.disk.datafiles.insert (e.writer.activeFileid + 1) [])
        (e.disk.hintfiles.insert (e.writer.activeFileid + 1) []) :=
      { S_le := fun f hf => Nat.lt_succ_iff.1 (hb.data_lt f (h.accounts.stats_mem f (hS f hf)))
        fresh := Nat.lt_succ_self _
        mergePos := by simp
        data_mem := by simp
        hint_mem := by simp
        data_le := forall_mem_insert (fun f hf => Nat.le_of_lt (hb.data_lt f hf)) le_rfl _
        hint_le := forall_mem_insert (fun f hf => Nat.le_of_lt (hb.hint_lt f hf)) le_rfl _
        range_mem := fun j h1 h2 => by
          obtain rfl : j = e.writer.activeFileid + 1 := by omega
          simp
        hints := hb.hints.insert _ [] (by simp)
        valid := hacc.valid
        accounts := fun g _ => hacc.accounts g
        stats_mem := hacc.stats_mem
        mergeDead := fun g hg => by simp [statsOf, AList.lookup_eq_none.2 (hfresh g hg)]
        old := fun f hf => by
          have hfa : f ≠ e.writer.activeFileid + 1 := by omega
          simp [AList.lookup_insert_ne hfa]
        frames := fun k => by rw [lookupFrame_mono h.accounts.valid (extends_insert_fresh hd [])]
        rest_mem := fun _ => lookup_of_mem_entries
        rest_nodup := e.ctx.keydir.keys_nodup
        todo := fun _ _ => rfl
        todo_S := fun k en hk _ => AList.mem_keys.1 (mem_of_lookup hk)
        outside := fun k en hk _ => hk
        moved := fun k en hk _ hkr => absurd (AList.mem_keys.1 (mem_of_lookup hk)) hkr }
    refine hview.congr fun g => ?_
    by_cases hg : g = e.writer.activeFileid + 1
    · subst hg; simp
    · simp [hg, AList.lookup_insert_ne hg]

/-- What a successful merge of the set `S`, started from `e`, guarantees of the engine `e'`
it leaves.  The merge files are the ids from `e.writer.activeFileid + 1` up to, not
including, the new active id. -/
structure MergePost (S : List Nat) (e e' : Engine) : Prop where
  inv : Inv e'
  active : e.writer.activeFileid + 1 < e'.writer.activeFileid
  frames : ∀ k, lookupFrame e'.disk.datafiles e'.ctx.keydir k =
    lookupFrame e.disk.datafiles e.ctx.keydir k
  outside : ∀ k entry, e.ctx.keydir.lookup k = some entry → entry.fileid ∉ S →
    e'.ctx.keydir.lookup k = some entry
  moved : ∀ k entry, e.ctx.keydir.lookup k = some entry → entry.fileid ∈ S →
    ∃ entry', e'.ctx.keydir.lookup k = some entry' ∧
      e.writer.activeFileid < entry'.fileid ∧ entry'.fileid < e'.writer.activeFileid
  removed : ∀ f ∈ S, f ∉ e'.ctx.stats ∧ f ∉ e'.disk.datafiles ∧ f ∉ e'.disk.hintfiles ∧
    ∀ k entry, e'.ctx.keydir.lookup k = some entry → entry.fileid ≠ f
  merged : ∀ f ∈ S, f ∈ e'.ctx.merged
  outputs : ∀ j, e.writer.activeFileid < j → j < e'.writer.activeFileid →
    j ∈ e'.disk.datafiles ∧ j ∈ e'.disk.hintfiles ∧
      (statsOf e'.ctx.stats j).deadKeys = 0 ∧ (statsOf e'.ctx.stats j).deadBytes = 0

/-- A merge changes what no key reads. -/
theorem MergePost.valueOf_eq {e e' : Engine} (hp : MergePost S e e') : e'.valueOf = e.valueOf :=
  funext fun k => by simp only [Engine.valueOf, hp.frames]

section Exit

variable {e₀ e₂ : Engine} {c : MergeCursor} {rest : List (Σ _ : Bytes, KeyDirEntry)} {m pos : Nat}
  {kd : KeyDir} {stats : Stats} {vd : FileMap DataFile} {vh : FileMap HintFile}

/-- When the loop has visited every entry, no entry points into `S`. -/
theorem ViewInv.not_mem (h : ViewInv S e₀ [] m pos kd stats vd vh) {k : Bytes}
    {en : KeyDirEntry} (hk : kd.lookup k = some en) : en.fileid ∉ S :=
  fun hen => by simpa using h.todo_S k en hk hen

/-- **Removing the merge set keeps the accounting.**  Once no entry points into `S`,
erasing the files of `S` and their statistics from the view leaves `Accounts`: a file of
`S` is left with no records, no statistics and no entries. -/
theorem ViewInv.accounts_removed (h : ViewInv S e₀ [] m pos kd stats vd vh) {stats' : Stats}
    {vd' : FileMap DataFile} (hs : ∀ g, stats'.lookup g = if g ∈ S then none else stats.lookup g)
    (hd : ∀ g, vd'.lookup g = if g ∈ S then none else vd.lookup g) : Accounts kd stats' vd' := by
  have hstatsOf : ∀ g, statsOf stats' g = if g ∈ S then {} else statsOf stats g :=
    fun g => by simp only [statsOf, hs]; split <;> rfl
  have hframesOf : ∀ g, framesOf vd' g = if g ∈ S then [] else framesOf vd g :=
    fun g => by simp only [framesOf, hd]; split <;> rfl
  refine ⟨fun k en hk => ?_, fun g => ?_, fun g hg => ?_⟩
  · obtain ⟨file, fr, h1, hrest⟩ := h.valid k en hk
    exact ⟨file, fr, by rw [hd, if_neg (h.not_mem hk)]; exact h1, hrest⟩
  · by_cases hg : g ∈ S
    · have hz : ∀ w : KeyDirEntry → Nat, (∀ en : KeyDirEntry, en.fileid ≠ g → w en = 0) →
          total kd w = 0 := fun w hw =>
        total_eq_zero fun k en hk => hw en fun he => h.not_mem hk (he ▸ hg)
      have hl : liveKeysIn kd g = 0 := hz _ fun en hne => by simp [inFile, hne]
      have hb : liveBytesIn kd g = 0 := hz _ fun en hne => by simp [bytesInFile, hne]
      exact ⟨by rw [hstatsOf, if_pos hg, hl], by rw [hstatsOf, hframesOf, if_pos hg, if_pos hg]; rfl,
        by rw [hstatsOf, hframesOf, if_pos hg, if_pos hg, hb]; rfl⟩
    · obtain ⟨a, b, c'⟩ := h.accounts g hg
      exact ⟨by rw [hstatsOf, if_neg hg, a], by rw [hstatsOf, hframesOf, if_neg hg, if_neg hg, b],
        by rw [hstatsOf, hframesOf, if_neg hg, if_neg hg, c']⟩
  · obtain ⟨hgS, hg'⟩ := (mem_iff_of_lookup_ite hs g).1 hg
    exact (mem_iff_of_lookup_ite hd g).2 ⟨hgS, h.stats_mem g hg'⟩

/-- Removing the merge set keeps the directory below the id after the last merge file. -/
theorem LoopInv.below_removed (h : LoopInv S e₀ [] c e₂) {d : Disk}
    (hd : ∀ g, d.datafiles.lookup g =
      if g ∈ S then none else (e₂.disk.appendData c.mergeFileid c.datafileWriter.buf).datafiles.lookup g)
    (hh : ∀ g, d.hintfiles.lookup g = if g ∈ S then none else e₂.disk.hintfiles.lookup g)
    (hc : d.created = e₂.disk.created) (hf : d.faults = []) : DiskBelow d (c.mergeFileid + 1) := by
  have hv := h.view
  refine ⟨hf, fun f hm => Nat.lt_succ_of_le (hv.data_le f ((mem_iff_of_lookup_ite hd f).1 hm).2),
    fun f hm => Nat.lt_succ_of_le (hv.hint_le f ((mem_iff_of_lookup_ite hh f).1 hm).2),
    fun x hx => Nat.lt_succ_of_le (h.created_le x (hc ▸ hx)), hc ▸ h.created_fresh,
    fun f hint hfh => ?_⟩
  rw [hh] at hfh
  split at hfh
  · cases hfh
  · rename_i hfS
    obtain ⟨file, h1, h2, h3⟩ := hv.hints f hint hfh
    exact ⟨file, by rw [hd, if_neg hfS]; exact h1, h2, h3⟩

/-- Leaving the loop: the flush, the removals and the rollover establish `MergePost`. -/
theorem LoopInv.finish (h : LoopInv S e₀ [] c e₂) :
    MergePost S e₀
      ((S.foldl Engine.forget ((e₂.flush c.datafileWriter).markMerged S)).rollover
        (c.mergeFileid + 1)) := by
  have hv := h.view
  set m := c.mergeFileid
  set V := (e₂.disk.appendData m c.datafileWriter.buf).datafiles
  set R := S.foldl Engine.forget ((e₂.flush c.datafileWriter).markMerged S)
  have hRkd : R.ctx.keydir = e₂.ctx.keydir := by simp [R, foldl_forget, Engine.markMerged]
  have hRstats : ∀ g, R.ctx.stats.lookup g = if g ∈ S then none else e₂.ctx.stats.lookup g :=
    fun g => by simp [R, foldl_forget, Engine.markMerged, lookup_foldl_erase]
  have hRdata : ∀ g, R.disk.datafiles.lookup g = if g ∈ S then none else V.lookup g :=
    fun g => by
      simp only [R, foldl_forget, Engine.markMerged, lookup_foldl_erase, Engine.lookup_flush,
        h.dataWriter, V]
  have hRhint : ∀ g, R.disk.hintfiles.lookup g = if g ∈ S then none else e₂.disk.hintfiles.lookup g :=
    fun g => by simp [R, foldl_forget, Engine.markMerged, lookup_foldl_erase]
  have hacc := hv.accounts_removed hRstats hRdata
  have hbelow : DiskBelow R.disk (m + 1) := h.below_removed hRdata hRhint
    (by simp [R, foldl_forget, Engine.markMerged]) (by simp [R, foldl_forget, Engine.markMerged, h.noFaults])
  have hM : m + 1 ∉ R.disk.datafiles := fun hm => Nat.lt_irrefl _ (hbelow.data_lt _ hm)
  have hSle := hv.S_le
  have hfresh : e₀.writer.activeFileid < m := hv.fresh
  refine ⟨⟨hbelow.startActive, hRkd ▸ hacc.createEmpty hM⟩, by show _ < m + 1; omega, fun k => ?_,
    fun k en hk hen => ?_, fun k en hk hen => ?_, fun f hf => ?_, fun f hf => ?_,
    fun j h1 h2 => ?_⟩
  · have hframes : lookupFrame R.disk.datafiles e₂.ctx.keydir k = lookupFrame V e₂.ctx.keydir k := by
      cases hk : e₂.ctx.keydir.lookup k with
      | none => simp [lookupFrame, hk]
      | some en => simp [lookupFrame, hk, hRdata, hv.not_mem hk]
    simp only [Engine.rollover_ctx, Engine.rollover, Disk.create_data_datafiles]
    rw [lookupFrame_mono (hRkd ▸ hacc.valid) (extends_insert_fresh hM []), hRkd, hframes]
    exact hv.frames k
  · simp only [Engine.rollover_ctx, hRkd]; exact hv.outside k en hk hen
  · obtain ⟨en', h1, h2, h3⟩ := hv.moved k en hk hen (by simp)
    exact ⟨en', by simp only [Engine.rollover_ctx, hRkd]; exact h1, h2, by simp [Engine.rollover]; omega⟩
  · have hfm : f ≠ m + 1 := by have := hSle f hf; omega
    refine ⟨fun hm => ((mem_iff_of_lookup_ite hRstats f).1 (by simpa using hm)).1 hf,
      fun hm => ?_, fun hm => ((mem_iff_of_lookup_ite hRhint f).1
        (by simpa [Engine.rollover] using hm)).1 hf, fun k en hk he => ?_⟩
    · simp only [Engine.rollover, Disk.create_data_datafiles] at hm
      rcases (AList.mem_insert _).1 hm with rfl | hm
      · exact hfm rfl
      · exact ((mem_iff_of_lookup_ite hRdata f).1 hm).1 hf
    · simp only [Engine.rollover_ctx, hRkd] at hk
      exact hv.not_mem hk (he ▸ hf)
  · simp only [Engine.rollover_ctx, R, foldl_forget, Engine.markMerged, Engine.flush_ctx,
      mem_foldl_insert]
    exact .inl hf
  · simp only [Engine.rollover] at h2
    have hjS : j ∉ S := fun hj => by have := hSle j hj; omega
    obtain ⟨hjd, hjh⟩ := hv.range_mem j h1 (by omega)
    obtain ⟨d1, d2⟩ := hv.mergeDead j h1
    have hst : statsOf R.ctx.stats j = statsOf e₂.ctx.stats j := by
      simp only [statsOf, hRstats, if_neg hjS]
    refine ⟨?_, (mem_iff_of_lookup_ite hRhint j).2 ⟨hjS, hjh⟩, ?_, ?_⟩
    · simp only [Engine.rollover, Disk.create_data_datafiles]
      exact (AList.mem_insert _).2 (.inr ((mem_iff_of_lookup_ite hRdata j).2 ⟨hjS, hjd⟩))
    · simp only [Engine.rollover_ctx, hst]; exact d1
    · simp only [Engine.rollover_ctx, hst]; exact d2

/-- Leaving the loop keeps every file the merge started from and did not merge as it was,
and leaves the new active file empty. -/
theorem LoopInv.finish_datafiles (h : LoopInv S e₀ [] c e₂) :
    (∀ g ≤ e₀.writer.activeFileid, g ∉ S →
      ((S.foldl Engine.forget ((e₂.flush c.datafileWriter).markMerged S)).rollover
        (c.mergeFileid + 1)).disk.datafiles.lookup g = e₀.disk.datafiles.lookup g) ∧
      ((S.foldl Engine.forget ((e₂.flush c.datafileWriter).markMerged S)).rollover
        (c.mergeFileid + 1)).disk.datafiles.lookup (c.mergeFileid + 1) = some [] := by
  have hv := h.view
  refine ⟨fun g hg hgS => ?_, by simp [Engine.rollover]⟩
  have hne : g ≠ c.mergeFileid + 1 := by have := hv.fresh; omega
  simp only [Engine.rollover, Disk.create_data_datafiles, AList.lookup_insert_ne hne,
    foldl_forget, Engine.markMerged, lookup_foldl_erase, if_neg hgS, Engine.lookup_flush,
    h.dataWriter]
  exact (hv.old g hg).1

end Exit

/-! ## Merging -/

/-- **Merging keeps the invariant.**  From a state with the invariant, merging any set of
files with statistics succeeds, and the engine it leaves satisfies `MergePost`. -/
theorem Writer.mergeFiles_spec (h : Inv e) (hS : ∀ f ∈ S, f ∈ e.ctx.stats) :
    ∃ e', Writer.mergeFiles conf S (e.writer.activeFileid + 1) e = .ok () e' ∧
      MergePost S e e' := by
  obtain ⟨c, e₂, hloop, hinv⟩ := Writer.mergeLoop_spec conf _ _ _ (LoopInv.start h hS)
  exact ⟨_, Writer.mergeFiles_of_loop conf h.writer.below.noFaults hloop hinv.noFaults,
    hinv.finish⟩

/-- What a merge leaves of the directory, beside `MergePost`: the files it started from and
did not merge are as they were, and the new active file is empty. -/
theorem Writer.mergeFiles_datafiles (h : Inv e) (hS : ∀ f ∈ S, f ∈ e.ctx.stats) :
    ∃ e', Writer.mergeFiles conf S (e.writer.activeFileid + 1) e = .ok () e' ∧
      MergePost S e e' ∧
      (∀ g ≤ e.writer.activeFileid, g ∉ S →
        e'.disk.datafiles.lookup g = e.disk.datafiles.lookup g) ∧
      e'.disk.datafiles.lookup e'.writer.activeFileid = some [] := by
  obtain ⟨c, e₂, hloop, hinv⟩ := Writer.mergeLoop_spec conf _ _ _ (LoopInv.start h hS)
  exact ⟨_, Writer.mergeFiles_of_loop conf h.writer.below.noFaults hloop hinv.noFaults,
    hinv.finish, hinv.finish_datafiles⟩

/-! ## The merge set -/

/-- The loop of `fileids_to_merge` reads every file's size and keeps some of the ids. -/
theorem fileidsToMergeFrom_spec (h : e.disk.faults = []) :
    ∀ l : List (Σ _ : Nat, LogStatistics), (∀ s ∈ l, s.1 ∈ e.disk.datafiles) →
      ∃ S, fileidsToMergeFrom conf l e = .ok S e ∧ ∀ f ∈ S, ∃ s ∈ l, s.1 = f
  | [], _ => ⟨[], rfl, by simp⟩
  | ⟨f, st⟩ :: rest, hl => by
      obtain ⟨file, hf⟩ := Option.isSome_iff_exists.1
        (AList.lookup_isSome.2 (hl _ (List.mem_cons_self _ _)))
      obtain ⟨S, hS, hmem⟩ := fileidsToMergeFrom_spec h rest
        fun s hs => hl s (List.mem_cons_of_mem _ hs)
      refine ⟨if conf.thresholds.includes st file.size then f :: S else S, by
        simp [fileidsToMergeFrom, bind, EStateM.bind, metadataLen_of_noFaults h hf, hS, pure,
          EStateM.pure], fun g hg => ?_⟩
      split_ifs at hg
      · rcases List.mem_cons.1 hg with rfl | hg
        · exact ⟨_, List.mem_cons_self _ _, rfl⟩
        · obtain ⟨s, hs, rfl⟩ := hmem g hg; exact ⟨s, List.mem_cons_of_mem _ hs, rfl⟩
      · obtain ⟨s, hs, rfl⟩ := hmem g hg; exact ⟨s, List.mem_cons_of_mem _ hs, rfl⟩

/-- `fileids_to_merge` succeeds, changes nothing, and selects files that have statistics. -/
theorem fileidsToMerge_spec (h : Inv e) :
    ∃ S, fileidsToMerge conf e = .ok S e ∧ ∀ f ∈ S, f ∈ e.ctx.stats := by
  obtain ⟨S, hS, hmem⟩ := fileidsToMergeFrom_spec conf h.writer.below.noFaults e.ctx.stats.entries
    fun s hs => h.accounts.stats_mem _ (AList.mem_keys.2 (List.mem_keys_of_mem hs))
  refine ⟨S.insertionSort (· ≤ ·), by simp [fileidsToMerge, bind, EStateM.bind, getThe,
    MonadStateOf.get, EStateM.get, hS, pure, EStateM.pure], fun f hf => ?_⟩
  obtain ⟨s, hs, rfl⟩ := hmem f ((List.perm_insertionSort _ _).mem_iff.1 hf)
  exact AList.mem_keys.2 (List.mem_keys_of_mem hs)

/-- **`Writer::merge` keeps the invariant**, with the set `fileids_to_merge` selects. -/
theorem Writer.merge_spec (h : Inv e) :
    ∃ S e', fileidsToMerge conf e = .ok S e ∧ Writer.merge conf e = .ok () e' ∧
      MergePost S e e' := by
  obtain ⟨S, hsel, hS⟩ := fileidsToMerge_spec conf h
  obtain ⟨e', hrun, hpost⟩ := Writer.mergeFiles_spec conf h hS
  exact ⟨S, e', hsel, by simp [Writer.merge, bind, EStateM.bind, getThe, MonadStateOf.get,
    EStateM.get, hsel, hrun], hpost⟩

/-- A successful `Writer::merge` from a state with the invariant, with the set
`fileids_to_merge` selected, establishes `MergePost`. -/
theorem MergePost.of_merge {e' : Engine} (h : Inv e) (hsel : fileidsToMerge conf e = .ok S e)
    (hrun : Writer.merge conf e = .ok () e') : MergePost S e e' := by
  obtain ⟨S', e'', hsel', hrun', hpost⟩ := Writer.merge_spec conf h
  rw [hsel] at hsel'; cases hsel'
  rw [hrun] at hrun'; cases hrun'
  exact hpost

end Bitcask
