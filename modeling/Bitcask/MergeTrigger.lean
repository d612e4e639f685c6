import Mathlib.Algebra.Order.Ring.Unbundled.Rat
import Mathlib.Tactic.NormNum
import Bitcask.Reopen

/-!
# The merge trigger

`Context::can_merge`, which the background task `merge_on_interval` consults before each
merge, `Context::fileids_to_merge`, which chooses what the merge copies, and the defaults
of `Config`.  A merge starts when the clock is inside the merge window and some file's dead
bytes or fragmentation exceed the *triggers*.  It merges the files whose dead bytes or
fragmentation exceed the *thresholds*, or whose data file is smaller than the small-file
threshold.

With triggers at or above the thresholds, as the defaults have them, every file that could
trigger a merge is merged.  A merge leaves only files that cannot trigger one: the files it
did not touch keep their statistics, and the merge files and the new active file have no
dead records.  So right after a merge `can_merge` is false, whatever the clock says
(`merge_clears_triggers`).  The background task does not merge its own output again.

## Main Definitions

* `MergeTriggers`, `MergeWindow`, `canMerge` — the trigger check, with the wall clock as an
  input.
* `MergeTriggers.default`, `MergeThresholds.default`, `MergeWindow.default`,
  `Config.default` — the values of `Config::default`.
* `TriggersAbove` — triggers at or above the thresholds, with a fragmentation trigger that
  is not negative (`merge_trigger_fragmentation` asserts it lies in `[0, 1]`).

## Main Statements

* `fileids_to_merge_covers` — `fileids_to_merge` returns, ascending, ids with statistics,
  among them every small file, every file past the dead-bytes threshold and every file that
  fires a trigger at or above the thresholds; the active file is not kept out.
* `merge_clears_triggers` — with `TriggersAbove`, `can_merge` is false right after a
  successful `Writer::merge`.

## Design Notes

`chrono::NaiveTime` is a time of day in nanoseconds since midnight.  The `f64`
fragmentations are compared as exact rationals, as in `MergeThresholds.includes`.  Rounding
can decide whether a file whose fragmentation lies next to a threshold is selected, so no
result here says which such file is; what is stated about fragmentations is transitivity
against the same threshold (`TriggersAbove.includes`), which holds of the code's `f64`
comparisons as well.
-/

namespace Bitcask

/-- `MergeTriggers`: when the background task starts a merge. -/
structure MergeTriggers where
  fragmentation : ℚ
  deadBytes : Nat

/-- The test `can_merge` makes of one file's statistics, with the fragmentation compared as
an exact rational where the code compares `f64` values. -/
def MergeTriggers.fires (t : MergeTriggers) (s : LogStatistics) : Bool :=
  t.deadBytes < s.deadBytes || t.fragmentation < s.fragmentation

/-- `Range<NaiveTime>`, the merge window, in nanoseconds since midnight. -/
structure MergeWindow where
  start : Nat
  stop : Nat

/-- `Range::contains`: closed at the start, open at the end. -/
def MergeWindow.contains (w : MergeWindow) (now : Nat) : Bool :=
  w.start ≤ now && now < w.stop

/-- `Context::can_merge`: the clock `now` (`chrono::Local::now().time()`) is inside the
window, and some file fires a trigger. -/
def canMerge (window : MergeWindow) (triggers : MergeTriggers) (now : Nat) (stats : Stats) :
    Bool :=
  window.contains now && stats.entries.any fun s => triggers.fires s.2

/-- The window of `Config::default`, `00:00:00..23:59:59`. -/
def MergeWindow.default : MergeWindow := ⟨0, (23 * 3600 + 59 * 60 + 59) * 10 ^ 9⟩

/-- The triggers of `Config::default`: fragmentation `0.6`, dead bytes `ByteSize::mib(512)`.
The rational `3 / 5` stands for the double nearest `0.6`, which lies slightly below it. -/
def MergeTriggers.default : MergeTriggers := ⟨3 / 5, 512 * 2 ^ 20⟩

/-- The thresholds of `Config::default`: fragmentation `0.4`, dead bytes `ByteSize::mib(128)`,
small file `ByteSize::mib(10)`.  The rational `2 / 5` stands for the double nearest `0.4`,
which lies slightly above it; the order of the two defaults is the same either way. -/
def MergeThresholds.default : MergeThresholds := ⟨2 / 5, 128 * 2 ^ 20, 10 * 2 ^ 20⟩

/-- The fields of `Config::default` the storage core reads, with `num_cpus::get()` as
`cpus`; `max_file_size` is `ByteSize::gib(2)`. -/
def Config.default (cpus : Nat) : Config := ⟨cpus, 2 * 2 ^ 30, MergeThresholds.default⟩

/-- Triggers at or above the thresholds, with a fragmentation trigger that is not negative. -/
structure TriggersAbove (t : MergeTriggers) (th : MergeThresholds) : Prop where
  deadBytes : th.deadBytes ≤ t.deadBytes
  fragmentation : th.fragmentation ≤ t.fragmentation
  nonneg : 0 ≤ t.fragmentation

/-- The defaults have their triggers above their thresholds. -/
theorem triggersAbove_default : TriggersAbove MergeTriggers.default MergeThresholds.default :=
  ⟨by decide, by norm_num [MergeTriggers.default, MergeThresholds.default],
    by norm_num [MergeTriggers.default]⟩

/-- A file below the small-file threshold is included, whatever its statistics. -/
theorem MergeThresholds.includes_of_small {th : MergeThresholds} {s : LogStatistics} {len : Nat}
    (h : len < th.smallFile) : th.includes s len = true := by
  simp [MergeThresholds.includes, h]

/-- A file past the dead-bytes threshold is included, whatever its size. -/
theorem MergeThresholds.includes_of_deadBytes {th : MergeThresholds} {s : LogStatistics}
    (h : th.deadBytes < s.deadBytes) (len : Nat) : th.includes s len = true := by
  simp [MergeThresholds.includes, h]

section Tests

variable {t : MergeTriggers} {th : MergeThresholds} {s : LogStatistics}

/-- A file that fires a trigger passes a threshold, whatever its size. -/
theorem TriggersAbove.includes (h : TriggersAbove t th) (hs : t.fires s = true) (len : Nat) :
    th.includes s len = true := by
  simp only [MergeTriggers.fires, MergeThresholds.includes, Bool.or_eq_true,
    decide_eq_true_eq] at hs ⊢
  rcases hs with hs | hs
  · exact .inl (.inl (lt_of_le_of_lt h.deadBytes hs))
  · exact .inl (.inr (lt_of_le_of_lt h.fragmentation hs))

/-- A file with no dead records fires no trigger that is not negative. -/
theorem MergeTriggers.fires_of_clean (h : 0 ≤ t.fragmentation) (hk : s.deadKeys = 0)
    (hb : s.deadBytes = 0) : t.fires s = false := by
  simp [MergeTriggers.fires, LogStatistics.fragmentation, hk, hb, not_lt.2 h]

end Tests

/-! ## What `fileids_to_merge` selects -/

variable {conf : Config} {codec : Codec} {S : List Nat} {e e' : Engine}

/-- The loop of `fileids_to_merge` keeps exactly the ids whose statistics and file size pass
the thresholds, in the order of the statistics. -/
theorem fileidsToMergeFrom_eq (h : e.disk.faults = []) :
    ∀ l : List (Σ _ : Nat, LogStatistics), (∀ s ∈ l, s.1 ∈ e.disk.datafiles) →
      fileidsToMergeFrom conf l e = .ok ((l.filter fun s =>
        conf.thresholds.includes s.2 (framesOf e.disk.datafiles s.1).size).map (·.1)) e
  | [], _ => rfl
  | ⟨f, st⟩ :: rest, hl => by
      obtain ⟨file, hf⟩ := Option.isSome_iff_exists.1
        (AList.lookup_isSome.2 (hl _ (List.mem_cons_self _ _)))
      have ih := fileidsToMergeFrom_eq h rest fun s hs => hl s (List.mem_cons_of_mem _ hs)
      simp only [fileidsToMergeFrom, bind, EStateM.bind, metadataLen_of_noFaults h hf, ih, pure,
        EStateM.pure, List.filter_cons, framesOf_of_lookup hf]
      split <;> rfl

/-- `fileids_to_merge` as a value: the ids that pass the thresholds, sorted. -/
theorem fileidsToMerge_eq (h : Inv e) :
    fileidsToMerge conf e = .ok (((e.ctx.stats.entries.filter fun s =>
      conf.thresholds.includes s.2 (framesOf e.disk.datafiles s.1).size).map (·.1)).insertionSort
        (· ≤ ·)) e := by
  simp [fileidsToMerge, bind, EStateM.bind, getThe, MonadStateOf.get, EStateM.get, pure,
    EStateM.pure, fileidsToMergeFrom_eq h.writer.below.noFaults _
      fun s hs => h.accounts.stats_mem _ (AList.mem_keys.2 (List.mem_keys_of_mem hs))]

/-- What `fileids_to_merge` returns is sorted without repeats. -/
theorem fileidsToMerge_sorted (h : Inv e) (hsel : fileidsToMerge conf e = .ok S e) :
    S.Sorted (· < ·) := by
  rw [fileidsToMerge_eq h] at hsel
  cases hsel
  exact (List.sorted_insertionSort _ _).lt_of_le ((List.perm_insertionSort _ _).nodup_iff.2
    (List.NodupKeys.sublist (List.filter_sublist _) e.ctx.stats.nodupKeys))

/-- The ids `fileids_to_merge` returns are those with statistics that pass a threshold. -/
theorem mem_fileidsToMerge (h : Inv e) (hsel : fileidsToMerge conf e = .ok S e) (g : Nat) :
    g ∈ S ↔ ∃ st, e.ctx.stats.lookup g = some st ∧
      conf.thresholds.includes st (framesOf e.disk.datafiles g).size = true := by
  rw [fileidsToMerge_eq h] at hsel
  cases hsel
  rw [(List.perm_insertionSort _ _).mem_iff]
  simp only [List.mem_map, List.mem_filter]
  constructor
  · rintro ⟨⟨g', st⟩, ⟨hs, hinc⟩, rfl⟩
    exact ⟨st, AList.mem_lookup_iff.2 hs, hinc⟩
  · rintro ⟨st, hst, hinc⟩
    exact ⟨⟨g, st⟩, ⟨AList.mem_lookup_iff.1 hst, hinc⟩, rfl⟩

/-- **What `fileids_to_merge` guarantees.**  From every state with the invariant,
`fileids_to_merge` succeeds without changing the engine and returns ids, ascending and
without repeats, of files that have statistics.  Among them is every file with statistics
whose data file is below `small_file` or whose dead bytes exceed the threshold, and, for
any triggers at or above the thresholds, every file that fires one.  Nothing keeps the
active file out. -/
theorem fileids_to_merge_covers (h : Inv e) :
    ∃ S, fileidsToMerge conf e = .ok S e ∧ S.Sorted (· < ·) ∧ (∀ g ∈ S, g ∈ e.ctx.stats) ∧
      ∀ g st, e.ctx.stats.lookup g = some st →
        (framesOf e.disk.datafiles g).size < conf.thresholds.smallFile ∨
          conf.thresholds.deadBytes < st.deadBytes ∨
          (∃ t, TriggersAbove t conf.thresholds ∧ t.fires st = true) → g ∈ S := by
  have hsel : fileidsToMerge conf e = _ := fileidsToMerge_eq h
  refine ⟨_, hsel, fileidsToMerge_sorted h hsel, fun g hg => ?_, fun g st hst hcov => ?_⟩
  · obtain ⟨st, hst, -⟩ := (mem_fileidsToMerge h hsel g).1 hg
    exact mem_of_lookup hst
  · refine (mem_fileidsToMerge h hsel g).2 ⟨st, hst, ?_⟩
    rcases hcov with hs | hd | ⟨t, ht, hf⟩
    · exact MergeThresholds.includes_of_small hs
    · exact MergeThresholds.includes_of_deadBytes hd _
    · exact ht.includes hf _

/-- With the defaults, one put on a fresh directory puts the active file in the merge set:
its data file is below the 10 MiB small-file threshold. -/
theorem fileids_to_merge_covers_active :
    ∃ e, Reachable (Config.default 1) Codec.sample e ∧ e.writer.activeFileid = 0 ∧
      ∃ S, fileidsToMerge (Config.default 1) e = .ok S e ∧ S.Sorted (· < ·) ∧ 0 ∈ S := by
  have hr : Reachable (Config.default 1) Codec.sample _ :=
    .step (.open Engine.open_empty) (.put 0 [1] [2] rfl)
  obtain ⟨S, hsel, hsorted, -, hcov⟩ := fileids_to_merge_covers hr.inv
  exact ⟨_, hr, rfl, S, hsel, hsorted, hcov 0 ⟨1, 0, 0⟩ rfl (.inl (by decide))⟩

/-! ## What a merge leaves -/
/-- A merge keeps the statistics of every file it started from and did not merge: the
file's frames are as they were, and so are the entries pointing into it. -/
theorem MergePost.statsOf_kept (h : Inv e) (hp : MergePost S e e')
    (hold : ∀ g ≤ e.writer.activeFileid, g ∉ S →
      e'.disk.datafiles.lookup g = e.disk.datafiles.lookup g)
    {g : Nat} (hg : g ≤ e.writer.activeFileid) (hgS : g ∉ S) :
    statsOf e'.ctx.stats g = statsOf e.ctx.stats g := by
  have hfr : framesOf e.disk.datafiles g = framesOf e'.disk.datafiles g := by
    simp only [framesOf, hold g hg hgS]
  have hent : ∀ k en, en.fileid = g →
      (e'.ctx.keydir.lookup k = some en ↔ e.ctx.keydir.lookup k = some en) := by
    intro k en hf
    refine ⟨fun hk' => ?_, fun hk => hp.outside k en hk (hf ▸ hgS)⟩
    obtain ⟨en₀, hk₀⟩ := Option.isSome_iff_exists.1
      (AList.lookup_isSome.2 ((hp.mem_keydir h k).1 (mem_of_lookup hk')))
    by_cases hS : en₀.fileid ∈ S
    · obtain ⟨en₁, hk₁, h1, -⟩ := hp.moved k en₀ hk₀ hS
      rw [hk'] at hk₁; cases hk₁
      omega
    · rw [hp.outside k en₀ hk₀ hS] at hk'; cases hk'
      exact hk₀
  obtain ⟨hl, hb⟩ := liveIn_congr hent
  exact (hp.inv.accounts.accounts g).statsOf_eq_of_live (h.accounts.accounts g) hfr hl hb

/-- The new active file after a merge is empty, so its statistics count no dead record. -/
theorem Accounts.clean_of_empty {kd : KeyDir} {stats : Stats} {files : FileMap DataFile}
    {f : Nat} (h : Accounts kd stats files) (hf : files.lookup f = some []) :
    (statsOf stats f).deadKeys = 0 ∧ (statsOf stats f).deadBytes = 0 := by
  obtain ⟨-, hkeys, hbytes⟩ := h.accounts f
  rw [framesOf_of_lookup hf] at hkeys hbytes
  simp only [List.length_nil, DataFile.size_nil] at hkeys hbytes
  omega

/-- A file the merge set leaves out fires no trigger at or above the thresholds: one that
fired would be past a threshold, and so selected. -/
theorem TriggersAbove.not_fires_of_not_mem {triggers : MergeTriggers}
    (ht : TriggersAbove triggers conf.thresholds) (h : Inv e)
    (hsel : fileidsToMerge conf e = .ok S e) {g : Nat} (hgS : g ∉ S) :
    triggers.fires (statsOf e.ctx.stats g) = false := by
  cases hg : e.ctx.stats.lookup g with
  | none => rw [statsOf, hg]; exact MergeTriggers.fires_of_clean ht.nonneg rfl rfl
  | some st =>
      rw [statsOf, hg, Option.getD_some, ← Bool.not_eq_true]
      exact fun hfire => hgS ((mem_fileidsToMerge h hsel g).2 ⟨st, hg, ht.includes hfire _⟩)

/-- **A merge clears the merge triggers.**  From a state with the invariant, after a
successful `Writer::merge` with the set `fileids_to_merge` selected, and with triggers at
or above the thresholds, `can_merge` is false for every window and every time of day: the
files that could fire a trigger were merged, the files kept have their old statistics, and
the merge files and the new active file have no dead records. -/
theorem merge_clears_triggers (h : Inv e) (hsel : fileidsToMerge conf e = .ok S e)
    (hrun : Writer.merge conf e = .ok () e') {triggers : MergeTriggers}
    (ht : TriggersAbove triggers conf.thresholds) (window : MergeWindow) (now : Nat) :
    canMerge window triggers now e'.ctx.stats = false := by
  obtain ⟨S', hsel', hS⟩ := fileidsToMerge_spec conf h
  rw [hsel] at hsel'; cases hsel'
  obtain ⟨e'', hrun', hp, hold, hact⟩ := Writer.mergeFiles_datafiles conf h hS
  have hm : Writer.merge conf e = .ok () e'' := by
    simp [Writer.merge, bind, EStateM.bind, getThe, MonadStateOf.get, EStateM.get, hsel, hrun']
  rw [hrun] at hm; cases hm
  simp only [canMerge, Bool.and_eq_false_iff]
  refine .inr (List.any_eq_false.2 fun ⟨g, st⟩ hs => ?_)
  have hst : e'.ctx.stats.lookup g = some st := AList.mem_lookup_iff.2 hs
  rw [Bool.not_eq_true, show st = statsOf e'.ctx.stats g by simp [statsOf, hst]]
  rcases hp.fileid_cases (hp.inv.accounts.stats_mem g (mem_of_lookup hst)) with hle | ⟨h1, h2⟩ | rfl
  · -- a file the merge kept
    have hgS : g ∉ S := fun hS => (hp.removed g hS).1 (mem_of_lookup hst)
    rw [hp.statsOf_kept h hold hle hgS]
    exact ht.not_fires_of_not_mem h hsel hgS
  · -- a merge file
    obtain ⟨-, -, hk, hb⟩ := hp.outputs g h1 h2
    exact MergeTriggers.fires_of_clean ht.nonneg hk hb
  · -- the new active file
    obtain ⟨hk, hb⟩ := hp.inv.accounts.clean_of_empty hact
    exact MergeTriggers.fires_of_clean ht.nonneg hk hb

/-- A file that fires a trigger inside the window makes `can_merge` true. -/
theorem canMerge_of_lookup {window : MergeWindow} {t : MergeTriggers} {now : Nat} {stats : Stats}
    {g : Nat} {st : LogStatistics} (hw : window.contains now = true)
    (hg : stats.lookup g = some st) (hf : t.fires st = true) : canMerge window t now stats = true := by
  simp only [canMerge, hw, Bool.true_and]
  exact List.any_eq_true.2 ⟨⟨g, st⟩, AList.mem_lookup_iff.1 hg, hf⟩

/-- With the defaults, three values of one key leave file `0` two-thirds dead, which fires
the fragmentation trigger at midnight; the merge that follows clears it. -/
theorem merge_clears_triggers_default :
    ∃ e S e', Reachable (Config.default 1) Codec.sample e ∧
      canMerge MergeWindow.default MergeTriggers.default 0 e.ctx.stats = true ∧
      fileidsToMerge (Config.default 1) e = .ok S e ∧
      Writer.merge (Config.default 1) e = .ok () e' ∧
      TriggersAbove MergeTriggers.default (Config.default 1).thresholds ∧
      canMerge MergeWindow.default MergeTriggers.default 0 e'.ctx.stats = false := by
  have hr : Reachable (Config.default 1) Codec.sample _ :=
    .step (.step (.step (.open Engine.open_empty) (.put 0 [1] [2] rfl)) (.put 1 [1] [3] rfl))
      (.put 2 [1] [4] rfl)
  obtain ⟨S, e', hsel, hrun, -⟩ := Writer.merge_spec (Config.default 1) hr.inv
  refine ⟨_, S, e', hr, @canMerge_of_lookup _ _ _ _ 0 ⟨1, 2, 54⟩ rfl rfl ?_, hsel, hrun,
    triggersAbove_default, merge_clears_triggers hr.inv hsel hrun triggersAbove_default _ _⟩
  norm_num [MergeTriggers.fires, MergeTriggers.default, LogStatistics.fragmentation]

end Bitcask
