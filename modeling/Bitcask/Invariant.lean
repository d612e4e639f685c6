import Bitcask.Eval

/-!
# The engine invariant

What holds of every engine state reachable by successful operations, split by what each
part is about:

* `DiskBelow d n` — the directory below a fresh id `n`: every data file, hint file and
  creation has a smaller id, every creation was fresh when it was made (`Fresh`), every
  hint file lists exactly the records of its data file, all of them values
  (`HintsAgree`), and no file operation is going to fail;
* `WriterInv w d` — the writer's handle and `active_fileid` name the same data file, which
  exists, has no hint file and is `written_bytes` long; the rest of the directory is below
  it;
* `Inv e` — `WriterInv` together with `Accounts` (KeyDir validity and the statistics of
  every file).

## Main Statements

* `Reader.get_of_valid` — on a valid KeyDir `Reader::get` does not fail; it returns
  `Engine.valueOf`, the value the key's entry names.
* `Writer.put_spec`, `Writer.delete_spec` — with the invariant, `put` and `delete` succeed,
  keep it, and change what one key reads as a map update does.

Merging keeps `Inv` by `Bitcask.MergeCorrect`, reopening by `Bitcask.RecoveryCorrect`.
-/

namespace Bitcask

/-! ## What a key reads -/

/-- The frame the KeyDir entry of `key` names in `files`. -/
def lookupFrame (files : FileMap DataFile) (kd : KeyDir) (key : Bytes) : Option Frame :=
  (kd.lookup key).bind fun entry => (files.lookup entry.fileid).bind (·.read entry.len entry.pos)

/-- The value `key` reads in an engine. -/
def Engine.valueOf (e : Engine) (key : Bytes) : Option Bytes :=
  (lookupFrame e.disk.datafiles e.ctx.keydir key).bind (·.entry.value)

section Frames

variable {files files' : FileMap DataFile} {kd : KeyDir}

/-- With a valid KeyDir, `Reader::get` cannot fail: it returns what the key reads. -/
theorem Reader.get_of_valid {e : Engine} (hv : KeyDirValid e.ctx.keydir e.disk.datafiles)
    (key : Bytes) : Reader.get e key = .ok (e.valueOf key) := by
  cases hl : e.ctx.keydir.lookup key with
  | none => simp [Reader.get, Engine.valueOf, lookupFrame, hl]
  | some entry =>
      obtain ⟨file, fr, h1, h2, -⟩ := hv key entry hl
      simp [Reader.get, Engine.valueOf, lookupFrame, hl, h1, h2]

/-- A key with an entry reads a value, a key without one reads nothing. -/
theorem isSome_valueOf {e : Engine} (hv : KeyDirValid e.ctx.keydir e.disk.datafiles)
    (key : Bytes) : (e.valueOf key).isSome = (e.ctx.keydir.lookup key).isSome := by
  cases hl : e.ctx.keydir.lookup key with
  | none => simp [Engine.valueOf, lookupFrame, hl]
  | some entry =>
      obtain ⟨file, fr, h1, h2, -, hval, -⟩ := hv key entry hl
      simp [Engine.valueOf, lookupFrame, hl, h1, h2, hval]

/-- With a valid KeyDir, a key frames a record exactly when it has an entry. -/
theorem isSome_lookupFrame (hv : KeyDirValid kd files) (key : Bytes) :
    (lookupFrame files kd key).isSome = (kd.lookup key).isSome := by
  cases hl : kd.lookup key with
  | none => simp [lookupFrame, hl]
  | some entry =>
      obtain ⟨file, fr, h1, h2, -⟩ := hv key entry hl
      simp [lookupFrame, hl, h1, h2]

/-- Growing files moves no valid entry's frame. -/
theorem lookupFrame_mono (hv : KeyDirValid kd files) (hx : Extends files files') :
    lookupFrame files' kd = lookupFrame files kd := by
  funext key
  cases hl : kd.lookup key with
  | none => simp [lookupFrame, hl]
  | some entry =>
      obtain ⟨file, fr, h1, h2, -⟩ := hv key entry hl
      obtain ⟨more, h1'⟩ := hx _ _ h1
      simp [lookupFrame, hl, h1, h1', h2, DataFile.read_append more h2]

theorem lookupFrame_insert (files : FileMap DataFile) (kd : KeyDir) (key k : Bytes)
    (entry : KeyDirEntry) :
    lookupFrame files (kd.insert key entry) k = if k = key then
      (files.lookup entry.fileid).bind (·.read entry.len entry.pos) else lookupFrame files kd k := by
  by_cases h : k = key
  · subst h; simp [lookupFrame]
  · simp [lookupFrame, AList.lookup_insert_ne h, h]

theorem lookupFrame_erase (files : FileMap DataFile) (kd : KeyDir) (key k : Bytes) :
    lookupFrame files (kd.erase key) k = if k = key then none else lookupFrame files kd k := by
  by_cases h : k = key
  · subst h; simp [lookupFrame]
  · simp [lookupFrame, AList.lookup_erase_ne h, h]

end Frames

/-! ## The directory -/

/-- Every hint file lists exactly the records of the data file of its id, and all of them
are values: merge writes a hint file only beside a data file it fills with live records. -/
def HintsAgree (datafiles : FileMap DataFile) (hintfiles : FileMap HintFile) : Prop :=
  ∀ f hint, hintfiles.lookup f = some hint →
    ∃ file, datafiles.lookup f = some file ∧ hint = DataFile.hintsOf file ∧
      ∀ fr ∈ file, fr.entry.value.isSome

/-- Creating `b` after `a` was fresh: `b` has the larger id, or `b` is the hint file of the
data file `a` (merge creates a data file and then its hint file under one id). -/
def Fresh (a b : FileName) : Prop :=
  a.fileid < b.fileid ∨ (a = .data b.fileid ∧ b = .hint b.fileid)

instance : DecidableRel Fresh := fun _ _ => inferInstanceAs (Decidable (_ ∨ _))

/-- The directory below a fresh id `n`. -/
structure DiskBelow (d : Disk) (n : Nat) : Prop where
  noFaults : d.faults = []
  data_lt : ∀ f ∈ d.datafiles, f < n
  hint_lt : ∀ f ∈ d.hintfiles, f < n
  created_lt : ∀ x ∈ d.created, x.fileid < n
  created_fresh : d.created.Pairwise Fresh
  hints : HintsAgree d.datafiles d.hintfiles

/-- The writer's fields agree with the directory. -/
structure WriterInv (w : Writer) (d : Disk) : Prop where
  handle : w.writer.fileid = w.activeFileid
  active_mem : w.activeFileid ∈ d.datafiles
  writtenBytes : (framesOf d.datafiles w.activeFileid).size = w.writtenBytes
  active_hint : w.activeFileid ∉ d.hintfiles
  below : DiskBelow d (w.activeFileid + 1)

/-- The invariant of every reachable engine. -/
structure Inv (e : Engine) : Prop where
  writer : WriterInv e.writer e.disk
  accounts : Accounts e.ctx.keydir e.ctx.stats e.disk.datafiles

theorem HintsAgree.insert_data {files : FileMap DataFile} {hints : FileMap HintFile}
    (h : HintsAgree files hints) {f : Nat} (hf : f ∉ hints) (file : DataFile) :
    HintsAgree (files.insert f file) hints := fun g hint hg => by
  have hne : g ≠ f := fun he => hf (he ▸ mem_of_lookup hg)
  simpa [AList.lookup_insert_ne hne] using h g hint hg

/-- Writing a data file and its hint file together keeps the agreement when the hint file
holds the data file's hints and every record of the data file holds a value. -/
theorem HintsAgree.insert {files : FileMap DataFile} {hints : FileMap HintFile}
    (h : HintsAgree files hints) (f : Nat) (file : DataFile)
    (hvals : ∀ fr ∈ file, fr.entry.value.isSome) :
    HintsAgree (files.insert f file) (hints.insert f (DataFile.hintsOf file)) := fun g hint hg => by
  by_cases hgf : g = f
  · subst hgf
    simp only [AList.lookup_insert, Option.some.injEq] at hg
    exact ⟨file, AList.lookup_insert _, hg.symm, hvals⟩
  · simpa [AList.lookup_insert_ne hgf] using h g hint (by simpa [AList.lookup_insert_ne hgf] using hg)

/-- A property of every id of a file map holds after inserting an id that has it. -/
theorem forall_mem_insert {β : Type} {s : FileMap β} {p : Nat → Prop} (h : ∀ f ∈ s, p f)
    {m : Nat} (hm : p m) (v : β) : ∀ f ∈ s.insert m v, p f := fun f hf =>
  ((AList.mem_insert _).1 hf).elim (fun he => he ▸ hm) (h f)

theorem pairwise_fresh_append {l : List FileName} (x : FileName) (hp : l.Pairwise Fresh)
    (hx : ∀ a ∈ l, a.fileid < x.fileid) : (l ++ [x]).Pairwise Fresh :=
  List.pairwise_append.2 ⟨hp, List.pairwise_singleton _ _, fun a ha b hb => by
    rw [List.mem_singleton.1 hb]; exact .inl (hx a ha)⟩

/-- A data file and then its hint file, both under a fresh id, are fresh creations. -/
theorem pairwise_fresh_append_pair {l : List FileName} {n : Nat} (hp : l.Pairwise Fresh)
    (hx : ∀ a ∈ l, a.fileid < n) : (l ++ [FileName.data n] ++ [FileName.hint n]).Pairwise Fresh := by
  refine List.pairwise_append.2 ⟨pairwise_fresh_append (.data n) hp hx,
    List.pairwise_singleton _ _, fun a ha b hb => ?_⟩
  rw [List.mem_singleton.1 hb]
  rcases List.mem_append.1 ha with ha | ha
  · exact .inl (hx a ha)
  · rw [List.mem_singleton.1 ha]; exact .inr ⟨rfl, rfl⟩

/-- After a data file and its hint file under `n`, every creation has an id at most `n`. -/
theorem fileid_le_append_pair {l : List FileName} {n : Nat} (hx : ∀ a ∈ l, a.fileid < n) :
    ∀ a ∈ l ++ [FileName.data n] ++ [FileName.hint n], a.fileid ≤ n := by
  intro a ha
  simp only [List.mem_append, List.mem_singleton] at ha
  rcases ha with (ha | rfl) | rfl
  · exact Nat.le_of_lt (hx a ha)
  · rfl
  · rfl

/-- A directory below `n` takes a new active data file `n`. -/
theorem DiskBelow.startActive {d : Disk} {n : Nat} (h : DiskBelow d n) :
    WriterInv ⟨⟨n⟩, n, 0⟩ (d.create (.data n)) := by
  have hfresh : n ∉ d.hintfiles := fun hm => Nat.lt_irrefl n (h.hint_lt n hm)
  refine ⟨rfl, by simp, by simp, hfresh, ⟨by simp [h.noFaults],
    forall_mem_insert (fun f hf => Nat.lt_succ_of_lt (h.data_lt f hf)) (Nat.lt_succ_self n) _,
    ?_, ?_, ?_, ?_⟩⟩
  · intro f hf
    have := h.hint_lt f hf; dsimp only; omega
  · intro x hx
    dsimp only
    rcases (by simpa using hx : x ∈ d.created ∨ x = .data n) with hx | rfl
    · have := h.created_lt x hx; omega
    · simp [FileName.fileid]
  · simpa using pairwise_fresh_append (.data n) h.created_fresh h.created_lt
  · exact h.hints.insert_data hfresh []

/-- Appending to the active file keeps the writer's fields in step. -/
theorem WriterInv.append {w : Writer} {d : Disk} (h : WriterInv w d) {file : DataFile}
    (hf : d.datafiles.lookup w.activeFileid = some file) (fr : Frame) :
    WriterInv { w with writtenBytes := w.writtenBytes + fr.len }
      (d.setData w.writer.fileid (file ++ [fr])) := by
  have hsize := h.writtenBytes
  rw [framesOf_of_lookup hf] at hsize
  rw [h.handle]
  refine ⟨h.handle, by simp, by simp [hsize], by simpa using h.active_hint,
    ⟨by simp [h.below.noFaults], forall_mem_insert h.below.data_lt (Nat.lt_succ_self _) _,
      by simpa using h.below.hint_lt, by simpa using h.below.created_lt,
      by simpa using h.below.created_fresh, h.below.hints.insert_data h.active_hint _⟩⟩

/-! ## The writer's steps -/

variable {e : Engine} {file : DataFile} (conf : Config) (codec : Codec)

theorem Inv.activeFile (h : Inv e) :
    ∃ file, e.disk.datafiles.lookup e.writer.activeFileid = some file :=
  Option.isSome_iff_exists.1 (AList.lookup_isSome.2 h.writer.active_mem)

theorem Inv.rollover (h : Inv e) : Inv (e.rollover (e.writer.activeFileid + 1)) :=
  ⟨h.writer.below.startActive,
    h.accounts.createEmpty fun hm => Nat.lt_irrefl _ (h.writer.below.data_lt _ hm)⟩

theorem Inv.rolloverIf (h : Inv e) : Inv (e.rolloverIf conf) := by
  unfold Engine.rolloverIf
  split
  · exact h.rollover
  · exact h

/-- A rollover creates a fresh file, so every key reads what it read. -/
theorem Inv.valueOf_rolloverIf (h : Inv e) : (e.rolloverIf conf).valueOf = e.valueOf := by
  unfold Engine.rolloverIf
  split
  · funext k
    simp only [Engine.valueOf, Engine.rollover, Disk.create_data_datafiles]
    rw [lookupFrame_mono h.accounts.valid (extends_insert_fresh
      (fun hm => Nat.lt_irrefl _ (h.writer.below.data_lt _ hm)) [])]
  · rfl

theorem Engine.rolloverIf_pointKey (e : Engine) (k : Bytes) (entry : KeyDirEntry) :
    (e.rolloverIf conf).pointKey k entry = (e.pointKey k entry).rolloverIf conf := by
  by_cases hc : conf.maxFileSize < e.writer.writtenBytes <;>
    simp [Engine.rolloverIf, Engine.pointKey, Engine.rollover, hc]

theorem Engine.rolloverIf_dropKey (e : Engine) (k : Bytes) :
    (e.rolloverIf conf).dropKey k = (e.dropKey k).rolloverIf conf := by
  by_cases hc : conf.maxFileSize < e.writer.writtenBytes <;>
    simp [Engine.rolloverIf, Engine.dropKey, Engine.rollover, hc]

theorem Inv.appendLive (h : Inv e) (hf : e.disk.datafiles.lookup e.writer.activeFileid = some file)
    (entry : DataFileEntry) (hv : entry.value.isSome) :
    Inv ((e.appendRecord codec file entry).pointKey entry.key
      ⟨e.writer.activeFileid, codec.len entry, file.size, entry.tstamp⟩) := by
  obtain ⟨v, hv'⟩ := Option.isSome_iff_exists.1 hv
  have hs : recordStats entry.value (codec.len entry) = LogStatistics.addLive := by
    simp [recordStats, hv']
  refine ⟨h.writer.append hf (codec.frame entry), ?_⟩
  simp only [Engine.pointKey, Engine.appendRecord, hs, h.writer.handle]
  exact h.accounts.appendLive hf (codec.frame entry) hv

theorem Inv.appendDead (h : Inv e) (hf : e.disk.datafiles.lookup e.writer.activeFileid = some file)
    (entry : DataFileEntry) (hv : entry.value = none) : Inv (e.appendRecord codec file entry) := by
  have hs : recordStats entry.value (codec.len entry) = (·.addDead (codec.len entry)) := by
    simp [recordStats, hv]
  refine ⟨h.writer.append hf (codec.frame entry), ?_⟩
  simp only [Engine.appendRecord, hs, h.writer.handle]
  exact h.accounts.appendDead hf (codec.frame entry)

theorem Inv.dropKey (h : Inv e) (k : Bytes) : Inv (e.dropKey k) :=
  ⟨h.writer, h.accounts.dropKey k⟩

theorem Engine.valueOf_appendLive (h : Inv e)
    (hf : e.disk.datafiles.lookup e.writer.activeFileid = some file) (entry : DataFileEntry)
    (k : Bytes) :
    ((e.appendRecord codec file entry).pointKey entry.key
      ⟨e.writer.activeFileid, codec.len entry, file.size, entry.tstamp⟩).valueOf k =
        if k = entry.key then entry.value else e.valueOf k := by
  simp only [Engine.valueOf, Engine.pointKey, Engine.appendRecord, h.writer.handle,
    Disk.setData_datafiles, lookupFrame_insert, lookupFrame_mono h.accounts.valid (extends_append hf [codec.frame entry])]
  split
  · have hr : (file ++ [codec.frame entry]).read (codec.len entry) file.size =
        some (codec.frame entry) := DataFile.read_eq_some.2 ⟨by simp, rfl⟩
    simp only [AList.lookup_insert, Option.some_bind, hr]; rfl
  · rfl

theorem Engine.valueOf_appendDead (h : Inv e)
    (hf : e.disk.datafiles.lookup e.writer.activeFileid = some file) (entry : DataFileEntry) :
    (e.appendRecord codec file entry).valueOf = e.valueOf := by
  funext k
  simp only [Engine.valueOf, Engine.appendRecord, h.writer.handle, Disk.setData_datafiles,
    lookupFrame_mono h.accounts.valid (extends_append hf [codec.frame entry])]

theorem Engine.valueOf_dropKey (e : Engine) (key k : Bytes) :
    (e.dropKey key).valueOf k = if k = key then none else e.valueOf k := by
  simp only [Engine.valueOf, Engine.dropKey, lookupFrame_erase]
  split <;> rfl

/-- **`put` is a map update.**  From a state with the invariant, `put` succeeds, keeps the
invariant, and afterwards `key` reads `value` while every other key reads what it read. -/
theorem Writer.put_spec (h : Inv e) (t : Int) (key value : Bytes) :
    ∃ e', Writer.put conf codec t key value e = .ok () e' ∧ Inv e' ∧
      ∀ k, e'.valueOf k = if k = key then some value else e.valueOf k := by
  obtain ⟨file, hf⟩ := h.activeFile
  have hlive := h.appendLive codec hf ⟨t, key, some value⟩ rfl
  refine ⟨_, Writer.put_of_noFaults conf codec h.writer.below.noFaults
    (h.writer.handle ▸ hf) t key value, ?_, fun k => ?_⟩
  · rw [Engine.rolloverIf_pointKey]; exact hlive.rolloverIf conf
  · rw [Engine.rolloverIf_pointKey, hlive.valueOf_rolloverIf conf,
      Engine.valueOf_appendLive codec h hf]

/-- **`delete` is a map erasure.**  From a state with the invariant, `delete` succeeds,
returns whether `key` read a value, keeps the invariant, and afterwards `key` reads
nothing while every other key reads what it read. -/
theorem Writer.delete_spec (h : Inv e) (t : Int) (key : Bytes) :
    ∃ e', Writer.delete conf codec t key e = .ok (e.valueOf key).isSome e' ∧ Inv e' ∧
      ∀ k, e'.valueOf k = if k = key then none else e.valueOf k := by
  obtain ⟨file, hf⟩ := h.activeFile
  have hdead := h.appendDead codec hf ⟨t, key, none⟩ rfl
  refine ⟨((e.appendRecord codec file ⟨t, key, none⟩).rolloverIf conf).dropKey key, ?_, ?_,
    fun k => ?_⟩
  · rw [isSome_valueOf h.accounts.valid]
    exact Writer.delete_of_noFaults conf codec h.writer.below.noFaults (h.writer.handle ▸ hf) t key
  · rw [Engine.rolloverIf_dropKey]; exact (hdead.dropKey key).rolloverIf conf
  · rw [Engine.rolloverIf_dropKey, (hdead.dropKey key).valueOf_rolloverIf conf,
      Engine.valueOf_dropKey, Engine.valueOf_appendDead codec h hf]

end Bitcask
