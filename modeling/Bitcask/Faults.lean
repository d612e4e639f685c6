import Bitcask.Run

/-!
# Failing file operations

The fault plan of the directory says which of the writer's next file operations fail.
Every file operation but the flush of a dropped `BufWriter` raises its failure to the
caller through `?`, which keeps every change the operation made before; the flush's
failure is discarded by `Drop`.  This file follows `put` and `merge` through failures:

* a `put` whose append succeeds but whose rollover cannot create the next data file has
  already moved `active_fileid` past the writer's handle and counted the record live in
  the statistics, while the KeyDir never points at it;
* a merge whose last flush is lost returns `Ok` with keys pointing at bytes never written,
  and a merge that fails inside the copy loop leaves a key in a merge file whose id the
  next rollover creates again, empty.

## Main Definitions

* `Engine.withFaults` — the engine under a given fault plan.

## Main Statements

* `Writer.put_rollover_fault` — from every state with the invariant, a `put` that fails
  in its rollover leaves `active_fileid` one past the handle's file, which does not exist,
  and the handle's file one live key above the keys pointing into it.
* `failed_rollover_breaks_writer` — after such a failure the next `put` succeeds but its
  key cannot be read, and the failed `put` counts as not applied before a reopen and as
  applied after it.
* `merge_fault_loses_keys` — a merge can return `Ok` and lose a key for good, and a
  failed merge can leave a key that the next rollover makes unreadable.
-/

namespace Bitcask

/-- The engine with the plan `plan` for the writer's next file operations. -/
def Engine.withFaults (e : Engine) (plan : List Bool) : Engine :=
  { e with disk := { e.disk with faults := plan } }

@[simp] theorem Engine.withFaults_faults (e : Engine) (plan : List Bool) :
    (e.withFaults plan).disk.faults = plan := rfl

@[simp] theorem Engine.withFaults_withFaults (e : Engine) (p q : List Bool) :
    (e.withFaults p).withFaults q = e.withFaults q := rfl

@[simp] theorem Engine.withFaults_ctx (e : Engine) (plan : List Bool) :
    (e.withFaults plan).ctx = e.ctx := rfl

@[simp] theorem Engine.withFaults_writer (e : Engine) (plan : List Bool) :
    (e.withFaults plan).writer = e.writer := rfl

@[simp] theorem Engine.withFaults_datafiles (e : Engine) (plan : List Bool) :
    (e.withFaults plan).disk.datafiles = e.disk.datafiles := rfl

variable {e : Engine}

theorem syscall_of_pass {α : Type} (op : BitcaskM α) {rest : List Bool}
    (h : e.disk.faults = false :: rest) : syscall op e = op (e.withFaults rest) := by
  simp [syscall, bind, EStateM.bind, fault, h, Engine.withFaults]

theorem syscall_of_fail {α : Type} (op : BitcaskM α) {rest : List Bool}
    (h : e.disk.faults = true :: rest) :
    syscall op e = .error (.io .other) (e.withFaults rest) := by
  simp [syscall, bind, EStateM.bind, fault, h, Engine.withFaults, throw, throwThe,
    MonadExceptOf.throw, EStateM.throw]

variable (conf : Config) (codec : Codec)

/-! ## Failures of `put` -/

/-- **A failed rollover leaves the writer inconsistent.**  From every state with the
invariant, a `put` whose record takes the active file past `max_file_size`, whose append
succeeds and whose `log::create` of the next data file fails, returns an error after
`new_active_datafile` has set `active_fileid` one past the file the handle appends to,
a file that does not exist; the KeyDir is unchanged, yet the active file's statistics
have counted the record as one more live key. -/
theorem Writer.put_rollover_fault (h : Inv e) (t : Int) (key value : Bytes)
    (hbig : conf.maxFileSize < e.writer.writtenBytes + codec.len ⟨t, key, some value⟩)
    (plan : List Bool) :
    ∃ e', Writer.put conf codec t key value (e.withFaults (false :: true :: plan)) =
        .error (.io .other) e' ∧
      e'.writer.activeFileid = e.writer.activeFileid + 1 ∧
      e'.writer.writer.fileid = e.writer.activeFileid ∧
      e'.writer.activeFileid ∉ e'.disk.datafiles ∧ e'.ctx.keydir = e.ctx.keydir ∧
      (statsOf e'.ctx.stats e.writer.activeFileid).liveKeys =
        liveKeysIn e'.ctx.keydir e.writer.activeFileid + 1 := by
  obtain ⟨file, hf⟩ := h.activeFile
  have hw : (e.withFaults (true :: plan)).disk.datafiles.lookup e.writer.writer.fileid =
      some file := by rw [h.writer.handle]; exact hf
  let e₁ := (e.withFaults (true :: plan)).appendRecord codec file ⟨t, key, some value⟩
  refine ⟨{ e₁ with writer := { e₁.writer with activeFileid := e.writer.activeFileid + 1 } }.withFaults
    plan, ?_, rfl, h.writer.handle, ?_, rfl, ?_⟩
  · simp only [Writer.put, Writer.write, bind, EStateM.bind, getThe, MonadStateOf.get,
      EStateM.get, LogWriter.append, syscall_of_pass _ (Engine.withFaults_faults e _),
      Engine.withFaults_withFaults, Engine.withFaults_writer, LogDir.get_of_lookup hw, modifyDisk,
      modifyWriter, modifyCtx,
      modify, modifyGet, MonadStateOf.modifyGet, EStateM.modifyGet, pure, EStateM.pure]
    rw [if_pos (by simpa using hbig)]
    simp [Writer.newActiveDatafile, bind, EStateM.bind, modifyWriter, modify, modifyGet,
      MonadStateOf.modifyGet, EStateM.modifyGet, create, syscall_of_fail, e₁,
      Engine.appendRecord, Engine.withFaults, h.writer.handle]
  · have hlt := h.writer.below.data_lt (e.writer.activeFileid + 1)
    simp only [e₁, Engine.appendRecord, Engine.withFaults, Disk.setData_datafiles, h.writer.handle]
    rw [AList.mem_insert]
    exact fun hm => hm.elim (by omega) fun hm => Nat.lt_irrefl _ (hlt hm)
  · simp [e₁, Engine.appendRecord, Engine.withFaults, recordStats,
      (h.accounts.accounts _).live]

/-- On a fresh directory, with every write rolling over. -/
theorem Writer.put_rollover_fault_initial :
    Inv Engine.initial ∧ (0 : Nat) < Engine.initial.writer.writtenBytes +
      Codec.sample.len ⟨0, [1], some [2]⟩ ∧
    ∃ e', Writer.put ⟨1, 0, ⟨0, 0, 0⟩⟩ Codec.sample 0 [1] [2]
        (Engine.initial.withFaults [false, true]) = .error (.io .other) e' ∧
      e'.writer.activeFileid = Engine.initial.writer.activeFileid + 1 ∧
      e'.writer.writer.fileid = Engine.initial.writer.activeFileid ∧
      e'.writer.activeFileid ∉ e'.disk.datafiles ∧ e'.ctx.keydir = Engine.initial.ctx.keydir ∧
      (statsOf e'.ctx.stats Engine.initial.writer.activeFileid).liveKeys =
        liveKeysIn e'.ctx.keydir Engine.initial.writer.activeFileid + 1 :=
  have h := Inv.of_open diskInv_empty Engine.open_empty
  ⟨h, by decide, Writer.put_rollover_fault ⟨1, 0, ⟨0, 0, 0⟩⟩ Codec.sample h 0 [1] [2]
    (by decide) []⟩

/-- A failed rollover, then a successful `put`.  With `max_file_size` `0`, the first `put`
appends its record to file `0` and fails to create file `1`: `active_fileid` is `1`, the
handle still appends to file `0`, and the key reads nothing.  The next `put` succeeds, but
its entry names file `1`, which does not exist, so its key cannot be read.  Reopening the
directory replays file `0` and finds the record of the failed `put`. -/
theorem failed_rollover_breaks_writer :
    ∃ e₁ e₂ e₃, Writer.put ⟨1, 0, ⟨0, 0, 0⟩⟩ Codec.sample 0 [1] [2]
        (Engine.initial.withFaults [false, true]) = .error (.io .other) e₁ ∧
      e₁.writer.activeFileid = 1 ∧ e₁.writer.writer.fileid = 0 ∧ Reader.get e₁ [1] = .ok none ∧
      Writer.put ⟨1, 0, ⟨0, 0, 0⟩⟩ Codec.sample 1 [3] [4] e₁ = .ok () e₂ ∧
      Reader.get e₂ [3] = .error (.io .notFound) ∧
      Engine.open e₁.disk = .ok e₃ ∧ Reader.get e₃ [1] = .ok (some [2]) :=
  ⟨_, _, _, rfl, rfl, rfl, rfl, rfl, rfl, rfl, rfl⟩

/-! ## Failures of `merge` -/

/-- Two merges of file `0`, which holds one record of key `[1]`, with `max_file_size` `30`.

* Every file operation succeeds except the flush when the merge data file's writer is
  dropped; `Drop` discards that error, so `merge` returns `Ok`, but the key's entry now
  names bytes of merge file `1` that were never written, and file `0` is gone: the key
  reads an error, also after a reopen.
* The hint append after the copy fails: the copy is flushed, and the key reads its value
  from merge file `1`, but file `0` still counts it live.  The next `put` rolls the active
  file over to id `1`, which `log::create` truncates, and the key reads an error. -/
theorem merge_fault_loses_keys :
    ∃ e₀ e₁ e₂, Writer.put ⟨1, 30, ⟨0, 0, 100⟩⟩ Codec.sample 0 [1] [2] Engine.initial = .ok () e₀ ∧
      Reader.get e₀ [1] = .ok (some [2]) ∧
      Writer.merge ⟨1, 30, ⟨0, 0, 100⟩⟩
        (e₀.withFaults [false, false, false, false, false, false, true]) = .ok () e₁ ∧
      Reader.get e₁ [1] = .error .serialization ∧
      Engine.open e₁.disk = .ok e₂ ∧ Reader.get e₂ [1] = .error .serialization ∧
    ∃ e₃ e₄, Writer.merge ⟨1, 30, ⟨0, 0, 100⟩⟩
        (e₀.withFaults [false, false, false, false, false, true]) = .error (.io .other) e₃ ∧
      Reader.get e₃ [1] = .ok (some [2]) ∧ e₃.ctx.keydir.lookup [1] = some ⟨1, 27, 0, 0⟩ ∧
      (statsOf e₃.ctx.stats 0).liveKeys = 1 ∧ liveKeysIn e₃.ctx.keydir 0 = 0 ∧
      Writer.put ⟨1, 30, ⟨0, 0, 100⟩⟩ Codec.sample 1 [3] [4] e₃ = .ok () e₄ ∧
      e₃.writer.activeFileid + 1 = 1 ∧ Reader.get e₄ [1] = .error .serialization :=
  ⟨_, _, _, rfl, rfl, rfl, rfl, rfl, rfl, _, _, rfl, rfl, rfl, rfl, rfl, rfl, rfl, rfl⟩

end Bitcask
