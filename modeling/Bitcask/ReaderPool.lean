import Bitcask.Writer

/-!
# The reader pool

`Bitcask::open` puts readers into a bounded queue, `concurrency` of them, or one when
`concurrency` is `0` (`ArrayQueue::new` asserts a non-zero capacity).  Every
`Handle::get` pops a reader, spinning while the queue is empty, runs `Reader::get` with
it and pushes it back, whatever the read returned.  Both pushes end in `expect`, which
panics when the queue is full.

This file models the queue, the loop of `open` that fills it, and any number of
`Handle::get` calls interleaved one atomic queue operation at a time.  It shows that the
readers are conserved: between them, the queue and the calls hold exactly the readers
`open` created, each once.  So no push ever finds the queue full.

The pool does not read what the writer does.  A `write` event replaces the engine the
reads run against by any engine at all, so the results hold under every interleaving
with the writer's steps as well.

## Main Definitions

* `ArrayQueue` — the bounded queue, with its bound as a field.
* `openReaders` — the reader pool of `Bitcask::open`.
* `GetCall` — where one `Handle::get` call is in its loop; `GetCall.step` is its next step.
* `Pool`, `Pool.step`, `Pool.run` — the queue with the calls in flight, and runs of
  events: a new call, a step of one call, or a change of the engine.
* `PoolInv` — the conservation invariant.

## Main Statements

* `openReaders_spec` — `open` fills a queue of capacity `max concurrency 1` with that
  many readers and no push fails.
* `PoolInv.run` — every run from the opened pool keeps the invariant.
* `PoolInv.push_ok` — under the invariant, the push a call is about to make succeeds.
* `reader_pool_conserved` — for every `concurrency`, open fills the queue, and in every
  run the queue and the calls hold `max concurrency 1` readers and no push back fails.
* `reader_pool_perm` — in every run, no reader is lost or copied.
-/

namespace Bitcask

/-! ## The queue -/

/-- Modelled from the spec: crossbeam's `ArrayQueue`, the bounded queue of the reader pool.
`items` is its content, front first, and never longer than the capacity `cap`. -/
structure ArrayQueue (α : Type) where
  cap : Nat
  items : List α
  bounded : items.length ≤ cap

namespace ArrayQueue

variable {α : Type}

/-- `ArrayQueue::new`: an empty queue, for a capacity that is not zero (the queue asserts
it). -/
def new (cap : Nat) (_ : 0 < cap) : ArrayQueue α := ⟨cap, [], Nat.zero_le _⟩

/-- `ArrayQueue::capacity`. -/
def capacity (q : ArrayQueue α) : Nat := q.cap

/-- `ArrayQueue::push`: the value goes to the back, or is handed back as the error when
the queue is full. -/
def push (q : ArrayQueue α) (x : α) : Except α (ArrayQueue α) :=
  if h : q.items.length < q.cap then
    .ok ⟨q.cap, q.items ++ [x], by rw [List.length_append, List.length_singleton]; exact h⟩
  else .error x

/-- `ArrayQueue::pop`: the front value, if the queue holds one. -/
def pop : ArrayQueue α → Option (α × ArrayQueue α)
  | ⟨_, [], _⟩ => none
  | ⟨cap, x :: rest, h⟩ => some (x, ⟨cap, rest, Nat.le_of_succ_le h⟩)

/-- A push below the capacity succeeds and appends. -/
theorem push_of_lt {q : ArrayQueue α} (h : q.items.length < q.cap) (x : α) :
    ∃ q', q.push x = .ok q' ∧ q'.cap = q.cap ∧ q'.items = q.items ++ [x] :=
  ⟨_, dif_pos h, rfl, rfl⟩

end ArrayQueue

/-! ## Opening the pool -/

/-- A `Reader` of the pool.  Its cache of mapped files is left out (a read maps the file as
the directory holds it, `Reader.get`) and every reader shares the engine, so the model
tells readers apart only by `id`, the turn of the loop of `open` that created the reader. -/
structure Reader where
  id : Nat
  deriving DecidableEq, Repr

/-- The readers the loop of `open` creates for a queue of capacity `n`. -/
def createdReaders (n : Nat) : List Reader := (List.range n).map Reader.mk

/-- The loop of `Bitcask::open` that fills the queue, one reader for each id of `ids`; a
push that fails panics at its `expect`, with the code's message. -/
def pushReaders : List Nat → ArrayQueue Reader → Except String (ArrayQueue Reader)
  | [], readers => .ok readers
  | id :: ids, readers =>
      match readers.push ⟨id⟩ with
      | .ok readers => pushReaders ids readers
      | .error _ => .error "unreachable error"

/-- The reader pool of `Bitcask::open`: a queue of capacity `concurrency`, or of capacity
`concurrency + 1` when `concurrency` is `0`, filled up to its capacity. -/
def openReaders (conf : Config) : Except String (ArrayQueue Reader) :=
  let readers : ArrayQueue Reader :=
    if h : conf.concurrency > 0 then ArrayQueue.new conf.concurrency h
    else ArrayQueue.new (conf.concurrency + 1) (Nat.succ_pos _)
  pushReaders (List.range readers.capacity) readers

/-- Filling a queue with room for every id succeeds and appends one reader per id. -/
theorem pushReaders_spec : ∀ (ids : List Nat) (readers : ArrayQueue Reader),
    readers.items.length + ids.length ≤ readers.cap →
      ∃ q, pushReaders ids readers = .ok q ∧ q.cap = readers.cap ∧
        q.items = readers.items ++ ids.map Reader.mk
  | [], readers, _ => ⟨readers, rfl, rfl, by simp⟩
  | id :: ids, readers, h => by
      simp only [List.length_cons] at h
      obtain ⟨q₁, h₁, hc, hi⟩ := readers.push_of_lt (by omega) ⟨id⟩
      have hroom : q₁.items.length + ids.length ≤ q₁.cap := by
        simp only [hc, hi, List.length_append, List.length_singleton]; omega
      obtain ⟨q, hq, hc', hi'⟩ := pushReaders_spec ids q₁ hroom
      exact ⟨q, by simp only [pushReaders, h₁, hq], hc'.trans hc, by simp [hi', hi]⟩

/-- Both branches of `open` create an empty queue of capacity `max concurrency 1`. -/
theorem openReaders_eq (conf : Config) :
    openReaders conf = pushReaders (List.range (max conf.concurrency 1))
      (ArrayQueue.new (max conf.concurrency 1) (by omega)) := by
  by_cases h : conf.concurrency > 0
  · simp only [openReaders, dif_pos h, ArrayQueue.capacity, ArrayQueue.new, Nat.max_eq_left h]
  · have h0 : conf.concurrency = 0 := by omega
    simp only [openReaders, dif_neg h, ArrayQueue.capacity, ArrayQueue.new, h0]
    rfl

/-- **Opening fills the pool.**  For every `concurrency`, `0` included, the queue has
capacity `max concurrency 1` and holds the readers created for it; no push panics. -/
theorem openReaders_spec (conf : Config) :
    ∃ q, openReaders conf = .ok q ∧ q.cap = max conf.concurrency 1 ∧
      q.items = createdReaders (max conf.concurrency 1) :=
  let ⟨q, hq, hc, hi⟩ := pushReaders_spec (List.range (max conf.concurrency 1))
    (ArrayQueue.new (max conf.concurrency 1) (by omega)) (by simp [ArrayQueue.new])
  ⟨q, (openReaders_eq conf).trans hq, hc, hi⟩

example : (openReaders ⟨0, 0, ⟨0, 0, 0⟩⟩).map ArrayQueue.items = .ok [⟨0⟩] := rfl

/-! ## Calls of `Handle::get` -/

/-- Where a `Handle::get` call is in its loop: at the top, about to `pop` (where it stays,
spinning, while the queue is empty); holding the popped reader, before `Reader::get` and
after it with its result, `Ok` or `Err`; returned; or stopped by the panic of the push
back's `expect`. -/
inductive GetCall
  | pop (key : Bytes)
  | read (key : Bytes) (reader : Reader)
  | push (reader : Reader) (result : Except Error (Option Bytes))
  | done (result : Except Error (Option Bytes))
  | panicked

namespace GetCall

/-- The reader a call holds. -/
def held : GetCall → Option Reader
  | .read _ reader => some reader
  | .push reader _ => some reader
  | _ => none

/-- The next step of a call that reads the engine `e`: the loop of `Handle::get` up to its
next operation on the queue, which is atomic. -/
def step (e : Engine) (readers : ArrayQueue Reader) : GetCall → GetCall × ArrayQueue Reader
  | .pop key =>
      match readers.pop with
      | some (reader, readers) => (.read key reader, readers)
      | none => (.pop key, readers)
  | .read key reader => (.push reader (Reader.get e key), readers)
  | .push reader result =>
      match readers.push reader with
      | .ok readers => (.done result, readers)
      | .error _ => (.panicked, readers)
  | call => (call, readers)

/-- **One step of a call** moves a reader between the queue and the call, and nowhere
else; it keeps the capacity and, when the queue has room for the reader the call holds,
does not panic. -/
theorem step_spec (e : Engine) (readers : ArrayQueue Reader) {call : GetCall}
    (hc : call ≠ .panicked) (hfree : call.held.isSome → readers.items.length < readers.cap) :
    (call.step e readers).1 ≠ .panicked ∧ (call.step e readers).2.cap = readers.cap ∧
      List.Perm ((call.step e readers).2.items ++ (call.step e readers).1.held.toList)
        (readers.items ++ call.held.toList) := by
  cases call with
  | pop key =>
      rcases readers with ⟨cap, _ | ⟨r, rest⟩, h⟩
      · exact ⟨nofun, rfl, .refl _⟩
      · exact ⟨nofun, rfl, by simp [step, held, ArrayQueue.pop]⟩
  | read key r => exact ⟨nofun, rfl, .refl _⟩
  | push r result =>
      obtain ⟨q, hq, hcap, hi⟩ := readers.push_of_lt (hfree rfl) r
      simp only [step, hq]
      exact ⟨nofun, hcap, by simp [hi, held]⟩
  | done result => exact ⟨nofun, rfl, .refl _⟩
  | panicked => exact absurd rfl hc

end GetCall

/-! ## Interleaved calls -/

/-- The engine the reads run against, the reader queue, and the `Handle::get` calls the
clients have made, in the order they were made. -/
structure Pool where
  engine : Engine
  readers : ArrayQueue Reader
  calls : List GetCall

/-- An atomic step of the system: a client starts a `Handle::get`, the `i`-th call takes
its next step, or the writer changes the engine. -/
inductive Event
  | call (key : Bytes)
  | step (i : Nat)
  | write (engine : Engine)

namespace Pool

/-- One event. -/
def step (p : Pool) : Event → Pool
  | .call key => { p with calls := p.calls ++ [.pop key] }
  | .step i =>
      match p.calls[i]? with
      | some call =>
          { p with readers := (call.step p.engine p.readers).2,
                   calls := p.calls.set i (call.step p.engine p.readers).1 }
      | none => p
  | .write engine => { p with engine := engine }

/-- A run: the events in the order they happen. -/
def run (p : Pool) (events : List Event) : Pool := events.foldl step p

/-- The readers the calls hold, in the order of the calls. -/
def held (p : Pool) : List Reader := p.calls.filterMap GetCall.held

end Pool

/-- The invariant of the pool of `n` readers: the queue has capacity `n`, the queue and the
calls hold exactly the readers `open` created, and no call has panicked. -/
structure PoolInv (n : Nat) (p : Pool) : Prop where
  cap : p.readers.cap = n
  perm : List.Perm (p.readers.items ++ p.held) (createdReaders n)
  noPanic : ∀ call ∈ p.calls, call ≠ .panicked

/-- `filterMap` over a cons, with the head's image as a list. -/
theorem filterMap_eq_toList_append {α β : Type} (f : α → Option β) (x : α) (l : List α) :
    (x :: l).filterMap f = (f x).toList ++ l.filterMap f := by
  cases h : f x <;> simp [List.filterMap_cons, h]

/-- Replacing the `i`-th call changes the readers the calls hold only in that call's place. -/
theorem held_set {calls : List GetCall} {i : Nat} {call : GetCall} (h : calls[i]? = some call)
    (call' : GetCall) : ∃ A B, calls.filterMap GetCall.held = A ++ call.held.toList ++ B ∧
      (calls.set i call').filterMap GetCall.held = A ++ call'.held.toList ++ B := by
  obtain ⟨hi, rfl⟩ := List.getElem?_eq_some_iff.1 h
  refine ⟨(calls.take i).filterMap GetCall.held, (calls.drop (i + 1)).filterMap GetCall.held,
    ?_, ?_⟩
  · conv_lhs => rw [← List.take_append_drop i calls, List.drop_eq_getElem_cons hi]
    rw [List.filterMap_append, filterMap_eq_toList_append, List.append_assoc]
  · rw [List.set_eq_take_cons_drop _ hi, List.filterMap_append, filterMap_eq_toList_append,
      List.append_assoc]

/-- Exchanging a part of a bag for a permutation of it keeps the bag. -/
theorem perm_exchange {X X' Y Y' A B C : List Reader} (h₁ : List.Perm (X' ++ Y') (X ++ Y))
    (h₂ : List.Perm (X ++ (A ++ Y ++ B)) C) : List.Perm (X' ++ (A ++ Y' ++ B)) C := by
  refine List.perm_iff_count.2 fun r => ?_
  have c₁ := List.perm_iff_count.1 h₁ r
  have c₂ := List.perm_iff_count.1 h₂ r
  simp only [List.count_append] at c₁ c₂ ⊢
  omega

section Inv

variable {n : Nat} {p : Pool}

/-- The queue and the calls hold `n` readers between them. -/
theorem PoolInv.length_eq (h : PoolInv n p) : p.readers.items.length + p.held.length = n := by
  simpa [createdReaders] using h.perm.length_eq

/-- While a call holds a reader, the queue has room for it. -/
theorem PoolInv.room (h : PoolInv n p) {r : Reader} (hr : r ∈ p.held) :
    p.readers.items.length < p.readers.cap := by
  have := h.length_eq
  have := List.length_pos_of_mem hr
  rw [h.cap]
  omega

/-- **The push back never fails.**  Under the invariant, the push a call is about to make
succeeds. -/
theorem PoolInv.push_ok (h : PoolInv n p) {r : Reader} {result : Except Error (Option Bytes)}
    (hc : GetCall.push r result ∈ p.calls) : ∃ q, p.readers.push r = .ok q ∧ q.cap = n :=
  let ⟨q, hq, hcap, _⟩ := p.readers.push_of_lt (h.room (List.mem_filterMap.2 ⟨_, hc, rfl⟩)) r
  ⟨q, hq, hcap.trans h.cap⟩

/-- **One event keeps the invariant.** -/
theorem PoolInv.step (h : PoolInv n p) (ev : Event) : PoolInv n (p.step ev) := by
  cases ev with
  | call key =>
      refine ⟨h.cap, by simpa [Pool.step, Pool.held, GetCall.held] using h.perm, fun c hc => ?_⟩
      rcases List.mem_append.1 hc with hc | hc
      · exact h.noPanic c hc
      · rw [List.mem_singleton.1 hc]; exact nofun
  | write e => exact ⟨h.cap, h.perm, h.noPanic⟩
  | step i =>
      cases hi : p.calls[i]? with
      | none => simpa [Pool.step, hi] using h
      | some call =>
          obtain ⟨A, B, h₁, h₂⟩ := held_set hi (call.step p.engine p.readers).1
          have hmem : call ∈ p.calls := List.mem_iff_getElem?.2 ⟨i, hi⟩
          have hfree : call.held.isSome → p.readers.items.length < p.readers.cap := fun hs => by
            obtain ⟨r, hr⟩ := Option.isSome_iff_exists.1 hs
            exact h.room (r := r) (by rw [Pool.held, h₁, hr]; simp)
          obtain ⟨hc', hcap, hperm⟩ := GetCall.step_spec p.engine p.readers (h.noPanic _ hmem) hfree
          refine ⟨by simp only [Pool.step, hi]; rw [hcap, h.cap], ?_, fun c hc => ?_⟩
          · simp only [Pool.step, hi, Pool.held, h₂]
            exact perm_exchange hperm (by rw [← h₁]; exact h.perm)
          · simp only [Pool.step, hi] at hc
            rcases List.mem_or_eq_of_mem_set hc with hc | rfl
            · exact h.noPanic c hc
            · exact hc'

/-- **Every run keeps the invariant.** -/
theorem PoolInv.run {p : Pool} (h : PoolInv n p) : ∀ events, PoolInv n (p.run events)
  | [] => h
  | ev :: events => (h.step ev).run events

/-- The pool `open` fills, with no call made yet, satisfies the invariant. -/
theorem PoolInv.opened {conf : Config} {q : ArrayQueue Reader} (hq : openReaders conf = .ok q)
    (e : Engine) : PoolInv (max conf.concurrency 1) ⟨e, q, []⟩ := by
  obtain ⟨q', hq', hcap, hitems⟩ := openReaders_spec conf
  rw [hq] at hq'
  cases hq'
  exact ⟨hcap, by simp [Pool.held, hitems], nofun⟩

end Inv

/-! ## Conservation -/

/-- **Reader-pool conservation.**  For every `concurrency`, `0` included, `Bitcask::open`
fills a queue of capacity `max concurrency 1` with that many readers, and no push fails.
Then in every run of any number of `Handle::get` calls, interleaved in any order with
each other and with any change the writer makes to the engine, the readers in the queue
and those the calls hold number `max concurrency 1`.  Every push back succeeds, so no call
panics at its `expect`. -/
theorem reader_pool_conserved (conf : Config) :
    ∃ q, openReaders conf = .ok q ∧ q.capacity = max conf.concurrency 1 ∧
      q.items.length = max conf.concurrency 1 ∧
      ∀ (e : Engine) (events : List Event),
        let p := Pool.run ⟨e, q, []⟩ events
        p.readers.items.length + p.held.length = max conf.concurrency 1 ∧
          (∀ r result, GetCall.push r result ∈ p.calls → ∃ q', p.readers.push r = .ok q') ∧
          GetCall.panicked ∉ p.calls := by
  obtain ⟨q, hq, hcap, hitems⟩ := openReaders_spec conf
  refine ⟨q, hq, hcap, by simp [hitems, createdReaders], fun e events => ?_⟩
  have h := (PoolInv.opened hq e).run events
  exact ⟨h.length_eq, fun r result hc => (h.push_ok hc).imp fun _ => And.left,
    fun hc => h.noPanic _ hc rfl⟩

/-- **No reader is lost or copied.**  In every run from the pool `open` fills, the queue and
the calls hold between them the readers `open` created, each exactly once. -/
theorem reader_pool_perm (conf : Config) :
    ∃ q, openReaders conf = .ok q ∧ ∀ (e : Engine) (events : List Event),
      let p := Pool.run ⟨e, q, []⟩ events
      List.Perm (p.readers.items ++ p.held) (createdReaders (max conf.concurrency 1)) ∧
        (p.readers.items ++ p.held).Nodup := by
  obtain ⟨q, hq, -⟩ := openReaders_spec conf
  refine ⟨q, hq, fun e events => ?_⟩
  have h := (PoolInv.opened hq e).run events
  exact ⟨h.perm, h.perm.nodup_iff.2 ((List.nodup_range _).map fun _ _ => Reader.mk.inj)⟩

end Bitcask
