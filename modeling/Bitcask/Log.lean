import Bitcask.Basic

/-!
# Log files as lists of frames

`log.rs` is not under `src/`; its contract, as the engine uses it, is that a data file is
a concatenation of framed records:

* `LogWriter::append` writes a record after the last one and returns the index
  `(len, pos)` of the bytes it wrote;
* `LogReader::at(len, pos)` decodes the record occupying exactly `[pos, pos + len)`, and
  `LogReader::copy_raw(len, pos, dst)` copies those bytes, framing included;
* `LogIterator` walks a file from offset `0`, yielding each record with its index.

Over `DataFile = List Frame` these become `frameAt`/`read` (the frame starting at a byte
offset), `logIterator` (the records with their indexes) and `hintsOf` (what a hint file
for the same file lists).  The lemmas here are the only facts about byte offsets the rest
of the development uses: appending keeps every earlier frame readable at its old offset
and makes the new one readable at the old size.
-/

namespace Bitcask

namespace DataFile

/-- The number of bytes written to a data file. -/
def size : DataFile → Nat
  | [] => 0
  | fr :: rest => fr.len + size rest

@[simp] theorem size_nil : size [] = 0 := rfl

@[simp] theorem size_cons (fr : Frame) (file : DataFile) :
    size (fr :: file) = fr.len + size file := rfl

@[simp] theorem size_append : ∀ (a b : DataFile), size (a ++ b) = size a + size b
  | [], b => by simp
  | fr :: rest, b => by simp [size_append rest b, Nat.add_assoc]

/-- The frame that starts at byte `pos`, if one does. -/
def frameAt : DataFile → Nat → Option Frame
  | [], _ => none
  | fr :: rest, pos =>
      if pos = 0 then some fr else if pos < fr.len then none else frameAt rest (pos - fr.len)

/-- The frame occupying exactly the bytes `[pos, pos + len)`: what `LogReader::at` decodes
and `LogReader::copy_raw` copies. -/
def read (file : DataFile) (len pos : Nat) : Option Frame :=
  (frameAt file pos).filter fun fr => fr.len = len

theorem read_eq_some {file : DataFile} {len pos : Nat} {fr : Frame} :
    read file len pos = some fr ↔ frameAt file pos = some fr ∧ fr.len = len := by
  simp [read, Option.filter_eq_some]

/-- A frame read at `pos` lies within the written bytes. -/
theorem frameAt_bound : ∀ {file : DataFile} {pos : Nat} {fr : Frame},
    frameAt file pos = some fr → pos + fr.len ≤ size file
  | [], _, _, h => by simp [frameAt] at h
  | g :: rest, pos, fr, h => by
      unfold frameAt at h
      split_ifs at h with h0 hlt
      · cases h; simp [h0]
      · have := frameAt_bound h; simp; omega

theorem frameAt_mem : ∀ {file : DataFile} {pos : Nat} {fr : Frame},
    frameAt file pos = some fr → fr ∈ file
  | [], _, _, h => by simp [frameAt] at h
  | g :: rest, pos, fr, h => by
      unfold frameAt at h
      split_ifs at h with h0 hlt
      · cases h; exact List.mem_cons_self _ _
      · exact List.mem_cons_of_mem _ (frameAt_mem h)

/-- Appending keeps every frame readable where it was. -/
theorem frameAt_append : ∀ {file : DataFile} {pos : Nat} {fr : Frame} (more : DataFile),
    frameAt file pos = some fr → frameAt (file ++ more) pos = some fr
  | [], _, _, _, h => by simp [frameAt] at h
  | g :: rest, pos, fr, more, h => by
      unfold frameAt at h
      simp only [List.cons_append, frameAt]
      split_ifs at h ⊢ <;> first | exact h | exact frameAt_append more h

/-- A frame that starts inside a file is read from the file alone, whatever follows it. -/
theorem frameAt_append_of_lt : ∀ {file : DataFile} {pos : Nat} (more : DataFile),
    pos < size file → frameAt (file ++ more) pos = frameAt file pos
  | [], _, _, h => by simp at h
  | g :: rest, pos, more, h => by
      simp only [List.cons_append, frameAt]
      split_ifs with h0 hlt
      · rfl
      · rfl
      · exact frameAt_append_of_lt more (by simp at h; omega)

/-- The appended frame starts where the file ended. -/
@[simp] theorem frameAt_append_size : ∀ (file : DataFile) (fr : Frame) (more : DataFile),
    frameAt (file ++ fr :: more) (size file) = some fr
  | [], fr, more => by simp [frameAt]
  | g :: rest, fr, more => by
      have hg := g.len_pos
      simp only [List.cons_append, frameAt, size_cons]
      rw [if_neg (by omega), if_neg (by omega), Nat.add_sub_cancel_left]
      exact frameAt_append_size rest fr more

/-- A frame that starts past a file's end is read from what follows it. -/
theorem frameAt_append_of_le : ∀ {file : DataFile} {pos : Nat} (more : DataFile),
    size file ≤ pos → frameAt (file ++ more) pos = frameAt more (pos - size file)
  | [], _, _, _ => rfl
  | g :: rest, pos, more, h => by
      have hg := g.len_pos
      simp only [size_cons] at h
      have ih := @frameAt_append_of_le rest (pos - g.len) more (by omega)
      simp only [List.cons_append, frameAt, size_cons]
      rw [if_neg (by omega), if_neg (by omega),
        show pos - (g.len + size rest) = pos - g.len - size rest by omega]
      exact ih

/-- A frame of a file with one frame appended is a frame of the file, or the appended frame
at the file's old end. -/
theorem frameAt_append_singleton {file : DataFile} {fr x : Frame} {pos : Nat}
    (h : frameAt (file ++ [fr]) pos = some x) :
    frameAt file pos = some x ∨ (pos = size file ∧ x = fr) := by
  by_cases hp : pos < size file
  · exact .inl (by rwa [frameAt_append_of_lt _ hp] at h)
  · rw [frameAt_append_of_le _ (by omega)] at h
    have hfr := fr.len_pos
    simp only [frameAt] at h
    split_ifs at h with h0
    exact .inr ⟨by omega, (Option.some.inj h).symm⟩

theorem read_append {file : DataFile} {len pos : Nat} {fr : Frame} (more : DataFile)
    (h : read file len pos = some fr) : read (file ++ more) len pos = some fr := by
  rw [read_eq_some] at h ⊢
  exact ⟨frameAt_append more h.1, h.2⟩

/-- Nothing is read past the written bytes. -/
theorem read_of_size_le {file : DataFile} {len pos : Nat} (h : size file ≤ pos) :
    read file len pos = none := by
  cases hx : read file len pos with
  | none => rfl
  | some x =>
      have := frameAt_bound (read_eq_some.1 hx).1
      have := x.len_pos
      omega

/-! ## Iterating a file -/

/-- `LogIterator`: the records of a file with their indexes, the first at byte `pos`. -/
def logIterator : DataFile → Nat → List (LogIndex × DataFileEntry)
  | [], _ => []
  | fr :: rest, pos => (⟨fr.len, pos⟩, fr.entry) :: logIterator rest (pos + fr.len)

@[simp] theorem logIterator_nil (pos : Nat) : logIterator [] pos = [] := rfl

@[simp] theorem logIterator_cons (fr : Frame) (rest : DataFile) (pos : Nat) :
    logIterator (fr :: rest) pos = (⟨fr.len, pos⟩, fr.entry) :: logIterator rest (pos + fr.len) :=
  rfl

theorem logIterator_append : ∀ (a b : DataFile) (pos : Nat),
    logIterator (a ++ b) pos = logIterator a pos ++ logIterator b (pos + size a)
  | [], b, pos => by simp
  | fr :: rest, b, pos => by
      simp [logIterator_append rest b, Nat.add_assoc]

@[simp] theorem length_logIterator : ∀ (file : DataFile) (pos : Nat),
    (logIterator file pos).length = file.length
  | [], _ => rfl
  | _ :: rest, _ => by simp [length_logIterator rest]

/-- An index the iterator yields is the index of a frame `frameAt` finds. -/
theorem mem_logIterator : ∀ {file : DataFile} {pos : Nat} {idx : LogIndex} {e : DataFileEntry},
    (idx, e) ∈ logIterator file pos ↔
      pos ≤ idx.pos ∧ ∃ fr, frameAt file (idx.pos - pos) = some fr ∧ fr.len = idx.len ∧ fr.entry = e
  | [], pos, idx, e => by simp [frameAt]
  | fr :: rest, pos, ⟨len, p⟩, e => by
      have hfr := fr.len_pos
      simp only [logIterator_cons, List.mem_cons, Prod.mk.injEq, LogIndex.mk.injEq,
        mem_logIterator, frameAt]
      constructor
      · rintro (⟨⟨rfl, rfl⟩, rfl⟩ | ⟨hp, g, hg, hlen, he⟩)
        · exact ⟨le_rfl, fr, by simp⟩
        · refine ⟨by omega, g, ?_, hlen, he⟩
          rw [if_neg (by omega), if_neg (by omega), show p - pos - fr.len = p - (pos + fr.len) by omega]
          exact hg
      · rintro ⟨hp, g, hg, hlen, he⟩
        split_ifs at hg with h0 hlt
        · cases hg; exact .inl ⟨⟨hlen.symm, by omega⟩, he.symm⟩
        · exact .inr ⟨by omega, g, by rwa [show p - (pos + fr.len) = p - pos - fr.len by omega], hlen, he⟩

/-- The iterator's offsets strictly increase, so no two records share an index. -/
theorem pairwise_logIterator : ∀ (file : DataFile) (pos : Nat),
    (logIterator file pos).Pairwise fun a b => a.1.pos < b.1.pos
  | [], _ => List.Pairwise.nil
  | fr :: rest, pos => by
      have hfr := fr.len_pos
      refine List.pairwise_cons.2 ⟨fun b hb => ?_, pairwise_logIterator rest _⟩
      obtain ⟨hp, -⟩ := mem_logIterator.1 (show (b.1, b.2) ∈ _ from hb)
      simp only at hp ⊢
      omega

/-- The hint entries describing a data file's records, in order. -/
def hintsOf (file : DataFile) : HintFile :=
  (logIterator file 0).map fun p => ⟨p.2.tstamp, p.1.len, p.1.pos, p.2.key⟩

@[simp] theorem hintsOf_nil : hintsOf [] = [] := rfl

@[simp] theorem hintsOf_append_singleton (file : DataFile) (fr : Frame) :
    hintsOf (file ++ [fr]) = hintsOf file ++ [⟨fr.entry.tstamp, fr.len, size file, fr.entry.key⟩] := by
  simp [hintsOf, logIterator_append]

end DataFile

end Bitcask
