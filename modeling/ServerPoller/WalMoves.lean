import ServerPoller.WalDisk
import ServerPoller.Lib.Transition
import Mathlib.Data.List.Perm.Basic

/-! The buffer as a store of segments that changes by four moves, and the proof that what the writer
does to the segment files is a sequence of these moves. -/

namespace ServerPoller
open DirectoryIo Numerals Transition

/-- The part of the world that decides which records the buffer holds. -/
structure Store where
  current : Option String
  files : AList (fun _ : String => Bytes)
  readings : Nat
  evicted : Nat

def store (w : World WalProcess) : Store where
  current := w.proc.wal.currentSegment.map SegmentWriter.path
  files := w.files.mapVals fun _ => DiskFile.bytes
  readings := w.readings
  evicted := w.proc.metrics.bufferEvicted

def Store.segments (s : Store) : List String := segmentNames s.files.keys

def Store.oldest (s : Store) : Option String := oldestCompleted s.segments s.current

inductive Move (V : Type) where
  | evict
  | drop
  | rotate
  | append (v : V)
  deriving DecidableEq, Repr

def written {V : Type} (ms : List (Move V)) : List V :=
  ms.filterMap fun
    | .append v => some v
    | _ => none

section Moves
variable {V : Type} (c : Codec V) (env : Surroundings)

def Store.removed (s : Store) (name : String) : Store := { s with files := s.files.erase name }

def Store.rotated (s : Store) : Store :=
  let name := segmentName (env.clock s.readings)
  { s with
    current := some name
    files := if name ∈ s.files then s.files else s.files.insert name []
    readings := s.readings + 1 }

def Store.move (s : Store) : Move V → Option Store
  | .evict => s.oldest.map fun name => { s.removed name with evicted := s.evicted + 1 }
  | .drop => s.oldest.map s.removed
  | .rotate => some (s.rotated env)
  | .append v => s.current.map fun name => { s with files := s.files.modify name (· ++ recordBytes c v) }

abbrev Moves : Store → List (Move V) → Store → Prop := Run (ofFn (Store.move c env))

end Moves

@[simp] theorem written_nil {V : Type} : written ([] : List (Move V)) = [] := rfl

@[simp] theorem written_append {V : Type} (ms ns : List (Move V)) :
    written (ms ++ ns) = written ms ++ written ns := List.filterMap_append

/-- A sequence of moves that does not stop between opening a segment and writing to it. -/
def Settled {V : Type} (ms : List (Move V)) : Prop := ms = [] ∨ ∃ before v, ms = before ++ [.append v]

theorem Settled.append {V : Type} {ms ns : List (Move V)} (hm : Settled ms) (hn : Settled ns) :
    Settled (ms ++ ns) := by
  rcases hn with rfl | ⟨before, v, rfl⟩
  · simpa using hm
  · exact .inr ⟨ms ++ before, v, by simp⟩

/-- The moves by which `write_batch` stores a batch. -/
structure Writes {V : Type} (items : List V) (ms : List (Move V)) : Prop where
  all : written ms = items
  settled : Settled ms
  no_drop : .drop ∉ ms

theorem Writes.nil {V : Type} : Writes ([] : List V) [] := ⟨rfl, .inl rfl, List.not_mem_nil⟩

theorem Writes.append {V : Type} {vs ws : List V} {ms ns : List (Move V)} (hm : Writes vs ms)
    (hn : Writes ws ns) : Writes (vs ++ ws) (ms ++ ns) where
  all := by rw [written_append, hm.all, hn.all]
  settled := hm.settled.append hn.settled
  no_drop := fun h => (List.mem_append.mp h).elim hm.no_drop hn.no_drop

theorem isSegment_segmentName (ts : Nat) : isSegment (segmentName ts) = true := by
  have shape : (segmentName ts).toList.reverse =
      ['l', 'a', 'w', '.'] ++ (("buffer-" ++ toString ts).toList.reverse) := by
    simp [segmentName]
  have stem : ∃ x xs, ("buffer-" ++ toString ts).toList.reverse = x :: xs :=
    List.exists_cons_of_ne_nil (by simp)
  obtain ⟨x, xs, hx⟩ := stem
  have ext : extension (segmentName ts) = some "wal" := by
    simp only [extension, shape, hx]
    rfl
  simp only [isSegment, ext, beq_self_eq_true]

theorem Store.oldest_spec {s : Store} {name : String} (h : s.oldest = some name) :
    name ∈ s.files ∧ isSegment name = true ∧ s.current ≠ some name := by
  obtain ⟨mem, other⟩ := oldestCompleted_some h
  obtain ⟨onDisk, seg⟩ := mem_segmentNames.mp mem
  exact ⟨AList.mem_keys.mpr onDisk, seg, other⟩

section Inversion
variable {V : Type} {c : Codec V} {env : Surroundings} {s t : Store}

theorem move_evict (h : s.move c env .evict = some t) :
    ∃ name, s.oldest = some name ∧ t = { s.removed name with evicted := s.evicted + 1 } := by
  obtain ⟨name, ho, ht⟩ := Option.map_eq_some_iff.mp h
  exact ⟨name, ho, ht.symm⟩

theorem move_drop (h : s.move c env .drop = some t) :
    ∃ name, s.oldest = some name ∧ t = s.removed name := by
  obtain ⟨name, ho, ht⟩ := Option.map_eq_some_iff.mp h
  exact ⟨name, ho, ht.symm⟩

theorem move_rotate (h : s.move c env .rotate = some t) : t = s.rotated env :=
  (Option.some.inj h).symm

theorem move_append {v : V} (h : s.move c env (.append v) = some t) :
    ∃ name, s.current = some name ∧
      t = { s with files := s.files.modify name (· ++ recordBytes c v) } := by
  obtain ⟨name, hc, ht⟩ := Option.map_eq_some_iff.mp h
  exact ⟨name, hc, ht.symm⟩

theorem mem_rotated {name : String} :
    name ∈ (s.rotated env).files ↔ name = segmentName (env.clock s.readings) ∨ name ∈ s.files := by
  unfold Store.rotated
  by_cases there : segmentName (env.clock s.readings) ∈ s.files
  · simp only [there, if_true]
    constructor
    · exact .inr
    · rintro (rfl | h)
      · exact there
      · exact h
  · simp only [there, if_false, AList.mem_insert]

def Store.CurrentOnDisk (s : Store) : Prop := ∀ name, s.current = some name → name ∈ s.files

def Store.OnlySegments (s : Store) : Prop := ∀ name ∈ s.files, isSegment name = true

theorem Store.CurrentOnDisk.removed (h : s.CurrentOnDisk) {name : String} (oldest : s.oldest = some name) :
    (s.removed name).CurrentOnDisk := by
  intro p hp
  exact AList.mem_erase.mpr ⟨fun e => (Store.oldest_spec oldest).2.2 (e ▸ hp), h p hp⟩

theorem Store.OnlySegments.removed (h : s.OnlySegments) (name : String) : (s.removed name).OnlySegments :=
  fun p hp => h p (AList.mem_erase.mp hp).2

theorem move_current_on_disk {m : Move V} (h : s.CurrentOnDisk) (hm : s.move c env m = some t) :
    t.CurrentOnDisk := by
  cases m with
  | evict =>
      obtain ⟨name, ho, rfl⟩ := move_evict hm
      exact h.removed ho
  | drop =>
      obtain ⟨name, ho, rfl⟩ := move_drop hm
      exact h.removed ho
  | rotate =>
      cases move_rotate hm
      intro p hp
      exact mem_rotated.mpr (.inl (Option.some.inj hp).symm)
  | append v =>
      obtain ⟨name, _, rfl⟩ := move_append hm
      intro p hp
      rw [AList.mem_keys, AList.keys_modify]
      exact h p hp

theorem move_only_segments {m : Move V} (h : s.OnlySegments) (hm : s.move c env m = some t) :
    t.OnlySegments := by
  cases m with
  | evict =>
      obtain ⟨name, _, rfl⟩ := move_evict hm
      exact h.removed name
  | drop =>
      obtain ⟨name, _, rfl⟩ := move_drop hm
      exact h.removed name
  | rotate =>
      cases move_rotate hm
      intro p hp
      rcases mem_rotated.mp hp with rfl | old
      · exact isSegment_segmentName _
      · exact h p old
  | append v =>
      obtain ⟨name, _, rfl⟩ := move_append hm
      intro p hp
      rw [AList.mem_keys, AList.keys_modify] at hp
      exact h p hp

end Inversion

def Disk.store (d : Disk) : Store where
  current := d.current
  files := d.files.mapVals fun _ => DiskFile.bytes
  readings := d.readings
  evicted := d.evicted

section Simulation
variable {V : Type} {c : Codec V} {env : Surroundings} {d e : Disk} {w w' : World WalProcess}

theorem store_eq : store w = (disk w).store := rfl

theorem store_of_disk (same : disk w' = disk w) : store w' = store w := congrArg Disk.store same

theorem Disk.store_oldest : d.store.oldest = d.oldest := by
  simp only [Store.oldest, Store.segments, store, oldest, segments, AList.keys_mapVals]

theorem Disk.store_removed (name : String) : (d.removed name).store = d.store.removed name := by
  simp only [store, removed, current, Store.removed, AList.mapVals_erase]

theorem Disk.store_evict (name : String) :
    (d.evict name).store = { d.store.removed name with evicted := d.store.evicted + 1 } := by
  simp only [store, evict, removed, current, Store.removed, AList.mapVals_erase]

theorem Disk.store_rotated : (d.rotated env).store = d.store.rotated env := by
  unfold store rotated current Files.opened Store.rotated
  simp only [Option.map_some, AList.mem_mapVals]
  cases hf : d.files.lookup (segmentName (env.clock d.readings)) with
  | some f =>
      have there : segmentName (env.clock d.readings) ∈ d.files := AList.exists_lookup_iff_mem.mp ⟨f, hf⟩
      simp only [there, if_true]
  | none =>
      have absent := AList.lookup_eq_none.mp hf
      simp only [absent, if_false, AList.mapVals_insert]

theorem Disk.store_append (c : Codec V) (env : Surroundings) {seg : SegmentWriter}
    (current : d.wal.currentSegment = some seg) (v : V) :
    d.store.move c env (.append v) = some (d.append (recordBytes c v)).store := by
  have path : d.store.current = some seg.path := by
    simp only [store, Disk.current, current, Option.map_some]
  rw [Store.move, path, Option.map_some]
  simp only [store, Disk.current, append, current, Option.map_some, Option.some.injEq]
  congr 1
  exact (AList.mapVals_modify (g := DiskFile.bytes) (fun _ => rfl) d.files seg.path).symm

theorem Disk.store_synced : d.synced.store = d.store := by
  unfold synced
  cases hs : d.wal.currentSegment with
  | none => rfl
  | some seg =>
      have bytes : (d.files.modify seg.path fun f => { f with durable := f.bytes.length }).mapVals
          (fun _ => DiskFile.bytes) = (d.files.mapVals fun _ => DiskFile.bytes).modify seg.path id :=
        AList.mapVals_modify (g := DiskFile.bytes) (fun _ => rfl) d.files seg.path
      simp only [store, current, bytes, AList.modify_id, hs]

theorem Evictions.moves (c : Codec V) (env : Surroundings) {size : Nat} (h : Evictions size d e) :
    ∃ ms : List (Move V), (∀ m ∈ ms, m = .evict) ∧ Moves c env d.store ms e.store := by
  induction h with
  | fits | exhausted => exact ⟨[], nofun, .nil _⟩
  | @evict d e name _ oldest _ ih =>
      obtain ⟨ms, evicts, run⟩ := ih
      refine ⟨.evict :: ms, List.forall_mem_cons.mpr ⟨rfl, evicts⟩, .cons ?_ run⟩
      rw [ofFn, Store.move, Disk.store_oldest, oldest, Option.map_some, Disk.store_evict]

/-- Evictions and at most one rotation before a record is appended. -/
theorem writes_singleton {v : V} {ms : List (Move V)} (quiet : ∀ m ∈ ms, m = .evict ∨ m = .rotate) :
    Writes [v] (ms ++ [.append v]) where
  all := by
    have none : written ms = [] := by
      apply List.filterMap_eq_nil_iff.mpr
      intro m hm
      rcases quiet m hm with rfl | rfl <;> rfl
    rw [written_append, none]
    rfl
  settled := .inr ⟨ms, v, rfl⟩
  no_drop := by
    intro h
    rcases List.mem_append.mp h with h | h
    · rcases quiet _ h with e | e <;> cases e
    · cases List.mem_singleton.mp h

theorem Disk.readied_current (c : Codec V) (env : Surroundings) (d : Disk) (v : V) :
    ∃ seg, (d.readied c env v).wal.currentSegment = some seg := by
  unfold readied
  split
  · exact ⟨_, rfl⟩
  · rename_i stays
    cases hs : d.wal.currentSegment with
    | none => simp [needsRotate, hs] at stays
    | some seg => exact ⟨seg, rfl⟩

theorem Wrote.moves {v : V} (h : Wrote c env v d e) :
    ∃ ms, Writes [v] ms ∧ Moves c env d.store ms e.store := by
  obtain ⟨d₁, evicted, rfl⟩ := h
  obtain ⟨ms, evicts, run⟩ := evicted.moves c env
  obtain ⟨seg, current⟩ := d₁.readied_current c env v
  have appended := Disk.store_append c env current v
  by_cases turns : needsRotate d₁.wal (recordSize c v) = true
  · have rotated : d₁.store.move c env (.rotate : Move V) = some (d₁.readied c env v).store := by
      rw [Disk.readied, if_pos turns, Disk.store_rotated]
      rfl
    refine ⟨ms ++ [.rotate] ++ [.append v], writes_singleton ?_,
      (run.append (.single rotated)).append (.single appended)⟩
    intro m hm
    rcases List.mem_append.mp hm with hm | hm
    · exact .inl (evicts m hm)
    · exact .inr (List.mem_singleton.mp hm)
  · have stays : d₁.readied c env v = d₁ := if_neg turns
    rw [stays] at appended ⊢
    exact ⟨ms ++ [.append v], writes_singleton fun m hm => .inl (evicts m hm),
      run.append (.single appended)⟩

theorem WroteAll.moves {items : List V} (h : WroteAll c env items d e) :
    ∃ ms, Writes items ms ∧ Moves c env d.store ms e.store := by
  induction h with
  | nil => exact ⟨[], .nil, .nil _⟩
  | cons first _ ih =>
      obtain ⟨ms, one, run⟩ := first.moves
      obtain ⟨ms', more, rest⟩ := ih
      exact ⟨ms ++ ms', one.append more, run.append rest⟩

/-- `write_batch` returns, and what it has done is a sequence of moves that write the batch. -/
theorem writeBatch_moves (h : env.Faultless) (items : List V) :
    Yields (writeBatch c env items) w
      (fun _ w' => ∃ ms, Writes items ms ∧ Moves c env (store w) ms (store w')) := by
  apply yields_writeBatch h
  intro w' d wrote synced
  have same : store w' = d.store := by
    rw [store_eq, synced]
    split
    · rfl
    · exact Disk.store_synced
  rw [same]
  exact wrote.moves

end Simulation

end ServerPoller
