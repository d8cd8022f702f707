import ServerPoller.WalDisk
import ServerPoller.Lib.IoOutcomes

/-! What the functions of `wal.rs` do when any of their system calls may fail: for each the states in
which it returns and those that an error leaves. -/

namespace ServerPoller
open DirectoryIo Numerals

/-- The world that a call leaves, returned or not. -/
def after {α : Type} (m : WalIo α) (w : World WalProcess) : World WalProcess :=
  match m w with
  | .ok _ w' => w'
  | .error _ w' => w'

def result {α : Type} (m : WalIo α) (w : World WalProcess) : Option α :=
  match m w with
  | .ok a _ => some a
  | .error _ _ => none

/-- The clock of `millisApart`, and one call fails. -/
def failingOnce (call outcome : Nat) : Surroundings where
  clock := millisApart.clock
  fault := fun i => if i = call then some outcome else none

section Calls
variable {V : Type} (c : Codec V) (env : Surroundings)

/-- The part of a turn of `write_batch` before the record is written. -/
def makeReady (item : V) : WalIo Unit := do
  let recordSize := 4 + (c.toVec item).length + 1
  evictOverBudget env recordSize ((← get).files.keys.length + 1)
  if needsRotate (← get).proc.wal recordSize then rotateSegment env

/-- The file is there and is removed; its size counts as 0 if the metadata are not to be had. -/
structure Removes (w : World WalProcess) (name : String) (f : DiskFile) (size : Nat) : Prop where
  found : w.files.lookup name = some f
  gone : env.fault (w.calls + 1) = none
  size : size = if env.fault w.calls = none then f.bytes.length else 0

def Disk.less (d : Disk) (name : String) (size : Nat) : Disk :=
  { d with
    wal := { d.wal with totalBytes := d.wal.totalBytes - size }
    files := d.files.erase name }

/-- What a write of a record that fails has put out: of the length a part, or all of it and a part of the
rest. -/
inductive CutShort (calls : Nat) (bs : Bytes) : Bytes → Prop
  | header {n} : env.fault calls = some n → CutShort calls bs ((toBeBytes 4 bs.length).take n)
  | payload {n} : env.fault calls = none → env.fault (calls + 1) = some n →
      CutShort calls bs (toBeBytes 4 bs.length ++ bs.take n)
  | mark {n} : env.fault calls = none → env.fault (calls + 1) = none → env.fault (calls + 2) = some n →
      CutShort calls bs (toBeBytes 4 bs.length ++ bs ++ [sentinel].take n)

end Calls

section Runs
variable {α : Type} {m : WalIo α} {w : World WalProcess} {a : α}

theorem run_of_result (h : result m w = some a) : m w = .ok a (after m w) := by
  unfold result at h
  unfold after
  cases run : m w with
  | ok b w' =>
      simp only [run, Option.some.injEq] at h
      simp only [h]
  | error e w' =>
      simp only [run] at h
      cases h

theorem run_of_no_result (h : result m w = none) : ∃ e, m w = .error e (after m w) := by
  unfold result at h
  unfold after
  cases run : m w with
  | ok b w' =>
      simp only [run] at h
      cases h
  | error e w' => exact ⟨e, rfl⟩

end Runs

section Outcomes
variable {V : Type} {c : Codec V} {env : Surroundings} {w : World WalProcess} {E : World WalProcess → Prop}

theorem ends_sortedSegments {R : List String → World WalProcess → Prop} (failed : E w.called)
    (listed : ∀ names, Listing env w names → sortedSegments env w = .ok (segmentNames names) w.called →
      R (segmentNames names) w.called) : Ends (sortedSegments env) w R E := by
  have spec : Ends (sortedSegments env) w
      (fun segments w' => w' = w.called ∧ ∃ names, Listing env w names ∧ segments = segmentNames names)
      fun w' => w' = w.called :=
    ends_bind (ends_readDir rfl fun names listing => ends_pure ⟨rfl, names, listing, rfl⟩)
  refine ends_run (fun segments w' run => ?_) fun e w' run => ?_
  · obtain ⟨rfl, names, listing, rfl⟩ := spec.of_ok run
    exact listed names listing run
  · rw [spec.of_error run]
    exact failed

theorem ends_syncGauges {R : Unit → World WalProcess → Prop} (set : ∀ w', disk w' = disk w → R () w') :
    Ends (syncGauges env) w R E :=
  ends_bind (ends_attempt (ends_sortedSegments (fun _ => ends_bind (ends_get (ends_modify (set _ rfl))))
    fun _ _ _ => ends_bind (ends_get (ends_modify (set _ rfl)))))

theorem ends_scanSegments (entries : List String) (totalBytes : Nat) {R : Nat → World WalProcess → Prop}
    (failed : ∀ calls, E { w with calls := calls })
    (scanned : ∀ calls, R (totalBytes + (entries.map (fileSize w.files)).sum) { w with calls := calls }) :
    Ends (scanSegments env entries totalBytes) w R E := by
  induction entries generalizing w totalBytes with
  | nil => exact ends_pure (scanned w.calls)
  | cons entry rest ih =>
      refine ends_bind (ends_fileLen (fun _ => failed _) fun f _ found => ih (w := w.called) _ failed fun calls => ?_)
      rw [← fileSize_of_lookup found, Nat.add_assoc]
      exact scanned calls

/-- `open` counts the bytes of the segments that it lists, or leaves everything as it was. -/
theorem ends_openWal (maxBytes segmentMaxBytes : Nat) {R : Unit → World WalProcess → Prop}
    (failed : ∀ w', disk w' = disk w → E w')
    (opened : ∀ names w', Listing env w.called names →
      disk w' = { disk w with
        wal := ⟨maxBytes, segmentMaxBytes, none, ((segmentNames names).map (fileSize w.files)).sum⟩ } → R () w') :
    Ends (openWal env maxBytes segmentMaxBytes) w R E := by
  refine ends_bind (ends_nextCall ?_)
  cases env.fault w.calls with
  | some n => exact ends_throw (failed _ rfl)
  | none =>
      refine ends_bind (ends_sortedSegments (failed _ rfl) fun names listing _ => ?_)
      refine ends_bind (ends_scanSegments _ 0 (fun _ => failed _ rfl) fun calls => ?_)
      refine ends_bind (ends_sortedSegments (failed _ rfl) fun _ _ _ => ?_)
      refine ends_bind (ends_modify (ends_syncGauges fun w' same => opened names w' listing (same.trans ?_)))
      rw [Nat.zero_add]
      rfl

/-- What goes with a file that is to be removed next: the calls for its size and for the removal. -/
theorem ends_removal {name : String} {α : Type} {finish : WalIo α} {R : α → World WalProcess → Prop}
    (failed : ∀ w', disk w' = disk w → E w')
    (removed : ∀ f size w', Removes env w name f size → disk w' = (disk w).less name size → Ends finish w' R E) :
    Ends (do
      let size ← attempt (fileLen env name)
      removeFile env name
      modifyWal fun wal => { wal with totalBytes := wal.totalBytes - size.toOption.getD 0 }
      finish) w R E := by
  have removal : ∀ r : Except IoError Nat, (∀ f, w.files.lookup name = some f →
      r.toOption.getD 0 = if env.fault w.calls = none then f.bytes.length else 0) →
      Ends (do
        removeFile env name
        modifyWal fun wal => { wal with totalBytes := wal.totalBytes - r.toOption.getD 0 }
        finish) w.called R E := by
    intro r size
    exact ends_bind (ends_removeFile (failed _ rfl) fun f fine found =>
      ends_bind (ends_modify (removed f _ _ ⟨found, fine, size f found⟩ rfl)))
  refine ends_bind (ends_attempt (ends_fileLen (fun fault e => removal _ fun f found => ?_) fun f fine found =>
    removal _ fun g found' => ?_))
  · rcases fault with fault | absent
    · exact (if_neg fault).symm
    · cases absent.symm.trans found
  · cases found.symm.trans found'
    exact (if_pos fine).symm

theorem ends_evictOldest {R : Bool → World WalProcess → Prop} (failed : ∀ w', disk w' = disk w → E w')
    (nothing : ∀ w', disk w' = disk w → R false w')
    (evicted : ∀ segments name f size w', sortedSegments env w = .ok segments w.called →
      oldestCompleted segments (disk w).current = some name → Removes env w.called name f size →
      disk w' = { (disk w).less name size with evicted := (disk w).evicted + 1 } → R true w') :
    Ends (evictOldest env) w R E := by
  refine ends_bind (ends_sortedSegments (failed _ rfl) fun names _ run => ?_)
  refine ends_bind (ends_bind (ends_get (ends_pure ?_)))
  have current : w.called.proc.wal.currentSegment.map SegmentWriter.path = (disk w).current := rfl
  rw [current]
  cases oldest : oldestCompleted (segmentNames names) (disk w).current with
  | none => exact ends_pure (nothing _ rfl)
  | some name =>
      refine ends_removal (fun w' same => failed w' same) fun f size w' removes less => ends_bind (ends_modify
        (ends_pure (evicted _ name f size _ run oldest removes ?_)))
      show { disk w' with evicted := (disk w').evicted + 1 } = _
      rw [less]
      rfl

theorem ends_rotateSegment {R : Unit → World WalProcess → Prop}
    (failed : ∀ w', disk w' = { disk w with
      wal := { (disk w).wal with currentSegment := none }, readings := w.readings + 1 } → E w')
    (rotated : ∀ w', disk w' = (disk w).rotated env → R () w') : Ends (rotateSegment env) w R E :=
  ends_bind (ends_modify (ends_bind (ends_clockReading (ends_bind (ends_openAppend (failed _ rfl)
    (ends_modify (rotated _ rfl)))))))

theorem ends_appendRecord {seg : SegmentWriter} (current : w.proc.wal.currentSegment = some seg) (bs : Bytes)
    {R : Unit → World WalProcess → Prop}
    (failed : ∀ part calls, CutShort env w.calls bs part →
      E { w with files := Files.written w.files seg.path part, calls := calls })
    (whole : env.fault w.calls = none → env.fault (w.calls + 1) = none → env.fault (w.calls + 2) = none →
      R () { w with
        proc := { w.proc with wal := { w.proc.wal with
          currentSegment := some { seg with size := seg.size + (4 + bs.length + 1) }
          totalBytes := w.proc.wal.totalBytes + (4 + bs.length + 1) } }
        files := Files.written w.files seg.path (toBeBytes 4 bs.length ++ bs ++ [sentinel])
        calls := w.calls + 3 }) :
    Ends (appendRecord env bs) w R E := by
  refine ends_bind (ends_get ?_)
  rw [current]
  refine ends_bind (ends_writeAll (fun n fault => failed _ _ (.header fault)) fun fine => ends_bind (ends_writeAll
    (fun n fault => ?_) fun fine' => ends_bind (ends_writeAll (fun n fault => ?_) fun fine'' => ends_modify ?_)))
  · have cut := failed _ (w.calls + 2) (.payload fine fault)
    rwa [← Files.written_written] at cut
  · have cut := failed _ (w.calls + 3) (.mark fine fine' fault)
    rwa [← Files.written_written, ← Files.written_written] at cut
  · have put := whole fine fine' fine''
    rwa [← Files.written_written, ← Files.written_written] at put

theorem writeItem_eq (c : Codec V) (env : Surroundings) (item : V) :
    writeItem c env item = (makeReady c env item >>= fun _ => appendRecord env (c.toVec item)) := by
  unfold writeItem makeReady
  simp only [bind_assoc]
  refine bind_congr fun before => bind_congr fun _ => bind_congr fun w => ?_
  split
  · rfl
  · rw [pure_bind]

theorem ends_syncCurrent {R : Unit → World WalProcess → Prop} (failed : ∀ w', disk w' = disk w → E w')
    (synced : ∀ w', disk w' = (disk w).synced → R () w') : Ends (syncCurrent env) w R E := by
  refine ends_bind (ends_get ?_)
  cases writer : w.proc.wal.currentSegment with
  | none => exact ends_pure (synced w (by simp only [Disk.synced, disk, writer]))
  | some seg =>
      refine ends_syncData (failed _ rfl) (synced _ ?_)
      simp only [Disk.synced, disk, writer]
      rfl

end Outcomes

end ServerPoller
