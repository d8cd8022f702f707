import ServerPoller.WalBudget
import ServerPoller.WalOutcomes

/-! The byte count of the buffer against the files, with calls that fail anywhere. The count is kept apart
from the files, and what a failed call has done to them it does not see. -/

namespace ServerPoller
open DirectoryIo Numerals Transition

inductive BufferCall (V : Type) where
  | openBuffer (maxBytes segmentMaxBytes : Nat)
  | write (items : List V)
  | delete (path : String)

/-- The directory, and whether there is a buffer open on it. -/
structure BufferRun where
  world : World WalProcess
  opened : Bool

section Calls
variable {V : Type} (c : Codec V) (env : Surroundings)

/-- A call of `open` that fails leaves the buffer that there was. -/
def bufferStep (r : BufferRun) : BufferCall V → BufferRun
  | .openBuffer maxBytes segmentMaxBytes =>
      match openWal env maxBytes segmentMaxBytes r.world with
      | .ok _ w => ⟨w, true⟩
      | .error _ w => ⟨w, r.opened⟩
  | .write items => if r.opened then ⟨after (writeBatch c env items) r.world, true⟩ else r
  | .delete path => if r.opened then ⟨after (deleteSegment env path) r.world, true⟩ else r

/-- The listing that comes next passes over nothing but empty segments and other files. -/
def ListsAll (w : World WalProcess) : Prop :=
  match env.fault w.calls with
  | some (n+1) => ∀ name ∈ w.files.keys.drop n, isSegment name = true → fileSize w.files name = 0
  | _ => True

/-- If the file is removed, its size is taken off the count exactly if it is a segment. -/
def RemovalCounted (w : World WalProcess) (name : String) : Prop :=
  env.fault (w.calls + 1) = none → fileSize w.files name = 0 ∨ (env.fault w.calls = none ↔ isSegment name = true)

/-- The record gets into a file of the directory if and only if it is written without an error, and nothing
of it gets there otherwise. -/
def AppendCounted (w : World WalProcess) : Prop :=
  match w.proc.wal.currentSegment with
  | none => True
  | some seg =>
      let whole := env.fault w.calls = none ∧ env.fault (w.calls + 1) = none ∧ env.fault (w.calls + 2) = none
      if seg.path ∈ w.files then whole ∨ env.fault w.calls = some 0 else ¬whole

def EvictionCounted (w : World WalProcess) : Prop :=
  match sortedSegments env w with
  | .error _ _ => True
  | .ok segments w' =>
      match oldestCompleted segments (w.proc.wal.currentSegment.map SegmentWriter.path) with
      | none => True
      | some path => RemovalCounted env w' path

def EvictionsCounted (recordSize : Nat) : Nat → World WalProcess → Prop
  | 0, _ => True
  | rounds+1, w =>
      w.proc.wal.maxBytes < w.proc.wal.totalBytes + recordSize →
        EvictionCounted env w ∧
          match evictOldest env w with
          | .ok true w' => EvictionsCounted recordSize rounds w'
          | _ => True

def TurnCounted (w : World WalProcess) (item : V) : Prop :=
  EvictionsCounted env (recordSize c item) (w.files.keys.length + 1) w ∧
    match makeReady c env item w with
    | .ok _ w' => AppendCounted env w'
    | .error _ _ => True

def BatchCounted : List V → World WalProcess → Prop
  | [], _ => True
  | item :: rest, w =>
      TurnCounted c env w item ∧
        match writeItem c env item w with
        | .ok _ w' => BatchCounted rest w'
        | .error _ _ => True

/-- No call of the code goes wrong in a way that the count does not see. -/
def CallCounted (r : BufferRun) : BufferCall V → Prop
  | .openBuffer _ _ => ListsAll env r.world.called
  | .write items => r.opened = true → BatchCounted c env items r.world
  | .delete path => r.opened = true → RemovalCounted env r.world path

instance (w : World WalProcess) : Decidable (ListsAll env w) := by
  unfold ListsAll
  split <;> infer_instance

instance (w : World WalProcess) (name : String) : Decidable (RemovalCounted env w name) :=
  inferInstanceAs (Decidable (_ → _ ∨ (_ ↔ _)))

instance (w : World WalProcess) : Decidable (AppendCounted env w) := by
  unfold AppendCounted
  split <;> infer_instance

instance (w : World WalProcess) : Decidable (EvictionCounted env w) := by
  unfold EvictionCounted
  split
  · infer_instance
  · split <;> infer_instance

instance EvictionsCounted.decidable (recordSize : Nat) :
    ∀ rounds w, Decidable (EvictionsCounted env recordSize rounds w)
  | 0, _ => .isTrue trivial
  | rounds+1, w =>
      have : Decidable (match evictOldest env w with
          | .ok true w' => EvictionsCounted env recordSize rounds w'
          | _ => True) :=
        match evictOldest env w with
        | .ok true w' => EvictionsCounted.decidable recordSize rounds w'
        | .ok false _ => .isTrue trivial
        | .error _ _ => .isTrue trivial
      inferInstanceAs (Decidable (_ → _ ∧ _))

instance (w : World WalProcess) (item : V) : Decidable (TurnCounted c env w item) :=
  have : Decidable (match makeReady c env item w with
      | .ok _ w' => AppendCounted env w'
      | .error _ _ => True) := by
    split <;> infer_instance
  inferInstanceAs (Decidable (_ ∧ _))

instance BatchCounted.decidable : ∀ items w, Decidable (BatchCounted c env items w)
  | [], _ => .isTrue trivial
  | item :: rest, w =>
      have : Decidable (match writeItem c env item w with
          | .ok _ w' => BatchCounted c env rest w'
          | .error _ _ => True) :=
        match writeItem c env item w with
        | .ok _ w' => BatchCounted.decidable rest w'
        | .error _ _ => .isTrue trivial
      inferInstanceAs (Decidable (_ ∧ _))

instance (r : BufferRun) (call : BufferCall V) : Decidable (CallCounted c env r call) :=
  match call with
  | .openBuffer _ _ => inferInstanceAs (Decidable (ListsAll _ _))
  | .write _ => inferInstanceAs (Decidable (_ → BatchCounted _ _ _ _))
  | .delete _ => inferInstanceAs (Decidable (_ → RemovalCounted _ _ _))

end Calls

/-- The count is that of the files, and the current segment is a segment. -/
structure Counted (wal : WalBuffer) (files : Files) : Prop where
  total : wal.totalBytes = files.sum segmentWeight
  current : ∀ seg, wal.currentSegment = some seg → isSegment seg.path = true

/-- The count is right after the computation, whether it returns or fails. -/
def KeepsCount {α : Type} (m : WalIo α) (w : World WalProcess) : Prop :=
  Ends m w (fun _ w' => Counted w'.proc.wal w'.files) fun w' => Counted w'.proc.wal w'.files

section Counting
variable {V : Type} {c : Codec V} {env : Surroundings} {w : World WalProcess}

theorem KeepsCount.after {α : Type} {m : WalIo α} (h : KeepsCount m w) :
    Counted (after m w).proc.wal (after m w).files := by
  unfold KeepsCount Ends at h
  unfold ServerPoller.after
  cases run : m w with
  | ok a w' => simpa only [run] using h
  | error e w' => simpa only [run] using h

theorem counted_of_disk {d : Disk} (h : Counted d.wal d.files) (same : disk w = d) :
    Counted w.proc.wal w.files := by
  subst same
  exact h

theorem RemovalCounted.size {name : String} (counted : RemovalCounted env w name) {f : DiskFile} {size : Nat}
    (removes : Removes env w name f size) : size = segmentWeight name f := by
  rw [removes.size]
  unfold segmentWeight
  rcases counted removes.gone with empty | right
  · rw [fileSize_of_lookup removes.found] at empty
    rw [empty, ite_self, ite_self]
  · simp only [right]

theorem Counted.less {d : Disk} (h : Counted d.wal d.files) {name : String} {f : DiskFile}
    (found : d.files.lookup name = some f) {size : Nat} (counted : size = segmentWeight name f) :
    Counted (d.less name size).wal (d.less name size).files := by
  refine ⟨?_, h.current⟩
  have split := AList.sum_erase (f := segmentWeight) found
  have total := h.total
  show d.wal.totalBytes - size = (d.files.erase name).sum segmentWeight
  omega

theorem keeps_evictOldest (h : Counted w.proc.wal w.files) (counted : EvictionCounted env w) :
    KeepsCount (evictOldest env) w := by
  refine ends_evictOldest (fun _ same => counted_of_disk h same) (fun _ same => counted_of_disk h same) ?_
  intro segments name f size w' run oldest removes less
  have oldest' : oldestCompleted segments (w.proc.wal.currentSegment.map SegmentWriter.path) = some name := oldest
  simp only [EvictionCounted, run, oldest'] at counted
  have kept : Counted ((disk w).less name size).wal ((disk w).less name size).files :=
    Counted.less h removes.found (counted.size removes)
  exact counted_of_disk (d := { (disk w).less name size with evicted := (disk w).evicted + 1 }) kept less

theorem keeps_deleteSegment (path : String) (h : Counted w.proc.wal w.files) (counted : RemovalCounted env w path) :
    KeepsCount (deleteSegment env path) w := by
  refine ends_removal (fun _ same => counted_of_disk h same) fun f size w' removes less => ?_
  have kept : Counted w'.proc.wal w'.files :=
    counted_of_disk (Counted.less h removes.found (counted.size removes)) less
  exact ends_bind (ends_modify (ends_syncGauges fun _ same => counted_of_disk kept same))

theorem keeps_evictOverBudget (recordSize rounds : Nat) (h : Counted w.proc.wal w.files)
    (counted : EvictionsCounted env recordSize rounds w) : KeepsCount (evictOverBudget env recordSize rounds) w := by
  induction rounds generalizing w with
  | zero => exact ends_pure h
  | succ rounds ih =>
      refine ends_bind (ends_get ?_)
      dsimp only
      split
      · rename_i exceeds
        obtain ⟨eviction, more⟩ := counted exceeds
        have kept := keeps_evictOldest h eviction
        refine ends_bind (ends_run (fun evicted w' run => ?_) fun e w' run => kept.of_error run)
        have h' := kept.of_ok run
        simp only [run] at more
        cases evicted with
        | false => exact ends_pure h'
        | true => exact ih h' more
      · exact ends_pure h

theorem Counted.opened {wal : WalBuffer} {files : Files} (h : Counted wal files) (name : String) :
    Counted wal (Files.opened files name) := by
  unfold Files.opened
  cases there : files.lookup name with
  | some f => exact h
  | none =>
      refine ⟨?_, h.current⟩
      have empty : segmentWeight name ⟨[], 0⟩ = 0 := ite_self 0
      rw [AList.sum_insert (AList.lookup_eq_none.mp there), empty, Nat.zero_add]
      exact h.total

theorem keeps_rotateSegment (h : Counted w.proc.wal w.files) : KeepsCount (rotateSegment env) w := by
  refine ends_rotateSegment (fun w' closed => counted_of_disk ⟨h.total, ?_⟩ closed)
    fun w' rotated => counted_of_disk ⟨(h.opened _).total, ?_⟩ rotated
  · rintro seg ⟨⟩
  · rintro seg ⟨⟩
    exact isSegment_segmentName _

theorem keeps_makeReady (item : V) (h : Counted w.proc.wal w.files)
    (counted : EvictionsCounted env (recordSize c item) (w.files.keys.length + 1) w) :
    KeepsCount (makeReady c env item) w := by
  refine ends_bind (ends_get (ends_bind (Ends.mono (keeps_evictOverBudget _ _ h counted) (fun _ w₁ h₁ => ?_)
    fun _ h' => h')))
  refine ends_bind (ends_get ?_)
  split
  · exact keeps_rotateSegment h₁
  · exact ends_pure h₁

theorem sum_written (files : Files) {name : String} (segment : isSegment name = true) (bs : Bytes) :
    (Files.written files name bs).sum segmentWeight =
      files.sum segmentWeight + if name ∈ files then bs.length else 0 := by
  by_cases there : name ∈ files
  · obtain ⟨f, found⟩ := AList.exists_lookup_iff_mem.mpr there
    rw [if_pos there, Files.written, AList.sum_modify found]
    rw [segmentWeight, if_pos segment, segmentWeight, if_pos segment, List.length_append]
  · rw [if_neg there, Nat.add_zero, Files.written, AList.modify_of_notMem there]

/-- Of a record whose write fails nothing is put out to a file that is there. -/
theorem AppendCounted.nothing {seg : SegmentWriter} (counted : AppendCounted env w)
    (current : w.proc.wal.currentSegment = some seg) (there : seg.path ∈ w.files) {bs part : Bytes}
    (cut : CutShort env w.calls bs part) : part = [] := by
  simp only [AppendCounted, current, if_pos there] at counted
  cases cut with
  | header fault =>
      rcases counted with ⟨fine, _⟩ | none_out
      · cases fine.symm.trans fault
      · cases none_out.symm.trans fault
        rfl
  | payload fine fault =>
      rcases counted with ⟨_, fine', _⟩ | none_out
      · cases fine'.symm.trans fault
      · cases fine.symm.trans none_out
  | mark fine _ fault =>
      rcases counted with ⟨_, _, fine''⟩ | none_out
      · cases fine''.symm.trans fault
      · cases fine.symm.trans none_out

theorem keeps_appendRecord (h : Counted w.proc.wal w.files) (counted : AppendCounted env w) (bs : Bytes) :
    KeepsCount (appendRecord env bs) w := by
  cases current : w.proc.wal.currentSegment with
  | none =>
      refine ends_bind (ends_get ?_)
      rw [current]
      exact ends_throw h
  | some seg =>
      have segment := h.current seg current
      refine ends_appendRecord current bs (fun part calls cut => ⟨?_, h.current⟩) fun fine fine' fine'' => ⟨?_, ?_⟩
      · rw [sum_written _ segment, ← h.total]
        by_cases there : seg.path ∈ w.files
        · rw [counted.nothing current there cut, List.length_nil, ite_self]
          rfl
        · rw [if_neg there]
          rfl
      · have there : seg.path ∈ w.files := by
          by_contra gone
          simp only [AppendCounted, current, if_neg gone] at counted
          exact counted ⟨fine, fine', fine''⟩
        have total := h.total
        show w.proc.wal.totalBytes + _ = (Files.written _ _ _).sum segmentWeight
        rw [sum_written _ segment, if_pos there, List.length_append, List.length_append, length_toBeBytes, total]
        rfl
      · rintro seg' ⟨⟩
        exact segment

theorem keeps_writeItem (item : V) (h : Counted w.proc.wal w.files) (counted : TurnCounted c env w item) :
    KeepsCount (writeItem c env item) w := by
  obtain ⟨evictions, append⟩ := counted
  rw [writeItem_eq]
  have ready := keeps_makeReady item h evictions
  refine ends_bind (ends_run (fun _ w₁ run => ?_) fun e w₁ run => ready.of_error run)
  simp only [run] at append
  exact keeps_appendRecord (ready.of_ok run) append _

theorem keeps_writeItems (items : List V) (h : Counted w.proc.wal w.files) (counted : BatchCounted c env items w) :
    KeepsCount (writeItems c env items) w := by
  induction items generalizing w with
  | nil => exact ends_pure h
  | cons item rest ih =>
      obtain ⟨turn, more⟩ := counted
      have first := keeps_writeItem item h turn
      refine ends_bind (ends_run (fun _ w₁ run => ?_) fun e w₁ run => first.of_error run)
      simp only [run] at more
      exact ih (first.of_ok run) more

theorem Counted.synced {d : Disk} (h : Counted d.wal d.files) : Counted d.synced.wal d.synced.files := by
  unfold Disk.synced
  cases d.wal.currentSegment with
  | none => exact h
  | some seg =>
      refine ⟨h.total.trans ?_, h.current⟩
      show d.files.sum segmentWeight = (d.files.modify seg.path _).sum segmentWeight
      by_cases there : seg.path ∈ d.files
      · obtain ⟨f, found⟩ := AList.exists_lookup_iff_mem.mpr there
        exact (AList.sum_modify (f := segmentWeight) (d := 0) found rfl).symm
      · rw [AList.modify_of_notMem there]

theorem keeps_writeBatch (items : List V) (h : Counted w.proc.wal w.files) (counted : BatchCounted c env items w) :
    KeepsCount (writeBatch c env items) w := by
  unfold writeBatch
  split
  · exact ends_pure h
  · refine ends_bind (Ends.mono (keeps_writeItems items h counted) (fun _ w₁ h₁ => ?_) fun _ h' => h')
    refine ends_bind (ends_syncCurrent (fun _ same => counted_of_disk h₁ same) fun w₂ synced => ?_)
    have h₂ : Counted w₂.proc.wal w₂.files := counted_of_disk (Counted.synced h₁) synced
    exact ends_bind (ends_modify (ends_syncGauges fun _ same => counted_of_disk h₂ same))

/-- Segments that are empty may be missing in a listing. -/
theorem sum_listed {files : Files} {names missing : List String} (keys : names ++ missing = files.keys)
    (empty : ∀ name ∈ missing, isSegment name = true → fileSize files name = 0) :
    ((segmentNames names).map (fileSize files)).sum = files.sum segmentWeight := by
  have nothing : ((segmentNames missing).map (fileSize files)).sum = 0 := by
    apply List.sum_eq_zero
    intro size member
    obtain ⟨name, listed, rfl⟩ := List.mem_map.mp member
    obtain ⟨there, segment⟩ := mem_segmentNames.mp listed
    exact empty name there segment
  have split : ((segmentNames files.keys).map (fileSize files)).sum =
      ((segmentNames names).map (fileSize files)).sum + ((segmentNames missing).map (fileSize files)).sum := by
    rw [← keys, ((segmentNames_perm (names ++ missing)).map _).sum_eq, List.filter_append, List.map_append,
      List.sum_append, ((segmentNames_perm names).map _).sum_eq, ((segmentNames_perm missing).map _).sum_eq]
  rw [nothing, Nat.add_zero] at split
  exact split.symm.trans (Disk.segmentBytes_eq ⟨⟨0, 0, none, 0⟩, files, 0, 0⟩)

theorem ListsAll.sum {names : List String} (lists : ListsAll env w) (listing : Listing env w names) :
    ((segmentNames names).map (fileSize w.files)).sum = w.files.sum segmentWeight := by
  cases listing with
  | whole => exact sum_listed (List.append_nil _) nofun
  | @early n fault =>
      simp only [ListsAll, fault] at lists
      exact sum_listed (List.take_append_drop n _) lists

theorem keeps_bufferStep {r : BufferRun} (call : BufferCall V)
    (h : r.opened = true → Counted r.world.proc.wal r.world.files) (counted : CallCounted c env r call) :
    (bufferStep c env r call).opened = true →
      Counted (bufferStep c env r call).world.proc.wal (bufferStep c env r call).world.files := by
  intro opened
  cases call with
  | openBuffer maxBytes segmentMaxBytes =>
      have ends : Ends (openWal env maxBytes segmentMaxBytes) r.world (fun _ w' => Counted w'.proc.wal w'.files)
          fun w' => disk w' = disk r.world := by
        refine ends_openWal maxBytes segmentMaxBytes (fun _ same => same) fun names w' listing fresh =>
          counted_of_disk ⟨ListsAll.sum counted listing, ?_⟩ fresh
        rintro seg ⟨⟩
      cases run : openWal env maxBytes segmentMaxBytes r.world with
      | ok _ w =>
          simp only [bufferStep, run]
          exact ends.of_ok run
      | error e w =>
          simp only [bufferStep, run] at opened ⊢
          exact counted_of_disk (h opened) (ends.of_error run)
  | write items =>
      by_cases there : r.opened = true
      · simp only [bufferStep, there, if_true]
        exact (keeps_writeBatch items (h there) (counted there)).after
      · simp only [bufferStep, if_neg there] at opened
        exact absurd opened there
  | delete path =>
      by_cases there : r.opened = true
      · simp only [bufferStep, there, if_true]
        exact (keeps_deleteSegment path (h there) (counted there)).after
      · simp only [bufferStep, if_neg there] at opened
        exact absurd opened there

/-- In every run of calls that fail anywhere, but in no way that the count does not see, `total_bytes` is
the size of the segments on disk. -/
theorem total_counts_files {w : World WalProcess} {calls : List (BufferCall V)} {r : BufferRun}
    (run : Run (Only (ofTotal (bufferStep c env)) (CallCounted c env)) ⟨w, false⟩ calls r)
    (opened : r.opened = true) : r.world.proc.wal.totalBytes = (disk r.world).segmentBytes := by
  have counted := run.keeps (P := fun r => r.opened = true → Counted r.world.proc.wal r.world.files)
    (by
      rintro r call _ h ⟨rfl, counted⟩
      exact keeps_bufferStep call h counted)
    nofun opened
  rw [Disk.segmentBytes_eq]
  exact counted.total

end Counting

def openedEmpty : BufferCall (Fin 10) := .openBuffer 1000000 1000000

/-- Of the first record the length and three bytes are put out. -/
theorem total_misses_bytes :
    ∃ r, Run (ofTotal (bufferStep onlineCodec (failingOnce 6 3))) ⟨emptyWorld, false⟩ [openedEmpty, .write [1]] r ∧
      r.opened = true ∧ r.world.proc.wal.totalBytes = 0 ∧ (disk r.world).segmentBytes = 7 :=
  ⟨_, run_ofTotal_iff.mpr rfl, by decide +kernel⟩

/-- The second batch fails before anything of it is put out, and the third does not. -/
theorem total_counts_files_failedHeader :
    let env := failingOnce 10 0
    let r := [openedEmpty, .write [1], .write [2], .write [3, 4]].foldl (bufferStep onlineCodec env) ⟨emptyWorld, false⟩
    r.world.proc.wal.totalBytes = (disk r.world).segmentBytes :=
  total_counts_files (run_only_iff.mpr ⟨by decide +kernel, rfl⟩) (by decide +kernel)

end ServerPoller
