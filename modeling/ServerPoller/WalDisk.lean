import ServerPoller.WalRecords

/-! What the functions of `wal.rs` do when no system call fails, as functions of the buffer and the
segment files: the choice of what is evicted and when a segment is rotated included. -/

namespace ServerPoller
open DirectoryIo Numerals

/-- The part of the world that decides what the writer does next. -/
structure Disk where
  wal : WalBuffer
  files : Files
  readings : Nat
  evicted : Nat

def disk (w : World WalProcess) : Disk := ⟨w.proc.wal, w.files, w.readings, w.proc.metrics.bufferEvicted⟩

def fileSize (files : Files) (name : String) : Nat :=
  match files.lookup name with
  | some f => f.bytes.length
  | none => 0

theorem fileSize_of_lookup {files : Files} {name : String} {f : DiskFile} (found : files.lookup name = some f) :
    fileSize files name = f.bytes.length := by
  simp only [fileSize, found]

def Disk.segments (d : Disk) : List String := segmentNames d.files.keys

def Disk.current (d : Disk) : Option String := d.wal.currentSegment.map SegmentWriter.path

def Disk.oldest (d : Disk) : Option String := oldestCompleted d.segments d.current

def Disk.removed (d : Disk) (name : String) : Disk :=
  { d with
    wal := { d.wal with totalBytes := d.wal.totalBytes - fileSize d.files name }
    files := d.files.erase name }

def Disk.evict (d : Disk) (name : String) : Disk := { d.removed name with evicted := d.evicted + 1 }

def Disk.rotated (env : Surroundings) (d : Disk) : Disk :=
  let name := segmentName (env.clock d.readings)
  { d with
    wal := { d.wal with currentSegment := some ⟨name, 0⟩ }
    files := Files.opened d.files name
    readings := d.readings + 1 }

def Disk.append (d : Disk) (bytes : Bytes) : Disk :=
  match d.wal.currentSegment with
  | none => d
  | some seg =>
      { d with
        wal := { d.wal with
          currentSegment := some { seg with size := seg.size + bytes.length }
          totalBytes := d.wal.totalBytes + bytes.length }
        files := d.files.modify seg.path fun f => { f with bytes := f.bytes ++ bytes } }

def Disk.synced (d : Disk) : Disk :=
  match d.wal.currentSegment with
  | none => d
  | some seg => { d with files := d.files.modify seg.path fun f => { f with durable := f.bytes.length } }

/-- The rounds of the eviction loop: it ends when the record fits or nothing is left to evict. -/
inductive Evictions (recordSize : Nat) : Disk → Disk → Prop
  | fits {d} : d.wal.totalBytes + recordSize ≤ d.wal.maxBytes → Evictions recordSize d d
  | exhausted {d} : d.wal.maxBytes < d.wal.totalBytes + recordSize → d.oldest = none →
      Evictions recordSize d d
  | evict {d e name} : d.wal.maxBytes < d.wal.totalBytes + recordSize → d.oldest = some name →
      Evictions recordSize (d.evict name) e → Evictions recordSize d e

section Writing
variable {V : Type} (c : Codec V) (env : Surroundings)

def recordSize (v : V) : Nat := 4 + (c.toVec v).length + 1

/-- The segment to which a record goes is opened if there is none or it is full. -/
def Disk.readied (d : Disk) (v : V) : Disk := if needsRotate d.wal (recordSize c v) then d.rotated env else d

def Wrote (v : V) (d e : Disk) : Prop :=
  ∃ d₁, Evictions (recordSize c v) d d₁ ∧ e = (d₁.readied c env v).append (recordBytes c v)

inductive WroteAll : List V → Disk → Disk → Prop
  | nil {d} : WroteAll [] d d
  | cons {v rest d e f} : Wrote c env v d e → WroteAll rest e f → WroteAll (v :: rest) d f

end Writing

theorem length_recordBytes {V : Type} (c : Codec V) (v : V) : (recordBytes c v).length = recordSize c v := by
  simp only [recordBytes, recordSize, List.length_append, length_toBeBytes, List.length_singleton]
  omega

theorem mem_segmentNames {entries : List String} {name : String} :
    name ∈ segmentNames entries ↔ name ∈ entries ∧ isSegment name = true := by
  rw [segmentNames, List.mem_insertionSort, List.mem_filter]

theorem oldestCompleted_some {segments : List String} {current : Option String} {name : String}
    (h : oldestCompleted segments current = some name) : name ∈ segments ∧ current ≠ some name := by
  refine ⟨List.mem_of_find?_eq_some h, ?_⟩
  have := List.find?_some h
  intro eq
  simp [eq] at this

theorem Disk.oldest_spec {d : Disk} {name : String} (h : d.oldest = some name) :
    name ∈ d.files ∧ isSegment name = true ∧ d.current ≠ some name := by
  obtain ⟨listed, other⟩ := oldestCompleted_some h
  obtain ⟨there, segment⟩ := mem_segmentNames.mp listed
  exact ⟨AList.mem_keys.mpr there, segment, other⟩

section Simulation
variable {V : Type} {c : Codec V} {env : Surroundings} {w : World WalProcess}

theorem lookup_of_oldest {name : String} (h : (disk w).oldest = some name) :
    ∃ f, w.files.lookup name = some f := AList.exists_lookup_iff_mem.mpr (Disk.oldest_spec h).1

theorem yields_sortedSegments (h : env.Faultless) {R : List String → World WalProcess → Prop}
    (hr : R (disk w).segments { w with calls := w.calls + 1 }) : Yields (sortedSegments env) w R :=
  yields_bind (yields_readDir h (yields_pure hr))

theorem yields_currentPath {R : Option String → World WalProcess → Prop}
    (hr : R (disk w).current w) : Yields currentPath w R := yields_bind (yields_get (yields_pure hr))

theorem yields_syncGauges (h : env.Faultless) {R : Unit → World WalProcess → Prop}
    (hr : ∀ w', disk w' = disk w → R () w') : Yields (syncGauges env) w R :=
  yields_bind (yields_attempt (yields_sortedSegments h (yields_bind (yields_get (yields_modify (hr _ rfl))))))

theorem yields_scanSegments (h : env.Faultless) (entries : List String)
    (there : ∀ entry ∈ entries, entry ∈ w.files) (totalBytes : Nat) {R : Nat → World WalProcess → Prop}
    (hr : ∀ w', disk w' = disk w → R (totalBytes + (entries.map (fileSize w.files)).sum) w') :
    Yields (scanSegments env entries totalBytes) w R := by
  induction entries generalizing w totalBytes with
  | nil => exact yields_pure (hr w rfl)
  | cons entry rest ih =>
      obtain ⟨f, hf⟩ := AList.exists_lookup_iff_mem.mpr (there entry List.mem_cons_self)
      refine yields_bind (yields_fileLen h hf (ih (w := { w with calls := w.calls + 1 }) ?_ _ ?_))
      · exact fun other ho => there other (List.mem_cons_of_mem entry ho)
      · intro w' same
        have size := fileSize_of_lookup hf
        have sum := hr w' same
        rwa [List.map_cons, List.sum_cons, size, ← Nat.add_assoc] at sum

/-- `open` counts the bytes of the segments, leaves the files as they are and has no current segment. -/
theorem yields_openWal (h : env.Faultless) (maxBytes segmentMaxBytes : Nat)
    {R : Unit → World WalProcess → Prop}
    (hr : ∀ w', disk w' = { disk w with
      wal := ⟨maxBytes, segmentMaxBytes, none, ((disk w).segments.map (fileSize w.files)).sum⟩ } → R () w') :
    Yields (openWal env maxBytes segmentMaxBytes) w R := by
  refine yields_bind (yields_nextCall h (yields_bind (yields_sortedSegments h (yields_bind
    (yields_scanSegments h _ (fun entry he => ?_) 0 (fun w₁ same => yields_bind
      (yields_sortedSegments h (yields_bind (yields_modify (yields_syncGauges h
        (fun w₂ final => hr w₂ ?_)))))))))))
  · exact AList.mem_keys.mpr (mem_segmentNames.mp he).1
  · have files := congrArg Disk.files same
    have readings := congrArg Disk.readings same
    have evicted := congrArg Disk.evicted same
    rw [final, Nat.zero_add]
    exact Disk.mk.injEq .. ▸ ⟨rfl, files, readings, evicted⟩

theorem yields_rotateSegment (h : env.Faultless) {R : Unit → World WalProcess → Prop}
    (hr : ∀ w', disk w' = (disk w).rotated env → R () w') : Yields (rotateSegment env) w R :=
  yields_bind (yields_modify (yields_bind (yields_clockReading (yields_bind
    (yields_openAppend h (yields_modify (hr _ rfl)))))))

theorem yields_evictOldest (h : env.Faultless) {R : Bool → World WalProcess → Prop}
    (nothing : (disk w).oldest = none → ∀ w', disk w' = disk w → R false w')
    (gone : ∀ name w', (disk w).oldest = some name → disk w' = (disk w).evict name → R true w') :
    Yields (evictOldest env) w R := by
  refine yields_bind (yields_sortedSegments h (yields_bind (yields_currentPath ?_)))
  split
  · rename_i none_left
    exact yields_pure (nothing none_left _ rfl)
  · rename_i name found
    obtain ⟨f, hf⟩ := lookup_of_oldest (w := w) found
    refine yields_bind (yields_attempt (yields_fileLen h (by exact hf) (yields_bind (yields_removeFile h
      (by exact hf) (yields_bind (yields_modify (yields_bind (yields_modify (yields_pure
        (gone name _ found ?_))))))))))
    have size := fileSize_of_lookup hf
    simp only [Disk.evict, Disk.removed, disk, size]
    rfl

/-- As many rounds as there are files and one more are enough for the eviction loop. -/
theorem yields_evictOverBudget (h : env.Faultless) (recordSize rounds : Nat)
    (enough : w.files.keys.length < rounds) {R : Unit → World WalProcess → Prop}
    (hr : ∀ w', Evictions recordSize (disk w) (disk w') → R () w') :
    Yields (evictOverBudget env recordSize rounds) w R := by
  induction rounds generalizing w with
  | zero => exact absurd enough (Nat.not_lt_zero _)
  | succ rounds ih =>
      apply yields_bind
      apply yields_get
      dsimp only
      split
      · rename_i exceeds
        refine yields_bind (yields_evictOldest h (fun none_left w' same => ?_) (fun name w' found gone => ?_))
        · exact yields_pure (hr w' (by rw [same]; exact .exhausted exceeds none_left))
        · apply ih
          · have files : w'.files = w.files.erase name := congrArg Disk.files gone
            have there := AList.mem_keys.mp (Disk.oldest_spec found).1
            have fewer := List.length_erase_of_mem there
            have some_left := List.length_pos_of_mem there
            change w.files.keys.length < _ at enough
            rw [files, AList.keys_erase]
            change (w.files.keys.erase name).length = w.files.keys.length - 1 at fewer
            change 0 < w.files.keys.length at some_left
            omega
          · intro w'' rest
            rw [gone] at rest
            exact hr w'' (.evict exceeds found rest)
      · rename_i fits
        exact yields_pure (hr w (.fits (not_lt.mp fits)))

theorem yields_appendRecord (h : env.Faultless) (v : V) (current : (disk w).current ≠ none)
    {R : Unit → World WalProcess → Prop}
    (hr : ∀ w', disk w' = (disk w).append (recordBytes c v) → R () w') :
    Yields (appendRecord env (c.toVec v)) w R := by
  apply yields_bind
  apply yields_get
  cases hs : w.proc.wal.currentSegment with
  | none => exact absurd (by simp only [Disk.current, disk, hs, Option.map_none]) current
  | some seg =>
      refine yields_bind (yields_writeAll h (yields_bind (yields_writeAll h (yields_bind (yields_writeAll h
        (yields_modify (hr _ ?_)))))))
      have once : ∀ f : DiskFile, (⟨f.bytes ++ recordBytes c v, f.durable⟩ : DiskFile) =
          ⟨f.bytes ++ toBeBytes 4 (c.toVec v).length ++ c.toVec v ++ [sentinel], f.durable⟩ := by
        intro f
        simp only [recordBytes, List.append_assoc]
      simp only [disk, Disk.append, hs, AList.modify_modify, length_recordBytes, recordSize, once]
      rfl

theorem yields_writeItem (h : env.Faultless) (v : V) {R : Unit → World WalProcess → Prop}
    (hr : ∀ w', Wrote c env v (disk w) (disk w') → R () w') : Yields (writeItem c env v) w R := by
  refine yields_bind (yields_get (yields_bind (yields_evictOverBudget h _ _ (Nat.lt_succ_self _) ?_)))
  intro w₁ evicted
  apply yields_bind
  apply yields_get
  have finish : ∀ w₂, disk w₂ = (disk w₁).readied c env v → (disk w₂).current ≠ none →
      Yields (appendRecord env (c.toVec v)) w₂ R := by
    intro w₂ readied current
    apply yields_appendRecord h v current
    intro w₃ appended
    exact hr w₃ ⟨disk w₁, evicted, by rw [appended, readied]⟩
  cases hn : needsRotate w₁.proc.wal (4 + (c.toVec v).length + 1) with
  | true =>
      simp only [if_true]
      refine yields_bind (yields_rotateSegment h (fun w₂ rotated => finish w₂ ?_ ?_))
      · exact rotated.trans (if_pos hn).symm
      · rw [rotated]
        nofun
  | false =>
      simp only [Bool.false_eq_true, if_false]
      apply yields_bind
      apply yields_pure
      apply finish w₁
      · exact (if_neg (by rw [disk, recordSize, hn]; exact Bool.false_ne_true)).symm
      · intro none_current
        have absent : w₁.proc.wal.currentSegment = none := Option.map_eq_none_iff.mp none_current
        simp [needsRotate, absent] at hn

theorem yields_writeItems (h : env.Faultless) (items : List V) {R : Unit → World WalProcess → Prop}
    (hr : ∀ w', WroteAll c env items (disk w) (disk w') → R () w') :
    Yields (writeItems c env items) w R := by
  induction items generalizing w with
  | nil => exact yields_pure (hr w .nil)
  | cons v items ih =>
      apply yields_bind
      apply yields_writeItem h v
      intro w₁ first
      apply ih
      intro w₂ rest
      exact hr w₂ (.cons first rest)

theorem yields_syncCurrent (h : env.Faultless) {R : Unit → World WalProcess → Prop}
    (hr : ∀ w', disk w' = (disk w).synced → R () w') : Yields (syncCurrent env) w R := by
  apply yields_bind
  apply yields_get
  cases hs : w.proc.wal.currentSegment with
  | none => exact yields_pure (hr w (by simp only [Disk.synced, disk, hs]))
  | some seg => exact yields_syncData h (hr _ (by simp only [Disk.synced, disk, hs]))

/-- `write_batch` returns, having written the records one after the other and synced the segment that
is current at the end. -/
theorem yields_writeBatch (h : env.Faultless) (items : List V) {R : Unit → World WalProcess → Prop}
    (hr : ∀ w' d, WroteAll c env items (disk w) d → disk w' = (if items = [] then d else d.synced) →
      R () w') : Yields (writeBatch c env items) w R := by
  cases items with
  | nil => exact yields_pure (hr w _ .nil rfl)
  | cons v items =>
      apply yields_bind
      apply yields_writeItems h (v :: items)
      intro w₁ wrote
      apply yields_bind
      apply yields_syncCurrent h
      intro w₂ synced
      apply yields_bind
      apply yields_modify
      apply yields_syncGauges h
      intro w₃ same
      refine hr w₃ (disk w₁) wrote ?_
      rw [same, if_neg (List.cons_ne_nil v items)]
      exact synced

theorem yields_hasPending (h : env.Faultless) {R : Bool → World WalProcess → Prop}
    (hr : ∀ w', disk w' = disk w → R (disk w).oldest.isSome w') : Yields (hasPending env) w R := by
  refine yields_bind (yields_attempt (yields_sortedSegments h (yields_bind (yields_currentPath
    (yields_pure ?_)))))
  have pending : (disk w).segments.any (fun e => some e != (disk w).current) = (disk w).oldest.isSome := by
    rw [Disk.oldest, oldestCompleted, List.isSome_find?]
  exact pending ▸ hr _ rfl

theorem yields_deleteSegment (h : env.Faultless) {name : String} (hn : name ∈ w.files)
    {R : Unit → World WalProcess → Prop} (hr : ∀ w', disk w' = (disk w).removed name → R () w') :
    Yields (deleteSegment env name) w R := by
  obtain ⟨f, hf⟩ := AList.exists_lookup_iff_mem.mpr hn
  refine yields_bind (yields_attempt (yields_fileLen h hf (yields_bind (yields_removeFile h
    (by exact hf) (yields_bind (yields_modify (yields_bind (yields_modify (yields_syncGauges h
      (fun w' final => hr w' ?_))))))))))
  have size := fileSize_of_lookup hf
  rw [final]
  simp only [Disk.removed, disk, size]
  rfl

theorem yields_readSegment (h : env.Faultless) {name : String} {f : DiskFile}
    (hf : w.files.lookup name = some f) (maxItems : Nat) {R : List V → World WalProcess → Prop}
    (hr : ∀ w', disk w' = disk w → R ((records c f.bytes).take maxItems) w') :
    Yields (readSegment c env name maxItems) w R := by
  apply yields_bind
  apply yields_openRead h hf
  rw [readAll_take]
  exact yields_pure (hr _ rfl)

theorem yields_readOldestBatch (h : env.Faultless) (maxItems : Nat)
    {R : Option (String × List V) → World WalProcess → Prop}
    (nothing : (disk w).oldest = none → ∀ w', disk w' = disk w → R none w')
    (found : ∀ name f w', (disk w).oldest = some name → w.files.lookup name = some f → disk w' = disk w →
      R (some (name, (records c f.bytes).take maxItems)) w') :
    Yields (readOldestBatch c env maxItems) w R := by
  refine yields_bind (yields_sortedSegments h (yields_bind (yields_currentPath ?_)))
  split
  · rename_i none_left
    exact yields_pure (nothing none_left _ rfl)
  · rename_i name oldest
    obtain ⟨f, hf⟩ := lookup_of_oldest (w := w) oldest
    exact yields_bind (yields_readSegment (w := { w with calls := w.calls + 1 }) h hf maxItems
      (fun w' same => yields_pure (found name f w' oldest hf same)))

end Simulation

end ServerPoller
