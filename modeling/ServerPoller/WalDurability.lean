import ServerPoller.SegmentReading

/-! What of a batch is on disk for good when `write_batch` returns: it syncs the segment that is
current at the end and no other. -/

namespace ServerPoller
open DirectoryIo Transition

section Placing
variable {V : Type} (c : Codec V) (env : Surroundings)

/-- The segment to which a record of this size goes, and the clock readings after it is chosen. -/
def nextSegment (limit : Nat) (current : Option SegmentWriter) (readings size : Nat) : SegmentWriter × Nat :=
  match current with
  | some seg =>
      if limit < seg.size + size then (⟨segmentName (env.clock readings), 0⟩, readings + 1) else (seg, readings)
  | none => (⟨segmentName (env.clock readings), 0⟩, readings + 1)

/-- The records of a batch with the files to which they go. -/
def placements (limit : Nat) : Option SegmentWriter → Nat → List V → List (V × String)
  | _, _, [] => []
  | current, readings, v :: rest =>
      let (seg, readings) := nextSegment env limit current readings (recordSize c v)
      (v, seg.path) :: placements limit (some { seg with size := seg.size + recordSize c v }) readings rest

def Disk.placements (d : Disk) (items : List V) : List (V × String) :=
  ServerPoller.placements c env d.wal.segmentMaxBytes d.wal.currentSegment d.readings items

/-- The batch goes to one file: what is rotated to after its first record is the same file again. -/
def StaysInOne (d : Disk) (items : List V) : Prop := ∃ name, ∀ p ∈ d.placements c env items, p.2 = name

end Placing

section Turns
variable {V : Type} {c : Codec V} {env : Surroundings} {d e f : Disk}

/-- The eviction loop spares the writer and the current segment and only removes files. -/
structure Spared (d e : Disk) : Prop where
  writer : e.wal.currentSegment = d.wal.currentSegment
  limit : e.wal.segmentMaxBytes = d.wal.segmentMaxBytes
  readings : e.readings = d.readings
  files : ∀ name g, e.files.lookup name = some g → d.files.lookup name = some g
  kept : ∀ name, d.current = some name → e.files.lookup name = d.files.lookup name

theorem Disk.lookup_removed {name other : String} {g : DiskFile}
    (h : (d.removed name).files.lookup other = some g) : d.files.lookup other = some g := by
  by_cases same : other = name
  · subst same
    simp [Disk.removed] at h
  · simpa only [Disk.removed, AList.lookup_erase_ne same] using h

theorem Evictions.spared {size : Nat} (h : Evictions size d e) : Spared d e := by
  induction h with
  | fits | exhausted => exact ⟨rfl, rfl, rfl, fun _ _ found => found, fun _ _ => rfl⟩
  | @evict d e name _ oldest _ ih =>
      refine ⟨ih.writer, ih.limit, ih.readings, ?_, ?_⟩
      · intro other g found
        exact Disk.lookup_removed (ih.files other g found)
      · intro other current
        have apart : other ≠ name := by
          rintro rfl
          exact (Disk.oldest_spec oldest).2.2 current
        exact (ih.kept other current).trans (AList.lookup_erase_ne apart)

theorem Disk.readied_next (c : Codec V) (env : Surroundings) (d : Disk) (v : V) :
    let next := nextSegment env d.wal.segmentMaxBytes d.wal.currentSegment d.readings (recordSize c v)
    (d.readied c env v).wal.currentSegment = some next.1 ∧ (d.readied c env v).readings = next.2 ∧
      (d.readied c env v).wal.segmentMaxBytes = d.wal.segmentMaxBytes := by
  intro next
  cases current : d.wal.currentSegment with
  | none =>
      have turns : needsRotate d.wal (recordSize c v) = true := by simp only [needsRotate, current]
      simp only [next, readied, turns, if_true, nextSegment, current]
      exact ⟨rfl, rfl, rfl⟩
  | some seg =>
      by_cases full : d.wal.segmentMaxBytes < seg.size + recordSize c v
      · have turns : needsRotate d.wal (recordSize c v) = true := by
          simp only [needsRotate, current, full, decide_true]
        simp only [next, readied, turns, if_true, nextSegment, current, full]
        exact ⟨rfl, rfl, rfl⟩
      · have stays : needsRotate d.wal (recordSize c v) = false := by
          simp only [needsRotate, current, full, decide_false]
        simp only [next, readied, stays, Bool.false_eq_true, if_false, nextSegment, current, full]
        exact ⟨trivial, trivial, trivial⟩

/-- The writer after a turn, in which evictions have no part. -/
theorem Wrote.placements {v : V} (h : Wrote c env v d e) (rest : List V) :
    ∃ name, e.current = some name ∧
      d.placements c env (v :: rest) = (v, name) :: e.placements c env rest := by
  obtain ⟨d₁, evicted, rfl⟩ := h
  have spared := evicted.spared
  obtain ⟨writer, readings, limit⟩ := d₁.readied_next c env v
  rw [spared.writer, spared.limit, spared.readings] at writer readings
  rw [spared.limit] at limit
  generalize next : nextSegment env d.wal.segmentMaxBytes d.wal.currentSegment d.readings (recordSize c v) =
    chosen at writer readings
  refine ⟨chosen.1.path, ?_, ?_⟩
  · simp only [Disk.current, Disk.append, writer, Option.map_some]
  · simp only [Disk.placements, ServerPoller.placements, next, Disk.append, writer, readings, limit,
      length_recordBytes]

structure Stored (c : Codec V) (v : V) (name : String) (d e : Disk) : Prop where
  current : e.current = some name
  segment : isSegment name = true
  target : ∃ g, e.files.lookup name = some g ∧
    ((d.current ≠ some name ∧ g = ⟨recordBytes c v, 0⟩) ∨
      ∃ f, d.files.lookup name = some f ∧ g = ⟨f.bytes ++ recordBytes c v, f.durable⟩)
  others : ∀ other g, other ≠ name → e.files.lookup other = some g → d.files.lookup other = some g

def Disk.Writable (d : Disk) : Prop := ∀ name, d.current = some name → name ∈ d.files ∧ isSegment name = true

theorem Files.lookup_opened_ne {files : Files} {name other : String} (h : other ≠ name) :
    (Files.opened files name).lookup other = files.lookup other := by
  unfold Files.opened
  split
  · rfl
  · exact AList.lookup_insert_ne h

theorem Disk.stored_append {seg : SegmentWriter} (writer : d.wal.currentSegment = some seg) {g : DiskFile}
    (found : d.files.lookup seg.path = some g) (v : V) :
    (d.append (recordBytes c v)).current = some seg.path ∧
      (d.append (recordBytes c v)).files.lookup seg.path = some ⟨g.bytes ++ recordBytes c v, g.durable⟩ ∧
      ∀ other, other ≠ seg.path → (d.append (recordBytes c v)).files.lookup other = d.files.lookup other := by
  simp only [append, writer]
  refine ⟨rfl, ?_, ?_⟩
  · rw [AList.lookup_modify, found]
    rfl
  · intro other apart
    exact AList.lookup_modify_ne apart

theorem Wrote.stored {v : V} {name : String} (h : Wrote c env v d e) (writable : d.Writable)
    (target : e.current = some name) : Stored c v name d e := by
  obtain ⟨d₁, evicted, rfl⟩ := h
  have spared := evicted.spared
  have same : d₁.current = d.current := congrArg (Option.map SegmentWriter.path) spared.writer
  by_cases turns : needsRotate d₁.wal (recordSize c v) = true
  · have readied : d₁.readied c env v = d₁.rotated env := if_pos turns
    rw [readied] at target ⊢
    have opened : ∃ g, (d₁.rotated env).files.lookup (segmentName (env.clock d₁.readings)) = some g ∧
        (d₁.files.lookup (segmentName (env.clock d₁.readings)) = some g ∨
          (segmentName (env.clock d₁.readings) ∉ d₁.files ∧ g = ⟨[], 0⟩)) := by
      simp only [Disk.rotated, Files.opened]
      cases found : d₁.files.lookup (segmentName (env.clock d₁.readings)) with
      | some g => exact ⟨g, found, .inl rfl⟩
      | none => exact ⟨_, AList.lookup_insert _, .inr ⟨AList.lookup_eq_none.mp found, rfl⟩⟩
    obtain ⟨g, found, origin⟩ := opened
    obtain ⟨path, appended, rest⟩ := Disk.stored_append (c := c) (d := d₁.rotated env) rfl found v
    cases target.symm.trans path
    refine ⟨path, isSegment_segmentName _, ⟨_, appended, ?_⟩, ?_⟩
    · rcases origin with old | ⟨absent, rfl⟩
      · exact .inr ⟨g, spared.files _ g old, rfl⟩
      · refine .inl ⟨?_, rfl⟩
        intro current
        obtain ⟨there, _⟩ := writable _ current
        obtain ⟨f, before⟩ := AList.exists_lookup_iff_mem.mpr there
        exact absent (AList.exists_lookup_iff_mem.mp ⟨f, (spared.kept _ current).trans before⟩)
    · intro other g' apart found'
      rw [rest other apart] at found'
      exact spared.files other g' ((Files.lookup_opened_ne apart).symm.trans found')
  · have stays : d₁.readied c env v = d₁ := if_neg turns
    rw [stays] at target ⊢
    cases writer : d₁.wal.currentSegment with
    | none => simp [needsRotate, writer] at turns
    | some seg =>
        have current : d.current = some seg.path := by
          rw [← same, Disk.current, writer, Option.map_some]
        obtain ⟨there, segment⟩ := writable _ current
        obtain ⟨f, before⟩ := AList.exists_lookup_iff_mem.mpr there
        have found := (spared.kept _ current).trans before
        obtain ⟨path, appended, rest⟩ := Disk.stored_append (c := c) writer found v
        cases target.symm.trans path
        refine ⟨path, segment, ⟨_, appended, .inr ⟨f, before, rfl⟩⟩, ?_⟩
        intro other g apart found'
        exact spared.files other g ((rest other apart).symm.trans found')

theorem Stored.writable {v : V} {name : String} (h : Stored c v name d e) : e.Writable := by
  intro other current
  cases current.symm.trans h.current
  obtain ⟨g, found, _⟩ := h.target
  exact ⟨AList.exists_lookup_iff_mem.mp ⟨g, found⟩, h.segment⟩

/-- Every file consists of whole records that meet a condition, and no more of it is synced than there is. -/
def Disk.Holds (c : Codec V) (P : String → V → Prop) (d : Disk) : Prop :=
  ∀ name f, d.files.lookup name = some f →
    f.durable ≤ f.bytes.length ∧ ∃ vs, f.bytes = encodeAll c vs ∧ ∀ v ∈ vs, P name v

theorem Disk.Holds.mono {P Q : String → V → Prop} (h : d.Holds c P) (weaker : ∀ name v, P name v → Q name v) :
    d.Holds c Q := by
  intro name f found
  obtain ⟨synced, vs, bytes, all⟩ := h name f found
  exact ⟨synced, vs, bytes, fun v hv => weaker name v (all v hv)⟩

theorem Stored.holds {P : String → V → Prop} {v : V} {name : String} (h : Stored c v name d e)
    (holds : d.Holds c P) (here : P name v) : e.Holds c P := by
  intro other g found
  by_cases same : other = name
  · subst same
    obtain ⟨g', found', origin⟩ := h.target
    cases found.symm.trans found'
    rcases origin with ⟨_, rfl⟩ | ⟨f, before, rfl⟩
    · exact ⟨Nat.zero_le _, [v], (encodeAll_singleton c v).symm, List.forall_mem_singleton.mpr here⟩
    · obtain ⟨synced, vs, bytes, all⟩ := holds other f before
      refine ⟨?_, vs ++ [v], ?_, ?_⟩
      · rw [List.length_append]
        exact synced.trans (Nat.le_add_right _ _)
      · rw [encodeAll_append, encodeAll_singleton, ← bytes]
      · exact List.forall_mem_append.mpr ⟨all, List.forall_mem_singleton.mpr here⟩
  · exact holds other g (h.others other g same found)

theorem WroteAll.map_placements {items : List V} (h : WroteAll c env items d e) :
    (d.placements c env items).map Prod.fst = items := by
  induction h with
  | nil => rfl
  | @cons v rest _ _ _ first _ ih =>
      obtain ⟨name, _, split⟩ := first.placements rest
      rw [split, List.map_cons, ih]

theorem WroteAll.holds {items : List V} {P : String → V → Prop} (h : WroteAll c env items d e) :
    d.Writable → d.Holds c P → (∀ p ∈ d.placements c env items, P p.2 p.1) → e.Writable ∧ e.Holds c P := by
  induction h with
  | nil =>
      intro writable holds _
      exact ⟨writable, holds⟩
  | @cons v rest d e f first _ ih =>
      intro writable holds placed
      obtain ⟨name, current, split⟩ := first.placements rest
      rw [split] at placed
      obtain ⟨here, later⟩ := List.forall_mem_cons.mp placed
      have stored := first.stored writable current
      exact ih stored.writable (stored.holds holds here) later

theorem WroteAll.appends {items : List V} {name : String} (h : WroteAll c env items d e) :
    ∀ {f : DiskFile} {vs : List V}, d.Writable → d.current = some name → d.files.lookup name = some f →
      f.bytes = encodeAll c vs → (∀ p ∈ d.placements c env items, p.2 = name) →
      e.current = some name ∧ ∃ g, e.files.lookup name = some g ∧ g.bytes = encodeAll c (vs ++ items) := by
  induction h with
  | nil =>
      intro f vs _ current found bytes _
      exact ⟨current, f, found, by rw [List.append_nil, bytes]⟩
  | @cons v rest d e _ first _ ih =>
      intro f vs writable current found bytes placed
      obtain ⟨path, current', split⟩ := first.placements rest
      rw [split] at placed
      obtain ⟨rfl, later⟩ := List.forall_mem_cons.mp placed
      have stored := first.stored writable current'
      obtain ⟨g, found', origin⟩ := stored.target
      rcases origin with ⟨apart, _⟩ | ⟨f', before, rfl⟩
      · exact absurd current apart
      · cases found.symm.trans before
        have grown : f.bytes ++ recordBytes c v = encodeAll c (vs ++ [v]) := by
          rw [encodeAll_append, encodeAll_singleton, bytes]
        obtain ⟨last, g, found'', bytes'⟩ := ih stored.writable current' found' grown later
        exact ⟨last, g, found'', by rw [bytes', List.append_assoc]; rfl⟩

/-- What of a file is synced was so before and is the same, or nothing of it is. -/
def SyncedBefore (d e : Disk) : Prop := ∀ name g, e.files.lookup name = some g →
  g.durable = 0 ∨ ∃ f, d.files.lookup name = some f ∧ g.durable = f.durable ∧ f.bytes <+: g.bytes

theorem Stored.syncedBefore {v : V} {name : String} (h : Stored c v name d e) : SyncedBefore d e := by
  intro other g found
  by_cases same : other = name
  · subst same
    obtain ⟨g', found', origin⟩ := h.target
    cases found.symm.trans found'
    rcases origin with ⟨_, rfl⟩ | ⟨f, before, rfl⟩
    · exact .inl rfl
    · exact .inr ⟨f, before, rfl, List.prefix_append _ _⟩
  · exact .inr ⟨g, h.others other g same found, rfl, List.prefix_refl _⟩

theorem SyncedBefore.trans (h : SyncedBefore d e) (k : SyncedBefore e f) : SyncedBefore d f := by
  intro name g found
  rcases k name g found with zero | ⟨g', found', durable, longer⟩
  · exact .inl zero
  · rcases h name g' found' with zero | ⟨g'', found'', durable', longer'⟩
    · exact .inl (durable.trans zero)
    · exact .inr ⟨g'', found'', durable.trans durable', longer'.trans longer⟩

theorem WroteAll.syncedBefore {items : List V} (h : WroteAll c env items d e) :
    d.Writable → SyncedBefore d e := by
  induction h with
  | nil =>
      intro _ name g found
      exact .inr ⟨g, found, rfl, List.prefix_refl _⟩
  | cons first _ ih =>
      intro writable
      obtain ⟨name, current, _⟩ := first.placements []
      have stored := first.stored writable current
      exact stored.syncedBefore.trans (ih stored.writable)

end Turns

/-- Of each file a crash leaves an initial part, which includes what was synced. -/
structure CrashLeaves (files after : Files) : Prop where
  names : ∀ name, name ∈ after ↔ name ∈ files
  parts : ∀ name f g, files.lookup name = some f → after.lookup name = some g →
    ∃ n, f.durable ≤ n ∧ g.bytes = f.bytes.take n

section Crashes
variable {V : Type} (c : Codec V)

/-- After every crash `open` succeeds, and then `read_segment` without a limit finds the record in some
segment. -/
def Durable (files : Files) (v : V) : Prop :=
  ∀ (env : Surroundings) (w : World WalProcess) (maxBytes segmentMaxBytes : Nat), env.Faultless →
    CrashLeaves files w.files → Yields (openWal env maxBytes segmentMaxBytes) w fun _ w' =>
      ∃ name ∈ (disk w').segments, ∃ limit, ∀ maxItems, limit ≤ maxItems →
        Yields (readSegment c env name maxItems) w' fun items _ => v ∈ items

variable {c} {files : Files}

theorem durable_of_synced (rt : c.RoundTrips) {name : String} {f : DiskFile}
    (found : files.lookup name = some f) (segment : isSegment name = true)
    (synced : f.durable = f.bytes.length) {vs : List V} (bytes : f.bytes = encodeAll c vs)
    (fits : ∀ v ∈ vs, c.Fits v) {v : V} (hv : v ∈ vs) : Durable c files v := by
  intro env w maxBytes segmentMaxBytes faultless crash
  apply yields_openWal faultless
  intro w' opened
  have same : w'.files = w.files := congrArg Disk.files opened
  have there := (crash.names name).mpr (AList.exists_lookup_iff_mem.mp ⟨f, found⟩)
  obtain ⟨g, left⟩ := AList.exists_lookup_iff_mem.mpr there
  obtain ⟨n, least, part⟩ := crash.parts name f g found left
  have whole : g.bytes = encodeAll c vs := by
    rw [part, List.take_of_length_le (synced ▸ least), bytes]
  have all : records c g.bytes = vs := by rw [whole, records_encodeAll c fits rt]
  refine ⟨name, ?_, vs.length, ?_⟩
  · apply mem_segmentNames.mpr
    have listed : name ∈ w'.files := same ▸ there
    exact ⟨AList.mem_keys.mp listed, segment⟩
  · intro maxItems enough
    apply yields_readSegment faultless (same ▸ left)
    intro w'' _
    rw [all, List.take_of_length_le enough]
    exact hv

/-- What a crash leaves at worst. -/
def syncedParts (files : Files) : Files := files.mapVals fun _ f => ⟨f.bytes.take f.durable, f.durable⟩

theorem crashLeaves_syncedParts : CrashLeaves files (syncedParts files) where
  names := fun _ => AList.mem_mapVals
  parts := by
    intro name f g found left
    rw [syncedParts, AList.lookup_mapVals, found] at left
    cases left
    exact ⟨f.durable, le_rfl, rfl⟩

theorem Durable.synced {v : V} (h : Durable c files v) :
    ∃ name f, files.lookup name = some f ∧ v ∈ records c (f.bytes.take f.durable) := by
  have faultless : (⟨fun _ => 0, fun _ => none⟩ : Surroundings).Faultless := fun _ => rfl
  have opens := h _ ⟨emptyWorld.proc, syncedParts files, 0, 0⟩ 0 0 faultless crashLeaves_syncedParts
  obtain ⟨_, w₁, run, name, listed, limit, reads⟩ := opens
  obtain ⟨_, w₂, run', opened⟩ := yields_openWal faultless (w := ⟨emptyWorld.proc, syncedParts files, 0, 0⟩)
    0 0 (R := fun _ w' => w'.files = syncedParts files) fun w' same => congrArg Disk.files same
  cases run.symm.trans run'
  obtain ⟨f, found⟩ := AList.exists_lookup_iff_mem.mpr (AList.mem_keys.mpr (mem_segmentNames.mp listed).1)
  obtain ⟨items, w₂, read, member⟩ := reads limit le_rfl
  obtain ⟨_, w₃, read', all⟩ := yields_readSegment (c := c) faultless found limit
    (R := fun items _ => items = (records c f.bytes).take limit) fun _ _ => rfl
  cases read.symm.trans read'
  rw [all] at member
  have left : (syncedParts files).lookup name = some f := opened ▸ found
  rw [syncedParts, AList.lookup_mapVals, Option.map_eq_some_iff] at left
  obtain ⟨f', before, rfl⟩ := left
  exact ⟨name, f', before, List.mem_of_mem_take member⟩

theorem records_take_encodeAll {vs : List V} (fits : ∀ v ∈ vs, c.Fits v) (rt : c.RoundTrips) (cut : Nat) :
    records c ((encodeAll c vs).take cut) ⊆ vs := by
  unfold records
  rw [readAll_take_encodeAll fits rt]
  exact fun v hv => recordsBefore_subset (List.mem_of_mem_take hv)

end Crashes

section Batch
variable {V : Type} {c : Codec V} {env : Surroundings} {d e : Disk} {items : List V}

theorem Disk.files_synced {name : String} (current : d.current = some name) {g : DiskFile}
    (found : d.files.lookup name = some g) :
    d.synced.files.lookup name = some ⟨g.bytes, g.bytes.length⟩ := by
  obtain ⟨seg, writer, rfl⟩ := Option.map_eq_some_iff.mp current
  simp only [synced, writer, AList.lookup_modify, found, Option.map_some]

theorem Disk.files_synced_ne {name : String} (other : d.current ≠ some name) :
    d.synced.files.lookup name = d.files.lookup name := by
  unfold synced
  split
  · rfl
  · rename_i seg writer
    apply AList.lookup_modify_ne
    rintro rfl
    exact other (by rw [current, writer, Option.map_some])

/-- A batch that stays in one file is synced with it. -/
theorem WroteAll.durable (rt : c.RoundTrips) (h : WroteAll c env items d e) (writable : d.Writable)
    (holds : d.Holds c fun _ v => c.Fits v) (fits : ∀ v ∈ items, c.Fits v) (stays : StaysInOne c env d items)
    {v : V} (hv : v ∈ items) : Durable c e.synced.files v := by
  obtain ⟨name, all⟩ := stays
  cases h with
  | nil => exact absurd hv List.not_mem_nil
  | @cons u rest _ d₁ _ first later =>
      obtain ⟨path, current, split⟩ := first.placements rest
      rw [split] at all
      obtain ⟨rfl, placed⟩ := List.forall_mem_cons.mp all
      obtain ⟨here, fits'⟩ := List.forall_mem_cons.mp fits
      have stored := first.stored writable current
      have start : ∃ g vs, d₁.files.lookup path = some g ∧ g.bytes = encodeAll c (vs ++ [u]) ∧
          ∀ v ∈ vs, c.Fits v := by
        obtain ⟨g, found, origin⟩ := stored.target
        rcases origin with ⟨_, rfl⟩ | ⟨f, before, rfl⟩
        · exact ⟨_, [], found, (encodeAll_singleton c u).symm, nofun⟩
        · obtain ⟨_, vs, bytes, old⟩ := holds path f before
          exact ⟨_, vs, found, by rw [encodeAll_append, encodeAll_singleton, bytes], old⟩
      obtain ⟨g, vs, found, bytes, old⟩ := start
      obtain ⟨last, g', found', bytes'⟩ := later.appends stored.writable current found bytes placed
      have readable : ∀ v ∈ vs ++ [u] ++ rest, c.Fits v :=
        List.forall_mem_append.mpr ⟨List.forall_mem_append.mpr ⟨old, List.forall_mem_singleton.mpr here⟩, fits'⟩
      apply durable_of_synced rt (Disk.files_synced last found') stored.segment rfl bytes' readable
      rw [List.append_assoc]
      exact List.mem_append_right vs hv

/-- A record that was not there before the batch and is durable after it has gone to the segment that
is current at the end. -/
theorem WroteAll.placed (rt : c.RoundTrips) (h : WroteAll c env items d e) (writable : d.Writable)
    {past : List V} (holds : d.Holds c fun _ v => c.Fits v ∧ v ∈ past) (fits : ∀ v ∈ items, c.Fits v)
    {v : V} (new : v ∉ past) (durable : Durable c e.synced.files v) :
    ∃ name, e.current = some name ∧ (v, name) ∈ d.placements c env items := by
  have parts : ∀ p ∈ d.placements c env items, p.1 ∈ items := by
    intro p hp
    rw [← h.map_placements]
    exact List.mem_map_of_mem hp
  obtain ⟨_, after⟩ := h.holds (P := fun name v => c.Fits v ∧ (v ∈ past ∨ (v, name) ∈ d.placements c env items))
    writable (holds.mono fun _ _ old => ⟨old.1, .inl old.2⟩) fun p hp => ⟨fits _ (parts p hp), .inr hp⟩
  obtain ⟨name, f, found, read⟩ := durable.synced
  by_cases current : e.current = some name
  · refine ⟨name, current, ?_⟩
    cases there : e.files.lookup name with
    | none =>
        obtain ⟨seg, writer, rfl⟩ := Option.map_eq_some_iff.mp current
        simp [Disk.synced, writer, there] at found
    | some g =>
        cases found.symm.trans (Disk.files_synced current there)
        obtain ⟨_, vs, bytes, all⟩ := after name g there
        dsimp only at read
        rw [List.take_length, bytes, records_encodeAll c (fun v hv => (all v hv).1) rt] at read
        exact (all v read).2.resolve_left new
  · rw [Disk.files_synced_ne current] at found
    rcases h.syncedBefore writable name f found with zero | ⟨g, before, same, longer⟩
    · rw [zero, List.take_zero] at read
      exact absurd read List.not_mem_nil
    · obtain ⟨synced, vs, bytes, all⟩ := holds name g before
      have part : f.bytes.take f.durable = (encodeAll c vs).take g.durable := by
        obtain ⟨rest, eq⟩ := longer
        rw [← eq, same, List.take_append_of_le_length synced, bytes]
      rw [part] at read
      exact absurd (all v (records_take_encodeAll (fun v hv => (all v hv).1) rt _ read)).2 new

end Batch

/-- A call, or a new process that opens the directory. -/
inductive WalOp (V : Type) where
  | reopen (maxBytes segmentMaxBytes : Nat)
  | call (call : WalCall V)
  deriving DecidableEq, Repr

def offeredBy {V : Type} (ops : List (WalOp V)) : List V :=
  ops.flatMap fun
    | .reopen _ _ => []
    | .call call => offered [call]

section Runs
variable {V : Type} (c : Codec V) (env : Surroundings)

def walOp (s : WalRun V) : WalOp V → WalRun V
  | .reopen maxBytes segmentMaxBytes =>
      match openWal env maxBytes segmentMaxBytes s.world with
      | .ok _ w => { s with world := w }
      | .error _ w => { s with world := w }
  | .call call => walCall c env s call

variable {c env} {d : Disk} {P : String → V → Prop}

theorem Disk.Writable.synced (h : d.Writable) : d.synced.Writable := by
  unfold Disk.synced
  split
  · exact h
  · intro name current
    obtain ⟨there, segment⟩ := h name current
    exact ⟨by rwa [AList.mem_keys, AList.keys_modify], segment⟩

theorem Disk.Holds.synced (h : d.Holds c P) : d.synced.Holds c P := by
  intro name f found
  by_cases current : d.current = some name
  · cases there : d.files.lookup name with
    | none =>
        obtain ⟨seg, writer, rfl⟩ := Option.map_eq_some_iff.mp current
        simp [Disk.synced, writer, there] at found
    | some g =>
        cases found.symm.trans (Disk.files_synced current there)
        exact ⟨le_rfl, (h name g there).2⟩
  · rw [Disk.files_synced_ne current] at found
    exact h name f found

theorem walRun_holds (faultless : env.Faultless) {maxBytes segmentMaxBytes : Nat} {ops : List (WalOp V)}
    {s : WalRun V} (run : Run (ofTotal (walOp c env)) (walStart env maxBytes segmentMaxBytes) ops s) :
    (disk s.world).Writable ∧ (disk s.world).Holds c fun _ v => v ∈ offeredBy ops := by
  apply run.keeps_history
    (P := fun past s => (disk s.world).Writable ∧ (disk s.world).Holds c fun _ v => v ∈ offeredBy past)
  · rintro past s op _ ⟨writable, holds⟩ rfl
    have grown : offeredBy (past ++ [op]) = offeredBy past ++ offeredBy [op] := List.flatMap_append
    have before : (disk s.world).Holds c fun _ v => v ∈ offeredBy (past ++ [op]) := by
      apply holds.mono
      intro _ v hv
      rw [grown]
      exact List.mem_append_left _ hv
    rcases op with ⟨maxBytes, segmentMaxBytes⟩ | ⟨items⟩ | ⟨maxItems⟩
    · obtain ⟨_, w, opened, same⟩ := yields_openWal faultless (w := s.world) maxBytes segmentMaxBytes
        (R := fun _ w' => disk w' = { disk s.world with
          wal := ⟨maxBytes, segmentMaxBytes, none, ((disk s.world).segments.map (fileSize s.world.files)).sum⟩ })
        fun _ same => same
      simp only [walOp, opened, same]
      exact ⟨fun _ current => (by cases current), before⟩
    · obtain ⟨_, w, wrote, d, all, same⟩ := yields_writeBatch (c := c) (w := s.world) faultless items
        (R := fun _ w' => ∃ d, WroteAll c env items (disk s.world) d ∧
          disk w' = if items = [] then d else d.synced) fun w' d all same => ⟨d, all, same⟩
      have offers : offeredBy [WalOp.call (WalCall.write items)] = items := by
        simp only [offeredBy, offered, List.flatMap_singleton]
      obtain ⟨writable', holds'⟩ := all.holds writable before (by
        intro p hp
        rw [grown, offers]
        apply List.mem_append_right
        rw [← all.map_placements]
        exact List.mem_map_of_mem hp)
      simp only [walOp, walCall, wrote, same]
      split
      · exact ⟨writable', holds'⟩
      · exact ⟨writable'.synced, holds'.synced⟩
    · obtain ⟨items, w, drained, effect⟩ := yields_drainOnce (c := c) (w := s.world) faultless maxItems
        (R := fun _ w' => disk w' = disk s.world ∨
          ∃ name, (disk s.world).oldest = some name ∧ disk w' = (disk s.world).removed name)
        (fun _ _ same => .inl same) fun name _ _ oldest _ gone => .inr ⟨name, oldest, gone⟩
      simp only [walOp, walCall, drained]
      rcases effect with same | ⟨name, oldest, gone⟩
      · rw [same]
        exact ⟨writable, before⟩
      · rw [gone]
        refine ⟨?_, fun other f found => before other f (Disk.lookup_removed found)⟩
        intro other current
        obtain ⟨there, segment⟩ := writable other current
        refine ⟨AList.mem_erase.mpr ⟨?_, there⟩, segment⟩
        rintro rfl
        exact (Disk.oldest_spec oldest).2.2 current
  · rw [disk_walStart faultless]
    refine ⟨fun _ current => (by cases current), ?_⟩
    intro name f found
    simp at found

/-- A batch is durable when `write_batch` returns if it goes to one file; and if its records are new and
distinct, only then. -/
theorem writeBatch_durable_iff (faultless : env.Faultless) (rt : c.RoundTrips) {maxBytes segmentMaxBytes : Nat}
    {ops : List (WalOp V)} {s : WalRun V}
    (run : Run (ofTotal (walOp c env)) (walStart env maxBytes segmentMaxBytes) ops s)
    (fits : ∀ v ∈ offeredBy ops, c.Fits v) {items : List V} (nonempty : items ≠ [])
    (fits' : ∀ v ∈ items, c.Fits v) {w : World WalProcess} (wrote : writeBatch c env items s.world = .ok () w) :
    (StaysInOne c env (disk s.world) items → ∀ v ∈ items, Durable c w.files v) ∧
    (items.Nodup → (∀ v ∈ items, v ∉ offeredBy ops) → (∀ v ∈ items, Durable c w.files v) →
      StaysInOne c env (disk s.world) items) := by
  obtain ⟨writable, holds⟩ := walRun_holds faultless run
  obtain ⟨_, w', wrote', d, all, same⟩ := yields_writeBatch (c := c) (w := s.world) faultless items
    (R := fun _ w' => ∃ d, WroteAll c env items (disk s.world) d ∧ disk w' = d.synced)
    fun w' d all same => ⟨d, all, same.trans (if_neg nonempty)⟩
  cases wrote.symm.trans wrote'
  have files : w.files = d.synced.files := congrArg Disk.files same
  rw [files]
  constructor
  · intro stays v hv
    exact all.durable rt writable (holds.mono fun _ v hv => fits v hv) fits' stays hv
  · intro nodup new durable
    have placed : ∀ v ∈ items, ∃ name, d.current = some name ∧
        (v, name) ∈ (disk s.world).placements c env items := fun v hv =>
      all.placed rt writable (holds.mono fun _ v hv => ⟨fits v hv, hv⟩) fits' (new v hv) (durable v hv)
    obtain ⟨v₀, first⟩ := List.exists_mem_of_ne_nil items nonempty
    obtain ⟨name, current, _⟩ := placed v₀ first
    refine ⟨name, ?_⟩
    intro p hp
    have member : p.1 ∈ items := all.map_placements ▸ List.mem_map_of_mem hp
    obtain ⟨name', current', hp'⟩ := placed p.1 member
    cases current.symm.trans current'
    rw [← all.map_placements] at nodup
    have eq : p = (p.1, name) := List.inj_on_of_nodup_map nodup hp hp' rfl
    rw [eq]

end Runs

/-- Each of three records fills a segment, and only the last one is synced. -/
theorem writeBatch_loses_records :
    let s : WalRun (Fin 10) := walStart millisApart 1000000 20
    let w := (walCall onlineCodec millisApart s (.write [0, 1, 2])).world
    writeBatch onlineCodec millisApart [0, 1, 2] s.world = .ok () w ∧
      w.proc.metrics.bufferEvicted = s.world.proc.metrics.bufferEvicted ∧ (∀ v, onlineCodec.Fits v) ∧
      ¬Durable onlineCodec w.files 0 := by
  intro s w
  refine ⟨walCall_write (fun _ => rfl) _, by decide +kernel, by decide +kernel, ?_⟩
  intro durable
  obtain ⟨name, f, found, read⟩ := durable.synced
  have nowhere : ∀ e ∈ w.files.entries, 0 ∉ records onlineCodec (e.2.bytes.take e.2.durable) := by
    decide +kernel
  exact nowhere ⟨name, f⟩ (AList.mem_lookup_iff.mp found) read

/-- A new process writes two records to one segment. -/
theorem writeBatch_durable_iff_newProcess :
    let ops : List (WalOp (Fin 10)) := [.call (.write [0]), .call (.drain 5), .reopen 1000000 40]
    let s := ops.foldl (walOp onlineCodec millisApart) (walStart millisApart 1000000 20)
    ∀ v ∈ [1, 2], Durable onlineCodec (walCall onlineCodec millisApart s (.write [1, 2])).world.files v :=
  (writeBatch_durable_iff (fun _ => rfl) onlineCodec_roundTrips (run_ofTotal_iff.mpr rfl) (by decide +kernel)
    (by decide) (by decide +kernel) (walCall_write (fun _ => rfl) _)).1
    ⟨segmentName 1700000000001, by decide +kernel⟩

end ServerPoller
