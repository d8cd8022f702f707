import ServerPoller.SegmentReading

/-! Whether the reader takes what the writer wrote. The writer puts any payload into the file, and the
reader stops at the first one over its limit. -/

namespace ServerPoller
open DirectoryIo Numerals

section Written
variable {V : Type} (c : Codec V) (env : Surroundings)

/-- The segments that the rotations between two counts of clock readings open, in their order. -/
def openedSegments (a b : Nat) : List String :=
  (List.range' a (b - a)).map fun i => segmentName (env.clock i)

/-- The current segment and then the ones that were opened: where a call has written, in write order. -/
def segmentsWritten (w w' : World WalProcess) : List String :=
  (disk w).current.toList ++ openedSegments env w.readings w'.readings

/-- Each rotation has opened a file that was not there. -/
def OpensNew (w w' : World WalProcess) : Prop :=
  (openedSegments env w.readings w'.readings).Nodup ∧
    ∀ name ∈ openedSegments env w.readings w'.readings, name ∉ w.files

instance (w w' : World WalProcess) : Decidable (OpensNew env w w') := inferInstanceAs (Decidable (_ ∧ _))

def readSegments (maxItems : Nat) : List String → WalIo (List V)
  | [] => return []
  | name :: rest => do
      let items ← readSegment c env name maxItems
      return items ++ (← readSegments maxItems rest)

def CurrentHolds (d : Disk) (prior : List V) : Prop :=
  match d.current with
  | none => prior = []
  | some name => ∃ f, d.files.lookup name = some f ∧ f.bytes = encodeAll c prior

/-- Files of these records, of which the last is the current segment. -/
structure Parts (d : Disk) (parts : List (String × List V)) : Prop where
  files : ∀ part ∈ parts, ∃ f, d.files.lookup part.1 = some f ∧ f.bytes = encodeAll c part.2
  nodup : (parts.map Prod.fst).Nodup
  current : d.current = (parts.map Prod.fst).getLast?

variable {c env} {d e f : Disk}

theorem openedSegments_self (a : Nat) : openedSegments env a a = [] := by
  simp [openedSegments]

theorem openedSegments_cons {a b : Nat} (h : a < b) :
    openedSegments env a b = segmentName (env.clock a) :: openedSegments env (a + 1) b := by
  obtain ⟨n, rfl⟩ := Nat.exists_eq_add_of_lt h
  have count : a + n + 1 - a = n + 1 := by omega
  have rest : a + n + 1 - (a + 1) = n := by omega
  rw [openedSegments, openedSegments, count, rest, List.range'_succ, List.map_cons]

theorem Evictions.evicted_le {size : Nat} (h : Evictions size d e) : d.evicted ≤ e.evicted := by
  induction h with
  | fits | exhausted => exact le_rfl
  | evict _ _ _ ih => exact (Nat.le_succ _).trans ih

theorem Evictions.readings {size : Nat} (h : Evictions size d e) : e.readings = d.readings := by
  induction h with
  | fits | exhausted => rfl
  | evict _ _ _ ih => exact ih

theorem Evictions.eq_of_evicted {size : Nat} (h : Evictions size d e) (kept : e.evicted = d.evicted) :
    e = d := by
  cases h with
  | fits | exhausted => rfl
  | evict _ _ rest =>
      have grown : d.evicted + 1 ≤ e.evicted := rest.evicted_le
      omega

theorem Disk.append_evicted (bytes : Bytes) : (d.append bytes).evicted = d.evicted := by
  unfold append
  split <;> rfl

theorem Disk.append_readings (bytes : Bytes) : (d.append bytes).readings = d.readings := by
  unfold append
  split <;> rfl

theorem Disk.synced_evicted : d.synced.evicted = d.evicted := by
  unfold synced
  split <;> rfl

theorem Disk.synced_readings : d.synced.readings = d.readings := by
  unfold synced
  split <;> rfl

theorem Disk.readied_evicted (v : V) : (d.readied c env v).evicted = d.evicted := by
  unfold readied
  split <;> rfl

theorem Disk.readied_readings_le (v : V) : d.readings ≤ (d.readied c env v).readings := by
  unfold readied
  split
  · exact Nat.le_succ _
  · exact le_rfl

theorem Wrote.evicted_le {v : V} (h : Wrote c env v d e) : d.evicted ≤ e.evicted := by
  obtain ⟨d₁, evicted, rfl⟩ := h
  rw [Disk.append_evicted, Disk.readied_evicted]
  exact evicted.evicted_le

theorem Wrote.readings_le {v : V} (h : Wrote c env v d e) : d.readings ≤ e.readings := by
  obtain ⟨d₁, evicted, rfl⟩ := h
  rw [Disk.append_readings, ← evicted.readings]
  exact Disk.readied_readings_le v

theorem WroteAll.evicted_le {items : List V} (h : WroteAll c env items d e) : d.evicted ≤ e.evicted := by
  induction h with
  | nil => exact le_rfl
  | cons first _ ih => exact first.evicted_le.trans ih

theorem WroteAll.readings_le {items : List V} (h : WroteAll c env items d e) : d.readings ≤ e.readings := by
  induction h with
  | nil => exact le_rfl
  | cons first _ ih => exact first.readings_le.trans ih

theorem Evictions.eq_of_fits {size : Nat} (h : Evictions size d e)
    (fits : d.wal.totalBytes + size ≤ d.wal.maxBytes) : e = d := by
  cases h with
  | fits | exhausted => rfl
  | evict exceeds => exact absurd fits (not_le.mpr exceeds)

theorem Disk.append_wal {seg : SegmentWriter} (current : d.wal.currentSegment = some seg) (bytes : Bytes) :
    (d.append bytes).wal = { d.wal with
      currentSegment := some { seg with size := seg.size + bytes.length }
      totalBytes := d.wal.totalBytes + bytes.length } := by
  simp only [append, current]

def batchBytes (c : Codec V) (items : List V) : Nat := (items.map (recordSize c)).sum

/-- A batch for which there is room in the budget and in the current segment goes to that segment. -/
theorem WroteAll.stays {items : List V} (h : WroteAll c env items d e)
    (room : d.wal.totalBytes + batchBytes c items ≤ d.wal.maxBytes) {seg : SegmentWriter}
    (current : d.wal.currentSegment = some seg)
    (fits : seg.size + batchBytes c items ≤ d.wal.segmentMaxBytes) :
    e.evicted = d.evicted ∧ e.readings = d.readings := by
  induction h generalizing seg with
  | nil => exact ⟨rfl, rfl⟩
  | @cons v rest d e f first _ ih =>
      simp only [batchBytes, List.map_cons, List.sum_cons] at room fits ih
      obtain ⟨d₁, evicted, rfl⟩ := first
      have same := evicted.eq_of_fits (by omega)
      subst same
      have stays : d₁.readied c env v = d₁ := by
        apply if_neg
        simp only [needsRotate, current, decide_eq_true_eq, not_lt]
        omega
      rw [stays] at ih
      have wal := Disk.append_wal current (recordBytes c v)
      rw [length_recordBytes] at wal
      obtain ⟨same, count⟩ := ih (by rw [wal]; dsimp only; omega) (by rw [wal])
        (by rw [wal]; dsimp only; omega)
      exact ⟨same.trans (Disk.append_evicted _), count.trans (Disk.append_readings _)⟩

theorem WroteAll.opens {v : V} {items : List V} (h : WroteAll c env (v :: items) d e)
    (room : d.wal.totalBytes + batchBytes c (v :: items) ≤ d.wal.maxBytes)
    (none : d.wal.currentSegment = none) (fits : batchBytes c (v :: items) ≤ d.wal.segmentMaxBytes) :
    e.evicted = d.evicted ∧ e.readings = d.readings + 1 := by
  cases h with
  | cons first rest =>
      have sizes : batchBytes c (v :: items) = recordSize c v + batchBytes c items := by
        simp only [batchBytes, List.map_cons, List.sum_cons]
      rw [sizes] at room fits
      obtain ⟨d₁, evicted, rfl⟩ := first
      have same := evicted.eq_of_fits (by omega)
      subst same
      have rotates : d₁.readied c env v = d₁.rotated env := by
        apply if_pos
        simp only [needsRotate, none]
      rw [rotates] at rest
      have current : (d₁.rotated env).wal.currentSegment = some ⟨segmentName (env.clock d₁.readings), 0⟩ := rfl
      have wal := Disk.append_wal current (recordBytes c v)
      rw [length_recordBytes] at wal
      have total : (d₁.rotated env).wal.totalBytes = d₁.wal.totalBytes := rfl
      have limits : (d₁.rotated env).wal.maxBytes = d₁.wal.maxBytes ∧
        (d₁.rotated env).wal.segmentMaxBytes = d₁.wal.segmentMaxBytes := ⟨rfl, rfl⟩
      obtain ⟨same, count⟩ := rest.stays (by rw [wal]; dsimp only; omega) (by rw [wal])
        (by rw [wal]; dsimp only; omega)
      exact ⟨same.trans (Disk.append_evicted _), count.trans (Disk.append_readings _)⟩

theorem Disk.rotated_files (fresh : segmentName (env.clock d.readings) ∉ d.files) :
    (d.rotated env).files = d.files.insert (segmentName (env.clock d.readings)) ⟨[], 0⟩ := by
  simp only [rotated, Files.opened, AList.lookup_eq_none.mpr fresh]

theorem Parts.rotated {parts : List (String × List V)} (h : Parts c d parts)
    (fresh : segmentName (env.clock d.readings) ∉ d.files) :
    Parts c (d.rotated env) (parts ++ [(segmentName (env.clock d.readings), [])]) where
  files := by
    rw [Disk.rotated_files fresh]
    intro part member
    rcases List.mem_append.mp member with member | member
    · obtain ⟨f, found, bytes⟩ := h.files part member
      have other : part.1 ≠ segmentName (env.clock d.readings) := by
        intro same
        rw [same] at found
        exact fresh (AList.exists_lookup_iff_mem.mp ⟨f, found⟩)
      exact ⟨f, (AList.lookup_insert_ne other).trans found, bytes⟩
    · rw [List.mem_singleton.mp member]
      exact ⟨⟨[], 0⟩, AList.lookup_insert _, rfl⟩
  nodup := by
    rw [List.map_append]
    apply List.Nodup.append h.nodup (List.nodup_singleton _)
    intro name member same
    obtain ⟨part, listed, rfl⟩ := List.mem_map.mp member
    obtain ⟨f, found, _⟩ := h.files part listed
    rw [List.mem_singleton.mp same] at found
    exact fresh (AList.exists_lookup_iff_mem.mp ⟨f, found⟩)
  current := by
    rw [List.map_append]
    exact List.getLast?_concat.symm

theorem Parts.append {before : List (String × List V)} {name : String} {vs : List V}
    (h : Parts c d (before ++ [(name, vs)])) (v : V) :
    Parts c (d.append (recordBytes c v)) (before ++ [(name, vs ++ [v])]) := by
  have path : d.current = some name := by
    rw [h.current, List.map_append]
    exact List.getLast?_concat
  obtain ⟨seg, writer, rfl⟩ := Option.map_eq_some_iff.mp path
  have files : (d.append (recordBytes c v)).files =
      d.files.modify seg.path fun f => { f with bytes := f.bytes ++ recordBytes c v } := by
    simp only [Disk.append, writer]
  have current : (d.append (recordBytes c v)).current = some seg.path := by
    simp only [Disk.current, Disk.append, writer, Option.map_some]
  obtain ⟨old, last⟩ := List.forall_mem_append.mp h.files
  have names := h.nodup
  rw [List.map_append] at names
  refine ⟨?_, ?_, ?_⟩
  · rw [files]
    intro part member
    rcases List.mem_append.mp member with member | member
    · have other : part.1 ≠ seg.path := by
        intro same
        exact (List.nodup_append.mp names).2.2 part.1 (List.mem_map_of_mem member) seg.path
          (List.mem_singleton_self _) same
      rw [AList.lookup_modify_ne other]
      exact old part member
    · obtain ⟨f, found, bytes⟩ := last (seg.path, vs) (List.mem_singleton_self _)
      rw [List.mem_singleton.mp member, AList.lookup_modify, found]
      refine ⟨_, rfl, ?_⟩
      rw [encodeAll_append, encodeAll_singleton, ← bytes]
  · rw [List.map_append]
    exact names
  · rw [current, List.map_append]
    exact List.getLast?_concat.symm

theorem parts_of_current {parts : List (String × List V)} (h : Parts c d parts) (current : d.current ≠ none) :
    ∃ before name vs, parts = before ++ [(name, vs)] := by
  rcases List.eq_nil_or_concat' parts with rfl | ⟨before, ⟨name, vs⟩, eq⟩
  · exact absurd h.current current
  · exact ⟨before, name, vs, eq⟩

theorem Wrote.parts {v : V} {parts : List (String × List V)} (wrote : Wrote c env v d e)
    (h : Parts c d parts) (kept : e.evicted = d.evicted)
    (fresh : ∀ name ∈ openedSegments env d.readings e.readings, name ∉ d.files) :
    (∀ name ∈ e.files, name ∈ d.files ∨ name ∈ openedSegments env d.readings e.readings) ∧
      ∃ parts', Parts c e parts' ∧
        parts'.map Prod.fst = parts.map Prod.fst ++ openedSegments env d.readings e.readings ∧
        parts'.flatMap Prod.snd = parts.flatMap Prod.snd ++ [v] := by
  obtain ⟨d₁, evicted, rfl⟩ := wrote
  rw [Disk.append_evicted, Disk.readied_evicted] at kept
  have same := evicted.eq_of_evicted kept
  subst same
  rw [Disk.append_readings] at fresh ⊢
  have current : (d₁.readied c env v).current ≠ none := by
    obtain ⟨seg, writer⟩ := d₁.readied_current c env v
    simp only [Disk.current, writer, Option.map_some, ne_eq, reduceCtorEq, not_false_eq_true]
  have files : ∀ name, name ∈ ((d₁.readied c env v).append (recordBytes c v)).files ↔
      name ∈ (d₁.readied c env v).files := by
    intro name
    unfold Disk.append
    split
    · rfl
    · rw [AList.mem_keys, AList.keys_modify, AList.mem_keys]
  -- what remains is to see what making ready for the record has done
  suffices ready : (∀ name ∈ (d₁.readied c env v).files, name ∈ d₁.files ∨
      name ∈ openedSegments env d₁.readings (d₁.readied c env v).readings) ∧
      ∃ parts₁, Parts c (d₁.readied c env v) parts₁ ∧ parts₁.map Prod.fst =
        parts.map Prod.fst ++ openedSegments env d₁.readings (d₁.readied c env v).readings ∧
        parts₁.flatMap Prod.snd = parts.flatMap Prod.snd by
    obtain ⟨known, parts₁, holds, names, values⟩ := ready
    refine ⟨fun name there => known name ((files name).mp there), ?_⟩
    obtain ⟨before, name, vs, rfl⟩ := parts_of_current holds current
    refine ⟨before ++ [(name, vs ++ [v])], holds.append v, ?_, ?_⟩
    · rw [← names, List.map_append, List.map_append]
      rfl
    · rw [← values, List.flatMap_append, List.flatMap_append, List.flatMap_singleton, List.flatMap_singleton,
        List.append_assoc]
  by_cases turns : needsRotate d₁.wal (recordSize c v) = true
  · have readied : d₁.readied c env v = d₁.rotated env := if_pos turns
    have opened : openedSegments env d₁.readings (d₁.rotated env).readings =
        [segmentName (env.clock d₁.readings)] := by
      have later : d₁.readings < (d₁.rotated env).readings := Nat.lt_succ_self _
      rw [openedSegments_cons later]
      exact congrArg (List.cons _) (openedSegments_self _)
    rw [readied, opened] at fresh ⊢
    have new := fresh _ (List.mem_singleton_self _)
    refine ⟨?_, _, h.rotated new, ?_, ?_⟩
    · intro name there
      rw [Disk.rotated_files new, AList.mem_insert] at there
      exact there.symm.imp_right List.mem_singleton.mpr
    · rw [List.map_append]
      rfl
    · rw [List.flatMap_append, List.flatMap_singleton, List.append_nil]
  · have readied : d₁.readied c env v = d₁ := if_neg turns
    rw [readied, openedSegments_self, List.append_nil]
    exact ⟨fun name there => .inl there, parts, h, rfl, rfl⟩

theorem openedSegments_append (env : Surroundings) {a b k : Nat} (h : a ≤ b) (l : b ≤ k) :
    openedSegments env a k = openedSegments env a b ++ openedSegments env b k := by
  have count : k - a = (b - a) + (k - b) := by omega
  have start : b = a + (b - a) := by omega
  rw [openedSegments, openedSegments, openedSegments, count, ← List.map_append]
  nth_rewrite 4 [start]
  rw [List.range'_append_1]

theorem WroteAll.parts {items : List V} (wrote : WroteAll c env items d e) :
    ∀ {parts : List (String × List V)}, Parts c d parts → e.evicted = d.evicted →
      (openedSegments env d.readings e.readings).Nodup →
      (∀ name ∈ openedSegments env d.readings e.readings, name ∉ d.files) →
      ∃ parts', Parts c e parts' ∧
        parts'.map Prod.fst = parts.map Prod.fst ++ openedSegments env d.readings e.readings ∧
        parts'.flatMap Prod.snd = parts.flatMap Prod.snd ++ items := by
  induction wrote with
  | @nil d =>
      intro parts h _ _ _
      exact ⟨parts, h, by rw [openedSegments_self, List.append_nil], by rw [List.append_nil]⟩
  | @cons v rest d e f first later ih =>
      intro parts h kept nodup fresh
      have one := first.evicted_le
      have more := later.evicted_le
      have split := openedSegments_append env first.readings_le later.readings_le
      rw [split] at nodup fresh
      obtain ⟨_, nodup', apart⟩ := List.nodup_append.mp nodup
      obtain ⟨freshFirst, freshLater⟩ := List.forall_mem_append.mp fresh
      obtain ⟨known, parts₁, holds, names, values⟩ := first.parts h (by omega) freshFirst
      have fresh' : ∀ name ∈ openedSegments env e.readings f.readings, name ∉ e.files := by
        intro name opened there
        rcases known name there with old | before
        · exact freshLater name opened old
        · exact apart name before name opened rfl
      obtain ⟨parts₂, holds', names', values'⟩ := ih holds (by omega) nodup' fresh'
      refine ⟨parts₂, holds', ?_, ?_⟩
      · rw [names', names, split, List.append_assoc]
      · rw [values', values, List.append_assoc]
        rfl

theorem yields_readFiles (faultless : env.Faultless) {maxItems : Nat} {parts : List (String × Bytes)}
    {w : World WalProcess} (files : ∀ part ∈ parts, (store w).files.lookup part.1 = some part.2)
    (short : ∀ part ∈ parts, (records c part.2).length ≤ maxItems) :
    Yields (readSegments c env maxItems (parts.map Prod.fst)) w (fun got _ =>
      got = parts.flatMap fun part => records c part.2) := by
  induction parts generalizing w with
  | nil => exact yields_pure rfl
  | cons part rest ih =>
      obtain ⟨here, later⟩ := List.forall_mem_cons.mp files
      obtain ⟨shortHere, shortLater⟩ := List.forall_mem_cons.mp short
      simp only [store, AList.lookup_mapVals, Option.map_eq_some_iff] at here
      obtain ⟨f, found, bytes⟩ := here
      apply yields_bind
      apply yields_readSegment faultless found
      intro w₁ same
      have unchanged : store w₁ = store w := store_of_disk same
      apply yields_bind
      apply (ih (by rwa [unchanged]) shortLater).mono
      intro got w₂ eq
      apply yields_pure
      rw [bytes, List.take_of_length_le shortHere, eq, List.flatMap_cons]

/-- Reading the parts one after the other finds of each the records before the first over the limit. -/
theorem yields_readSegments (faultless : env.Faultless) (rt : c.RoundTrips) {maxItems : Nat}
    {parts : List (String × List V)} {w : World WalProcess}
    (files : ∀ part ∈ parts, ∃ f, w.files.lookup part.1 = some f ∧ f.bytes = encodeAll c part.2)
    (sized : ∀ part ∈ parts, ∀ v ∈ part.2, c.Sized v) (short : ∀ part ∈ parts, part.2.length ≤ maxItems) :
    Yields (readSegments c env maxItems (parts.map Prod.fst)) w (fun got _ =>
      got = parts.flatMap fun part => part.2.takeWhile fun v => decide (c.Fits v)) := by
  have values : ∀ part ∈ parts, records c (encodeAll c part.2) = part.2.takeWhile fun v => decide (c.Fits v) :=
    fun part member => records_encodeAll_takeWhile c (sized part member) rt
  have names : parts.map Prod.fst = (parts.map fun part => (part.1, encodeAll c part.2)).map Prod.fst := by
    rw [List.map_map]
    rfl
  rw [names]
  refine (yields_readFiles (c := c) faultless (List.forall_mem_map.mpr fun part member => ?_)
    (List.forall_mem_map.mpr fun part member => ?_)).mono fun got _ eq => ?_
  · obtain ⟨f, found, bytes⟩ := files part member
    simp only [store, AList.lookup_mapVals, found, Option.map_some, bytes]
  · rw [values part member]
    exact (List.takeWhile_sublist _).length_le.trans (short part member)
  · rw [eq, List.flatMap_map]
    exact List.flatMap_congr values

/-- What is read back is what was written exactly when the reader takes every record of it. -/
theorem flatMap_takeWhile_eq_iff {α β : Type} {p : β → Bool} {parts : List (α × List β)} {prior items : List β}
    (values : parts.flatMap Prod.snd = prior ++ items) (readable : ∀ v ∈ prior, p v = true) :
    (parts.flatMap fun part => part.2.takeWhile p) = prior ++ items ↔ ∀ v ∈ items, p v = true := by
  constructor
  · intro same v hv
    have member : v ∈ parts.flatMap fun part => part.2.takeWhile p := by
      rw [same]
      exact List.mem_append_right _ hv
    obtain ⟨part, _, taken⟩ := List.mem_flatMap.mp member
    exact List.mem_takeWhile_imp taken
  · intro all
    rw [← values]
    apply List.flatMap_congr
    intro part member
    apply List.takeWhile_eq_self_iff.mpr
    intro v hv
    have listed : v ∈ prior ++ items := values ▸ List.mem_flatMap.mpr ⟨part, member, hv⟩
    exact (List.mem_append.mp listed).elim (readable v) (all v)

theorem writeBatch_reads (faultless : env.Faultless) (rt : c.RoundTrips) {w w' : World WalProcess}
    {prior items : List V} (holds : CurrentHolds c (disk w) prior) (readable : ∀ v ∈ prior, c.Fits v)
    (sized : ∀ v ∈ items, c.Sized v) (wrote : writeBatch c env items w = .ok () w')
    (kept : w'.proc.metrics.bufferEvicted = w.proc.metrics.bufferEvicted) (fresh : OpensNew env w w')
    {maxItems : Nat} (unlimited : (prior ++ items).length ≤ maxItems) :
    Yields (readSegments c env maxItems (segmentsWritten env w w')) w' (fun got _ =>
      got = prior ++ items ↔ ∀ v ∈ items, c.Fits v) := by
  obtain ⟨_, w₁, run, d, all, synced⟩ := yields_writeBatch (c := c) (w := w) faultless items
    (R := fun _ w' => ∃ d, WroteAll c env items (disk w) d ∧
      disk w' = if items = [] then d else d.synced) (fun w' d all synced => ⟨d, all, synced⟩)
  cases wrote.symm.trans run
  have fields : (disk w').evicted = d.evicted ∧ (disk w').readings = d.readings := by
    rw [synced]
    unfold Disk.synced
    split
    · exact ⟨rfl, rfl⟩
    · split <;> exact ⟨rfl, rfl⟩
  have start : ∃ parts : List (String × List V), Parts c (disk w) parts ∧
      parts.map Prod.fst = (disk w).current.toList ∧ parts.flatMap Prod.snd = prior := by
    unfold CurrentHolds at holds
    cases current : (disk w).current with
    | none =>
        simp only [current] at holds
        exact ⟨[], ⟨nofun, List.nodup_nil, current⟩, rfl, holds.symm⟩
    | some name =>
        simp only [current] at holds
        refine ⟨[(name, prior)], ⟨?_, List.nodup_singleton _, current⟩, rfl, by simp⟩
        intro part member
        rw [List.mem_singleton.mp member]
        exact holds
  obtain ⟨parts, before, names, values⟩ := start
  obtain ⟨nodup, new⟩ := fresh
  have count : w'.readings = d.readings := fields.2
  rw [count] at nodup new
  obtain ⟨parts', after, names', values'⟩ := all.parts before (fields.1.symm.trans kept) nodup new
  have listed : segmentsWritten env w w' = parts'.map Prod.fst := by
    rw [names', names, segmentsWritten, count]
    rfl
  have files : ∀ part ∈ parts', ∃ f, w'.files.lookup part.1 = some f ∧ f.bytes = encodeAll c part.2 := by
    intro part member
    obtain ⟨f, found, bytes⟩ := after.files part member
    have same : store w' = d.store := by
      rw [store_eq, synced]
      split
      · rfl
      · exact Disk.store_synced
    have view := congrArg (fun s : Store => s.files.lookup part.1) same
    simp only [store, Disk.store, AList.lookup_mapVals, found, Option.map_some] at view
    obtain ⟨f', found', eq⟩ := Option.map_eq_some_iff.mp view
    exact ⟨f', found', eq.trans bytes⟩
  rw [values] at values'
  have known : ∀ part ∈ parts', ∀ v ∈ part.2, c.Sized v := by
    intro part member v hv
    have listed : v ∈ prior ++ items := values' ▸ List.mem_flatMap.mpr ⟨part, member, hv⟩
    exact (List.mem_append.mp listed).elim (fun old => (readable v old).sized) (sized v)
  have short : ∀ part ∈ parts', part.2.length ≤ maxItems := by
    intro part member
    have inside : part.2.Sublist (parts'.flatMap Prod.snd) :=
      List.sublist_flatten_of_mem (List.mem_map_of_mem member)
    rw [values'] at inside
    exact inside.length_le.trans unlimited
  rw [listed]
  apply (yields_readSegments faultless rt files known short).mono
  intro got _ eq
  rw [eq, flatMap_takeWhile_eq_iff values' fun v hv => decide_eq_true (readable v hv)]
  simp only [decide_eq_true_eq]

/-- The segments that a batch went to read back as what was there and the batch, exactly when no record
of the batch is over the reader's limit. -/
theorem writeBatch_readable_iff (faultless : env.Faultless) (rt : c.RoundTrips) {w w' : World WalProcess}
    {prior items : List V} (holds : CurrentHolds c (disk w) prior) (readable : ∀ v ∈ prior, c.Fits v)
    (sized : ∀ v ∈ items, c.Sized v) (wrote : writeBatch c env items w = .ok () w')
    (kept : w'.proc.metrics.bufferEvicted = w.proc.metrics.bufferEvicted) (fresh : OpensNew env w w')
    {maxItems : Nat} (unlimited : (prior ++ items).length ≤ maxItems) :
    (∃ w'', readSegments c env maxItems (segmentsWritten env w w') w' = .ok (prior ++ items) w'') ↔
      ∀ v ∈ items, c.Fits v := by
  obtain ⟨got, w₁, run, same⟩ := writeBatch_reads faultless rt holds readable sized wrote kept fresh unlimited
  constructor
  · rintro ⟨w₂, eq⟩
    cases run.symm.trans eq
    exact same.mp rfl
  · intro fits
    rw [run, same.mpr fits]
    exact ⟨w₁, rfl⟩

theorem writeBatch_opensOne (faultless : env.Faultless) {w : World WalProcess} {v : V} {items : List V}
    (current : w.proc.wal.currentSegment = none) (empty : w.files = ∅)
    (room : w.proc.wal.totalBytes + batchBytes c (v :: items) ≤ w.proc.wal.maxBytes)
    (fits : batchBytes c (v :: items) ≤ w.proc.wal.segmentMaxBytes) :
    ∃ w', writeBatch c env (v :: items) w = .ok () w' ∧
      w'.proc.metrics.bufferEvicted = w.proc.metrics.bufferEvicted ∧ OpensNew env w w' := by
  obtain ⟨_, w', run, d, all, synced⟩ := yields_writeBatch (c := c) (w := w) faultless (v :: items)
    (R := fun _ w' => ∃ d, WroteAll c env (v :: items) (disk w) d ∧ disk w' = d.synced)
    (fun w' d all synced => ⟨d, all, synced.trans (if_neg (List.cons_ne_nil v items))⟩)
  obtain ⟨same, count⟩ := all.opens room current fits
  have kept : w'.proc.metrics.bufferEvicted = d.evicted := by
    have evicted := congrArg Disk.evicted synced
    rwa [Disk.synced_evicted] at evicted
  have readings : w'.readings = w.readings + 1 := by
    have turned := congrArg Disk.readings synced
    rw [Disk.synced_readings] at turned
    exact turned.trans count
  have opened : openedSegments env w.readings w'.readings = [segmentName (env.clock w.readings)] := by
    rw [readings, openedSegments_cons (Nat.lt_succ_self _), openedSegments_self]
  refine ⟨w', run, kept.trans same, ?_⟩
  rw [OpensNew, opened, empty]
  exact ⟨List.nodup_singleton _, fun name _ => AList.notMem_empty name⟩

end Written

def lettersCodec : Codec Nat where
  toVec n := 34 :: (List.replicate n 97 ++ [34])
  fromSlice bytes :=
    let n := bytes.length - 2
    if bytes = 34 :: (List.replicate n 97 ++ [34]) then some n else none

theorem length_letters (n : Nat) : (lettersCodec.toVec n).length = n + 2 := by
  simp [lettersCodec]

theorem lettersCodec_roundTrips : lettersCodec.RoundTrips := by
  intro n
  have letters : (lettersCodec.toVec n).length - 2 = n := by rw [length_letters, Nat.add_sub_cancel]
  simp only [lettersCodec] at letters ⊢
  rw [letters, if_pos rfl]

/-- A string over the limit and another one, written to one new segment: reading finds something else. -/
theorem letters_unreadable (n m : Nat) (exceeds : maxPayload < n + 2) (small : n + m + 14 ≤ 4294967295) :
    let w := (walStart millisApart 4294967295 4294967295 : WalRun Nat).world
    CurrentHolds lettersCodec (disk w) [] ∧ (∀ v ∈ [n, m], lettersCodec.Sized v) ∧
      ∃ w', writeBatch lettersCodec millisApart [n, m] w = .ok () w' ∧
        w'.proc.metrics.bufferEvicted = w.proc.metrics.bufferEvicted ∧ OpensNew millisApart w w' ∧
        ∀ maxItems w'', 2 ≤ maxItems →
          readSegments lettersCodec millisApart maxItems (segmentsWritten millisApart w w') w' ≠
            .ok [n, m] w'' := by
  intro w
  have faultless : millisApart.Faultless := fun _ => rfl
  have start : disk w = ⟨⟨4294967295, 4294967295, none, 0⟩, ∅, 0, 0⟩ := disk_walStart faultless _ _
  have wal : w.proc.wal = ⟨4294967295, 4294967295, none, 0⟩ := congrArg Disk.wal start
  have files : w.files = ∅ := congrArg Disk.files start
  have holds : CurrentHolds lettersCodec (disk w) [] := by
    rw [start]
    rfl
  have sized : ∀ v ∈ [n, m], lettersCodec.Sized v := by
    intro v hv
    rw [Codec.Sized, length_letters]
    rcases List.mem_pair.mp hv with rfl | rfl <;> omega
  have bytes : batchBytes lettersCodec [n, m] ≤ 4294967295 := by
    simp only [batchBytes, recordSize, length_letters, List.map_cons, List.map_nil, List.sum_cons, List.sum_nil]
    omega
  obtain ⟨w', run, kept, fresh⟩ := writeBatch_opensOne (c := lettersCodec) faultless (w := w)
    (by rw [wal]) files (by rw [wal, Nat.zero_add]; exact bytes) (by rw [wal]; exact bytes)
  refine ⟨holds, sized, w', run, kept, fresh, ?_⟩
  intro maxItems w'' room read
  obtain ⟨got, w₁, run', same⟩ :=
    writeBatch_reads faultless lettersCodec_roundTrips holds (List.forall_mem_nil _) sized run
    kept fresh room
  cases read.symm.trans run'
  have fits := same.mp rfl n List.mem_cons_self
  rw [Codec.Fits, length_letters] at fits
  omega

/-- A string of 16 MiB and the empty one: the reader finds neither. -/
theorem writeBatch_unreadable :
    let w := (walStart millisApart 4294967295 4294967295 : WalRun Nat).world
    CurrentHolds lettersCodec (disk w) [] ∧ (∀ v ∈ [maxPayload, 0], lettersCodec.Sized v) ∧
      ∃ w', writeBatch lettersCodec millisApart [maxPayload, 0] w = .ok () w' ∧
        w'.proc.metrics.bufferEvicted = w.proc.metrics.bufferEvicted ∧ OpensNew millisApart w w' ∧
        ∀ maxItems w'', 2 ≤ maxItems →
          readSegments lettersCodec millisApart maxItems (segmentsWritten millisApart w w') w' ≠
            .ok [maxPayload, 0] w'' :=
  letters_unreadable maxPayload 0 (by unfold maxPayload; omega) (by unfold maxPayload; omega)

/-- Two records go to a segment each and are read back. -/
theorem writeBatch_readable_iff_eachOwn :
    let s : WalRun (Fin 10) := walStart millisApart 1000000 20
    let w := (walCall onlineCodec millisApart s (.write [1, 2])).world
    ∃ w', readSegments onlineCodec millisApart 2 (segmentsWritten millisApart s.world w) w = .ok [1, 2] w' := by
  intro s w
  have holds : CurrentHolds onlineCodec (disk s.world) [] := by
    rw [disk_walStart fun _ => rfl]
    rfl
  exact (writeBatch_readable_iff (fun _ => rfl) onlineCodec_roundTrips holds (List.forall_mem_nil _) (by decide +kernel)
    (walCall_write (fun _ => rfl) _) (by decide +kernel) (by decide +kernel) (by decide)).mpr (by decide +kernel)

end ServerPoller
