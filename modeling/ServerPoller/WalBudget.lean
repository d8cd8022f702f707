import ServerPoller.WalDurability

/-! How much the buffer takes on disk. The writer keeps a total and the size of the current segment
without looking at the files again, and both are right as long as a new segment begins empty. -/

namespace ServerPoller
open DirectoryIo Transition

def Disk.segmentBytes (d : Disk) : Nat := (d.segments.map (fileSize d.files)).sum

section Writing
variable {V : Type} (c : Codec V) (env : Surroundings)

def walOpen (maxBytes segmentMaxBytes : Nat) (w : World WalProcess) : WalRun V where
  world := match openWal env maxBytes segmentMaxBytes w with
    | .ok _ w' => w'
    | .error _ w' => w'
  drained := []

def turn (w : World WalProcess) (v : V) : World WalProcess :=
  match writeItem c env v w with
  | .ok _ w' => w'
  | .error _ w' => w'

/-- If the turn for this record rotates, the file that it opens is absent or empty. -/
def OpensEmpty (w : World WalProcess) (v : V) : Prop :=
  match evictOverBudget env (recordSize c v) (w.files.keys.length + 1) w with
  | .ok _ w₁ => needsRotate w₁.proc.wal (recordSize c v) = true →
      fileSize w₁.files (segmentName (env.clock w₁.readings)) = 0
  | .error _ _ => True

instance (w : World WalProcess) (v : V) : Decidable (OpensEmpty c env w v) := by
  unfold OpensEmpty
  split <;> infer_instance

/-- Every rotation of the call opens a file that is absent or empty. -/
def RotatesToEmpty (s : WalRun V) : WalCall V → Prop
  | .write items => Meets (turn c env) (OpensEmpty c env) s.world items
  | .drain _ => True

instance (s : WalRun V) (call : WalCall V) : Decidable (RotatesToEmpty c env s call) :=
  match call with
  | .write items => Meets.decidable s.world items
  | .drain _ => .isTrue trivial

def largestRecord : List V → Nat
  | [] => 0
  | v :: rest => max (recordSize c v) (largestRecord rest)

end Writing

/-- What a file adds to the size of the buffer. -/
def segmentWeight (name : String) (f : DiskFile) : Nat := if isSegment name then f.bytes.length else 0

theorem sum_map_filter {α : Type} (p : α → Bool) (f : α → Nat) (l : List α) :
    ((l.filter p).map f).sum = (l.map fun a => if p a then f a else 0).sum := by
  induction l with
  | nil => rfl
  | cons a l ih =>
      rw [List.filter_cons, List.map_cons, List.sum_cons, ← ih]
      cases p a with
      | true => rw [if_pos rfl, if_pos rfl, List.map_cons, List.sum_cons]
      | false => rw [if_neg Bool.false_ne_true, if_neg Bool.false_ne_true, Nat.zero_add]

theorem Disk.segmentBytes_eq (d : Disk) : d.segmentBytes = d.files.sum segmentWeight := by
  have sizes : ∀ e ∈ d.files.entries,
      (if isSegment e.1 then fileSize d.files e.1 else 0) = segmentWeight e.1 e.2 := by
    intro e member
    rw [fileSize_of_lookup (AList.mem_lookup_iff.mpr member), segmentWeight]
  calc d.segmentBytes = ((d.files.keys.filter isSegment).map (fileSize d.files)).sum :=
        ((segmentNames_perm _).map _).sum_eq
    _ = (d.files.keys.map fun name => if isSegment name then fileSize d.files name else 0).sum :=
        sum_map_filter _ _ _
    _ = (d.files.entries.map fun e => if isSegment e.1 then fileSize d.files e.1 else 0).sum := by
        rw [AList.keys, List.keys, List.map_map]
        rfl
    _ = d.files.sum segmentWeight := congrArg List.sum (List.map_congr_left sizes)

section Account
variable {V : Type} {c : Codec V} {env : Surroundings} {maxBytes segmentMaxBytes largest : Nat} {d e : Disk}

/-- The total and the size of the current segment are those of the files, and the current segment is
not larger than it may be with records of this size. -/
structure Disk.Tracked (maxBytes segmentMaxBytes largest : Nat) (d : Disk) : Prop where
  budget : d.wal.maxBytes = maxBytes
  limit : d.wal.segmentMaxBytes = segmentMaxBytes
  total : d.wal.totalBytes = d.files.sum segmentWeight
  segment : ∀ seg, d.wal.currentSegment = some seg → isSegment seg.path = true
  writer : ∀ seg, d.wal.currentSegment = some seg →
    ∃ f, d.files.lookup seg.path = some f ∧ f.bytes.length = seg.size
  filled : ∀ seg, d.wal.currentSegment = some seg → seg.size ≤ max segmentMaxBytes largest

theorem Disk.Tracked.removed (h : d.Tracked maxBytes segmentMaxBytes largest) {name : String}
    (oldest : d.oldest = some name) : (d.removed name).Tracked maxBytes segmentMaxBytes largest := by
  obtain ⟨there, segment, other⟩ := Disk.oldest_spec oldest
  obtain ⟨f, found⟩ := AList.exists_lookup_iff_mem.mpr there
  refine ⟨h.budget, h.limit, ?_, h.segment, ?_, h.filled⟩
  · have weight : segmentWeight name f = f.bytes.length := if_pos segment
    have split := AList.sum_erase (f := segmentWeight) found
    have total := h.total
    simp only [Disk.removed, fileSize_of_lookup found]
    omega
  · intro seg current
    obtain ⟨g, found', size⟩ := h.writer seg current
    refine ⟨g, ?_, size⟩
    rw [← found']
    apply AList.lookup_erase_ne
    intro same
    exact other (by rw [← same]; exact congrArg (Option.map SegmentWriter.path) current)

theorem Evictions.tracked {size : Nat} (h : Evictions size d e) :
    d.Tracked maxBytes segmentMaxBytes largest → e.Tracked maxBytes segmentMaxBytes largest ∧
      (e.wal.totalBytes + size ≤ maxBytes ∨ e.oldest = none) := by
  induction h with
  | fits room =>
      intro tracked
      exact ⟨tracked, .inl (tracked.budget ▸ room)⟩
  | exhausted _ none_left =>
      intro tracked
      exact ⟨tracked, .inr none_left⟩
  | evict _ oldest _ ih =>
      intro tracked
      have removed := tracked.removed oldest
      exact ih ⟨removed.budget, removed.limit, removed.total, removed.segment, removed.writer, removed.filled⟩

/-- When nothing is left to evict, only the current segment is there. -/
theorem Disk.Tracked.total_le (h : d.Tracked maxBytes segmentMaxBytes largest) (exhausted : d.oldest = none) :
    d.wal.totalBytes ≤ max segmentMaxBytes largest := by
  have only : ∀ name f, d.files.lookup name = some f → isSegment name = true → d.current = some name := by
    intro name f found segment
    have listed : name ∈ d.segments :=
      mem_segmentNames.mpr ⟨AList.mem_keys.mp (AList.exists_lookup_iff_mem.mp ⟨f, found⟩), segment⟩
    have refused := List.find?_eq_none.mp exhausted name listed
    have same : some name = d.current := by simpa using refused
    exact same.symm
  rw [h.total]
  cases current : d.wal.currentSegment with
  | none =>
      have zero : d.files.sum segmentWeight = 0 := by
        apply AList.sum_eq_zero
        intro name f found
        apply if_neg
        intro segment
        have path := only name f found segment
        simp [Disk.current, current] at path
      omega
  | some seg =>
      obtain ⟨f, found, size⟩ := h.writer seg current
      have weight : segmentWeight seg.path f = f.bytes.length := if_pos (h.segment seg current)
      have rest : (d.files.erase seg.path).sum segmentWeight = 0 := by
        apply AList.sum_eq_zero
        intro name g found'
        have apart : name ≠ seg.path := by
          rintro rfl
          simp at found'
        rw [AList.lookup_erase_ne apart] at found'
        apply if_neg
        intro segment
        have path := only name g found' segment
        rw [Disk.current, current] at path
        exact apart (Option.some.inj path).symm
      rw [AList.sum_erase found, weight, rest, size]
      exact h.filled seg current

theorem Disk.Tracked.rotated (h : d.Tracked maxBytes segmentMaxBytes largest)
    (empty : fileSize d.files (segmentName (env.clock d.readings)) = 0) :
    (d.rotated env).Tracked maxBytes segmentMaxBytes largest := by
  have there : ∃ f, (d.rotated env).files.lookup (segmentName (env.clock d.readings)) = some f ∧
      f.bytes.length = 0 ∧ (d.rotated env).files.sum segmentWeight = d.files.sum segmentWeight := by
    simp only [Disk.rotated, Files.opened]
    cases found : d.files.lookup (segmentName (env.clock d.readings)) with
    | some f => exact ⟨f, found, (fileSize_of_lookup found).symm.trans empty, rfl⟩
    | none =>
        refine ⟨_, AList.lookup_insert _, rfl, ?_⟩
        rw [AList.sum_insert (AList.lookup_eq_none.mp found), segmentWeight, List.length_nil, ite_self,
          Nat.zero_add]
  obtain ⟨f, found, size, total⟩ := there
  refine ⟨h.budget, h.limit, h.total.trans total.symm, ?_, ?_, ?_⟩
  · rintro seg ⟨⟩
    exact isSegment_segmentName _
  · rintro seg ⟨⟩
    exact ⟨f, found, size⟩
  · rintro seg ⟨⟩
    exact Nat.zero_le _

theorem Disk.Tracked.append (h : d.Tracked maxBytes segmentMaxBytes largest) {seg : SegmentWriter}
    (current : d.wal.currentSegment = some seg) {bytes : Bytes}
    (room : seg.size + bytes.length ≤ max segmentMaxBytes largest) :
    (d.append bytes).Tracked maxBytes segmentMaxBytes largest := by
  obtain ⟨f, found, size⟩ := h.writer seg current
  have segment := h.segment seg current
  have grown : (d.files.modify seg.path fun f => { f with bytes := f.bytes ++ bytes }).sum segmentWeight =
      d.files.sum segmentWeight + bytes.length := by
    apply AList.sum_modify found
    rw [segmentWeight, segmentWeight, if_pos segment, if_pos segment, List.length_append]
  have total := h.total
  simp only [Disk.append, current]
  refine ⟨h.budget, h.limit, ?_, ?_, ?_, ?_⟩
  · rw [grown, total]
  · rintro _ ⟨⟩
    exact segment
  · rintro _ ⟨⟩
    refine ⟨_, by rw [AList.lookup_modify, found, Option.map_some], ?_⟩
    rw [List.length_append, size]
  · rintro _ ⟨⟩
    exact room

theorem Evictions.turn_tracked (env : Surroundings) {v : V} (h : Evictions (recordSize c v) d e)
    (tracked : d.Tracked maxBytes segmentMaxBytes largest) (size : recordSize c v ≤ largest)
    (empty : needsRotate e.wal (recordSize c v) = true →
      fileSize e.files (segmentName (env.clock e.readings)) = 0) :
    ((e.readied c env v).append (recordBytes c v)).Tracked maxBytes segmentMaxBytes largest ∧
      ((e.readied c env v).append (recordBytes c v)).wal.totalBytes ≤
        max maxBytes (max segmentMaxBytes largest + largest) := by
  obtain ⟨tracked', outcome⟩ := h.tracked tracked
  have before : e.wal.totalBytes + recordSize c v ≤ max maxBytes (max segmentMaxBytes largest + largest) := by
    rcases outcome with room | exhausted
    · exact room.trans (le_max_left _ _)
    · have held := tracked'.total_le exhausted
      exact (Nat.add_le_add held size).trans (le_max_right _ _)
  have ready : ∃ seg, (e.readied c env v).wal.currentSegment = some seg ∧
      (e.readied c env v).wal.totalBytes = e.wal.totalBytes ∧
      (e.readied c env v).Tracked maxBytes segmentMaxBytes largest ∧
      seg.size + (recordBytes c v).length ≤ max segmentMaxBytes largest := by
    rw [length_recordBytes]
    by_cases turns : needsRotate e.wal (recordSize c v) = true
    · have readied : e.readied c env v = e.rotated env := if_pos turns
      rw [readied]
      refine ⟨_, rfl, rfl, tracked'.rotated (empty turns), ?_⟩
      exact (Nat.zero_add _).le.trans (size.trans (le_max_right _ _))
    · have stays : e.readied c env v = e := if_neg turns
      rw [stays]
      cases current : e.wal.currentSegment with
      | none => simp [needsRotate, current] at turns
      | some seg =>
          simp only [needsRotate, current, tracked'.limit, decide_eq_true_eq, not_lt] at turns
          exact ⟨seg, rfl, rfl, tracked', turns.trans (le_max_left _ _)⟩
  obtain ⟨seg, current, total, readied, room⟩ := ready
  refine ⟨readied.append current room, ?_⟩
  simp only [Disk.append, current, length_recordBytes, total]
  exact before

theorem Disk.Tracked.synced (h : d.Tracked maxBytes segmentMaxBytes largest) :
    d.synced.Tracked maxBytes segmentMaxBytes largest := by
  unfold Disk.synced
  cases current : d.wal.currentSegment with
  | none => exact h
  | some seg =>
      obtain ⟨f, found, size⟩ := h.writer seg current
      have weights : (d.files.modify seg.path fun f => { f with durable := f.bytes.length }).sum segmentWeight =
          d.files.sum segmentWeight := by
        rw [← Nat.add_zero (d.files.sum segmentWeight)]
        exact AList.sum_modify found rfl
      refine ⟨h.budget, h.limit, h.total.trans weights.symm, h.segment, ?_, h.filled⟩
      intro seg' current'
      cases current.symm.trans current'
      refine ⟨⟨f.bytes, f.bytes.length⟩, ?_, size⟩
      rw [AList.lookup_modify, found, Option.map_some]

theorem Disk.Tracked.mono (h : d.Tracked maxBytes segmentMaxBytes largest) {larger : Nat}
    (le : largest ≤ larger) : d.Tracked maxBytes segmentMaxBytes larger where
  budget := h.budget
  limit := h.limit
  total := h.total
  segment := h.segment
  writer := h.writer
  filled := fun seg current => (h.filled seg current).trans (max_le_max_left _ le)

theorem Evictions.unique {size : Nat} {e' : Disk} (h : Evictions size d e) (k : Evictions size d e') :
    e = e' := by
  induction h with
  | fits room =>
      cases k with
      | fits | exhausted => rfl
      | evict exceeds => exact absurd room (not_le.mpr exceeds)
  | exhausted exceeds none_left =>
      cases k with
      | fits | exhausted => rfl
      | evict _ oldest => cases none_left.symm.trans oldest
  | evict exceeds oldest _ ih =>
      cases k with
      | fits room => exact absurd room (not_le.mpr exceeds)
      | exhausted _ none_left => cases none_left.symm.trans oldest
      | evict _ oldest' rest' =>
          cases oldest.symm.trans oldest'
          exact ih rest'

theorem Wrote.unique {v : V} {e' : Disk} (h : Wrote c env v d e) (k : Wrote c env v d e') : e = e' := by
  obtain ⟨d₁, evicted, rfl⟩ := h
  obtain ⟨d₂, evicted', rfl⟩ := k
  rw [evicted.unique evicted']

theorem disk_turn (faultless : env.Faultless) {w : World WalProcess} {v : V}
    (wrote : Wrote c env v (disk w) e) : disk (turn c env w v) = e := by
  obtain ⟨_, w', run, wrote'⟩ := yields_writeItem (c := c) (w := w) faultless v
    (R := fun _ w' => Wrote c env v (disk w) (disk w')) fun _ wrote' => wrote'
  simp only [turn, run]
  exact wrote'.unique wrote

theorem OpensEmpty.evictions (faultless : env.Faultless) {w : World WalProcess} {v : V}
    (h : OpensEmpty c env w v) (evicted : Evictions (recordSize c v) (disk w) e) :
    needsRotate e.wal (recordSize c v) = true → fileSize e.files (segmentName (env.clock e.readings)) = 0 := by
  obtain ⟨_, w₁, run, evicted'⟩ := yields_evictOverBudget (w := w) faultless (recordSize c v)
    (w.files.keys.length + 1) (Nat.lt_succ_self _)
    (R := fun _ w₁ => Evictions (recordSize c v) (disk w) (disk w₁)) fun _ evicted' => evicted'
  cases evicted'.unique evicted
  simp only [OpensEmpty, run] at h
  exact h

theorem WroteAll.tracked (faultless : env.Faultless) {items : List V} (h : WroteAll c env items d e) :
    ∀ {w : World WalProcess}, disk w = d → Meets (turn c env) (OpensEmpty c env) w items →
      d.Tracked maxBytes segmentMaxBytes largest → (∀ v ∈ items, recordSize c v ≤ largest) →
      e.Tracked maxBytes segmentMaxBytes largest ∧
        (items ≠ [] → e.wal.totalBytes ≤ max maxBytes (max segmentMaxBytes largest + largest)) := by
  induction h with
  | nil =>
      intro w _ _ tracked _
      exact ⟨tracked, fun nonempty => absurd rfl nonempty⟩
  | @cons v rest d e f first later ih =>
      rintro w rfl ⟨here, others⟩ tracked sizes
      obtain ⟨size, sizes'⟩ := List.forall_mem_cons.mp sizes
      have next := disk_turn faultless first
      obtain ⟨d₁, evicted, rfl⟩ := first
      obtain ⟨tracked', bound⟩ := evicted.turn_tracked env tracked size (here.evictions faultless evicted)
      obtain ⟨tracked'', bound'⟩ := ih next others tracked' sizes'
      refine ⟨tracked'', fun _ => ?_⟩
      cases later with
      | nil => exact bound
      | cons => exact bound' (List.cons_ne_nil _ _)

theorem recordSize_le_largest {items : List V} {v : V} (h : v ∈ items) : recordSize c v ≤ largestRecord c items := by
  induction h with
  | head rest => exact le_max_left _ _
  | tail u _ ih => exact ih.trans (le_max_right _ _)

theorem largestRecord_append (vs items : List V) :
    largestRecord c (vs ++ items) = max (largestRecord c vs) (largestRecord c items) := by
  induction vs with
  | nil => exact (Nat.zero_max _).symm
  | cons v vs ih => rw [List.cons_append, largestRecord, largestRecord, ih, max_assoc]

theorem walOpen_tracked (faultless : env.Faultless) (w : World WalProcess) :
    (disk (walOpen env maxBytes segmentMaxBytes w : WalRun V).world).Tracked maxBytes segmentMaxBytes largest := by
  obtain ⟨_, w', opened, same⟩ := yields_openWal faultless (w := w) maxBytes segmentMaxBytes
    (R := fun _ w' => disk w' = { disk w with
      wal := ⟨maxBytes, segmentMaxBytes, none, (disk w).segmentBytes⟩ }) fun _ same => same
  simp only [walOpen, opened, same]
  exact ⟨rfl, rfl, (disk w).segmentBytes_eq, nofun, nofun, nofun⟩

/-- A call whose rotations open empty files keeps the account, and a batch keeps to the budget. -/
theorem walCall_tracked (faultless : env.Faultless) {s : WalRun V} {call : WalCall V} {past : List V}
    (tracked : (disk s.world).Tracked maxBytes segmentMaxBytes (largestRecord c past))
    (empty : RotatesToEmpty c env s call) :
    let largest := largestRecord c (past ++ offered [call])
    (disk (walCall c env s call).world).Tracked maxBytes segmentMaxBytes largest ∧
      (offered [call] ≠ [] → (disk (walCall c env s call).world).wal.totalBytes ≤
        max maxBytes (max segmentMaxBytes largest + largest)) := by
  intro largest
  have split : largest = max (largestRecord c past) (largestRecord c (offered [call])) := largestRecord_append _ _
  have before : (disk s.world).Tracked maxBytes segmentMaxBytes largest :=
    tracked.mono (split ▸ le_max_left _ _)
  cases call with
  | write items =>
      have offers : offered [WalCall.write items] = items := List.flatMap_singleton ..
      rw [offers] at split ⊢
      obtain ⟨_, w, wrote, d, all, same⟩ := yields_writeBatch (c := c) (w := s.world) faultless items
        (R := fun _ w' => ∃ d, WroteAll c env items (disk s.world) d ∧
          disk w' = if items = [] then d else d.synced) fun w' d all same => ⟨d, all, same⟩
      obtain ⟨tracked', bound⟩ := all.tracked faultless rfl empty before fun v hv =>
        (recordSize_le_largest hv).trans (split ▸ le_max_right _ _)
      simp only [walCall, wrote, same]
      split_ifs with none_given
      · exact ⟨tracked', bound⟩
      · have total : d.synced.wal = d.wal := by
          unfold Disk.synced
          split <;> rfl
        exact ⟨tracked'.synced, total ▸ bound⟩
  | drain maxItems =>
      obtain ⟨items, w, drained, effect⟩ := yields_drainOnce (c := c) (w := s.world) faultless maxItems
        (R := fun _ w' => disk w' = disk s.world ∨
          ∃ name, (disk s.world).oldest = some name ∧ disk w' = (disk s.world).removed name)
        (fun _ _ same => .inl same) fun name _ _ oldest _ gone => .inr ⟨name, oldest, gone⟩
      simp only [walCall, drained]
      refine ⟨?_, fun nonempty => absurd rfl nonempty⟩
      rcases effect with same | ⟨name, oldest, gone⟩
      · rw [same]
        exact before
      · rw [gone]
        exact before.removed oldest

/-- If every rotation of the run opens an absent or empty file, the segment files keep to the budget
after every batch. -/
theorem writeBatch_keeps_budget (faultless : env.Faultless) (w : World WalProcess) {calls : List (WalCall V)}
    {s : WalRun V} (run : Run (Only (ofTotal (walCall c env)) (RotatesToEmpty c env))
      (walOpen env maxBytes segmentMaxBytes w) calls s)
    {items : List V} (nonempty : items ≠ []) (empty : RotatesToEmpty c env s (.write items)) :
    let largest := largestRecord c (offered calls ++ items)
    (disk (walCall c env s (.write items)).world).segmentBytes ≤
      max maxBytes (max segmentMaxBytes largest + largest) := by
  have tracked := run.keeps_history
    (P := fun past s => (disk s.world).Tracked maxBytes segmentMaxBytes (largestRecord c (offered past))) ?_ ?_
  · have offers : offered [WalCall.write items] = items := List.flatMap_singleton ..
    obtain ⟨account, bound⟩ := walCall_tracked faultless tracked empty
    rw [offers] at account bound
    rw [Disk.segmentBytes_eq, ← account.total]
    exact bound nonempty
  · rintro past s call _ tracked ⟨rfl, empty⟩
    have grown : offered (past ++ [call]) = offered past ++ offered [call] := List.flatMap_append
    rw [grown]
    exact (walCall_tracked faultless tracked empty).1
  · exact walOpen_tracked faultless w

end Account

def stuckClock : Surroundings := ⟨fun _ => 1700000000000, fun _ => none⟩

/-- Within one millisecond three records go to one file, although two are over the limit of a segment. -/
theorem writeBatch_over_budget :
    let s : WalRun (Fin 10) := walOpen stuckClock 40 20 emptyWorld
    let w := (walCall onlineCodec stuckClock s (.write [0, 1, 2])).world
    let largest := largestRecord onlineCodec [0, 1, 2]
    stuckClock.Faultless ∧ Monotone stuckClock.clock ∧
      writeBatch onlineCodec stuckClock [0, 1, 2] s.world = .ok () w ∧
      max 40 (max 20 largest + largest) < (disk w).segmentBytes :=
  ⟨fun _ => rfl, fun _ _ _ => le_rfl, walCall_write (fun _ => rfl) _, by decide +kernel⟩

/-- The second batch evicts a segment that was there when the buffer was opened. -/
theorem writeBatch_keeps_budget_evicts :
    let w : World WalProcess := { emptyWorld with
      files := (∅ : Files).insert "buffer-1.wal" ⟨List.replicate 30 0, 30⟩ }
    let s : WalRun (Fin 10) := walOpen millisApart 60 40 w
    let t := walCall onlineCodec millisApart s (.write [0])
    (disk (walCall onlineCodec millisApart t (.write [1, 2])).world).segmentBytes ≤
      max 60 (max 40 17 + 17) := by
  intro w s t
  have run : Run (Only (ofTotal (walCall onlineCodec millisApart)) (RotatesToEmpty onlineCodec millisApart))
      s [.write [0]] t := run_only_iff.mpr ⟨by decide +kernel, rfl⟩
  exact writeBatch_keeps_budget (fun _ => rfl) w run (by decide) (by decide +kernel)

end ServerPoller
