import ServerPoller.WalLog
import ServerPoller.WalOutcomes

/-! What later batches make of a record whose write has failed. The writer keeps the file open and goes on
behind whatever part of the record has got into it. -/

namespace ServerPoller
open DirectoryIo Numerals Transition

section Operations
variable {V : Type} (c : Codec V) (env : Surroundings)

def Returns (w : World WalProcess) (op : WalOp V) (w' : World WalProcess) : Prop :=
  match op with
  | .reopen maxBytes segmentMaxBytes => openWal env maxBytes segmentMaxBytes w = .ok () w'
  | .call (.write items) => writeBatch c env items w = .ok () w'
  | .call (.drain maxItems) => ∃ items, drainOnce c env maxItems w = .ok items w'

/-- In the batch the write of a record fails: the state before it, the record and the state that the
failed call leaves. -/
inductive BreaksAt : List V → World WalProcess → World WalProcess → V → World WalProcess → Prop
  | here {v rest w wr w₁ e} : makeReady c env v w = .ok () wr →
      appendRecord env (c.toVec v) wr = .error e w₁ → BreaksAt (v :: rest) w wr v w₁
  | later {u v rest w w' wr w₁} : writeItem c env u w = .ok () w' → BreaksAt rest w' wr v w₁ →
      BreaksAt (u :: rest) w wr v w₁

/-- A part of this record is in the segment, but neither nothing nor all of it. -/
def LeftTorn (wr : World WalProcess) (v : V) (w₁ : World WalProcess) : Prop :=
  ∃ name ∈ (disk wr).current, fileSize wr.files name < fileSize w₁.files name ∧
    fileSize w₁.files name < fileSize wr.files name + recordSize c v

instance (wr : World WalProcess) (v : V) (w₁ : World WalProcess) : Decidable (LeftTorn c wr v w₁) :=
  inferInstanceAs (Decidable (∃ _ ∈ _, _))

/-- The batch does not go on behind a torn record, and the files that it opens are new or the current one. -/
structure StaysClear (names : List String) (wr : World WalProcess) (v : V) (w₁ : World WalProcess)
    (items : List V) : Prop where
  framed : LeftTorn c wr v w₁ → ((disk w₁).targets c env items).head? ≠ (disk w₁).current
  fresh : (((disk w₁).targets c env items).foldl begun names).Nodup

instance (names : List String) (wr : World WalProcess) (v : V) (w₁ : World WalProcess) (items : List V) :
    Decidable (StaysClear c env names wr v w₁ items) :=
  decidable_of_iff (_ ∧ _) ⟨fun h => ⟨h.1, h.2⟩, fun h => ⟨h.framed, h.fresh⟩⟩

end Operations

/-- The computation has stored these records, and has evicted something or made no other change. -/
structure Accepted {V : Type} (c : Codec V) (env : Surroundings) (items : List V) (w w' : World WalProcess) :
    Prop where
  sound : (store w).Sound c → (∀ v ∈ items, c.Fits v) → (store w').Sound c
  kept : disk w' = items.foldl (Disk.put c env) (disk w) ∨ (disk w).evicted < (disk w').evicted

section Returning
variable {V : Type} {c : Codec V} {env : Surroundings} {w w' w'' : World WalProcess} {d : Disk}

theorem Disk.put_evicted (v : V) : (d.put c env v).evicted = d.evicted := by
  rw [put, append_evicted, readied_evicted]

theorem foldl_put_evicted (items : List V) : (items.foldl (Disk.put c env) d).evicted = d.evicted := by
  induction items generalizing d with
  | nil => rfl
  | cons v rest ih => exact ih.trans (Disk.put_evicted v)

theorem Accepted.of_disk (same : disk w' = disk w) : Accepted c env [] w w' where
  sound := by
    intro sound _
    rwa [store_of_disk same]
  kept := .inl same

theorem Accepted.append {vs us : List V} (h : Accepted c env vs w w') (k : Accepted c env us w' w'') :
    Accepted c env (vs ++ us) w w'' where
  sound := by
    intro sound fits
    obtain ⟨first, later⟩ := List.forall_mem_append.mp fits
    exact k.sound (h.sound sound first) later
  kept := by
    rcases h.kept with same | more
    · rw [List.foldl_append, ← same]
      refine k.kept.imp_right fun more => ?_
      rwa [same, foldl_put_evicted] at more
    · refine .inr ?_
      rcases k.kept with same' | more'
      · rwa [same', foldl_put_evicted]
      · exact more.trans more'

theorem Store.Sound.less (h : d.store.Sound c) {name : String} (other : d.current ≠ some name) (size : Nat) :
    (d.less name size).store.Sound c := by
  refine (h.without other).of_files rfl ?_
  simp only [Disk.store, Disk.less, Store.removed, AList.mapVals_erase]

theorem accepts_evictOldest (c : Codec V) (env : Surroundings) (w : World WalProcess) :
    Ends (evictOldest env) w (fun _ w' => Accepted c env [] w w') fun _ => True := by
  refine ends_evictOldest (fun _ _ => trivial) (fun _ same => .of_disk same) ?_
  intro segments name f size w' run oldest removes less
  refine ⟨?_, .inr ?_⟩
  · intro sound _
    rw [store_eq, less]
    exact (sound.less (d := disk w) (oldestCompleted_some oldest).2 size).of_files rfl rfl
  · rw [less]
    exact Nat.lt_succ_self _

theorem accepts_evictOverBudget (c : Codec V) (env : Surroundings) (recordSize rounds : Nat) (w : World WalProcess) :
    Ends (evictOverBudget env recordSize rounds) w (fun _ w' => Accepted c env [] w w') fun _ => True := by
  induction rounds generalizing w with
  | zero => exact ends_pure (.of_disk rfl)
  | succ rounds ih =>
      refine ends_bind (ends_get ?_)
      dsimp only
      split
      · refine ends_bind (Ends.mono (accepts_evictOldest c env w) ?_ fun _ h => h)
        intro evicted w₁ first
        cases evicted with
        | false => exact ends_pure first
        | true => exact (ih w₁).mono (fun _ _ rest => first.append rest) fun _ h => h
      · exact ends_pure (.of_disk rfl)

theorem readies_makeReady (c : Codec V) (env : Surroundings) (v : V) (w : World WalProcess) :
    Ends (makeReady c env v) w
      (fun _ wr => ∃ w₁, Accepted c env [] w w₁ ∧ disk wr = (disk w₁).readied c env v) fun _ => True := by
  refine ends_bind (ends_get (ends_bind (Ends.mono (accepts_evictOverBudget c env _ _ w) ?_ fun _ h => h)))
  intro _ w₁ trimmed
  refine ends_bind (ends_get ?_)
  split
  · rename_i turns
    exact ends_rotateSegment (fun _ _ => trivial) fun w' rotated => ⟨w₁, trimmed, rotated.trans (if_pos turns).symm⟩
  · rename_i stays
    exact ends_pure ⟨w₁, trimmed, (if_neg stays).symm⟩

theorem recordBytes_eq (c : Codec V) (v : V) :
    toBeBytes 4 (c.toVec v).length ++ c.toVec v ++ [sentinel] = recordBytes c v := List.append_assoc _ _ _

theorem appends_appendRecord (v : V) (current : (disk w).current ≠ none) :
    Ends (appendRecord env (c.toVec v)) w (fun _ w' => disk w' = (disk w).append (recordBytes c v))
      fun _ => True := by
  obtain ⟨path, there⟩ := Option.ne_none_iff_exists'.mp current
  obtain ⟨seg, writer, _⟩ := Option.map_eq_some_iff.mp there
  have current' : w.proc.wal.currentSegment = some seg := writer
  refine ends_appendRecord current' _ (fun _ _ _ => trivial) fun _ _ _ => ?_
  rw [recordBytes_eq]
  simp only [disk, Disk.append, current', length_recordBytes, recordSize]
  rfl

theorem Store.Sound.append (h : d.store.Sound c) {v : V} (fits : c.Fits v) (current : d.current ≠ none) :
    (d.append (recordBytes c v)).store.Sound c := by
  obtain ⟨path, there⟩ := Option.ne_none_iff_exists'.mp current
  obtain ⟨seg, writer, _⟩ := Option.map_eq_some_iff.mp there
  refine move_sound h ?_ (Disk.store_append c millisApart writer v)
  intro u member
  rw [List.mem_singleton.mp member]
  exact fits

theorem Store.Sound.readied (h : d.store.Sound c) (v : V) : (d.readied c env v).store.Sound c := by
  unfold Disk.readied
  split
  · rw [Disk.store_rotated]
    exact move_sound (m := (.rotate : Move V)) h nofun rfl
  · exact h

theorem Disk.readied_current_ne (v : V) : (d.readied c env v).current ≠ none := by
  obtain ⟨seg, writer⟩ := d.readied_current c env v
  rw [current, writer]
  exact Option.some_ne_none _

theorem accepts_writeItem (v : V) (w : World WalProcess) :
    Ends (writeItem c env v) w (fun _ w' => Accepted c env [v] w w') fun _ => True := by
  rw [writeItem_eq]
  refine ends_bind (Ends.mono (readies_makeReady c env v w) ?_ fun _ h => h)
  rintro _ wr ⟨w₁, trimmed, ready⟩
  have current : (disk wr).current ≠ none := by
    rw [ready]
    exact Disk.readied_current_ne v
  refine (appends_appendRecord v current).mono (fun _ w' appended => ?_) fun _ h => h
  have put : disk w' = (disk w₁).put c env v := by rw [appended, ready, Disk.put]
  have stored : Accepted c env [v] w₁ w' := by
    refine ⟨?_, .inl put⟩
    intro sound fits
    rw [store_eq, appended, ready]
    exact (sound.readied v).append (fits v (List.mem_singleton_self v)) (Disk.readied_current_ne v)
  exact trimmed.append stored

theorem accepts_writeItems (items : List V) (w : World WalProcess) :
    Ends (writeItems c env items) w (fun _ w' => Accepted c env items w w') fun _ => True := by
  induction items generalizing w with
  | nil => exact ends_pure (.of_disk rfl)
  | cons v rest ih =>
      refine ends_bind (Ends.mono (accepts_writeItem v w) ?_ fun _ h => h)
      intro _ w₁ first
      exact (ih w₁).mono (fun _ _ later => first.append later) fun _ h => h

theorem accepts_writeBatch (items : List V) (w : World WalProcess) :
    Ends (writeBatch c env items) w
      (fun _ w' => ∃ w₁, Accepted c env items w w₁ ∧ (disk w' = disk w₁ ∨ disk w' = (disk w₁).synced))
      fun _ => True := by
  unfold writeBatch
  split
  · rename_i empty
    cases List.isEmpty_iff.mp empty
    exact ends_pure ⟨w, .of_disk rfl, .inl rfl⟩
  · refine ends_bind (Ends.mono (accepts_writeItems items w) (fun _ w₁ stored => ?_) fun _ h => h)
    refine ends_bind (ends_syncCurrent (fun _ _ => trivial) fun w₂ synced => ?_)
    exact ends_bind (ends_modify (ends_syncGauges fun w₃ same => ⟨w₁, stored, .inr (same.trans synced)⟩))

theorem store_of_synced (same : disk w' = disk w ∨ disk w' = (disk w).synced) : store w' = store w := by
  rw [store_eq, store_eq]
  rcases same with same | synced
  · rw [same]
  · rw [synced, Disk.store_synced]

theorem ends_readSegment_disk (name : String) (maxItems : Nat) (w : World WalProcess) :
    Ends (readSegment c env name maxItems) w (fun _ w' => disk w' = disk w) fun _ => True := by
  refine ends_bind (ends_bind (ends_nextCall ?_))
  cases env.fault w.calls with
  | some n => exact ends_throw trivial
  | none =>
      refine ends_bind (ends_get ?_)
      cases w.called.files.lookup name with
      | none => exact ends_throw trivial
      | some f =>
          refine ends_bind (ends_nextCall (ends_pure ?_))
          split
          · exact ends_pure rfl
          · exact ends_throw trivial

theorem keeps_drainOnce (maxItems : Nat) (sound : (store w).Sound c) :
    Ends (drainOnce c env maxItems) w (fun _ w' => (store w').Sound c) fun _ => True := by
  refine ends_bind (ends_bind (ends_sortedSegments trivial fun names _ _ => ?_))
  refine ends_bind (ends_bind (ends_get (ends_pure ?_)))
  have current : w.called.proc.wal.currentSegment.map SegmentWriter.path = (disk w).current := rfl
  rw [current]
  cases oldest : oldestCompleted (segmentNames names) (disk w).current with
  | none => exact ends_pure (ends_pure sound)
  | some path =>
      refine ends_bind (Ends.mono (ends_readSegment_disk path maxItems w.called) ?_ fun _ h => h)
      intro items w₁ same
      refine ends_pure (ends_bind (ends_removal (fun _ _ => trivial) fun f size w₂ _ less => ?_))
      refine ends_bind (ends_modify (ends_syncGauges fun w₃ same' => ends_pure ?_))
      have unread : disk w₁ = disk w := same
      have kept : (store w₂).Sound c := by
        rw [store_eq, less, unread]
        exact Store.Sound.less sound (oldestCompleted_some oldest).2 size
      rw [store_of_disk same']
      exact kept

theorem keeps_openWal (maxBytes segmentMaxBytes : Nat) (sound : (store w).Sound c) :
    Ends (openWal env maxBytes segmentMaxBytes) w (fun _ w' => (store w').Sound c) fun _ => True := by
  refine ends_openWal maxBytes segmentMaxBytes (fun _ _ => trivial) fun names w' _ fresh => ?_
  rw [store_eq, fresh]
  exact ⟨sound.clean, sound.only, nofun⟩

/-- In every state that is reached by operations that return the buffer is in order. -/
theorem reached_sound {ops : List (WalOp V)} (run : Run (Returns c env) emptyWorld ops w)
    (fits : ∀ v ∈ offeredBy ops, c.Fits v) : (store w).Sound c := by
  refine run.keeps_history (P := fun past w => (∀ v ∈ offeredBy past, c.Fits v) → (store w).Sound c)
    ?_ (fun _ => ⟨nofun, nofun, nofun⟩) fits
  intro past w op w' sound returned fits
  rw [offeredBy, List.flatMap_append] at fits
  obtain ⟨before, now⟩ := List.forall_mem_append.mp fits
  cases op with
  | reopen maxBytes segmentMaxBytes =>
      exact (keeps_openWal maxBytes segmentMaxBytes (sound before)).of_ok returned
  | call call =>
      cases call with
      | drain maxItems =>
          obtain ⟨_, returned⟩ := returned
          exact (keeps_drainOnce maxItems (sound before)).of_ok returned
      | write items =>
          obtain ⟨w₁, stored, same⟩ := (accepts_writeBatch items w).of_ok returned
          rw [store_of_synced same]
          refine stored.sound (sound before) fun v member => now v ?_
          simpa only [List.flatMap_singleton, offered] using member

theorem CutShort.isPrefix {calls : Nat} {bs part : Bytes} (h : CutShort env calls bs part) :
    part <+: toBeBytes 4 bs.length ++ bs ++ [sentinel] := by
  cases h with
  | header => exact (List.take_prefix _ _).trans ((List.prefix_append _ _).trans (List.prefix_append _ _))
  | @payload n => exact ((List.prefix_append_right_inj _).mpr (List.take_prefix n bs)).trans (List.prefix_append _ _)
  | @mark n => exact (List.prefix_append_right_inj _).mpr (List.take_prefix n [sentinel])

theorem BreaksAt.error {batch : List V} {wr w₁ : World WalProcess} {v : V}
    (h : BreaksAt c env batch w wr v w₁) : ∃ e, writeBatch c env batch w = .error e w₁ := by
  have items : ∃ e, writeItems c env batch w = .error e w₁ := by
    induction h with
    | @here v rest w wr w₁ e ready fails =>
        refine ⟨e, ?_⟩
        simp only [writeItems, writeItem_eq, bind, EStateM.bind, ready, fails]
    | later first _ ih =>
        obtain ⟨e, fails⟩ := ih
        refine ⟨e, ?_⟩
        simp only [writeItems, bind, EStateM.bind, first, fails]
  obtain ⟨e, fails⟩ := items
  refine ⟨e, ?_⟩
  have some_items : batch.isEmpty = false := by
    cases h <;> rfl
  simp only [writeBatch, some_items, Bool.false_eq_true, if_false, bind, EStateM.bind, fails]

theorem BreaksAt.after_eq {batch : List V} {wr w₁ : World WalProcess} {v : V}
    (h : BreaksAt c env batch w wr v w₁) : after (writeBatch c env batch) w = w₁ := by
  obtain ⟨e, fails⟩ := h.error
  rw [after, fails]

theorem BreaksAt.spec {batch : List V} {wr w₁ : World WalProcess} {v : V} (h : BreaksAt c env batch w wr v w₁)
    (sound : (store w).Sound c) (fits : ∀ v ∈ batch, c.Fits v) :
    (store wr).Sound c ∧ c.Fits v ∧ ∃ seg part, wr.proc.wal.currentSegment = some seg ∧
      part <+: recordBytes c v ∧ w₁.proc = wr.proc ∧ w₁.readings = wr.readings ∧
      w₁.files = Files.written wr.files seg.path part := by
  induction h with
  | @here v rest w wr w₁ e ready fails =>
      obtain ⟨here, later⟩ := List.forall_mem_cons.mp fits
      obtain ⟨w', trimmed, readied⟩ := (readies_makeReady c env v w).of_ok ready
      have inOrder : (store wr).Sound c := by
        rw [store_eq, readied]
        exact (trimmed.sound sound (List.forall_mem_nil _)).readied v
      obtain ⟨seg, writer⟩ := (disk w').readied_current c env v
      have current : wr.proc.wal.currentSegment = some seg := by
        rw [← writer, ← readied]
        rfl
      refine ⟨inOrder, here, seg, ?_⟩
      have cut : Ends (appendRecord env (c.toVec v)) wr (fun _ _ => True) fun w' => ∃ part,
          part <+: recordBytes c v ∧ w'.proc = wr.proc ∧ w'.readings = wr.readings ∧
            w'.files = Files.written wr.files seg.path part :=
        ends_appendRecord current _ (fun part _ short => ⟨part, recordBytes_eq c v ▸ short.isPrefix, rfl, rfl, rfl⟩)
          fun _ _ _ => trivial
      obtain ⟨part, facts⟩ := cut.of_error fails
      exact ⟨part, current, facts⟩
  | later first _ ih =>
      obtain ⟨here, later⟩ := List.forall_mem_cons.mp fits
      refine ih (((accepts_writeItem _ _).of_ok first).sound sound ?_) later
      exact List.forall_mem_singleton.mpr here

theorem store_written {seg : SegmentWriter} {part : Bytes} (current : w.proc.wal.currentSegment = some seg)
    (process : w'.proc = w.proc) (files : w'.files = Files.written w.files seg.path part) :
    (store w').current = some seg.path ∧ (store w').files = (store w).files.modify seg.path (· ++ part) := by
  refine ⟨?_, ?_⟩
  · simp only [store, process, current, Option.map_some]
  · simp only [store, files]
    exact AList.mapVals_modify (g := DiskFile.bytes) (fun _ => rfl) w.files seg.path

theorem fileSize_of_store {name : String} {bytes : Bytes} (found : (store w).files.lookup name = some bytes) :
    fileSize w.files name = bytes.length := by
  simp only [store, AList.lookup_mapVals, Option.map_eq_some_iff] at found
  obtain ⟨f, there, rfl⟩ := found
  exact fileSize_of_lookup there

theorem leftTorn_iff {wr w₁ : World WalProcess} {v : V} {path : String} {bytes part : Bytes}
    (current : (disk wr).current = some path) (before : (store wr).files.lookup path = some bytes)
    (after : (store w₁).files.lookup path = some (bytes ++ part)) :
    LeftTorn c wr v w₁ ↔ 0 < part.length ∧ part.length < recordSize c v := by
  have old := fileSize_of_store before
  have new := fileSize_of_store after
  rw [List.length_append] at new
  constructor
  · rintro ⟨name, there, more, less⟩
    cases current.symm.trans there
    omega
  · rintro ⟨more, less⟩
    exact ⟨path, current, by omega, by omega⟩

/-- The log after the write, its records, and that it ends with a whole record if none is torn. -/
theorem log_broken {wr w₁ : World WalProcess} {v : V} {seg : SegmentWriter} {part : Bytes}
    {log : List (String × Bytes)} (rt : c.RoundTrips) (sound : (store wr).Sound c) (fits : c.Fits v)
    (current : wr.proc.wal.currentSegment = some seg) (inside : part <+: recordBytes c v)
    (process : w₁.proc = wr.proc) (files : w₁.files = Files.written wr.files seg.path part)
    (h : Log (store wr) log) :
    ∃ log₁ failed, Log (store w₁) log₁ ∧ log₁.map Prod.fst = log.map Prod.fst ∧ (failed = [] ∨ failed = [v]) ∧
      logValues c log₁ = logValues c log ++ failed ∧ (¬LeftTorn c wr v w₁ → HeadWhole c log₁) := by
  have path : (store wr).current = some seg.path := by simp only [store, current, Option.map_some]
  obtain ⟨current', files'⟩ := store_written current process files
  obtain ⟨bytes, rest, rfl⟩ := log_of_newest (h.current.trans path)
  have after := h.putNewest current' files'
  have found : (store wr).files.lookup seg.path = some bytes := h.files _ List.mem_cons_self
  have whole : Whole c bytes := sound.clean _ _ found
  have values : ∀ bs, logValues c ((seg.path, bs) :: rest) = logValues c rest ++ records c bs := by
    intro bs
    simp only [logValues, List.reverse_cons, List.flatMap_append, List.flatMap_singleton]
  have bound := inside.length_le
  rw [length_recordBytes] at bound
  by_cases all : part.length = recordSize c v
  · have record : part = recordBytes c v := inside.eq_of_length (all.trans (length_recordBytes c v).symm)
    subst record
    refine ⟨_, [v], after, rfl, .inr rfl, ?_, ?_⟩
    · rw [values, values, whole.records_append rt fits, List.append_assoc]
    · rintro _ _ ⟨⟩
      exact whole.append fits
  · have short : part.length < recordSize c v := by omega
    refine ⟨_, [], after, rfl, .inl rfl, ?_, ?_⟩
    · rw [values, values, whole.records_torn rt fits inside short, List.append_nil]
    · rw [leftTorn_iff path found (after.files _ List.mem_cons_self)]
      rintro intact _ ⟨⟩
      have nothing : part = [] := List.length_eq_zero_iff.mp (by omega)
      rw [nothing]
      rwa [List.append_nil]

/-- After operations that returned, a write that fails and a batch that is then stored without evictions,
reading the files in the order in which they were begun finds what was readable before the write, then the
record whose write failed or nothing, and then the batch. -/
theorem failed_write_harmless (rt : c.RoundTrips) {ops : List (WalOp V)} {wr w₁ w₂ : World WalProcess}
    {batch items : List V} {v : V} {names : List String}
    (run : Run (Returns c env) emptyWorld ops w) (fits : ∀ v ∈ offeredBy ops, c.Fits v)
    (breaks : BreaksAt c env batch w wr v w₁) (fitsBatch : ∀ v ∈ batch, c.Fits v)
    (wrote : writeBatch c env items w₁ = .ok () w₂) (fitsItems : ∀ v ∈ items, c.Fits v)
    (kept : w₂.proc.metrics.bufferEvicted = w₁.proc.metrics.bufferEvicted)
    (listed : names.Perm wr.files.keys) (newest : names.head? = (disk wr).current)
    (clear : StaysClear c env names wr v w₁ items) :
    ∃ prior failed, (failed = [] ∨ failed = [v]) ∧
      ∀ (reading : Surroundings) (maxItems : Nat), reading.Faultless →
        (prior ++ failed ++ items).length ≤ maxItems →
          (∃ w', readSegments c reading maxItems names.reverse wr = .ok prior w') ∧
          ∃ w', readSegments c reading maxItems (((disk w₁).targets c env items).foldl begun names).reverse w₂ =
            .ok (prior ++ failed ++ items) w' := by
  obtain ⟨sound, fitsV, seg, part, current, inside, process, _, files⟩ :=
    breaks.spec (reached_sound run fits) fitsBatch
  have listed' : names.Perm (store wr).files.keys := by rwa [store, AList.keys_mapVals]
  obtain ⟨log, before, same⟩ := log_of_names listed' newest
  obtain ⟨log₁, failed, broken, same₁, outcome, values, whole⟩ :=
    log_broken rt sound fitsV current inside process files before
  rw [same] at same₁
  obtain ⟨w', stored, synced⟩ := (accepts_writeBatch items w₁).of_ok wrote
  have evicted : (disk w').evicted = (disk w₁).evicted := by
    have unchanged := congrArg Store.evicted (store_of_synced synced)
    exact unchanged.symm.trans kept
  have put : disk w' = items.foldl (Disk.put c env) (disk w₁) :=
    stored.kept.resolve_right fun more => Nat.lt_irrefl _ (evicted ▸ more)
  have after := broken.puts (d := disk w₁) items (by rw [same₁]; exact clear.fresh)
  rw [← put, ← store_eq, ← store_of_synced synced] at after
  have framed : HeadWhole c log₁ ∨
      (((disk w₁).placements c env items).map Prod.snd).head? ≠ (log₁.map Prod.fst).head? := by
    by_cases torn : LeftTorn c wr v w₁
    · refine .inr ?_
      rw [broken.current]
      exact clear.framed torn
    · exact .inl (whole torn)
  have all : logValues c (writeAllTo c log₁ ((disk w₁).placements c env items)) = logValues c log ++ failed ++ items := by
    rw [logValues_writeAllTo rt _ framed, values, placements_values]
    intro p member
    have listed : p.1 ∈ ((disk w₁).placements c env items).map Prod.fst := List.mem_map_of_mem member
    rw [placements_values] at listed
    exact fitsItems p.1 listed
  refine ⟨logValues c log, failed, outcome, ?_⟩
  intro reading maxItems faultless unlimited
  refine ⟨?_, ?_⟩
  · rw [← same]
    refine yields_readLog faultless before.files (le_trans ?_ unlimited)
    rw [List.append_assoc, List.length_append]
    exact Nat.le_add_right _ _
  · have names' : (writeAllTo c log₁ ((disk w₁).placements c env items)).map Prod.fst =
        ((disk w₁).targets c env items).foldl begun names := by
      rw [writeAllTo_names, same₁, Disk.targets]
    rw [← names', ← all]
    exact yields_readLog faultless after.files (all ▸ unlimited)

end Returning

def firstRecord {V : Type} (v : V) : List (WalOp V) := [.reopen 1000000 1000000, .call (.write [v])]

def afterFirst {V : Type} (c : Codec V) (env : Surroundings) (v : V) : World WalProcess :=
  after (writeBatch c env [v]) (after (openWal env 1000000 1000000) emptyWorld)

theorem firstRecord_returns {V : Type} (c : Codec V) (env : Surroundings) (v : V)
    (opens : result (openWal env 1000000 1000000) emptyWorld = some ())
    (writes : result (writeBatch c env [v]) (after (openWal env 1000000 1000000) emptyWorld) = some ()) :
    Run (Returns c env) emptyWorld (firstRecord v) (afterFirst c env v) :=
  .cons (run_of_result opens) (.cons (run_of_result writes) (.nil _))

/-- The writer goes on behind three bytes of the payload of the second record, and neither of the two is
found. -/
theorem torn_record_hides_batch :
    let env := failingOnce 11 3
    ∃ wr w₁ w₂, Run (Returns onlineCodec env) emptyWorld (firstRecord 1) (afterFirst onlineCodec env 1) ∧
      BreaksAt onlineCodec env [2] (afterFirst onlineCodec env 1) wr 2 w₁ ∧ writeBatch onlineCodec env [3] w₁ = .ok () w₂ ∧
      w₂.proc.metrics.bufferEvicted = w₁.proc.metrics.bufferEvicted ∧ w₂.files.keys = wr.files.keys ∧
      (∃ w', readSegments onlineCodec millisApart 10 w₂.files.keys wr = .ok [1] w') ∧
      ∃ w', readSegments onlineCodec millisApart 10 w₂.files.keys w₂ = .ok [1] w' := by
  intro env
  let wr := after (makeReady onlineCodec env 2) (afterFirst onlineCodec env 1)
  let w₁ := after (appendRecord env (onlineCodec.toVec 2)) wr
  let w₂ := after (writeBatch onlineCodec env [3]) w₁
  have first := firstRecord_returns onlineCodec env 1 (by decide +kernel) (by decide +kernel)
  have ready : makeReady onlineCodec env 2 (afterFirst onlineCodec env 1) = .ok () wr := run_of_result (by decide +kernel)
  obtain ⟨e, fails⟩ : ∃ e, appendRecord env (onlineCodec.toVec 2) wr = .error e w₁ :=
    run_of_no_result (by decide +kernel)
  refine ⟨wr, w₁, w₂, first, .here ready fails, run_of_result (by decide +kernel), by decide +kernel,
    by decide +kernel, ?_, ?_⟩
  · exact ⟨_, run_of_result (by decide +kernel)⟩
  · exact ⟨_, run_of_result (by decide +kernel)⟩

/-- The write of the second record fails before anything is put out. -/
theorem failed_write_harmless_nothingOut :
    let env := failingOnce 10 0
    let w₁ := after (writeBatch onlineCodec env [2]) (afterFirst onlineCodec env 1)
    let w₂ := after (writeBatch onlineCodec env [3, 4]) w₁
    ∃ failed : List (Fin 10), ∃ w', (failed = [] ∨ failed = [2]) ∧
      readSegments onlineCodec millisApart ([1] ++ failed ++ [3, 4]).length w₂.files.keys w₂ =
        .ok ([1] ++ failed ++ [3, 4]) w' := by
  intro env w₁ w₂
  let wr := after (makeReady onlineCodec env 2) (afterFirst onlineCodec env 1)
  have first := firstRecord_returns onlineCodec env 1 (by decide +kernel) (by decide +kernel)
  have ready : makeReady onlineCodec env 2 (afterFirst onlineCodec env 1) = .ok () wr := run_of_result (by decide +kernel)
  obtain ⟨e, fails⟩ := run_of_no_result (m := appendRecord env (onlineCodec.toVec 2)) (w := wr) (by decide +kernel)
  have breaks : BreaksAt onlineCodec env [2] (afterFirst onlineCodec env 1) wr 2 _ := .here ready fails
  rw [← breaks.after_eq] at breaks
  have wrote : writeBatch onlineCodec env [3, 4] w₁ = .ok () w₂ := run_of_result (by decide +kernel)
  have listed : w₂.files.keys.Perm wr.files.keys := by decide +kernel
  have clear : StaysClear onlineCodec env w₂.files.keys wr 2 w₁ [3, 4] := by decide +kernel
  obtain ⟨prior, failed, outcome, reads⟩ := failed_write_harmless onlineCodec_roundTrips first (by decide +kernel)
    breaks (by decide +kernel) wrote (by decide +kernel) (by decide +kernel) listed (by decide +kernel) clear
  obtain ⟨⟨w₀, earlier⟩, w', found⟩ := reads millisApart _ (fun _ => rfl) le_rfl
  have only : prior = [1] := by
    let log := w₂.files.keys.map fun name => (name, ((store wr).files.lookup name).getD [])
    have names : log.map Prod.fst = w₂.files.keys := by decide +kernel
    have values : logValues onlineCodec log = [1] := by decide +kernel
    have room : (logValues onlineCodec log).length ≤ (prior ++ failed ++ [3, 4]).length := by
      rw [values, List.length_append]
      exact Nat.le_add_left_of_le (by decide)
    obtain ⟨w', found⟩ : ∃ w', readSegments onlineCodec millisApart _ (log.map Prod.fst).reverse wr =
        .ok (logValues onlineCodec log) w' := yields_readLog (fun _ => rfl) (by decide +kernel) room
    rw [names, values, earlier] at found
    cases found
    rfl
  have order : (((disk w₁).targets onlineCodec env [3, 4]).foldl begun w₂.files.keys).reverse = w₂.files.keys := by
    decide +kernel
  rw [order, only] at found
  exact ⟨failed, w', outcome, found⟩

end ServerPoller
