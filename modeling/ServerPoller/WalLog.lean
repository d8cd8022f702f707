import ServerPoller.WalAcceptance
import ServerPoller.WalDurability

/-! The segments in the order in which they were begun. A batch that evicts nothing and begins no file a
second time goes behind what is there, and reading finds it there if it goes behind whole records. -/

namespace ServerPoller
open DirectoryIo Numerals Transition

/-- The files of a buffer with their bytes, in the order in which they were begun, the newest first. -/
structure Log (s : Store) (log : List (String × Bytes)) : Prop where
  files : ∀ part ∈ log, s.files.lookup part.1 = some part.2
  all : ∀ name ∈ s.files, name ∈ log.map Prod.fst
  nodup : (log.map Prod.fst).Nodup
  current : (log.map Prod.fst).head? = s.current

def writeTo (bytes : Bytes) (target : String) : List (String × Bytes) → List (String × Bytes)
  | [] => [(target, bytes)]
  | part :: rest => if part.1 = target then (target, part.2 ++ bytes) :: rest else (target, bytes) :: part :: rest

section Placing
variable {V : Type} (c : Codec V) (env : Surroundings)

def Disk.put (d : Disk) (v : V) : Disk := (d.readied c env v).append (recordBytes c v)

/-- The files to which the writer in this state puts the records of a batch. -/
def Disk.targets (d : Disk) (items : List V) : List String := (d.placements c env items).map Prod.snd

def begun (names : List String) (target : String) : List String :=
  if names.head? = some target then names else target :: names

end Placing

section Logs
variable {V : Type} {c : Codec V} {env : Surroundings} {w : World WalProcess} {d : Disk}

theorem log_of_names {s : Store} {names : List String} (listed : names.Perm s.files.keys)
    (newest : names.head? = s.current) : ∃ log, Log s log ∧ log.map Prod.fst = names := by
  have same : (names.map fun name => (name, (s.files.lookup name).getD [])).map Prod.fst = names := by
    rw [List.map_map]
    exact List.map_id names
  refine ⟨_, ⟨?_, ?_, ?_, ?_⟩, same⟩
  · refine List.forall_mem_map.mpr fun name member => ?_
    have there : name ∈ s.files := AList.mem_keys.mpr (listed.mem_iff.mp member)
    obtain ⟨bytes, found⟩ := AList.exists_lookup_iff_mem.mpr there
    rw [found]
    rfl
  · intro name there
    rw [same]
    exact listed.mem_iff.mpr (AList.mem_keys.mp there)
  · rw [same]
    exact listed.nodup_iff.mpr s.files.keys_nodup
  · rw [same, newest]

theorem writeTo_names (bytes : Bytes) (target : String) (log : List (String × Bytes)) :
    (writeTo bytes target log).map Prod.fst = begun (log.map Prod.fst) target := by
  unfold begun
  cases log with
  | nil => rfl
  | cons part rest =>
      by_cases same : part.1 = target
      · simp [writeTo, same]
      · simp [writeTo, same]

/-- A turn of the loop puts the record to its target, which it opens if need be. -/
theorem store_put (c : Codec V) (env : Surroundings) (v : V) (rest : List V) (on_disk : d.store.CurrentOnDisk) :
    ∃ target, d.placements c env (v :: rest) = (v, target) :: (d.put c env v).placements c env rest ∧
      (d.put c env v).store.current = some target ∧
      (d.put c env v).store.files = (if target ∈ d.store.files then d.store.files
        else d.store.files.insert target []).modify target (· ++ recordBytes c v) := by
  obtain ⟨writer, readings, limit⟩ := d.readied_next c env v
  generalize next : nextSegment env d.wal.segmentMaxBytes d.wal.currentSegment d.readings (recordSize c v) =
    chosen at writer readings
  refine ⟨chosen.1.path, ?_, ?_, ?_⟩
  · simp only [Disk.placements, ServerPoller.placements, next, Disk.put, Disk.append, writer, readings, limit,
      length_recordBytes]
  · simp only [Disk.put, Disk.store, Disk.current, Disk.append, writer, Option.map_some]
  · obtain ⟨target, current, after⟩ := move_append (Disk.store_append c env writer v)
    have path : (d.readied c env v).store.current = some chosen.1.path := by
      simp only [Disk.store, Disk.current, writer, Option.map_some]
    cases current.symm.trans path
    rw [Disk.put, after]
    show (d.readied c env v).store.files.modify _ _ = _
    congr 1
    unfold Disk.readied at path ⊢
    split at path
    · rename_i turns
      rw [if_pos turns, Disk.store_rotated]
      rw [Disk.store_rotated] at path
      have name : segmentName (env.clock d.store.readings) = chosen.1.path := Option.some.inj path
      rw [← name]
      rfl
    · rename_i stays
      rw [if_neg stays, if_pos (on_disk _ path)]

theorem Log.putNewest {s t : Store} {rest : List (String × Bytes)} {old bytes : Bytes} {target : String}
    (h : Log s ((target, old) :: rest)) (current : t.current = some target)
    (files : t.files = s.files.modify target (· ++ bytes)) : Log t ((target, old ++ bytes) :: rest) where
  files := by
    obtain ⟨here, others⟩ := List.forall_mem_cons.mp h.files
    have apart : target ∉ rest.map Prod.fst := (List.nodup_cons.mp h.nodup).1
    rw [files]
    refine List.forall_mem_cons.mpr ⟨?_, fun part member => ?_⟩
    · rw [AList.lookup_modify, here, Option.map_some]
    · have other : part.1 ≠ target := by
        rintro rfl
        exact apart (List.mem_map_of_mem member)
      rw [AList.lookup_modify_ne other]
      exact others part member
  all := by
    intro name listed
    rw [files, AList.mem_keys, AList.keys_modify] at listed
    exact h.all name listed
  nodup := h.nodup
  current := current.symm

theorem Log.putNew {s t : Store} {log : List (String × Bytes)} {bytes : Bytes} {target : String} (h : Log s log)
    (unknown : target ∉ log.map Prod.fst) (current : t.current = some target)
    (files : t.files = (s.files.insert target []).modify target (· ++ bytes)) : Log t ((target, bytes) :: log) where
  files := by
    rw [files]
    refine List.forall_mem_cons.mpr ⟨?_, fun part member => ?_⟩
    · rw [AList.lookup_modify, AList.lookup_insert]
      rfl
    · have other : part.1 ≠ target := by
        rintro rfl
        exact unknown (List.mem_map_of_mem member)
      rw [AList.lookup_modify_ne other, AList.lookup_insert_ne other]
      exact h.files part member
  all := by
    intro name listed
    rw [files, AList.mem_keys, AList.keys_modify, ← AList.mem_keys, AList.mem_insert] at listed
    rcases listed with rfl | before
    · exact List.mem_cons_self
    · exact List.mem_cons_of_mem _ (h.all name before)
  nodup := List.nodup_cons.mpr ⟨unknown, h.nodup⟩
  current := current.symm

theorem log_of_newest {log : List (String × Bytes)} {target : String}
    (newest : (log.map Prod.fst).head? = some target) : ∃ old rest, log = (target, old) :: rest := by
  cases log with
  | nil => cases newest
  | cons part rest => exact ⟨part.2, rest, by rw [← Option.some.inj newest]⟩

theorem Log.put {s t : Store} {log : List (String × Bytes)} {bytes : Bytes} {target : String} (h : Log s log)
    (current : t.current = some target)
    (files : t.files = (if target ∈ s.files then s.files else s.files.insert target []).modify target (· ++ bytes))
    (fresh : (begun (log.map Prod.fst) target).Nodup) : Log t (writeTo bytes target log) := by
  by_cases newest : (log.map Prod.fst).head? = some target
  · obtain ⟨old, rest, rfl⟩ := log_of_newest newest
    have there : target ∈ s.files := AList.exists_lookup_iff_mem.mp ⟨old, h.files _ List.mem_cons_self⟩
    rw [if_pos there] at files
    have after : writeTo bytes target ((target, old) :: rest) = (target, old ++ bytes) :: rest := if_pos rfl
    rw [after]
    exact h.putNewest current files
  · rw [begun, if_neg newest] at fresh
    have unknown := (List.nodup_cons.mp fresh).1
    have absent : target ∉ s.files := fun there => unknown (h.all target there)
    rw [if_neg absent] at files
    have after : writeTo bytes target log = (target, bytes) :: log := by
      cases log with
      | nil => rfl
      | cons part rest => exact if_neg fun same => newest (congrArg some same)
    rw [after]
    exact h.putNew unknown current files

theorem begun_suffix (names : List String) (target : String) : names <:+ begun names target := by
  unfold begun
  split
  · exact List.suffix_rfl
  · exact List.suffix_cons _ _

theorem foldl_begun_suffix (names targets : List String) : names <:+ targets.foldl begun names := by
  induction targets generalizing names with
  | nil => exact List.suffix_rfl
  | cons target rest ih => exact (begun_suffix names target).trans (ih _)

def writeAllTo (c : Codec V) (log : List (String × Bytes)) (placed : List (V × String)) : List (String × Bytes) :=
  placed.foldl (fun log p => writeTo (recordBytes c p.1) p.2 log) log

theorem writeAllTo_names (log : List (String × Bytes)) (placed : List (V × String)) :
    (writeAllTo c log placed).map Prod.fst = (placed.map Prod.snd).foldl begun (log.map Prod.fst) := by
  induction placed generalizing log with
  | nil => rfl
  | cons p rest ih =>
      have later := ih (writeTo (recordBytes c p.1) p.2 log)
      rwa [writeTo_names] at later

theorem Store.CurrentOnDisk.of_log {s : Store} {log : List (String × Bytes)} (h : Log s log) : s.CurrentOnDisk := by
  intro name current
  rw [← h.current] at current
  obtain ⟨part, member, rfl⟩ := List.mem_map.mp (List.mem_of_head? current)
  exact AList.exists_lookup_iff_mem.mp ⟨part.2, h.files part member⟩

/-- What a batch that evicts nothing does to the files, if it begins none of them a second time. -/
theorem Log.puts {log : List (String × Bytes)} (items : List V) (h : Log d.store log)
    (fresh : ((d.targets c env items).foldl begun (log.map Prod.fst)).Nodup) :
    Log (items.foldl (Disk.put c env) d).store (writeAllTo c log (d.placements c env items)) := by
  induction items generalizing d log with
  | nil => exact h
  | cons v rest ih =>
      obtain ⟨target, placed, current, files⟩ := store_put c env v rest (.of_log h)
      rw [Disk.targets, placed, List.map_cons, List.foldl_cons] at fresh
      have one := h.put current files (fresh.sublist (foldl_begun_suffix _ _).sublist)
      rw [← writeTo_names (recordBytes c v)] at fresh
      rw [placed]
      exact ih one fresh

/-- The records of the files in the order in which they were begun. -/
def logValues (c : Codec V) (log : List (String × Bytes)) : List V := log.reverse.flatMap fun part => records c part.2

def Whole (c : Codec V) (bytes : Bytes) : Prop := ∃ vs, bytes = encodeAll c vs ∧ ∀ v ∈ vs, c.Fits v

theorem Whole.append {bytes : Bytes} (h : Whole c bytes) {v : V} (fits : c.Fits v) :
    Whole c (bytes ++ recordBytes c v) := by
  obtain ⟨vs, rfl, all⟩ := h
  refine ⟨vs ++ [v], by rw [encodeAll_append, encodeAll_singleton], ?_⟩
  exact List.forall_mem_append.mpr ⟨all, List.forall_mem_singleton.mpr fits⟩

theorem Whole.records_append {bytes : Bytes} (h : Whole c bytes) (rt : c.RoundTrips) {v : V} (fits : c.Fits v) :
    records c (bytes ++ recordBytes c v) = records c bytes ++ [v] := by
  obtain ⟨vs, rfl, all⟩ := h
  rw [← encodeAll_singleton, ← encodeAll_append, records_encodeAll c all rt, records_encodeAll c _ rt]
  exact List.forall_mem_append.mpr ⟨all, List.forall_mem_singleton.mpr fits⟩

theorem whole_nil : Whole c [] := ⟨[], rfl, List.forall_mem_nil _⟩

/-- Nothing is found of a record that is cut short. -/
theorem Whole.records_torn {bytes part : Bytes} (h : Whole c bytes) (rt : c.RoundTrips) {v : V} (fits : c.Fits v)
    (inside : part <+: recordBytes c v) (short : part.length < recordSize c v) :
    records c (bytes ++ part) = records c bytes := by
  obtain ⟨vs, rfl, all⟩ := h
  obtain ⟨fs, frames, values⟩ := encodeAll_as_frames c all rt
  have torn : Torn part := ⟨recordFrame fits, inside, by rwa [recordFrame_bytes, length_recordBytes]⟩
  rw [records_encodeAll c all rt, frames, records_frames c (readRecord_torn c torn), values]

def HeadWhole (c : Codec V) (log : List (String × Bytes)) : Prop := ∀ part ∈ log.head?, Whole c part.2

/-- A record is found behind the others if it begins a file or goes behind whole records. -/
theorem logValues_writeTo {log : List (String × Bytes)} {target : String} {v : V} (rt : c.RoundTrips)
    (fits : c.Fits v) (clear : HeadWhole c log ∨ (log.map Prod.fst).head? ≠ some target) :
    logValues c (writeTo (recordBytes c v) target log) = logValues c log ++ [v] ∧
      HeadWhole c (writeTo (recordBytes c v) target log) := by
  have new : Whole c (recordBytes c v) := whole_nil.append fits
  have found : records c (recordBytes c v) = [v] := by
    have one := whole_nil.records_append rt fits
    rwa [List.nil_append] at one
  cases log with
  | nil =>
      refine ⟨?_, ?_⟩
      · show records c (recordBytes c v) ++ [] = [v]
        rw [found, List.append_nil]
      · rintro _ ⟨⟩
        exact new
  | cons part rest =>
      by_cases same : part.1 = target
      · have whole : Whole c part.2 :=
          clear.elim (fun whole => whole part rfl) fun apart => absurd (congrArg some same) apart
        have after : writeTo (recordBytes c v) target (part :: rest) = (target, part.2 ++ recordBytes c v) :: rest :=
          if_pos same
        rw [after]
        refine ⟨?_, ?_⟩
        · simp only [logValues, List.reverse_cons, List.flatMap_append, List.flatMap_singleton,
            whole.records_append rt fits, List.append_assoc]
        · rintro _ ⟨⟩
          exact whole.append fits
      · have after : writeTo (recordBytes c v) target (part :: rest) = (target, recordBytes c v) :: part :: rest :=
          if_neg same
        rw [after]
        refine ⟨?_, ?_⟩
        · simp only [logValues, List.reverse_cons, List.flatMap_append, List.flatMap_singleton, found]
        · rintro _ ⟨⟩
          exact new

theorem logValues_writeAllTo {placed : List (V × String)} {log : List (String × Bytes)} (rt : c.RoundTrips)
    (fits : ∀ p ∈ placed, c.Fits p.1)
    (clear : HeadWhole c log ∨ (placed.map Prod.snd).head? ≠ (log.map Prod.fst).head?) :
    logValues c (writeAllTo c log placed) = logValues c log ++ placed.map Prod.fst := by
  induction placed generalizing log with
  | nil => exact (List.append_nil _).symm
  | cons p rest ih =>
      obtain ⟨here, later⟩ := List.forall_mem_cons.mp fits
      obtain ⟨value, whole⟩ := logValues_writeTo rt here (clear.imp_right Ne.symm)
      have more := ih later (.inl whole)
      rw [value, List.append_assoc] at more
      exact more

theorem placements_values (d : Disk) (items : List V) : (d.placements c env items).map Prod.fst = items := by
  unfold Disk.placements
  generalize d.wal.currentSegment = current
  generalize d.readings = readings
  induction items generalizing current readings with
  | nil => rfl
  | cons v rest ih => exact congrArg (List.cons v) (ih _ _)

/-- Reading the files of a log without a limit finds its records. -/
theorem yields_readLog {reading : Surroundings} (faultless : reading.Faultless) {maxItems : Nat}
    {log : List (String × Bytes)} (files : ∀ part ∈ log, (store w).files.lookup part.1 = some part.2)
    (unlimited : (logValues c log).length ≤ maxItems) :
    ∃ w', readSegments c reading maxItems (log.map Prod.fst).reverse w = .ok (logValues c log) w' := by
  have short : ∀ part ∈ log.reverse, (records c part.2).length ≤ maxItems := by
    intro part member
    have inside : (records c part.2).Sublist (logValues c log) :=
      List.sublist_flatten_of_mem (List.mem_map_of_mem member)
    exact inside.length_le.trans unlimited
  have files' : ∀ part ∈ log.reverse, (store w).files.lookup part.1 = some part.2 :=
    fun part member => files part (List.mem_reverse.mp member)
  obtain ⟨got, w', run, eq⟩ := yields_readFiles faultless files' short
  rw [List.map_reverse, eq] at run
  exact ⟨w', run⟩

end Logs

end ServerPoller
