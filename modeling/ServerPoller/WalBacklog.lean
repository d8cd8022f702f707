import ServerPoller.WalOrder
import ServerPoller.Lib.Backlog

/-! While the clock goes forward and keeps its number of digits, file name order is write order,
and the buffer is a backlog: evictions and drains take its oldest records. -/

namespace ServerPoller
open DirectoryIo Numerals Transition

structure SteadyClock (env : Surroundings) : Prop where
  monotone : Monotone env.clock
  digits : ∀ i j, (toString (env.clock i)).length = (toString (env.clock j)).length

theorem segmentName_le {m n : Nat} (same : (toString m).length = (toString n).length) (h : m ≤ n) :
    segmentName m ≤ segmentName n := by
  rcases Nat.eq_or_lt_of_le h with rfl | less
  · exact le_rfl
  · have lengths : (Nat.toDigits 10 m).length = (Nat.toDigits 10 n).length := by
      simpa only [Nat.toString_eq_repr, ← String.length_toList, Nat.toList_repr] using same
    have digits := (toDigits_lt_toDigits_iff lengths).mpr less
    apply le_of_lt
    apply String.lt_iff_toList_lt.mpr
    simp only [segmentName, Nat.toString_eq_repr, String.toList_append, Nat.toList_repr, List.append_assoc]
    exact (append_lt_append_left_iff _ _ _).mpr (append_lt_append_of_lt lengths digits _ _)

section Order
variable {V : Type} {c : Codec V} {env : Surroundings} {s t : Store}

/-- A sound store whose file names are past clock readings, none of them after the current one. -/
structure Store.InOrder (c : Codec V) (env : Surroundings) (s : Store) : Prop extends s.Sound c where
  stamped : ∀ name ∈ s.files, ∃ i < s.readings, name = segmentName (env.clock i)
  newest : ∀ name, s.current = some name → ∀ other ∈ s.files, other ≤ name

theorem Store.InOrder.removed (h : s.InOrder c env) {name : String} (oldest : s.oldest = some name) :
    (s.removed name).InOrder c env where
  toSound := h.toSound.removed oldest
  stamped := fun p hp => h.stamped p (AList.mem_erase.mp hp).2
  newest := fun p current other ho => h.newest p current other (AList.mem_erase.mp ho).2

theorem Store.InOrder.le_next (h : s.InOrder c env) (steady : SteadyClock env) {name : String}
    (there : name ∈ s.files) : name ≤ segmentName (env.clock s.readings) := by
  obtain ⟨i, early, rfl⟩ := h.stamped name there
  exact segmentName_le (steady.digits i s.readings) (steady.monotone (Nat.le_of_lt early))

theorem move_in_order {m : Move V} (h : s.InOrder c env) (steady : SteadyClock env)
    (fits : ∀ v ∈ written [m], c.Fits v) (hm : s.move c env m = some t) : t.InOrder c env := by
  have sound := move_sound h.toSound fits hm
  cases m with
  | evict =>
      obtain ⟨name, oldest, rfl⟩ := move_evict hm
      have kept := h.removed oldest
      exact ⟨sound, kept.stamped, kept.newest⟩
  | drop =>
      obtain ⟨name, oldest, rfl⟩ := move_drop hm
      exact h.removed oldest
  | rotate =>
      cases move_rotate hm
      refine ⟨sound, fun name hn => ?_, fun name current other ho => ?_⟩
      · rcases mem_rotated.mp hn with rfl | old
        · exact ⟨s.readings, Nat.lt_succ_self _, rfl⟩
        · obtain ⟨i, early, rfl⟩ := h.stamped name old
          exact ⟨i, Nat.lt_succ_of_lt early, rfl⟩
      · cases current
        rcases mem_rotated.mp ho with rfl | old
        · exact le_rfl
        · exact h.le_next steady old
  | append v =>
      obtain ⟨name, _, rfl⟩ := move_append hm
      refine ⟨sound, fun p hp => h.stamped p ?_, fun p current other ho => h.newest p current other ?_⟩
      · rwa [AList.mem_keys, AList.keys_modify] at hp
      · rwa [AList.mem_keys, AList.keys_modify] at ho

theorem Store.InOrder.segments_eq (h : s.InOrder c env) : s.segments = s.pending ++ s.current.toList := by
  cases hc : s.current with
  | none =>
      have all : s.pending = s.segments :=
        List.filter_eq_self.mpr (fun e _ => by rw [hc]; rfl)
      rw [all, Option.toList_none, List.append_nil]
  | some name =>
      have listed := (mem_segments h.only).mpr (h.on_disk name hc)
      have erased : s.pending = s.segments.erase name := by
        rw [pending, s.nodup_segments.erase_eq_filter, hc]
        rfl
      apply segmentNames_eq
      · rw [Option.toList_some, erased]
        exact ((List.perm_append_singleton _ _).trans (List.perm_cons_erase listed).symm).trans
          (segmentNames_perm _)
      · refine List.pairwise_append.mpr ⟨(pairwise_segmentNames _).sublist List.filter_sublist, ?_, ?_⟩
        · exact List.pairwise_singleton _ _
        · intro other ho p hp
          rw [Option.toList_some, List.mem_singleton] at hp
          rw [hp]
          exact h.newest name hc other ((mem_segments h.only).mp (List.mem_of_mem_filter ho))

theorem Store.InOrder.readable_removed (h : s.InOrder c env) {name : String} (oldest : s.oldest = some name) :
    s.readable c = s.contents c name ++ (s.removed name).readable c := by
  have split : s.segments = name :: (s.removed name).segments := by
    rw [h.segments_eq, (h.removed oldest).segments_eq, pending_removed oldest]
    rfl
  have rest : (s.removed name).readable c = (s.removed name).segments.flatMap (s.contents c) := by
    apply List.flatMap_congr
    intro p hp
    apply contents_removed_ne
    rintro rfl
    exact (List.nodup_cons.mp (split ▸ s.nodup_segments)).1 hp
  rw [rest, readable, split, List.flatMap_cons]

theorem Store.InOrder.readable_rotated (h : s.InOrder c env) (steady : SteadyClock env) :
    (s.rotated env).readable c = s.readable c := by
  have contents_eq : (s.rotated env).contents c = s.contents c := funext contents_rotated
  rw [readable, contents_eq]
  by_cases there : segmentName (env.clock s.readings) ∈ s.files
  · simp only [segments, rotated, there, if_true, readable]
  · have last : (s.rotated env).segments = s.segments ++ [segmentName (env.clock s.readings)] := by
      apply segmentNames_eq
      · have fresh : s.files.keys.erase (segmentName (env.clock s.readings)) = s.files.keys :=
          List.erase_of_not_mem (fun h => there (AList.mem_keys.mpr h))
        simp only [rotated, there, if_false, AList.keys_insert, fresh]
        rw [List.filter_cons_of_pos (isSegment_segmentName _)]
        exact (List.perm_append_singleton _ _).trans ((segmentNames_perm _).cons _)
      · refine List.pairwise_append.mpr ⟨pairwise_segmentNames _, List.pairwise_singleton _ _, ?_⟩
        intro other ho p hp
        rw [List.mem_singleton.mp hp]
        exact h.le_next steady ((mem_segments h.only).mp ho)
    rw [last, List.flatMap_append, List.flatMap_singleton, contents_of_absent there, List.append_nil]
    rfl

theorem Store.InOrder.readable_appended (h : s.InOrder c env) (rt : c.RoundTrips) {name : String}
    (current : s.current = some name) {v : V} (fits : c.Fits v) :
    (s.appended c name v).readable c = s.readable c ++ [v] := by
  have keys : (s.appended c name v).segments = s.segments := by
    simp only [segments, appended, AList.keys_modify]
  have before : s.pending.flatMap ((s.appended c name v).contents c) = s.pending.flatMap (s.contents c) := by
    apply List.flatMap_congr
    intro p hp
    apply contents_appended_ne
    rintro rfl
    have other := (List.mem_filter.mp hp).2
    simp [current] at other
  rw [readable, keys, readable, h.segments_eq, current, Option.toList_some, List.flatMap_append, before,
    List.flatMap_singleton, contents_appended h.clean rt (h.on_disk name current) fits,
    List.flatMap_append, List.flatMap_singleton, List.append_assoc]

theorem move_backlog {m : Move V} (h : s.InOrder c env) (steady : SteadyClock env) (rt : c.RoundTrips)
    (fits : ∀ v ∈ written [m], c.Fits v) (hm : s.move c env m = some t) (b : Backlog V)
    (kept : b.kept = s.readable c) :
    ∃ b' : Backlog V, b'.pushed = b.pushed ++ written [m] ∧ b'.kept = t.readable c ∧ b'.read = b.read := by
  cases m with
  | evict =>
      obtain ⟨name, oldest, rfl⟩ := move_evict hm
      have split : b.kept = [] ++ s.contents c name ++ (s.removed name).readable c :=
        kept.trans (h.readable_removed oldest)
      exact ⟨b.shift split, (List.append_nil _).symm, rfl, List.append_nil _⟩
  | drop =>
      obtain ⟨name, oldest, rfl⟩ := move_drop hm
      have split : b.kept = [] ++ s.contents c name ++ (s.removed name).readable c :=
        kept.trans (h.readable_removed oldest)
      exact ⟨b.shift split, (List.append_nil _).symm, rfl, List.append_nil _⟩
  | rotate =>
      cases move_rotate hm
      exact ⟨b, (List.append_nil _).symm, kept.trans (h.readable_rotated steady).symm, rfl⟩
  | append v =>
      obtain ⟨name, current, rfl⟩ := move_append hm
      refine ⟨b.push [v], rfl, ?_, rfl⟩
      have grown := h.readable_appended rt current (fits v List.mem_cons_self)
      exact (congrArg (· ++ [v]) kept).trans grown.symm

theorem moves_backlog {ms : List (Move V)} (run : Moves c env s ms t) (h : s.InOrder c env)
    (steady : SteadyClock env) (rt : c.RoundTrips) (fits : ∀ v ∈ written ms, c.Fits v) (b : Backlog V)
    (kept : b.kept = s.readable c) :
    t.InOrder c env ∧
      ∃ b' : Backlog V, b'.pushed = b.pushed ++ written ms ∧ b'.kept = t.readable c ∧ b'.read = b.read := by
  induction run generalizing b with
  | nil s => exact ⟨h, b, (List.append_nil _).symm, kept, rfl⟩
  | @cons s s₁ t m ms first rest ih =>
      rw [← List.singleton_append, written_append] at fits
      obtain ⟨fits₁, fits₂⟩ := List.forall_mem_append.mp fits
      obtain ⟨b₁, pushed₁, kept₁, read₁⟩ := move_backlog h steady rt fits₁ first b kept
      obtain ⟨order, b₂, pushed₂, kept₂, read₂⟩ := ih (move_in_order h steady fits₁ first) fits₂ b₁ kept₁
      refine ⟨order, b₂, ?_, kept₂, read₂.trans read₁⟩
      rw [pushed₂, pushed₁, List.append_assoc, ← written_append]
      rfl

end Order

inductive WalCall (V : Type) where
  | write (items : List V)
  | drain (maxItems : Nat)
  deriving DecidableEq, Repr

def offered {V : Type} (calls : List (WalCall V)) : List V :=
  calls.flatMap fun
    | .write items => items
    | .drain _ => []

/-- The world, and what the drains whose segment was then deleted have read. -/
structure WalRun (V : Type) where
  world : World WalProcess
  drained : List V

section Calls
variable {V : Type} (c : Codec V) (env : Surroundings)

/-- `read_oldest_batch` followed by `delete_segment` on the path it returned. -/
def drainOnce (maxItems : Nat) : WalIo (List V) := do
  match ← readOldestBatch c env maxItems with
  | some (path, items) =>
      deleteSegment env path
      return items
  | none => return []

def walCall (s : WalRun V) : WalCall V → WalRun V
  | .write items =>
      match writeBatch c env items s.world with
      | .ok _ w => { s with world := w }
      | .error _ w => { s with world := w }
  | .drain maxItems =>
      match drainOnce c env maxItems s.world with
      | .ok items w => ⟨w, s.drained ++ items⟩
      | .error _ w => { s with world := w }

def walStart (maxBytes segmentMaxBytes : Nat) : WalRun V where
  world := match openWal env maxBytes segmentMaxBytes emptyWorld with
    | .ok _ w => w
    | .error _ w => w
  drained := []

theorem disk_walStart {env : Surroundings} (h : env.Faultless) (maxBytes segmentMaxBytes : Nat) :
    disk (walStart env maxBytes segmentMaxBytes : WalRun V).world =
      ⟨⟨maxBytes, segmentMaxBytes, none, 0⟩, ∅, 0, 0⟩ := by
  obtain ⟨_, w, opened, same⟩ := yields_openWal h (w := emptyWorld) maxBytes segmentMaxBytes
    (R := fun _ w' => disk w' = ⟨⟨maxBytes, segmentMaxBytes, none, 0⟩, ∅, 0, 0⟩)
    (fun w' same => by rw [same]; rfl)
  simp only [walStart, opened, same]

theorem store_walStart {env : Surroundings} (h : env.Faultless) (maxBytes segmentMaxBytes : Nat) :
    store (walStart env maxBytes segmentMaxBytes : WalRun V).world = ⟨none, ∅, 0, 0⟩ := by
  rw [store_eq, disk_walStart h]
  rfl

def SparesCurrent (s t : Store) : Prop :=
  t.current = s.current ∧ ∀ name, s.current = some name → t.files.lookup name = s.files.lookup name

variable {c env} {s : WalRun V}

theorem spares_removed {s : Store} {name : String} (oldest : s.oldest = some name) :
    SparesCurrent s (s.removed name) := by
  refine ⟨rfl, fun p current => AList.lookup_erase_ne ?_⟩
  rintro rfl
  exact (Store.oldest_spec oldest).2.2 current

theorem evictOldest_spares (faultless : env.Faultless) (w : World WalProcess) :
    Yields (evictOldest env) w (fun _ w' => SparesCurrent (store w) (store w')) := by
  apply yields_evictOldest faultless
  · intro _ w' same
    rw [store_of_disk same]
    exact ⟨rfl, fun _ _ => rfl⟩
  · intro name w' oldest gone
    have first : (store w).oldest = some name := Disk.store_oldest.trans oldest
    rw [store_eq (w := w'), gone, Disk.store_evict]
    exact spares_removed first

theorem walCall_write (faultless : env.Faultless) (items : List V) :
    writeBatch c env items s.world = .ok () (walCall c env s (.write items)).world := by
  obtain ⟨_, w, run, _⟩ := yields_writeBatch (c := c) (w := s.world) faultless items (R := fun _ _ => True)
    fun _ _ _ _ => trivial
  simp only [walCall, run]

/-- A drain does nothing or takes the oldest segment, of which it reads an initial part. -/
theorem yields_drainOnce {w : World WalProcess} (faultless : env.Faultless) (maxItems : Nat)
    {R : List V → World WalProcess → Prop}
    (nothing : (disk w).oldest = none → ∀ w', disk w' = disk w → R [] w')
    (taken : ∀ name f w', (disk w).oldest = some name → w.files.lookup name = some f →
      disk w' = (disk w).removed name → R ((records c f.bytes).take maxItems) w') :
    Yields (drainOnce c env maxItems) w R := by
  apply yields_bind
  apply yields_readOldestBatch faultless maxItems
  · intro none_left w₁ same
    exact yields_pure (nothing none_left w₁ same)
  · intro name f w₁ found there same
    have onDisk : name ∈ w₁.files := by
      have files : w₁.files = w.files := congrArg Disk.files same
      exact files ▸ AList.exists_lookup_iff_mem.mp ⟨f, there⟩
    apply yields_bind
    apply yields_deleteSegment faultless onDisk
    intro w₂ gone
    exact yields_pure (taken name f w₂ found there (by rw [gone, same]))

theorem drainOnce_store {w : World WalProcess} (faultless : env.Faultless) (maxItems : Nat) :
    Yields (drainOnce c env maxItems) w (fun items w' =>
      (items = [] ∧ store w' = store w) ∨
        ∃ name, (store w).oldest = some name ∧ items = ((store w).contents c name).take maxItems ∧
          store w' = (store w).removed name) := by
  apply yields_drainOnce faultless maxItems
  · intro _ w' same
    exact .inl ⟨rfl, store_of_disk same⟩
  · intro name f w' found there gone
    refine .inr ⟨name, Disk.store_oldest.trans found, by rw [contents_store there], ?_⟩
    rw [store_eq, gone, Disk.store_removed]
    rfl

/-- The run stands for a backlog of which the buffer holds what is kept. -/
def WalRun.Represents (c : Codec V) (env : Surroundings) (calls : List (WalCall V)) (s : WalRun V) : Prop :=
  (store s.world).InOrder c env ∧ ∃ b : Backlog V, b.pushed = offered calls ∧
    b.kept = (store s.world).readable c ∧ b.read = s.drained

theorem walCall_represents {past : List (WalCall V)} {call : WalCall V} (faultless : env.Faultless)
    (steady : SteadyClock env) (rt : c.RoundTrips) (fits : ∀ v ∈ offered [call], c.Fits v)
    (h : s.Represents c env past) : (walCall c env s call).Represents c env (past ++ [call]) := by
  obtain ⟨order, b, pushed, kept, read⟩ := h
  have grown : offered (past ++ [call]) = b.pushed ++ offered [call] := by
    rw [pushed, offered, List.flatMap_append]
    rfl
  rw [WalRun.Represents, grown]
  cases call with
  | write items =>
      have one : offered [WalCall.write items] = items := List.flatMap_singleton ..
      rw [one] at fits ⊢
      obtain ⟨_, w, run, ms, writes, moved⟩ := writeBatch_moves (c := c) (w := s.world) faultless items
      simp only [walCall, run]
      obtain ⟨order', b', pushed', kept', read'⟩ :=
        moves_backlog moved order steady rt (by rwa [writes.all]) b kept
      exact ⟨order', b', by rw [pushed', writes.all], kept', read'.trans read⟩
  | drain maxItems =>
      have one : offered [WalCall.drain (V := V) maxItems] = [] := rfl
      obtain ⟨items, w, run, effect⟩ := drainOnce_store (c := c) (w := s.world) faultless maxItems
      simp only [walCall, run, one, List.append_nil]
      rcases effect with ⟨rfl, same⟩ | ⟨name, oldest, rfl, gone⟩
      · rw [same]
        exact ⟨order, b, rfl, kept, by rw [read, List.append_nil]⟩
      · rw [gone]
        have split : b.kept = ((store s.world).contents c name).take maxItems ++
            ((store s.world).contents c name).drop maxItems ++
            ((store s.world).removed name).readable c := by
          rw [List.take_append_drop, kept, order.readable_removed oldest]
        exact ⟨order.removed oldest, b.shift split, rfl, rfl, congrArg (· ++ _) read⟩

theorem drain_spares (faultless : env.Faultless) (maxItems : Nat) :
    SparesCurrent (store s.world) (store (walCall c env s (.drain maxItems)).world) := by
  obtain ⟨items, w, run, effect⟩ := drainOnce_store (c := c) (w := s.world) faultless maxItems
  simp only [walCall, run]
  rcases effect with ⟨rfl, same⟩ | ⟨name, oldest, rfl, gone⟩
  · rw [same]
    exact ⟨rfl, fun _ _ => rfl⟩
  · rw [gone]
    exact spares_removed oldest

/-- The segment files hold the newest records in write order, the current segment is the last of
them and neither evicted nor drained, and the drained records come out in write order. -/
theorem wal_keeps_newest (faultless : env.Faultless) (steady : SteadyClock env) (rt : c.RoundTrips)
    {maxBytes segmentMaxBytes : Nat} {calls : List (WalCall V)} (fits : ∀ v ∈ offered calls, c.Fits v)
    (run : Run (ofTotal (walCall c env)) (walStart env maxBytes segmentMaxBytes) calls s) :
    (store s.world).readable c <:+ offered calls ∧
      (∀ name, (store s.world).current = some name → (store s.world).segments.getLast? = some name) ∧
      (∀ w, Yields (evictOldest env) w (fun _ w' => SparesCurrent (store w) (store w'))) ∧
      (∀ maxItems, SparesCurrent (store s.world) (store (walCall c env s (.drain maxItems)).world)) ∧
      s.drained.Sublist (offered calls) := by
  have inv := run.keeps_history
    (P := fun past s => (∀ v ∈ offered past, c.Fits v) → s.Represents c env past) ?_ ?_
  · obtain ⟨order, b, pushed, kept, read⟩ := inv fits
    refine ⟨pushed ▸ kept ▸ b.newest, fun name current => ?_, evictOldest_spares faultless,
      drain_spares faultless, ?_⟩
    · rw [order.segments_eq, current, Option.toList_some, List.getLast?_concat]
    · exact pushed ▸ read ▸ b.read_sublist
  · rintro past s call _ h rfl fits
    rw [offered, List.flatMap_append] at fits
    obtain ⟨fitsPast, fitsNow⟩ := List.forall_mem_append.mp fits
    exact walCall_represents faultless steady rt fitsNow (h fitsPast)
  · intro _
    rw [WalRun.Represents, store_walStart faultless]
    refine ⟨⟨⟨fun name bytes h => ?_, fun name h => ?_, nofun⟩, fun name h => ?_, nofun⟩,
      Backlog.empty, rfl, rfl, rfl⟩
    · simp at h
    · exact (AList.notMem_empty name h).elim
    · exact (AList.notMem_empty name h).elim

end Calls

theorem millisApart_steady : SteadyClock millisApart where
  monotone := millisApart_monotone
  digits := by
    have all : ∀ k < 10, (toString (1700000000000 + k)).length = 13 := by decide
    intro i j
    exact (all _ (by omega)).trans (all _ (by omega)).symm

/-- One of two records is read from the older of two segments, which is then deleted. -/
theorem wal_keeps_newest_drainedOnce :
    let calls : List (WalCall (Fin 10)) := [.write [0, 1, 2], .write [3], .drain 1]
    let s := calls.foldl (walCall onlineCodec millisApart) (walStart millisApart 1000000 40)
    s.drained = [0] ∧ (store s.world).readable onlineCodec = [2, 3] ∧
      (store s.world).readable onlineCodec <:+ offered calls :=
  ⟨by decide +kernel, by decide +kernel, (wal_keeps_newest (fun _ => rfl) millisApart_steady
    onlineCodec_roundTrips (by decide +kernel) (run_ofTotal_iff.mpr rfl)).1⟩

end ServerPoller
