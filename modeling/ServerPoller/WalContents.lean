import ServerPoller.WalMoves

/-! Which records a store holds, and what each move does to them. -/

namespace ServerPoller
open DirectoryIo Transition

section Contents
variable {V : Type} (c : Codec V)

def Store.contents (s : Store) (name : String) : List V :=
  match s.files.lookup name with
  | some bytes => records c bytes
  | none => []

/-- The records of all segment files, in the order of `sorted_segments`. -/
def Store.readable (s : Store) : List V := s.segments.flatMap (s.contents c)

/-- Every file consists of complete records that the reader takes. -/
def Store.Clean (s : Store) : Prop :=
  ∀ name bytes, s.files.lookup name = some bytes → ∃ vs, bytes = encodeAll c vs ∧ ∀ v ∈ vs, c.Fits v

variable {c} {env : Surroundings} {s t : Store}

theorem Store.contents_of_absent {name : String} (h : name ∉ s.files) : s.contents c name = [] := by
  simp only [contents, AList.lookup_eq_none.mpr h]

theorem Store.Clean.bytes (clean : s.Clean c) (rt : c.RoundTrips) {name : String} {bytes : Bytes}
    (h : s.files.lookup name = some bytes) :
    bytes = encodeAll c (s.contents c name) ∧ ∀ v ∈ s.contents c name, c.Fits v := by
  obtain ⟨vs, rfl, fits⟩ := clean name bytes h
  have same : s.contents c name = vs := by
    simp only [contents, h]
    exact records_encodeAll c fits rt
  rw [same]
  exact ⟨rfl, fits⟩

theorem Store.contents_removed_ne {name other : String} (h : other ≠ name) :
    (s.removed name).contents c other = s.contents c other := by
  simp only [contents, removed, AList.lookup_erase_ne h]

theorem Store.Clean.removed (clean : s.Clean c) (name : String) : (s.removed name).Clean c := by
  intro other bytes h
  by_cases same : other = name
  · subst same
    simp [Store.removed] at h
  · exact clean other bytes (by simpa only [Store.removed, AList.lookup_erase_ne same] using h)

theorem Store.contents_rotated (name : String) : (s.rotated env).contents c name = s.contents c name := by
  unfold rotated
  by_cases there : segmentName (env.clock s.readings) ∈ s.files
  · simp only [there, if_true, contents]
  · simp only [there, if_false, contents]
    by_cases same : name = segmentName (env.clock s.readings)
    · subst same
      rw [AList.lookup_insert, AList.lookup_eq_none.mpr there]
      rfl
    · rw [AList.lookup_insert_ne same]

theorem Store.Clean.rotated (clean : s.Clean c) : (s.rotated env).Clean c := by
  intro name bytes h
  by_cases there : segmentName (env.clock s.readings) ∈ s.files
  · simp only [Store.rotated, there, if_true] at h
    exact clean name bytes h
  · simp only [Store.rotated, there, if_false] at h
    by_cases same : name = segmentName (env.clock s.readings)
    · subst same
      rw [AList.lookup_insert] at h
      exact ⟨[], (Option.some.inj h).symm, by simp⟩
    · rw [AList.lookup_insert_ne same] at h
      exact clean name bytes h

def Store.appended (c : Codec V) (s : Store) (name : String) (v : V) : Store :=
  { s with files := s.files.modify name (· ++ recordBytes c v) }

theorem Store.contents_appended_ne {name other : String} {v : V} (h : other ≠ name) :
    (s.appended c name v).contents c other = s.contents c other := by
  simp only [contents, appended, AList.lookup_modify_ne h]

theorem Store.contents_appended (clean : s.Clean c) (rt : c.RoundTrips) {name : String}
    (there : name ∈ s.files) {v : V} (fits : c.Fits v) :
    (s.appended c name v).contents c name = s.contents c name ++ [v] := by
  obtain ⟨bytes, h⟩ := AList.exists_lookup_iff_mem.mpr there
  obtain ⟨eq, old⟩ := clean.bytes rt h
  have all : ∀ u ∈ s.contents c name ++ [v], c.Fits u := by
    intro u hu
    rcases List.mem_append.mp hu with hu | hu
    · exact old u hu
    · rw [List.mem_singleton.mp hu]
      exact fits
  have grown : (s.appended c name v).files.lookup name =
      some (encodeAll c (s.contents c name ++ [v])) := by
    rw [appended, AList.lookup_modify, h, Option.map_some, encodeAll_append, encodeAll_singleton, ← eq]
  rw [contents, grown]
  exact records_encodeAll c all rt

theorem Store.Clean.appended (clean : s.Clean c) {name : String} {v : V} (fits : c.Fits v) :
    (s.appended c name v).Clean c := by
  intro other bytes h
  by_cases same : other = name
  · subst same
    simp only [Store.appended, AList.lookup_modify, Option.map_eq_some_iff] at h
    obtain ⟨old, hold, rfl⟩ := h
    obtain ⟨vs, rfl, hvs⟩ := clean other old hold
    refine ⟨vs ++ [v], by rw [encodeAll_append, encodeAll_singleton], ?_⟩
    intro u hu
    rcases List.mem_append.mp hu with hu | hu
    · exact hvs u hu
    · rw [List.mem_singleton.mp hu]
      exact fits
  · exact clean other bytes (by simpa only [Store.appended, AList.lookup_modify_ne same] using h)

/-- Moves that write only records the reader takes keep the files clean. -/
theorem move_clean {m : Move V} (clean : s.Clean c) (fits : ∀ v ∈ written [m], c.Fits v)
    (hm : s.move c env m = some t) : t.Clean c := by
  cases m with
  | evict =>
      obtain ⟨name, _, rfl⟩ := move_evict hm
      exact clean.removed name
  | drop =>
      obtain ⟨name, _, rfl⟩ := move_drop hm
      exact clean.removed name
  | rotate =>
      cases move_rotate hm
      exact clean.rotated
  | append v =>
      obtain ⟨name, _, rfl⟩ := move_append hm
      exact clean.appended (fits v (List.mem_singleton_self v))

theorem Store.readable_perm (only : s.OnlySegments) :
    (s.readable c).Perm (s.files.keys.flatMap (s.contents c)) := by
  apply List.Perm.flatMap_right
  have all : s.files.keys.filter isSegment = s.files.keys :=
    List.filter_eq_self.mpr (fun name hn => only name (AList.mem_keys.mpr hn))
  rw [segments, segmentNames, all]
  exact List.perm_insertionSort _ _

theorem flatMap_perm_erase {f : String → List V} {names : List String} {name : String}
    (h : name ∈ names) : (names.flatMap f).Perm (f name ++ (names.erase name).flatMap f) :=
  (List.perm_cons_erase h).flatMap_right f

theorem Store.readable_removed (only : s.OnlySegments) {name : String} (there : name ∈ s.files) :
    (s.readable c).Perm (s.contents c name ++ (s.removed name).readable c) := by
  have only' : (s.removed name).OnlySegments := fun p hp => only p (AList.mem_erase.mp hp).2
  have rest : (s.removed name).files.keys.flatMap ((s.removed name).contents c) =
      (s.files.keys.erase name).flatMap (s.contents c) := by
    rw [removed, AList.keys_erase]
    apply List.flatMap_congr
    intro p hp
    exact contents_removed_ne fun e => s.files.keys_nodup.not_mem_erase (e ▸ hp)
  have whole := (readable_perm (c := c) only).trans (flatMap_perm_erase (AList.mem_keys.mp there))
  have kept := readable_perm (c := c) only'
  rw [rest] at kept
  exact whole.trans (kept.symm.append_left _)

theorem Store.readable_rotated (only : s.OnlySegments) :
    ((s.rotated env).readable c).Perm (s.readable c) := by
  have only' : (s.rotated env).OnlySegments :=
    move_only_segments (c := c) (m := .rotate) only rfl
  have contents_eq : (s.rotated env).contents c = s.contents c := funext contents_rotated
  refine (readable_perm only').trans (.trans ?_ (readable_perm only).symm)
  rw [contents_eq]
  by_cases there : segmentName (env.clock s.readings) ∈ s.files
  · simp only [Store.rotated, there, if_true]
    exact .refl _
  · have fresh : s.files.keys.erase (segmentName (env.clock s.readings)) = s.files.keys :=
      List.erase_of_not_mem (fun h => there (AList.mem_keys.mpr h))
    simp only [Store.rotated, there, if_false, AList.keys_insert, fresh, List.flatMap_cons,
      contents_of_absent there, List.nil_append]
    exact .refl _

theorem Store.readable_appended (clean : s.Clean c) (rt : c.RoundTrips) (only : s.OnlySegments)
    {name : String} (there : name ∈ s.files) {v : V} (fits : c.Fits v) :
    ((s.appended c name v).readable c).Perm (v :: s.readable c) := by
  have keys : (s.appended c name v).files.keys = s.files.keys := AList.keys_modify _ _ _
  have only' : (s.appended c name v).OnlySegments := by
    intro p hp
    rw [AList.mem_keys, keys] at hp
    exact only p (AList.mem_keys.mpr hp)
  have mem := AList.mem_keys.mp there
  have rest : (s.files.keys.erase name).flatMap ((s.appended c name v).contents c) =
      (s.files.keys.erase name).flatMap (s.contents c) := by
    apply List.flatMap_congr
    intro p hp
    exact contents_appended_ne fun e => s.files.keys_nodup.not_mem_erase (e ▸ hp)
  have after := (readable_perm (c := c) only').trans (flatMap_perm_erase (by rwa [keys]))
  rw [keys, rest, contents_appended clean rt there fits, List.append_assoc] at after
  have before := (readable_perm (c := c) only).trans (flatMap_perm_erase mem)
  exact after.trans (List.perm_middle.trans (before.symm.cons v))

/-- What holds of the store of a buffer in use. -/
structure Store.Sound (c : Codec V) (s : Store) : Prop where
  clean : s.Clean c
  only : s.OnlySegments
  on_disk : s.CurrentOnDisk

theorem move_sound {m : Move V} (sound : s.Sound c) (fits : ∀ v ∈ written [m], c.Fits v)
    (hm : s.move c env m = some t) : t.Sound c where
  clean := move_clean sound.clean fits hm
  only := move_only_segments sound.only hm
  on_disk := move_current_on_disk sound.on_disk hm

theorem Store.Sound.of_files (sound : s.Sound c) (current : t.current = s.current) (files : t.files = s.files) :
    t.Sound c where
  clean := by
    intro name bytes found
    rw [files] at found
    exact sound.clean name bytes found
  only := by
    intro name there
    rw [files] at there
    exact sound.only name there
  on_disk := by
    intro name path
    rw [current] at path
    rw [files]
    exact sound.on_disk name path

theorem Store.Sound.without (sound : s.Sound c) {name : String} (other : s.current ≠ some name) :
    (s.removed name).Sound c where
  clean := sound.clean.removed name
  only := sound.only.removed name
  on_disk := by
    intro path current
    refine AList.mem_erase.mpr ⟨?_, sound.on_disk path current⟩
    rintro rfl
    exact other current

theorem Store.Sound.removed (sound : s.Sound c) {name : String} (oldest : s.oldest = some name) :
    (s.removed name).Sound c := sound.without (Store.oldest_spec oldest).2.2

private theorem fits_of_cons {m : Move V} {ms : List (Move V)} (h : ∀ v ∈ written (m :: ms), c.Fits v) :
    (∀ v ∈ written [m], c.Fits v) ∧ ∀ v ∈ written ms, c.Fits v := by
  rw [← List.singleton_append, written_append] at h
  exact List.forall_mem_append.mp h

theorem moves_sound {ms : List (Move V)} (run : Moves c env s ms t) (sound : s.Sound c)
    (fits : ∀ v ∈ written ms, c.Fits v) : t.Sound c := by
  induction run with
  | nil s => exact sound
  | cons first rest ih => exact ih (move_sound sound (fits_of_cons fits).1 first) (fits_of_cons fits).2

theorem moves_evicted_le {ms : List (Move V)} (run : Moves c env s ms t) : s.evicted ≤ t.evicted := by
  apply run.monotone Store.evicted
  intro s m t hm
  cases m with
  | evict =>
      obtain ⟨_, _, rfl⟩ := move_evict hm
      exact Nat.le_succ _
  | drop =>
      obtain ⟨_, _, rfl⟩ := move_drop hm
      exact le_rfl
  | rotate =>
      cases move_rotate hm
      exact le_rfl
  | append v =>
      obtain ⟨_, _, rfl⟩ := move_append hm
      exact le_rfl

/-- Without drops and evictions the store holds what it held and what was written. -/
theorem moves_readable {ms : List (Move V)} (run : Moves c env s ms t) (rt : c.RoundTrips)
    (sound : s.Sound c) (fits : ∀ v ∈ written ms, c.Fits v) (no_drop : .drop ∉ ms)
    (kept : t.evicted = s.evicted) : (t.readable c).Perm (written ms ++ s.readable c) := by
  induction run with
  | nil s => exact .refl _
  | @cons s s₁ t m ms first rest ih =>
      obtain ⟨fits₁, fits₂⟩ := fits_of_cons fits
      have step_le := moves_evicted_le (.single first : Moves c env s [m] s₁)
      have rest_le := moves_evicted_le rest
      have kept₁ : s₁.evicted = s.evicted := by omega
      have tail := ih (move_sound sound fits₁ first) fits₂ (fun h => no_drop (.tail _ h)) (by omega)
      cases m with
      | evict =>
          obtain ⟨_, _, rfl⟩ := move_evict first
          exact absurd kept₁ (Nat.succ_ne_self _)
      | drop => exact absurd List.mem_cons_self no_drop
      | rotate =>
          cases move_rotate first
          exact tail.trans ((Store.readable_rotated sound.only).append_left _)
      | append v =>
          obtain ⟨name, current, rfl⟩ := move_append first
          have one := Store.readable_appended sound.clean rt sound.only (sound.on_disk name current)
            (fits₁ v List.mem_cons_self)
          exact tail.trans ((one.append_left _).trans List.perm_middle)

end Contents

theorem contents_store {V : Type} {c : Codec V} {w : World WalProcess} {name : String} {f : DiskFile}
    (hf : w.files.lookup name = some f) : (store w).contents c name = records c f.bytes := by
  simp only [Store.contents, store, AList.lookup_mapVals, hf, Option.map_some]

end ServerPoller
