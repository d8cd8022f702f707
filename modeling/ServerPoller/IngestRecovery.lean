import ServerPoller.IngestDelivery
import ServerPoller.WalOrder

/-! Recovery after an outage. Every successful flush drains the oldest waiting segment; the
current segment never waits, and nothing but a later failed flush makes it stop being current. -/

namespace ServerPoller
open DirectoryIo Transition

/-- One call of `flush_batch`, with what its calls of `send_batch` return. -/
structure FlushCall (V : Type) where
  batch : List V
  outcome : SendOutcome
  deriving DecidableEq, Repr

def flushCall {V : Type} (c : Codec V) (env : Surroundings) (drainMax : Nat) (s : Ingest V)
    (call : FlushCall V) : Ingest V :=
  { s with batch := call.batch }.flush c env drainMax call.outcome

def FlushCall.Buffers {V : Type} (call : FlushCall V) : Prop :=
  call.outcome.live = false ∧ call.batch ≠ []

section Store
variable {V : Type} {c : Codec V} {env : Surroundings} {s t : Store} {ms : List (Move V)}

/-- There is a file only when there is a current segment. -/
def Store.Attended (s : Store) : Prop := s.current = none → ∀ name, name ∉ s.files

def Store.CurrentFilled (c : Codec V) (s : Store) : Prop :=
  ∀ name, s.current = some name → s.contents c name ≠ []

theorem Store.Attended.removed (h : s.Attended) (name : String) : (s.removed name).Attended :=
  fun none p hp => h none p (AList.mem_erase.mp hp).2

theorem move_attended {m : Move V} (h : s.Attended) (hm : s.move c env m = some t) : t.Attended := by
  cases m with
  | evict =>
      obtain ⟨name, _, rfl⟩ := move_evict hm
      exact h.removed name
  | drop =>
      obtain ⟨name, _, rfl⟩ := move_drop hm
      exact h.removed name
  | rotate =>
      cases move_rotate hm
      exact fun none => nomatch none
  | append v =>
      obtain ⟨name, current, rfl⟩ := move_append hm
      exact fun none => by simp [current] at none

theorem Store.CurrentFilled.removed (h : s.CurrentFilled c) {name : String} (oldest : s.oldest = some name) :
    (s.removed name).CurrentFilled c := by
  intro p current
  have other : p ≠ name := fun e => (Store.oldest_spec oldest).2.2 (e ▸ current)
  rw [contents_removed_ne other]
  exact h p current

/-- The moves of a batch end with a record in the current segment, unless the batch is empty. -/
theorem writes_filled {batch : List V} (writes : Writes batch ms) (run : Moves c env s ms t)
    (rt : c.RoundTrips) (sound : s.Sound c) (fits : ∀ v ∈ batch, c.Fits v) :
    (batch = [] ∧ t = s) ∨ (batch ≠ [] ∧ t.current ≠ none ∧ t.CurrentFilled c) := by
  rcases writes.settled with rfl | ⟨before, v, rfl⟩
  · cases run
    exact .inl ⟨writes.all.symm, rfl⟩
  · obtain ⟨u, early, last⟩ := run.split
    cases last with
    | cons final none =>
        cases none
        have all := writes.all
        rw [written_append] at all
        obtain ⟨fitsBefore, fitsLast⟩ := List.forall_mem_append.mp (all.symm ▸ fits)
        have soundU := moves_sound early sound fitsBefore
        obtain ⟨name, current, rfl⟩ := move_append final
        refine .inr ⟨by rw [← all]; simp [written], by simp [current], fun p hp => ?_⟩
        cases current.symm.trans hp
        have grown := Store.contents_appended soundU.clean rt (soundU.on_disk name current)
          (fitsLast v List.mem_cons_self)
        simp only [Store.appended] at grown
        rw [grown]
        simp

/-- What a flush leaves: a sound store with a file only under a current segment, which is not empty. -/
structure Store.Kept (c : Codec V) (s : Store) : Prop extends s.Sound c where
  attended : s.Attended
  filled : s.CurrentFilled c

variable {drainMax : Nat} {outcome : SendOutcome} {batch : List V} {sends : List (Send V)}

theorem Store.Kept.removed (h : s.Kept c) {name : String} (oldest : s.oldest = some name) :
    (s.removed name).Kept c :=
  ⟨h.toSound.removed oldest, h.attended.removed name, h.filled.removed oldest⟩

/-- A flush keeps this, and it makes a segment current exactly when it buffers its batch. -/
theorem FlushEffect.kept (eff : FlushEffect c env drainMax outcome batch s sends t) (rt : c.RoundTrips)
    (h : s.Kept c) (fits : outcome.live = false → ∀ v ∈ batch, c.Fits v) :
    t.Kept c ∧ (t.current = none ↔ s.current = none ∧ ¬FlushCall.Buffers ⟨batch, outcome⟩) := by
  cases eff with
  | buffered live writes moved =>
      rcases writes_filled writes moved rt h.toSound (fits live) with ⟨rfl, rfl⟩ | ⟨some_, current, filled⟩
      · exact ⟨h, by simp [FlushCall.Buffers]⟩
      · have attended : t.Attended := moved.keeps (P := Store.Attended) (fun _ _ _ => move_attended) h.attended
        refine ⟨⟨moves_sound moved h.toSound (by rw [writes.all]; exact fits live), attended, filled⟩, ?_⟩
        exact ⟨fun none => absurd none current, fun none => absurd ⟨live, some_⟩ none.2⟩
  | nothing_pending live => exact ⟨h, by simp [FlushCall.Buffers, live]⟩
  | emptied live oldest => exact ⟨h.removed oldest, by simp [FlushCall.Buffers, live, Store.removed]⟩
  | drained live _ oldest => exact ⟨h.removed oldest, by simp [FlushCall.Buffers, live, Store.removed]⟩
  | refused live => exact ⟨h, by simp [FlushCall.Buffers, live]⟩

theorem FlushEffect.drains (eff : FlushEffect c env drainMax ⟨true, true⟩ batch s sends t) :
    t.pending = s.pending.tail ∧ t.current = s.current := by
  have take : ∀ {name}, s.oldest = some name → (s.removed name).pending = s.pending.tail := by
    intro name oldest
    rw [Store.pending_removed oldest, List.tail_cons]
  cases eff with
  | buffered live => exact absurd live (by decide)
  | nothing_pending _ none =>
      rw [Store.oldest_eq, List.head?_eq_none_iff] at none
      exact ⟨by rw [none, List.tail_nil], rfl⟩
  | emptied _ oldest => exact ⟨take oldest, rfl⟩
  | drained _ _ oldest => exact ⟨take oldest, rfl⟩
  | refused _ drain => exact absurd drain (by decide)

theorem Store.Kept.readable_eq_nil (h : s.Kept c) (none_waits : s.pending = []) :
    s.readable c = [] ↔ s.current = none := by
  have only_current : ∀ name ∈ s.segments, s.current = some name := by
    intro name hn
    by_contra other
    have waits : name ∈ s.pending := List.mem_filter.mpr ⟨hn, by simpa using Ne.symm other⟩
    simp [none_waits] at waits
  rw [readable, List.flatMap_eq_nil_iff]
  constructor
  · intro nothing
    by_contra some_
    obtain ⟨name, current⟩ := Option.ne_none_iff_exists'.mp some_
    have listed := (mem_segments h.only).mpr (h.on_disk name current)
    exact h.filled name current (nothing name listed)
  · intro none name hn
    simp [only_current name hn] at none

end Store

section Calls
variable {V : Type} {c : Codec V} {env : Surroundings} {drainMax : Nat} {s t : Ingest V}

theorem flushCall_effect (drainMax : Nat) (faultless : env.Faultless) (call : FlushCall V) :
    ∃ sends, FlushEffect c env drainMax call.outcome call.batch
      (store s.world) sends (store (flushCall c env drainMax s call).world) := by
  obtain ⟨sends, t, rfl, _, _, _, eff⟩ :=
    flush_effect (c := c) faultless { s with batch := call.batch } drainMax call.outcome
  exact ⟨sends, eff⟩

/-- A segment is current exactly when an earlier flush has buffered something. -/
theorem flushCalls_kept (faultless : env.Faultless) (rt : c.RoundTrips) {maxBytes segmentMaxBytes : Nat}
    {history : List (FlushCall V)}
    (run : Run (ofTotal (flushCall c env drainMax)) (ingestStart env maxBytes segmentMaxBytes) history s)
    (fits : ∀ call ∈ history, ∀ v ∈ call.batch, c.Fits v) :
    (store s.world).Kept c ∧ ((store s.world).current = none ↔ ∀ call ∈ history, ¬call.Buffers) := by
  have inv := run.keeps_history
    (P := fun past s => (∀ call ∈ past, ∀ v ∈ call.batch, c.Fits v) →
      (store s.world).Kept c ∧ ((store s.world).current = none ↔ ∀ call ∈ past, ¬call.Buffers)) ?_ ?_
  · exact inv fits
  · rintro past s call _ h rfl fits
    obtain ⟨fitsPast, fitsNow⟩ := List.forall_mem_append.mp fits
    obtain ⟨kept, current⟩ := h fitsPast
    obtain ⟨sends, eff⟩ := flushCall_effect (c := c) drainMax faultless call
    obtain ⟨kept', current'⟩ := eff.kept rt kept (fun _ => fitsNow call List.mem_cons_self)
    refine ⟨kept', current'.trans ?_⟩
    rw [current, List.forall_mem_append, List.forall_mem_singleton]
  · intro _
    have start := accounts_start (c := c) faultless maxBytes segmentMaxBytes
    have empty := store_ingestStart (V := V) faultless maxBytes segmentMaxBytes
    refine ⟨⟨start.sound, ?_, ?_⟩, ?_⟩ <;> rw [empty]
    · exact fun _ name => AList.notMem_empty name
    · exact fun _ none => nomatch none
    · simp

theorem recovery_pending (faultless : env.Faultless) (rt : c.RoundTrips) {recovery : List (FlushCall V)}
    (run : Run (ofTotal (flushCall c env drainMax)) s recovery t) (kept : (store s.world).Kept c)
    (healthy : ∀ call ∈ recovery, call.outcome = ⟨true, true⟩) :
    (store t.world).Kept c ∧ (store t.world).pending = (store s.world).pending.drop recovery.length ∧
      (store t.world).current = (store s.world).current := by
  induction run with
  | nil s => exact ⟨kept, rfl, rfl⟩
  | @cons s s₁ t call rest first _ ih =>
      cases first
      obtain ⟨now, later⟩ := List.forall_mem_cons.mp healthy
      obtain ⟨sends, eff⟩ := flushCall_effect (c := c) drainMax faultless call
      rw [now] at eff
      obtain ⟨pending₁, current₁⟩ := eff.drains
      have kept₁ := (eff.kept rt kept nofun).1
      obtain ⟨keptT, pendingT, currentT⟩ := ih kept₁ later
      refine ⟨keptT, ?_, currentT.trans current₁⟩
      rw [pendingT, pending₁, List.drop_tail, List.length_cons]

/-- Once enough flushes have succeeded, nothing is readable exactly when no flush before them
had buffered anything: the segment the outage was writing to stays current and is never drained. -/
theorem recovery_drains_iff (faultless : env.Faultless) (rt : c.RoundTrips)
    {maxBytes segmentMaxBytes : Nat} {history recovery : List (FlushCall V)}
    (past : Run (ofTotal (flushCall c env drainMax)) (ingestStart env maxBytes segmentMaxBytes) history s)
    (fits : ∀ call ∈ history, ∀ v ∈ call.batch, c.Fits v)
    (next : Run (ofTotal (flushCall c env drainMax)) s recovery t)
    (healthy : ∀ call ∈ recovery, call.batch ≠ [] ∧ call.outcome = ⟨true, true⟩)
    (enough : (store s.world).segments.length ≤ recovery.length) :
    (store t.world).readable c = [] ↔
      ∀ call ∈ history, ¬(call.outcome.live = false ∧ call.batch ≠ []) := by
  obtain ⟨kept, current⟩ := flushCalls_kept faultless rt past fits
  obtain ⟨keptT, pending, currentT⟩ := recovery_pending faultless rt next kept
    (fun call hc => (healthy call hc).2)
  have few : (store s.world).pending.length ≤ recovery.length :=
    (List.length_filter_le _ _).trans enough
  rw [List.drop_eq_nil_of_le few] at pending
  rw [keptT.readable_eq_nil pending, currentT, current]
  rfl

end Calls

/-- One record is buffered, and then the service is back for good. -/
theorem recovery_leaves_record :
    let start := ingestStart millisApart 1000000 40
    let flush := flushCall onlineCodec millisApart 200
    let s := [⟨[0], ⟨false, false⟩⟩].foldl flush start
    let t := [⟨[1], ⟨true, true⟩⟩, ⟨[2], ⟨true, true⟩⟩, ⟨[3], ⟨true, true⟩⟩].foldl flush s
    millisApart.Faultless ∧ Monotone millisApart.clock ∧ onlineCodec.RoundTrips ∧
      (∀ v, onlineCodec.Fits v) ∧ (store s.world).segments.length ≤ 3 ∧
      (store t.world).readable onlineCodec = [0] :=
  ⟨fun _ => rfl, millisApart_monotone, onlineCodec_roundTrips, by decide +kernel,
    by decide +kernel, by decide +kernel⟩

theorem recovery_drains_iff_noOutage :
    let flush := flushCall onlineCodec millisApart 200
    let t := [⟨[1], ⟨true, true⟩⟩].foldl flush
      ([⟨[0], ⟨true, true⟩⟩, ⟨[], ⟨false, false⟩⟩].foldl flush (ingestStart millisApart 1000000 40))
    (store t.world).readable onlineCodec = [] :=
  (recovery_drains_iff (fun _ => rfl) onlineCodec_roundTrips (run_ofTotal_iff.mpr rfl)
    (by decide +kernel) (run_ofTotal_iff.mpr rfl) (by decide) (by decide +kernel)).mpr (by decide)

end ServerPoller
