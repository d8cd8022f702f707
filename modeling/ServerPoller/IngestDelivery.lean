import ServerPoller.Ingest
import Mathlib.Algebra.Order.Group.Multiset
import Mathlib.Tactic.Abel

/-! Where a received record is: in the batch, on disk, or sent. Draining a segment deletes the
whole file after at most `ingest_batch_size` of its records were sent, so the account only
balances as long as no segment with more records is drained. -/

namespace ServerPoller
open DirectoryIo Transition

section Delivery
variable {V : Type} {c : Codec V} {env : Surroundings} {batchSize : Nat} {outcome : SendOutcome}
  {batch : List V} {s t : Store} {sends : List (Send V)}

theorem FlushEffect.sound (eff : FlushEffect c env batchSize outcome batch s sends t) (h : s.Sound c)
    (fits : ∀ v ∈ batch, c.Fits v) : t.Sound c := by
  cases eff with
  | buffered _ writes moved => exact moves_sound moved h (by rwa [writes.all])
  | nothing_pending => exact h
  | emptied _ oldest => exact h.removed oldest
  | drained _ _ oldest => exact h.removed oldest
  | refused => exact h

theorem FlushEffect.evicted_le (eff : FlushEffect c env batchSize outcome batch s sends t) :
    s.evicted ≤ t.evicted := by
  cases eff with
  | buffered _ _ moved => exact moves_evicted_le moved
  | nothing_pending => exact le_rfl
  | emptied => exact le_rfl
  | drained => exact le_rfl
  | refused => exact le_rfl

theorem readable_oldest (h : s.Sound c) {name : String} (oldest : s.oldest = some name) :
    (s.readable c : Multiset V) = s.contents c name + (s.removed name).readable c := by
  rw [Multiset.coe_add]
  exact Multiset.coe_eq_coe.mpr (Store.readable_removed h.only (Store.oldest_spec oldest).1)

/-- A flush loses nothing unless it drains a segment longer than the drain limit. -/
theorem FlushEffect.accounts (eff : FlushEffect c env batchSize outcome batch s sends t)
    (rt : c.RoundTrips) (h : s.Sound c) (fits : ∀ v ∈ batch, c.Fits v) (pos : 1 ≤ batchSize)
    (whole : outcome.live = true → outcome.drain = true → ∀ name ∈ s.oldest,
      (s.contents c name).length ≤ batchSize)
    (kept : t.evicted = s.evicted) :
    (batch + s.readable c : Multiset V) ≤ t.readable c + delivered sends := by
  cases eff with
  | buffered live writes moved =>
      have all := moves_readable moved rt h (by rwa [writes.all]) writes.no_drop kept
      rw [writes.all] at all
      have eq : (t.readable c : Multiset V) = batch + s.readable c := by
        rw [Multiset.coe_add]
        exact Multiset.coe_eq_coe.mpr all
      rw [eq]
      exact Multiset.le_add_right _ _
  | nothing_pending live none =>
      simp only [delivered, List.flatMap_cons, List.flatMap_nil, if_true, List.append_nil]
      rw [add_comm]
  | @emptied name live oldest empty =>
      have nothing : s.contents c name = [] := by
        rcases List.take_eq_nil_iff.mp empty with zero | nil
        · omega
        · exact nil
      rw [readable_oldest h oldest, nothing]
      simp only [delivered, List.flatMap_cons, List.flatMap_nil, if_true, List.append_nil]
      rw [Multiset.coe_nil, zero_add, add_comm]
  | @drained name items live drain oldest read nonempty =>
      have all : items = s.contents c name := by
        rw [← read, List.take_of_length_le (whole live drain name oldest)]
      rw [readable_oldest h oldest, ← all]
      simp only [delivered, List.flatMap_cons, List.flatMap_nil, if_true, List.append_nil]
      rw [← Multiset.coe_add, add_comm _ ((batch : Multiset V) + items), add_assoc]
  | refused live =>
      simp only [delivered, List.flatMap_cons, List.flatMap_nil, if_true, Bool.false_eq_true, if_false,
        List.append_nil]
      rw [add_comm]

end Delivery

section Runs
variable {V : Type} (c : Codec V) (env : Surroundings)

/-- Everything the pipeline still has or has handed over. -/
def Ingest.held (s : Ingest V) : Multiset V :=
  s.batch + (store s.world).readable c + delivered s.sends

/-- The turn does not drain a segment with more than `ingest_batch_size` records. -/
def DrainsWhole (batchSize : Nat) (s : Ingest V) (e : IngestEvent V) : Prop :=
  s.flushes batchSize e = true → e.outcome.live = true → e.outcome.drain = true →
    ∀ name ∈ (store s.world).oldest, ((store s.world).contents c name).length ≤ batchSize

instance (batchSize : Nat) (s : Ingest V) (e : IngestEvent V) :
    Decidable (DrainsWhole c batchSize s e) := by
  unfold DrainsWhole
  infer_instance

/-- The loop is running on a sound buffer, and as long as nothing was evicted it still accounts
for everything received. -/
structure Ingest.Accounts (past : List (IngestEvent V)) (s : Ingest V) : Prop where
  running : s.returned = false
  sound : (store s.world).Sound c
  fits : ∀ v ∈ s.batch, c.Fits v
  all : (store s.world).evicted = 0 → (received past : Multiset V) ≤ s.held c

variable {c env} {batchSize : Nat} {s : Ingest V} {past : List (IngestEvent V)} {e : IngestEvent V}

theorem Ingest.Accounts.taken (h : s.Accounts c past) (fits : ∀ v ∈ received [e], c.Fits v) :
    (s.taken e).Accounts c (past ++ [e]) where
  running := h.running
  sound := h.sound
  fits := List.forall_mem_append.mpr ⟨h.fits, fits⟩
  all := by
    intro kept
    have old := add_le_add_left (h.all kept) (received [e] : Multiset V)
    rw [received_append, ← Multiset.coe_add]
    apply old.trans
    apply le_of_eq
    simp only [held, Ingest.taken, ← Multiset.coe_add]
    abel

theorem Ingest.Accounts.flush (h : s.Accounts c past) (faultless : env.Faultless) (rt : c.RoundTrips)
    (pos : 1 ≤ batchSize) {outcome : SendOutcome}
    (whole : outcome.live = true → outcome.drain = true → ∀ name ∈ (store s.world).oldest,
      ((store s.world).contents c name).length ≤ batchSize) :
    (s.flush c env batchSize outcome).Accounts c past := by
  obtain ⟨sends, t, run, batch, running, sent, eff⟩ :=
    flush_effect (c := c) faultless s batchSize outcome
  rw [run]
  refine ⟨running.trans h.running, eff.sound h.sound h.fits, by simp [batch], fun kept => ?_⟩
  have grown := eff.evicted_le
  have before := h.all (by omega)
  have step := eff.accounts rt h.sound h.fits pos whole (by omega)
  rw [held, batch, sent, delivered_append, Multiset.coe_nil, zero_add, ← Multiset.coe_add]
  calc (received past : Multiset V)
      ≤ s.batch + (store s.world).readable c + delivered s.sends := before
    _ ≤ (store t.world).readable c + delivered sends + delivered s.sends := add_le_add_left step _
    _ = (store t.world).readable c + (delivered s.sends + delivered sends) := by abel

theorem accounts_step (h : s.Accounts c past) (faultless : env.Faultless) (rt : c.RoundTrips)
    (pos : 1 ≤ batchSize) (open_ : e.input ≠ .recv none) (fits : ∀ v ∈ received [e], c.Fits v)
    (whole : DrainsWhole c batchSize s e) :
    (ingestStep c env batchSize s e).Accounts c (past ++ [e]) := by
  rw [ingestStep_open c env batchSize h.running open_]
  have taken := h.taken fits
  by_cases flushes : s.flushes batchSize e = true
  · rw [if_pos flushes]
    exact taken.flush faultless rt pos (whole flushes)
  · rw [if_neg flushes]
    exact taken

theorem accounts_start (faultless : env.Faultless) (maxBytes segmentMaxBytes : Nat) :
    (ingestStart env maxBytes segmentMaxBytes : Ingest V).Accounts c [] := by
  refine ⟨rfl, ?_, fun v hv => (List.not_mem_nil hv).elim, fun _ => Multiset.zero_le _⟩
  rw [store_ingestStart faultless]
  exact ⟨fun name bytes h => by simp at h, fun name h => (AList.notMem_empty name h).elim,
    fun name h => nomatch h⟩

/-- In every run whose drains take whole segments, every received record is in the batch,
readable from a segment file, or part of a batch that was sent. -/
theorem ingest_keeps_records (faultless : env.Faultless) (rt : c.RoundTrips) (pos : 1 ≤ batchSize)
    {maxBytes segmentMaxBytes : Nat} {events : List (IngestEvent V)}
    (run : Run (Only (ofTotal (ingestStep c env batchSize)) (DrainsWhole c batchSize))
      (ingestStart env maxBytes segmentMaxBytes) events s)
    (open_ : ∀ e ∈ events, e.input ≠ .recv none) (fits : ∀ v ∈ received events, c.Fits v)
    (kept : s.world.proc.metrics.bufferEvicted = 0) :
    (received events : Multiset V) ≤ s.batch + (store s.world).readable c + delivered s.sends := by
  have inv := run.keeps_history
    (P := fun past s => (∀ e ∈ past, e.input ≠ .recv none) → (∀ v ∈ received past, c.Fits v) →
      s.Accounts c past) ?_ (fun _ _ => accounts_start faultless _ _)
  · exact (inv open_ fits).all kept
  · rintro past s e t h ⟨rfl, whole⟩ open_ fits
    rw [received_append] at fits
    obtain ⟨openPast, openNow⟩ := List.forall_mem_append.mp open_
    obtain ⟨fitsPast, fitsNow⟩ := List.forall_mem_append.mp fits
    exact accounts_step (h openPast fitsPast) faultless rt pos (openNow e List.mem_cons_self) fitsNow whole

end Runs

def shortOutage : List (IngestEvent (Fin 10)) :=
  [⟨.recv (some 0), ⟨false, false⟩⟩, ⟨.recv (some 1), ⟨false, false⟩⟩, ⟨.recv (some 2), ⟨false, false⟩⟩,
    ⟨.recv (some 3), ⟨true, true⟩⟩]

/-- After the outage record 1 is nowhere: its segment was deleted when record 0 had been sent. -/
theorem ingest_loses_record :
    let s := shortOutage.foldl (ingestStep onlineCodec millisApart 1) (ingestStart millisApart 1000000 40)
    millisApart.Faultless ∧ Monotone millisApart.clock ∧ onlineCodec.RoundTrips ∧
      (∀ v ∈ received shortOutage, onlineCodec.Fits v) ∧
      (∀ e ∈ shortOutage, e.input ≠ .recv none) ∧ s.world.proc.metrics.bufferEvicted = 0 ∧
      1 ∈ received shortOutage ∧ 1 ∉ s.batch ∧ 1 ∉ (store s.world).readable onlineCodec ∧
      1 ∉ delivered s.sends :=
  ⟨fun _ => rfl, millisApart_monotone, onlineCodec_roundTrips, by decide +kernel,
    by decide, by decide +kernel, by decide, by decide +kernel, by decide +kernel, by decide +kernel⟩

/-- An outage that fills a segment with as many records as a drain takes. -/
theorem ingest_keeps_records_evenOutage :
    let events : List (IngestEvent (Fin 10)) :=
      [⟨.recv (some 0), ⟨false, false⟩⟩, ⟨.recv (some 1), ⟨false, false⟩⟩, ⟨.recv (some 2), ⟨false, false⟩⟩,
        ⟨.recv (some 3), ⟨false, false⟩⟩, ⟨.recv (some 4), ⟨false, false⟩⟩, ⟨.recv (some 5), ⟨true, true⟩⟩]
    let s := events.foldl (ingestStep onlineCodec millisApart 2) (ingestStart millisApart 1000000 40)
    (received events : Multiset (Fin 10)) ≤
      s.batch + (store s.world).readable onlineCodec + delivered s.sends :=
  ingest_keeps_records (fun _ => rfl) onlineCodec_roundTrips (by decide)
    (run_only_iff.mpr ⟨by decide +kernel, rfl⟩) (by decide) (by decide +kernel) (by decide +kernel)

end ServerPoller
