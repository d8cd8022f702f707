import ServerPoller.Ingest
import ServerPoller.WalJournal
import Mathlib.Tactic.Abel

/-! No record is delivered, kept or buffered more often than it was received. A segment may hold
records that the reader does not take, so the account is kept in the journal of what was written. -/

namespace ServerPoller
open DirectoryIo Transition

section Once
variable {V : Type} {c : Codec V} {env : Surroundings} {batchSize : Nat} {outcome : SendOutcome}
  {batch : List V} {j : Journal V} {t : Store} {sends : List (Send V)}

theorem Journal.removed_read (rt : c.RoundTrips) (sized : ∀ v ∈ j.all, c.Sized v) {name : String}
    (oldest : j.oldest = some name) (limit : Nat) :
    ((((j.store c).contents c name).take limit : List V) : Multiset V) + (j.removed name).all ≤ j.all := by
  obtain ⟨vs, found⟩ := oldest_found oldest
  rw [contents_store rt found fun v hv => sized v (mem_all found hv), all_removed found]
  apply add_le_add_left
  apply Multiset.coe_le.mpr
  exact ((List.take_sublist _ _).trans (List.takeWhile_sublist _)).subperm

/-- What a flush delivers and leaves in the segments was in the batch or in the segments. -/
theorem FlushEffect.once (eff : FlushEffect c env batchSize outcome batch (j.store c) sends t)
    (rt : c.RoundTrips) (sized : ∀ v ∈ j.all, c.Sized v) :
    ∃ k : Journal V, t = k.store c ∧ (delivered sends + k.all : Multiset V) ≤ batch + j.all := by
  cases eff with
  | buffered live writes moved =>
      obtain ⟨k, run, eq⟩ := moves_journal moved
      refine ⟨k, eq, ?_⟩
      have grown := Journal.all_moves_le run
      rw [writes.all] at grown
      simp only [delivered, List.flatMap_cons, List.flatMap_nil, Bool.false_eq_true, if_false,
        List.append_nil, Multiset.coe_nil, zero_add]
      rw [add_comm]
      exact grown
  | nothing_pending =>
      refine ⟨j, rfl, ?_⟩
      simp only [delivered, List.flatMap_cons, List.flatMap_nil, if_true, List.append_nil]
      exact le_rfl
  | @emptied name live oldest =>
      rw [Journal.store_oldest] at oldest
      refine ⟨j.removed name, (Journal.store_removed name).symm, ?_⟩
      simp only [delivered, List.flatMap_cons, List.flatMap_nil, if_true, List.append_nil]
      gcongr
      exact Journal.all_removed_le oldest
  | @drained name items live drain oldest read =>
      rw [Journal.store_oldest] at oldest
      refine ⟨j.removed name, (Journal.store_removed name).symm, ?_⟩
      have taken := Journal.removed_read rt sized oldest batchSize
      rw [read] at taken
      simp only [delivered, List.flatMap_cons, List.flatMap_nil, if_true, List.append_nil]
      rw [← Multiset.coe_add, add_assoc]
      gcongr
  | refused =>
      refine ⟨j, rfl, ?_⟩
      simp only [delivered, List.flatMap_cons, List.flatMap_nil, if_true, Bool.false_eq_true, if_false,
        List.append_nil]
      exact le_rfl

/-- The segments encode a journal, and all records that are delivered, in the batch or in the journal
were received. -/
def Ingest.Once (c : Codec V) (past : List (IngestEvent V)) (s : Ingest V) : Prop :=
  ∃ j : Journal V, store s.world = j.store c ∧
    (delivered s.sends + s.batch + j.all : Multiset V) ≤ received past

variable {s : Ingest V} {past : List (IngestEvent V)} {e : IngestEvent V}

theorem Ingest.Once.taken (h : s.Once c past) : (s.taken e).Once c (past ++ [e]) := by
  obtain ⟨j, files, account⟩ := h
  refine ⟨j, files, ?_⟩
  rw [received_append, ← Multiset.coe_add]
  calc (delivered s.sends + (s.batch ++ received [e] : List V) + j.all : Multiset V)
      = (delivered s.sends + s.batch + j.all : Multiset V) + received [e] := by
        rw [← Multiset.coe_add]
        abel
    _ ≤ received past + received [e] := by gcongr

theorem Ingest.Once.later (h : s.Once c past) (e : IngestEvent V) {t : List V}
    (fewer : (t : Multiset V) ≤ s.batch) (returned : Bool) :
    { s with batch := t, returned := returned }.Once c (past ++ [e]) := by
  obtain ⟨j, files, account⟩ := h
  refine ⟨j, files, ?_⟩
  rw [received_append, ← Multiset.coe_add]
  calc (delivered s.sends + t + j.all : Multiset V)
      ≤ delivered s.sends + s.batch + j.all := by gcongr
    _ ≤ received past := account
    _ ≤ received past + received [e] := Multiset.le_add_right _ _

theorem Ingest.Once.flush (h : s.Once c past) (faultless : env.Faultless) (rt : c.RoundTrips)
    (sized : ∀ v ∈ received past, c.Sized v) : (s.flush c env batchSize outcome).Once c past := by
  obtain ⟨j, files, account⟩ := h
  obtain ⟨sends, t, run, batch, _, sent, eff⟩ := flush_effect (c := c) faultless s batchSize outcome
  have known : ∀ v ∈ j.all, c.Sized v := by
    intro v hv
    have held : v ∈ (received past : Multiset V) :=
      Multiset.mem_of_le account (Multiset.mem_add.mpr (.inr hv))
    exact sized v held
  rw [files] at eff
  obtain ⟨k, files', once⟩ := eff.once rt known
  rw [run]
  refine ⟨k, files', ?_⟩
  rw [batch, sent, delivered_append, ← Multiset.coe_add, Multiset.coe_nil, add_zero]
  calc (delivered s.sends + delivered sends + k.all : Multiset V)
      = delivered s.sends + (delivered sends + k.all) := by abel
    _ ≤ delivered s.sends + (s.batch + j.all) := by gcongr
    _ = delivered s.sends + s.batch + j.all := by abel
    _ ≤ received past := account

theorem once_step (h : s.Once c past) (faultless : env.Faultless) (rt : c.RoundTrips)
    (sized : ∀ v ∈ received (past ++ [e]), c.Sized v) :
    (ingestStep c env batchSize s e).Once c (past ++ [e]) := by
  by_cases returned : s.returned = true
  · have same : ingestStep c env batchSize s e = s := by simp only [ingestStep, returned, if_true]
    rw [same]
    exact h.later e le_rfl s.returned
  · by_cases open_ : e.input = .recv none
    · have closed : ingestStep c env batchSize s e = { s with batch := [], returned := true } := by
        simp [ingestStep, returned, open_]
      rw [closed]
      exact h.later e (Multiset.zero_le _) true
    · rw [ingestStep_open c env batchSize (by simpa using returned) open_]
      split
      · exact h.taken.flush faultless rt sized
      · exact h.taken

theorem once_start (faultless : env.Faultless) (maxBytes segmentMaxBytes : Nat) :
    (ingestStart env maxBytes segmentMaxBytes : Ingest V).Once c [] := by
  refine ⟨⟨none, ∅, 0, 0⟩, store_ingestStart faultless maxBytes segmentMaxBytes, ?_⟩
  exact le_rfl

/-- Every value occurs in delivered batches, in the batch and in the readable part of the segments
together at most as often as it was received. -/
theorem ingest_never_duplicates [DecidableEq V] (faultless : env.Faultless) (rt : c.RoundTrips)
    {maxBytes segmentMaxBytes : Nat} {events : List (IngestEvent V)}
    (run : Run (ofTotal (ingestStep c env batchSize)) (ingestStart env maxBytes segmentMaxBytes) events s)
    (sized : ∀ v ∈ received events, c.Sized v) (v : V) :
    (delivered s.sends).count v + s.batch.count v + ((store s.world).readable c).count v ≤
      (received events).count v := by
  have inv := run.keeps_history
    (P := fun past s => (∀ v ∈ received past, c.Sized v) → s.Once c past) ?_
    (fun _ => once_start faultless _ _)
  · obtain ⟨j, files, account⟩ := inv sized
    have known : ∀ v ∈ j.all, c.Sized v := by
      intro v hv
      have held : v ∈ (received events : Multiset V) :=
        Multiset.mem_of_le account (Multiset.mem_add.mpr (.inr hv))
      exact sized v held
    have readable := Journal.readable_le rt known
    rw [← files] at readable
    have all : (delivered s.sends + s.batch + (store s.world).readable c : Multiset V) ≤ received events :=
      le_trans (by gcongr) account
    simpa only [Multiset.count_add, Multiset.coe_count] using Multiset.count_le_of_le v all
  · rintro past s e t h rfl sized
    rw [received_append] at sized
    exact once_step (h (List.forall_mem_append.mp sized).1) faultless rt (by rwa [received_append])

end Once

/-- A record is buffered, read for a drain that fails, and read again for one that succeeds. -/
theorem ingest_never_duplicates_secondDrain :
    let events : List (IngestEvent (Fin 10)) :=
      [⟨.recv (some 0), ⟨false, false⟩⟩, ⟨.recv (some 1), ⟨false, false⟩⟩, ⟨.recv (some 2), ⟨false, false⟩⟩,
        ⟨.recv (some 3), ⟨true, false⟩⟩, ⟨.recv (some 4), ⟨true, true⟩⟩]
    let s := events.foldl (ingestStep onlineCodec millisApart 1) (ingestStart millisApart 1000000 40)
    0 ∈ delivered s.sends ∧
      (delivered s.sends).count 0 + s.batch.count 0 + ((store s.world).readable onlineCodec).count 0 ≤
        (received events).count 0 :=
  ⟨by decide +kernel, ingest_never_duplicates (fun _ => rfl) onlineCodec_roundTrips
    (run_ofTotal_iff.mpr rfl) (by decide +kernel) 0⟩

end ServerPoller
