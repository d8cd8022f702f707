import ServerPoller.Ingest
import ServerPoller.Lib.Batching
import ServerPoller.Lib.IoOutcomes

/-! The batches that the ingest loops send. There are two loops, one with the disk buffer and one for when
it cannot be opened, and both collect payloads into the same batches. -/

namespace ServerPoller
open DirectoryIo Transition

/-- The task of `run_ingest_loop_no_wal`. -/
structure PlainIngest (V : Type) where
  batch : List V
  sends : List (Send V)
  returned : Bool

section Loops
variable {V : Type} (c : Codec V) (env : Surroundings)

def PlainIngest.send (outcome : SendOutcome) (s : PlainIngest V) : PlainIngest V :=
  { s with batch := [], sends := s.sends ++ [⟨.live, s.batch, outcome.live⟩] }

/-- One turn of the `select!` loop of `run_ingest_loop_no_wal`. -/
def plainStep (batchSize : Nat) (s : PlainIngest V) (e : IngestEvent V) : PlainIngest V :=
  if s.returned then s
  else match e.input with
    | .recv (some payload) =>
        let s := { s with batch := s.batch ++ [payload] }
        if batchSize ≤ s.batch.length then s.send e.outcome else s
    | .recv none => { s with batch := [], returned := true }
    | .deadline => if s.batch.isEmpty then s else s.send e.outcome

def plainStart : PlainIngest V := ⟨[], [], false⟩

def ingestOver (w : World WalProcess) : Ingest V := ⟨[], w, [], false⟩

/-- The calls of `send_batch` that are not drains. -/
def liveSends (sends : List (Send V)) : List (Send V) := sends.filter fun s => s.kind == .live

def liveBatches (sends : List (Send V)) : List (List V) := (liveSends sends).map Send.items

def Open (events : List (IngestEvent V)) : Prop := ∀ e ∈ events, e.input ≠ .recv none

end Loops

section Flush
variable {V : Type} {c : Codec V} {env : Surroundings} {w : World WalProcess}

theorem hasPending_returns {R : Bool → World WalProcess → Prop} (hr : ∀ pending w', R pending w') :
    Yields (hasPending env) w R := by
  refine yields_bind (yields_attempt_any fun r w' => ?_)
  cases r with
  | error _ => exact yields_pure (hr _ _)
  | ok _ => exact yields_bind (yields_bind (yields_get (yields_pure (yields_pure (hr _ _)))))

theorem drainOldest_returns (drainMax : Nat) (drainOk : Bool) :
    Yields (drainOldest c env drainMax drainOk) w (fun sends _ => ∀ s ∈ sends, s.kind = .drain) := by
  refine yields_bind (hasPending_returns fun pending w₁ => ?_)
  cases pending with
  | false => exact yields_pure nofun
  | true =>
      refine yields_bind (yields_attempt_any fun r w₂ => ?_)
      match r with
      | .error _ => exact yields_pure nofun
      | .ok none => exact yields_pure nofun
      | .ok (some (path, items)) =>
          dsimp only
          cases items.isEmpty with
          | true => exact yields_bind (yields_attempt_any fun _ _ => yields_pure nofun)
          | false =>
              cases drainOk with
              | true => exact yields_bind (yields_attempt_any fun _ _ => yields_pure (by simp))
              | false => exact yields_pure (by simp)

/-- Whatever fails in it, `flush_batch` sends the batch once, and all other calls are drains. -/
theorem flushBatch_returns (c : Codec V) (env : Surroundings) (w : World WalProcess) (drainMax : Nat)
    (outcome : SendOutcome) (batch : List V) :
    Yields (flushBatch c env drainMax outcome batch) w (fun sends _ =>
      liveSends sends = [⟨.live, batch, outcome.live⟩]) := by
  unfold flushBatch
  cases live : outcome.live with
  | true =>
      refine yields_bind ((drainOldest_returns drainMax outcome.drain).mono fun drains w' only => ?_)
      refine yields_pure ?_
      have none_live : liveSends drains = [] := List.filter_eq_nil_iff.mpr fun s member => by simp [only s member]
      rw [liveSends, List.filter_cons_of_pos (by rfl)]
      exact congrArg _ none_live
  | false => exact yields_bind (yields_attempt_any fun _ _ => yields_pure rfl)

theorem liveSends_flush (c : Codec V) (env : Surroundings) (batchSize : Nat) (outcome : SendOutcome) (s : Ingest V) :
    (s.flush c env batchSize outcome).batch = [] ∧
      (s.flush c env batchSize outcome).returned = s.returned ∧
      liveSends (s.flush c env batchSize outcome).sends =
        liveSends s.sends ++ [⟨.live, s.batch, outcome.live⟩] := by
  obtain ⟨sends, w, run, live⟩ := flushBatch_returns c env s.world batchSize outcome s.batch
  rw [Ingest.flush, run]
  exact ⟨rfl, rfl, by rw [liveSends, List.filter_append]; exact congrArg _ live⟩

end Flush

section Batches
variable {V : Type} {c : Codec V} {env : Surroundings} {batchSize : Nat} {s : Ingest V} {t : PlainIngest V}

/-- Nothing but the drains tells the two loops apart. -/
structure Alike (s : Ingest V) (t : PlainIngest V) : Prop where
  batch : s.batch = t.batch
  sends : liveSends s.sends = liveSends t.sends
  returned : s.returned = t.returned

theorem Alike.flush (h : Alike s t) (outcome : SendOutcome) :
    Alike (s.flush c env batchSize outcome) (t.send outcome) := by
  obtain ⟨batch, returned, sends⟩ := liveSends_flush c env batchSize outcome s
  refine ⟨batch, ?_, returned.trans h.returned⟩
  rw [sends, h.sends, h.batch, PlainIngest.send, liveSends, liveSends, List.filter_append]
  rfl

theorem Alike.step (h : Alike s t) (e : IngestEvent V) :
    Alike (ingestStep c env batchSize s e) (plainStep batchSize t e) := by
  by_cases returned : t.returned = true
  · rw [ingestStep, if_pos (h.returned.trans returned), plainStep, if_pos returned]
    exact h
  · have running : ¬s.returned = true := h.returned ▸ returned
    rw [ingestStep, if_neg running, plainStep, if_neg returned]
    obtain ⟨input, outcome⟩ := e
    cases input with
    | recv received =>
        cases received with
        | none => exact ⟨rfl, h.sends, rfl⟩
        | some payload =>
            have taken : Alike { s with batch := s.batch ++ [payload] } { t with batch := t.batch ++ [payload] } :=
              ⟨congrArg (· ++ [payload]) h.batch, h.sends, h.returned⟩
            have length : (s.batch ++ [payload]).length = (t.batch ++ [payload]).length :=
              congrArg List.length taken.batch
            simp only [length]
            by_cases full : batchSize ≤ (t.batch ++ [payload]).length
            · rw [if_pos full, if_pos full]
              exact taken.flush outcome
            · rw [if_neg full, if_neg full]
              exact taken
    | deadline =>
        dsimp only
        rw [h.batch]
        by_cases nothing : t.batch.isEmpty = true
        · rw [if_pos nothing, if_pos nothing]
          exact h
        · rw [if_neg nothing, if_neg nothing]
          exact h.flush outcome

theorem alike_run {events : List (IngestEvent V)} {w : World WalProcess}
    (run : Run (ofTotal (ingestStep c env batchSize)) (ingestOver w) events s)
    (plain : Run (ofTotal (plainStep batchSize)) plainStart events t) : Alike s t := by
  have start : Alike (ingestOver w : Ingest V) plainStart := ⟨rfl, rfl, rfl⟩
  have both := plain.keeps_history
    (P := fun past t => ∀ s, Run (ofTotal (ingestStep c env batchSize)) (ingestOver w) past s → Alike s t) ?_ ?_
  · exact both s run
  · rintro past t e _ before rfl s run
    obtain ⟨u, earlier, last⟩ := run.split
    rw [← run_ofTotal_iff.mp last]
    exact (before u earlier).step e
  · intro s run
    rw [← run_ofTotal_iff.mp run]
    exact start

def IngestEvent.collected (e : IngestEvent V) : Batching.Input V :=
  match e.input with
  | .recv (some payload) => .item payload
  | _ => .tick

theorem items_collected {events : List (IngestEvent V)} (open_ : Open events) :
    Batching.items (events.map IngestEvent.collected) = received events := by
  induction events with
  | nil => rfl
  | cons e events ih =>
      obtain ⟨here, later⟩ := List.forall_mem_cons.mp open_
      have rest := ih later
      rcases e with ⟨input, outcome⟩
      match input with
      | .recv none => exact absurd rfl here
      | .recv (some payload) => exact congrArg (payload :: ·) rest
      | .deadline => exact rest

structure Collects (t : PlainIngest V) (b : Batching.Collected V) : Prop where
  waiting : t.batch = b.waiting
  batches : liveBatches t.sends = b.batches
  running : t.returned = false

theorem Collects.send {b : Batching.Collected V} (h : Collects t b) (outcome : SendOutcome) :
    Collects (t.send outcome) b.cut := by
  refine ⟨rfl, ?_, h.running⟩
  rw [PlainIngest.send, liveBatches, liveSends, List.filter_append, List.map_append]
  exact congrArg₂ _ h.batches (by rw [h.waiting]; rfl)

theorem plainStep_collects {b : Batching.Collected V} (h : Collects t b) {e : IngestEvent V}
    (open_ : e.input ≠ .recv none) :
    Collects (plainStep batchSize t e) (Batching.collect batchSize b e.collected) := by
  have running : ¬t.returned = true := by rw [h.running]; exact Bool.false_ne_true
  rw [plainStep, if_neg running, IngestEvent.collected]
  match input : e.input with
  | .recv none => exact absurd input open_
  | .recv (some payload) =>
      have taken : Collects { t with batch := t.batch ++ [payload] } { b with waiting := b.waiting ++ [payload] } :=
        ⟨congrArg (· ++ [payload]) h.waiting, h.batches, h.running⟩
      have length : (t.batch ++ [payload]).length = (b.waiting ++ [payload]).length := congrArg List.length taken.waiting
      simp only [Batching.collect, length]
      by_cases full : batchSize ≤ (b.waiting ++ [payload]).length
      · rw [if_pos full, if_pos full]
        exact taken.send e.outcome
      · rw [if_neg full, if_neg full]
        exact taken
  | .deadline =>
      simp only [Batching.collect, h.waiting]
      by_cases nothing : b.waiting.isEmpty = true
      · rw [if_pos nothing, if_pos nothing]
        exact h
      · rw [if_neg nothing, if_neg nothing]
        exact h.send e.outcome

theorem plain_collects {events : List (IngestEvent V)} (open_ : Open events)
    (plain : Run (ofTotal (plainStep batchSize)) plainStart events t) :
    ∃ b, Run (ofTotal (Batching.collect batchSize)) Batching.empty (events.map IngestEvent.collected) b ∧
      Collects t b := by
  have all := plain.keeps_history
    (P := fun past t => Open past → ∃ b, Run (ofTotal (Batching.collect batchSize)) Batching.empty
      (past.map IngestEvent.collected) b ∧ Collects t b) ?_ ?_
  · exact all open_
  · rintro past t e _ before rfl open_
    obtain ⟨openPast, openNow⟩ := List.forall_mem_append.mp open_
    obtain ⟨b, run, collects⟩ := before openPast
    refine ⟨_, ?_, plainStep_collects collects (openNow e List.mem_cons_self)⟩
    rw [List.map_append]
    exact run.append (.single rfl)
  · intro _
    exact ⟨Batching.empty, .nil _, rfl, rfl, rfl⟩

/-- The two loops send the same live batches, none of them empty or too large, and together with the one
in memory these are the payloads received. -/
theorem ingest_loops_batch_alike (c : Codec V) (env : Surroundings) (w : World WalProcess) (batchSize : Nat)
    {events : List (IngestEvent V)} (open_ : Open events)
    (run : Run (ofTotal (ingestStep c env batchSize)) (ingestOver w) events s)
    (plain : Run (ofTotal (plainStep batchSize)) plainStart events t) :
    liveSends s.sends = liveSends t.sends ∧ s.batch = t.batch ∧
      (∀ batch ∈ liveBatches t.sends, batch ≠ [] ∧ batch.length ≤ max batchSize 1) ∧
      (liveBatches t.sends).flatten ++ t.batch = received events := by
  have alike := alike_run run plain
  obtain ⟨b, collected, same⟩ := plain_collects open_ plain
  have holds := Batching.run_holds collected
  refine ⟨alike.sends, alike.batch, ?_, ?_⟩
  · rw [same.batches]
    exact holds.sizes
  · rw [same.batches, same.waiting, ← items_collected open_]
    exact holds.partition

def payloadsSinceTick (events : List (IngestEvent V)) : Nat := Batching.sinceTick (events.map IngestEvent.collected)

/-- Every payload received was part of a batch that was sent, as often as it was received. -/
def AllSent (events : List (IngestEvent V)) (sends : List (Send V)) : Prop :=
  (received events).Subperm (liveBatches sends).flatten

instance [DecidableEq V] (events : List (IngestEvent V)) (sends : List (Send V)) : Decidable (AllSent events sends) :=
  inferInstanceAs (Decidable (List.Subperm _ _))

/-- When the channel is closed both loops return, and they have sent everything exactly when the payloads
since the last tick came to full batches. -/
theorem shutdown_sends_all_iff (c : Codec V) (env : Surroundings) (w : World WalProcess) (batchSize : Nat)
    {events : List (IngestEvent V)} (open_ : Open events) (outcome : SendOutcome)
    (run : Run (ofTotal (ingestStep c env batchSize)) (ingestOver w) (events ++ [⟨.recv none, outcome⟩]) s)
    (plain : Run (ofTotal (plainStep batchSize)) plainStart (events ++ [⟨.recv none, outcome⟩]) t) :
    s.returned = true ∧ t.returned = true ∧
      (AllSent events s.sends ↔ max batchSize 1 ∣ payloadsSinceTick events) ∧
      (AllSent events t.sends ↔ max batchSize 1 ∣ payloadsSinceTick events) := by
  obtain ⟨u, before, last⟩ := plain.split
  obtain ⟨b, collected, same⟩ := plain_collects open_ before
  have holds := Batching.run_holds collected
  have alike := alike_run run plain
  have final : t = { u with batch := [], returned := true } := by
    rw [← run_ofTotal_iff.mp last]
    exact if_neg (by rw [same.running]; exact Bool.false_ne_true)
  have live : liveBatches t.sends = b.batches := by rw [final]; exact same.batches
  have liveWal : liveBatches s.sends = b.batches := (congrArg (List.map Send.items) alike.sends).trans live
  have left : received events = b.batches.flatten ++ b.waiting := by
    rw [holds.partition, items_collected open_]
  have all : (received events).Subperm b.batches.flatten ↔ max batchSize 1 ∣ payloadsSinceTick events := by
    have count : b.waiting.length = payloadsSinceTick events % max batchSize 1 := holds.count
    rw [left, Nat.dvd_iff_mod_eq_zero, ← count, List.length_eq_zero_iff]
    constructor
    · intro fewer
      have lengths := fewer.length_le
      rw [List.length_append] at lengths
      exact List.length_eq_zero_iff.mp (by omega)
    · intro nothing
      rw [nothing, List.append_nil]
  have returned : t.returned = true := by rw [final]
  exact ⟨alike.returned.trans returned, returned, by rw [AllSent, liveWal, all], by rw [AllSent, live, all]⟩

end Batches

/-- An outage that begins with the second batch: a tick cuts off a batch of one, and two payloads are the
next. -/
theorem ingest_loops_batch_alike_outage :
    let events : List (IngestEvent (Fin 10)) := [⟨.recv (some 1), ⟨true, true⟩⟩, ⟨.deadline, ⟨true, true⟩⟩,
      ⟨.recv (some 2), ⟨true, true⟩⟩, ⟨.recv (some 3), ⟨false, true⟩⟩]
    let s := events.foldl (ingestStep onlineCodec millisApart 2) (ingestOver emptyWorld)
    let t := events.foldl (plainStep 2) plainStart
    liveBatches s.sends = [[1], [2, 3]] ∧ liveSends s.sends = liveSends t.sends := by
  intro events s t
  have open_ : Open events := by simp [Open, events]
  exact ⟨by decide +kernel, (ingest_loops_batch_alike onlineCodec millisApart emptyWorld 2 open_
    (run_ofTotal_iff.mpr rfl) (run_ofTotal_iff.mpr rfl)).1⟩

/-- Two payloads in batches of two are sent before the channel is closed. -/
theorem shutdown_sends_all_iff_fullBatch :
    let events : List (IngestEvent (Fin 10)) := [⟨.recv (some 1), ⟨true, true⟩⟩, ⟨.recv (some 2), ⟨true, true⟩⟩]
    let closing : IngestEvent (Fin 10) := ⟨.recv none, ⟨true, true⟩⟩
    let s := (events ++ [closing]).foldl (ingestStep onlineCodec millisApart 2) (ingestOver emptyWorld)
    s.returned = true ∧ AllSent events s.sends := by
  intro events closing s
  have open_ : Open events := by simp [Open, events]
  obtain ⟨returned, _, sent, _⟩ := shutdown_sends_all_iff onlineCodec millisApart emptyWorld 2 open_ ⟨true, true⟩
    (run_ofTotal_iff.mpr rfl) (run_ofTotal_iff.mpr rfl)
  exact ⟨returned, sent.mpr (by decide)⟩

/-- One payload of a batch of two is in memory when the channel is closed, and is neither sent nor in the buffer. -/
theorem shutdown_loses_payload :
    let events : List (IngestEvent (Fin 10)) := [⟨.recv (some 3), ⟨true, true⟩⟩]
    let closing : IngestEvent (Fin 10) := ⟨.recv none, ⟨true, true⟩⟩
    let s := (events ++ [closing]).foldl (ingestStep onlineCodec millisApart 2) (ingestStart millisApart 1000 1000)
    let t := (events ++ [closing]).foldl (plainStep 2) plainStart
    s.returned = true ∧ ¬AllSent events s.sends ∧ (store s.world).readable onlineCodec = [] ∧
      t.returned = true ∧ ¬AllSent events t.sends := by
  intro events closing s t
  exact ⟨by decide +kernel, by decide +kernel, by decide +kernel, by decide +kernel, by decide +kernel⟩

end ServerPoller
