import ServerPoller.IngestBatches
import ServerPoller.PayloadFlow

/-! The workers and `ingest_loop` with the result queue between them. Seen from one side it is the collector, from the
other the loop over what comes out of the queue. -/

namespace ServerPoller
open Json DirectoryIo Transition

structure Forwarding where
  collector : Collector
  ingest : Ingest Value

/-- A step of another task, or a turn of `ingest_loop` with the answers of the monitoring service. -/
inductive ForwardingAct where
  | task (a : Action)
  | recv (outcome : SendOutcome)
  | deadline (outcome : SendOutcome)

def Action.ofIngest : Action → Bool
  | .ingestReceive => true
  | _ => false

def ForwardingAct.collected : ForwardingAct → List Action
  | .task a => [a]
  | .recv _ => [.ingestReceive]
  | .deadline _ => []

namespace Forwarding

/-- `ingest_loop` with a buffer over any directory, before anything is polled. -/
def start (w : World WalProcess) : Forwarding := ⟨.start, ingestOver w⟩

section Functions
variable (crates : Crates) (settings : Settings) (codec : Codec Value) (env : Surroundings) (batchSize : Nat)

/-- The senders of the result queue are never dropped, so it is never closed. -/
def step (f : Forwarding) : ForwardingAct → Option Forwarding
  | .task a =>
      if a.ofIngest then none
      else (ServerPoller.step crates settings f.collector a).map fun c => { f with collector := c }
  | .recv outcome =>
      match f.collector.results with
      | [] => none
      | payload :: rest => some
          { collector := { f.collector with results := rest }
            ingest := ingestStep codec env batchSize f.ingest ⟨.recv (some payload), outcome⟩ }
  | .deadline outcome => some { f with ingest := ingestStep codec env batchSize f.ingest ⟨.deadline, outcome⟩ }

def On (ok : Collector → Action → Prop) (f : Forwarding) : ForwardingAct → Prop
  | .task a => ok f.collector a
  | .recv _ => ok f.collector .ingestReceive
  | .deadline _ => True

instance (ok : Collector → Action → Prop) [∀ c a, Decidable (ok c a)] (f : Forwarding) :
    ∀ a, Decidable (f.On ok a)
  | .task a => inferInstanceAs (Decidable (ok f.collector a))
  | .recv _ => inferInstanceAs (Decidable (ok f.collector .ingestReceive))
  | .deadline _ => inferInstanceAs (Decidable True)

end Functions

section Sides
variable {crates : Crates} {settings : Settings} {codec : Codec Value} {env : Surroundings} {batchSize : Nat}
  {w : World WalProcess} {f g : Forwarding} {acts : List ForwardingAct} {ok : Collector → Action → Prop}

theorem step_collector {a : ForwardingAct} (hs : f.step crates settings codec env batchSize a = some g) (met : f.On ok a) :
    Run (Only (ofFn (ServerPoller.step crates settings)) ok) f.collector a.collected g.collector := by
  cases a with
  | task a =>
      simp only [step, Option.ite_none_left_eq_some, Option.map_eq_some_iff] at hs
      obtain ⟨_, c, moved, rfl⟩ := hs
      exact .single ⟨moved, met⟩
  | recv outcome =>
      cases queue : f.collector.results with
      | nil =>
          simp only [step, queue] at hs
          cases hs
      | cons payload rest =>
          simp only [step, queue] at hs
          cases hs
          have moved : ServerPoller.step crates settings f.collector .ingestReceive =
              some { f.collector with results := rest } := by simp only [ServerPoller.step, queue]
          exact .single ⟨moved, met⟩
  | deadline outcome =>
      cases hs
      exact .nil _

theorem run_collector
    (run : Run (Only (ofFn (step crates settings codec env batchSize)) (On ok)) f acts g) :
    Run (Only (ofFn (ServerPoller.step crates settings)) ok) f.collector (acts.flatMap ForwardingAct.collected)
      g.collector := by
  induction run with
  | nil f => exact .nil _
  | cons first _ ih =>
      rw [List.flatMap_cons]
      exact (step_collector first.1 first.2).append ih

/-- What `ingest_loop` receives is what comes out of the queue. -/
def Fed (crates : Crates) (settings : Settings) (codec : Codec Value) (env : Surroundings) (batchSize : Nat)
    (w : World WalProcess) (acts : List ForwardingAct) (f : Forwarding) : Prop :=
  ∃ events, Run (ofTotal (ingestStep codec env batchSize)) (ingestOver w) events f.ingest ∧ Open events ∧
    received events = gather (ServerPoller.step crates settings) Collector.taken .start
      (acts.flatMap ForwardingAct.collected)

theorem step_fed (outer : Run (ofFn (ServerPoller.step crates settings)) .start
      (acts.flatMap ForwardingAct.collected) f.collector)
    (h : Fed crates settings codec env batchSize w acts f) {a : ForwardingAct}
    (hs : f.step crates settings codec env batchSize a = some g) :
    Fed crates settings codec env batchSize w (acts ++ [a]) g := by
  obtain ⟨events, inner, open_, same⟩ := h
  have fed : ∀ {e : IngestEvent Value}, e.input ≠ .recv none → ingestStep codec env batchSize f.ingest e = g.ingest →
      Run (ofTotal (ingestStep codec env batchSize)) (ingestOver w) (events ++ [e]) g.ingest ∧ Open (events ++ [e]) :=
    fun here turn =>
      ⟨inner.append (.single turn), List.forall_mem_append.mpr ⟨open_, List.forall_mem_singleton.mpr here⟩⟩
  rw [Fed, List.flatMap_append]
  cases a with
  | task a =>
      simp only [step, Option.ite_none_left_eq_some, Bool.not_eq_true, Option.map_eq_some_iff] at hs
      obtain ⟨other, c, moved, rfl⟩ := hs
      have silent : f.collector.taken a = [] := by cases a <;> first | rfl | cases other
      have grown := gather_append Collector.taken outer moved
      rw [silent, List.append_nil] at grown
      exact ⟨events, inner, open_, same.trans grown.symm⟩
  | recv outcome =>
      cases queue : f.collector.results with
      | nil =>
          simp only [step, queue] at hs
          cases hs
      | cons payload rest =>
          simp only [step, queue] at hs
          cases hs
          have moved : ServerPoller.step crates settings f.collector .ingestReceive =
              some { f.collector with results := rest } := by simp only [ServerPoller.step, queue]
          have grown := gather_append Collector.taken outer moved
          rw [Collector.taken, queue] at grown
          obtain ⟨run, opened⟩ := @fed ⟨.recv (some payload), outcome⟩ (by simp) rfl
          refine ⟨_, run, opened, ?_⟩
          rw [received_append, same]
          exact grown.symm
  | deadline outcome =>
      cases hs
      obtain ⟨run, opened⟩ := @fed ⟨.deadline, outcome⟩ (by simp) rfl
      refine ⟨_, run, opened, ?_⟩
      have idle : [ForwardingAct.deadline outcome].flatMap ForwardingAct.collected = [] := rfl
      rw [received_append, same, idle, List.append_nil]
      exact List.append_nil _

theorem run_fed (run : Run (ofFn (step crates settings codec env batchSize)) (start w) acts f) :
    Fed crates settings codec env batchSize w acts f := by
  refine run.keeps_along (P := Fed crates settings codec env batchSize w) ?_ ⟨[], .nil _, by simp [Open], rfl⟩
  intro past u a v before fed moved
  have free : Run (Only (ofFn (step crates settings codec env batchSize)) (On fun _ _ => True)) (start w) past u :=
    before.mono fun _ a _ moved => ⟨moved, by cases a <;> trivial⟩
  exact step_fed (run_collector free).unrestricted fed moved

theorem Fed.sent (h : Fed crates settings codec env batchSize w acts f) :
    (liveBatches f.ingest.sends).flatten ++ f.ingest.batch =
      gather (ServerPoller.step crates settings) Collector.taken .start (acts.flatMap ForwardingAct.collected) := by
  obtain ⟨events, inner, open_, same⟩ := h
  have plain := run_ofTotal_iff.mpr (Eq.refl (events.foldl (plainStep batchSize) plainStart))
  have alike := alike_run inner plain
  obtain ⟨b, collected, collects⟩ := plain_collects open_ plain
  have live : liveBatches f.ingest.sends = b.batches :=
    (congrArg (List.map Send.items) alike.sends).trans collects.batches
  rw [← same, ← items_collected open_, ← (Batching.run_holds collected).partition, live, alike.batch, collects.waiting]

end Sides

end Forwarding

section Told
variable {crates : Crates} {settings : Settings} {codec : Codec Value} {env : Surroundings} {batchSize : Nat}
  {w : World WalProcess} {f : Forwarding} {acts : List ForwardingAct}

/-- In every run each payload that an update has made is part of one live batch that was sent to the monitoring service,
or in the batch of `ingest_loop`, in the result queue, dropped because the queue was full, or with a worker; and what
the workers have queued is sent in that order. -/
theorem payloads_sent_once
    (run : Run (ofFn (Forwarding.step crates settings codec env batchSize)) (.start w) acts f) :
    (gather (step crates settings) (Collector.produced crates settings) .start
        (acts.flatMap ForwardingAct.collected)).Perm
      ((liveBatches f.ingest.sends).flatten ++ f.ingest.batch ++ f.collector.results ++
        gather (step crates settings) (Collector.refused settings) .start (acts.flatMap ForwardingAct.collected) ++
          f.collector.unsent settings) ∧
      gather (step crates settings) (Collector.queued settings) .start (acts.flatMap ForwardingAct.collected) =
        (liveBatches f.ingest.sends).flatten ++ f.ingest.batch ++ f.collector.results := by
  have free : Run (Only (ofFn (Forwarding.step crates settings codec env batchSize))
      (Forwarding.On fun _ _ => True)) (.start w) acts f := run.mono fun _ a _ moved => ⟨moved, by cases a <;> trivial⟩
  have conserves := run_conserves (Forwarding.run_collector free).unrestricted
  rw [(Forwarding.run_fed run).sent]
  exact ⟨conserves.conserved, conserves.fifo⟩

/-- Records as JSON text. Nothing is read back, as no send fails. -/
def textCodec : Codec Value := ⟨fun v => v.render.toUTF8.toList, fun _ => none⟩

def secondPoll : List ForwardingAct := [
  .task (.refresh 0 [(catalogItemToValue (sampleItem "1" "mc.example.com"), sampleContext)]),
  .task (.runTask 0), .task (.nextDue 0), .task .check, .task .send, .task (.receive 0), .task (.snapshot 0),
  .task (.finishPoll 0 upResult (quietContext 5)), .task (.trySend 0), .task (.runTask 0), .task (.nextDue 305),
  .task .check, .task .send, .task (.receive 1), .recv ⟨true, true⟩, .task (.snapshot 1), .deadline ⟨true, true⟩,
  .task (.finishPoll 1 ⟨.object [], false, ""⟩ (quietContext 310))]

theorem payloads_sent_once_secondPoll :
    ∃ f, Run (ofFn (Forwarding.step plainCrates (defaultSettings false) textCodec millisApart 1)) (.start emptyWorld)
        secondPoll f ∧
      (liveBatches f.ingest.sends).flatten.length = 1 ∧
      gather (step plainCrates (defaultSettings false)) (Collector.queued (defaultSettings false)) .start
          (secondPoll.flatMap ForwardingAct.collected) =
        (liveBatches f.ingest.sends).flatten ++ f.ingest.batch ++ f.collector.results := by
  have scenario : (secondPoll.foldlM (Forwarding.step plainCrates (defaultSettings false) textCodec millisApart 1)
      (.start emptyWorld)).any (fun f => (liveBatches f.ingest.sends).flatten.length == 1) = true := by decide +kernel
  obtain ⟨f, run, one⟩ := (Option.any_eq_true _ _).mp scenario
  exact ⟨f, run_ofFn_iff.mpr run, beq_iff_eq.mp one, (payloads_sent_once (run_ofFn_iff.mpr run)).2⟩

/-- In every run in which the payloads of a server are in turn, what is recorded as emitted of the server is what its
last payload says of those that were sent in live batches, or that are on their way there. -/
theorem service_told_records {k : String} {s : ServerState}
    (run : Run (Only (ofFn (Forwarding.step crates settings codec env batchSize))
      (Forwarding.On (InTurn crates settings k))) (.start w) acts f)
    (found : f.collector.states.lookup k = some s) (emitted : s.hasEmittedState = true) :
    s.toEmitted.Holds (latest crates (payloadsOf k ((liveBatches f.ingest.sends).flatten ++ f.ingest.batch ++
      f.collector.results ++ f.collector.unsent settings))) := by
  have follows := run_follows (Forwarding.run_collector run)
  rcases follows.follows s found with fresh | holds
  · rw [congrArg Emitted.hasEmittedState fresh] at emitted
    cases emitted
  · rw [(Forwarding.run_fed run.unrestricted).sent]
    exact holds

end Told

theorem service_told_records_secondPoll :
    ∃ f s, Run (Only (ofFn (Forwarding.step plainCrates (defaultSettings false) textCodec millisApart 1))
        (Forwarding.On (InTurn plainCrates (defaultSettings false) "1"))) (.start emptyWorld) secondPoll f ∧
      f.collector.states.lookup "1" = some s ∧ s.lastEmittedUp = some false ∧
      s.toEmitted.Holds (latest plainCrates (payloadsOf "1" ((liveBatches f.ingest.sends).flatten ++ f.ingest.batch ++
        f.collector.results ++ f.collector.unsent (defaultSettings false)))) := by
  have scenario : (secondPoll.foldlM (restrict (Forwarding.step plainCrates (defaultSettings false) textCodec
      millisApart 1) (Forwarding.On (InTurn plainCrates (defaultSettings false) "1"))) (.start emptyWorld)).any
        (fun f => (f.collector.states.lookup "1").any fun s =>
          s.hasEmittedState && decide (s.lastEmittedUp = some false)) = true := by decide +kernel
  obtain ⟨f, run, there⟩ := (Option.any_eq_true _ _).mp scenario
  obtain ⟨s, found, both⟩ := (Option.any_eq_true _ _).mp there
  obtain ⟨emitted, down⟩ := Bool.and_eq_true_iff.mp both
  have restricted := run_restrict_iff.mpr run
  exact ⟨f, s, restricted, found, of_decide_eq_true down, service_told_records restricted found emitted⟩

end ServerPoller
