import ServerPoller.ChangeDetection
import Mathlib.Tactic.NormNum

/-! What `process_work_item` does to the state of a server, and what one poll after another does to
the result queue. The change is recorded as emitted before the queue is asked for room. -/

namespace ServerPoller
open Json RustText Transition

structure PollResult where
  payload : Value
  statusOk : Bool
  favicon : String

/-- What a worker copies out of the state before it polls without the lock. -/
structure Snapshot where
  host : String
  port : Option UInt16
  edition : Edition
  pluginManaged : Bool
  pluginFallbackMode : Bool
  serverId : String
  deriving DecidableEq, Repr

def ServerState.snapshot (s : ServerState) : Snapshot :=
  ⟨s.host, s.port, s.edition, s.pluginManaged, s.pluginFallbackMode, s.serverId⟩

/-- What happens around an update: the answers of the services that are called under the lock,
the random numbers, and the two readings of the scheduler's clock. -/
structure UpdateContext where
  bedrockReachable : Bool
  editionUpdated : Bool
  probeDraw : SignedDraw
  faviconUpdated : Bool
  jitter : JitterDraw
  now : ℚ
  emitNow : ℚ

def recordStatus (statusOk : Bool) (s : ServerState) : ServerState :=
  { s with toFailures :=
    if statusOk then ⟨true, s.initialFailures, 0⟩
    else
      { hasSucceeded := s.hasSucceeded
        initialFailures := if s.hasSucceeded then s.initialFailures else s.initialFailures + 1
        consecutiveFailures := s.consecutiveFailures + 1 } }

def maybeProbeBedrock (settings : Settings) (ctx : UpdateContext) (s : ServerState) : ServerState :=
  match s.nextBedrockProbe with
  | none => s
  | some _ =>
      let server := match s.server with
        | .object fields =>
            if ctx.bedrockReachable ∧ (parseI64 s.serverId).isSome ∧ ctx.editionUpdated then
              .object (Value.insertField "game_edition" (.string "java_bedrock") fields)
            else s.server
        | _ => s.server
      { s with
        server := server
        nextBedrockProbe := scheduleNextBedrockProbe server 0
          settings.collector.bedrockProbeIntervalSeconds settings.collector.bedrockProbeJitterSeconds
          ctx.probeDraw }

def faviconHash (crates : Crates) (value : String) : Option String :=
  if value = "" ∨ value.startsWith "data:image" = false then none else some (crates.sha256 value)

def maybeUpdateFavicon (crates : Crates) (ctx : UpdateContext) (favicon : String) (s : ServerState) :
    ServerState :=
  match faviconHash crates favicon with
  | none => s
  | some hash =>
      if s.lastFaviconHash = some hash ∨ (parseI64 s.serverId).isNone ∨ ctx.faviconUpdated = false then s
      else { s with lastFaviconHash := some hash }

def onlineInterval (settings : Settings) : ℚ := settings.collector.onlineIntervalSeconds
def offlineInterval (settings : Settings) : ℚ := settings.collector.offlineIntervalSeconds
def pluginInterval (settings : Settings) : ℚ := settings.collector.pluginCompareIntervalSeconds

/-- The interval before jitter; `s` has the counters after the poll. -/
def nextInterval (settings : Settings) (snap : Snapshot) (statusOk : Bool) (s : ServerState) : ℚ :=
  if snap.pluginManaged && !snap.pluginFallbackMode then pluginInterval settings
  else if statusOk then onlineInterval settings
  else if s.hasSucceeded = false ∧ settings.collector.initialFailuresBeforeSlowdown ≤ s.initialFailures then
    min (max (offlineInterval settings * settings.collector.initialFailureSlowdownMultiplier)
      (offlineInterval settings)) settings.collector.initialFailureMaxIntervalSeconds
  else offlineInterval settings

/-- The due time of the next poll of a plugin-managed server on an internal host. -/
def internalDue (settings : Settings) (now : ℚ) (jitter : JitterDraw) : ℚ :=
  now + max (pluginInterval settings + jitter * pluginInterval settings) 60

section Update
variable (crates : Crates) (settings : Settings)

/-- The update up to the call of `build_change_payload`, with the next due time. -/
def recordPoll (snap : Snapshot) (result : PollResult) (ctx : UpdateContext) (s : ServerState) : ServerState :=
  let s := maybeProbeBedrock settings ctx (recordStatus result.statusOk s)
  let s := if result.favicon = "" then s else maybeUpdateFavicon crates ctx result.favicon s
  let interval := nextInterval settings snap result.statusOk s
  { s with nextDue := ctx.now + max (interval + ctx.jitter * interval) 1 }

/-- The whole update under the lock. A failed poll of a plugin-managed server returns early. -/
def updateState (snap : Snapshot) (result : PollResult) (ctx : UpdateContext) (s : ServerState) :
    ServerState × Option Value :=
  let s := recordPoll crates settings snap result ctx s
  if snap.pluginManaged && !snap.pluginFallbackMode && !result.statusOk then (s, none)
  else buildChangePayload crates s result.payload result.statusOk ctx.emitNow
    settings.collector.heartbeatIntervalSeconds

end Update

section Frame
variable {crates : Crates} {settings : Settings} {snap : Snapshot} {result : PollResult}
  {ctx : UpdateContext} {s : ServerState}

/-- The fields that an update before `build_change_payload` does not touch. -/
structure Undisturbed (s t : ServerState) : Prop where
  key : t.key = s.key
  serverId : t.serverId = s.serverId
  address : t.toAddress = s.toAddress
  emitted : t.toEmitted = s.toEmitted
  pluginManaged : t.pluginManaged = s.pluginManaged
  pluginFallbackMode : t.pluginFallbackMode = s.pluginFallbackMode

theorem Undisturbed.trans {s t u : ServerState} (h : Undisturbed s t) (k : Undisturbed t u) :
    Undisturbed s u where
  key := k.key.trans h.key
  serverId := k.serverId.trans h.serverId
  address := k.address.trans h.address
  emitted := k.emitted.trans h.emitted
  pluginManaged := k.pluginManaged.trans h.pluginManaged
  pluginFallbackMode := k.pluginFallbackMode.trans h.pluginFallbackMode

theorem undisturbed_maybeProbeBedrock (settings : Settings) (ctx : UpdateContext) (s : ServerState) :
    Undisturbed s (maybeProbeBedrock settings ctx s) := by
  unfold maybeProbeBedrock
  split
  · exact ⟨rfl, rfl, rfl, rfl, rfl, rfl⟩
  · exact ⟨rfl, rfl, rfl, rfl, rfl, rfl⟩

theorem undisturbed_maybeUpdateFavicon (favicon : String) :
    Undisturbed s (maybeUpdateFavicon crates ctx favicon s) := by
  unfold maybeUpdateFavicon
  split
  · exact ⟨rfl, rfl, rfl, rfl, rfl, rfl⟩
  · split
    · exact ⟨rfl, rfl, rfl, rfl, rfl, rfl⟩
    · exact ⟨rfl, rfl, rfl, rfl, rfl, rfl⟩

theorem Undisturbed.setDue {t : ServerState} (h : Undisturbed s t) (due : ℚ) :
    Undisturbed s { t with nextDue := due } :=
  ⟨h.key, h.serverId, h.address, h.emitted, h.pluginManaged, h.pluginFallbackMode⟩

theorem undisturbed_recordPoll (crates : Crates) (settings : Settings) (snap : Snapshot) (result : PollResult)
    (ctx : UpdateContext) (s : ServerState) : Undisturbed s (recordPoll crates settings snap result ctx s) := by
  have counted : Undisturbed s (recordStatus result.statusOk s) := ⟨rfl, rfl, rfl, rfl, rfl, rfl⟩
  have probed := counted.trans (undisturbed_maybeProbeBedrock settings ctx _)
  apply Undisturbed.setDue
  by_cases none : result.favicon = ""
  · rw [if_pos none]
    exact probed
  · rw [if_neg none]
    exact probed.trans (undisturbed_maybeUpdateFavicon _)

theorem updateState_frame (crates : Crates) (settings : Settings) (snap : Snapshot) (result : PollResult)
    (ctx : UpdateContext) (s : ServerState) : ∃ e, (updateState crates settings snap result ctx s).1 =
    { recordPoll crates settings snap result ctx s with toEmitted := e } := by
  unfold updateState
  dsimp only
  split
  · exact ⟨_, rfl⟩
  · exact buildChangePayload_frame.2

theorem updateState_key : (updateState crates settings snap result ctx s).1.key = s.key := by
  obtain ⟨e, eq⟩ := updateState_frame crates settings snap result ctx s
  rw [eq]
  exact (undisturbed_recordPoll crates settings snap result ctx s).key

end Frame

structure Poll where
  result : PollResult
  ctx : UpdateContext
  room : Bool

/-- A server that is polled again and again: its state, the payloads that `try_send` has put into the
result queue so far, and the counter of those that found it full. -/
structure PollRun where
  state : ServerState
  queued : List Value
  dropped : Nat

section Runs
variable (crates : Crates) (settings : Settings)

/-- `process_work_item` from the snapshot to `try_send`, for a server that is not plugin-managed. -/
def completePoll (s : PollRun) (p : Poll) : PollRun :=
  let (state, changed) := updateState crates settings s.state.snapshot p.result p.ctx s.state
  match changed with
  | none => { s with state := state }
  | some payload =>
      if p.room then { s with state := state, queued := s.queued ++ [payload] }
      else { s with state := state, dropped := s.dropped + 1 }

/-- The record of a consumer that keeps the latest payload of the queue. -/
def latest (queued : List Value) : Option Observation := queued.getLast?.map (payloadRecord crates)

def observed (polls : List Poll) : Option Observation :=
  polls.foldl (fun r p => some (mirror crates r p.result.payload p.result.statusOk)) none

/-- The poll finds room, or it sees what was emitted last and no heartbeat is due. -/
def RoomWhenNeeded (s : PollRun) (p : Poll) : Prop :=
  p.room = true ∨
    (s.state.toEmitted.Holds (some (currentValues crates s.state.toEmitted p.result.payload p.result.statusOk)) ∧
      heartbeatDue s.state.toEmitted p.ctx.emitNow settings.collector.heartbeatIntervalSeconds = false)

variable {crates settings} {s : PollRun} {p : Poll}

theorem eventType_quiet {e : Emitted} (cur : Observation) {now heartbeatInterval : ℚ}
    (h : e.Holds (some cur)) (early : heartbeatDue e now heartbeatInterval = false) :
    eventType e cur now heartbeatInterval = none := by
  obtain ⟨t, rfl⟩ := h
  exact eventType_eq_none_iff.mpr ⟨rfl, rfl, rfl, by simp [changedMeta, Observation.emitted], rfl, early⟩

theorem updateState_unmanaged (crates : Crates) (settings : Settings) (p : Poll)
    (unmanaged : s.state.pluginManaged = false) :
    updateState crates settings s.state.snapshot p.result p.ctx s.state =
      buildChangePayload crates (recordPoll crates settings s.state.snapshot p.result p.ctx s.state)
        p.result.payload p.result.statusOk p.ctx.emitNow settings.collector.heartbeatIntervalSeconds := by
  simp [updateState, ServerState.snapshot, unmanaged]

theorem completePoll_state :
    (completePoll crates settings s p).state =
      (updateState crates settings s.state.snapshot p.result p.ctx s.state).1 := by
  unfold completePoll
  dsimp only
  split
  · rfl
  · split
    · rfl
    · rfl

theorem completePoll_unmanaged (unmanaged : s.state.pluginManaged = false) :
    (completePoll crates settings s p).state.pluginManaged = false := by
  obtain ⟨e, eq⟩ := updateState_frame crates settings s.state.snapshot p.result p.ctx s.state
  rw [completePoll_state, eq]
  exact (undisturbed_recordPoll crates settings s.state.snapshot p.result p.ctx s.state).pluginManaged.trans unmanaged

/-- The emitted fields hold the consumer's record, which is the reference state; nothing was lost. -/
structure PollRun.InStep (crates : Crates) (polls : List Poll) (s : PollRun) : Prop where
  unmanaged : s.state.pluginManaged = false
  holds : s.state.toEmitted.Holds (observed crates polls)
  consumer : latest crates s.queued = observed crates polls
  none_dropped : s.dropped = 0

theorem completePoll_inStep {past : List Poll} (h : s.InStep crates past)
    (room : RoomWhenNeeded crates settings s p) :
    (completePoll crates settings s p).InStep crates (past ++ [p]) := by
  have kept := undisturbed_recordPoll crates settings s.state.snapshot p.result p.ctx s.state
  have update := updateState_unmanaged crates settings p h.unmanaged
  have now_observed : observed crates (past ++ [p]) =
      some (currentValues crates s.state.toEmitted p.result.payload p.result.statusOk) := by
    rw [currentValues_eq_mirror h.holds]
    simp only [observed, List.foldl_append, List.foldl_cons, List.foldl_nil]
  have cases := buildChangePayload_cases crates
    (recordPoll crates settings s.state.snapshot p.result p.ctx s.state) p.result.payload p.result.statusOk
    p.ctx.emitNow settings.collector.heartbeatIntervalSeconds
  rw [kept.emitted, ← update] at cases
  rcases cases with ⟨quiet, eq⟩ | ⟨out, eq, record⟩
  · have same := eventType_none h.holds quiet
    rw [← now_observed] at same
    simp only [completePoll, eq]
    exact ⟨kept.pluginManaged.trans h.unmanaged, kept.emitted ▸ same ▸ h.holds, h.consumer.trans same,
      h.none_dropped⟩
  · rcases room with room | ⟨nothing_new, early⟩
    · simp only [completePoll, eq, room, if_true]
      refine ⟨kept.pluginManaged.trans h.unmanaged, ?_, ?_, h.none_dropped⟩
      · rw [now_observed]
        exact ⟨p.ctx.emitNow, rfl⟩
      · rw [latest, List.getLast?_concat, now_observed, ← record, Option.map_some]
    · -- a payload although there was nothing to say
      exfalso
      have quiet := eventType_quiet _ nothing_new early
      simp [update, buildChangePayload, kept.emitted, quiet] at eq

/-- In every run in which the polls that have something to say find room in the queue, no payload is
dropped and the consumer knows the state of the server after every poll. -/
theorem consumer_agrees (fresh : s.state.Fresh) (unmanaged : s.state.pluginManaged = false)
    (start : s.queued = [] ∧ s.dropped = 0) {polls : List Poll} {t : PollRun}
    (run : Run (Only (ofTotal (completePoll crates settings)) (RoomWhenNeeded crates settings)) s polls t) :
    t.dropped = 0 ∧ latest crates t.queued = observed crates polls := by
  have inv := run.keeps_history (P := PollRun.InStep crates)
    (fun past u p v h step => by
      obtain ⟨rfl, room⟩ := step
      exact completePoll_inStep h room)
    ⟨unmanaged, fresh, by rw [start.1]; rfl, start.2⟩
  exact ⟨inv.none_dropped, inv.consumer⟩

end Runs

/-- Settings with the defaults of `Settings::load`, with or without Redis. -/
def defaultSettings (redisEnabled : Bool) : Settings :=
  ⟨⟨300, 600, 100, 25, 300, 5000, 3600, 600, 5, 6, 3600, 1800, 300, 300⟩, redisEnabled⟩

/-- An update at the given time with draws of zero and services that do not answer. -/
def quietContext (now : ℚ) : UpdateContext :=
  ⟨false, false, ⟨0, by norm_num⟩, false, ⟨0, by norm_num⟩, now, now⟩

def upResult : PollResult := ⟨.ofFields [("online", .ofI64 5), ("version", .string "1.20")], true, ""⟩

/-- The first payload of a server finds the queue full; the next poll sees the same, finds room,
and queues nothing. -/
theorem consumer_misses_dropped_payload :
    let first : Poll := ⟨upResult, quietContext 10, false⟩
    let second : Poll := ⟨upResult, quietContext 110, true⟩
    let step := completePoll plainCrates (defaultSettings false)
    let s : PollRun := ⟨sampleState, [], 0⟩
    s.state.Fresh ∧ s.state.pluginManaged = false ∧ (step s first).dropped = 1 ∧
      second.ctx.emitNow - first.ctx.emitNow < (defaultSettings false).collector.heartbeatIntervalSeconds ∧
      latest plainCrates (step (step s first) second).queued = none ∧
      observed plainCrates [first, second] ≠ none := by
  refine ⟨rfl, rfl, ?_, ?_, ?_, ?_⟩
  · decide +kernel
  · decide +kernel
  · decide +kernel
  · decide +kernel

/-- The second of two equal polls finds the queue full, but it has nothing to say. -/
theorem consumer_agrees_repeatedPoll :
    let polls : List Poll := [⟨upResult, quietContext 10, true⟩, ⟨upResult, quietContext 110, false⟩]
    let t := polls.foldl (completePoll plainCrates (defaultSettings false)) ⟨sampleState, [], 0⟩
    t.dropped = 0 ∧ latest plainCrates t.queued = observed plainCrates polls := by
  intro polls t
  have second : RoomWhenNeeded plainCrates (defaultSettings false)
      (completePoll plainCrates (defaultSettings false) ⟨sampleState, [], 0⟩
        ⟨upResult, quietContext 10, true⟩) ⟨upResult, quietContext 110, false⟩ :=
    .inr ⟨⟨10, by decide +kernel⟩, by decide +kernel⟩
  exact consumer_agrees (s := ⟨sampleState, [], 0⟩) rfl rfl ⟨rfl, rfl⟩
    (.cons ⟨rfl, .inl rfl⟩ (.cons ⟨rfl, second⟩ (.nil _)))

end ServerPoller
