import ServerPoller.PollWorker
import Mathlib.Data.List.Chain
import Mathlib.Tactic.Linarith

/-! The schedule of the Bedrock probes. A state says when the next probe is due, but the worker neither
compares that with the time nor counts the next one from it. -/

namespace ServerPoller
open Json RustText Transition

/-- One call of `process_work_item`, with the time at which it would send a probe. -/
structure WorkItem where
  time : ℚ
  result : PollResult
  ctx : UpdateContext

/-- A probe that was sent: when, when it was due, when the next one then was, and whether the server was
still a plain Java server. -/
structure Probe where
  time : ℚ
  due : Option ℚ
  next : Option ℚ
  plain : Bool

structure ProbeRun where
  state : ServerState
  probes : List Probe

section Work
variable (crates : Crates) (settings : Settings)

def skipsPoll (s : ServerState) : Bool := s.pluginManaged && isInternalOnlyHost s.host

/-- `maybe_probe_bedrock` sends a probe if one is scheduled at all. -/
def sendsProbe (s : ServerState) : Bool := !skipsPoll s && s.nextBedrockProbe.isSome

/-- `process_work_item` from the snapshot to the update, with no other task in between. -/
def processWorkItem (s : ServerState) (item : WorkItem) : ServerState :=
  if skipsPoll s then { s with nextDue := internalDue settings item.ctx.now item.ctx.jitter }
  else (updateState crates settings s.snapshot item.result item.ctx s).1

def isPlainJava (s : ServerState) : Bool :=
  wantsBedrockProbe s.server settings.collector.bedrockProbeIntervalSeconds

def probeStep (r : ProbeRun) (item : WorkItem) : ProbeRun :=
  let state := processWorkItem crates settings r.state item
  { state := state
    probes := r.probes ++
      if sendsProbe r.state then
        [⟨item.time, r.state.nextBedrockProbe, state.nextBedrockProbe, isPlainJava settings state⟩]
      else [] }

def probeSpacing : ℚ :=
  max 60 ((settings.collector.bedrockProbeIntervalSeconds : ℚ) - settings.collector.bedrockProbeJitterSeconds)

structure Probe.OnSchedule (p : Probe) : Prop where
  due : ∃ d, p.due = some d ∧ d ≤ p.time
  next : p.plain = true → ∃ d, p.next = some d ∧ p.time + probeSpacing settings ≤ d

/-- Every probe is on schedule, and one comes long enough after the other. -/
structure KeepsSchedule (probes : List Probe) : Prop where
  each : ∀ p ∈ probes, p.OnSchedule settings
  spaced : probes.IsChain fun p q => p.time + probeSpacing settings ≤ q.time

/-- The catalog object after a probe: its edition is changed if the server answered and the service
took the change. -/
def probedServer (ctx : UpdateContext) (s : ServerState) : Value :=
  match s.server with
  | .object fields =>
      if ctx.bedrockReachable ∧ (parseI64 s.serverId).isSome ∧ ctx.editionUpdated then
        .object (Value.insertField "game_edition" (.string "java_bedrock") fields)
      else s.server
  | _ => s.server

def findsBedrock (ctx : UpdateContext) (s : ServerState) : Bool :=
  match s.server with
  | .object _ => decide (ctx.bedrockReachable ∧ (parseI64 s.serverId).isSome ∧ ctx.editionUpdated)
  | _ => false

/-- A call whose probe, if it sends one, finds a plain Java server and leaves it one. -/
def leavesPlain (s : ServerState) (item : WorkItem) : Bool :=
  isPlainJava settings s && !findsBedrock item.ctx s

/-- The calls that send a probe to a server that has one scheduled, where `plain` says which of them leave
it a plain Java server: all up to the first that does not. -/
def probingCalls (plain : WorkItem → Bool) : List WorkItem → List WorkItem
  | [] => []
  | item :: rest => item :: if plain item then probingCalls plain rest else []

section Windows
variable (draw : SignedDraw)

def probeInterval : ℚ := settings.collector.bedrockProbeIntervalSeconds
def probeJitter : ℚ := settings.collector.bedrockProbeJitterSeconds

/-- The delay for a draw, which is counted from the start of the process. -/
def drawnDelay : ℚ := max (probeInterval settings + draw * probeJitter settings) 60

/-- How far a draw goes beyond the least time between two probes. -/
def leeway : ℚ :=
  if 60 ≤ probeInterval settings - probeJitter settings then (1 + draw) * probeJitter settings
  else max 0 (probeInterval settings + draw * probeJitter settings - 60)

def longestDelay : ℚ := max (probeInterval settings + probeJitter settings) 60

/-- Bounds on the times of the calls, all from the start of the process: the first is not before the probe
that is due then, none that leaves a plain Java server comes when the leeway of its draw has passed, and the
next one comes when the delay drawn before has passed. -/
structure WithinWindows (s : ServerState) (items : List WorkItem) : Prop where
  first : ∀ d ∈ s.nextBedrockProbe, ∀ item ∈ items.head?, d ≤ item.time
  latest : ∀ item ∈ items.takeWhile (leavesPlain settings s), item.time ≤ leeway settings item.ctx.probeDraw
  earliest : (probingCalls (leavesPlain settings s) items).IsChain fun a b => drawnDelay settings a.ctx.probeDraw ≤ b.time

def InTime (s : ServerState) (item : WorkItem) : Prop :=
  sendsProbe s = true → (∀ d ∈ s.nextBedrockProbe, d ≤ item.time) ∧
    (leavesPlain settings s item = true → item.time ≤ leeway settings item.ctx.probeDraw)

end Windows

end Work

section Schedule
variable {crates : Crates} {settings : Settings} {s : ServerState} {r : ProbeRun} {item : WorkItem}

theorem maybeProbeBedrock_recordStatus (settings : Settings) (ctx : UpdateContext) (statusOk : Bool)
    (s : ServerState) :
    (maybeProbeBedrock settings ctx (recordStatus statusOk s)).server =
      (maybeProbeBedrock settings ctx s).server ∧
      (maybeProbeBedrock settings ctx (recordStatus statusOk s)).nextBedrockProbe =
        (maybeProbeBedrock settings ctx s).nextBedrockProbe := by
  have same : (recordStatus statusOk s).nextBedrockProbe = s.nextBedrockProbe := rfl
  cases due : s.nextBedrockProbe with
  | none =>
      simp only [maybeProbeBedrock, same, due]
      exact ⟨rfl, trivial⟩
  | some d =>
      simp only [maybeProbeBedrock, same, due]
      exact ⟨rfl, rfl⟩

theorem updateState_probe (crates : Crates) (settings : Settings) (snap : Snapshot) (result : PollResult)
    (ctx : UpdateContext) (s : ServerState) :
    (updateState crates settings snap result ctx s).1.server = (maybeProbeBedrock settings ctx s).server ∧
      (updateState crates settings snap result ctx s).1.nextBedrockProbe =
        (maybeProbeBedrock settings ctx s).nextBedrockProbe := by
  obtain ⟨e, eq⟩ := updateState_frame crates settings snap result ctx s
  have favicon : ∀ u : ServerState,
      (maybeUpdateFavicon crates ctx result.favicon u).server = u.server ∧
        (maybeUpdateFavicon crates ctx result.favicon u).nextBedrockProbe = u.nextBedrockProbe := by
    intro u
    unfold maybeUpdateFavicon
    split
    · exact ⟨rfl, rfl⟩
    · split <;> exact ⟨rfl, rfl⟩
  have counted := maybeProbeBedrock_recordStatus settings ctx result.statusOk s
  rw [eq]
  simp only [recordPoll]
  split
  · exact counted
  · exact ⟨(favicon _).1.trans counted.1, (favicon _).2.trans counted.2⟩

theorem processWorkItem_silent (silent : sendsProbe s = false) :
    (processWorkItem crates settings s item).nextBedrockProbe = s.nextBedrockProbe := by
  unfold processWorkItem
  split
  · rfl
  · rename_i polled
    rw [sendsProbe, Bool.eq_false_iff.mpr polled, Bool.not_false, Bool.true_and] at silent
    have none_due : s.nextBedrockProbe = none := by simpa using silent
    rw [(updateState_probe ..).2]
    simp only [maybeProbeBedrock, none_due]

theorem processWorkItem_probe (crates : Crates) (settings : Settings) (item : WorkItem)
    (sends : sendsProbe s = true) :
    (processWorkItem crates settings s item).server = probedServer item.ctx s ∧
      (processWorkItem crates settings s item).nextBedrockProbe =
        scheduleNextBedrockProbe (probedServer item.ctx s) 0 settings.collector.bedrockProbeIntervalSeconds
          settings.collector.bedrockProbeJitterSeconds item.ctx.probeDraw := by
  obtain ⟨polled, due⟩ := Bool.and_eq_true_iff.mp sends
  obtain ⟨d, scheduled⟩ := Option.isSome_iff_exists.mp due
  have probed : (maybeProbeBedrock settings item.ctx s) = { s with
      server := probedServer item.ctx s
      nextBedrockProbe := scheduleNextBedrockProbe (probedServer item.ctx s) 0
        settings.collector.bedrockProbeIntervalSeconds settings.collector.bedrockProbeJitterSeconds
        item.ctx.probeDraw } := by
    simp only [maybeProbeBedrock, scheduled]
    rfl
  have goes : ¬skipsPoll s = true := by simpa using polled
  rw [processWorkItem, if_neg goes, (updateState_probe ..).1, (updateState_probe ..).2, probed]
  exact ⟨rfl, rfl⟩

theorem wantsBedrockProbe_probedServer (settings : Settings) (item : WorkItem) (s : ServerState) :
    wantsBedrockProbe (probedServer item.ctx s) settings.collector.bedrockProbeIntervalSeconds =
      leavesPlain settings s item := by
  have bedrock : ∀ fields, wantsBedrockProbe
      (.object (Value.insertField "game_edition" (.string "java_bedrock") fields))
      settings.collector.bedrockProbeIntervalSeconds = false := by
    intro fields
    have edition : strField (.object (Value.insertField "game_edition" (.string "java_bedrock") fields))
        "game_edition" = some "java_bedrock" := by
      simp [strField, Value.get, Value.lookup_insertField, Value.asStr]
    rw [wantsBedrockProbe, edition]
    split
    · rfl
    · decide +kernel
  unfold leavesPlain findsBedrock probedServer isPlainJava
  split
  · rename_i fields eq
    split
    · rename_i found
      rw [bedrock, decide_eq_true found, Bool.not_true, Bool.and_false]
    · rename_i not_found
      rw [decide_eq_false not_found, Bool.not_false, Bool.and_true]
  · simp

theorem probedServer_of_leavesPlain (leaves : leavesPlain settings s item = true) :
    probedServer item.ctx s = s.server := by
  have not_found := (Bool.and_eq_true_iff.mp leaves).2
  unfold findsBedrock at not_found
  unfold probedServer
  split
  · rename_i fields eq
    rw [eq] at not_found
    rw [if_neg (of_decide_eq_false (Bool.eq_false_of_not_eq_true' not_found)), eq]
  · rfl

theorem le_leeway_iff {draw : SignedDraw} {t : ℚ} :
    t ≤ leeway settings draw ↔ t + probeSpacing settings ≤ drawnDelay settings draw := by
  have jitter : (0 : ℚ) ≤ probeJitter settings := Nat.cast_nonneg _
  have above : -probeJitter settings ≤ draw * probeJitter settings := by
    have := mul_le_mul_of_nonneg_right draw.2.1 jitter
    linarith
  change _ ↔ t + max 60 (probeInterval settings - probeJitter settings) ≤ _
  unfold leeway drawnDelay
  split
  · rename_i wide
    rw [max_eq_right wide, max_eq_left (by linarith), add_mul, one_mul]
    constructor <;> intro h <;> linarith
  · rename_i narrow
    rw [max_eq_left (le_of_not_ge narrow), le_max_iff, le_max_iff]
    constructor <;> rintro (h | h)
    · exact .inr (by linarith)
    · exact .inl (by linarith)
    · exact .inr (by linarith)
    · exact .inl (by linarith)

theorem drawnDelay_le (settings : Settings) (draw : SignedDraw) :
    drawnDelay settings draw ≤ longestDelay settings := by
  have jitter : (0 : ℚ) ≤ probeJitter settings := Nat.cast_nonneg _
  have below := mul_le_mul_of_nonneg_right draw.2.2.le jitter
  exact max_le_max_right 60 (by linarith)

theorem probeStep_probes (crates : Crates) (settings : Settings) (r : ProbeRun) (item : WorkItem) :
    (sendsProbe r.state = false ∧ (probeStep crates settings r item).probes = r.probes) ∨
      ∃ p, sendsProbe r.state = true ∧ (probeStep crates settings r item).probes = r.probes ++ [p] ∧
        p.time = item.time ∧ p.due = r.state.nextBedrockProbe ∧
        p.next = (probeStep crates settings r item).state.nextBedrockProbe ∧
        p.plain = leavesPlain settings r.state item := by
  cases sends : sendsProbe r.state with
  | false => exact .inl ⟨rfl, by simp [probeStep, sends]⟩
  | true =>
      refine .inr ⟨⟨item.time, r.state.nextBedrockProbe, (probeStep crates settings r item).state.nextBedrockProbe,
        isPlainJava settings (probeStep crates settings r item).state⟩, rfl, ?_, rfl, rfl, rfl, ?_⟩
      · simp only [probeStep, sends, if_true]
      · simp only [isPlainJava, probeStep, (processWorkItem_probe crates settings item sends).1,
          wantsBedrockProbe_probedServer]

theorem nextBedrockProbe_of_sends (sends : sendsProbe s = true) :
    (processWorkItem crates settings s item).nextBedrockProbe =
      if leavesPlain settings s item then some (drawnDelay settings item.ctx.probeDraw) else none := by
  rw [(processWorkItem_probe crates settings item sends).2, scheduleNextBedrockProbe,
    wantsBedrockProbe_probedServer, zero_add]
  rfl

/-- The step of a run that is in time sends its probe on schedule, and says when the next one is due. -/
theorem onSchedule_iff (sends : sendsProbe r.state = true) {p : Probe} (time : p.time = item.time)
    (due : p.due = r.state.nextBedrockProbe)
    (next : p.next = (probeStep crates settings r item).state.nextBedrockProbe)
    (plain : p.plain = leavesPlain settings r.state item) :
    p.OnSchedule settings ↔ InTime settings r.state item := by
  obtain ⟨d, scheduled⟩ := Option.isSome_iff_exists.mp (Bool.and_eq_true_iff.mp sends).2
  rw [probeStep, nextBedrockProbe_of_sends sends] at next
  constructor
  · intro on _
    obtain ⟨d', eq, early⟩ := on.due
    refine ⟨fun e here => ?_, fun leaves => ?_⟩
    · rw [due, here] at eq
      cases eq
      rwa [← time]
    · obtain ⟨e, eq', late⟩ := on.next (plain.trans leaves)
      rw [next, if_pos leaves] at eq'
      cases eq'
      rwa [← time, le_leeway_iff]
  · intro inTime
    obtain ⟨early, late⟩ := inTime sends
    refine ⟨⟨d, due.trans scheduled, ?_⟩, fun isPlain => ⟨_, by rw [next, if_pos (plain ▸ isPlain)], ?_⟩⟩
    · rw [time]
      exact early d scheduled
    · rw [time, ← le_leeway_iff]
      exact late (plain ▸ isPlain)

/-- The probes so far are on schedule, and the next one is due long enough after the last. -/
structure Scheduled (settings : Settings) (r : ProbeRun) : Prop where
  probes : KeepsSchedule settings r.probes
  next : ∀ p ∈ r.probes.getLast?, ∀ d, r.state.nextBedrockProbe = some d → p.time + probeSpacing settings ≤ d

theorem Scheduled.step (h : Scheduled settings r) (inTime : InTime settings r.state item) :
    Scheduled settings (probeStep crates settings r item) := by
  rcases probeStep_probes crates settings r item with ⟨silent, same⟩ | ⟨p, sends, added, time, due, next, plain⟩
  · refine ⟨same ▸ h.probes, ?_⟩
    rw [same, probeStep, processWorkItem_silent silent]
    exact h.next
  · have on := (onSchedule_iff sends time due next plain).mpr inTime
    obtain ⟨d, scheduled, early⟩ := on.due
    have each : ∀ q ∈ r.probes ++ [p], q.OnSchedule settings := by
      intro q member
      rcases List.mem_append.mp member with before | here
      · exact h.probes.each q before
      · rwa [List.mem_singleton.mp here]
    have spaced : (r.probes ++ [p]).IsChain fun p q => p.time + probeSpacing settings ≤ q.time := by
      refine List.isChain_append.mpr ⟨h.probes.spaced, .singleton _, ?_⟩
      rintro q last _ ⟨⟩
      exact (h.next q last d (due.symm.trans scheduled)).trans early
    refine ⟨added ▸ ⟨each, spaced⟩, ?_⟩
    rw [added, List.getLast?_concat, ← next]
    rintro _ ⟨⟩ d' later
    have isPlain : p.plain = true := by
      rw [next, probeStep, nextBedrockProbe_of_sends sends] at later
      rw [plain]
      exact (Option.ite_none_right_eq_some.mp later).1
    obtain ⟨e, eq, late⟩ := on.next isPlain
    cases eq.symm.trans later
    exact late

theorem probes_kept (crates : Crates) (settings : Settings) (items : List WorkItem) (r : ProbeRun) :
    r.probes <+: (items.foldl (probeStep crates settings) r).probes := by
  induction items generalizing r with
  | nil => exact List.prefix_refl _
  | cons item rest ih => exact (List.prefix_append _ _).trans (ih (probeStep crates settings r item))

theorem meets_of_keepsSchedule {items : List WorkItem}
    (keeps : KeepsSchedule settings (items.foldl (probeStep crates settings) r).probes) :
    Meets (probeStep crates settings) (fun r => InTime settings r.state) r items := by
  induction items generalizing r with
  | nil => trivial
  | cons item rest ih =>
      refine ⟨fun sends => ?_, ih keeps⟩
      rcases probeStep_probes crates settings r item with ⟨silent, _⟩ | ⟨p, _, added, time, due, next, plain⟩
      · rw [silent] at sends
        cases sends
      · have member : p ∈ (probeStep crates settings r item).probes := by
          rw [added]
          exact List.mem_append_right _ (List.mem_singleton_self p)
        have on := keeps.each p ((probes_kept crates settings rest _).subset member)
        exact (onSchedule_iff sends time due next plain).mp on sends

theorem keepsSchedule_iff_meets {items : List WorkItem} :
    KeepsSchedule settings (items.foldl (probeStep crates settings) ⟨s, []⟩).probes ↔
      Meets (probeStep crates settings) (fun r => InTime settings r.state) ⟨s, []⟩ items := by
  constructor
  · exact meets_of_keepsSchedule
  · intro meets
    have run := run_only_iff.mpr ⟨meets, rfl⟩
    have start : Scheduled settings ⟨s, []⟩ := ⟨⟨nofun, .nil⟩, nofun⟩
    refine (run.keeps (P := Scheduled settings) ?_ start).probes
    rintro r item _ h ⟨rfl, inTime⟩
    exact h.step inTime

theorem skipsPoll_processWorkItem :
    skipsPoll (processWorkItem crates settings s item) = skipsPoll s := by
  unfold processWorkItem
  split
  · rfl
  · obtain ⟨e, eq⟩ := updateState_frame crates settings s.snapshot item.result item.ctx s
    have undisturbed := undisturbed_recordPoll crates settings s.snapshot item.result item.ctx s
    have host := congrArg Address.host undisturbed.address
    rw [eq]
    change (_ && isInternalOnlyHost _) = _
    rw [host, undisturbed.pluginManaged]
    rfl

theorem serverId_processWorkItem : (processWorkItem crates settings s item).serverId = s.serverId := by
  unfold processWorkItem
  split
  · rfl
  · obtain ⟨e, eq⟩ := updateState_frame crates settings s.snapshot item.result item.ctx s
    rw [eq]
    exact (undisturbed_recordPoll crates settings s.snapshot item.result item.ctx s).serverId

theorem leavesPlain_processWorkItem (sends : sendsProbe s = true) (leaves : leavesPlain settings s item = true) :
    leavesPlain settings (processWorkItem crates settings s item) = leavesPlain settings s := by
  have server := (processWorkItem_probe crates settings item sends).1
  rw [probedServer_of_leavesPlain leaves] at server
  funext later
  simp only [leavesPlain, isPlainJava, findsBedrock, server, serverId_processWorkItem]

theorem meets_of_silent {items : List WorkItem} (silent : sendsProbe r.state = false) :
    Meets (probeStep crates settings) (fun r => InTime settings r.state) r items := by
  induction items generalizing r with
  | nil => trivial
  | cons item rest ih =>
      refine ⟨fun sends => ?_, ih ?_⟩
      · rw [silent] at sends
        cases sends
      · change (!skipsPoll (processWorkItem ..) && (processWorkItem ..).nextBedrockProbe.isSome) = false
        rw [skipsPoll_processWorkItem, processWorkItem_silent silent]
        exact silent

theorem head?_probingCalls {plain : WorkItem → Bool} {items : List WorkItem} :
    (probingCalls plain items).head? = items.head? := by
  cases items <;> rfl

theorem withinWindows_cons {rest : List WorkItem} (after : ServerState) {due : ℚ}
    (scheduled : s.nextBedrockProbe = some due)
    (next : leavesPlain settings s item = true →
      after.nextBedrockProbe = some (drawnDelay settings item.ctx.probeDraw) ∧
        leavesPlain settings after = leavesPlain settings s) :
    WithinWindows settings s (item :: rest) ↔ due ≤ item.time ∧ (leavesPlain settings s item = true →
      item.time ≤ leeway settings item.ctx.probeDraw ∧ WithinWindows settings after rest) := by
  have first : (∀ d ∈ s.nextBedrockProbe, ∀ i ∈ (item :: rest).head?, d ≤ i.time) ↔ due ≤ item.time := by
    simp [scheduled]
  have takes : ∀ leaves : leavesPlain settings s item = true,
      (item :: rest).takeWhile (leavesPlain settings s) =
        item :: rest.takeWhile (leavesPlain settings after) := by
    intro leaves
    rw [List.takeWhile_cons_of_pos leaves, (next leaves).2]
  have probes : ∀ leaves : leavesPlain settings s item = true,
      (probingCalls (leavesPlain settings s) (item :: rest)).IsChain
          (fun a b => drawnDelay settings a.ctx.probeDraw ≤ b.time) ↔
        (∀ d ∈ after.nextBedrockProbe, ∀ i ∈ rest.head?, d ≤ i.time) ∧
          (probingCalls (leavesPlain settings after) rest).IsChain
            fun a b => drawnDelay settings a.ctx.probeDraw ≤ b.time := by
    intro leaves
    rw [probingCalls, if_pos leaves, List.isChain_cons, head?_probingCalls, (next leaves).1, (next leaves).2]
    simp
  constructor
  · intro h
    refine ⟨first.mp h.first, fun leaves => ?_⟩
    have latest := h.latest
    rw [takes leaves] at latest
    obtain ⟨early, earliest⟩ := (probes leaves).mp h.earliest
    exact ⟨latest item List.mem_cons_self, early, fun i later => latest i (List.mem_cons_of_mem _ later),
      earliest⟩
  · rintro ⟨early, onward⟩
    refine ⟨first.mpr early, ?_, ?_⟩
    · by_cases leaves : leavesPlain settings s item = true
      · obtain ⟨late, rest_within⟩ := onward leaves
        rw [takes leaves]
        rintro i (_ | ⟨_, later⟩)
        · exact late
        · exact rest_within.latest i later
      · rw [List.takeWhile_cons_of_neg leaves]
        exact fun _ none => absurd none List.not_mem_nil
    · by_cases leaves : leavesPlain settings s item = true
      · obtain ⟨_, rest_within⟩ := onward leaves
        exact (probes leaves).mpr ⟨rest_within.first, rest_within.earliest⟩
      · rw [probingCalls, if_neg leaves]
        exact .singleton _

theorem meets_iff_withinWindows {items : List WorkItem} (sends : sendsProbe r.state = true) :
    Meets (probeStep crates settings) (fun r => InTime settings r.state) r items ↔
      WithinWindows settings r.state items := by
  induction items generalizing r with
  | nil => exact ⟨fun _ => ⟨by simp, by simp, .nil⟩, fun _ => trivial⟩
  | cons item rest ih =>
      obtain ⟨due, scheduled⟩ := Option.isSome_iff_exists.mp (Bool.and_eq_true_iff.mp sends).2
      have due' : (processWorkItem crates settings r.state item).nextBedrockProbe =
          if leavesPlain settings r.state item then some (drawnDelay settings item.ctx.probeDraw) else none :=
        nextBedrockProbe_of_sends sends
      have inTime : InTime settings r.state item ↔ due ≤ item.time ∧
          (leavesPlain settings r.state item = true → item.time ≤ leeway settings item.ctx.probeDraw) := by
        simp [InTime, sends, scheduled]
      rw [withinWindows_cons (processWorkItem crates settings r.state item) scheduled
        fun leaves => ⟨by rw [due', if_pos leaves], leavesPlain_processWorkItem sends leaves⟩]
      change InTime settings r.state item ∧ Meets _ _ (probeStep crates settings r item) rest ↔ _
      rw [inTime, and_assoc]
      refine and_congr_right fun _ => ?_
      by_cases leaves : leavesPlain settings r.state item = true
      · have onward : sendsProbe (probeStep crates settings r item).state = true := by
          change (!skipsPoll (processWorkItem ..) && (processWorkItem ..).nextBedrockProbe.isSome) = true
          rw [skipsPoll_processWorkItem, due', if_pos leaves]
          exact Bool.and_eq_true_iff.mpr ⟨(Bool.and_eq_true_iff.mp sends).1, rfl⟩
        simp only [leaves, true_imp_iff]
        exact and_congr_right fun _ => ih onward
      · have silent : sendsProbe (probeStep crates settings r item).state = false := by
          change (!skipsPoll (processWorkItem ..) && (processWorkItem ..).nextBedrockProbe.isSome) = false
          rw [due', if_neg leaves]
          exact Bool.and_false _
        simp only [leaves]
        exact ⟨fun _ => nofun, fun _ => ⟨nofun, meets_of_silent silent⟩⟩

theorem takeWhile_prefix_probingCalls (plain : WorkItem → Bool) (items : List WorkItem) :
    items.takeWhile plain <+: probingCalls plain items := by
  induction items with
  | nil => exact List.prefix_refl _
  | cons item rest ih =>
      rw [probingCalls, List.takeWhile_cons]
      split
      · exact (List.prefix_cons_inj item).mpr ih
      · exact List.nil_prefix

/-- Calls that stay within their leeway but wait for the delay drawn before use up the longest delay. -/
theorem count_le_of_windows {calls : List WorkItem}
    (late : ∀ item ∈ calls, item.time + probeSpacing settings ≤ drawnDelay settings item.ctx.probeDraw)
    (chain : calls.IsChain fun a b => drawnDelay settings a.ctx.probeDraw ≤ b.time) :
    ∀ first ∈ calls.head?, calls.length * probeSpacing settings ≤ longestDelay settings - first.time := by
  induction calls with
  | nil => exact fun _ none => nomatch none
  | cons item rest ih =>
      rintro _ ⟨⟩
      obtain ⟨here, later⟩ := List.isChain_cons.mp chain
      have first_late := late item List.mem_cons_self
      rw [List.length_cons]
      push_cast
      cases rest with
      | nil =>
          have longest := drawnDelay_le settings item.ctx.probeDraw
          simp only [List.length_nil, Nat.cast_zero]
          linarith
      | cons next rest =>
          have rest_count := ih (fun i there => late i (List.mem_cons_of_mem _ there)) later next rfl
          have waited := here next rfl
          linarith

theorem WithinWindows.count_le {items : List WorkItem} (h : WithinWindows settings s items) :
    ∀ first ∈ (items.takeWhile (leavesPlain settings s)).head?,
      (items.takeWhile (leavesPlain settings s)).length * probeSpacing settings ≤
        longestDelay settings - first.time := by
  have waits : (items.takeWhile (leavesPlain settings s)).IsChain fun a b =>
      drawnDelay settings a.ctx.probeDraw ≤ b.time :=
    List.IsChain.prefix h.earliest (takeWhile_prefix_probingCalls _ items)
  exact count_le_of_windows (fun item listed => le_leeway_iff.mp (h.latest item listed)) waits

/-- The probes of a run keep the schedule exactly when none is sent or its calls are within their windows. Then
the calls that leave a plain Java server are few, and all of them close to the start of the process. -/
theorem probes_keep_schedule_iff (crates : Crates) (settings : Settings) (s : ServerState)
    (items : List WorkItem) :
    (KeepsSchedule settings (items.foldl (probeStep crates settings) ⟨s, []⟩).probes ↔
      (sendsProbe s = true → WithinWindows settings s items)) ∧
    (WithinWindows settings s items →
      (∀ item ∈ items.takeWhile (leavesPlain settings s),
        item.time ≤ longestDelay settings - probeSpacing settings) ∧
      ∀ first ∈ (items.takeWhile (leavesPlain settings s)).head?,
        (items.takeWhile (leavesPlain settings s)).length * probeSpacing settings ≤
          longestDelay settings - first.time) := by
  refine ⟨?_, fun within => ⟨?_, within.count_le⟩⟩
  · rw [keepsSchedule_iff_meets]
    cases sends : sendsProbe s with
    | false => exact ⟨fun _ => nofun, fun _ => meets_of_silent sends⟩
    | true => exact (meets_iff_withinWindows sends).trans ⟨fun h _ => h, fun h => h rfl⟩
  · intro item listed
    have late := le_leeway_iff.mp (within.latest item listed)
    have := drawnDelay_le settings item.ctx.probeDraw
    linarith

end Schedule

/-- Two polls a few minutes apart, each with a probe, though the least time between two is 50 minutes. -/
theorem probes_without_pause :
    let settings := defaultSettings false
    let items : List WorkItem := [5000, 5300].map fun now => ⟨now, upResult, quietContext now⟩
    let start : ServerState := { sampleState with nextBedrockProbe := some 2000 }
    let probes := (items.foldl (probeStep plainCrates settings) ⟨start, []⟩).probes
    probes.map (fun p => (p.time, p.due, p.next)) =
        [(5000, some 2000, some 3600), (5300, some 3600, some 3600)] ∧
      probeSpacing settings = 3000 ∧ ¬KeepsSchedule settings probes := by
  intro settings items start probes
  have times : probes.map (fun p => (p.time, p.due, p.next)) =
      [(5000, some 2000, some 3600), (5300, some 3600, some 3600)] := by decide +kernel
  have spacing : probeSpacing settings = 3000 := by decide +kernel
  refine ⟨times, spacing, fun keeps => ?_⟩
  have chain := List.isChain_map_of_isChain (fun p : Probe => (p.time, p.due, p.next))
    (S := fun a b => a.1 + 3000 ≤ b.1) (fun p q near => by rwa [spacing] at near) keeps.spaced
  rw [times] at chain
  revert chain
  norm_num

end ServerPoller
