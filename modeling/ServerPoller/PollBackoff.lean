import ServerPoller.PollWorker

/-! The intervals that `process_work_item` chooses for one server, poll after poll: how long it waits after a failed
poll as long as the server never answered, and once it did. -/

namespace ServerPoller
open Transition

/-- The interval after this many failed polls of a server that never answered. -/
def failureInterval (settings : Settings) (failures : Nat) : ℚ :=
  if settings.collector.initialFailuresBeforeSlowdown ≤ failures then
    min (max (offlineInterval settings * settings.collector.initialFailureSlowdownMultiplier)
      (offlineInterval settings)) settings.collector.initialFailureMaxIntervalSeconds
  else offlineInterval settings

/-- What `process_work_item` chooses before jitter, from the counters after the poll. -/
def baseInterval (settings : Settings) (s : PollRun) (p : Poll) : ℚ :=
  nextInterval settings s.state.snapshot p.result.statusOk (recordStatus p.result.statusOk s.state)

structure Choice where
  statusOk : Bool
  succeeded : Bool
  interval : ℚ
  deriving DecidableEq, Repr

section Backoff
variable (crates : Crates) (settings : Settings)

def choices (succeeded : Bool) (s : PollRun) : List Poll → List Choice
  | [] => []
  | p :: polls =>
      ⟨p.result.statusOk, succeeded || p.result.statusOk, baseInterval settings s p⟩ ::
        choices (succeeded || p.result.statusOk) (completePoll crates settings s p) polls

/-- Before the first success the intervals never decrease and are at least the offline interval; after it a
failed poll uses exactly that. -/
structure BacksOff (chosen : List Choice) : Prop where
  slower : (chosen.filter fun c => !c.succeeded).Pairwise fun c d => c.interval ≤ d.interval
  offline : ∀ c ∈ chosen, c.succeeded = false → offlineInterval settings ≤ c.interval
  afterSuccess : ∀ c ∈ chosen, c.statusOk = false → c.succeeded = true → c.interval = offlineInterval settings

/-- A failed poll before any success that slows down finds a maximum that is no shorter than the offline interval,
and its count of failures fits in 32 bits. -/
def SlowsDown (s : PollRun) (p : Poll) : Prop :=
  p.result.statusOk = false → s.state.hasSucceeded = false → s.state.initialFailures + 1 < 2 ^ 32 ∧
    (settings.collector.initialFailuresBeforeSlowdown ≤ s.state.initialFailures + 1 →
      offlineInterval settings ≤ settings.collector.initialFailureMaxIntervalSeconds)

instance SlowsDown.decidable (s : PollRun) (p : Poll) : Decidable (SlowsDown settings s p) :=
  inferInstanceAs (Decidable (_ → _ → _ ∧ (_ → _)))

variable {crates settings} {s t : PollRun} {p : Poll}

theorem maybeProbeBedrock_failures (settings : Settings) (ctx : UpdateContext) (u : ServerState) :
    (maybeProbeBedrock settings ctx u).toFailures = u.toFailures := by
  unfold maybeProbeBedrock
  split
  · rfl
  · rfl

theorem maybeUpdateFavicon_failures (crates : Crates) (ctx : UpdateContext) (favicon : String) (u : ServerState) :
    (maybeUpdateFavicon crates ctx favicon u).toFailures = u.toFailures := by
  unfold maybeUpdateFavicon
  split
  · rfl
  · split
    · rfl
    · rfl

theorem nextInterval_congr {snap : Snapshot} {statusOk : Bool} {u v : ServerState}
    (same : u.toFailures = v.toFailures) :
    nextInterval settings snap statusOk u = nextInterval settings snap statusOk v := by
  unfold nextInterval
  rw [same]

theorem recordPoll_counted (crates : Crates) (settings : Settings) (s : PollRun) (p : Poll) : ∃ u : ServerState,
    u.toFailures = (recordStatus p.result.statusOk s.state).toFailures ∧
      recordPoll crates settings s.state.snapshot p.result p.ctx s.state =
        { u with nextDue :=
          p.ctx.now + max (baseInterval settings s p + p.ctx.jitter * baseInterval settings s p) 1 } := by
  have probed := maybeProbeBedrock_failures settings p.ctx (recordStatus p.result.statusOk s.state)
  by_cases none : p.result.favicon = ""
  · refine ⟨_, probed, ?_⟩
    simp only [recordPoll, if_pos none, nextInterval_congr probed]
    rfl
  · have updated := (maybeUpdateFavicon_failures crates p.ctx p.result.favicon _).trans probed
    refine ⟨_, updated, ?_⟩
    simp only [recordPoll, if_neg none, nextInterval_congr updated]
    rfl

theorem completePoll_counted (crates : Crates) (settings : Settings) (s : PollRun) (p : Poll) :
    (completePoll crates settings s p).state.toFailures = (recordStatus p.result.statusOk s.state).toFailures ∧
      (completePoll crates settings s p).state.nextDue =
        p.ctx.now + max (baseInterval settings s p + p.ctx.jitter * baseInterval settings s p) 1 := by
  obtain ⟨u, counted, recorded⟩ := recordPoll_counted crates settings s p
  obtain ⟨e, eq⟩ := updateState_frame crates settings s.state.snapshot p.result p.ctx s.state
  rw [completePoll_state, eq, recorded]
  exact ⟨counted, rfl⟩

/-- The maximum is applied last, so that it may be what is chosen. -/
theorem offline_le_failureInterval_iff {n : Nat} : offlineInterval settings ≤ failureInterval settings n ↔
    (settings.collector.initialFailuresBeforeSlowdown ≤ n →
      offlineInterval settings ≤ settings.collector.initialFailureMaxIntervalSeconds) := by
  unfold failureInterval
  split
  · rename_i slow
    rw [le_min_iff, and_iff_right (le_max_right _ _), imp_iff_right slow]
  · rename_i early
    exact iff_of_true le_rfl fun slow => absurd slow early

theorem failureInterval_mono {n m : Nat} (le : n ≤ m) (kept : offlineInterval settings ≤ failureInterval settings m) :
    failureInterval settings n ≤ failureInterval settings m := by
  by_cases slow : settings.collector.initialFailuresBeforeSlowdown ≤ n
  · rw [failureInterval, failureInterval, if_pos slow, if_pos (slow.trans le)]
  · rw [failureInterval, if_neg slow]
    exact kept

theorem baseInterval_failed (settings : Settings) (unmanaged : s.state.pluginManaged = false)
    (failed : p.result.statusOk = false) :
    baseInterval settings s p = if s.state.hasSucceeded = false
      then failureInterval settings (s.state.initialFailures + 1) else offlineInterval settings := by
  have snap : s.state.snapshot.pluginManaged = false := unmanaged
  cases succeeded : s.state.hasSucceeded <;>
    simp [baseInterval, nextInterval, snap, failed, recordStatus, succeeded, failureInterval]

theorem hasSucceeded_completePoll : (completePoll crates settings s p).state.hasSucceeded =
    (s.state.hasSucceeded || p.result.statusOk) := by
  have counted := congrArg Failures.hasSucceeded (completePoll_counted crates settings s p).1
  rw [counted]
  cases ok : p.result.statusOk <;> simp [recordStatus]

theorem initialFailures_le_completePoll :
    s.state.initialFailures ≤ (completePoll crates settings s p).state.initialFailures := by
  have counted := congrArg Failures.initialFailures (completePoll_counted crates settings s p).1
  rw [counted]
  cases ok : p.result.statusOk <;> cases succeeded : s.state.hasSucceeded <;> simp [recordStatus, succeeded]

theorem initialFailures_failed (failed : p.result.statusOk = false) (never : s.state.hasSucceeded = false) :
    (completePoll crates settings s p).state.initialFailures = s.state.initialFailures + 1 := by
  have counted := congrArg Failures.initialFailures (completePoll_counted crates settings s p).1
  rw [counted]
  simp [recordStatus, failed, never]

section Run
variable {polls : List Poll} (unmanaged : s.state.pluginManaged = false)
  (run : Run (Only (ofTotal (completePoll crates settings)) (SlowsDown settings)) s polls t)
include unmanaged run

/-- Each choice before the first success is the interval of a count above the one at the start. -/
theorem early_choice {c : Choice} (chosen : c ∈ choices crates settings s.state.hasSucceeded s polls)
    (early : c.succeeded = false) : ∃ n, s.state.initialFailures < n ∧ c.interval = failureInterval settings n ∧
      offlineInterval settings ≤ failureInterval settings n := by
  induction run with
  | nil s => cases chosen
  | @cons s t u p polls first rest ih =>
      obtain ⟨rfl, slows⟩ := first
      rcases List.mem_cons.mp chosen with rfl | later
      · obtain ⟨never, failed⟩ := Bool.or_eq_false_iff.mp early
        have interval := baseInterval_failed settings unmanaged failed
        rw [if_pos never] at interval
        exact ⟨_, Nat.lt_succ_self _, interval, offline_le_failureInterval_iff.mpr (slows failed never).2⟩
      · rw [← hasSucceeded_completePoll] at later
        obtain ⟨n, more, interval, kept⟩ := ih (completePoll_unmanaged unmanaged) later
        exact ⟨n, lt_of_le_of_lt initialFailures_le_completePoll more, interval, kept⟩

theorem late_choice {c : Choice} (chosen : c ∈ choices crates settings s.state.hasSucceeded s polls)
    (failed : c.statusOk = false) (late : c.succeeded = true) : c.interval = offlineInterval settings := by
  induction run with
  | nil s => cases chosen
  | @cons s t u p polls first rest ih =>
      obtain ⟨rfl, _⟩ := first
      rcases List.mem_cons.mp chosen with rfl | later
      · have interval := baseInterval_failed settings unmanaged failed
        have answered : s.state.hasSucceeded = true := by
          rcases Bool.or_eq_true_iff.mp late with before | now
          · exact before
          · exact absurd (failed.symm.trans now) Bool.false_ne_true
        rwa [if_neg (by simp [answered])] at interval
      · rw [← hasSucceeded_completePoll] at later
        exact ih (completePoll_unmanaged unmanaged) later

theorem early_choices_sorted : ((choices crates settings s.state.hasSucceeded s polls).filter
    fun c => !c.succeeded).Pairwise fun c d => c.interval ≤ d.interval := by
  induction run with
  | nil s => exact .nil
  | @cons s t u p polls first rest ih =>
      obtain ⟨rfl, slows⟩ := first
      have sorted := ih (completePoll_unmanaged unmanaged)
      rw [hasSucceeded_completePoll] at sorted
      rw [choices, List.filter_cons]
      split
      · rename_i early
        refine List.pairwise_cons.mpr ⟨?_, sorted⟩
        intro d member
        obtain ⟨later, earlyLater⟩ := List.mem_filter.mp member
        rw [← hasSucceeded_completePoll] at later
        obtain ⟨n, more, interval, kept⟩ := early_choice (completePoll_unmanaged unmanaged) rest later
          (by simpa using earlyLater)
        obtain ⟨never, failed⟩ : s.state.hasSucceeded = false ∧ p.result.statusOk = false := by
          simpa using early
        rw [initialFailures_failed failed never] at more
        have own := baseInterval_failed settings unmanaged failed
        rw [if_pos never] at own
        exact own.trans_le ((failureInterval_mono more.le kept).trans_eq interval.symm)
      · exact sorted

/-- In every run in which a poll that slows down finds a maximum that allows it, backing off never speeds
polling up. -/
theorem backing_off_slows : BacksOff settings (choices crates settings s.state.hasSucceeded s polls) where
  slower := early_choices_sorted unmanaged run
  offline := fun _ chosen early => by
    obtain ⟨n, _, interval, kept⟩ := early_choice unmanaged run chosen early
    exact kept.trans_eq interval.symm
  afterSuccess := fun _ chosen failed late => late_choice unmanaged run chosen failed late

end Run

end Backoff

def failedPollAt (now : ℚ) : Poll := ⟨⟨.object [], false, ""⟩, quietContext now, true⟩

/-- The default settings with an offline interval above the default maximum. -/
def shortMaximum : Settings :=
  { defaultSettings false with collector := { (defaultSettings false).collector with offlineIntervalSeconds := 7200 } }

/-- The fifth failed poll slows down, to half the interval of the others. -/
theorem backing_off_speeds_up :
    let polls := [failedPollAt 0, failedPollAt 7200, failedPollAt 14400, failedPollAt 21600, failedPollAt 28800]
    sampleState.pluginManaged = false ∧
      (choices plainCrates shortMaximum false ⟨sampleState, [], 0⟩ polls).map Choice.interval =
        [7200, 7200, 7200, 7200, 3600] ∧
      ¬BacksOff shortMaximum (choices plainCrates shortMaximum false ⟨sampleState, [], 0⟩ polls) := by
  intro polls
  refine ⟨rfl, by decide +kernel, fun slows => ?_⟩
  have fifth : (⟨false, false, 3600⟩ : Choice) ∈
      choices plainCrates shortMaximum false ⟨sampleState, [], 0⟩ polls := by decide +kernel
  exact absurd (slows.offline _ fifth rfl) (by decide +kernel)

/-- With the default settings five failed polls slow down, and after a success the next does not. -/
theorem backing_off_slows_default :
    let polls := [failedPollAt 0, failedPollAt 600, failedPollAt 1200, failedPollAt 1800, failedPollAt 2400,
      ⟨upResult, quietContext 6000, true⟩, failedPollAt 6300]
    BacksOff (defaultSettings false) (choices plainCrates (defaultSettings false) false ⟨sampleState, [], 0⟩ polls) := by
  intro polls
  have slow : Meets (completePoll plainCrates (defaultSettings false)) (SlowsDown (defaultSettings false))
      ⟨sampleState, [], 0⟩ polls := by decide +kernel
  exact backing_off_slows (s := ⟨sampleState, [], 0⟩) rfl (run_only_iff.mpr ⟨slow, rfl⟩)

end ServerPoller
