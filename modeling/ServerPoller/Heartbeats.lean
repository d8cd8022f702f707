import ServerPoller.EventGrammar
import Mathlib.Tactic.Linarith

/-! When `build_change_payload` emits. Every emission restarts the heartbeat interval, so the gaps between
emissions are bounded by the interval and the time between two calls. -/

namespace ServerPoller
open Json RustText

section Emissions
variable (crates : Crates)

def emissions (s : ServerState) : List DetectionCall → List (ℚ × String)
  | [] => []
  | call :: rest =>
      ((eventAt crates s call).map fun event => (call.now, event)).toList ++
        emissions (detect crates (s, none) call).1 rest

def detectAll (s : ServerState) (calls : List DetectionCall) : ServerState :=
  calls.foldl (fun s call => (detect crates (s, none) call).1) s

end Emissions

/-- What holds of an emission and the one before it. -/
def InPace (h d : ℚ) (previous next : ℚ × String) : Prop :=
  next.1 - previous.1 < h + d ∧ (next.2 = "heartbeat" → h ≤ next.1 - previous.1)

structure EmittedAt (s : ServerState) (t : ℚ) : Prop where
  emitted : s.hasEmittedState = true
  time : s.lastEmittedAt = some t

section Pace
variable {crates : Crates} {s : ServerState} {call : DetectionCall} {h d t : ℚ}

theorem detect_emits {event : String} (emits : eventAt crates s call = some event) :
    EmittedAt (detect crates (s, none) call).1 call.now := by
  rcases buildChangePayload_cases crates s call.payload call.statusOk call.now call.heartbeatInterval with
    ⟨_, eq⟩ | ⟨out, eq, _⟩
  · rw [eventAt, eq] at emits
    cases emits
  · simp only [detect, eq]
    exact ⟨rfl, rfl⟩

theorem detect_silent (silent : eventAt crates s call = none) : (detect crates (s, none) call).1 = s := by
  rw [eventAt_eq, Option.map_eq_none_iff] at silent
  simp only [detect, buildChangePayload, silent]

theorem heartbeatDue_emitted (last : EmittedAt s t) (positive : 0 < h) (now : ℚ) :
    heartbeatDue s.toEmitted now h = decide (h ≤ now - t) := by
  simp only [heartbeatDue, last.time, positive, true_and]

theorem eventAt_overdue (last : EmittedAt s t) (positive : 0 < h) (interval : call.heartbeatInterval = h)
    (overdue : h ≤ call.now - t) : eventAt crates s call ≠ none := by
  rw [eventAt_eq]
  intro silent
  obtain ⟨_, _, _, _, _, early⟩ := eventType_eq_none_iff.mp (Option.map_eq_none_iff.mp silent)
  rw [interval, heartbeatDue_emitted last positive] at early
  exact of_decide_eq_false early overdue

theorem heartbeatDue_of_eventType {e : Emitted} {cur : Observation} {now : ℚ}
    (heartbeat : eventType e cur now h = some .heartbeat) : heartbeatDue e now h = true := by
  unfold eventType at heartbeat
  split_ifs at heartbeat
  all_goals first | assumption | cases heartbeat

/-- A heartbeat comes only when the interval has passed. -/
theorem overdue_of_heartbeat (last : EmittedAt s t) (positive : 0 < h) (interval : call.heartbeatInterval = h)
    (heartbeat : eventAt crates s call = some "heartbeat") : h ≤ call.now - t := by
  rw [eventAt_eq] at heartbeat
  obtain ⟨event, type, text⟩ := Option.map_eq_some_iff.mp heartbeat
  have silent : event = .heartbeat := by
    cases event <;> first | rfl | exact absurd text (by decide)
  rw [silent] at type
  have due := heartbeatDue_of_eventType type
  rw [interval, heartbeatDue_emitted last positive] at due
  exact of_decide_eq_true due

/-- The emissions after one at time `t`, when the previous call came before the next heartbeat. -/
theorem emissions_inPace (crates : Crates) (positive : 0 < h) {calls : List DetectionCall}
    (every : ∀ call ∈ calls, call.heartbeatInterval = h) {p : ℚ} (event : String) (last : EmittedAt s t)
    (before : p - t < h) (spaced : (p :: calls.map DetectionCall.now).IsChain fun a b => b ≤ a + d) :
    ((t, event) :: emissions crates s calls).IsChain (InPace h d) ∧
      ∃ t' e', ((t, event) :: emissions crates s calls).getLast? = some (t', e') ∧
        EmittedAt (detectAll crates s calls) t' := by
  induction calls generalizing s t p event with
  | nil => exact ⟨.singleton _, t, event, rfl, last⟩
  | cons call rest ih =>
      obtain ⟨interval, every'⟩ := List.forall_mem_cons.mp every
      obtain ⟨soon, spaced'⟩ := List.isChain_cons_cons.mp spaced
      cases emits : eventAt crates s call with
      | none =>
          have early : call.now - t < h := by
            by_contra overdue
            exact eventAt_overdue last positive interval (not_lt.mp overdue) emits
          have same := detect_silent emits
          have later := ih every' event last early spaced'
          simp only [emissions, detectAll, List.foldl_cons, emits, same, Option.map_none, Option.toList_none,
            List.nil_append]
          exact later
      | some next =>
          have emitted := detect_emits emits
          obtain ⟨pace, t', e', final, at_⟩ := ih every' next emitted (by rwa [sub_self]) spaced'
          have here : InPace h d (t, event) (call.now, next) := by
            refine ⟨?_, ?_⟩
            · show call.now - t < h + d
              linarith
            · rintro rfl
              exact overdue_of_heartbeat last positive interval emits
          simp only [emissions, detectAll, List.foldl_cons, emits, Option.map_some, Option.toList_some,
            List.singleton_append]
          exact ⟨.cons_cons here pace, t', e', by rw [List.getLast?_cons_cons]; exact final, at_⟩

/-- From a fresh state the emissions leave no gap of `h + d` and no heartbeat is early, and a call that comes
when the interval has passed since the last emission emits. -/
theorem heartbeats_keep_pace (crates : Crates) {s : ServerState} (fresh : s.Fresh) {h d : ℚ} (positive : 0 < h)
    {calls : List DetectionCall} (every : ∀ call ∈ calls, call.heartbeatInterval = h)
    (spaced : (calls.map DetectionCall.now).IsChain fun a b => a ≤ b ∧ b ≤ a + d) :
    (emissions crates s calls).IsChain (InPace h d) ∧
      (∀ first ∈ (emissions crates s calls).head?, first.2 ≠ "heartbeat") ∧
      ∀ t event, (emissions crates s calls).getLast? = some (t, event) → ∀ call : DetectionCall,
        call.heartbeatInterval = h → h ≤ call.now - t →
          eventAt crates (detectAll crates s calls) call ≠ none := by
  cases calls with
  | nil => exact ⟨.nil, nofun, nofun⟩
  | cons first rest =>
      have full := (event_stream_grammar crates fresh).1 first
      obtain ⟨pace, t, event, last, emitted⟩ := emissions_inPace crates positive
        (List.forall_mem_cons.mp every).2 "state_full" (detect_emits full) (by rwa [sub_self])
        (spaced.imp fun _ _ near => near.2)
      simp only [emissions, full, Option.map_some, Option.toList_some, List.singleton_append]
      refine ⟨pace, ?_, ?_⟩
      · rintro _ ⟨⟩
        exact (by decide : "state_full" ≠ "heartbeat")
      · intro t' event' last' call interval overdue
        cases last.symm.trans last'
        exact eventAt_overdue emitted positive interval overdue

end Pace

/-- Polls every 40 seconds with a heartbeat interval of 60. -/
theorem heartbeats_keep_pace_steady :
    let calls : List DetectionCall := [0, 40, 80, 120, 160].map fun now => ⟨.object [], false, now, 60⟩
    emissions plainCrates sampleState calls = [(0, "state_full"), (80, "heartbeat"), (160, "heartbeat")] ∧
      (emissions plainCrates sampleState calls).IsChain (InPace 60 40) := by
  intro calls
  refine ⟨by decide +kernel, (heartbeats_keep_pace plainCrates (s := sampleState) rfl (by norm_num) ?_ ?_).1⟩
  · simp [calls]
  · simp only [calls, List.map_cons, List.map_nil]
    norm_num

end ServerPoller
