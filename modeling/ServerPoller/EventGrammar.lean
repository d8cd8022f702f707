import ServerPoller.ChangeDetection

/-! The order in which `build_change_payload` can emit its events. Which one a call emits depends on
the fields that all earlier calls have left, the silent ones included. -/

namespace ServerPoller
open Json RustText Transition

section Stream
variable (crates : Crates)

def eventAt (s : ServerState) (call : DetectionCall) : Option String :=
  (buildChangePayload crates s call.payload call.statusOk call.now call.heartbeatInterval).2.bind fun out =>
    strField out "event_type"

def events (s : ServerState) : List DetectionCall → List (Option String)
  | [] => []
  | call :: rest => eventAt crates s call :: events (detect crates (s, none) call).1 rest

end Stream

/-- The payload gives a value for this field, which is not the one that was emitted last. -/
def Supplies (payload : Value) (field previous : String) : Prop :=
  trimmedField payload field ≠ "" ∧ trimmedField payload field ≠ previous

/-- What a call can emit that comes after another one, when the last payload had these values. -/
structure Follows (prev call : DetectionCall) (emitted : Observation) (event : Option String) : Prop where
  not_full : event ≠ some "state_full"
  down : event = some "server_down" ↔ prev.statusOk = true ∧ call.statusOk = false
  up : event = some "server_up" ↔ prev.statusOk = false ∧ call.statusOk = true
  online : event = some "online_changed" → prev.statusOk = true ∧ call.statusOk = true ∧
    intField call.payload "online" ≠ intField prev.payload "online"
  while_down : prev.statusOk = false → call.statusOk = false →
    event = none ∨ event = some "heartbeat" ∨
      (event = some "state_updated" ∧ (Supplies call.payload "country" emitted.country ∨
        Supplies call.payload "country_code" emitted.countryCode))

def upOrDown (event : Option String) : Bool := event == some "server_up" || event == some "server_down"

section Grammar
variable {crates : Crates} {s : ServerState} {call prev : DetectionCall} {o : Observation}

theorem eventAt_eq (crates : Crates) (s : ServerState) (call : DetectionCall) : eventAt crates s call =
    (eventType s.toEmitted (currentValues crates s.toEmitted call.payload call.statusOk) call.now
      call.heartbeatInterval).map EventType.asStr := by
  rw [eventAt, buildChangePayload_output]
  cases eventType s.toEmitted (currentValues crates s.toEmitted call.payload call.statusOk) call.now
      call.heartbeatInterval with
  | none => rfl
  | some event => rw [Option.map_some, Option.bind_some, outPayload_event_type, Option.map_some]

theorem detect_holds (crates : Crates) (call : DetectionCall) {r : Option Observation}
    (holds : s.toEmitted.Holds r) :
    (detect crates (s, r) call).2 = some (mirror crates r call.payload call.statusOk) ∧
      (detect crates (s, r) call).1.toEmitted.Holds (some (mirror crates r call.payload call.statusOk)) :=
  buildChangePayload_mirrors call.payload call.statusOk call.now call.heartbeatInterval holds

/-- While a server is down, the number of players and their names are those of an empty server. -/
def Observation.Blank (o : Observation) : Prop := o.up = false → o.online = some 0 ∧ o.playersHash = none

theorem mirror_up (crates : Crates) (r : Option Observation) (payload : Value) (statusOk : Bool) :
    (mirror crates r payload statusOk).up = statusOk := by
  cases statusOk <;> rfl

theorem mirror_blank (crates : Crates) (r : Option Observation) (payload : Value) (statusOk : Bool) :
    (mirror crates r payload statusOk).Blank := by
  intro down
  rw [mirror_up] at down
  subst down
  exact ⟨rfl, rfl⟩

theorem eventType_emitted (o cur : Observation) (t now heartbeatInterval : ℚ) :
    eventType (o.emitted t) cur now heartbeatInterval =
      if o.up ≠ cur.up then some (if cur.up then .serverUp else .serverDown)
      else if o.online ≠ cur.online then some .onlineChanged
      else if changedMeta (o.emitted t) cur = true ∨ o.playersHash ≠ cur.playersHash then some .stateUpdated
      else if heartbeatDue (o.emitted t) now heartbeatInterval then some .heartbeat
      else none := by
  have emitted : ¬(o.emitted t).hasEmittedState = false := nofun
  have up : (o.emitted t).lastEmittedUp ≠ some cur.up ↔ o.up ≠ cur.up := by simp [Observation.emitted]
  rw [eventType, if_neg emitted]
  exact if_congr up rfl rfl

theorem eventAt_turned (crates : Crates) (call : DetectionCall) (holds : s.toEmitted.Holds (some o))
    (turned : o.up ≠ call.statusOk) :
    eventAt crates s call = some (if call.statusOk then "server_up" else "server_down") := by
  obtain ⟨t, emitted⟩ := id holds
  rw [eventAt_eq, currentValues_eq_mirror holds, emitted, eventType_emitted, mirror_up, if_pos turned]
  cases call.statusOk <;> rfl

theorem eventAt_still_up (crates : Crates) (holds : s.toEmitted.Holds (some o)) (before : o.up = true)
    (after : call.statusOk = true) :
    eventAt crates s call = none ∨
      (eventAt crates s call = some "online_changed" ∧ intField call.payload "online" ≠ o.online) ∨
      eventAt crates s call = some "state_updated" ∨ eventAt crates s call = some "heartbeat" := by
  obtain ⟨t, emitted⟩ := id holds
  have same : ¬o.up ≠ call.statusOk := by rw [before, after, not_not]
  have measured : (mirror crates (some o) call.payload call.statusOk).online =
      intField call.payload "online" := by
    rw [after]
    rfl
  rw [eventAt_eq, currentValues_eq_mirror holds, emitted, eventType_emitted, mirror_up, if_neg same, measured]
  split_ifs with moved updated due
  · exact .inr (.inl ⟨rfl, Ne.symm moved⟩)
  · exact .inr (.inr (.inl rfl))
  · exact .inr (.inr (.inr rfl))
  · exact .inl rfl

theorem changedMeta_down {t : ℚ} {payload : Value}
    (changed : changedMeta (o.emitted t) (mirror crates (some o) payload false) = true) :
    Supplies payload "country" o.country ∨ Supplies payload "country_code" o.countryCode := by
  have supplied : ∀ field previous, previous ≠ (if trimmedField payload field = "" then previous
      else trimmedField payload field) → Supplies payload field previous := by
    intro field previous differs
    by_cases empty : trimmedField payload field = ""
    · rw [if_pos empty] at differs
      exact absurd rfl differs
    · rw [if_neg empty] at differs
      exact ⟨empty, Ne.symm differs⟩
  simp only [changedMeta, mirror, Observation.emitted, Option.getD_some, Bool.false_eq_true, if_false,
    bne_self_eq_false, Bool.false_or, Bool.or_eq_true, bne_iff_ne] at changed
  exact changed.imp (supplied _ _) (supplied _ _)

theorem eventAt_still_down (crates : Crates) (holds : s.toEmitted.Holds (some o)) (blank : o.Blank)
    (before : o.up = false) (after : call.statusOk = false) :
    eventAt crates s call = none ∨ eventAt crates s call = some "heartbeat" ∨
      (eventAt crates s call = some "state_updated" ∧ (Supplies call.payload "country" o.country ∨
        Supplies call.payload "country_code" o.countryCode)) := by
  obtain ⟨t, emitted⟩ := id holds
  obtain ⟨online, players⟩ := blank before
  have same : ¬o.up ≠ call.statusOk := by rw [before, after, not_not]
  have offline : (mirror crates (some o) call.payload call.statusOk).online = some 0 ∧
      (mirror crates (some o) call.payload call.statusOk).playersHash = none := by
    rw [after]
    exact ⟨rfl, rfl⟩
  rw [eventAt_eq, currentValues_eq_mirror holds, emitted, eventType_emitted, mirror_up, if_neg same,
    offline.1, offline.2, online, players]
  split_ifs with moved updated due
  · exact absurd rfl moved
  · rw [after] at updated
    exact .inr (.inr ⟨rfl, changedMeta_down (updated.resolve_right fun differs => differs rfl)⟩)
  · exact .inr (.inl rfl)
  · exact .inl rfl

/-- A call after another one, from the record that this one has left. -/
theorem eventAt_follows {r : Option Observation}
    (holds : s.toEmitted.Holds (some (mirror crates r prev.payload prev.statusOk))) :
    Follows prev call (mirror crates r prev.payload prev.statusOk) (eventAt crates s call) := by
  have up := mirror_up crates r prev.payload prev.statusOk
  have blank := mirror_blank crates r prev.payload prev.statusOk
  cases before : prev.statusOk with
  | true =>
      cases after : call.statusOk with
      | true =>
          have still := eventAt_still_up crates holds (up.trans before) after
          have measured : (mirror crates r prev.payload true).online = intField prev.payload "online" := rfl
          rw [before, measured] at still
          rcases still with eq | ⟨eq, moved⟩ | eq | eq
          · rw [eq]
            constructor <;> simp [before, after]
          · rw [eq]
            constructor <;> simp [before, after, moved]
          · rw [eq]
            constructor <;> simp [before, after]
          · rw [eq]
            constructor <;> simp [before, after]
      | false =>
          have turned := eventAt_turned crates call holds (by rw [up, before, after]; decide)
          rw [turned, after]
          constructor <;> simp [before, after]
  | false =>
      cases after : call.statusOk with
      | true =>
          have turned := eventAt_turned crates call holds (by rw [up, before, after]; decide)
          rw [turned, after]
          constructor <;> simp [before, after]
      | false =>
          have still := eventAt_still_down crates holds blank (up.trans before) after
          rw [before] at still
          refine ⟨?_, ?_, ?_, ?_, fun _ _ => still⟩
          all_goals rcases still with eq | eq | ⟨eq, _⟩ <;> simp [eq, before, after]

theorem events_alternate (crates : Crates) (calls : List DetectionCall) (holds : s.toEmitted.Holds (some o))
    (blank : o.Blank) :
    (some (if o.up then "server_up" else "server_down") ::
      (events crates s calls).filter upOrDown).IsChain (· ≠ ·) := by
  induction calls generalizing s o with
  | nil => exact .singleton _
  | cons call rest ih =>
      have later := ih (detect_holds crates call holds).2
        (mirror_blank crates (some o) call.payload call.statusOk)
      rw [mirror_up] at later
      rw [events]
      by_cases turned : o.up = call.statusOk
      · have silent : upOrDown (eventAt crates s call) = false := by
          cases before : o.up with
          | true =>
              rcases eventAt_still_up crates holds before (turned.symm.trans before) with
                eq | ⟨eq, _⟩ | eq | eq <;>
                rw [eq] <;> decide
          | false =>
              rcases eventAt_still_down crates holds blank before (turned.symm.trans before) with
                eq | eq | ⟨eq, _⟩ <;> rw [eq] <;> decide
        rw [List.filter_cons_of_neg (by rw [silent]; nofun), turned]
        exact later
      · have event := eventAt_turned crates call holds turned
        have shown : upOrDown (eventAt crates s call) = true := by
          rw [event]
          cases call.statusOk <;> decide
        rw [List.filter_cons_of_pos shown, event]
        refine .cons_cons ?_ later
        cases before : o.up <;> cases after : call.statusOk <;> simp_all

/-- The first event is `state_full`; after it the events follow the grammar. -/
theorem event_stream_grammar (crates : Crates) {s : ServerState} (fresh : s.Fresh) :
    (∀ call, eventAt crates s call = some "state_full") ∧
    (∀ past prev call t r, Run (ofTotal (detect crates)) (s, none) (past ++ [prev]) (t, r) →
      ∃ o, r = some o ∧ Follows prev call o (eventAt crates t call)) ∧
    ∀ calls, ((events crates s calls).filter upOrDown).IsChain (· ≠ ·) := by
  have first : ∀ call, eventAt crates s call = some "state_full" := by
    intro call
    rw [eventAt_eq, fresh]
    rfl
  refine ⟨first, ?_, ?_⟩
  · intro past prev call t r run
    obtain ⟨⟨u, r₀⟩, before, last⟩ := run.split
    have inv : u.toEmitted.Holds r₀ := by
      apply before.keeps (P := fun v => v.1.toEmitted.Holds v.2) _ fresh
      rintro ⟨v, q⟩ c _ holds rfl
      obtain ⟨record, holds'⟩ := detect_holds crates c holds
      rw [record]
      exact holds'
    obtain ⟨record, holds⟩ := detect_holds crates prev inv
    have final : detect crates (u, r₀) prev = (t, r) := run_ofTotal_iff.mp last
    rw [final] at record holds
    exact ⟨_, record, eventAt_follows holds⟩
  · intro calls
    cases calls with
    | nil => exact .nil
    | cons call rest =>
        have holds := (detect_holds (r := none) crates call fresh).2
        have later := events_alternate crates rest holds (mirror_blank crates none call.payload call.statusOk)
        rw [events, first, List.filter_cons_of_neg (by decide)]
        exact later.of_cons

end Grammar

example :
    let up : Value := .ofFields [("online", .ofI64 5), ("country", .string "NL")]
    let calls : List DetectionCall := [⟨up, true, 0, 60⟩, ⟨.object [], false, 30, 60⟩, ⟨up, false, 40, 60⟩,
      ⟨.object [], false, 90, 60⟩, ⟨up, true, 95, 60⟩, ⟨up, true, 155, 60⟩]
    events plainCrates sampleState calls =
      [some "state_full", some "server_down", none, some "heartbeat", some "server_up", some "heartbeat"] := by
  decide +kernel

/-- A state that was reset starts over, and a call after that follows the grammar. -/
theorem event_stream_grammar_reset :
    let down : DetectionCall := ⟨.object [], false, 5, 0⟩
    let up : DetectionCall := ⟨.ofFields [("online", .ofI64 5)], true, 6, 0⟩
    let s := (detect plainCrates (sampleState, none) down).1.resetEmitted
    let t := detect plainCrates (s, none) up
    eventAt plainCrates s up = some "state_full" ∧
      ∃ o, t.2 = some o ∧ Follows up down o (eventAt plainCrates t.1 down) := by
  intro down up s t
  obtain ⟨first, next, _⟩ := event_stream_grammar plainCrates (s := s) rfl
  exact ⟨first up, next [] up down t.1 t.2 (.single rfl)⟩

end ServerPoller
