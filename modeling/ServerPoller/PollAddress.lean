import ServerPoller.CatalogFields

/-! A poll runs without the lock. Its result describes the address that the state has at the end
only as long as nobody gives that server another address meanwhile. -/

namespace ServerPoller
open Json RustText Transition

/-- The host, port and edition that `poll_server` was called with are those of the address. -/
def Snapshot.Describes (snap : Snapshot) (address : Address) : Prop :=
  snap.host = address.host ∧ snap.port = address.port ∧ snap.edition = address.edition

instance (snap : Snapshot) (address : Address) : Decidable (snap.Describes address) :=
  inferInstanceAs (Decidable (_ ∧ _))

def lastItem (k : String) (entries : List (Value × ItemContext)) : Option Value :=
  ((entries.filter fun entry => itemKey entry.1 == k).getLast?).map Prod.fst

def writtenAddress (c : Collector) (a : Action) (k : String) : Option Address :=
  match a with
  | .refresh _ entries => (lastItem k entries).map itemAddress
  | .fetched getServer _ =>
      match c.forceLoop with
      | .fetching target _ => if target = k then (fetchServerById getServer target).map itemAddress else none
      | .waiting => none
  | _ => none

def addressField (crates : Crates) (settings : Settings) : CatalogField crates settings Address where
  read := fun s => s.toAddress
  ofEntry := fun entry => itemAddress entry.1
  updated := fun _ _ _ => updateExisting_address
  built := fun _ _ => rfl
  rescheduled := fun _ _ => rfl
  polled := by
    intro snap result ctx s
    obtain ⟨e, eq⟩ := updateState_frame crates settings snap result ctx s
    rw [eq]
    exact (undisturbed_recordPoll crates settings snap result ctx s).address

theorem addressField_written (crates : Crates) (settings : Settings) (c : Collector) (a : Action)
    (k : String) : (addressField crates settings).written c a k = writtenAddress c a k := by
  cases a with
  | refresh =>
      simp only [CatalogField.written, writtenAddress, lastItem, lastEntry, addressField, Option.map_map]
      rfl
  | fetched => rfl
  | trigger | popTarget | runTask | nextDue | check | send | receive | snapshot | rescheduleInternal
  | finishPoll | trySend | ingestReceive => rfl

/-- Whatever address the step gives to a server that is being polled is the one it is polled at. -/
def AddressStable (settings : Settings) (c : Collector) (a : Action) : Prop :=
  ∀ i < settings.collector.maxConcurrency, ∀ poll ∈ (c.workers i).poll?,
    ∀ address ∈ writtenAddress c a poll.1, poll.2.Describes address

instance (settings : Settings) (c : Collector) (a : Action) : Decidable (AddressStable settings c a) :=
  inferInstanceAs (Decidable (∀ _ < _, ∀ _ ∈ _, ∀ _ ∈ _, _))

/-- Every poll in progress is at the address of its server. -/
structure Collector.Measures (settings : Settings) (c : Collector) : Prop where
  spawned : c.Spawned settings
  describes : ∀ i k snap s, (c.workers i).poll? = some (k, snap) → c.states.lookup k = some s →
    snap.Describes s.toAddress

section Runs
variable {crates : Crates} {settings : Settings} {c d : Collector} {a : Action}

theorem step_measures (h : c.Measures settings) (hs : step crates settings c a = some d)
    (stable : AddressStable settings c a) : d.Measures settings := by
  refine ⟨step_spawned h.spawned hs, ?_⟩
  apply (addressField crates settings).step_agrees (fun _ => ⟨rfl, rfl, rfl⟩) h.spawned h.describes hs
  intro i running poll polling address written
  rw [addressField_written] at written
  exact stable i running poll polling address written

/-- In every run that gives no server another address while it is being polled, the state on which
a worker calls `build_change_payload` has the address that its result was measured on. -/
theorem result_describes_address {es : List Action}
    (run : Run (Only (ofFn (step crates settings)) (AddressStable settings)) .start es c)
    {i : Nat} {k : String} {snap : Snapshot} {s : ServerState}
    (polling : (c.workers i).poll? = some (k, snap)) (found : c.states.lookup k = some s)
    (result : PollResult) (ctx : UpdateContext) :
    snap.Describes (recordPoll crates settings snap result ctx s).toAddress := by
  have start : Collector.start.Measures settings := ⟨fun _ _ => rfl, fun _ _ _ _ polling => by cases polling⟩
  have inv : c.Measures settings := by
    apply run.keeps (P := Collector.Measures settings) _ start
    intro c a d h hs
    exact step_measures h hs.1 hs.2
  rw [(undisturbed_recordPoll crates settings snap result ctx s).address]
  exact inv.describes i k snap s polling found

end Runs

def refreshedPoll (host : String) : List Action := [
  .refresh 0 [(catalogItemToValue (sampleItem "1" "mc.example.com"), sampleContext)],
  .runTask 0, .nextDue 0, .check, .send, .receive 0, .snapshot 0,
  .refresh 3 [(catalogItemToValue (sampleItem "1" host), sampleContext)]]

/-- The poll of the old host is reported as the first result for the new one. -/
theorem result_describes_old_address :
    ∃ c, (refreshedPoll "new.example.com").foldlM (step plainCrates (defaultSettings false)) .start = some c ∧
      ∃ poll, (c.workers 0).poll? = some poll ∧ ∃ s, c.states.lookup poll.1 = some s ∧
        ¬poll.2.Describes (recordPoll plainCrates (defaultSettings false) poll.2 upResult
          (quietContext 5) s).toAddress ∧
        (updateState plainCrates (defaultSettings false) poll.2 upResult (quietContext 5) s).2 ≠ none := by
  have runs : ((refreshedPoll "new.example.com").foldlM
      (step plainCrates (defaultSettings false)) .start).any (fun c =>
        (c.workers 0).poll?.any fun poll => (c.states.lookup poll.1).any fun s =>
          decide (¬poll.2.Describes (recordPoll plainCrates (defaultSettings false) poll.2 upResult
            (quietContext 5) s).toAddress) &&
          (updateState plainCrates (defaultSettings false) poll.2 upResult (quietContext 5) s).2.isSome) =
      true := by decide +kernel
  obtain ⟨c, run, inner⟩ := (Option.any_eq_true _ _).mp runs
  obtain ⟨poll, polling, inner⟩ := (Option.any_eq_true _ _).mp inner
  obtain ⟨s, found, inner⟩ := (Option.any_eq_true _ _).mp inner
  rw [Bool.and_eq_true, decide_eq_true_iff, Option.isSome_iff_ne_none] at inner
  exact ⟨c, run, poll, polling, s, found, inner⟩

/-- A refresh that finds the server where it is polled does no harm. -/
theorem result_describes_address_sameHost :
    ∃ c poll s, (refreshedPoll "mc.example.com").foldlM (step plainCrates (defaultSettings false)) .start =
        some c ∧ (c.workers 0).poll? = some poll ∧ c.states.lookup poll.1 = some s ∧
      poll.2.Describes (recordPoll plainCrates (defaultSettings false) poll.2 upResult
        (quietContext 5) s).toAddress := by
  have runs : ((refreshedPoll "mc.example.com").foldlM
      (restrict (step plainCrates (defaultSettings false)) (AddressStable (defaultSettings false)))
        .start).any (fun c => (c.workers 0).poll?.any fun poll => (c.states.lookup poll.1).isSome) = true := by
    decide +kernel
  obtain ⟨c, run, inner⟩ := (Option.any_eq_true _ _).mp runs
  obtain ⟨poll, polling, inner⟩ := (Option.any_eq_true _ _).mp inner
  obtain ⟨s, found⟩ := Option.isSome_iff_exists.mp inner
  have stable := run_restrict_iff.mpr run
  exact ⟨c, poll, s, run_ofFn_iff.mp stable.unrestricted, polling, found,
    result_describes_address stable polling found _ _⟩

end ServerPoller
