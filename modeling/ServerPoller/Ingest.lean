import ServerPoller.WalContents

/-! The ingest loop of `collector.rs`: batches go to the monitoring service, failed batches to
the disk buffer, and a successful batch drains one buffered segment. -/

namespace ServerPoller
open DirectoryIo Transition

inductive SendKind where
  | live
  | drain
  deriving DecidableEq, Repr

/-- One call of `send_batch`, with what it returned. -/
structure Send (V : Type) where
  kind : SendKind
  items : List V
  ok : Bool
  deriving DecidableEq, Repr

/-- What `send_batch` returns for the live batch of a flush and for its drain. -/
structure SendOutcome where
  live : Bool
  drain : Bool
  deriving DecidableEq, Repr

section Functions
variable {V : Type} (c : Codec V) (env : Surroundings)

/-- The drain of `flush_batch`; it returns the calls of `send_batch` it makes. -/
def drainOldest (drainMax : Nat) (drainOk : Bool) : WalIo (List (Send V)) := do
  if ← hasPending env then
    match ← attempt (readOldestBatch c env drainMax) with
    | .ok (some (path, items)) =>
        if items.isEmpty then
          let _ ← attempt (deleteSegment env path)
          return []
        else
          if drainOk then
            let _ ← attempt (deleteSegment env path)
          return [⟨.drain, items, drainOk⟩]
    | .ok none => return []
    | .error _ => return []
  else return []

def flushBatch (drainMax : Nat) (outcome : SendOutcome) (batch : List V) : WalIo (List (Send V)) := do
  if outcome.live then
    return ⟨.live, batch, true⟩ :: (← drainOldest c env drainMax outcome.drain)
  else
    let _ ← attempt (writeBatch c env batch)
    return [⟨.live, batch, false⟩]

/-- The ingest task: its batch, the world with the buffer, and the calls of `send_batch` so far. -/
structure Ingest (V : Type) where
  batch : List V
  world : World WalProcess
  sends : List (Send V)
  returned : Bool

inductive IngestInput (V : Type) where
  | recv (item : Option V)
  | deadline
  deriving DecidableEq, Repr

structure IngestEvent (V : Type) where
  input : IngestInput V
  outcome : SendOutcome
  deriving DecidableEq, Repr

def Ingest.flush (batchSize : Nat) (outcome : SendOutcome) (s : Ingest V) : Ingest V :=
  match flushBatch c env batchSize outcome s.batch s.world with
  | .ok sends w => { s with batch := [], world := w, sends := s.sends ++ sends }
  | .error _ w => { s with batch := [], world := w }

/-- Whether the turn of the loop that takes this input calls `flush_batch`. -/
def Ingest.flushes (batchSize : Nat) (s : Ingest V) (e : IngestEvent V) : Bool :=
  match e.input with
  | .recv (some _) => decide (batchSize ≤ s.batch.length + 1)
  | .recv none => false
  | .deadline => !s.batch.isEmpty

/-- One turn of the `select!` loop of `ingest_loop`. When the channel is closed the loop breaks
and its batch goes with it. -/
def ingestStep (batchSize : Nat) (s : Ingest V) (e : IngestEvent V) : Ingest V :=
  if s.returned then s
  else match e.input with
    | .recv (some payload) =>
        let s := { s with batch := s.batch ++ [payload] }
        if batchSize ≤ s.batch.length then s.flush c env batchSize e.outcome else s
    | .recv none => { s with batch := [], returned := true }
    | .deadline => if s.batch.isEmpty then s else s.flush c env batchSize e.outcome

def ingestStart (maxBytes segmentMaxBytes : Nat) : Ingest V where
  batch := []
  world := match openWal env maxBytes segmentMaxBytes emptyWorld with
    | .ok _ w => w
    | .error _ w => w
  sends := []
  returned := false

def received (events : List (IngestEvent V)) : List V :=
  events.filterMap fun e => match e.input with
    | .recv item => item
    | .deadline => none

/-- Everything that was part of a batch whose `send_batch` returned `true`. -/
def delivered (sends : List (Send V)) : List V :=
  sends.flatMap fun s => if s.ok then s.items else []

end Functions

def Ingest.taken {V : Type} (s : Ingest V) (e : IngestEvent V) : Ingest V :=
  { s with batch := s.batch ++ received [e] }

theorem ingestStep_open {V : Type} (c : Codec V) (env : Surroundings) (batchSize : Nat) {s : Ingest V}
    {e : IngestEvent V} (running : s.returned = false) (open_ : e.input ≠ .recv none) :
    ingestStep c env batchSize s e =
      if s.flushes batchSize e then (s.taken e).flush c env batchSize e.outcome else s.taken e := by
  rcases e with ⟨input, outcome⟩
  cases input with
  | recv item =>
      cases item with
      | some v => simp [ingestStep, running, Ingest.flushes, Ingest.taken, received]
      | none => exact absurd rfl open_
  | deadline =>
      have same : s.taken ⟨.deadline, outcome⟩ = s := by simp [Ingest.taken, received]
      rw [same]
      cases hb : s.batch.isEmpty <;> simp [ingestStep, running, Ingest.flushes, hb]

@[simp] theorem received_nil {V : Type} : received ([] : List (IngestEvent V)) = [] := rfl

theorem received_append {V : Type} (es fs : List (IngestEvent V)) :
    received (es ++ fs) = received es ++ received fs := List.filterMap_append

@[simp] theorem delivered_append {V : Type} (ss ts : List (Send V)) :
    delivered (ss ++ ts) = delivered ss ++ delivered ts := List.flatMap_append

theorem store_ingestStart {V : Type} {env : Surroundings} (h : env.Faultless)
    (maxBytes segmentMaxBytes : Nat) :
    store (ingestStart env maxBytes segmentMaxBytes : Ingest V).world = ⟨none, ∅, 0, 0⟩ := by
  obtain ⟨_, w, run, opened⟩ := yields_openWal h (w := emptyWorld) maxBytes segmentMaxBytes
    (R := fun _ w' => store w' = ⟨none, ∅, 0, 0⟩) (fun w' same => by rw [store_eq, same]; rfl)
  simp only [ingestStart, run, opened]

section Flush
variable {V : Type} (c : Codec V) (env : Surroundings)

/-- The effect of a flush on the store and the calls of `send_batch` it makes. -/
inductive FlushEffect (drainMax : Nat) (outcome : SendOutcome) (batch : List V) (s : Store) :
    List (Send V) → Store → Prop
  | buffered {t ms} : outcome.live = false → Writes batch ms → Moves c env s ms t →
      FlushEffect drainMax outcome batch s [⟨.live, batch, false⟩] t
  | nothing_pending : outcome.live = true → s.oldest = none →
      FlushEffect drainMax outcome batch s [⟨.live, batch, true⟩] s
  | emptied {name} : outcome.live = true → s.oldest = some name →
      (s.contents c name).take drainMax = [] →
      FlushEffect drainMax outcome batch s [⟨.live, batch, true⟩] (s.removed name)
  | drained {name items} : outcome.live = true → outcome.drain = true → s.oldest = some name →
      (s.contents c name).take drainMax = items → items ≠ [] →
      FlushEffect drainMax outcome batch s [⟨.live, batch, true⟩, ⟨.drain, items, true⟩] (s.removed name)
  | refused {name items} : outcome.live = true → outcome.drain = false → s.oldest = some name →
      (s.contents c name).take drainMax = items → items ≠ [] →
      FlushEffect drainMax outcome batch s [⟨.live, batch, true⟩, ⟨.drain, items, false⟩] s

variable {c env} {w : World WalProcess}

theorem yields_drainOldest (h : env.Faultless) {drainMax : Nat} {outcome : SendOutcome} {batch : List V}
    (live : outcome.live = true) {R : List (Send V) → World WalProcess → Prop}
    (hr : ∀ sends w', FlushEffect c env drainMax outcome batch (store w)
      (⟨.live, batch, true⟩ :: sends) (store w') → R sends w') :
    Yields (drainOldest c env drainMax outcome.drain) w R := by
  refine yields_bind (yields_hasPending h (fun w₁ same₁ => ?_))
  rw [← store_of_disk same₁, ← same₁] at *
  cases ho : (disk w₁).oldest with
  | none => exact yields_pure (hr _ _ (.nothing_pending live (Disk.store_oldest.trans ho)))
  | some oldest =>
      apply yields_bind
      apply yields_attempt
      apply yields_readOldestBatch h drainMax
      · intro none_left
        cases ho.symm.trans none_left
      · intro name f w₂ found there same₂
        have first : (store w₁).oldest = some name := Disk.store_oldest.trans found
        have read : (store w₁).contents c name = records c f.bytes := contents_store there
        have onDisk : name ∈ w₂.files := by
          have files : w₂.files = w₁.files := congrArg Disk.files same₂
          exact files ▸ AList.exists_lookup_iff_mem.mp ⟨f, there⟩
        have deleted : ∀ w₃, disk w₃ = (disk w₂).removed name → store w₃ = (store w₁).removed name := by
          intro w₃ gone
          rw [store_eq, gone, same₂, Disk.store_removed]
          rfl
        rw [← read]
        cases hi : ((store w₁).contents c name).take drainMax with
        | nil =>
            refine yields_bind (yields_attempt (yields_deleteSegment h onDisk (fun w₃ gone => yields_pure
              (hr _ _ ?_))))
            rw [deleted w₃ gone]
            exact .emptied live first hi
        | cons v items =>
            cases hd : outcome.drain with
            | true =>
                refine yields_bind (yields_attempt (yields_deleteSegment h onDisk
                  (fun w₃ gone => yields_pure (hr _ _ ?_))))
                rw [deleted w₃ gone]
                exact .drained live hd first hi (by simp)
            | false =>
                apply yields_pure
                apply hr
                rw [store_of_disk same₂]
                exact .refused live hd first hi (by simp)

theorem yields_flushBatch (h : env.Faultless) (drainMax : Nat) (outcome : SendOutcome) (batch : List V) :
    Yields (flushBatch c env drainMax outcome batch) w
      (fun sends w' => FlushEffect c env drainMax outcome batch (store w) sends (store w')) := by
  unfold flushBatch
  cases live : outcome.live with
  | true => exact yields_bind (yields_drainOldest h live (fun sends w' eff => yields_pure eff))
  | false =>
      apply yields_bind
      apply yields_attempt
      apply (writeBatch_moves h batch).mono
      rintro _ w' ⟨ms, writes, moved⟩
      exact yields_pure (.buffered live writes moved)

theorem flush_effect (h : env.Faultless) (s : Ingest V) (batchSize : Nat) (outcome : SendOutcome) :
    ∃ sends t, s.flush c env batchSize outcome = t ∧ t.batch = [] ∧ t.returned = s.returned ∧
      t.sends = s.sends ++ sends ∧
      FlushEffect c env batchSize outcome s.batch (store s.world) sends (store t.world) := by
  obtain ⟨sends, w', run, eff⟩ := yields_flushBatch h batchSize outcome s.batch
  refine ⟨sends, { s with batch := [], world := w', sends := s.sends ++ sends }, ?_, rfl, rfl, rfl, eff⟩
  simp only [Ingest.flush, run]

end Flush

end ServerPoller
