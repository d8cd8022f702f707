import ServerPoller.Lib.KeyedMap

/-! A process and one directory of files behind system calls that may fail.
The surroundings fix in advance what every clock reading returns and which calls fail;
a failed call keeps the process and, except for a torn write, the directory. -/

namespace DirectoryIo

abbrev Bytes := List UInt8

/-- A file and the length of its part that a crash cannot take away. -/
structure DiskFile where
  bytes : Bytes
  durable : Nat
  deriving DecidableEq, Repr

abbrev Files := AList (fun _ : String => DiskFile)

inductive IoError where
  | notFound
  | unexpectedEof
  | invalidData
  | other
  deriving DecidableEq, Repr

/-- `clock i` is the result of the i-th clock reading. `fault i = some n` makes the i-th
system call fail; a write has then put out the first `n` bytes of its argument, a reader
that was opened so gives an error after `n` bytes, and a listing comes to its end early. -/
structure Surroundings where
  clock : Nat → Nat
  fault : Nat → Option Nat

def Surroundings.Faultless (env : Surroundings) : Prop := ∀ i, env.fault i = none

structure World (σ : Type) where
  proc : σ
  files : Files
  calls : Nat
  readings : Nat

abbrev Io (σ : Type) := EStateM IoError (World σ)

section Calls
variable {σ : Type} (env : Surroundings)

/-- The fate of the next system call, which is thereby used up. -/
def nextCall : Io σ (Option Nat) := fun w => .ok (env.fault w.calls) { w with calls := w.calls + 1 }

def clockReading : Io σ Nat := fun w => .ok (env.clock w.readings) { w with readings := w.readings + 1 }

/-- The names in the directory, in no particular order. An entry that cannot be read is the last
and passed over, so that only a directory that cannot be read at all is an error. -/
def readDir : Io σ (List String) := do
  match ← nextCall env with
  | some 0 => throw .other
  | some (n+1) => return (← get).files.keys.take n
  | none => return (← get).files.keys

def fileLen (name : String) : Io σ Nat := do
  match ← nextCall env with
  | some _ => throw .other
  | none =>
      match (← get).files.lookup name with
      | some f => return f.bytes.length
      | none => throw .notFound

def removeFile (name : String) : Io σ Unit := do
  match ← nextCall env with
  | some _ => throw .other
  | none =>
      match (← get).files.lookup name with
      | some _ => modify fun w => { w with files := w.files.erase name }
      | none => throw .notFound

/-- Open for appending; an absent file is created empty. -/
def openAppend (name : String) : Io σ Unit := do
  match ← nextCall env with
  | some _ => throw .other
  | none =>
      match (← get).files.lookup name with
      | some _ => pure ()
      | none => modify fun w => { w with files := w.files.insert name ⟨[], 0⟩ }

/-- Append through a handle. What goes to a file that is no longer in the directory is lost. -/
def writeAll (name : String) (bs : Bytes) : Io σ Unit := do
  match ← nextCall env with
  | some n =>
      modify fun w => { w with files := w.files.modify name fun f => { f with bytes := f.bytes ++ bs.take n } }
      throw .other
  | none => modify fun w => { w with files := w.files.modify name fun f => { f with bytes := f.bytes ++ bs } }

def syncData (name : String) : Io σ Unit := do
  match ← nextCall env with
  | some _ => throw .other
  | none => modify fun w => { w with files := w.files.modify name fun f => { f with durable := f.bytes.length } }

/-- A read handle: the bytes not yet read, and the offset of a read error if there is one. -/
structure Reader where
  rest : Bytes
  broken : Option Nat
  deriving DecidableEq, Repr

def openRead (name : String) : Io σ Reader := do
  match ← nextCall env with
  | some _ => throw .other
  | none =>
      match (← get).files.lookup name with
      | some f => return ⟨f.bytes, ← nextCall env⟩
      | none => throw .notFound

/-- Run to the end; an error becomes a value and the state it left stays. -/
def attempt {α : Type} (m : Io σ α) : Io σ (Except IoError α) := fun w =>
  match m w with
  | .ok a w' => .ok (.ok a) w'
  | .error e w' => .ok (.error e) w'

end Calls

/-- `read_exact`: all `n` bytes, or an error that says whether the file merely ended. -/
def Reader.readExact (n : Nat) (r : Reader) : Except IoError (Bytes × Reader) :=
  match r.broken with
  | none => if n ≤ r.rest.length then .ok (r.rest.take n, ⟨r.rest.drop n, none⟩) else .error .unexpectedEof
  | some b =>
      if n ≤ b ∧ n ≤ r.rest.length then .ok (r.rest.take n, ⟨r.rest.drop n, some (b - n)⟩)
      else if b ≤ r.rest.length then .error .other
      else .error .unexpectedEof

/-- From `w` the computation returns, in a state and with a result that satisfy `Q`. -/
def Yields {σ : Type} {α : Type} (m : Io σ α) (w : World σ) (Q : α → World σ → Prop) : Prop :=
  ∃ a w', m w = .ok a w' ∧ Q a w'

section Yields
variable {σ : Type} {α β : Type} {w : World σ} {Q : α → World σ → Prop}

theorem yields_pure {a : α} (h : Q a w) : Yields (pure a) w Q := ⟨a, w, rfl, h⟩

theorem yields_bind {m : Io σ α} {f : α → Io σ β} {R : β → World σ → Prop}
    (h : Yields m w (fun a w' => Yields (f a) w' R)) : Yields (m >>= f) w R := by
  obtain ⟨a, w', hm, b, w'', hf, hr⟩ := h
  refine ⟨b, w'', ?_, hr⟩
  simp only [bind, EStateM.bind, hm, hf]

theorem Yields.mono {m : Io σ α} {R : α → World σ → Prop} (h : Yields m w Q)
    (weaker : ∀ a w', Q a w' → R a w') : Yields m w R := by
  obtain ⟨a, w', hm, hq⟩ := h
  exact ⟨a, w', hm, weaker a w' hq⟩

theorem Yields.bind {m : Io σ α} {f : α → Io σ β} {R : β → World σ → Prop} (h : Yields m w Q)
    (next : ∀ a w', Q a w' → Yields (f a) w' R) : Yields (m >>= f) w R :=
  yields_bind (h.mono next)

theorem yields_get {R : World σ → World σ → Prop} (h : R w w) : Yields get w R := ⟨w, w, rfl, h⟩

theorem yields_modify {f : World σ → World σ} {R : PUnit → World σ → Prop} (h : R ⟨⟩ (f w)) :
    Yields (modify f) w R := ⟨⟨⟩, f w, rfl, h⟩

theorem yields_attempt {m : Io σ α} {R : Except IoError α → World σ → Prop}
    (h : Yields m w (fun a w' => R (.ok a) w')) : Yields (attempt m) w R := by
  obtain ⟨a, w', hm, hr⟩ := h
  exact ⟨.ok a, w', by simp only [attempt, hm], hr⟩

end Yields

section FaultlessCalls
variable {σ : Type} {env : Surroundings} {w : World σ}

theorem yields_nextCall (h : env.Faultless) {R : Option Nat → World σ → Prop}
    (hr : R none { w with calls := w.calls + 1 }) : Yields (nextCall env) w R :=
  ⟨env.fault w.calls, _, rfl, by rw [h w.calls]; exact hr⟩

theorem yields_clockReading {R : Nat → World σ → Prop}
    (hr : R (env.clock w.readings) { w with readings := w.readings + 1 }) :
    Yields (clockReading env) w R := ⟨_, _, rfl, hr⟩

theorem yields_readDir (h : env.Faultless) {R : List String → World σ → Prop}
    (hr : R w.files.keys { w with calls := w.calls + 1 }) : Yields (readDir env) w R :=
  yields_bind (yields_nextCall h (yields_bind (yields_get (yields_pure hr))))

theorem yields_fileLen (h : env.Faultless) {name : String} {f : DiskFile}
    (hf : w.files.lookup name = some f) {R : Nat → World σ → Prop}
    (hr : R f.bytes.length { w with calls := w.calls + 1 }) : Yields (fileLen env name) w R := by
  refine yields_bind (yields_nextCall h (yields_bind (yields_get ?_)))
  simp only [hf]
  exact yields_pure hr

theorem yields_removeFile (h : env.Faultless) {name : String} {f : DiskFile}
    (hf : w.files.lookup name = some f) {R : Unit → World σ → Prop}
    (hr : R () { w with calls := w.calls + 1, files := w.files.erase name }) :
    Yields (removeFile env name) w R := by
  refine yields_bind (yields_nextCall h (yields_bind (yields_get ?_)))
  simp only [hf]
  exact yields_modify hr

def Files.opened (files : Files) (name : String) : Files :=
  match files.lookup name with
  | some _ => files
  | none => files.insert name ⟨[], 0⟩

theorem yields_openAppend (h : env.Faultless) {name : String} {R : Unit → World σ → Prop}
    (hr : R () { w with calls := w.calls + 1, files := Files.opened w.files name }) :
    Yields (openAppend env name) w R := by
  refine yields_bind (yields_nextCall h (yields_bind (yields_get ?_)))
  unfold Files.opened at hr
  cases hf : w.files.lookup name with
  | some f =>
      simp only [hf] at hr ⊢
      exact yields_pure hr
  | none =>
      simp only [hf] at hr ⊢
      exact yields_modify hr

theorem yields_writeAll (h : env.Faultless) {name : String} {bs : Bytes} {R : Unit → World σ → Prop}
    (hr : R () { w with
      calls := w.calls + 1
      files := w.files.modify name fun f => { f with bytes := f.bytes ++ bs } }) :
    Yields (writeAll env name bs) w R :=
  yields_bind (yields_nextCall h (yields_modify hr))

theorem yields_syncData (h : env.Faultless) {name : String} {R : Unit → World σ → Prop}
    (hr : R () { w with
      calls := w.calls + 1
      files := w.files.modify name fun f => { f with durable := f.bytes.length } }) :
    Yields (syncData env name) w R :=
  yields_bind (yields_nextCall h (yields_modify hr))

theorem yields_openRead (h : env.Faultless) {name : String} {f : DiskFile}
    (hf : w.files.lookup name = some f) {R : Reader → World σ → Prop}
    (hr : R ⟨f.bytes, none⟩ { w with calls := w.calls + 2 }) : Yields (openRead env name) w R := by
  refine yields_bind (yields_nextCall h (yields_bind (yields_get ?_)))
  simp only [hf]
  exact yields_bind (yields_nextCall h (yields_pure hr))

end FaultlessCalls

end DirectoryIo
