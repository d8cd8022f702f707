import ServerPoller.Lib.DirectoryIo

/-! Postconditions of computations that may fail: one for the result and one for the state that an error
leaves. -/

namespace DirectoryIo

def World.called {σ : Type} (w : World σ) : World σ := { w with calls := w.calls + 1 }

/-- From `w` the computation returns as in `Q`, or fails in a state as in `E`. -/
def Ends {σ α : Type} (m : Io σ α) (w : World σ) (Q : α → World σ → Prop) (E : World σ → Prop) : Prop :=
  match m w with
  | .ok a w' => Q a w'
  | .error _ w' => E w'

section Ends
variable {σ α β : Type} {w : World σ} {Q : α → World σ → Prop} {E : World σ → Prop}

theorem ends_pure {a : α} (h : Q a w) : Ends (pure a) w Q E := h

theorem ends_throw {e : IoError} (h : E w) : Ends (throw e : Io σ α) w Q E := h

theorem ends_bind {m : Io σ α} {f : α → Io σ β} {R : β → World σ → Prop}
    (h : Ends m w (fun a w' => Ends (f a) w' R E) E) : Ends (m >>= f) w R E := by
  unfold Ends at h ⊢
  simp only [bind, EStateM.bind]
  cases run : m w with
  | ok a w' => simpa only [run] using h
  | error e w' => simpa only [run] using h

theorem Ends.mono {m : Io σ α} {R : α → World σ → Prop} {F : World σ → Prop} (h : Ends m w Q E)
    (returned : ∀ a w', Q a w' → R a w') (failed : ∀ w', E w' → F w') : Ends m w R F := by
  unfold Ends at h ⊢
  cases run : m w with
  | ok a w' => exact returned a w' (by simpa only [run] using h)
  | error e w' => exact failed w' (by simpa only [run] using h)

theorem Ends.of_ok {m : Io σ α} {a : α} {w' : World σ} (h : Ends m w Q E) (run : m w = .ok a w') : Q a w' := by
  simpa only [Ends, run] using h

theorem Ends.of_error {m : Io σ α} {e : IoError} {w' : World σ} (h : Ends m w Q E) (run : m w = .error e w') :
    E w' := by
  simpa only [Ends, run] using h

theorem ends_run {m : Io σ α} (returned : ∀ a w', m w = .ok a w' → Q a w')
    (failed : ∀ e w', m w = .error e w' → E w') : Ends m w Q E := by
  unfold Ends
  cases run : m w with
  | ok a w' => exact returned a w' run
  | error e w' => exact failed e w' run

theorem ends_get {R : World σ → World σ → Prop} (h : R w w) : Ends get w R E := h

theorem ends_modify {f : World σ → World σ} {R : PUnit → World σ → Prop} (h : R ⟨⟩ (f w)) :
    Ends (modify f) w R E := h

theorem ends_attempt {m : Io σ α} {R : Except IoError α → World σ → Prop}
    (h : Ends m w (fun a w' => R (.ok a) w') (fun w' => ∀ e, R (.error e) w')) : Ends (attempt m) w R E := by
  unfold Ends attempt
  unfold Ends at h
  cases run : m w with
  | ok a w' => simpa only [run] using h
  | error e w' =>
      simp only [run] at h ⊢
      exact h e

/-- What goes wrong in a computation that is attempted does not get out of it. -/
theorem yields_attempt_any {m : Io σ α} {R : Except IoError α → World σ → Prop}
    (h : ∀ r w', R r w') : Yields (attempt m) w R := by
  cases run : m w with
  | ok a w' => exact ⟨.ok a, w', by simp only [attempt, run], h _ _⟩
  | error e w' => exact ⟨.error e, w', by simp only [attempt, run], h _ _⟩

end Ends

section Calls
variable {σ : Type} {env : Surroundings} {w : World σ} {E : World σ → Prop}

theorem ends_nextCall {R : Option Nat → World σ → Prop} (h : R (env.fault w.calls) w.called) :
    Ends (nextCall env) w R E := h

theorem ends_clockReading {R : Nat → World σ → Prop}
    (h : R (env.clock w.readings) { w with readings := w.readings + 1 }) : Ends (clockReading env) w R E := h

/-- The names that a listing gives: all, or those before the entry that cannot be read. -/
inductive Listing (env : Surroundings) (w : World σ) : List String → Prop
  | whole : env.fault w.calls = none → Listing env w w.files.keys
  | early {n} : env.fault w.calls = some (n + 1) → Listing env w (w.files.keys.take n)

theorem ends_readDir {R : List String → World σ → Prop} (failed : E w.called)
    (listed : ∀ names, Listing env w names → R names w.called) : Ends (readDir env) w R E := by
  refine ends_bind (ends_nextCall ?_)
  cases fault : env.fault w.calls with
  | none => exact ends_bind (ends_get (ends_pure (listed _ (.whole fault))))
  | some n =>
      cases n with
      | zero => exact ends_throw failed
      | succ n => exact ends_bind (ends_get (ends_pure (listed _ (.early fault))))

theorem ends_fileLen {name : String} {R : Nat → World σ → Prop}
    (failed : env.fault w.calls ≠ none ∨ w.files.lookup name = none → E w.called)
    (found : ∀ f, env.fault w.calls = none → w.files.lookup name = some f → R f.bytes.length w.called) :
    Ends (fileLen env name) w R E := by
  refine ends_bind (ends_nextCall ?_)
  cases fault : env.fault w.calls with
  | some n => exact ends_throw (failed (.inl (by rw [fault]; exact nofun)))
  | none =>
      refine ends_bind (ends_get ?_)
      cases there : w.called.files.lookup name with
      | none => exact ends_throw (failed (.inr there))
      | some f => exact ends_pure (found f fault there)

theorem ends_removeFile {name : String} {R : Unit → World σ → Prop} (failed : E w.called)
    (gone : ∀ f, env.fault w.calls = none → w.files.lookup name = some f →
      R () { w.called with files := w.files.erase name }) : Ends (removeFile env name) w R E := by
  refine ends_bind (ends_nextCall ?_)
  cases fault : env.fault w.calls with
  | some n => exact ends_throw failed
  | none =>
      refine ends_bind (ends_get ?_)
      cases there : w.called.files.lookup name with
      | none => exact ends_throw failed
      | some f => exact ends_modify (gone f fault there)

theorem ends_openAppend {name : String} {R : Unit → World σ → Prop} (failed : E w.called)
    (opened : R () { w.called with files := Files.opened w.files name }) :
    Ends (openAppend env name) w R E := by
  refine ends_bind (ends_nextCall ?_)
  cases env.fault w.calls with
  | some n => exact ends_throw failed
  | none =>
      refine ends_bind (ends_get ?_)
      unfold Files.opened at opened
      cases there : w.files.lookup name with
      | some f =>
          simp only [there] at opened
          simp only [World.called, there]
          exact ends_pure opened
      | none =>
          simp only [there] at opened
          simp only [World.called, there]
          exact ends_modify opened

def Files.written (files : Files) (name : String) (bs : Bytes) : Files :=
  files.modify name fun f => { f with bytes := f.bytes ++ bs }

theorem Files.written_written (files : Files) (name : String) (bs bs' : Bytes) :
    Files.written (Files.written files name bs) name bs' = Files.written files name (bs ++ bs') := by
  simp only [Files.written, AList.modify_modify, Function.comp_def, List.append_assoc]

theorem ends_writeAll {name : String} {bs : Bytes} {R : Unit → World σ → Prop}
    (failed : ∀ n, env.fault w.calls = some n → E { w.called with files := Files.written w.files name (bs.take n) })
    (whole : env.fault w.calls = none → R () { w.called with files := Files.written w.files name bs }) :
    Ends (writeAll env name bs) w R E := by
  refine ends_bind (ends_nextCall ?_)
  cases fault : env.fault w.calls with
  | some n => exact ends_bind (ends_modify (ends_throw (failed n fault)))
  | none => exact ends_modify (whole fault)

theorem ends_syncData {name : String} {R : Unit → World σ → Prop} (failed : E w.called)
    (synced : R () { w.called with
      files := w.files.modify name fun f => { f with durable := f.bytes.length } }) :
    Ends (syncData env name) w R E := by
  refine ends_bind (ends_nextCall ?_)
  cases env.fault w.calls with
  | some n => exact ends_throw failed
  | none => exact ends_modify synced

end Calls

end DirectoryIo
