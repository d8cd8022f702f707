import ServerPoller.VersionTokens

/-! The recursion of the sanitizer. Every call is on a shorter text, so the depth that the calls are given
decides nothing, and the sanitizer satisfies the equation of the source. -/

namespace ServerPoller
open Utf8 RustText Searches

/-- The sanitizer of `raw` calls itself on `mcValue`. -/
structure RecursiveCall (raw mcValue : Text) : Prop where
  present : normalizeVersionCandidate raw ≠ []
  found : Finds (extractMcParenthetical (normalizeVersionCandidate raw)) mcValue

theorem RecursiveCall.shorter {raw mcValue : Text} (call : RecursiveCall raw mcValue) : size mcValue < size raw := by
  obtain ⟨r, run, all⟩ := extractMc_safe (normalizeVersionCandidate raw)
  have result : r = some mcValue := Except.ok.inj (run.symm.trans call.found)
  obtain ⟨body, _, rfl, inside⟩ := all mcValue result
  calc
    size (trimText body) ≤ size body := size_le_of_infix (trimText_part body)
    _ < size (normalizeVersionCandidate raw) := inside
    _ ≤ size raw := size_normalize raw

/-- A call depends on what is called only at the texts it calls it with. -/
theorem sanitizeCall_congr {f g : Text → Checked Text} {raw : Text}
    (agree : ∀ mcValue, RecursiveCall raw mcValue → f mcValue = g mcValue) :
    sanitizeCall f raw = sanitizeCall g raw := by
  unfold sanitizeCall
  dsimp only
  split
  · rfl
  · rename_i present
    cases run : (extractMcParenthetical (normalizeVersionCandidate raw)).run with
    | error panic => rfl
    | ok r =>
        cases r with
        | none => rfl
        | some mcValue =>
            show (f mcValue >>= _) = (g mcValue >>= _)
            rw [agree mcValue ⟨present, run⟩]

theorem sanitizeWithin_depth {raw : Text} {depth depth' : Nat} (deep : size raw < depth)
    (deep' : size raw < depth') : sanitizeWithin depth raw = sanitizeWithin depth' raw := by
  induction depth generalizing raw depth' with
  | zero => exact absurd deep (Nat.not_lt_zero _)
  | succ depth ih =>
      cases depth' with
      | zero => exact absurd deep' (Nat.not_lt_zero _)
      | succ depth' =>
          rw [sanitizeWithin, sanitizeWithin]
          refine sanitizeCall_congr fun mcValue call => ih ?_ ?_
          · exact lt_of_lt_of_le call.shorter (Nat.le_of_lt_succ deep)
          · exact lt_of_lt_of_le call.shorter (Nat.le_of_lt_succ deep')

/-- The equation of the source. -/
theorem sanitizeMinecraftVersion_eq (raw : Text) :
    sanitizeMinecraftVersion raw = sanitizeCall sanitizeMinecraftVersion raw := by
  rw [sanitizeMinecraftVersion, sanitizeWithin]
  exact sanitizeCall_congr fun mcValue call => sanitizeWithin_depth call.shorter (Nat.lt_succ_self _)

/-- The sanitizer returns: no slice fails on the way, and each call of itself is on a shorter text. -/
theorem sanitizer_returns (raw : Text) :
    (∃ out, sanitizeMinecraftVersion raw = .ok out) ∧
      sanitizeMinecraftVersion raw = sanitizeCall sanitizeMinecraftVersion raw ∧
      ∀ mcValue, RecursiveCall raw mcValue → size mcValue < size raw := by
  refine ⟨?_, sanitizeMinecraftVersion_eq raw, fun mcValue call => call.shorter⟩
  obtain ⟨out, returned, _⟩ := sanitizeWithin_sanitized (size raw + 1) raw (Nat.lt_succ_self _)
  exact ⟨out, returned⟩

end ServerPoller
