import Mathlib.Algebra.Order.Ring.Nat
import Mathlib.Tactic.Common

/-! Numbers in groups of seven bits, one to a byte and the lowest first. The high bit of a byte says
whether another one follows. -/

namespace Leb128

def encode (n : Nat) : List UInt8 :=
  if n < 128 then [UInt8.ofNat n] else UInt8.ofNat (n % 128 + 128) :: encode (n / 128)
termination_by n
decreasing_by omega

/-- The number in front, and what comes after it. -/
def decode : List UInt8 → Option (Nat × List UInt8)
  | [] => none
  | b :: rest =>
      if b.toNat < 128 then some (b.toNat, rest)
      else (decode rest).map fun r => (b.toNat % 128 + 128 * r.1, r.2)

theorem encode_small {n : Nat} (small : n < 128) : encode n = [UInt8.ofNat n] := by
  rw [encode, if_pos small]

theorem encode_large {n : Nat} (large : 128 ≤ n) :
    encode n = UInt8.ofNat (n % 128 + 128) :: encode (n / 128) := by
  rw [encode, if_neg (Nat.not_lt.mpr large)]

theorem decode_last {b : UInt8} (last : b.toNat < 128) (rest : List UInt8) :
    decode (b :: rest) = some (b.toNat, rest) := if_pos last

theorem decode_more {b : UInt8} (more : 128 ≤ b.toNat) (rest : List UInt8) :
    decode (b :: rest) = (decode rest).map fun r => (b.toNat % 128 + 128 * r.1, r.2) :=
  if_neg (Nat.not_lt.mpr more)

theorem decode_encode (n : Nat) (rest : List UInt8) : decode (encode n ++ rest) = some (n, rest) := by
  induction n using Nat.strongRecOn with
  | ind n ih =>
      rcases Nat.lt_or_ge n 128 with small | large
      · have byte : (UInt8.ofNat n).toNat = n := by
          rw [UInt8.toNat_ofNat']
          omega
        rw [encode_small small, List.singleton_append, decode_last (by omega), byte]
      · have byte : (UInt8.ofNat (n % 128 + 128)).toNat = n % 128 + 128 := by
          rw [UInt8.toNat_ofNat']
          omega
        have group : (n % 128 + 128) % 128 + 128 * (n / 128) = n := by omega
        rw [encode_large large, List.cons_append, decode_more (by omega), ih (n / 128) (by omega), byte,
          Option.map_some, group]

theorem decode_shorter {bytes rest : List UInt8} {n : Nat} (read : decode bytes = some (n, rest)) :
    rest.length < bytes.length := by
  induction bytes generalizing n with
  | nil => cases read
  | cons b bytes ih =>
      rcases Nat.lt_or_ge b.toNat 128 with last | more
      · rw [decode_last last] at read
        cases read
        exact Nat.lt_succ_self _
      · rw [decode_more more] at read
        obtain ⟨r, later, eq⟩ := Option.map_eq_some_iff.mp read
        cases eq
        exact (ih later).trans (Nat.lt_succ_self _)

theorem length_encode_le (n width : Nat) (fits : n < 128 ^ (width + 1)) : (encode n).length ≤ width + 1 := by
  induction width generalizing n with
  | zero => rw [encode_small (by simpa using fits), List.length_singleton]
  | succ width ih =>
      rcases Nat.lt_or_ge n 128 with small | large
      · rw [encode_small small, List.length_singleton]
        omega
      · rw [encode_large large, List.length_cons]
        refine Nat.succ_le_succ (ih (n / 128) ?_)
        rw [Nat.div_lt_iff_lt_mul (by decide), ← pow_succ]
        exact fits

end Leb128
