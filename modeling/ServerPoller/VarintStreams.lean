import ServerPoller.JavaStatus

/-! How much of a stream `read_varint` uses up, also when it fails, and on which streams it does. -/

namespace ServerPoller
open Leb128

section Streams
/- The error of reading on when everything that arrived is used up. -/
variable (ending : String)

/-- The loop of `read_varint` with the reader: what is left of the stream also after an error. -/
def pullVarintFrom (result : Int32) (readCount : Nat) : List UInt8 → Except String Int32 × List UInt8
  | [] => (.error ending, [])
  | byte :: rest =>
      let result := result ||| (checkedShl (byte &&& 0x7f).toUInt32.toInt32 (7 * readCount)).getD 0
      if 5 < readCount + 1 then (.error "varint is too long", rest)
      else if byte &&& 0x80 = 0 then (.ok result, rest)
      else pullVarintFrom result (readCount + 1) rest

def pullVarint (bytes : List UInt8) : Except String Int32 × List UInt8 := pullVarintFrom ending 0 0 bytes

/-- The caller goes on with the value and the rest, or passes the error on. -/
def goOn : Except String Int32 × List UInt8 → Except String (Int32 × List UInt8)
  | (.ok value, rest) => .ok (value, rest)
  | (.error e, _) => .error e

variable {ending}

theorem goOn_pullVarintFrom (result : Int32) (readCount : Nat) (bytes : List UInt8) :
    goOn (pullVarintFrom ending result readCount bytes) = readVarintFrom ending result readCount bytes := by
  induction bytes generalizing result readCount with
  | nil => rfl
  | cons byte rest ih =>
      rw [pullVarintFrom, readVarintFrom]
      by_cases long : 5 < readCount + 1
      · rw [if_pos long, if_pos long]
        rfl
      · rw [if_neg long, if_neg long]
        by_cases last : byte &&& 0x80 = 0
        · rw [if_pos last, if_pos last]
          rfl
        · rw [if_neg last, if_neg last]
          exact ih _ _

theorem pullVarintFrom_consumes (result : Int32) {readCount : Nat} (turn : readCount ≤ 5) (bytes : List UInt8) :
    ∃ used, bytes = used ++ (pullVarintFrom ending result readCount bytes).2 ∧ used.length + readCount ≤ 6 := by
  induction bytes generalizing result readCount with
  | nil => exact ⟨[], rfl, by rw [List.length_nil]; omega⟩
  | cons byte rest ih =>
      rw [pullVarintFrom]
      have one : [byte].length + readCount ≤ 6 := by
        rw [List.length_singleton]
        omega
      by_cases long : 5 < readCount + 1
      · rw [if_pos long]
        exact ⟨[byte], rfl, one⟩
      · rw [if_neg long]
        by_cases last : byte &&& 0x80 = 0
        · rw [if_pos last]
          exact ⟨[byte], rfl, one⟩
        · rw [if_neg last]
          obtain ⟨used, eq, short⟩ := ih _ (by omega : readCount + 1 ≤ 5)
          exact ⟨byte :: used, congrArg (byte :: ·) eq, by rw [List.length_cons]; omega⟩

theorem pullVarintFrom_error_iff (result : Int32) {readCount : Nat} (turn : readCount ≤ 5) (bytes : List UInt8) :
    (∃ e, (pullVarintFrom ending result readCount bytes).1 = .error e) ↔
      ∀ b ∈ bytes.take (5 - readCount), b &&& 0x80 ≠ 0 := by
  induction bytes generalizing result readCount with
  | nil => exact iff_of_true ⟨ending, rfl⟩ (by simp)
  | cons byte rest ih =>
      rw [pullVarintFrom]
      by_cases long : 5 < readCount + 1
      · have none : 5 - readCount = 0 := by omega
        rw [if_pos long, none, List.take_zero]
        exact iff_of_true ⟨_, rfl⟩ (by simp)
      · have next : 5 - readCount = (5 - (readCount + 1)) + 1 := by omega
        rw [if_neg long, next, List.take_succ_cons, List.forall_mem_cons]
        by_cases last : byte &&& 0x80 = 0
        · rw [if_pos last]
          refine iff_of_false ?_ fun all => all.1 last
          rintro ⟨e, failed⟩
          cases failed
        · rw [if_neg last, ih _ (by omega : readCount + 1 ≤ 5)]
          exact (and_iff_right last).symm

theorem writeVarint_ne_nil (value : Int32) : writeVarint value ≠ [] := by
  rw [writeVarint]
  split
  · exact List.cons_ne_nil _ _
  · exact List.cons_ne_nil _ _

theorem pullVarint_writeVarint (value : Int32) (rest : List UInt8) :
    pullVarint ending (writeVarint value ++ rest) = (.ok value, rest) := by
  have read : goOn (pullVarint ending (writeVarint value ++ rest)) = .ok (value, rest) :=
    (goOn_pullVarintFrom 0 0 _).trans (readVarint_writeVarint value rest)
  generalize pullVarint ending (writeVarint value ++ rest) = pulled at read
  rcases pulled with ⟨outcome, left⟩
  cases outcome with
  | error e => cases read
  | ok v =>
      cases read
      rfl

end Streams

/-- Every number comes back from its one to five bytes, of which nothing is left and after which nothing is used
up; and a stream that ends too early or goes on for too long is an error after six bytes at most. -/
theorem varints_exact (ending : String) :
    (∀ (value : Int32) (following : List UInt8),
      1 ≤ (writeVarint value).length ∧ (writeVarint value).length ≤ 5 ∧
        pullVarint ending (writeVarint value ++ following) = (.ok value, following)) ∧
      ∀ bytes : List UInt8,
        (∃ used, bytes = used ++ (pullVarint ending bytes).2 ∧ used.length ≤ 6) ∧
        ((∀ b ∈ bytes, b &&& 0x80 ≠ 0) ∨ (5 ≤ bytes.length ∧ ∀ b ∈ bytes.take 5, b &&& 0x80 ≠ 0) →
          ∃ e, (pullVarint ending bytes).1 = .error e) ∧
        readVarint ending bytes = goOn (pullVarint ending bytes) := by
  refine ⟨fun value following => ⟨?_, length_writeVarint_le value, pullVarint_writeVarint value following⟩,
    fun bytes => ⟨pullVarintFrom_consumes 0 (Nat.zero_le 5) bytes, ?_, (goOn_pullVarintFrom 0 0 bytes).symm⟩⟩
  · exact List.length_pos_iff.mpr (writeVarint_ne_nil value)
  · intro malformed
    refine (pullVarintFrom_error_iff 0 (Nat.zero_le 5) bytes).mpr fun b member => ?_
    rcases malformed with all | ⟨_, five⟩
    · exact all b (List.mem_of_mem_take member)
    · exact five b member

/-- The number -1 takes five bytes; a sixth byte is used up when all go on. -/
theorem varints_exact_negative :
    pullVarint "eof" (writeVarint (-1) ++ [0x2a]) = (.ok (-1), [0x2a]) ∧
      ∃ e, (pullVarint "eof" [0xff, 0xff, 0xff, 0xff, 0xff, 0x00, 0x2a]).1 = .error e := by
  obtain ⟨written, streams⟩ := varints_exact "eof"
  refine ⟨(written (-1) [0x2a]).2.2, (streams _).2.1 (.inr ⟨by decide, fun b member => ?_⟩)⟩
  rw [List.eq_of_mem_replicate (show b ∈ List.replicate 5 0xff from member)]
  decide

end ServerPoller
