import ServerPoller.Sync
import Mathlib.Algebra.Order.Floor.Div

/-! The requests of `fetch_page`: how many there are before the loop ends, and what they bring together
when the catalog answers each of them with the page it names. -/

namespace ServerPoller
open Json

structure ListServersRequest where
  page : Int32
  limit : Int32
  role : Option String
  parentId : Option Int64
  deriving DecidableEq, Repr

/-- `page_size as i32`. -/
def requestLimit (pageSize : UInt64) : Int32 := Int32.ofNat pageSize.toNat

section Requests
variable (catalog : Nat → ListServersRequest → ListOutcome) (pageSize : UInt64) (role : Option String)

def pageRequest (loop : PageLoop) : ListServersRequest := ⟨loop.page, requestLimit pageSize, role, none⟩

/-- What the catalog answers to `turns` requests of a loop that does not end before, of which the first is
the `sent`-th that the catalog gets. -/
def answers (sent : Nat) (loop : PageLoop) : Nat → List ListOutcome
  | 0 => []
  | turns+1 =>
      let outcome := catalog sent (pageRequest pageSize role loop)
      outcome :: answers (sent + 1) (pageTurn loop outcome).1 turns

/-- After exactly so many requests the loop returns this list. -/
def Fetches (sent : Nat) (loop : PageLoop) (result : List Value) (requests : Nat) : Prop :=
  fetchPage loop (answers catalog pageSize role sent loop requests) = some (result, [])

variable {catalog pageSize role} {sent : Nat} {loop : PageLoop}

theorem fetches_last (last : (pageTurn loop (catalog sent (pageRequest pageSize role loop))).2 = true)
    {result : List Value} {requests : Nat} :
    Fetches catalog pageSize role sent loop result (requests + 1) ↔
      requests = 0 ∧ result = (pageTurn loop (catalog sent (pageRequest pageSize role loop))).1.result := by
  rw [Fetches, answers, fetchPage]
  generalize pageTurn loop (catalog sent (pageRequest pageSize role loop)) = turn at last
  rcases turn with ⟨after, _⟩
  cases last
  cases requests with
  | zero => simp [answers, eq_comm]
  | succ requests => simp [answers]

theorem fetches_more (more : (pageTurn loop (catalog sent (pageRequest pageSize role loop))).2 = false)
    {result : List Value} {requests : Nat} :
    Fetches catalog pageSize role sent loop result (requests + 1) ↔
      Fetches catalog pageSize role (sent + 1)
        (pageTurn loop (catalog sent (pageRequest pageSize role loop))).1 result requests := by
  rw [Fetches, Fetches, answers, fetchPage]
  generalize pageTurn loop (catalog sent (pageRequest pageSize role loop)) = turn at more
  rcases turn with ⟨after, _⟩
  cases more
  rfl

theorem fetchPage_append {result : List Value} {outcomes rest : List ListOutcome}
    (h : fetchPage loop outcomes = some (result, [])) : fetchPage loop (outcomes ++ rest) = some (result, rest) := by
  induction outcomes generalizing loop with
  | nil => cases h
  | cons outcome outcomes ih =>
      rw [fetchPage] at h
      rw [List.cons_append, fetchPage]
      generalize pageTurn loop outcome = turn at h
      rcases turn with ⟨after, last⟩
      cases last with
      | true =>
          cases h
          rfl
      | false => exact ih h

theorem fetches_requests {result : List Value} {requests : Nat}
    (h : Fetches catalog pageSize role sent loop result requests) : requests ≠ 0 := by
  rintro rfl
  cases h

end Requests

def itemsListed (responses : Nat → ListServersResponse) : Nat → Nat
  | 0 => 0
  | n+1 => itemsListed responses n + (responses n).items.length

/-- With this answer the count of items, as an `i32`, has reached the total. -/
def ReachesTotal (responses : Nat → ListServersResponse) (n : Nat) : Prop :=
  (responses n).total ≤ Int32.ofNat (itemsListed responses (n + 1))

instance (responses : Nat → ListServersResponse) (n : Nat) : Decidable (ReachesTotal responses n) :=
  inferInstanceAs (Decidable (_ ≤ _))

section Stream
variable (responses : Nat → ListServersResponse) (pageSize : UInt64) (role : Option String)

def streamed : Nat → ListServersRequest → ListOutcome := fun n _ => some (responses n)

variable {responses pageSize role}

theorem pageTurn_streamed {sent : Nat} {loop : PageLoop} (request : ListServersRequest)
    (count : loop.result.length = itemsListed responses sent) :
    (pageTurn loop (streamed responses sent request)).2 = decide (ReachesTotal responses sent) ∧
      (pageTurn loop (streamed responses sent request)).1.result.length = itemsListed responses (sent + 1) := by
  have grown : (loop.result ++ (responses sent).items.map catalogItemToValue).length =
      itemsListed responses (sent + 1) := by
    rw [List.length_append, List.length_map, count, itemsListed]
  constructor
  · simp only [streamed, pageTurn, grown]
    rfl
  · exact grown

theorem fetches_streamed_iff {sent : Nat} {loop : PageLoop}
    (count : loop.result.length = itemsListed responses sent) {requests : Nat} :
    (∃ result, Fetches (streamed responses) pageSize role sent loop result requests) ↔
      ∃ n, requests = n + 1 ∧ ReachesTotal responses (sent + n) ∧
        ∀ m < n, ¬ReachesTotal responses (sent + m) := by
  induction requests generalizing sent loop with
  | zero =>
      constructor
      · rintro ⟨result, h⟩
        exact absurd rfl (fetches_requests h)
      · rintro ⟨n, none, _⟩
        cases none
  | succ requests ih =>
      obtain ⟨ended, grown⟩ := pageTurn_streamed (pageRequest pageSize role loop) count
      have shift : ∀ m, sent + 1 + m = sent + (m + 1) := fun m => by omega
      by_cases reached : ReachesTotal responses sent
      · simp only [fetches_last (ended.trans (decide_eq_true reached)), exists_and_left, exists_eq, and_true]
        constructor
        · rintro rfl
          exact ⟨0, rfl, reached, fun m early => absurd early (Nat.not_lt_zero m)⟩
        · rintro ⟨n, eq, _, first⟩
          cases n with
          | zero => exact Nat.succ.inj eq
          | succ n => exact absurd reached (first 0 (Nat.succ_pos n))
      · simp only [fetches_more (ended.trans (decide_eq_false reached)), ih grown]
        constructor
        · rintro ⟨n, rfl, later, first⟩
          refine ⟨n + 1, rfl, shift n ▸ later, fun m early => ?_⟩
          cases m with
          | zero => exact reached
          | succ m => exact shift m ▸ first m (Nat.lt_of_succ_lt_succ early)
        · rintro ⟨n, eq, later, first⟩
          cases n with
          | zero => exact absurd later reached
          | succ n =>
              refine ⟨n, Nat.succ.inj eq, shift n ▸ later, fun m early => ?_⟩
              exact shift m ▸ first (m + 1) (Nat.succ_lt_succ early)

theorem fetch_ends_iff_reachesTotal :
    (∃ requests result, Fetches (streamed responses) pageSize role 0 firstPage result requests) ↔
      ∃ n, ReachesTotal responses n := by
  have start : firstPage.result.length = itemsListed responses 0 := rfl
  constructor
  · rintro ⟨requests, returned⟩
    obtain ⟨n, _, reached, _⟩ := (fetches_streamed_iff start).mp returned
    exact ⟨0 + n, reached⟩
  · intro ends
    refine ⟨Nat.find ends + 1, (fetches_streamed_iff start).mpr ⟨Nat.find ends, rfl, ?_, fun m early => ?_⟩⟩
    · rw [Nat.zero_add]
      exact Nat.find_spec ends
    · rw [Nat.zero_add]
      exact Nat.find_min ends early

theorem itemsListed_mono : Monotone (itemsListed responses) :=
  monotone_nat_of_le_succ fun n => Nat.le_add_right (itemsListed responses n) _

theorem exists_le_itemsListed (progress : ∀ k, ∃ n ≥ k, (responses n).items ≠ []) (bound : Nat) :
    ∃ n, bound ≤ itemsListed responses (n + 1) := by
  induction bound with
  | zero => exact ⟨0, Nat.zero_le _⟩
  | succ bound ih =>
      obtain ⟨k, enough⟩ := ih
      obtain ⟨n, later, some_item⟩ := progress (k + 1)
      have before : itemsListed responses (k + 1) ≤ itemsListed responses n := itemsListed_mono later
      have positive := List.length_pos_iff.mpr some_item
      refine ⟨n, ?_⟩
      rw [itemsListed]
      omega

/-- If the pages are so small that their number cannot leave the range of `i32` before it has passed the
bound of the totals, it reaches a total when it passes that bound. -/
theorem reachesTotal_of_count {bound : Nat} (positive : 0 < bound)
    (totals : ∀ n, (responses n).total.toInt ≤ bound)
    (pages : ∀ n, (responses n).items.length + bound ≤ 2 ^ 31)
    (passed : ∃ n, bound ≤ itemsListed responses (n + 1)) : ∃ n, ReachesTotal responses n := by
  have before : itemsListed responses (Nat.find passed) < bound := by
    cases first : Nat.find passed with
    | zero => exact positive
    | succ n => exact not_le.mp (Nat.find_min passed (first ▸ Nat.lt_succ_self n))
  have after := Nat.find_spec passed
  have page := pages (Nat.find passed)
  have total := totals (Nat.find passed)
  refine ⟨Nat.find passed, ?_⟩
  rw [ReachesTotal, Int32.le_iff_toInt_le, Int32.toInt_ofNat_of_lt (by rw [itemsListed]; omega)]
  omega

/-- The loop ends exactly when the count, as an `i32`, reaches a total. Where pages and totals together stay
within `i32`, it ends exactly when there is always another page with items, or the number of items comes up to
a total. -/
theorem fetch_ends_iff (responses : Nat → ListServersResponse) (pageSize : UInt64) (role : Option String) :
    ((∃ requests result, Fetches (streamed responses) pageSize role 0 firstPage result requests) ↔
      ∃ n, ReachesTotal responses n) ∧
    ∀ bound : Nat, 0 < bound → (∀ n, (responses n).total.toInt ≤ bound) →
      (∀ n, (responses n).items.length + bound ≤ 2 ^ 31) →
      ((∃ requests result, Fetches (streamed responses) pageSize role 0 firstPage result requests) ↔
        (∀ k, ∃ n ≥ k, (responses n).items ≠ []) ∨
          ∃ n, (responses n).total.toInt ≤ itemsListed responses (n + 1)) := by
  refine ⟨fetch_ends_iff_reachesTotal, fun bound positive totals pages => ?_⟩
  rw [fetch_ends_iff_reachesTotal]
  constructor
  · rintro ⟨n, reached⟩
    right
    refine ⟨n, ?_⟩
    by_cases small : itemsListed responses (n + 1) < 2 ^ 31
    · rwa [ReachesTotal, Int32.le_iff_toInt_le, Int32.toInt_ofNat_of_lt small] at reached
    · have total := totals n
      have page := pages n
      omega
  · rintro (progress | ⟨n, enough⟩)
    · exact reachesTotal_of_count positive totals pages (exists_le_itemsListed progress bound)
    · by_cases small : itemsListed responses (n + 1) < 2 ^ 31
      · refine ⟨n, ?_⟩
        rwa [ReachesTotal, Int32.le_iff_toInt_le, Int32.toInt_ofNat_of_lt small]
      · have page := pages n
        exact reachesTotal_of_count positive totals pages ⟨n, by omega⟩

/-- One server on every page, for a total that goes back and forth between two and three. -/
theorem fetch_ends_iff_onePerPage :
    let item : ServerCatalogItem := ⟨"1", none, none, "mc.example.com", "standalone", none, none, none, none,
      none, none, false, none, none⟩
    ∃ requests result, Fetches (streamed fun n => ⟨[item], if n % 2 = 0 then 3 else 2⟩) 100 none 0 firstPage
      result requests := by
  intro item
  refine ((fetch_ends_iff _ _ _).2 3 (by decide) (fun n => ?_) fun _ => ?_).mpr (.inl fun k => ⟨k, le_rfl, ?_⟩)
  · dsimp only
    split <;> decide
  · exact (by decide : 1 + 3 ≤ 2 ^ 31)
  · exact List.cons_ne_nil _ _

/-- A page without items for a total of one. -/
theorem fetch_never_ends :
    ¬∃ requests result, Fetches (streamed fun _ => ⟨[], 1⟩) 100 none 0 firstPage result requests := by
  intro returns
  obtain ⟨n, reached⟩ := fetch_ends_iff_reachesTotal.mp returns
  have nothing : itemsListed (fun _ => ⟨[], 1⟩) (n + 1) = 0 := by
    induction n + 1 with
    | zero => rfl
    | succ n ih => rw [itemsListed, ih]; rfl
  rw [ReachesTotal, nothing] at reached
  exact absurd reached (by decide)

end Stream

def catalogPage (all : List ServerCatalogItem) (request : ListServersRequest) : ListServersResponse where
  items := (all.drop ((request.page.toInt - 1) * request.limit.toInt).toNat).take request.limit.toInt.toNat
  total := Int32.ofNat all.length

/-- Each request is answered from the list that the catalog then has for its role. -/
def honest (lists : Nat → Option String → List ServerCatalogItem) : Nat → ListServersRequest → ListOutcome :=
  fun n request => some (catalogPage (lists n request.role) request)

def pageLimit (pageSize : UInt64) : Nat := (requestLimit pageSize).toInt.toNat

def pagesNeeded (pageSize : UInt64) (length : Nat) : Nat :=
  max 1 (length ⌈/⌉ pageLimit pageSize)

section Honest
variable {lists : Nat → Option String → List ServerCatalogItem} {pageSize : UInt64} {role : Option String}

structure Advanced (pageSize : UInt64) (pages : Nat) (loop : PageLoop) : Prop where
  page : loop.page = Int32.ofNat (pages + 1)
  full : loop.result.length = pages * pageLimit pageSize
  room : pages * pageLimit pageSize + 1 < 2 ^ 31

/-- A turn takes the page that follows, and it is the last unless there are more items. -/
theorem pageTurn_honest {pages sent : Nat} {loop : PageLoop} (h : Advanced pageSize pages loop)
    (limit : 1 ≤ (requestLimit pageSize).toInt) {all : List ServerCatalogItem} (list : lists sent role = all)
    (small : all.length < 2 ^ 31) :
    pageTurn loop (honest lists sent (pageRequest pageSize role loop)) =
      (⟨Int32.ofNat (pages + 2), loop.result ++
        ((all.drop (pages * pageLimit pageSize)).take (pageLimit pageSize)).map catalogItemToValue⟩,
        decide (all.length ≤ (pages + 1) * pageLimit pageSize)) := by
  have natural : (requestLimit pageSize).toInt = pageLimit pageSize := by
    rw [pageLimit]
    omega
  have few : pages ≤ pages * pageLimit pageSize := Nat.le_mul_of_pos_right pages (by omega)
  have room := h.room
  have page : loop.page.toInt = pages + 1 := by
    rw [h.page, Int32.toInt_ofNat_of_lt (by omega)]
    rfl
  have offset : ((loop.page.toInt - 1) * (pageLimit pageSize : Int)).toNat = pages * pageLimit pageSize := by
    rw [page, Int.add_sub_cancel, ← Int.natCast_mul, Int.toNat_natCast]
  have next : loop.page + 1 = Int32.ofNat (pages + 2) := by
    rw [h.page]
    exact (Int32.ofNat_add (pages + 1) 1).symm
  have split : (pages + 1) * pageLimit pageSize = pages * pageLimit pageSize + pageLimit pageSize :=
    Nat.succ_mul pages _
  have count : (loop.result ++
      ((all.drop (pages * pageLimit pageSize)).take (pageLimit pageSize)).map catalogItemToValue).length =
      pages * pageLimit pageSize + min (pageLimit pageSize) (all.length - pages * pageLimit pageSize) := by
    rw [List.length_append, List.length_map, List.length_take, List.length_drop, h.full]
  have last : Int32.ofNat all.length ≤ Int32.ofNat (pages * pageLimit pageSize +
      min (pageLimit pageSize) (all.length - pages * pageLimit pageSize)) ↔
        all.length ≤ (pages + 1) * pageLimit pageSize := by
    rw [Int32.le_iff_toInt_le, Int32.toInt_ofNat_of_lt small, Int32.toInt_ofNat_of_lt (by omega)]
    omega
  simp only [honest, catalogPage, pageRequest, pageTurn, list, next, natural, Int.toNat_natCast, offset]
  rw [count, decide_eq_decide.mpr last]

theorem Advanced.next {pages : Nat} {loop : PageLoop} (h : Advanced pageSize pages loop)
    {all : List ServerCatalogItem} (small : all.length < 2 ^ 31)
    (more : (pages + 1) * pageLimit pageSize < all.length) :
    Advanced pageSize (pages + 1) ⟨Int32.ofNat (pages + 2), loop.result ++
      ((all.drop (pages * pageLimit pageSize)).take (pageLimit pageSize)).map catalogItemToValue⟩ := by
  have split : (pages + 1) * pageLimit pageSize = pages * pageLimit pageSize + pageLimit pageSize :=
    Nat.succ_mul pages _
  refine ⟨rfl, ?_, by omega⟩
  rw [List.length_append, List.length_map, List.length_take, List.length_drop, h.full]
  omega

theorem fetches_within (limit : 1 ≤ (requestLimit pageSize).toInt)
    (small : ∀ n, (lists n role).length < 2 ^ 31) {bound : Nat} (bounded : ∀ n, (lists n role).length ≤ bound)
    {left pages : Nat} (sent : Nat) {loop : PageLoop} (h : Advanced pageSize pages loop)
    (enough : bound ≤ (pages + left + 1) * pageLimit pageSize) :
    ∃ requests ≤ left + 1, ∃ result, Fetches (honest lists) pageSize role sent loop result requests := by
  induction left generalizing pages sent loop with
  | zero =>
      have turn := pageTurn_honest h limit rfl (small sent)
      have last : (lists sent role).length ≤ (pages + 1) * pageLimit pageSize := (bounded sent).trans enough
      exact ⟨1, le_rfl, _, (fetches_last (by rw [turn]; exact decide_eq_true last)).mpr ⟨rfl, rfl⟩⟩
  | succ left ih =>
      have turn := pageTurn_honest h limit rfl (small sent)
      by_cases last : (lists sent role).length ≤ (pages + 1) * pageLimit pageSize
      · refine ⟨1, by omega, _, (fetches_last (by rw [turn]; exact decide_eq_true last)).mpr ⟨rfl, rfl⟩⟩
      · have count : pages + 1 + left + 1 = pages + (left + 1) + 1 := by omega
        obtain ⟨requests, few, result, fetched⟩ := ih (sent + 1) (h.next (small sent) (not_le.mp last))
          (count ▸ enough)
        refine ⟨requests + 1, Nat.succ_le_succ few, result, ?_⟩
        rw [fetches_more (by rw [turn]; exact decide_eq_false last), turn]
        exact fetched

theorem fetches_all (limit : 1 ≤ (requestLimit pageSize).toInt) {all : List ServerCatalogItem}
    (small : all.length < 2 ^ 31) (same : ∀ n, lists n role = all)
    (left : Nat) {pages : Nat} (sent : Nat) {loop : PageLoop} (h : Advanced pageSize pages loop)
    (more : left = 0 ∨ (pages + left) * pageLimit pageSize < all.length)
    (enough : all.length ≤ (pages + left + 1) * pageLimit pageSize) :
    Fetches (honest lists) pageSize role sent loop
      (loop.result ++ (all.drop (pages * pageLimit pageSize)).map catalogItemToValue) (left + 1) := by
  induction left generalizing pages sent loop with
  | zero =>
      have turn := pageTurn_honest h limit (same sent) small
      have split : (pages + 0 + 1) * pageLimit pageSize = pages * pageLimit pageSize + pageLimit pageSize :=
        Nat.succ_mul pages _
      rw [fetches_last (by rw [turn]; exact decide_eq_true enough), turn]
      refine ⟨rfl, ?_⟩
      rw [List.take_of_length_le]
      rw [List.length_drop]
      omega
  | succ left ih =>
      have turn := pageTurn_honest h limit (same sent) small
      have count : pages + 1 + left = pages + (left + 1) := by omega
      have further : (pages + (left + 1)) * pageLimit pageSize < all.length := more.resolve_left (Nat.succ_ne_zero left)
      have next : (pages + 1) * pageLimit pageSize < all.length :=
        lt_of_le_of_lt (Nat.mul_le_mul_right _ (by omega)) further
      have rest := ih (sent + 1) (h.next small next) (.inr (count ▸ further)) (count ▸ enough)
      have split : (pages + 1) * pageLimit pageSize = pages * pageLimit pageSize + pageLimit pageSize :=
        Nat.succ_mul pages _
      rw [fetches_more (by rw [turn]; exact decide_eq_false (not_le.mpr next)), turn]
      rw [List.append_assoc, ← List.map_append, split, ← List.drop_drop, List.take_append_drop] at rest
      exact rest

theorem advanced_firstPage (pageSize : UInt64) : Advanced pageSize 0 firstPage :=
  ⟨rfl, (Nat.zero_mul _).symm, by rw [Nat.zero_mul]; decide⟩

theorem pagesNeeded_spec (limit : 1 ≤ (requestLimit pageSize).toInt) (length : Nat) :
    ∃ left, pagesNeeded pageSize length = left + 1 ∧ (left = 0 ∨ left * pageLimit pageSize < length) ∧
      length ≤ (left + 1) * pageLimit pageSize := by
  have positive : 0 < pageLimit pageSize := by
    rw [pageLimit]
    omega
  refine ⟨length ⌈/⌉ pageLimit pageSize - 1, ?_, ?_, ?_⟩
  · rw [pagesNeeded]
    omega
  · by_contra neither
    obtain ⟨some_left, complete⟩ := not_or.mp neither
    rw [not_lt, Nat.mul_comm] at complete
    have fewer := (ceilDiv_le_iff_le_mul positive).mpr complete
    omega
  · rw [Nat.mul_comm]
    apply (ceilDiv_le_iff_le_mul positive).mp
    omega

/-- From a catalog that stays the same `fetch_page` returns the list and `fetch_servers` both lists; from one
that changes, `fetch_page` still returns within the requests that the longest list takes. -/
theorem pagination_complete (lists : Nat → Option String → List ServerCatalogItem) (pageSize : UInt64)
    (limit : 1 ≤ (requestLimit pageSize).toInt) (small : ∀ n role, (lists n role).length < 2 ^ 31) :
    (∀ role all, (∀ n, lists n role = all) → ∀ sent, Fetches (honest lists) pageSize role sent firstPage
      (all.map catalogItemToValue) (pagesNeeded pageSize all.length)) ∧
    (∀ all subs, (∀ n, lists n none = all) → (∀ n, lists n (some "subserver") = subs) →
      let requests := pagesNeeded pageSize all.length
      fetchServers (answers (honest lists) pageSize none 0 firstPage requests ++
        answers (honest lists) pageSize (some "subserver") requests firstPage (pagesNeeded pageSize subs.length)) =
          some (all.map catalogItemToValue ++ subs.map catalogItemToValue, [])) ∧
    (∀ role bound, (∀ n, (lists n role).length ≤ bound) → ∀ sent, ∃ requests ≤ pagesNeeded pageSize bound,
      ∃ result, Fetches (honest lists) pageSize role sent firstPage result requests) := by
  have complete : ∀ role all, (∀ n, lists n role = all) → ∀ sent, Fetches (honest lists) pageSize role sent
      firstPage (all.map catalogItemToValue) (pagesNeeded pageSize all.length) := by
    intro role all same sent
    obtain ⟨left, requests, more, enough⟩ := pagesNeeded_spec limit all.length
    have fetched := fetches_all limit (same 0 ▸ small 0 role) same left sent
      (advanced_firstPage pageSize) (by rwa [Nat.zero_add]) (by rwa [Nat.zero_add])
    rw [Nat.zero_mul, List.drop_zero] at fetched
    rw [requests]
    exact fetched
  refine ⟨complete, ?_, ?_⟩
  · intro all subs sameAll sameSubs requests
    have second := complete (some "subserver") subs sameSubs requests
    rw [Fetches] at second
    rw [fetchServers, fetchPage_append (complete none all sameAll 0)]
    simp only [second]
  · intro role bound bounded sent
    obtain ⟨left, requests, _, enough⟩ := pagesNeeded_spec limit bound
    rw [requests]
    exact fetches_within limit (fun n => small n role) bounded sent (advanced_firstPage pageSize)
      (by rwa [Nat.zero_add])

end Honest

/-- Three items come in two pages of two. -/
theorem pagination_complete_twoPages :
    let item : String → ServerCatalogItem := fun id => ⟨id, none, none, "mc.example.com", "standalone", none, none,
      none, none, none, none, false, none, none⟩
    let all := [item "1", item "2", item "3"]
    Fetches (honest fun _ role => if role.isNone then all else []) 2 none 0 firstPage
      (all.map catalogItemToValue) 2 := by
  intro item all
  have small : ∀ (n : Nat) (role : Option String), (if role.isNone then all else []).length < 2 ^ 31 := by
    intro _ role
    cases role with
    | none => exact (by decide : 3 < 2 ^ 31)
    | some _ => exact (by decide : 0 < 2 ^ 31)
  have pages : pagesNeeded 2 3 = 2 := by decide
  have fetched := (pagination_complete (fun _ role => if role.isNone then all else []) 2 (by decide) small).1
    none all (fun _ => rfl) 0
  exact pages ▸ fetched

end ServerPoller
