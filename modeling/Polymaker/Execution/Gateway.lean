import Mathlib.Tactic.Linarith
import Polymaker.Config
import Polymaker.Execution.Reconciler

/-!
# Placing orders

`ExecutionGateway.place` and `_parse_place_response` of `execution/gateway.py`: a list of quotes
goes out in batches, and comes back as the orders an id was received for.

* `parsePlaceResponse`: one batch, bound to its response by position;
* `place`: the batches one after the other; nothing when a call raised;
* `realises_place`: if as many orders come back as quotes went out, each is the order of its quote.
-/

namespace Polymaker

/-- What the exchange answered to the batches of one placement, `none` when a call raised.  An item
is the order id it carries, where it carries one. -/
abbrev PlaceResponse := Option (List (List (Option OrderId)))

/-- `_parse_place_response`: a response of another length than its request binds nothing. -/
def parsePlaceResponse (items : List (Option OrderId)) (quotes : List Quote) (now : ℚ) :
    List OpenOrder :=
  if items.length = quotes.length then
    (quotes.zip items).filterMap fun (q, item) => item.map fun oid =>
      { orderId := oid
        tokenId := q.tokenId
        side := q.side
        price := q.price
        size := q.size
        state := .live
        createdTs := now }
  else []

/-- The batches of `place`, no larger than the exchange's cap. -/
def batches (cfg : ExecutionConfig) (quotes : List Quote) : List (List Quote) :=
  let cap := (max 1 cfg.maxOrdersPerBatch).toNat
  (List.range ((quotes.length + cap - 1) / cap)).map fun k => (quotes.drop (k * cap)).take cap

/-- The orders of a list of batches. -/
def parseBatches (chunks : List (List Quote)) (responses : List (List (Option OrderId)))
    (now : ℚ) : List OpenOrder :=
  (chunks.zip responses).flatMap fun (chunk, items) => parsePlaceResponse items chunk now

/-- `place`. -/
def place (cfg : ExecutionConfig) (quotes : List Quote) (response : PlaceResponse) (now : ℚ) :
    List OpenOrder :=
  match response with
  | none => []
  | some responses => parseBatches (batches cfg quotes) responses now

/-! ### One batch -/

theorem state_of_mem_parsePlaceResponse {items : List (Option OrderId)} {quotes : List Quote}
    {now : ℚ} {o : OpenOrder} (h : o ∈ parsePlaceResponse items quotes now) : o.state = .live := by
  unfold parsePlaceResponse at h
  split_ifs at h
  · obtain ⟨⟨q, item⟩, -, hsome⟩ := List.mem_filterMap.1 h
    obtain ⟨oid, -, rfl⟩ := Option.map_eq_some_iff.1 hsome
    rfl
  · exact absurd h List.not_mem_nil

theorem length_parsePlaceResponse_le (items : List (Option OrderId)) (quotes : List Quote)
    (now : ℚ) : (parsePlaceResponse items quotes now).length ≤ quotes.length := by
  unfold parsePlaceResponse
  split_ifs with hlen
  · refine (List.length_filterMap_le _ _).trans ?_
    rw [List.length_zip, hlen, min_self]
  · exact Nat.zero_le _

/-- A batch all of whose items carry an id. -/
theorem realises_parsePlaceResponse {items : List (Option OrderId)} {quotes : List Quote}
    {now : ℚ} (h : (parsePlaceResponse items quotes now).length = quotes.length) :
    List.Forall₂ Realises quotes (parsePlaceResponse items quotes now) := by
  by_cases hlen : items.length = quotes.length
  · induction quotes generalizing items with
    | nil =>
      obtain rfl := List.length_eq_zero_iff.1 hlen
      exact .nil
    | cons q quotes ih =>
      cases items with
      | nil => simp at hlen
      | cons item items =>
        rw [List.length_cons, List.length_cons, Nat.succ_inj] at hlen
        have htail : parsePlaceResponse items quotes now = (quotes.zip items).filterMap
            fun (q, item) => item.map fun oid =>
              ⟨oid, q.tokenId, q.side, q.price, q.size, .live, now⟩ := if_pos hlen
        have hle := length_parsePlaceResponse_le items quotes now
        cases item with
        | none =>
          -- an item without an id leaves the result short
          have hcons : parsePlaceResponse (none :: items) (q :: quotes) now =
              parsePlaceResponse items quotes now := by
            rw [htail, parsePlaceResponse, if_pos (by simp [hlen])]
            simp
          rw [hcons, List.length_cons] at h
          omega
        | some oid =>
          have hcons : parsePlaceResponse (some oid :: items) (q :: quotes) now =
              ⟨oid, q.tokenId, q.side, q.price, q.size, .live, now⟩ ::
                parsePlaceResponse items quotes now := by
            rw [htail, parsePlaceResponse, if_pos (by simp [hlen])]
            simp
          rw [hcons, List.length_cons, List.length_cons, Nat.succ_inj] at h
          rw [hcons]
          exact .cons ⟨⟨rfl, rfl⟩, rfl, rfl⟩ (ih h hlen)
  · rw [parsePlaceResponse, if_neg hlen] at h ⊢
    obtain rfl := List.length_eq_zero_iff.1 h.symm
    exact .nil

/-! ### The batches -/

theorem flatten_slices (quotes : List Quote) (cap n : ℕ) :
    ((List.range n).map fun k => (quotes.drop (k * cap)).take cap).flatten =
      quotes.take (n * cap) := by
  induction n with
  | zero => simp
  | succ n ih =>
    rw [List.range_succ, List.map_append, List.flatten_append, ih, List.map_singleton,
      List.flatten_singleton, ← List.take_add, Nat.succ_mul]

/-- The batches hold the quotes, in their order. -/
theorem flatten_batches (cfg : ExecutionConfig) (quotes : List Quote) :
    (batches cfg quotes).flatten = quotes := by
  unfold batches
  simp only
  rw [flatten_slices]
  have hcap : 0 < (max 1 cfg.maxOrdersPerBatch).toNat := by omega
  generalize (max 1 cfg.maxOrdersPerBatch).toNat = cap at hcap
  refine List.take_of_length_le ?_
  have hdiv := Nat.div_add_mod (quotes.length + cap - 1) cap
  have hmod := Nat.mod_lt (quotes.length + cap - 1) hcap
  rw [Nat.mul_comm] at hdiv
  omega

theorem parseBatches_cons (chunk : List Quote) (chunks : List (List Quote))
    (items : List (Option OrderId)) (responses : List (List (Option OrderId))) (now : ℚ) :
    parseBatches (chunk :: chunks) (items :: responses) now =
      parsePlaceResponse items chunk now ++ parseBatches chunks responses now := rfl

theorem length_parseBatches_le (chunks : List (List Quote))
    (responses : List (List (Option OrderId))) (now : ℚ) :
    (parseBatches chunks responses now).length ≤ chunks.flatten.length := by
  induction chunks generalizing responses with
  | nil => exact Nat.zero_le _
  | cons chunk chunks ih =>
    cases responses with
    | nil => exact Nat.zero_le _
    | cons items responses =>
      have hhead := length_parsePlaceResponse_le items chunk now
      have htail := ih responses
      rw [parseBatches_cons, List.length_append, List.flatten_cons, List.length_append]
      omega

theorem realises_parseBatches {chunks : List (List Quote)}
    {responses : List (List (Option OrderId))} {now : ℚ}
    (h : (parseBatches chunks responses now).length = chunks.flatten.length) :
    List.Forall₂ Realises chunks.flatten (parseBatches chunks responses now) := by
  induction chunks generalizing responses with
  | nil => exact .nil
  | cons chunk chunks ih =>
    cases responses with
    | nil =>
      obtain hnil := List.length_eq_zero_iff.1 h.symm
      rw [hnil]
      exact .nil
    | cons items responses =>
      have hhead := length_parsePlaceResponse_le items chunk now
      have htail := length_parseBatches_le chunks responses now
      rw [parseBatches_cons, List.length_append, List.flatten_cons, List.length_append] at h
      rw [parseBatches_cons, List.flatten_cons]
      exact List.rel_append (realises_parsePlaceResponse (by omega)) (ih (by omega))

/-! ### The placement -/

theorem state_of_mem_place {cfg : ExecutionConfig} {quotes : List Quote} {response : PlaceResponse}
    {now : ℚ} {o : OpenOrder} (h : o ∈ place cfg quotes response now) : o.state = .live := by
  cases response with
  | none => exact absurd h List.not_mem_nil
  | some responses =>
    obtain ⟨⟨chunk, items⟩, -, hmem⟩ := List.mem_flatMap.1 h
    exact state_of_mem_parsePlaceResponse hmem

theorem length_place_le (cfg : ExecutionConfig) (quotes : List Quote) (response : PlaceResponse)
    (now : ℚ) : (place cfg quotes response now).length ≤ quotes.length := by
  cases response with
  | none => exact Nat.zero_le _
  | some responses =>
    have h := length_parseBatches_le (batches cfg quotes) responses now
    rwa [flatten_batches] at h

/-- **A complete placement.**  If as many orders come back as quotes went out, each is the order of
its quote. -/
theorem realises_place {cfg : ExecutionConfig} {quotes : List Quote} {response : PlaceResponse}
    {now : ℚ} (h : (place cfg quotes response now).length = quotes.length) :
    List.Forall₂ Realises quotes (place cfg quotes response now) := by
  cases response with
  | none =>
    obtain rfl := List.length_eq_zero_iff.1 h.symm
    exact .nil
  | some responses =>
    have hlen : (parseBatches (batches cfg quotes) responses now).length =
        (batches cfg quotes).flatten.length := by rw [flatten_batches]; exact h
    have hreal := realises_parseBatches hlen
    rwa [flatten_batches] at hreal

end Polymaker
