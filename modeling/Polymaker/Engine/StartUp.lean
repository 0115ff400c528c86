import Polymaker.State.Orders
import Mathlib.Data.List.Dedup

/-!
# Orders at the start

`_startup_reconcile` of `engine.py` cancels all orders, reads what is left, cancels that token by
token, reads again, and takes over what still rests on the traded tokens.  Either read may fail.

* `Boot`: what rests on the exchange meanwhile, and which reads are answered;
* `Boot.startUp`, `Boot.cancelsAsked`: the local orders after it, and the tokens it asks to cancel;
* `tracked_of_startUp`: it takes over only what rests;
* `startup_tracks_iff`: everything that rests on the traded tokens is tracked exactly when the reads
  were answered, or nothing rests there.
-/

namespace Polymaker

/-- The exchange during the start: what rests after `cancel_all` and, where it is asked to cancel
more, after that, and whether the reads of either are answered. -/
structure Boot where
  resting : List OpenOrder
  answered : Bool
  rested : List OpenOrder
  reanswered : Bool

/-- The orders of a read, by token, replace those of the traded tokens. -/
def adoptOrders (s : StateStore) (tokens : List TokenId) (still : List OpenOrder) (now : ℚ) :
    StateStore :=
  tokens.foldl (fun s tok =>
    s.replaceOpenOrders tok (still.filter fun o => decide (o.tokenId = tok)) 0 now) s

namespace Boot

/-- More has to be cancelled: the first read lists orders. -/
def Remains (b : Boot) : Prop := b.answered = true ∧ b.resting ≠ []

instance (b : Boot) : Decidable b.Remains := inferInstanceAs (Decidable (_ ∧ _))

/-- The orders part of `_startup_reconcile`. -/
def startUp (b : Boot) (tokens : List TokenId) (s : StateStore) (now : ℚ) : StateStore :=
  if b.Remains ∧ b.reanswered = true then adoptOrders s tokens b.rested now else s

/-- The tokens whose orders it asks to cancel: all that have any, traded or not. -/
def cancelsAsked (b : Boot) : List TokenId :=
  if b.Remains then (b.resting.map OpenOrder.tokenId).dedup else []

/-- What rests when it ends. -/
def left (b : Boot) : List OpenOrder := if b.Remains then b.rested else b.resting

end Boot

/-! ### Adoption -/

/-- Part of a read has been taken over: what is tracked rests on the tokens so far, and what rests
there is tracked. -/
structure Adopted (still : List OpenOrder) (tokens : List TokenId) (s : StateStore) : Prop where
  sound : ∀ i o, s.orders.get? i = some o → o ∈ still ∧ o.orderId = i ∧ o.tokenId ∈ tokens
  complete : ∀ o ∈ still, o.tokenId ∈ tokens → o.orderId ∈ s.orders

variable {still : List OpenOrder} {tokens : List TokenId} {s : StateStore}

theorem Adopted.snoc (h : Adopted still tokens s) (tok : TokenId) (now : ℚ) :
    Adopted still (tokens ++ [tok])
      (s.replaceOpenOrders tok (still.filter fun o => decide (o.tokenId = tok)) 0 now) := by
  refine ⟨fun i o ho => ?_, fun o ho htok => ?_⟩
  · rcases mem_or_get?_of_replaceOpenOrders ho with ⟨hmem, hid⟩ | hold
    · obtain ⟨hmem, htok⟩ := List.mem_filter.1 hmem
      refine ⟨hmem, hid, ?_⟩
      rw [of_decide_eq_true htok]
      exact List.mem_append_right tokens (List.mem_singleton_self tok)
    · obtain ⟨hmem, hid, htok⟩ := h.sound i o hold
      exact ⟨hmem, hid, List.mem_append_left _ htok⟩
  · obtain ⟨o', -, -, hsome⟩ | ⟨hnot, hfilter⟩ := replaceOpenOrders_get? s tok
      (still.filter fun o => decide (o.tokenId = tok)) 0 now o.orderId
    · exact Dict.mem_of_get? hsome
    · -- the id is not listed for this token: the order is of an earlier one, and so what it holds
      have hne : o.tokenId ≠ tok := fun heq => hnot <| List.mem_map_of_mem <|
        List.mem_filter.2 ⟨ho, decide_eq_true heq⟩
      have hearlier : o.tokenId ∈ tokens :=
        (List.mem_append.1 htok).resolve_right fun hmem => hne (List.mem_singleton.1 hmem)
      obtain ⟨held, hheld⟩ := Dict.exists_get?_of_mem (h.complete o ho hearlier)
      obtain ⟨hmem, hid, -⟩ := h.sound _ held hheld
      have hother : held.tokenId ≠ tok := by
        intro heq
        rw [← hid] at hnot
        exact hnot (List.mem_map_of_mem (List.mem_filter.2 ⟨hmem, decide_eq_true heq⟩))
      refine Dict.mem_of_get? (v := held) ?_
      rw [hfilter, hheld]
      exact Option.filter_some_pos (decide_eq_true (.inl hother))

/-- From no orders a read is taken over as a whole. -/
theorem adopted_adoptOrders (hs : s.orders = .empty) (still : List OpenOrder)
    (tokens : List TokenId) (now : ℚ) :
    Adopted still tokens (adoptOrders s tokens still now) := by
  unfold adoptOrders
  induction tokens using List.reverseRecOn with
  | nil =>
    refine ⟨fun i o ho => ?_, fun o _ htok => absurd htok List.not_mem_nil⟩
    rw [List.foldl_nil, hs] at ho
    cases ho
  | append_singleton tokens tok ih =>
    rw [List.foldl_append]
    exact ih.snoc tok now

/-! ### The start -/

namespace Boot

variable {b : Boot} {db : Db} {now : ℚ}

/-- **Only what rests is tracked**, on the traded tokens, and under its id. -/
theorem tracked_of_startUp {i : OrderId} {o : OpenOrder}
    (h : (b.startUp tokens (StateStore.open db) now).orders.get? i = some o) :
    o ∈ b.left ∧ o.orderId = i ∧ o.tokenId ∈ tokens := by
  unfold startUp at h
  split_ifs at h with hadopts
  · unfold left
    rw [if_pos hadopts.1]
    exact (adopted_adoptOrders rfl b.rested tokens now).sound i o h
  · cases h

/-- What rests on the traded tokens is tracked. -/
def Tracks (b : Boot) (tokens : List TokenId) (s : StateStore) : Prop :=
  ∀ o ∈ b.left, o.tokenId ∈ tokens → o.orderId ∈ s.orders

/-- It asks to cancel exactly the tokens that the first read lists. -/
theorem mem_cancelsAsked_iff {tok : TokenId} :
    tok ∈ b.cancelsAsked ↔ b.answered = true ∧ tok ∈ b.resting.map OpenOrder.tokenId := by
  unfold cancelsAsked
  by_cases hremains : b.Remains
  · rw [if_pos hremains, List.mem_dedup]
    exact (and_iff_right hremains.1).symm
  · rw [if_neg hremains]
    refine iff_of_false List.not_mem_nil ?_
    rintro ⟨hanswered, htok⟩
    refine hremains ⟨hanswered, ?_⟩
    rintro hempty
    rw [hempty] at htok
    exact List.not_mem_nil htok

/-- A start that takes a read over tracks what rests. -/
theorem tracks_of_adopts (hadopts : b.Remains ∧ b.reanswered = true) :
    b.Tracks tokens (b.startUp tokens (StateStore.open db) now) := by
  intro o ho htok
  rw [left, if_pos hadopts.1] at ho
  rw [show b.startUp tokens (StateStore.open db) now = _ from if_pos hadopts]
  exact (adopted_adoptOrders rfl b.rested tokens now).complete o ho htok

/-- One that does not tracks nothing. -/
theorem tracks_iff_of_not_adopts (hadopts : ¬ (b.Remains ∧ b.reanswered = true)) :
    b.Tracks tokens (b.startUp tokens (StateStore.open db) now) ↔
      ∀ o ∈ b.left, o.tokenId ∉ tokens := by
  rw [show b.startUp tokens (StateStore.open db) now = _ from if_neg hadopts]
  exact forall₂_congr fun o _ => imp_congr_right fun _ => iff_false_intro (Dict.not_mem_empty _)

/-- An order survives `cancel_all`, and the second read fails: it rests untracked. -/
example :
    let o : OpenOrder := ⟨"o", "yes", .buy, 48 / 100, 100, .live, 0⟩
    let b : Boot := ⟨[o], true, [o], false⟩
    b.cancelsAsked = ["yes"] ∧ b.left = [o] ∧
      (b.startUp ["yes", "no"] (StateStore.open .fresh) 0).orders.keys = [] := by
  decide +kernel

end Boot

end Polymaker
