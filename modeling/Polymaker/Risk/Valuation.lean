import Polymaker.Lib.DictSum
import Polymaker.Risk.Manager

/-!
# What the held positions are worth

Both figures the manager takes over all positions, the exposure and the value of the inventory, are
sums of size times a price over the held positions.

* `worth`: such a sum, for any price;
* `totalExposure_eq_worth`, `inventoryValue_eq_worth`: the two figures;
* `worth_set`: what an overwritten position changes.
-/

namespace Polymaker

/-- The held positions, each at a price. -/
def StateStore.worth (s : StateStore) (price : TokenId → Position → ℚ) : ℚ :=
  s.positions.sum fun tok pos => if 0 < pos.size then pos.size * price tok pos else 0

theorem RiskManager.totalExposure_eq_worth (r : RiskManager) (s : StateStore) :
    r.totalExposure s = s.worth r.markOr := rfl

theorem RiskManager.inventoryValue_eq_worth (r : RiskManager) (s : StateStore) :
    r.inventoryValue s = s.worth fun tok pos => r.marks.getD tok pos.avgPrice := rfl

theorem held_mul (x p : ℚ) : (if 0 < x then x * p else 0) = max 0 x * p := by
  split_ifs with h
  · rw [max_eq_right h.le]
  · rw [max_eq_left (not_lt.1 h), zero_mul]

/-- **Overwriting**: the old position goes out of the sum and the new one comes in. -/
theorem worth_set {s s' : StateStore} {tok : TokenId} {pos : Position}
    (h : s'.positions = s.positions.set tok pos) (price : TokenId → Position → ℚ) :
    s'.worth price + max 0 (s.position tok).size * price tok (s.position tok) =
      s.worth price + max 0 pos.size * price tok pos := by
  have hset := Dict.sum_set (fun tok pos => if 0 < pos.size then pos.size * price tok pos else 0)
    s.positions tok pos
  have hold : (s.positions.get? tok).elim 0
      (fun pos => if 0 < pos.size then pos.size * price tok pos else 0) =
        max 0 (s.position tok).size * price tok (s.position tok) := by
    unfold StateStore.position Dict.getD
    cases s.positions.get? tok with
    | none => simp [Position.flat]
    | some pos => rw [Option.elim_some, Option.getD_some, held_mul]
  rw [hold, held_mul] at hset
  unfold StateStore.worth
  rw [h]
  exact hset

end Polymaker
