import Mathlib.Data.List.TakeDrop
import Mathlib.Tactic.Common

/-!
# Walking along a cursor

A listing is served page by page; a page and its own cursor give the cursor of the next one, or end
the listing.  The reader asks for so many pages at most, and fails where a request does.

* `walk`: the pages it gets;
* `next`, `walk_offset`: where the cursor is an offset into a fixed listing, and every page but the
  last is full, the rows are those of the listing, in order and each once.
-/

namespace Cursor

variable {κ π ρ : Type*}

section Walk

variable (serve : κ → Option π) (next : κ → π → Option κ)

/-- At most so many pages, from a cursor on. -/
def walk : ℕ → κ → Option (List π)
  | 0, _ => some []
  | n + 1, k =>
    (serve k).bind fun p =>
      match next k p with
      | none => some [p]
      | some k' => (walk n k').map (p :: ·)

end Walk

section Offset

/-- The offset after a page: a short one is the last. -/
def next (limit : ℕ) (offset : ℕ) (page : List ρ) : Option ℕ :=
  if page.length < limit then none else some (offset + limit)

/-- **Reading a fixed listing**: its rows from the offset on, as many as fit into the pages. -/
theorem walk_offset {serve : ℕ → Option (List ρ)} {limit : ℕ} {listing : List ρ}
    (hserve : ∀ offset, serve offset = some ((listing.drop offset).take limit)) (n offset : ℕ) :
    (walk serve (next limit) n offset).map List.flatten =
      some ((listing.drop offset).take (limit * n)) := by
  induction n generalizing offset with
  | zero => simp [walk]
  | succ n ih =>
    have htake : (listing.drop offset).take (limit * (n + 1)) =
        (listing.drop offset).take limit ++ (listing.drop (offset + limit)).take (limit * n) := by
      rw [Nat.mul_succ, Nat.add_comm, List.take_add, List.drop_drop]
    unfold walk
    rw [hserve, Option.bind_some, htake]
    unfold next
    split_ifs with hshort
    · -- the listing ends in this page
      rw [List.length_take, List.length_drop] at hshort
      have hend : listing.drop (offset + limit) = [] := List.drop_eq_nil_of_le (by omega)
      simp [hend]
    · change ((walk serve (next limit) n (offset + limit)).map _).map _ = _
      have hrest := ih (offset + limit)
      obtain ⟨pages, hpages, hflat⟩ := Option.map_eq_some_iff.1 hrest
      rw [hpages, ← hflat]
      rfl

end Offset

end Cursor
