import Mathlib.Tactic.Common

/-!
# Reading a listing page by page

A listing is served in pages; each says whether there is another one.  The reader goes through them
with a state, up to a limit, and stops at the first page it cannot use.

* `read`: the reader;
* `Listing`: the rows of a listing that ends within the limit;
* `Reaches`: the pages the reader gets to;
* `read_eq_ok_iff`, `read_eq_error_iff`: the reader succeeds exactly on the listings, by folding
  their rows, and fails with an error of its step exactly where it reaches a page that gives it.
-/

namespace Paging

variable {π ρ σ ε : Type*}

section Read

variable (step : σ → π → Except ε (σ × Bool)) (capped : ε) (serve : ℕ → π)

/-- Read at most `n` pages from the page `k` on; `capped` is the error when there are more. -/
def read : ℕ → ℕ → σ → Except ε σ
  | 0, _, _ => .error capped
  | n + 1, k, s =>
    match step s (serve k) with
    | .error e => .error e
    | .ok (s', true) => read n (k + 1) s'
    | .ok (s', false) => .ok s'

end Read

section Listing

variable (page : π → List ρ → Bool → Prop) (serve : ℕ → π)

/-- The pages from `k` on, at most `n` of them, are a listing with these rows. -/
inductive Listing : ℕ → ℕ → List ρ → Prop
  | last {n k : ℕ} {rows : List ρ} (hpage : page (serve k) rows false) : Listing (n + 1) k rows
  | more {n k : ℕ} {rows rest : List ρ} (hpage : page (serve k) rows true)
      (hrest : Listing n (k + 1) rest) : Listing (n + 1) k (rows ++ rest)

/-- From the page `k` on, at most `n` pages further, the page `j` is asked for. -/
inductive Reaches : ℕ → ℕ → ℕ → Prop
  | here {n k : ℕ} : Reaches (n + 1) k k
  | more {n k j : ℕ} {rows : List ρ} (hpage : page (serve k) rows true)
      (hrest : Reaches n (k + 1) j) : Reaches (n + 1) k j

end Listing

variable {page page' : π → List ρ → Bool → Prop} {serve : ℕ → π} {n k j : ℕ} {rows rows' : List ρ}

theorem Listing.mono (himp : ∀ p rows more, page p rows more → page' p rows more)
    (h : Listing page serve n k rows) : Listing page' serve n k rows := by
  induction h with
  | last hpage => exact .last (himp _ _ _ hpage)
  | more hpage _ ih => exact .more (himp _ _ _ hpage) ih

/-- If a page is one page only, a listing has one list of rows. -/
theorem Listing.unique
    (hfun : ∀ p rows rows' more more', page p rows more → page p rows' more' →
      rows = rows' ∧ more = more')
    (h : Listing page serve n k rows) (h' : Listing page serve n k rows') : rows = rows' := by
  induction h generalizing rows' with
  | last hpage =>
    cases h' with
    | last hpage' => exact (hfun _ _ _ _ _ hpage hpage').1
    | more hpage' _ => cases (hfun _ _ _ _ _ hpage hpage').2
  | more hpage _ ih =>
    cases h' with
    | last hpage' => cases (hfun _ _ _ _ _ hpage hpage').2
    | more hpage' hrest' => rw [(hfun _ _ _ _ _ hpage hpage').1, ih hrest']

section Read

variable {step : σ → π → Except ε (σ × Bool)} {capped : ε} {record : σ → ρ → σ}

/-- A reader whose step folds the rows of a page succeeds exactly on the listings. -/
theorem read_eq_ok_iff
    (hstep : ∀ s p s' more, step s p = .ok (s', more) ↔
      ∃ rows, page p rows more ∧ s' = rows.foldl record s)
    (s s' : σ) : read step capped serve n k s = .ok s' ↔
      ∃ rows, Listing page serve n k rows ∧ s' = rows.foldl record s := by
  induction n generalizing k s with
  | zero =>
    refine iff_of_false (by simp [read]) ?_
    rintro ⟨rows, h, -⟩
    cases h
  | succ n ih =>
    unfold read
    constructor
    · intro h
      split at h
      · cases h
      · rename_i s₁ hs₁
        obtain ⟨rows, hpage, rfl⟩ := (hstep _ _ _ _).1 hs₁
        obtain ⟨rest, hrest, rfl⟩ := (ih _).1 h
        exact ⟨rows ++ rest, .more hpage hrest, (List.foldl_append).symm⟩
      · rename_i s₁ hs₁
        obtain ⟨rows, hpage, hs⟩ := (hstep _ _ _ _).1 hs₁
        exact ⟨rows, .last hpage, (Except.ok.inj h) ▸ hs⟩
    · rintro ⟨rows, h, rfl⟩
      cases h with
      | last hpage => rw [(hstep s (serve k) _ false).2 ⟨rows, hpage, rfl⟩]
      | @more _ _ rows rest hpage hrest =>
        rw [(hstep s (serve k) _ true).2 ⟨rows, hpage, rfl⟩]
        exact (ih _).2 ⟨rest, hrest, List.foldl_append⟩

/-- It fails with an error of its step exactly where it reaches a page that gives the error. -/
theorem read_eq_error_iff {e : ε} {bad : π → Prop} (he : e ≠ capped)
    (hstep : ∀ s p s' more, step s p = .ok (s', more) ↔
      ∃ rows, page p rows more ∧ s' = rows.foldl record s)
    (hbad : ∀ s p, step s p = .error e ↔ bad p)
    (s : σ) : read step capped serve n k s = .error e ↔
      ∃ j, Reaches page serve n k j ∧ bad (serve j) := by
  induction n generalizing k s with
  | zero =>
    refine iff_of_false (fun h => he (Except.error.inj h).symm) ?_
    rintro ⟨j, h, -⟩
    cases h
  | succ n ih =>
    unfold read
    constructor
    · intro h
      split at h
      · rename_i e' he'
        obtain rfl := Except.error.inj h
        exact ⟨k, .here, (hbad _ _).1 he'⟩
      · rename_i s₁ hs₁
        obtain ⟨rows, hpage, rfl⟩ := (hstep _ _ _ _).1 hs₁
        obtain ⟨j, hreach, hj⟩ := (ih _).1 h
        exact ⟨j, .more hpage hreach, hj⟩
      · cases h
    · rintro ⟨j, h, hj⟩
      cases h with
      | here => rw [(hbad s (serve k)).2 hj]
      | more hpage hrest =>
        rw [(hstep s (serve k) _ true).2 ⟨_, hpage, rfl⟩]
        exact (ih _).2 ⟨j, hrest, hj⟩

end Read

end Paging
