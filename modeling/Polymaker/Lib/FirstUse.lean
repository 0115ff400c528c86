import Mathlib.Data.List.Nodup
import Mathlib.Tactic.Common

/-!
# Deduplication by first use of a key

A stream of deliveries, each a payload under a key, and a consumer that accepts a delivery when its
key is new.

* `firsts seen ds`: the deliveries that are accepted when the keys `seen` are taken;
* `owner ds k`: the payload of the first delivery under the key `k`;
* `count_firsts_eq_one_iff`: a payload is accepted exactly once if and only if it owns exactly one
  key.
-/

namespace FirstUse

variable {α κ : Type*} [DecidableEq κ]

/-- The deliveries accepted when the keys `seen` are taken. -/
def firsts (seen : List κ) : List (α × κ) → List (α × κ)
  | [] => []
  | d :: ds => if d.2 ∈ seen then firsts seen ds else d :: firsts (d.2 :: seen) ds

/-- The payload of the first delivery under a key. -/
def owner : List (α × κ) → κ → Option α
  | [], _ => none
  | d :: ds, k => if d.2 = k then some d.1 else owner ds k

theorem mem_firsts_iff {seen : List κ} {ds : List (α × κ)} {d : α × κ} :
    d ∈ firsts seen ds ↔ d.2 ∉ seen ∧ owner ds d.2 = some d.1 := by
  induction ds generalizing seen with
  | nil => simp [firsts, owner]
  | cons c ds ih =>
    unfold firsts owner
    by_cases hc : c.2 ∈ seen
    · rw [if_pos hc, ih]
      constructor
      · rintro ⟨hd, ho⟩
        have hne : c.2 ≠ d.2 := fun h => hd (h ▸ hc)
        exact ⟨hd, by rw [if_neg hne, ho]⟩
      · rintro ⟨hd, ho⟩
        have hne : c.2 ≠ d.2 := fun h => hd (h ▸ hc)
        rw [if_neg hne] at ho
        exact ⟨hd, ho⟩
    · rw [if_neg hc, List.mem_cons, ih, List.mem_cons]
      by_cases hcd : c.2 = d.2
      · rw [if_pos hcd]
        constructor
        · rintro (rfl | ⟨hd, -⟩)
          · exact ⟨hc, rfl⟩
          · exact absurd (.inl hcd.symm) hd
        · rintro ⟨-, h⟩
          exact .inl (Prod.ext (Option.some.inj h).symm hcd.symm)
      · rw [if_neg hcd]
        constructor
        · rintro (rfl | ⟨hd, ho⟩)
          · exact absurd rfl hcd
          · exact ⟨fun h => hd (.inr h), ho⟩
        · rintro ⟨hd, ho⟩
          refine .inr ⟨?_, ho⟩
          rintro (h | h)
          · exact hcd h.symm
          · exact hd h

theorem nodup_firsts (seen : List κ) (ds : List (α × κ)) :
    ((firsts seen ds).map Prod.snd).Nodup := by
  induction ds generalizing seen with
  | nil => exact List.nodup_nil
  | cons c ds ih =>
    unfold firsts
    split_ifs
    · exact ih seen
    · refine List.nodup_cons.2 ⟨fun h => ?_, ih _⟩
      obtain ⟨d, hd, hcd⟩ := List.mem_map.1 h
      exact (mem_firsts_iff.1 hd).1 (hcd ▸ List.mem_cons_self)

omit [DecidableEq κ] in
/-- Among deliveries under distinct keys, a payload occurs once when it has exactly one key. -/
theorem length_filter_eq_one_iff {l : List (α × κ)} (h : (l.map Prod.snd).Nodup) [DecidableEq α]
    (a : α) : (l.filter fun d => decide (d.1 = a)).length = 1 ↔ ∃! k, (a, k) ∈ l := by
  rw [List.length_eq_one_iff]
  constructor
  · rintro ⟨d, hd⟩
    have hmem : ∀ k, (a, k) ∈ l ↔ (a, k) = d := by
      intro k
      have hk : (a, k) ∈ l.filter (fun d => decide (d.1 = a)) ↔ (a, k) ∈ [d] := by rw [hd]
      simpa using hk
    have hda : d.1 = a := by
      have hd' : d ∈ l.filter fun d => decide (d.1 = a) := by rw [hd]; exact List.mem_singleton_self d
      simpa using (List.mem_filter.1 hd').2
    refine ⟨d.2, (hmem d.2).2 (Prod.ext hda.symm rfl), fun k hk => ?_⟩
    rw [← (hmem k).1 hk]
  · rintro ⟨k, hk, huniq⟩
    refine ⟨(a, k), ?_⟩
    have hnd : (l.filter fun d => decide (d.1 = a)).Nodup := (List.Nodup.of_map _ h).filter _
    refine List.perm_singleton.1 ((List.perm_ext_iff_of_nodup hnd (List.nodup_singleton _)).2 ?_)
    rintro ⟨b, j⟩
    simp only [List.mem_filter, decide_eq_true_eq, List.mem_singleton, Prod.mk.injEq]
    constructor
    · rintro ⟨hb, rfl⟩
      exact ⟨rfl, huniq j hb⟩
    · rintro ⟨rfl, rfl⟩
      exact ⟨hk, rfl⟩

/-- A payload is accepted exactly once if and only if it owns exactly one key. -/
theorem count_firsts_eq_one_iff [DecidableEq α] (ds : List (α × κ)) (a : α) :
    ((firsts [] ds).filter fun d => decide (d.1 = a)).length = 1 ↔ ∃! k, owner ds k = some a := by
  rw [length_filter_eq_one_iff (nodup_firsts [] ds)]
  have hmem : ∀ k, (a, k) ∈ firsts [] ds ↔ owner ds k = some a := by
    intro k
    rw [mem_firsts_iff]
    simp
  simp only [hmem]

end FirstUse
