import Mathlib.Data.Fintype.Card
import Mathlib.Data.Fin.Basic
import Mathlib.Data.List.FinRange
import Mathlib.Tactic.Common
import Polymaker.Lib.FirstFit

/-!
# Matchings

Requests matched to items they are related to, no item to two requests.

* `Matching`, `size`: a matching, and the number of requests that have an item;
* `ReachedIn`, `Improvable`: an alternating chain starts at a request without an item and goes on
  from an item that would do to the request that has it; a matching is improvable where a chain
  comes to an item nobody has;
* `isLargest_iff`: a matching is a largest one exactly when it is not improvable;
* `FirstCome`: no request passes over an item that is listed before its own, unless an earlier
  request has it.  There is one such matching at most (`FirstCome.item_eq`), and where requests do
  not compete for an item it is a largest one (`FirstCome.not_improvable`); which kinds of items it
  leaves (`FirstCome.not_of_reserved`, `FirstCome.exists_before`);
* `FirstFit.matching`, `FirstFit.firstCome_matching`: the first-fit assignment is the one.
-/

/-- A matching of requests to items they are related to. -/
@[ext] structure Matching {α β : Type*} (r : α → β → Prop) where
  item : α → Option β
  rel : ∀ {a b}, item a = some b → r a b
  inj : ∀ {a a' b}, item a = some b → item a' = some b → a = a'

namespace Matching

variable {α β : Type*} {r : α → β → Prop}

/-- A chain of `n` steps comes to a request: it starts at a request without an item, and each step
goes from an item that would do to the request that has it. -/
def ReachedIn (m : Matching r) : ℕ → α → Prop
  | 0, a => m.item a = none
  | n + 1, a => ∃ a' b, m.ReachedIn n a' ∧ r a' b ∧ m.item a = some b

/-- A chain comes to an item nobody has. -/
def Improvable (m : Matching r) : Prop :=
  ∃ n a b, m.ReachedIn n a ∧ r a b ∧ ∀ a', m.item a' ≠ some b

/-- Where every request has an item, no chain starts. -/
theorem not_improvable_of_served {m : Matching r} (h : ∀ a, m.item a ≠ none) : ¬ m.Improvable := by
  have hnone : ∀ n a, ¬ m.ReachedIn n a := by
    intro n
    induction n with
    | zero => exact h
    | succ n ih => exact fun a ⟨a', b, hreach, _⟩ => ih a' hreach
  rintro ⟨n, a, b, hreach, -⟩
  exact hnone n a hreach

/-! ### Size -/

section Size

variable [Fintype α]

/-- The requests that have an item. -/
def served (m : Matching r) : Finset α := Finset.univ.filter fun a => (m.item a).isSome

/-- The number of requests that have an item. -/
def size (m : Matching r) : ℕ := m.served.card

theorem mem_served {m : Matching r} {a : α} : a ∈ m.served ↔ ∃ b, m.item a = some b := by
  unfold served
  rw [Finset.mem_filter, Option.isSome_iff_exists]
  exact and_iff_right (Finset.mem_univ a)

theorem not_mem_served {m : Matching r} {a : α} : a ∉ m.served ↔ m.item a = none := by
  rw [mem_served, ← Option.isSome_iff_exists, Option.not_isSome_iff_eq_none]

/-- Where no chain comes to an item nobody has, every request another matching serves has a request
of its own that this one serves: itself where no chain comes to it, and otherwise the one that has
its item. -/
theorem size_le_of_not_improvable {m : Matching r} (h : ¬ m.Improvable) (m' : Matching r) :
    m'.size ≤ m.size := by
  have hstand : ∀ a ∈ m'.served, ∃ a', a' ∈ m.served ∧
      ((∀ n, ¬ m.ReachedIn n a) ∧ a' = a ∨
        (∃ n, m.ReachedIn n a') ∧ ∃ b, m'.item a = some b ∧ m.item a' = some b) := by
    intro a ha
    by_cases hreach : ∃ n, m.ReachedIn n a
    · obtain ⟨n, hn⟩ := hreach
      obtain ⟨b, hb⟩ := mem_served.1 ha
      obtain ⟨a', ha'⟩ : ∃ a', m.item a' = some b := by
        by_contra hfree
        exact h ⟨n, a, b, hn, m'.rel hb, not_exists.1 hfree⟩
      exact ⟨a', mem_served.2 ⟨b, ha'⟩, .inr ⟨⟨n + 1, a, b, hn, m'.rel hb, ha'⟩, b, hb, ha'⟩⟩
    · have hout := not_exists.1 hreach
      refine ⟨a, ?_, .inl ⟨hout, rfl⟩⟩
      by_contra hbare
      exact hout 0 (not_mem_served.1 hbare)
  choose! stand hserved hcases using hstand
  refine Finset.card_le_card_of_injOn stand hserved fun a ha a' ha' heq => ?_
  rcases hcases a ha with ⟨hout, hstand⟩ | ⟨⟨n, hn⟩, b, hb, hmb⟩ <;>
    rcases hcases a' ha' with ⟨hout', hstand'⟩ | ⟨⟨n', hn'⟩, b', hb', hmb'⟩
  · rw [← hstand, heq, hstand']
  · rw [← heq, hstand] at hn'
    exact absurd hn' (hout n')
  · rw [heq, hstand'] at hn
    exact absurd hn (hout' n)
  · -- both stand-ins are the request that has the item
    rw [heq, hmb'] at hmb
    obtain rfl := Option.some.inj hmb
    exact m'.inj hb hb'

end Size

/-! ### Rewiring -/

section Rewiring

variable [DecidableEq α]

/-- Give a request an item nobody has, in place of the one it may have had. -/
def rewire (m : Matching r) (a : α) (b : β) (hrel : r a b) (hfree : ∀ a', m.item a' ≠ some b) :
    Matching r where
  item := Function.update m.item a (some b)
  rel {a' b'} h := by
    rcases eq_or_ne a' a with rfl | hne
    · rw [Function.update_self] at h
      exact Option.some.inj h ▸ hrel
    · rw [Function.update_of_ne hne] at h
      exact m.rel h
  inj {a₁ a₂ b'} h₁ h₂ := by
    by_cases heq₁ : a₁ = a <;> by_cases heq₂ : a₂ = a
    · rw [heq₁, heq₂]
    · rw [heq₁, Function.update_self] at h₁
      rw [Function.update_of_ne heq₂, ← h₁] at h₂
      exact absurd h₂ (hfree a₂)
    · rw [heq₂, Function.update_self] at h₂
      rw [Function.update_of_ne heq₁, ← h₂] at h₁
      exact absurd h₁ (hfree a₁)
    · rw [Function.update_of_ne heq₁] at h₁
      rw [Function.update_of_ne heq₂] at h₂
      exact m.inj h₁ h₂

variable {m : Matching r} {a : α} {b : β} {hrel : r a b} {hfree : ∀ a', m.item a' ≠ some b}

@[simp] theorem rewire_item_self : (m.rewire a b hrel hfree).item a = some b :=
  Function.update_self ..

theorem rewire_item_of_ne {a' : α} (h : a' ≠ a) :
    (m.rewire a b hrel hfree).item a' = m.item a' := Function.update_of_ne h ..

/-- A chain that does not come to the rewired request is still one. -/
theorem ReachedIn.rewire {n : ℕ} {a' : α} (hout : ∀ k ≤ n, ¬ m.ReachedIn k a)
    (h : m.ReachedIn n a') : (m.rewire a b hrel hfree).ReachedIn n a' := by
  have hne : a' ≠ a := by
    rintro rfl
    exact hout n (le_refl n) h
  induction n generalizing a' with
  | zero => exact (rewire_item_of_ne hne).trans h
  | succ n ih =>
    obtain ⟨a₁, b₁, hreach, hrel₁, hitem⟩ := h
    have hout' : ∀ k ≤ n, ¬ m.ReachedIn k a := fun k hk => hout k (Nat.le_succ_of_le hk)
    have hne₁ : a₁ ≠ a := by
      rintro rfl
      exact hout' n (le_refl n) hreach
    exact ⟨a₁, b₁, ih hout' hreach hne₁, hrel₁, (rewire_item_of_ne hne).trans hitem⟩

variable [Fintype α]

/-- A request without an item is one more served. -/
theorem served_rewire : (m.rewire a b hrel hfree).served = insert a m.served := by
  ext a'
  rw [Finset.mem_insert, mem_served, mem_served]
  rcases eq_or_ne a' a with rfl | hne
  · simp
  · rw [rewire_item_of_ne hne, or_iff_right hne]

theorem size_rewire_of_none (h : m.item a = none) :
    (m.rewire a b hrel hfree).size = m.size + 1 := by
  unfold size
  rw [served_rewire, Finset.card_insert_of_notMem (not_mem_served.2 h)]

theorem size_rewire_of_some {b' : β} (h : m.item a = some b') :
    (m.rewire a b hrel hfree).size = m.size := by
  unfold size
  rw [served_rewire, Finset.insert_eq_of_mem (mem_served.2 ⟨b', h⟩)]

/-- Along a chain to an item nobody has, each request takes the item the chain goes on from, the
last one first. -/
theorem exists_larger {n : ℕ} : ∀ {m : Matching r} {a : α} {b : β}, m.ReachedIn n a → r a b →
    (∀ a', m.item a' ≠ some b) → ∃ m' : Matching r, m.size < m'.size := by
  induction n using Nat.strong_induction_on with
  | _ n ih =>
    intro m a b hreach hrel hfree
    -- the shortest chain to the request does not pass through it before its end
    by_cases hshort : ∃ k < n, m.ReachedIn k a
    · obtain ⟨k, hk, hreach'⟩ := hshort
      exact ih k hk hreach' hrel hfree
    · cases n with
      | zero => exact ⟨m.rewire a b hrel hfree, by rw [size_rewire_of_none hreach]; omega⟩
      | succ n =>
        obtain ⟨a₁, b₁, hreach₁, hrel₁, hitem⟩ := hreach
        have hout : ∀ k ≤ n, ¬ m.ReachedIn k a := fun k hk hk' =>
          hshort ⟨k, Nat.lt_succ_of_le hk, hk'⟩
        have hfree₁ : ∀ a', (m.rewire a b hrel hfree).item a' ≠ some b₁ := by
          intro a' h
          rcases eq_or_ne a' a with rfl | hne
          · rw [rewire_item_self] at h
            exact hfree a' (h ▸ hitem)
          · rw [rewire_item_of_ne hne] at h
            exact hne (m.inj h hitem)
        obtain ⟨m', hm'⟩ := ih n (Nat.lt_succ_self n) (hreach₁.rewire hout) hrel₁ hfree₁
        exact ⟨m', by rwa [size_rewire_of_some hitem] at hm'⟩

/-- **A matching is a largest one** exactly when no chain leads from a request without an item to an
item nobody has. -/
theorem isLargest_iff {m : Matching r} :
    (∀ m' : Matching r, m'.size ≤ m.size) ↔ ¬ m.Improvable := by
  constructor
  · rintro h ⟨n, a, b, hreach, hrel, hfree⟩
    obtain ⟨m', hm'⟩ := exists_larger hreach hrel hfree
    exact (h m').not_gt hm'
  · exact size_le_of_not_improvable

end Rewiring

/-! ### First come, first served -/

section FirstCome

variable [LinearOrder α]

/-- A request passes over no item that is listed before its own, or no item at all where it has
none, unless an earlier request has it. -/
def FirstCome (before : β → β → Prop) (m : Matching r) : Prop :=
  ∀ a b, r a b → (∀ b', m.item a = some b' → before b b') → ∃ a' < a, m.item a' = some b

variable {before : β → β → Prop} {m m' : Matching r}

/-- An item a request has here, and no earlier request there, is the request's there. -/
theorem FirstCome.not_before (h : m'.FirstCome before) {a : α}
    (hagree : ∀ a' < a, m.item a' = m'.item a') {b : β} (hb : m.item a = some b) :
    ∃ b', m'.item a = some b' ∧ ¬ before b b' := by
  by_contra hnone
  obtain ⟨a', ha', hitem⟩ := h a b (m.rel hb) fun b' hb' => by
    by_contra hbefore
    exact hnone ⟨b', hb', hbefore⟩
  rw [← hagree a' ha'] at hitem
  exact ha'.ne (m.inj hitem hb)

/-- Serving first come, first served leaves no choice. -/
theorem FirstCome.item_eq [WellFoundedLT α] (htotal : ∀ a a' b b', r a b → r a' b' →
    before b b' ∨ b = b' ∨ before b' b) (h : m.FirstCome before) (h' : m'.FirstCome before)
    (a : α) : m.item a = m'.item a := by
  induction a using WellFoundedLT.induction with
  | _ a ih =>
    have hsym : ∀ a' < a, m'.item a' = m.item a' := fun a' ha' => (ih a' ha').symm
    cases hb : m.item a with
    | none =>
      cases hb' : m'.item a with
      | none => rfl
      | some b' =>
        obtain ⟨b, hitem, -⟩ := h.not_before hsym hb'
        rw [hb] at hitem
        cases hitem
    | some b =>
      obtain ⟨b', hb', hnot⟩ := h'.not_before ih hb
      obtain ⟨b₁, hb₁, hnot'⟩ := h.not_before hsym hb'
      obtain rfl : b = b₁ := Option.some.inj (hb.symm.trans hb₁)
      rcases htotal a a b b' (m.rel hb) (m'.rel hb') with hbefore | rfl | hbefore
      · exact absurd hbefore hnot
      · exact hb'.symm
      · exact absurd hbefore hnot'

/-- Where each item of a kind that a request could have is listed after one that it alone could
have, no request has an item of the kind. -/
theorem FirstCome.not_of_reserved (h : m.FirstCome before) (kind : β → Prop)
    (hreserved : ∀ a b, r a b → kind b → ∃ b', before b' b ∧ r a b' ∧ ∀ a', r a' b' → a' = a)
    {a : α} {b : β} (hitem : m.item a = some b) : ¬ kind b := by
  intro hkind
  obtain ⟨b', hbefore, hrel, halone⟩ := hreserved a b (m.rel hitem) hkind
  obtain ⟨a', ha', hitem'⟩ := h a b' hrel fun b'' hb'' => by
    obtain rfl := Option.some.inj (hitem.symm.trans hb'')
    exact hbefore
  exact ha'.ne (halone a' (m.rel hitem'))

/-- Where no request has an item of a kind, each that a request could have is listed after another
one that it could have. -/
theorem FirstCome.exists_before (htotal : ∀ a b b', r a b → r a b' →
    before b b' ∨ b = b' ∨ before b' b) (h : m.FirstCome before) (kind : β → Prop)
    (hnone : ∀ a b, m.item a = some b → ¬ kind b) {a : α} {b : β} (hrel : r a b) (hkind : kind b) :
    ∃ b', before b' b ∧ r a b' ∧ ¬ kind b' := by
  by_contra hno
  obtain ⟨a', -, hitem⟩ := h a b hrel fun b' hb' => by
    rcases htotal a b b' hrel (m.rel hb') with hbefore | rfl | hbefore
    · exact hbefore
    · exact absurd hkind (hnone a b hb')
    · exact absurd ⟨b', hbefore, m.rel hb', hnone a b' hb'⟩ hno
  exact hnone a' b hitem hkind

/-- Requests that do not compete for an item are served as well as can be. -/
theorem FirstCome.not_improvable (h : m.FirstCome before)
    (hapart : ∀ a a' b, r a b → r a' b → a = a') : ¬ m.Improvable := by
  -- a chain does not leave the request it starts at
  have hbare : ∀ n a, m.ReachedIn n a → m.item a = none := by
    intro n
    induction n with
    | zero => exact fun a ha => ha
    | succ n ih =>
      rintro a ⟨a', b, ha', hrel, hitem⟩
      obtain rfl := hapart a' a b hrel (m.rel hitem)
      exact ih a' ha'
  rintro ⟨n, a, b, hreach, hrel, hfree⟩
  obtain ⟨a', -, ha'⟩ := h a b hrel fun b' hb' => by
    rw [hbare n a hreach] at hb'
    cases hb'
  exact hfree a' ha'

end FirstCome

end Matching

/-! ### First fit -/

namespace FirstFit

open Matching

variable {α β ι : Type*} [DecidableEq ι] {fits : α → β → Prop} [∀ a b, Decidable (fits a b)]
  {idOf : β → ι}

/-- A request picks where it stands: what the requests before it took is taken. -/
theorem exists_pick_of_getElem? {stock : List β} {taken : List ι} {as : List α} {k : ℕ} {a : α}
    {x : Option β} (h : (assign fits idOf stock taken as)[k]? = some (a, x)) :
    ∃ taken', (∀ i, i ∈ taken' ↔ i ∈ taken ∨ ∃ j < k, ∃ a' b,
        (assign fits idOf stock taken as)[j]? = some (a', some b) ∧ idOf b = i) ∧
      x = pick fits idOf stock taken' a := by
  induction as generalizing taken k with
  | nil => simp at h
  | cons a₀ as ih =>
    -- what the first request leaves taken
    obtain ⟨taken₀, hassign, htaken₀⟩ : ∃ taken₀,
        assign fits idOf stock taken (a₀ :: as) =
          (a₀, pick fits idOf stock taken a₀) :: assign fits idOf stock taken₀ as ∧
        ∀ i, i ∈ taken₀ ↔ i ∈ taken ∨ ∃ b, pick fits idOf stock taken a₀ = some b ∧ idOf b = i := by
      cases hpick : pick fits idOf stock taken a₀ with
      | none => exact ⟨taken, assign_cons_none hpick, by simp⟩
      | some b =>
        refine ⟨idOf b :: taken, assign_cons_some hpick, fun i => ?_⟩
        simp only [List.mem_cons, Option.some.injEq, exists_eq_left']
        rw [or_comm, eq_comm]
    rw [hassign] at h ⊢
    cases k with
    | zero =>
      rw [List.getElem?_cons_zero, Option.some.injEq, Prod.mk.injEq] at h
      obtain ⟨rfl, rfl⟩ := h
      exact ⟨taken, fun i => by simp, rfl⟩
    | succ k =>
      rw [List.getElem?_cons_succ] at h
      obtain ⟨taken', htaken', hx⟩ := ih h
      refine ⟨taken', fun i => ?_, hx⟩
      rw [htaken' i, htaken₀ i, or_assoc]
      refine or_congr_right ⟨?_, ?_⟩
      · rintro (⟨b, hb, hi⟩ | ⟨j, hj, a', b, hget, hi⟩)
        · exact ⟨0, Nat.succ_pos k, a₀, b, by rw [List.getElem?_cons_zero, hb], hi⟩
        · exact ⟨j + 1, Nat.succ_lt_succ hj, a', b, by rw [List.getElem?_cons_succ, hget], hi⟩
      · rintro ⟨j, hj, a', b, hget, hi⟩
        cases j with
        | zero =>
          rw [List.getElem?_cons_zero, Option.some.injEq, Prod.mk.injEq] at hget
          exact .inl ⟨b, hget.2, hi⟩
        | succ j =>
          rw [List.getElem?_cons_succ] at hget
          exact .inr ⟨j, Nat.lt_of_succ_lt_succ hj, a', b, hget, hi⟩

variable (fits idOf) in
theorem exists_getElem?_assign (stock : List β) (taken : List ι) (as : List α)
    (k : Fin as.length) : ∃ x, (assign fits idOf stock taken as)[k.1]? = some (as.get k, x) := by
  have hmap : (assign fits idOf stock taken as).map Prod.fst = as := map_fst_assign stock taken as
  have hget : ((assign fits idOf stock taken as).map Prod.fst)[k.1]? = some (as.get k) := by
    rw [hmap]
    exact List.getElem?_eq_getElem k.2
  rw [List.getElem?_map, Option.map_eq_some_iff] at hget
  obtain ⟨⟨a, x⟩, hx, rfl⟩ := hget
  exact ⟨x, hx⟩

variable (fits idOf) in
/-- The first-fit assignment of a list of requests, by their places. -/
def matching (stock : List β) (as : List α) :
    Matching fun (k : Fin as.length) b => b ∈ stock ∧ fits (as.get k) b where
  item k := ((assign fits idOf stock [] as)[k.1]?).bind Prod.snd
  rel {k b} h := by
    obtain ⟨x, hx⟩ := exists_getElem?_assign fits idOf stock [] as k
    rw [hx, Option.bind_some] at h
    obtain rfl : x = some b := h
    obtain ⟨hmem, -, hfit⟩ := mem_assign_some (List.mem_of_getElem? hx)
    exact ⟨hmem, hfit⟩
  inj {k k' b} h h' := by
    obtain ⟨x, hx⟩ := exists_getElem?_assign fits idOf stock [] as k
    obtain ⟨x', hx'⟩ := exists_getElem?_assign fits idOf stock [] as k'
    rw [hx, Option.bind_some] at h
    rw [hx', Option.bind_some] at h'
    obtain rfl : x = some b := h
    obtain rfl : x' = some b := h'
    -- the later of the two could not have picked the item
    have hlt : ∀ {i j : Fin as.length} {a a' : α},
        (assign fits idOf stock [] as)[i.1]? = some (a, some b) →
        (assign fits idOf stock [] as)[j.1]? = some (a', some b) → ¬ i < j := by
      intro i j a a' hi hj hij
      obtain ⟨taken, htaken, hpick⟩ := exists_pick_of_getElem? hj
      exact (pick_eq_some hpick.symm).2.1 ((htaken _).2 (.inr ⟨i.1, hij, a, b, hi, rfl⟩))
    exact le_antisymm (not_lt.1 (hlt hx' hx)) (not_lt.1 (hlt hx hx'))

theorem matching_item_eq_some {stock : List β} {as : List α} {k : Fin as.length} {x : Option β} :
    (matching fits idOf stock as).item k = x ↔
      (assign fits idOf stock [] as)[k.1]? = some (as.get k, x) := by
  obtain ⟨x', hx'⟩ := exists_getElem?_assign fits idOf stock [] as k
  have hitem : (matching fits idOf stock as).item k = x' := by
    change ((assign fits idOf stock [] as)[k.1]?).bind Prod.snd = x'
    rw [hx', Option.bind_some]
  rw [hitem, hx', Option.some.injEq, Prod.mk.injEq]
  exact (and_iff_right rfl).symm

/-- The assignment lists the requests with what the matching gives them. -/
theorem map_matching (stock : List β) (as : List α) :
    (List.finRange as.length).map (fun k => (as.get k, (matching fits idOf stock as).item k)) =
      assign fits idOf stock [] as := by
  have hlen : (assign fits idOf stock [] as).length = as.length := by
    have hmap : (assign fits idOf stock [] as).map Prod.fst = as := map_fst_assign stock [] as
    rw [← List.length_map (f := Prod.fst), hmap]
  refine List.ext_getElem (by rw [List.length_map, List.length_finRange, hlen]) fun k h₁ h₂ => ?_
  rw [List.getElem_map, List.getElem_finRange]
  have hget := matching_item_eq_some.1
    (rfl : (matching fits idOf stock as).item ⟨k, hlen ▸ h₂⟩ = _)
  rw [List.getElem?_eq_getElem h₂, Option.some.injEq] at hget
  exact hget.symm

/-- An item that fits and is listed before the one a request takes is taken by an earlier
request. -/
theorem firstCome_matching [DecidableEq β] {stock : List β} (hid : (stock.map idOf).Nodup)
    (as : List α) :
    (matching fits idOf stock as).FirstCome fun b b' => stock.idxOf b < stock.idxOf b' := by
  rintro k b ⟨hmem, hfit⟩ hpassed
  obtain ⟨x, hx⟩ := exists_getElem?_assign fits idOf stock [] as k
  obtain ⟨taken, htaken, hpick⟩ := exists_pick_of_getElem? hx
  have hin : idOf b ∈ taken := by
    cases x with
    | none =>
      by_contra hfree
      exact pick_eq_none.1 hpick.symm b hmem hfree hfit
    | some b' =>
      have hlt := hpassed b' (matching_item_eq_some.2 hx)
      by_contra hfree
      obtain ⟨-, i, hi, hget, hbefore⟩ := List.find?_eq_some_iff_getElem.1 hpick.symm
      have hplace : stock.idxOf b' = i := by
        rw [← hget]
        exact List.get_idxOf hid.of_map ⟨i, hi⟩
      have hnot := hbefore (stock.idxOf b) (hplace ▸ hlt)
      rw [List.getElem_idxOf] at hnot
      have htaken' : idOf b ∈ taken ∨ ¬ fits (as.get k) b := by simpa using hnot
      exact htaken'.elim hfree (absurd hfit)
  obtain ⟨j, hj, a', b', hget, hid'⟩ := ((htaken _).1 hin).resolve_left List.not_mem_nil
  have hj' : j < as.length := hj.trans k.2
  obtain ⟨x', hx'⟩ := exists_getElem?_assign fits idOf stock [] as ⟨j, hj'⟩
  obtain ⟨-, rfl⟩ : as.get ⟨j, hj'⟩ = a' ∧ x' = some b' := by
    simpa using hx'.symm.trans hget
  have hb' := (mem_assign_some (List.mem_of_getElem? hget)).1
  obtain rfl := List.inj_on_of_nodup_map hid hb' hmem hid'
  exact ⟨⟨j, hj'⟩, hj, matching_item_eq_some.2 hx'⟩

end FirstFit
