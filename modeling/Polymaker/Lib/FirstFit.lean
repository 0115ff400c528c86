import Mathlib.Data.List.Forall2
import Mathlib.Data.List.Nodup
import Mathlib.Tactic.Common

/-!
# First-fit assignment

Requests are served one after the other from a stock; each takes the first item that fits it and
was not taken before, or goes without.

* `pick`, `assign`: the choice for one request, and the assignment of a list of them;
* `used`, `unmet`: the items taken, and the requests that went without;
* `mem_assign_some`, `mem_used`: what is taken fits, and was not taken before;
* `assign_congr`: requests of one class see the items of that class alone;
* `assign_refill`: replace what was not taken by one fitting item for each unmet request, and the
  same requests take the same items and the new ones in turn;
* `met_iff_of_keys`: where no two requests and no two items share a key, everything is assigned
  exactly when every request has an item that fits;
* `filter_assign`: the requests of one key are served as if there were no others;
* `assign_rel`: related items, of which the ids are renamed and fit the same requests, are assigned
  alike.
-/

namespace FirstFit

variable {α β ι κ : Type*} [DecidableEq ι]
variable (fits : α → β → Prop) [∀ a b, Decidable (fits a b)] (idOf : β → ι)

/-- The first item that fits and is not taken. -/
def pick (stock : List β) (taken : List ι) (a : α) : Option β :=
  stock.find? fun b => decide (idOf b ∉ taken ∧ fits a b)

/-- Each request with the item it takes. -/
def assign (stock : List β) : List ι → List α → List (α × Option β)
  | _, [] => []
  | taken, a :: as =>
    match pick fits idOf stock taken a with
    | some b => (a, some b) :: assign stock (idOf b :: taken) as
    | none => (a, none) :: assign stock taken as

/-- The items taken. -/
def used (l : List (α × Option β)) : List β := l.filterMap Prod.snd

/-- The requests that went without. -/
def unmet (l : List (α × Option β)) : List α := (l.filter fun x => x.2.isNone).map Prod.fst

/-- Give the unmet requests the items `new`, in turn. -/
def refill : List (α × Option β) → List β → List (α × Option β)
  | [], _ => []
  | (a, some b) :: l, new => (a, some b) :: refill l new
  | (a, none) :: l, n :: new => (a, some n) :: refill l new
  | (a, none) :: l, [] => (a, none) :: refill l []

variable {fits idOf}

@[simp] theorem used_nil : used ([] : List (α × Option β)) = [] := rfl

@[simp] theorem used_cons_some (a : α) (b : β) (l : List (α × Option β)) :
    used ((a, some b) :: l) = b :: used l := rfl

@[simp] theorem used_cons_none (a : α) (l : List (α × Option β)) :
    used ((a, none) :: l) = used l := rfl

@[simp] theorem unmet_nil : unmet ([] : List (α × Option β)) = [] := rfl

@[simp] theorem unmet_cons_some (a : α) (b : β) (l : List (α × Option β)) :
    unmet ((a, some b) :: l) = unmet l := by simp [unmet]

@[simp] theorem unmet_cons_none (a : α) (l : List (α × Option β)) :
    unmet ((a, none) :: l) = a :: unmet l := by simp [unmet]

theorem mem_used {l : List (α × Option β)} {b : β} : b ∈ used l ↔ ∃ a, (a, some b) ∈ l := by
  unfold used
  rw [List.mem_filterMap]
  constructor
  · rintro ⟨⟨a, c⟩, hmem, rfl⟩
    exact ⟨a, hmem⟩
  · rintro ⟨a, hmem⟩
    exact ⟨(a, some b), hmem, rfl⟩

/-- They keep the order of the requests. -/
theorem unmet_sublist (l : List (α × Option β)) : List.Sublist (unmet l) (l.map Prod.fst) :=
  List.filter_sublist.map _

theorem mem_unmet {l : List (α × Option β)} {a : α} : a ∈ unmet l ↔ (a, none) ∈ l := by
  unfold unmet
  rw [List.mem_map]
  constructor
  · rintro ⟨⟨a', c⟩, hmem, rfl⟩
    obtain ⟨hmem, hnone⟩ := List.mem_filter.1 hmem
    obtain rfl : c = none := Option.isNone_iff_eq_none.1 hnone
    exact hmem
  · intro hmem
    exact ⟨(a, none), List.mem_filter.2 ⟨hmem, rfl⟩, rfl⟩

/-! ### One request -/

theorem pick_eq_some {stock : List β} {taken : List ι} {a : α} {b : β}
    (h : pick fits idOf stock taken a = some b) : b ∈ stock ∧ idOf b ∉ taken ∧ fits a b := by
  have hp := List.find?_some h
  exact ⟨List.mem_of_find?_eq_some h, by simpa using hp⟩

theorem pick_eq_none {stock : List β} {taken : List ι} {a : α} :
    pick fits idOf stock taken a = none ↔ ∀ b ∈ stock, idOf b ∉ taken → ¬ fits a b := by
  unfold pick
  rw [List.find?_eq_none]
  simp

/-- A request sees the items of its class alone. -/
theorem pick_filter {stock : List β} {taken : List ι} {a : α} {p : β → Bool}
    (hp : ∀ b, fits a b → p b = true) :
    pick fits idOf (stock.filter p) taken a = pick fits idOf stock taken a := by
  unfold pick
  rw [List.find?_filter]
  congr 1
  funext b
  rw [Bool.eq_iff_iff]
  simp only [decide_eq_true_eq]
  exact ⟨fun h => h.2, fun h => ⟨hp b h.2, h⟩⟩

/-- The first item that fits is still the first among those that stay. -/
theorem pick_filter_of_some {stock : List β} {taken : List ι} {a : α} {b : β} {p : β → Bool}
    (h : pick fits idOf stock taken a = some b) (hb : p b = true) :
    pick fits idOf (stock.filter p) taken a = some b := by
  unfold pick at h ⊢
  obtain ⟨hfit, before, after, rfl, hbefore⟩ := List.find?_eq_some_iff_append.1 h
  refine List.find?_eq_some_iff_append.2
    ⟨hfit, before.filter p, after.filter p, ?_, fun c hc => hbefore c (List.mem_filter.1 hc).1⟩
  rw [List.filter_append, List.filter_cons_of_pos hb]

theorem pick_congr_taken {stock : List β} {taken taken' : List ι} (a : α)
    (h : ∀ b ∈ stock, idOf b ∈ taken' ↔ idOf b ∈ taken) :
    pick fits idOf stock taken' a = pick fits idOf stock taken a := by
  unfold pick
  induction stock with
  | nil => rfl
  | cons b stock ih =>
    obtain ⟨hb, hstock⟩ := List.forall_mem_cons.1 h
    simp only [List.find?_cons, hb, ih hstock]

/-! ### The assignment -/

@[simp] theorem assign_nil (stock : List β) (taken : List ι) :
    assign fits idOf stock taken [] = [] := rfl

theorem assign_cons_some {stock : List β} {taken : List ι} {a : α} {as : List α} {b : β}
    (h : pick fits idOf stock taken a = some b) :
    assign fits idOf stock taken (a :: as) =
      (a, some b) :: assign fits idOf stock (idOf b :: taken) as := by
  rw [assign, h]

theorem assign_cons_none {stock : List β} {taken : List ι} {a : α} {as : List α}
    (h : pick fits idOf stock taken a = none) :
    assign fits idOf stock taken (a :: as) = (a, none) :: assign fits idOf stock taken as := by
  rw [assign, h]

@[simp] theorem map_fst_assign (stock : List β) (taken : List ι) (as : List α) :
    (assign fits idOf stock taken as).map Prod.fst = as := by
  induction as generalizing taken with
  | nil => rfl
  | cons a as ih =>
    cases h : pick fits idOf stock taken a with
    | none => rw [assign_cons_none h, List.map_cons, ih]
    | some b => rw [assign_cons_some h, List.map_cons, ih]

/-- The entries of an assignment are its requests. -/
theorem mem_requests {stock : List β} {taken : List ι} {as : List α} {a : α} {x : Option β}
    (h : (a, x) ∈ assign fits idOf stock taken as) : a ∈ as := by
  have hmem := List.mem_map_of_mem (f := Prod.fst) h
  rwa [map_fst_assign] at hmem

variable (fits idOf) in
theorem exists_entry (stock : List β) (taken : List ι) {as : List α} {a : α} (h : a ∈ as) :
    ∃ x, (a, x) ∈ assign fits idOf stock taken as := by
  have hmap : (assign fits idOf stock taken as).map Prod.fst = as := map_fst_assign stock taken as
  rw [← hmap] at h
  obtain ⟨⟨a', x⟩, hmem, rfl⟩ := List.mem_map.1 h
  exact ⟨x, hmem⟩

/-- What is taken fits, and was free. -/
theorem mem_assign_some {stock : List β} {taken : List ι} {as : List α} {a : α} {b : β}
    (h : (a, some b) ∈ assign fits idOf stock taken as) :
    b ∈ stock ∧ idOf b ∉ taken ∧ fits a b := by
  induction as generalizing taken with
  | nil => exact absurd h List.not_mem_nil
  | cons a' as ih =>
    cases hpick : pick fits idOf stock taken a' with
    | none =>
      rw [assign_cons_none hpick] at h
      rcases List.mem_cons.1 h with h | h
      · simp at h
      · exact ih h
    | some b' =>
      rw [assign_cons_some hpick] at h
      rcases List.mem_cons.1 h with h | h
      · obtain ⟨rfl, hb⟩ := Prod.mk.inj h
        obtain rfl := Option.some.inj hb
        exact pick_eq_some hpick
      · obtain ⟨hmem, hfree, hfit⟩ := ih h
        exact ⟨hmem, fun hin => hfree (List.mem_cons_of_mem _ hin), hfit⟩

/-- Requests that see the same items, each in its own class, are served alike. -/
theorem assign_congr {stock stock' : List β} {as : List α} {c : α → β → Bool}
    (hc : ∀ a b, fits a b → c a b = true)
    (h : ∀ a ∈ as, stock.filter (c a) = stock'.filter (c a)) (taken : List ι) :
    assign fits idOf stock taken as = assign fits idOf stock' taken as := by
  induction as generalizing taken with
  | nil => rfl
  | cons a as ih =>
    obtain ⟨ha, has⟩ := List.forall_mem_cons.1 h
    have hpick : pick fits idOf stock taken a = pick fits idOf stock' taken a := by
      rw [← pick_filter (hc a), ha, pick_filter (hc a)]
    cases hp : pick fits idOf stock' taken a with
    | none => rw [assign_cons_none (hpick.trans hp), assign_cons_none hp, ih has]
    | some b => rw [assign_cons_some (hpick.trans hp), assign_cons_some hp, ih has]

/-! ### Refilling the stock -/

/-- The stock after a first assignment: the items that stay, the new items already taken again, and
those that are not. -/
theorem assign_refill_aux {stock : List β} {stays : β → Bool} {as : List α}
    {taken taken' : List ι} {again new : List β}
    (hstays : ∀ b ∈ used (assign fits idOf stock taken as), stays b = true)
    (hnew : List.Forall₂ fits (unmet (assign fits idOf stock taken as)) new)
    (htaken : ∀ b ∈ stock, idOf b ∈ taken' ↔ idOf b ∈ taken)
    (hagain : ∀ b ∈ again, idOf b ∈ taken') (hfree : ∀ b ∈ new, idOf b ∉ taken')
    (hfresh : ∀ b ∈ new, ∀ c ∈ stock, idOf b ≠ idOf c) (hnd : (new.map idOf).Nodup) :
    assign fits idOf (stock.filter stays ++ (again ++ new)) taken' as =
      refill (assign fits idOf stock taken as) new := by
  induction as generalizing taken taken' again new with
  | nil => rfl
  | cons a as ih =>
    cases hpick : pick fits idOf stock taken a with
    | some b =>
      rw [assign_cons_some hpick] at hstays hnew ⊢
      rw [used_cons_some, List.forall_mem_cons] at hstays
      rw [unmet_cons_some] at hnew
      obtain ⟨hb, -, -⟩ := pick_eq_some hpick
      -- the item taken before comes before every new one
      have hpick' : pick fits idOf (stock.filter stays ++ (again ++ new)) taken' a = some b := by
        have hkept := pick_filter_of_some ((pick_congr_taken a htaken).trans hpick) hstays.1
        unfold pick at hkept ⊢
        rw [List.find?_append, hkept, Option.some_or]
      rw [assign_cons_some hpick', refill]
      congr 1
      refine ih hstays.2 hnew ?_ (fun c hc => List.mem_cons_of_mem _ (hagain c hc)) ?_ hfresh hnd
      · intro c hc
        rw [List.mem_cons, List.mem_cons, htaken c hc]
      · intro c hc hin
        rcases List.mem_cons.1 hin with hin | hin
        · exact hfresh c hc b hb hin
        · exact hfree c hc hin
    | none =>
      rw [assign_cons_none hpick] at hstays hnew ⊢
      rw [used_cons_none] at hstays
      rw [unmet_cons_none] at hnew
      cases hnew with
      | @cons _ n _ new hfit hnew =>
        obtain ⟨hn, hfree⟩ := List.forall_mem_cons.1 hfree
        obtain ⟨hfreshn, hfresh⟩ := List.forall_mem_cons.1 hfresh
        rw [List.map_cons, List.nodup_cons] at hnd
        -- nothing that stays fits, and the new item of this request is the first one free
        have hpick' : pick fits idOf (stock.filter stays ++ (again ++ n :: new)) taken' a =
            some n := by
          have hold : (stock.filter stays).find?
              (fun b => decide (idOf b ∉ taken' ∧ fits a b)) = none := by
            refine pick_eq_none.2 fun b hb hfree' => ?_
            have hmem := (List.mem_filter.1 hb).1
            exact pick_eq_none.1 hpick b hmem ((htaken b hmem).not.1 hfree')
          have hbusy : again.find? (fun b => decide (idOf b ∉ taken' ∧ fits a b)) = none :=
            pick_eq_none.2 fun b hb hfree' => absurd (hagain b hb) hfree'
          unfold pick
          rw [List.find?_append, hold, Option.none_or, List.find?_append, hbusy, Option.none_or,
            List.find?_cons_of_pos (by simpa using ⟨hn, hfit⟩)]
        rw [assign_cons_some hpick', refill]
        congr 1
        have hstock : stock.filter stays ++ (again ++ n :: new) =
            stock.filter stays ++ ((again ++ [n]) ++ new) := by simp
        rw [hstock]
        refine ih hstays hnew ?_ ?_ ?_ hfresh hnd.2
        · intro c hc
          rw [List.mem_cons, htaken c hc, or_iff_right (Ne.symm (hfreshn c hc))]
        · intro c hc
          rcases List.mem_append.1 hc with hc | hc
          · exact List.mem_cons_of_mem _ (hagain c hc)
          · rw [List.mem_singleton.1 hc]; exact List.mem_cons_self
        · intro c hc hin
          rcases List.mem_cons.1 hin with hin | hin
          · exact hnd.1 (hin ▸ List.mem_map_of_mem hc)
          · exact hfree c hc hin

/-- **Refilling.**  Keep at least what was taken, and add one new item for each unmet request, in
their order: the requests take what they took and the new items. -/
theorem assign_refill {stock : List β} {stays : β → Bool} {as : List α} {new : List β}
    (hstays : ∀ b ∈ used (assign fits idOf stock [] as), stays b = true)
    (hnew : List.Forall₂ fits (unmet (assign fits idOf stock [] as)) new)
    (hfresh : ∀ b ∈ new, ∀ c ∈ stock, idOf b ≠ idOf c) (hnd : (new.map idOf).Nodup) :
    assign fits idOf (stock.filter stays ++ new) [] as =
      refill (assign fits idOf stock [] as) new := by
  have hnone : ∀ b ∈ ([] : List β), idOf b ∈ ([] : List ι) := fun _ hb =>
    absurd hb List.not_mem_nil
  have h := assign_refill_aux hstays hnew (fun _ _ => Iff.rfl) hnone
    (fun _ _ => List.not_mem_nil) hfresh hnd
  rwa [List.nil_append] at h

theorem unmet_refill {l : List (α × Option β)} {new : List β} {r : α → β → Prop}
    (h : List.Forall₂ r (unmet l) new) : unmet (refill l new) = [] := by
  induction l generalizing new with
  | nil => rfl
  | cons x l ih =>
    obtain ⟨a, _ | b⟩ := x
    · rw [unmet_cons_none] at h
      cases h with
      | cons _ h => rw [refill, unmet_cons_some, ih h]
    · rw [unmet_cons_some] at h
      rw [refill, unmet_cons_some, ih h]

theorem mem_used_refill {l : List (α × Option β)} {new : List β} {r : α → β → Prop}
    (h : List.Forall₂ r (unmet l) new) {b : β} :
    b ∈ used (refill l new) ↔ b ∈ used l ∨ b ∈ new := by
  induction l generalizing new with
  | nil =>
    cases h
    simp [refill]
  | cons x l ih =>
    obtain ⟨a, _ | b'⟩ := x
    · rw [unmet_cons_none] at h
      cases h with
      | cons _ h =>
        rw [refill, used_cons_some, used_cons_none, List.mem_cons, List.mem_cons, ih h]
        exact or_left_comm
    · rw [unmet_cons_some] at h
      rw [refill, used_cons_some, used_cons_some, List.mem_cons, List.mem_cons, ih h, or_assoc]

/-- The keys of the items, in the order of the requests they refill. -/
theorem map_used_refill {keyA : α → κ} {keyB : β → κ} {l : List (α × Option β)} {new : List β}
    (hold : ∀ a b, (a, some b) ∈ l → keyA a = keyB b)
    (hnew : List.Forall₂ (fun a b => keyA a = keyB b) (unmet l) new) :
    (used (refill l new)).map keyB = (l.map Prod.fst).map keyA := by
  induction l generalizing new with
  | nil => rfl
  | cons x l ih =>
    have htail : ∀ a b, (a, some b) ∈ l → keyA a = keyB b := fun a b h =>
      hold a b (List.mem_cons_of_mem _ h)
    obtain ⟨a, _ | b⟩ := x
    · rw [unmet_cons_none] at hnew
      cases hnew with
      | cons hkey hnew =>
        rw [refill, used_cons_some, List.map_cons, List.map_cons, List.map_cons, ih htail hnew,
          hkey]
    · rw [unmet_cons_some] at hnew
      rw [refill, used_cons_some, List.map_cons, List.map_cons, List.map_cons, ih htail hnew,
        hold a b List.mem_cons_self]

theorem exists_of_mem_right {r : α → β → Prop} {as : List α} {bs : List β}
    (h : List.Forall₂ r as bs) {b : β} (hb : b ∈ bs) : ∃ a ∈ as, r a b := by
  induction h with
  | nil => exact absurd hb List.not_mem_nil
  | @cons a b' as bs hr _ ih =>
    rcases List.mem_cons.1 hb with rfl | hb
    · exact ⟨a, List.mem_cons_self, hr⟩
    · obtain ⟨a', ha', hr'⟩ := ih hb
      exact ⟨a', List.mem_cons_of_mem _ ha', hr'⟩

/-! ### Distinct keys -/

section Keys

variable {keyA : α → κ} {keyB : β → κ} {stock : List β}

/-- Every item taken is one of the stock, and fits its request. -/
theorem exists_fits_of_met {as : List α}
    (hmet : unmet (assign fits idOf stock [] as) = []) {a : α} (ha : a ∈ as) :
    ∃ b ∈ stock, fits a b := by
  obtain ⟨_ | b, hmem⟩ := exists_entry fits idOf stock [] ha
  · have hin := mem_unmet.2 hmem
    rw [hmet] at hin
    exact absurd hin List.not_mem_nil
  · obtain ⟨hb, -, hfit⟩ := mem_assign_some hmem
    exact ⟨b, hb, hfit⟩

/-- A request whose item fits is met, when nobody else has its key. -/
theorem met_of_keys (hkey : ∀ a b, fits a b → keyA a = keyB b)
    (hid : (stock.map idOf).Nodup) {as : List α} {taken : List ι} (hnd : (as.map keyA).Nodup)
    (hfit : ∀ a ∈ as, ∃ b ∈ stock, fits a b)
    (htaken : ∀ b ∈ stock, idOf b ∈ taken → keyB b ∉ as.map keyA) :
    unmet (assign fits idOf stock taken as) = [] := by
  induction as generalizing taken with
  | nil => rfl
  | cons a as ih =>
    obtain ⟨⟨b, hb, hab⟩, hfit⟩ := List.forall_mem_cons.1 hfit
    rw [List.map_cons, List.nodup_cons] at hnd
    cases hpick : pick fits idOf stock taken a with
    | none =>
      refine absurd hab (pick_eq_none.1 hpick b hb fun hin => htaken b hb hin ?_)
      rw [← hkey a b hab]
      exact List.mem_map_of_mem List.mem_cons_self
    | some c =>
      obtain ⟨hc, -, hac⟩ := pick_eq_some hpick
      rw [assign_cons_some hpick, unmet_cons_some]
      refine ih hnd.2 hfit fun d hd hin => ?_
      rcases List.mem_cons.1 hin with hin | hin
      · -- the item just taken has the key of its request
        obtain rfl := List.inj_on_of_nodup_map hid hd hc hin
        rw [← hkey a d hac]
        exact hnd.1
      · exact fun hmem => htaken d hd hin (List.mem_cons_of_mem _ hmem)

/-- **Distinct keys.**  Where ids are distinct, and no two requests and no two items share a key,
every request is met and every item is taken exactly when each has a partner that fits. -/
theorem met_iff_of_keys (hkey : ∀ a b, fits a b → keyA a = keyB b)
    (hid : (stock.map idOf).Nodup) {as : List α} (hndA : (as.map keyA).Nodup)
    (hndB : (stock.map keyB).Nodup) :
    (unmet (assign fits idOf stock [] as) = [] ∧
        ∀ b ∈ stock, idOf b ∈ (used (assign fits idOf stock [] as)).map idOf) ↔
      (∀ a ∈ as, ∃ b ∈ stock, fits a b) ∧ ∀ b ∈ stock, ∃ a ∈ as, fits a b := by
  constructor
  · rintro ⟨hmet, hall⟩
    refine ⟨fun a ha => exists_fits_of_met hmet ha, fun b hb => ?_⟩
    obtain ⟨c, hc, hid'⟩ := List.mem_map.1 (hall b hb)
    obtain ⟨a, hmem⟩ := mem_used.1 hc
    obtain ⟨hcs, -, hfit⟩ := mem_assign_some hmem
    obtain rfl := List.inj_on_of_nodup_map hid hcs hb hid'
    exact ⟨a, mem_requests hmem, hfit⟩
  · rintro ⟨hfit, hall⟩
    have hmet : unmet (assign fits idOf stock [] as) = [] :=
      met_of_keys hkey hid hndA hfit fun _ _ hin => absurd hin List.not_mem_nil
    refine ⟨hmet, fun b hb => ?_⟩
    obtain ⟨a, ha, hab⟩ := hall b hb
    -- the item its request took has its key, so it is this one
    obtain ⟨_ | c, hmem⟩ := exists_entry fits idOf stock [] ha
    · have hin := mem_unmet.2 hmem
      rw [hmet] at hin
      exact absurd hin List.not_mem_nil
    · obtain ⟨hc, -, hac⟩ := mem_assign_some hmem
      have hkeys : keyB c = keyB b := (hkey _ _ hac).symm.trans (hkey _ _ hab)
      obtain rfl := List.inj_on_of_nodup_map hndB hc hb hkeys
      exact List.mem_map_of_mem (mem_used.2 ⟨_, hmem⟩)

/-! ### One key -/

variable [DecidableEq κ]

/-- **The requests of one key** are served as if there were no others. -/
theorem filter_assign (hkey : ∀ a b, fits a b → keyA a = keyB b) (hid : (stock.map idOf).Nodup)
    {k : κ} (as : List α) {taken taken' : List ι}
    (htaken : ∀ b ∈ stock, keyB b = k → (idOf b ∈ taken' ↔ idOf b ∈ taken)) :
    (assign fits idOf stock taken as).filter (fun x => decide (keyA x.1 = k)) =
      assign fits idOf stock taken' (as.filter fun a => decide (keyA a = k)) := by
  induction as generalizing taken taken' with
  | nil => rfl
  | cons a as ih =>
    by_cases hk : keyA a = k
    · -- both sides see the items of the key alone
      have hpick : pick fits idOf stock taken' a = pick fits idOf stock taken a := by
        have hclass : ∀ b, fits a b → decide (keyB b = k) = true := fun b hfit =>
          decide_eq_true ((hkey a b hfit).symm.trans hk)
        have hseen : ∀ taken : List ι, pick fits idOf (stock.filter fun b => decide (keyB b = k))
            taken a = pick fits idOf stock taken a := fun _ => pick_filter hclass
        rw [← hseen taken', ← hseen taken]
        refine pick_congr_taken a fun b hb => ?_
        obtain ⟨hmem, hb⟩ := List.mem_filter.1 hb
        exact htaken b hmem (of_decide_eq_true hb)
      have hkeep : decide (keyA a = k) = true := decide_eq_true hk
      simp only [List.filter_cons, hkeep, if_true]
      cases hp : pick fits idOf stock taken a with
      | none =>
        rw [assign_cons_none hp, assign_cons_none (hpick.trans hp)]
        simp only [List.filter_cons, hkeep, if_true, ih htaken]
      | some c =>
        rw [assign_cons_some hp, assign_cons_some (hpick.trans hp)]
        simp only [List.filter_cons, hkeep, if_true]
        rw [ih]
        intro b hb hbk
        rw [List.mem_cons, List.mem_cons, htaken b hb hbk]
    · have hdrop : decide (keyA a = k) = false := decide_eq_false hk
      simp only [List.filter_cons, hdrop, Bool.false_eq_true, if_false]
      cases hp : pick fits idOf stock taken a with
      | none =>
        rw [assign_cons_none hp]
        simp only [List.filter_cons, hdrop, Bool.false_eq_true, if_false, ih htaken]
      | some c =>
        obtain ⟨hc, -, hac⟩ := pick_eq_some hp
        rw [assign_cons_some hp]
        simp only [List.filter_cons, hdrop, Bool.false_eq_true, if_false]
        refine ih fun b hb hbk => ?_
        -- what is taken for another key does not matter
        have hother : idOf b ≠ idOf c := fun heq => by
          obtain rfl := List.inj_on_of_nodup_map hid hb hc heq
          exact hk ((hkey a b hac).trans hbk)
        rw [List.mem_cons, or_iff_right hother, htaken b hb hbk]

/-- The items of one key that are taken are those its requests take. -/
theorem filter_used {l : List (α × Option β)} (hold : ∀ a b, (a, some b) ∈ l → keyA a = keyB b)
    (k : κ) : (used l).filter (fun b => decide (keyB b = k)) =
      used (l.filter fun x => decide (keyA x.1 = k)) := by
  induction l with
  | nil => rfl
  | cons x l ih =>
    have htail := ih fun a b h => hold a b (List.mem_cons_of_mem _ h)
    obtain ⟨a, _ | b⟩ := x
    · by_cases hk : keyA a = k <;> simp [hk, htail]
    · have hab := hold a b List.mem_cons_self
      by_cases hk : keyB b = k <;> simp [hab, hk, htail]

theorem filter_unmet (l : List (α × Option β)) (k : κ) :
    (unmet l).filter (fun a => decide (keyA a = k)) =
      unmet (l.filter fun x => decide (keyA x.1 = k)) := by
  induction l with
  | nil => rfl
  | cons x l ih =>
    obtain ⟨a, _ | b⟩ := x <;> by_cases hk : keyA a = k <;> simp [hk, ih]

end Keys

/-! ### Renamed items -/

section Related

variable {β' ι' : Type*} [DecidableEq ι'] {fits' : α → β' → Prop}
  [∀ a b, Decidable (fits' a b)] {idOf' : β' → ι'} {R : β → β' → Prop} {S : ι → ι' → Prop}

/-- Related items are picked for a request, or none on both sides. -/
theorem pick_rel (hS : Relator.BiUnique S) (hid : ∀ b b', R b b' → S (idOf b) (idOf' b'))
    (hfit : ∀ a b b', R b b' → (fits a b ↔ fits' a b')) {stock : List β} {stock' : List β'}
    (hstock : List.Forall₂ R stock stock') {taken : List ι} {taken' : List ι'}
    (htaken : List.Forall₂ S taken taken') (a : α) :
    Option.Rel R (pick fits idOf stock taken a) (pick fits' idOf' stock' taken' a) := by
  unfold pick
  induction hstock with
  | nil => exact .none
  | @cons b b' stock stock' hb _ ih =>
    have hmem : idOf b ∈ taken ↔ idOf' b' ∈ taken' := List.rel_mem hS (hid b b' hb) htaken
    have hsame : decide (idOf b ∉ taken ∧ fits a b) = decide (idOf' b' ∉ taken' ∧ fits' a b') := by
      rw [decide_eq_decide, hmem, hfit a b b' hb]
    rw [List.find?_cons, List.find?_cons, hsame]
    split
    · exact .some hb
    · exact ih

theorem assign_rel (hS : Relator.BiUnique S) (hid : ∀ b b', R b b' → S (idOf b) (idOf' b'))
    (hfit : ∀ a b b', R b b' → (fits a b ↔ fits' a b')) {stock : List β} {stock' : List β'}
    (hstock : List.Forall₂ R stock stock') {taken : List ι} {taken' : List ι'}
    (htaken : List.Forall₂ S taken taken') (as : List α) :
    List.Forall₂ (fun x y => x.1 = y.1 ∧ Option.Rel R x.2 y.2)
      (assign fits idOf stock taken as) (assign fits' idOf' stock' taken' as) := by
  induction as generalizing taken taken' with
  | nil => exact .nil
  | cons a as ih =>
    have hpick := pick_rel hS hid hfit hstock htaken a
    unfold assign
    generalize pick fits idOf stock taken a = x at hpick
    generalize pick fits' idOf' stock' taken' a = y at hpick
    cases hpick with
    | none => exact .cons ⟨rfl, .none⟩ (ih htaken)
    | some hb => exact .cons ⟨rfl, .some hb⟩ (ih (.cons (hid _ _ hb) htaken))

variable {l : List (α × Option β)} {l' : List (α × Option β')}

theorem used_rel (h : List.Forall₂ (fun x y => x.1 = y.1 ∧ Option.Rel R x.2 y.2) l l') :
    List.Forall₂ R (used l) (used l') := by
  induction h with
  | nil => exact .nil
  | @cons x y l l' hxy _ ih =>
    obtain ⟨a, b⟩ := x
    obtain ⟨a', b'⟩ := y
    obtain ⟨rfl, hb⟩ := hxy
    cases hb with
    | none => exact ih
    | some hb => exact .cons hb ih

theorem unmet_rel (h : List.Forall₂ (fun x y => x.1 = y.1 ∧ Option.Rel R x.2 y.2) l l') :
    unmet l = unmet l' := by
  induction h with
  | nil => rfl
  | @cons x y l l' hxy _ ih =>
    obtain ⟨a, b⟩ := x
    obtain ⟨a', b'⟩ := y
    obtain ⟨rfl, hb⟩ := hxy
    cases hb with
    | none => rw [unmet_cons_none, unmet_cons_none, ih]
    | some hb => rw [unmet_cons_some, unmet_cons_some, ih]

end Related

end FirstFit
