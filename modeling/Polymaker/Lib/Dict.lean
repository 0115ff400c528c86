import Mathlib.Data.List.Nodup
import Mathlib.Data.List.Lemmas
import Mathlib.Tactic.Common

/-!
# Dictionaries that remember insertion order

A `Dict κ α` is the observable content of an insertion-ordered dictionary: its entries, oldest
first, with every key once.  Key uniqueness is a field, so no operation can build a dictionary
that answers two ways for one key.

* `get?`, `getD`, `set`, `erase`, `replace`: lookup, assignment in place, deletion, and deletion
  followed by an append (what an SQL `INSERT OR REPLACE` does to a row);
* `filter`, `eraseAll`: the entries that satisfy a predicate, or whose key is not in a list;
* `get?_set`, `get?_erase`, `get?_replace`, `get?_filter`: lookup after each operation, the simp
  set the proofs about states built from dictionaries run on;
* `mem_entries_iff`, `mem_values_iff`: entries and values through lookup;
* `count_values_set_of_not_mem`, `count_values_erase`: how the number of keys with a value changes.
-/

/-- An insertion-ordered dictionary with distinct keys. -/
structure Dict (κ : Type*) (α : Type*) where
  entries : List (κ × α)
  nodup : (entries.map Prod.fst).Nodup

namespace Dict

variable {κ α β : Type*}

@[ext] theorem ext {d e : Dict κ α} (h : d.entries = e.entries) : d = e := by
  cases d; cases e; simpa using h

instance [DecidableEq κ] [DecidableEq α] : DecidableEq (Dict κ α) := fun d e =>
  decidable_of_iff (d.entries = e.entries) ⟨Dict.ext, congrArg entries⟩

/-- The empty dictionary. -/
def empty : Dict κ α := ⟨[], List.nodup_nil⟩

instance : Inhabited (Dict κ α) := ⟨empty⟩

/-- The keys, oldest first. -/
def keys (d : Dict κ α) : List κ := d.entries.map Prod.fst

/-- The values, oldest first. -/
def values (d : Dict κ α) : List α := d.entries.map Prod.snd

instance : Membership κ (Dict κ α) := ⟨fun d k => k ∈ d.keys⟩

theorem mem_def {d : Dict κ α} {k : κ} : k ∈ d ↔ k ∈ d.keys := Iff.rfl

instance [DecidableEq κ] (d : Dict κ α) (k : κ) : Decidable (k ∈ d) :=
  inferInstanceAs (Decidable (k ∈ d.keys))

variable [DecidableEq κ]

/-- The value stored under `k`. -/
def get? (d : Dict κ α) (k : κ) : Option α := d.entries.lookup k

/-- The value stored under `k`, or a default. -/
def getD (d : Dict κ α) (k : κ) (v : α) : α := (d.get? k).getD v

/-- The entries that satisfy a predicate. -/
def filter (d : Dict κ α) (p : κ → α → Bool) : Dict κ α :=
  ⟨d.entries.filter fun e => p e.1 e.2, d.nodup.sublist (List.filter_sublist.map _)⟩

/-- Delete `k`, if it is there. -/
def erase (d : Dict κ α) (k : κ) : Dict κ α := d.filter fun j _ => decide (j ≠ k)

theorem keys_update (l : List (κ × α)) (k : κ) (v : α) :
    (l.map fun e => if e.1 = k then (k, v) else e).map Prod.fst = l.map Prod.fst := by
  rw [List.map_map]
  refine List.map_congr_left fun e _ => ?_
  by_cases h : e.1 = k <;> simp [h]

/-- Store `v` under `k`: in place when the key is there, at the end when it is new. -/
def set (d : Dict κ α) (k : κ) (v : α) : Dict κ α :=
  if h : k ∈ d.keys then
    ⟨d.entries.map fun e => if e.1 = k then (k, v) else e, by rw [keys_update]; exact d.nodup⟩
  else
    ⟨d.entries ++ [(k, v)], by
      rw [List.map_append]
      exact d.nodup.append (List.nodup_singleton k)
        (by simpa [keys, List.disjoint_singleton] using h)⟩

/-- What is stored under a key that is there leaves the keys. -/
theorem keys_set_of_mem {d : Dict κ α} {k : κ} (h : k ∈ d.keys) (v : α) :
    (d.set k v).keys = d.keys := by
  unfold set
  rw [dif_pos h]
  exact keys_update d.entries k v

/-- Delete `k` and store `v` under it at the end. -/
def replace (d : Dict κ α) (k : κ) (v : α) : Dict κ α := (d.erase k).set k v

/-! ### Lookup -/

theorem lookup_cons_eq_ite (e : κ × α) (l : List (κ × α)) (k : κ) :
    (e :: l).lookup k = if k = e.1 then some e.2 else l.lookup k := by
  obtain ⟨j, v⟩ := e
  by_cases h : k = j
  · subst h; simp
  · have hk : (k == j) = false := beq_eq_false_iff_ne.2 h
    simp [List.lookup_cons, hk, h]

theorem lookup_isSome_iff (l : List (κ × α)) (k : κ) :
    (l.lookup k).isSome ↔ k ∈ l.map Prod.fst := by
  induction l with
  | nil => simp
  | cons e l ih =>
    rw [lookup_cons_eq_ite, List.map_cons, List.mem_cons]
    split_ifs with h
    · simp [h]
    · simp only [ih, h, false_or]

theorem mem_iff_isSome {d : Dict κ α} {k : κ} : k ∈ d ↔ (d.get? k).isSome :=
  (lookup_isSome_iff d.entries k).symm

theorem get?_eq_none_iff {d : Dict κ α} {k : κ} : d.get? k = none ↔ k ∉ d := by
  rw [mem_iff_isSome, Option.not_isSome_iff_eq_none]

theorem mem_of_get? {d : Dict κ α} {k : κ} {v : α} (h : d.get? k = some v) : k ∈ d :=
  mem_iff_isSome.2 (by simp [h])

theorem exists_get?_of_mem {d : Dict κ α} {k : κ} (h : k ∈ d) : ∃ v, d.get? k = some v :=
  Option.isSome_iff_exists.1 (mem_iff_isSome.1 h)

@[simp] theorem get?_empty (k : κ) : (empty : Dict κ α).get? k = none := rfl

omit [DecidableEq κ] in
@[simp] theorem not_mem_empty (k : κ) : k ∉ (empty : Dict κ α) := by simp [mem_def, keys, empty]

theorem lookup_filter_key (l : List (κ × α)) (k j : κ) :
    (l.filter fun e => decide (e.1 ≠ k)).lookup j = if j = k then none else l.lookup j := by
  induction l with
  | nil => simp
  | cons e l ih =>
    by_cases he : e.1 = k
    · rw [List.filter_cons_of_neg (by simpa using he), ih, lookup_cons_eq_ite, he]
      split_ifs <;> rfl
    · rw [List.filter_cons_of_pos (by simpa using he), lookup_cons_eq_ite, lookup_cons_eq_ite, ih]
      split_ifs with h1 h2 <;> first | rfl | exact absurd (h1.symm.trans h2) he

@[simp] theorem get?_erase (d : Dict κ α) (k j : κ) :
    (d.erase k).get? j = if j = k then none else d.get? j :=
  lookup_filter_key d.entries k j

theorem lookup_filter_of_nodup (p : κ → α → Bool) (l : List (κ × α)) (k : κ)
    (h : (l.map Prod.fst).Nodup) :
    (l.filter fun e => p e.1 e.2).lookup k = (l.lookup k).filter (p k) := by
  induction l with
  | nil => rfl
  | cons e l ih =>
    rw [List.map_cons, List.nodup_cons] at h
    have hl : k = e.1 → l.lookup k = none := by
      rintro rfl
      rw [← Option.not_isSome_iff_eq_none, lookup_isSome_iff]; exact h.1
    rw [lookup_cons_eq_ite, List.filter_cons]
    split_ifs with hp hk hk
    · rw [lookup_cons_eq_ite, if_pos hk, hk, Option.filter_some_pos hp]
    · rw [lookup_cons_eq_ite, if_neg hk, ih h.2]
    · rw [ih h.2, hl hk, hk, Option.filter_some_neg (by simpa using hp)]; rfl
    · exact ih h.2

@[simp] theorem get?_filter (d : Dict κ α) (p : κ → α → Bool) (k : κ) :
    (d.filter p).get? k = (d.get? k).filter (p k) :=
  lookup_filter_of_nodup p d.entries k d.nodup

theorem lookup_map_update (l : List (κ × α)) (k j : κ) (v : α) :
    (l.map fun e => if e.1 = k then (k, v) else e).lookup j =
      if j = k then (l.lookup j).map (fun _ => v) else l.lookup j := by
  induction l with
  | nil => simp
  | cons e l ih =>
    rw [List.map_cons, lookup_cons_eq_ite, lookup_cons_eq_ite, ih]
    by_cases he : e.1 = k
    · simp only [he]
      split_ifs <;> rfl
    · simp only [if_neg he]
      split_ifs <;> first | rfl | simp_all

theorem lookup_append_single (l : List (κ × α)) (k j : κ) (v : α) (h : k ∉ l.map Prod.fst) :
    (l ++ [(k, v)]).lookup j = if j = k then some v else l.lookup j := by
  induction l with
  | nil => rw [List.nil_append, lookup_cons_eq_ite]
  | cons e l ih =>
    simp only [List.map_cons, List.mem_cons, not_or] at h
    rw [List.cons_append, lookup_cons_eq_ite, lookup_cons_eq_ite, ih h.2]
    split_ifs with h1 h2 <;> first | rfl | exact absurd (h2.symm.trans h1) h.1

@[simp] theorem get?_set (d : Dict κ α) (k j : κ) (v : α) :
    (d.set k v).get? j = if j = k then some v else d.get? j := by
  unfold set get?
  split_ifs with hk hjk hjk
  · subst hjk
    obtain ⟨w, hw⟩ := exists_get?_of_mem (mem_def.2 hk)
    rw [lookup_map_update, if_pos rfl, show d.entries.lookup j = some w from hw]; rfl
  · rw [lookup_map_update, if_neg hjk]
  · subst hjk; rw [lookup_append_single _ _ _ _ hk, if_pos rfl]
  · rw [lookup_append_single _ _ _ _ hk, if_neg hjk]

@[simp] theorem get?_replace (d : Dict κ α) (k j : κ) (v : α) :
    (d.replace k v).get? j = if j = k then some v else d.get? j := by
  unfold replace
  by_cases h : j = k <;> simp [h]

@[simp] theorem mem_set {d : Dict κ α} {k j : κ} {v : α} : j ∈ d.set k v ↔ j = k ∨ j ∈ d := by
  rw [mem_iff_isSome, mem_iff_isSome, get?_set]
  by_cases h : j = k <;> simp [h]

@[simp] theorem mem_erase {d : Dict κ α} {k j : κ} : j ∈ d.erase k ↔ j ≠ k ∧ j ∈ d := by
  rw [mem_iff_isSome, mem_iff_isSome, get?_erase]
  by_cases h : j = k <;> simp [h]

@[simp] theorem getD_set (d : Dict κ α) (k j : κ) (v w : α) :
    (d.set k v).getD j w = if j = k then v else d.getD j w := by
  unfold getD
  by_cases h : j = k <;> simp [h]

@[simp] theorem getD_empty (k : κ) (w : α) : (empty : Dict κ α).getD k w = w := rfl

/-- Write the entries of a list, one after the other. -/
def setAll (d : Dict κ α) (es : List (κ × α)) : Dict κ α := es.foldl (fun d e => d.set e.1 e.2) d

/-- The last entry of a key counts. -/
theorem get?_setAll (d : Dict κ α) (es : List (κ × α)) (k : κ) :
    (d.setAll es).get? k = (es.reverse.lookup k).or (d.get? k) := by
  induction es generalizing d with
  | nil => simp [setAll]
  | cons e es ih =>
    rw [show d.setAll (e :: es) = (d.set e.1 e.2).setAll es from rfl, ih, get?_set,
      List.reverse_cons, List.lookup_append, Option.or_assoc, lookup_cons_eq_ite, List.lookup_nil]
    split_ifs <;> rfl

@[simp] theorem setAll_append (d : Dict κ α) (es fs : List (κ × α)) :
    d.setAll (es ++ fs) = (d.setAll es).setAll fs := List.foldl_append

theorem get?_setAll_empty_iff {es : List (κ × α)} {k : κ} {v : α} :
    (empty.setAll es).get? k = some v ↔
      ∃ before after, es = before ++ (k, v) :: after ∧ ∀ e ∈ after, e.1 ≠ k := by
  rw [get?_setAll, get?_empty, Option.or_none, List.lookup_eq_some_iff]
  constructor
  · rintro ⟨after, before, heq, hlast⟩
    refine ⟨before.reverse, after.reverse, ?_, fun e he => ?_⟩
    · rw [List.reverse_eq_iff.1 heq]
      simp
    · exact Ne.symm (bne_iff_ne.1 (hlast e (List.mem_reverse.1 he)))
  · rintro ⟨before, after, rfl, hlast⟩
    refine ⟨after.reverse, before.reverse, by simp, fun e he => ?_⟩
    exact bne_iff_ne.2 (Ne.symm (hlast e (List.mem_reverse.1 he)))

/-- A key that is written has a value that was written. -/
theorem exists_get?_setAll_of_mem {es : List (κ × α)} {k : κ} {v : α} (h : (k, v) ∈ es)
    (d : Dict κ α) : ∃ w, (k, w) ∈ es ∧ (d.setAll es).get? k = some w := by
  have hsome : (es.reverse.lookup k).isSome := by
    rw [lookup_isSome_iff, List.map_reverse, List.mem_reverse]
    exact List.mem_map_of_mem h
  obtain ⟨w, hlookup⟩ := Option.isSome_iff_exists.1 hsome
  obtain ⟨before, after, heq, -⟩ := List.lookup_eq_some_iff.1 hlookup
  refine ⟨w, List.mem_reverse.1 (heq ▸ by simp), ?_⟩
  rw [get?_setAll, hlookup]
  rfl

/-- Delete the keys of a list, one after the other. -/
def eraseAll (d : Dict κ α) (ks : List κ) : Dict κ α := ks.foldl Dict.erase d

@[simp] theorem get?_eraseAll (d : Dict κ α) (ks : List κ) (j : κ) :
    (d.eraseAll ks).get? j = if j ∈ ks then none else d.get? j := by
  induction ks generalizing d with
  | nil => simp [eraseAll]
  | cons k ks ih =>
    rw [show d.eraseAll (k :: ks) = (d.erase k).eraseAll ks from rfl, ih, get?_erase]
    by_cases hj : j = k <;> simp [hj]

/-! ### Entries and values -/

theorem lookup_eq_some_iff_mem {l : List (κ × α)} (h : (l.map Prod.fst).Nodup) {k : κ} {v : α} :
    l.lookup k = some v ↔ (k, v) ∈ l := by
  induction l with
  | nil => simp
  | cons e l ih =>
    rw [List.map_cons, List.nodup_cons] at h
    rw [lookup_cons_eq_ite, List.mem_cons, ← ih h.2]
    split_ifs with hk
    · subst hk
      have hnone : l.lookup e.1 = none := by
        rw [← Option.not_isSome_iff_eq_none, lookup_isSome_iff]; exact h.1
      simp [hnone, Prod.ext_iff, eq_comm]
    · simp [Prod.ext_iff, hk]

theorem mem_entries_iff {d : Dict κ α} {k : κ} {v : α} :
    (k, v) ∈ d.entries ↔ d.get? k = some v :=
  (lookup_eq_some_iff_mem d.nodup).symm

theorem mem_values_iff {d : Dict κ α} {v : α} : v ∈ d.values ↔ ∃ k, d.get? k = some v := by
  unfold values
  simp only [List.mem_map, Prod.exists, exists_eq_right, mem_entries_iff]

theorem snd_of_mem_entries {d : Dict κ α} {e : κ × α} (he : e ∈ d.entries) {k : κ} (hk : e.1 = k)
    {v : α} (h : d.get? k = some v) : e.2 = v := by
  have hget := mem_entries_iff.1 he
  rw [hk, h] at hget
  exact (Option.some.inj hget).symm

/-- Replacing a value by one that agrees under `f` keeps the values under `f`, in their order. -/
theorem map_values_set {β : Type*} {f : α → β} {d : Dict κ α} {k : κ} {v w : α}
    (h : d.get? k = some v) (hf : f w = f v) : (d.set k w).values.map f = d.values.map f := by
  have hmem : k ∈ d.keys := mem_def.1 (mem_of_get? h)
  unfold set values
  rw [dif_pos hmem, List.map_map, List.map_map, List.map_map]
  refine List.map_congr_left fun e he => ?_
  simp only [Function.comp_apply]
  split_ifs with hk
  · rw [snd_of_mem_entries he hk h, hf]
  · rfl

/-- Storing the value that is there changes nothing. -/
theorem set_of_get? {d : Dict κ α} {k : κ} {v : α} (h : d.get? k = some v) : d.set k v = d := by
  have hmem : k ∈ d.keys := mem_def.1 (mem_of_get? h)
  ext1
  unfold set
  rw [dif_pos hmem]
  conv_rhs => rw [← List.map_id d.entries]
  refine List.map_congr_left fun e he => ?_
  split_ifs with hk
  · rw [id, ← hk, ← snd_of_mem_entries he hk h]
  · rfl

theorem entries_set_of_mem {d : Dict κ α} {k : κ} (h : k ∈ d) (v : α) :
    (d.set k v).entries = d.entries.map fun e => if e.1 = k then (k, v) else e := by
  unfold set
  rw [dif_pos (mem_def.1 h)]

theorem entries_set_of_not_mem {d : Dict κ α} {k : κ} (h : k ∉ d) (v : α) :
    (d.set k v).entries = d.entries ++ [(k, v)] := by
  unfold set
  rw [dif_neg (mem_def.not.1 h)]

/-- Of two values stored under one key the later one stays. -/
theorem set_set (d : Dict κ α) (k : κ) (v w : α) : (d.set k v).set k w = d.set k w := by
  ext1
  rw [entries_set_of_mem (mem_set.2 (.inl rfl))]
  by_cases hk : k ∈ d
  · rw [entries_set_of_mem hk, entries_set_of_mem hk, List.map_map]
    refine List.map_congr_left fun e _ => ?_
    by_cases h : e.1 = k <;> simp [h]
  · have hother : d.entries.map (fun e => if e.1 = k then (k, w) else e) = d.entries.map id := by
      refine List.map_congr_left fun e he => if_neg ?_
      rintro rfl
      exact hk (List.mem_map_of_mem he)
    rw [entries_set_of_not_mem hk, entries_set_of_not_mem hk, List.map_append, hother, List.map_id,
      List.map_singleton, if_pos rfl]

/-! ### Counting values -/

theorem erase_of_not_mem {d : Dict κ α} {k : κ} (h : k ∉ d) : d.erase k = d := by
  ext1
  refine List.filter_eq_self.2 fun e he => decide_eq_true ?_
  rintro rfl
  exact h (List.mem_map_of_mem he)

variable [DecidableEq α]

theorem count_values_set_of_not_mem {d : Dict κ α} {k : κ} (h : k ∉ d) (v w : α) :
    (d.set k v).values.count w = d.values.count w + if v = w then 1 else 0 := by
  unfold values
  rw [entries_set_of_not_mem h, List.map_append, List.count_append]
  simp [List.count_singleton]

theorem count_lookup_filter_key {l : List (κ × α)} {k : κ} {v : α}
    (hnd : (l.map Prod.fst).Nodup) (h : l.lookup k = some v) (w : α) :
    ((l.filter fun e => decide (e.1 ≠ k)).map Prod.snd).count w + (if v = w then 1 else 0) =
      (l.map Prod.snd).count w := by
  induction l with
  | nil => simp at h
  | cons e l ih =>
    rw [List.map_cons, List.nodup_cons] at hnd
    rw [lookup_cons_eq_ite] at h
    by_cases he : k = e.1
    · -- the entry of `k` goes, and no other entry has its key
      rw [if_pos he] at h
      have hrest : l.filter (fun e => decide (e.1 ≠ k)) = l := by
        refine List.filter_eq_self.2 fun f hf => decide_eq_true ?_
        rintro rfl
        exact hnd.1 (he ▸ List.mem_map_of_mem hf)
      rw [List.filter_cons_of_neg (by simpa using he.symm), hrest, List.map_cons,
        List.count_cons, Option.some.inj h]
      simp
    · rw [if_neg he] at h
      rw [List.filter_cons_of_pos (by simpa using Ne.symm he), List.map_cons, List.map_cons,
        List.count_cons, List.count_cons, ← ih hnd.2 h]
      omega

theorem count_values_erase {d : Dict κ α} {k : κ} {v : α} (h : d.get? k = some v) (w : α) :
    (d.erase k).values.count w + (if v = w then 1 else 0) = d.values.count w :=
  count_lookup_filter_key d.nodup h w

end Dict
