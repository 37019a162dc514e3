import Datamodel.Keyed
import Mathlib.Data.List.Basic

/-! Lists of items with keys, and folds of `upsert`, read key by key.

The fold of a list has the keys of the list in the order of their first occurrence
(`foldl_upsert`), and the value under a key is the combination of all values of that key, in the
order of the list. So a part of the list may be folded first, if the combination is associative
(`foldl_upsert_combineByKey`). -/

namespace Datamodel

/-! ### Items by their keys -/

theorem filter_eq_singleton {α : Type} {key : α → String} {xs : List α}
    (h : (xs.map key).Nodup) {x : α} (hx : x ∈ xs) : xs.filter (key · == key x) = [x] := by
  induction xs with
  | nil => cases hx
  | cons y ys ih =>
    obtain ⟨hy, hys⟩ := List.nodup_cons.mp h
    rcases List.mem_cons.mp hx with rfl | hx
    · have hrest : ys.filter (key · == key x) = [] := by
        rw [List.filter_eq_nil_iff]
        intro z hz he
        exact hy (beq_iff_eq.mp he ▸ List.mem_map_of_mem hz)
      rw [List.filter_cons, if_pos (beq_self_eq_true _), hrest]
    · have hne : ¬(key y == key x) = true := fun he =>
        hy (beq_iff_eq.mp he ▸ List.mem_map_of_mem hx)
      rw [List.filter_cons, if_neg hne, ih hys hx]

theorem filter_eq_nil_of_not_mem {α : Type} {key : α → String} {xs : List α} {n : String}
    (h : n ∉ xs.map key) : xs.filter (key · == n) = [] := by
  rw [List.filter_eq_nil_iff]
  intro x hx he
  exact h (beq_iff_eq.mp he ▸ List.mem_map_of_mem hx)

theorem find?_of_nodup {α : Type} {key : α → String} {xs : List α} (h : (xs.map key).Nodup) {x : α}
    (hx : x ∈ xs) : xs.find? (key · == key x) = some x := by
  rw [← List.head?_filter, filter_eq_singleton h hx]
  rfl

/-! ### Repetitions -/

/-- Erasing repetitions leaves none. -/
theorem nodup_eraseDups {α : Type} [BEq α] [LawfulBEq α] : ∀ xs : List α, xs.eraseDups.Nodup
  | [] => .nil
  | x :: xs => by
    have hx : x ∉ (xs.filter fun y => !y == x).eraseDups := by simp
    rw [List.eraseDups_cons]
    exact List.nodup_cons.mpr ⟨hx, nodup_eraseDups _⟩
termination_by xs => xs.length
decreasing_by simpa using Nat.lt_succ_of_le (List.length_filter_le _ xs)

/-- A list without repetitions is left as it is. -/
theorem eraseDups_of_nodup {α : Type} [BEq α] [LawfulBEq α] {xs : List α} (h : xs.Nodup) :
    xs.eraseDups = xs := by
  induction xs with
  | nil => rfl
  | cons x xs ih =>
    obtain ⟨hx, hxs⟩ := List.nodup_cons.mp h
    have hne : ∀ y ∈ xs, (!y == x) = true := by
      intro y hy
      simpa using fun e : y = x => hx (e ▸ hy)
    rw [List.eraseDups_cons, List.filter_eq_self.mpr hne, ih hxs]

/-- It does not matter whether repetitions go before or after a choice of values. -/
theorem filter_eraseDups {α : Type} [BEq α] [LawfulBEq α] (p : α → Bool) :
    ∀ xs : List α, xs.eraseDups.filter p = (xs.filter p).eraseDups
  | [] => rfl
  | x :: xs => by
    have ih := filter_eraseDups p (xs.filter fun y => !y == x)
    rw [List.eraseDups_cons]
    by_cases h : p x
    · rw [List.filter_cons_of_pos h, ih, List.filter_cons_of_pos h, List.eraseDups_cons,
        List.filter_filter, List.filter_filter]
      exact congrArg (fun ys => x :: List.eraseDups ys)
        (List.filter_congr fun y _ => Bool.and_comm _ _)
    · rw [List.filter_cons_of_neg h, ih, List.filter_cons_of_neg h, List.filter_filter]
      refine congrArg List.eraseDups (List.filter_congr fun y _ => ?_)
      by_cases hy : y = x
      · simp [hy, h]
      · simp [hy]
termination_by xs => xs.length
decreasing_by exact Nat.lt_succ_of_le (List.length_filter_le _ xs)

/-! ### Folds -/

/-- The combination of values from left to right; of no value there is none. -/
def combineAll {α : Type} (combine : α → α → α) : List α → Option α
  | [] => none
  | x :: xs => some (xs.foldl combine x)

/-- The values of a list combined key by key, the keys in the order of their first
occurrence. -/
def combineByKey {α : Type} (key : α → String) (combine : α → α → α) (xs : List α) : List α :=
  (xs.map key).eraseDups.filterMap fun k => combineAll combine (xs.filter (key · = k))

section
variable {α : Type} {key : α → String} {combine : α → α → α}

theorem eraseDups_map_cons (x : α) (xs : List α) :
    (key x :: xs.map key).eraseDups =
      key x :: ((xs.filter (key · ≠ key x)).map key).eraseDups := by
  have hkeys : (xs.map key).filter (fun k => !k == key x) =
      (xs.filter (key · ≠ key x)).map key := by
    rw [List.filter_map]
    congr 1
    exact List.filter_congr fun y _ => by simp [beq_eq_decide]
  rw [List.eraseDups_cons, hkeys]

theorem combineByKey_cons (x : α) (xs : List α) :
    combineByKey key combine (x :: xs) =
      (xs.filter (key · = key x)).foldl combine x ::
        combineByKey key combine (xs.filter (key · ≠ key x)) := by
  simp only [combineByKey, List.map_cons, eraseDups_map_cons]
  rw [List.filterMap_cons_some (b := (xs.filter (key · = key x)).foldl combine x)
    (by simp [combineAll])]
  congr 1
  refine List.filterMap_congr fun k hk => ?_
  obtain ⟨y, hy, rfl⟩ := List.mem_map.mp (List.mem_eraseDups.mp hk)
  have hne : key y ≠ key x := by simpa using (List.mem_filter.mp hy).2
  rw [List.filter_cons_of_neg (by simpa using Ne.symm hne), List.filter_filter]
  congr 1
  refine List.filter_congr fun z _ => ?_
  simp only [← Bool.decide_and, decide_eq_decide]
  exact ⟨fun h => ⟨h, h ▸ hne⟩, fun h => h.1⟩

/-- The values of one key go to the first value of that key, all others pass it by. -/
theorem foldl_upsert_cons (hkey : ∀ x y, key x = key y → key (combine x y) = key x) (ys : List α)
    (x : α) (acc : List α) :
    ys.foldl (upsert key combine) (x :: acc) =
      (ys.filter (key · = key x)).foldl combine x ::
        (ys.filter (key · ≠ key x)).foldl (upsert key combine) acc := by
  induction ys generalizing x acc with
  | nil => rfl
  | cons y ys ih =>
    by_cases h : key x = key y
    · have hx : key (combine x y) = key x := hkey x y h
      simp only [List.foldl_cons, upsert, if_pos h, ih]
      rw [List.filter_cons_of_pos (by simp [h]), List.filter_cons_of_neg (by simp [h])]
      simp only [hx, List.foldl_cons]
    · simp only [List.foldl_cons, upsert, if_neg h, ih]
      rw [List.filter_cons_of_neg (by simpa using Ne.symm h),
        List.filter_cons_of_pos (by simpa using Ne.symm h), List.foldl_cons]

/-- **The fold of a list combines it key by key.** -/
theorem foldl_upsert (hkey : ∀ x y, key x = key y → key (combine x y) = key x) (xs : List α) :
    xs.foldl (upsert key combine) [] = combineByKey key combine xs := by
  match xs with
  | [] => rfl
  | x :: xs =>
    rw [List.foldl_cons, upsert, foldl_upsert_cons hkey, combineByKey_cons,
      foldl_upsert hkey (xs.filter (key · ≠ key x))]
termination_by xs.length
decreasing_by exact Nat.lt_succ_of_le (List.length_filter_le _ _)

/-- A combination keeps the key of what is combined. -/
theorem key_combineAll (hkey : ∀ x y, key x = key y → key (combine x y) = key x) {k : String}
    {xs : List α} {z : α} (hxs : ∀ x ∈ xs, key x = k) (h : combineAll combine xs = some z) :
    key z = k := by
  cases xs with
  | nil => cases h
  | cons x xs =>
    cases h
    induction xs generalizing x with
    | nil => exact hxs x List.mem_cons_self
    | cons y xs ih =>
      have hx : key x = k := hxs x (by simp)
      have hy : key y = k := hxs y (by simp)
      refine ih _ fun w hw => ?_
      rcases List.mem_cons.mp hw with rfl | hw
      · rw [hkey x y (hx.trans hy.symm), hx]
      · exact hxs w (by simp [hw])

theorem map_key_combineByKey (hkey : ∀ x y, key x = key y → key (combine x y) = key x)
    (xs : List α) : (combineByKey key combine xs).map key = (xs.map key).eraseDups := by
  match xs with
  | [] => rfl
  | x :: xs =>
    have hx : key ((xs.filter (key · = key x)).foldl combine x) = key x :=
      key_combineAll hkey (show ∀ y ∈ x :: xs.filter (key · = key x), key y = key x by simp) rfl
    rw [combineByKey_cons, List.map_cons, hx, List.map_cons, eraseDups_map_cons,
      map_key_combineByKey hkey (xs.filter (key · ≠ key x))]
termination_by xs.length
decreasing_by exact Nat.lt_succ_of_le (List.length_filter_le _ _)

/-- Every value of the result is the combination of all values of its key. -/
theorem combineAll_of_mem (hkey : ∀ x y, key x = key y → key (combine x y) = key x) {xs : List α}
    {z : α} (hz : z ∈ combineByKey key combine xs) :
    combineAll combine (xs.filter (key · = key z)) = some z := by
  obtain ⟨k, _, h⟩ := List.mem_filterMap.mp hz
  have : key z = k := key_combineAll hkey (by simp) h
  rwa [this]

/-- What all values fit, and a combination keeps, fits the values of the result. -/
theorem forall_mem_upsert {P : α → Prop} (hcombine : ∀ x y, P x → P y → P (combine x y))
    {xs : List α} {y : α} (hxs : ∀ x ∈ xs, P x) (hy : P y) :
    ∀ z ∈ upsert key combine xs y, P z := by
  induction xs with
  | nil => exact List.forall_mem_singleton.mpr hy
  | cons x xs ih =>
    obtain ⟨hx, hxs⟩ := List.forall_mem_cons.mp hxs
    rw [upsert]
    split
    · exact List.forall_mem_cons.mpr ⟨hcombine x y hx hy, hxs⟩
    · exact List.forall_mem_cons.mpr ⟨hx, ih hxs⟩

theorem forall_mem_foldl_upsert {P : α → Prop} (hcombine : ∀ x y, P x → P y → P (combine x y))
    {xs ys : List α} (hxs : ∀ x ∈ xs, P x) (hys : ∀ y ∈ ys, P y) :
    ∀ z ∈ ys.foldl (upsert key combine) xs, P z := by
  induction ys generalizing xs with
  | nil => exact hxs
  | cons y ys ih =>
    obtain ⟨hy, hys⟩ := List.forall_mem_cons.mp hys
    exact ih (forall_mem_upsert hcombine hxs hy) hys

/-- If a combination has what both of its values have, the result has what every value has that
goes in, under the key of that value. -/
theorem exists_mem_upsert (hkey : ∀ x y, key x = key y → key (combine x y) = key x)
    {R : α → α → Prop} (hrefl : ∀ x, R x x)
    (hcombine : ∀ x y, R (combine x y) x ∧ R (combine x y) y) {xs : List α} {y : α} :
    ∀ x ∈ xs ++ [y], ∃ z ∈ upsert key combine xs y, key z = key x ∧ R z x := by
  induction xs with
  | nil => exact List.forall_mem_singleton.mpr ⟨y, List.mem_singleton_self y, rfl, hrefl y⟩
  | cons x xs ih =>
    rw [upsert]
    split
    · next h =>
      have hxy := hkey x y h
      refine List.forall_mem_cons.mpr
        ⟨⟨_, List.mem_cons_self, hxy, (hcombine x y).1⟩, List.forall_mem_append.mpr ⟨?_, ?_⟩⟩
      · exact fun w hw => ⟨w, List.mem_cons_of_mem _ hw, rfl, hrefl w⟩
      · exact List.forall_mem_singleton.mpr
          ⟨_, List.mem_cons_self, hxy.trans h, (hcombine x y).2⟩
    · refine List.forall_mem_cons.mpr ⟨⟨x, List.mem_cons_self, rfl, hrefl x⟩, fun w hw => ?_⟩
      obtain ⟨z, hz, hR⟩ := ih w hw
      exact ⟨z, List.mem_cons_of_mem _ hz, hR⟩

/-- A value of a new key comes last, and any other adds no key. -/
theorem map_key_upsert (hkey : ∀ x y, key x = key y → key (combine x y) = key x) (xs : List α)
    (y : α) : (upsert key combine xs y).map key =
      if key y ∈ xs.map key then xs.map key else xs.map key ++ [key y] := by
  induction xs with
  | nil => rfl
  | cons x xs ih =>
    rw [upsert]
    split
    · next h => simp [hkey x y h, h]
    · next h =>
      have hne : key y ≠ key x := Ne.symm h
      rw [List.map_cons, ih, List.map_cons]
      split <;> simp_all

/-- A step of the fold repeats no key, and takes no repetition back. -/
theorem nodup_map_key_upsert (hkey : ∀ x y, key x = key y → key (combine x y) = key x)
    {xs : List α} {y : α} :
    ((upsert key combine xs y).map key).Nodup ↔ (xs.map key).Nodup := by
  rw [map_key_upsert hkey]
  split
  · rfl
  · next h =>
    rw [(List.perm_append_singleton (key y) (xs.map key)).nodup_iff, List.nodup_cons,
      and_iff_right h]

theorem nodup_map_key_foldl_upsert (hkey : ∀ x y, key x = key y → key (combine x y) = key x)
    {xs ys : List α} :
    ((ys.foldl (upsert key combine) xs).map key).Nodup ↔ (xs.map key).Nodup := by
  induction ys generalizing xs with
  | nil => rfl
  | cons y ys ih => rw [List.foldl_cons, ih, nodup_map_key_upsert hkey]

/-- Values of distinct keys are left as they are. -/
theorem combineByKey_of_nodup {xs : List α} (h : (xs.map key).Nodup) :
    combineByKey key combine xs = xs := by
  induction xs with
  | nil => rfl
  | cons x xs ih =>
    obtain ⟨hx, hxs⟩ := List.nodup_cons.mp h
    have hne : ∀ y ∈ xs, key y ≠ key x := fun y hy e => hx (e ▸ List.mem_map_of_mem hy)
    rw [combineByKey_cons, List.filter_eq_nil_iff.mpr (by simpa using hne),
      List.filter_eq_self.mpr (by simpa using hne), ih hxs, List.foldl_nil]

/-- A list behind itself has the same keys in the same order. So if `repeated` is what the values of
a key combine to when they come twice, the list combines to that key by key. -/
theorem combineByKey_append_self {repeated : α → α} {xs : List α}
    (h : ∀ x ys, x :: ys ⊆ xs → combineAll combine (x :: ys ++ x :: ys) =
      (combineAll combine (x :: ys)).map repeated) :
    combineByKey key combine (xs ++ xs) = (combineByKey key combine xs).map repeated := by
  have hnone : (xs.map key).removeAll (xs.map key) = [] :=
    List.filter_eq_nil_iff.mpr fun k hk => by simpa using hk
  have hkeys : ((xs ++ xs).map key).eraseDups = (xs.map key).eraseDups := by
    rw [List.map_append, List.eraseDups_append, hnone, List.eraseDups_nil, List.append_nil]
  rw [combineByKey, combineByKey, hkeys, List.map_filterMap]
  refine List.filterMap_congr fun k _ => ?_
  rw [List.filter_append]
  cases hvalues : xs.filter (key · = k) with
  | nil => rfl
  | cons x ys => exact h x ys (hvalues ▸ List.filter_subset_self xs)

/-- Leaving out a key leaves out its values, and touches no other. -/
theorem filter_ne_combineByKey (hkey : ∀ x y, key x = key y → key (combine x y) = key x)
    (k : String) (xs : List α) :
    (combineByKey key combine xs).filter (key · ≠ k) =
      combineByKey key combine (xs.filter (key · ≠ k)) := by
  match xs with
  | [] => rfl
  | x :: xs =>
    have hx : key ((xs.filter (key · = key x)).foldl combine x) = key x :=
      key_combineAll hkey (show ∀ y ∈ x :: xs.filter (key · = key x), key y = key x by simp) rfl
    have ih := filter_ne_combineByKey hkey k (xs.filter (key · ≠ key x))
    rw [combineByKey_cons]
    by_cases h : key x = k
    · rw [List.filter_cons_of_neg (by simpa [hx] using h), ih,
        List.filter_cons_of_neg (by simpa using h), h]
      simp
    · rw [List.filter_cons_of_pos (by simpa [hx] using h), ih,
        List.filter_cons_of_pos (by simpa using h), combineByKey_cons]
      congr 1
      · congr 1
        rw [List.filter_filter]
        exact List.filter_congr fun y _ => by grind
      · rw [List.filter_filter, List.filter_filter]
        exact congrArg _ (List.filter_congr fun y _ => Bool.and_comm _ _)
termination_by xs.length
decreasing_by exact Nat.lt_succ_of_le (List.length_filter_le _ _)

/-- Under a key stands the combination of all values of that key. -/
theorem filter_eq_combineByKey (hkey : ∀ x y, key x = key y → key (combine x y) = key x)
    (k : String) (xs : List α) :
    (combineByKey key combine xs).filter (key · = k) =
      (combineAll combine (xs.filter (key · = k))).toList := by
  match xs with
  | [] => rfl
  | x :: xs =>
    have hx : key ((xs.filter (key · = key x)).foldl combine x) = key x :=
      key_combineAll hkey (show ∀ y ∈ x :: xs.filter (key · = key x), key y = key x by simp) rfl
    have ih := filter_eq_combineByKey hkey k (xs.filter (key · ≠ key x))
    rw [combineByKey_cons]
    by_cases h : key x = k
    · subst h
      rw [List.filter_cons_of_pos (by simpa using hx), ih, List.filter_cons_of_pos (by simp),
        List.filter_filter]
      simp [combineAll]
    · rw [List.filter_cons_of_neg (by simpa [hx] using h), ih,
        List.filter_cons_of_neg (by simpa using h), List.filter_filter]
      congr 2
      exact List.filter_congr fun y _ => by grind
termination_by xs.length
decreasing_by exact Nat.lt_succ_of_le (List.length_filter_le _ _)

variable {P : α → Prop}

/-- Folding in the combination of values is folding in the values, one after the other. -/
theorem combine_foldl (hP : ∀ x y, P x → P y → P (combine x y))
    (hassoc : ∀ a x y, P x → combine (combine a x) y = combine a (combine x y)) (a : α) {x : α}
    {ys : List α} (hx : P x) (hys : ∀ y ∈ ys, P y) :
    combine a (ys.foldl combine x) = ys.foldl combine (combine a x) := by
  induction ys generalizing x with
  | nil => rfl
  | cons y ys ih =>
    obtain ⟨hy, hys⟩ := List.forall_mem_cons.mp hys
    rw [List.foldl_cons, ih (hP x y hx hy) hys, List.foldl_cons, hassoc a x y hx]

/-- **Regrouping.** Putting in values that are combined already gives what putting in all of them
gives. -/
theorem foldl_upsert_combineByKey (hkey : ∀ x y, key x = key y → key (combine x y) = key x)
    (hP : ∀ x y, P x → P y → P (combine x y))
    (hassoc : ∀ a x y, P x → combine (combine a x) y = combine a (combine x y)) (acc : List α)
    {xs : List α} (hxs : ∀ x ∈ xs, P x) :
    (combineByKey key combine xs).foldl (upsert key combine) acc =
      xs.foldl (upsert key combine) acc := by
  induction acc generalizing xs with
  | nil =>
    have hnodup : ((combineByKey key combine xs).map key).Nodup :=
      map_key_combineByKey hkey xs ▸ nodup_eraseDups _
    rw [foldl_upsert hkey, foldl_upsert hkey, combineByKey_of_nodup hnodup]
  | cons a acc ih =>
    rw [foldl_upsert_cons hkey, foldl_upsert_cons hkey, filter_ne_combineByKey hkey,
      filter_eq_combineByKey hkey]
    congr 1
    · cases hvalues : xs.filter (key · = key a) with
      | nil => rfl
      | cons x ys =>
        have hmem : ∀ y ∈ x :: ys, P y := by
          intro y hy
          exact hxs y (List.mem_of_mem_filter (hvalues ▸ hy))
        obtain ⟨hx, hys⟩ := List.forall_mem_cons.mp hmem
        exact combine_foldl hP hassoc a hx hys
    · exact ih fun x hx => hxs x (List.mem_of_mem_filter hx)

end

end Datamodel
