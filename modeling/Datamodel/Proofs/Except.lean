import Mathlib.Data.List.Forall2

/-! Lists one behind the other or related item by item, and computations that may fail, taken
apart. -/

namespace Datamodel

/-- An element stands in the first or in the second of two lists one behind the other. -/
theorem exists_of_append_eq_append_cons {α : Type} {xs ys us vs : List α} {a : α}
    (h : xs ++ ys = us ++ a :: vs) :
    (∃ c, xs = us ++ a :: c ∧ vs = c ++ ys) ∨ ∃ c, us = xs ++ c ∧ ys = c ++ a :: vs := by
  rcases List.append_eq_append_iff.mp h with ⟨c, hus, hys⟩ | ⟨c, hxs, hvs⟩
  · exact .inr ⟨c, hus, hys⟩
  · cases c with
    | nil => exact .inr ⟨[], by simpa using hxs.symm, hvs.symm⟩
    | cons b c =>
      obtain ⟨rfl, rfl⟩ := List.cons.inj hvs
      exact .inl ⟨c, hxs, rfl⟩

theorem filterMap_cons_toList {α β : Type} (f : α → Option β) (x : α) (xs : List α) :
    (x :: xs).filterMap f = (f x).toList ++ xs.filterMap f := by
  rw [List.filterMap_cons]
  cases f x <;> rfl

section
variable {α β : Type} {R : α → β → Prop} {xs : List α} {ys : List β}

theorem exists_of_forall₂_left (h : List.Forall₂ R xs ys) : ∀ x ∈ xs, ∃ y ∈ ys, R x y := by
  induction h with
  | nil => exact nofun
  | @cons x y xs ys hxy _ ih =>
    refine List.forall_mem_cons.mpr ⟨⟨y, List.mem_cons_self, hxy⟩, fun x' hx' => ?_⟩
    obtain ⟨y', hy', hxy'⟩ := ih x' hx'
    exact ⟨y', List.mem_cons_of_mem y hy', hxy'⟩

theorem exists_of_forall₂_right (h : List.Forall₂ R xs ys) : ∀ y ∈ ys, ∃ x ∈ xs, R x y :=
  exists_of_forall₂_left h.flip

theorem exists_head?_of_forall₂ (h : List.Forall₂ R xs ys) :
    ∀ x ∈ xs.head?, ∃ y ∈ ys.head?, R x y := by
  cases h with
  | nil => exact nofun
  | cons hxy _ =>
    rintro _ ⟨⟩
    exact ⟨_, rfl, hxy⟩

theorem map_eq_map_iff_forall₂ {γ : Type} {g : α → γ} {h : β → γ} :
    xs.map g = ys.map h ↔ List.Forall₂ (fun x y => g x = h y) xs ys := by
  rw [← List.forall₂_eq_eq_eq, List.forall₂_map_left_iff, List.forall₂_map_right_iff]

theorem forall₂_map_same {γ δ : Type} {S : γ → δ → Prop} {g : α → γ} {h : α → δ} :
    List.Forall₂ S (xs.map g) (xs.map h) ↔ ∀ x ∈ xs, S (g x) (h x) := by
  rw [List.forall₂_map_left_iff, List.forall₂_map_right_iff, List.forall₂_same]

theorem exists_of_forall₂_append {xs' : List α} (h : List.Forall₂ R (xs ++ xs') ys) :
    ∃ zs zs', List.Forall₂ R xs zs ∧ List.Forall₂ R xs' zs' ∧ ys = zs ++ zs' := by
  induction xs generalizing ys with
  | nil => exact ⟨[], ys, .nil, h, rfl⟩
  | cons x xs ih =>
    obtain ⟨y, ys, hxy, hys, rfl⟩ := List.forall₂_cons_left_iff.mp h
    obtain ⟨zs, zs', hzs, hzs', rfl⟩ := ih hys
    exact ⟨y :: zs, zs', .cons hxy hzs, hzs', rfl⟩

/-- Lists that are related to one list are related to each other. -/
theorem forall₂_of_common {γ : Type} {S : α → γ → Prop} {T : β → γ → Prop} {zs : List γ}
    (h : List.Forall₂ R xs ys) (h' : List.Forall₂ S xs zs)
    (hT : ∀ x y z, R x y → S x z → T y z) : List.Forall₂ T ys zs := by
  induction h generalizing zs with
  | nil =>
    cases h'
    exact .nil
  | cons hxy _ ih =>
    cases h' with
    | cons hxz hxs => exact .cons (hT _ _ _ hxy hxz) (ih hxs)

theorem forall₂_takeWhile {p : α → Bool} {q : β → Bool} (h : List.Forall₂ R xs ys)
    (hpq : ∀ x y, R x y → p x = q y) : List.Forall₂ R (xs.takeWhile p) (ys.takeWhile q) := by
  induction h with
  | nil => exact .nil
  | @cons x y xs ys hxy _ ih =>
    rw [List.takeWhile_cons, List.takeWhile_cons, hpq x y hxy]
    split
    · exact .cons hxy ih
    · exact .nil

end

section
variable {ε α β : Type}

/-- A computation that gives a result has done each of its steps. -/
theorem exists_of_bind {x : Except ε α} {f : α → Except ε β} {b : β}
    (h : (x >>= f) = .ok b) : ∃ a, x = .ok a ∧ f a = .ok b := by
  cases x with
  | error e => cases h
  | ok a => exact ⟨a, rfl, h⟩

/-- A computation of two steps fails in the first of them or in the second. -/
theorem bind_eq_error_iff {x : Except ε α} {f : α → Except ε β} {e : ε} :
    (x >>= f) = .error e ↔ x = .error e ∨ ∃ a, x = .ok a ∧ f a = .error e := by
  cases x <;> simp [bind, Except.bind]

/-- A last step that gives a result does not fail. -/
theorem bind_ok_eq_error_iff {x : Except ε α} {f : α → β} {e : ε} :
    (x >>= fun a => .ok (f a)) = .error e ↔ x = .error e := by
  rw [bind_eq_error_iff]
  exact or_iff_left fun ⟨_, _, h⟩ => nomatch h

theorem not_exists_error_iff {x : Except ε α} : (¬∃ e, x = .error e) ↔ ∃ a, x = .ok a := by
  cases x <;> simp

theorem exists_of_map {x : Except ε α} {f : α → β} {b : β}
    (h : x.map f = .ok b) : ∃ a, x = .ok a ∧ f a = b := by
  cases x with
  | error e => cases h
  | ok a => exact ⟨a, rfl, Except.ok.inj h⟩

theorem eq_ok_of_toOption {x : Except ε α} {a : α} (h : x.toOption = some a) : x = .ok a := by
  cases x with
  | error e => cases h
  | ok b =>
    cases h
    rfl

theorem isOk_iff {x : Except ε α} : x.isOk = true ↔ ∃ a, x = .ok a := by
  cases x with
  | error e => exact ⟨nofun, fun ⟨_, h⟩ => (nomatch h)⟩
  | ok a => exact ⟨fun _ => ⟨a, rfl⟩, fun _ => rfl⟩

theorem isOk_map {x : Except ε α} {f : α → β} : (x.map f).isOk = x.isOk := by
  cases x <;> rfl

theorem exists_bind_iff {x : Except ε α} {f : α → Except ε β} :
    (∃ b, (x >>= f) = .ok b) ↔ ∃ a, x = .ok a ∧ ∃ b, f a = .ok b := by
  constructor
  · rintro ⟨b, h⟩
    obtain ⟨a, ha, hb⟩ := exists_of_bind h
    exact ⟨a, ha, b, hb⟩
  · rintro ⟨a, rfl, b, hb⟩
    exact ⟨b, hb⟩

theorem mapM_cons_of_ok {f : α → Except ε β} {x : α} {xs : List α} {y : β} {ys : List β}
    (hx : f x = .ok y) (hxs : xs.mapM f = .ok ys) : (x :: xs).mapM f = .ok (y :: ys) := by
  rw [List.mapM_cons, hx, hxs]
  rfl

/-- A list of computations gives a result just if each of them does. -/
theorem exists_mapM_iff {f : α → Except ε β} {xs : List α} :
    (∃ ys, xs.mapM f = .ok ys) ↔ ∀ x ∈ xs, ∃ y, f x = .ok y := by
  induction xs with
  | nil => exact ⟨fun _ => List.forall_mem_nil _, fun _ => ⟨[], rfl⟩⟩
  | cons x xs ih =>
    rw [List.mapM_cons, List.forall_mem_cons, ← ih]
    constructor
    · rintro ⟨_, h⟩
      obtain ⟨y, hy, h⟩ := exists_of_bind h
      obtain ⟨ys, hys, -⟩ := exists_of_bind h
      exact ⟨⟨y, hy⟩, ys, hys⟩
    · rintro ⟨⟨y, hy⟩, ys, hys⟩
      rw [hy, hys]
      exact ⟨y :: ys, rfl⟩

theorem mapM_option_eq_error_iff {f : α → Except ε β} {x : Option α} {e : ε} :
    x.mapM f = .error e ↔ ∃ a, x = some a ∧ f a = .error e := by
  cases x with
  | none => exact iff_of_false nofun nofun
  | some a =>
    show (f a >>= fun b => .ok (some b)) = .error e ↔ _
    rw [bind_ok_eq_error_iff]
    simp

theorem mapM_cons_eq_error_iff {f : α → Except ε β} {x : α} {xs : List α} {e : ε} :
    (x :: xs).mapM f = .error e ↔
      f x = .error e ∨ (∃ b, f x = .ok b) ∧ xs.mapM f = .error e := by
  rw [List.mapM_cons, bind_eq_error_iff, ← exists_and_right]
  exact or_congr_right (exists_congr fun b => and_congr_right fun _ => bind_ok_eq_error_iff)

/-- **The first failure counts.** A list fails as the first of its items does that fails. -/
theorem mapM_eq_error_iff {f : α → Except ε β} {xs : List α} {e : ε} :
    xs.mapM f = .error e ↔ ∃ before x after, xs = before ++ x :: after ∧
      (∀ y ∈ before, ∃ b, f y = .ok b) ∧ f x = .error e := by
  constructor
  · intro h
    induction xs with
    | nil => cases h
    | cons x xs ih =>
      rcases mapM_cons_eq_error_iff.mp h with hx | ⟨hx, hxs⟩
      · exact ⟨[], x, xs, rfl, List.forall_mem_nil _, hx⟩
      · obtain ⟨before, y, after, rfl, hbefore, hy⟩ := ih hxs
        exact ⟨x :: before, y, after, rfl, List.forall_mem_cons.mpr ⟨hx, hbefore⟩, hy⟩
  · rintro ⟨before, x, after, rfl, hbefore, hx⟩
    induction before with
    | nil => exact mapM_cons_eq_error_iff.mpr (.inl hx)
    | cons y before ih =>
      obtain ⟨hy, hbefore⟩ := List.forall_mem_cons.mp hbefore
      exact mapM_cons_eq_error_iff.mpr (.inr ⟨hy, ih hbefore⟩)

theorem mapM_eq_error_of_find? {f : α → Except ε β} {xs : List α} {x : α}
    (h : xs.find? (fun x => !(f x).isOk) = some x) :
    ∃ e, f x = .error e ∧ xs.mapM f = .error e := by
  obtain ⟨hx, before, after, rfl, hbefore⟩ := List.find?_eq_some_iff_append.mp h
  have hok : ∀ y ∈ before, ∃ b, f y = .ok b := fun y hy => isOk_iff.mp (by simpa using hbefore y hy)
  cases hfails : f x with
  | error e => exact ⟨e, rfl, mapM_eq_error_iff.mpr ⟨before, x, after, rfl, hok, hfails⟩⟩
  | ok b =>
    rw [hfails] at hx
    cases hx

/-- Lists whose items fail alike fail alike. -/
theorem mapM_eq_error_congr {γ δ : Type} {f : α → Except ε β} {g : γ → Except ε δ} {xs : List α}
    {ys : List γ}
    (h : List.Forall₂ (fun x y => ∀ e, f x = .error e ↔ g y = .error e) xs ys) (e : ε) :
    xs.mapM f = .error e ↔ ys.mapM g = .error e := by
  induction h with
  | nil => exact iff_of_false nofun nofun
  | @cons x y xs ys hxy _ ih =>
    have hok : (∃ b, f x = .ok b) ↔ ∃ d, g y = .ok d := by
      rw [← not_exists_error_iff, ← not_exists_error_iff, exists_congr hxy]
    rw [mapM_cons_eq_error_iff, mapM_cons_eq_error_iff, hxy, hok, ih]

/-- A list that gives a result gives it item by item. -/
theorem forall₂_of_mapM {f : α → Except ε β} {xs : List α} {ys : List β}
    (h : xs.mapM f = .ok ys) : List.Forall₂ (fun x y => f x = .ok y) xs ys := by
  induction xs generalizing ys with
  | nil =>
    cases h
    exact .nil
  | cons x xs ih =>
    rw [List.mapM_cons] at h
    obtain ⟨y, hy, h⟩ := exists_of_bind h
    obtain ⟨ys, hys, h⟩ := exists_of_bind h
    cases h
    exact .cons hy (ih hys)

/-- What is made of a list, item by item, is made of its items. -/
theorem forall_mem_of_mapM {f : α → Except ε β} {xs : List α} {ys : List β}
    (h : xs.mapM f = .ok ys) : ∀ y ∈ ys, ∃ x ∈ xs, f x = .ok y :=
  exists_of_forall₂_right (forall₂_of_mapM h)

/-- `y` succeeds where `x` does, and gives something related. -/
def Follows {γ : Type} (R : α → γ → Prop) (x : Except ε α) (y : Except ε γ) : Prop :=
  ∀ a, x = .ok a → ∃ c, y = .ok c ∧ R a c

namespace Follows
variable {γ δ : Type} {R : α → γ → Prop} {S : β → δ → Prop} {x : Except ε α} {y : Except ε γ}

theorem ok {a : α} {c : γ} (h : R a c) : Follows R (.ok a : Except ε α) (.ok c) := by
  rintro _ ⟨⟩
  exact ⟨c, rfl, h⟩

theorem error {e : ε} : Follows R (.error e) y := nofun

theorem bind {f : α → Except ε β} {g : γ → Except ε δ} (h : Follows R x y)
    (hfg : ∀ a c, R a c → Follows S (f a) (g c)) : Follows S (x >>= f) (y >>= g) := by
  intro b hb
  obtain ⟨a, ha, hb⟩ := exists_of_bind hb
  obtain ⟨c, hc, hac⟩ := h a ha
  rw [hc]
  exact hfg a c hac b hb

theorem map {f : α → β} {g : γ → δ} (h : Follows R x y) (hfg : ∀ a c, R a c → S (f a) (g c)) :
    Follows S (x.map f) (y.map g) := by
  intro b hb
  obtain ⟨a, ha, rfl⟩ := exists_of_map hb
  obtain ⟨c, hc, hac⟩ := h a ha
  rw [hc]
  exact ⟨g c, rfl, hfg a c hac⟩

theorem mapM {ι : Type} {f : ι → Except ε α} {g : ι → Except ε γ} {is : List ι}
    (hfg : ∀ i ∈ is, Follows R (f i) (g i)) :
    Follows (List.Forall₂ R) (is.mapM f) (is.mapM g) := by
  induction is with
  | nil => exact ok .nil
  | cons i is ih =>
    obtain ⟨hi, his⟩ := List.forall_mem_cons.mp hfg
    rw [List.mapM_cons, List.mapM_cons]
    exact hi.bind fun a c hac => (ih his).bind fun as cs hacs => ok (.cons hac hacs)

end Follows

end

end Datamodel
