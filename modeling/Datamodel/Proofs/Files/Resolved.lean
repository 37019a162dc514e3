import Datamodel.Proofs.Files.WellFormed

/-! Where a path leads, told by its text.

`Path.resolve` takes the steps of a path one after another, up and down, and asks no tree. Since
trees have no links, a path that leads anywhere in a tree leads there (`FileTree.resolve_of_find`).
Paths of one normal form resolve to one place. Of two paths that go nowhere but down behind a
beginning that they share, the converse holds too (`Path.Beside.normal_eq_iff`). -/

namespace Datamodel

open Datamodel.Path (Step)

namespace Path

variable {p q : Path} {start : Location}

/-- Where a path leads, if its relative steps start at `start`. -/
def resolve (start : Location) (p : Path) : Location := p.steps.foldl Location.follow start

theorem foldl_filter_ne_here (loc : Location) (steps : List Step) :
    (steps.filter (· != .here)).foldl Location.follow loc = steps.foldl Location.follow loc := by
  induction steps generalizing loc with
  | nil => rfl
  | cons s steps ih => cases s <;> exact ih _

theorem foldl_down (loc : Location) (names : List String) :
    (names.map .down).foldl Location.follow loc = loc ++ names := by
  induction names generalizing loc with
  | nil => exact (List.append_nil loc).symm
  | cons name names ih => exact (ih _).trans (List.append_assoc loc [name] names)

theorem resolve_eq_foldl_normal (start : Location) (p : Path) :
    p.resolve start = p.normal.foldl Location.follow start :=
  (foldl_filter_ne_here start p.steps).symm

theorem resolve_eq_of_normal_eq (h : p.normal = q.normal) : p.resolve start = q.resolve start := by
  rw [resolve_eq_foldl_normal, resolve_eq_foldl_normal, h]

theorem Straight.resolve_eq (hp : p.Straight) (start : Location) :
    p.resolve start = p.place start := by
  rw [resolve_eq_foldl_normal, hp.normal_eq, List.foldl_append, foldl_down, place]
  split <;> rfl

/-- `p` and `q` go nowhere but down behind a beginning that they share. -/
def Beside (p q : Path) : Prop :=
  ∃ (shared : List Step) (ns ms : List String),
    p.normal = shared ++ ns.map .down ∧ q.normal = shared ++ ms.map .down

/-- **Normal forms tell places apart** behind a shared beginning. -/
theorem Beside.normal_eq_iff (h : p.Beside q) (start : Location) :
    p.normal = q.normal ↔ p.resolve start = q.resolve start := by
  refine ⟨resolve_eq_of_normal_eq, fun heq => ?_⟩
  obtain ⟨shared, ns, ms, hp, hq⟩ := h
  rw [resolve_eq_foldl_normal, resolve_eq_foldl_normal, hp, hq, List.foldl_append,
    List.foldl_append, foldl_down, foldl_down, List.append_cancel_left_eq] at heq
  rw [hp, hq, heq]

theorem Straight.beside (hp : p.Straight) (hq : q.Straight) (h : p.isAbsolute = q.isAbsolute) :
    p.Beside q :=
  ⟨_, p.names, q.names, hp.normal_eq, h ▸ hq.normal_eq⟩

end Path

namespace FileTree

variable {t : FileTree} {p : Path} {loc l : Location} {e : Entry} {steps : List Step}

theorem foldl_of_walk (h : t.walk loc steps = .ok l) : l = steps.foldl Location.follow loc := by
  induction steps generalizing loc with
  | nil => exact (Except.ok.inj h).symm
  | cons s steps ih =>
    rw [walk] at h
    split at h
    · cases h
    · cases h
    · exact ih h

/-- **A path leads where it resolves to**, if it leads anywhere. -/
theorem resolve_of_find (h : t.find p = .ok (loc, e)) : loc = p.resolve t.start :=
  foldl_of_walk (exists_walk_of_findSteps (find_eq_ok_iff.mp h).1).2.1

end FileTree

end Datamodel
