import Datamodel.Proofs.Except
import Datamodel.Proofs.Inputs.Folders

/-! What the paths that fit a pattern are like.

The parts of a pattern are taken one after another, each with the path found so far, so every path
that is found goes on from the one where the search began (`FileTree.extends_of_mem_expand`). It
goes up only where a part of the pattern that begins with a dot fits `..`
(`FileTree.straight_of_mem_expand`). -/

namespace Datamodel

namespace Path

variable {p q r : Path} {name : String}

/-! ### Going on -/

/-- `q` goes on from `p`: it starts at the same place, and goes the way of `p` and further. -/
structure Extends (p q : Path) : Prop where
  absolute : q.isAbsolute = p.isAbsolute
  steps_ne : q.steps ≠ []
  normal : p.normal <+: q.normal

namespace Extends

theorem refl (h : p.steps ≠ []) : p.Extends p := ⟨rfl, h, List.prefix_rfl⟩

theorem trans (h : p.Extends q) (h' : q.Extends r) : p.Extends r where
  absolute := h'.absolute.trans h.absolute
  steps_ne := h'.steps_ne
  normal := h.normal.trans h'.normal

end Extends

theorem text_ne_of_steps_ne (h : p.steps ≠ []) : p.text ≠ "" := by
  rintro htext
  rw [steps, isAbsolute, pieces, htext] at h
  exact h rfl

theorem extends_join (hp : p.steps ≠ []) (h : q.isAbsolute = false) : p.Extends (p.join q) where
  absolute := isAbsolute_join (text_ne_of_steps_ne hp) h
  steps_ne := by simp [steps_join h, hp]
  normal := by
    rw [normal_join h]
    exact List.prefix_append _ _

end Path

/-! ### Reading patterns -/

namespace Glob

theorem subset_of_classBody? {s cs rest : List Char} (h : classBody? s = some (cs, rest)) :
    rest ⊆ s := by
  cases s with
  | nil => cases h
  | cons c s =>
    simp only [classBody?, Text.span] at h
    split at h
    · next cs' rest' heq =>
      cases h
      have hrest : ']' :: rest ⊆ s := by
        rw [← (Prod.mk.inj heq).2]
        exact (List.dropWhile_sublist _).subset
      exact fun d hd => List.mem_cons_of_mem _ (hrest (List.mem_cons_of_mem _ hd))
    · cases h

theorem subset_of_class? {s rest : List Char} {item : Item} (h : class? s = some (item, rest)) :
    rest ⊆ s ∧ item.char? = none := by
  unfold class? at h
  split at h <;> obtain ⟨⟨cs, rest'⟩, hbody, heq⟩ := Option.map_eq_some_iff.mp h <;> cases heq
  · exact ⟨fun d hd => List.mem_cons_of_mem _ (subset_of_classBody? hbody hd), rfl⟩
  · exact ⟨subset_of_classBody? hbody, rfl⟩

theorem mem_of_map_cons {read : Except Error (List Item)} {item : Item} {items : List Item}
    {c : Char} (h : read.map (item :: ·) = .ok items) (hc : .char c ∈ items) :
    item = .char c ∨ ∃ more, read = .ok more ∧ .char c ∈ more := by
  obtain ⟨more, hmore, rfl⟩ := exists_of_map h
  rcases List.mem_cons.mp hc with hc | hc
  · exact .inl hc.symm
  · exact .inr ⟨more, hmore, hc⟩

/-- The characters that a pattern stands for are characters of its text. -/
theorem mem_of_readItems {position : Nat} {before : Option Char} {s : List Char} {items : List Item}
    {c : Char} (h : readItems position before s = .ok items) (hc : .char c ∈ items) : c ∈ s := by
  fun_induction readItems position before s generalizing items with
  | case1 =>
    cases h
    cases hc
  | case2 _ _ s ih =>
    obtain hitem | ⟨more, hmore, hc⟩ := mem_of_map_cons h hc
    · cases hitem
    · exact List.mem_cons_of_mem _ (ih hmore hc)
  | case3 => cases h
  | case4 =>
    cases h
    simp at hc
  | case5 _ _ _ s _ ih =>
    obtain hitem | ⟨more, hmore, hc⟩ := mem_of_map_cons h hc
    · cases hitem
    · simp [ih hmore hc]
  | case6 => cases h
  | case7 => cases h
  | case8 _ _ s _ _ ih =>
    obtain hitem | ⟨more, hmore, hc⟩ := mem_of_map_cons h hc
    · cases hitem
    · exact List.mem_cons_of_mem _ (ih hmore hc)
  | case9 _ _ s item rest hclass ih =>
    obtain ⟨hrest, hnone⟩ := subset_of_class? hclass
    obtain rfl | ⟨more, hmore, hc⟩ := mem_of_map_cons h hc
    · cases hnone
    · exact List.mem_cons_of_mem _ (hrest (ih hmore hc))
  | case10 => cases h
  | case11 _ _ d s _ _ _ _ _ ih =>
    obtain hitem | ⟨more, hmore, hc⟩ := mem_of_map_cons h hc
    · cases hitem
      exact List.mem_cons_self
    · exact List.mem_cons_of_mem _ (ih hmore hc)

/-- A part without wildcards is its name. -/
theorem eq_of_literal? {part : Part} {name : String} (h : part.literal? = some name) :
    part = name.toList.map .char := by
  obtain ⟨cs, hcs, rfl⟩ := Option.map_eq_some_iff.mp h
  rw [String.toList_ofList]
  clear h
  induction part generalizing cs with
  | nil =>
    cases hcs
    rfl
  | cons item part ih =>
    rw [List.mapM_cons] at hcs
    obtain ⟨c, hc, hcs⟩ := Option.bind_eq_some_iff.mp hcs
    obtain ⟨more, hmore, hcs⟩ := Option.bind_eq_some_iff.mp hcs
    cases hcs
    have hitem : item = .char c := by
      unfold Glob.Item.char? at hc
      split at hc <;> cases hc
      rfl
    rw [List.map_cons, hitem, ← ih more hmore]

theorem mergeFolders_subset (parts : List Part) : mergeFolders parts ⊆ parts := by
  fun_induction mergeFolders parts with
  | case1 p q ps h ih => exact fun x hx => List.mem_cons_of_mem _ (ih hx)
  | case2 p q ps h ih => exact List.cons_subset_cons p ih
  | case3 ps h => exact List.Subset.refl ps

/-- No slash stands in the names of a pattern. -/
theorem not_mem_of_mem_names {s name : List Char} (h : name ∈ names s) : '/' ∉ name := by
  rw [names] at h
  split at h
  · exact Text.not_mem_of_mem_splitOn ((List.dropLast_sublist _).mem h)
  · exact Text.not_mem_of_mem_splitOn h

end Glob

namespace FileTree

open Datamodel.Path (Extends Straight IsName Step)

variable {p q : Path} {name : String}

/-! ### Spelling -/

/-- The way to the folder where one is has no steps. -/
theorem of_components_eq_here (h : p.components = [.here]) :
    p.normal = [] ∧ p.isAbsolute = false := by
  rw [Path.components] at h
  split at h
  · next ss hsteps =>
    refine ⟨?_, ?_⟩
    · rw [Path.normal, hsteps]
      exact (List.cons.inj h).2
    · cases habsolute : p.isAbsolute with
      | false => rfl
      | true =>
        rw [Path.steps, habsolute] at hsteps
        cases hsteps
  · have hmem : Step.here ∈ p.steps.filter (· != .here) := h ▸ List.mem_cons_self
    simp at hmem

theorem normal_spellEntry (h : Path.isAbsolute ⟨name⟩ = false) :
    (spellEntry p name).normal = p.normal ++ Path.normal ⟨name⟩ := by
  rw [spellEntry]
  split
  · next hhere => rw [(of_components_eq_here hhere).1, List.nil_append]
  · exact Path.normal_join h

theorem up_mem_spellEntry (h : Path.isAbsolute ⟨name⟩ = false) :
    .up ∈ (spellEntry p name).steps ↔ .up ∈ p.steps ∨ .up ∈ Path.steps ⟨name⟩ := by
  rw [← Path.up_mem_normal, normal_spellEntry h, List.mem_append, Path.up_mem_normal,
    Path.up_mem_normal]

theorem extends_spellEntry (hp : p.steps ≠ []) (h : Path.isAbsolute ⟨name⟩ = false)
    (hne : (spellEntry p name).steps ≠ []) : p.Extends (spellEntry p name) where
  absolute := by
    rw [spellEntry]
    split
    · next hhere => rw [h, (of_components_eq_here hhere).2]
    · exact Path.isAbsolute_join (Path.text_ne_of_steps_ne hp) h
  steps_ne := hne
  normal := by
    rw [normal_spellEntry h]
    exact List.prefix_append _ _

theorem steps_spellEntry_ne (h : Path.isAbsolute ⟨name⟩ = false) (hne : Path.steps ⟨name⟩ ≠ []) :
    (spellEntry p name).steps ≠ [] := by
  rw [spellEntry]
  split
  · exact hne
  · simp [Path.steps_join h, hne]

/-- `q` spells the place that a way leads to from the place of `p`. -/
structure Spells (p : Path) (way : Location) (q : Path) : Prop where
  extends' : p.Extends q
  normal : q.normal = p.normal ++ way.map .down

theorem Spells.straight {way : Location} (h : Spells p way q) (hp : p.Straight) : q.Straight := by
  rw [Straight, ← Path.up_mem_normal] at hp ⊢
  simpa [h.normal] using hp

theorem filterMap_name?_down (way : Location) : (way.map Step.down).filterMap Step.name? = way := by
  rw [List.filterMap_map]
  exact List.filterMap_some

theorem Spells.place {way : Location} (h : Spells p way q) (start : Location) :
    q.place start = p.place start ++ way := by
  rw [Path.place, Path.place, h.extends'.absolute, Path.names_eq_filterMap_normal, h.normal,
    List.filterMap_append, filterMap_name?_down, Path.names_eq_filterMap_normal, List.append_assoc]

/-- Spelling name by name spells the whole way. -/
theorem spells_foldl {spelling : Path → String → Path} {way : Location}
    (hspelling : ∀ p name, p.steps ≠ [] → IsName name → Spells p [name] (spelling p name))
    (hp : p.steps ≠ []) (hway : ∀ name ∈ way, IsName name) :
    Spells p way (way.foldl spelling p) := by
  induction way generalizing p with
  | nil => exact ⟨.refl hp, (List.append_nil _).symm⟩
  | cons name way ih =>
    obtain ⟨hname, hway⟩ := List.forall_mem_cons.mp hway
    have hfirst := hspelling p name hp hname
    have hmore := ih hfirst.extends'.steps_ne hway
    refine ⟨hfirst.extends'.trans hmore.extends', ?_⟩
    rw [List.foldl_cons, hmore.normal, hfirst.normal, List.append_assoc]
    rfl

theorem normal_of_isName (h : IsName name) : Path.normal ⟨name⟩ = [.down name] := by
  rw [Path.normal, Path.steps_of_isName h]
  rfl

theorem spells_spellEntry (p : Path) (name : String) (hp : p.steps ≠ []) (hname : IsName name) :
    Spells p [name] (spellEntry p name) := by
  have habsolute := Path.isAbsolute_of_not_mem (p := ⟨name⟩) hname.2.2.2
  have hne := steps_spellEntry_ne (p := p) habsolute (by simp [Path.steps_of_isName hname])
  refine ⟨extends_spellEntry hp habsolute hne, ?_⟩
  rw [normal_spellEntry habsolute, normal_of_isName hname]
  rfl

theorem spells_join (p : Path) (name : String) (hp : p.steps ≠ []) (hname : IsName name) :
    Spells p [name] (p.join ⟨name⟩) := by
  have habsolute := Path.isAbsolute_of_not_mem (p := ⟨name⟩) hname.2.2.2
  refine ⟨Path.extends_join hp habsolute, ?_⟩
  rw [Path.normal_join habsolute, normal_of_isName hname]
  rfl

/-! ### Expanding -/

/-- The names in a pattern hold no slash. -/
def Slashless (parts : List Glob.Part) : Prop :=
  ∀ part ∈ parts, ∀ name, part.literal? = some name → '/' ∉ name.toList

theorem slashless_of_ofText {s : List Char} {g : Glob} (h : Glob.ofText s = .ok g) :
    Slashless g.parts := by
  obtain ⟨_, -, h⟩ := exists_of_bind h
  obtain ⟨parts, hparts, h⟩ := exists_of_bind h
  cases h
  intro part hpart name hliteral hslash
  obtain ⟨piece, hpiece, hread⟩ := forall_mem_of_mapM hparts part (Glob.mergeFolders_subset _ hpart)
  have hchar : .char '/' ∈ part := by
    rw [Glob.eq_of_literal? hliteral]
    exact List.mem_map_of_mem hslash
  exact Glob.not_mem_of_mem_names hpiece (Glob.mem_of_readItems hread hchar)

theorem absolute_of_ofText {s : List Char} {g : Glob} (h : Glob.ofText s = .ok g) :
    g.absolute = (s.head? == some '/') := by
  obtain ⟨_, -, h⟩ := exists_of_bind h
  obtain ⟨parts, -, h⟩ := exists_of_bind h
  cases h
  rfl

/-- The paths that fit one part, or `**` and the part after it, on a way from a folder. -/
def reach (t : FileTree) (part : Glob.Part) (parts : List Glob.Part) (p : Path)
    (loc way : Location) : Option Path :=
  if part.isFolders then
    match parts with
    | [] => if t.lookup? (loc ++ way) = some .folder then some (way.foldl spellEntry p) else none
    | part :: _ =>
      if way.getLast?.any fun name => Glob.fits part name.toList then
        some (way.foldl spellEntry p)
      else none
  else
    match way with
    | [name] => if Glob.fits part name.toList then some (spellEntry p name) else none
    | _ => none

/-- The folder itself and the one above it, where a part that begins with a dot fits them. -/
def specials (part : Glob.Part) (p : Path) : List Path :=
  if !part.isFolders && part.head? == some (.char '.') then
    (["..", "."].filter fun name => Glob.fits part name.toList).map fun name => p.join ⟨name⟩
  else []

/-- Whether a name leads on from a path. -/
def leadsOn (t : FileTree) (p : Path) (name : String) : Bool :=
  if name == "." || name == ".." then t.isFolder p else t.has (spellEntry p name)

/-- The paths that fit the first part of a pattern, or `**` and the part after it. -/
def nexts (t : FileTree) (part : Glob.Part) (parts : List Glob.Part) (p : Path) : List Path :=
  match part.literal? with
  | some name => if t.leadsOn p name then [spellEntry p name] else []
  | none =>
    match t.folder? p with
    | none => []
    | some loc => specials part p ++ (t.ways loc).filterMap (t.reach part parts p loc)

/-- The parts that `nexts` leaves. -/
def rest (part : Glob.Part) (parts : List Glob.Part) : List Glob.Part :=
  if part.literal? = none ∧ part.isFolders = true then parts.tail else parts

variable {t : FileTree} {part : Glob.Part} {parts : List Glob.Part}

theorem nexts_of_folder? {loc : Location} (hpart : part.literal? = none)
    (hp : t.folder? p = some loc) : t.nexts part parts p =
      specials part p ++ (t.ways loc).filterMap (t.reach part parts p loc) := by
  rw [nexts, hpart, hp]

theorem flatMap_filterMap {α β γ : Type} (f : α → Option β) (g : β → List γ) (xs : List α) :
    (xs.filterMap f).flatMap g = xs.flatMap fun x => (f x).toList.flatMap g := by
  rw [List.filterMap_eq_flatMap_toList, List.flatMap_assoc]

/-- Below a folder, the ways that fit are those of the sorted entries that do. -/
theorem flatMap_reach (part : Glob.Part) (parts : List Glob.Part) (p : Path) (loc : Location)
    (f : Path → List Path) :
    ((t.ways loc).filterMap (t.reach part parts p loc)).flatMap f =
      (t.sortedBelow loc).flatMap fun x => (t.reach part parts p loc x.1).toList.flatMap f := by
  rw [flatMap_filterMap, ways, List.flatMap_map]

theorem expand_nil (t : FileTree) (p : Path) : t.expand [] p = [p] := rfl

/-- **Expanding a pattern** is going on from each of the next paths. -/
theorem expand_cons (ht : t.WellFormed) (part : Glob.Part) (parts : List Glob.Part) (p : Path) :
    t.expand (part :: parts) p = (t.nexts part parts p).flatMap (t.expand (rest part parts)) := by
  rw [expand.eq_def, nexts, rest]
  simp only
  cases hliteral : part.literal? with
  | some name =>
    simp only [leadsOn]
    split <;> split <;> simp
  | none =>
    cases hfolder : t.folder? p with
    | none => rfl
    | some loc =>
      simp only [List.flatMap_append, flatMap_reach]
      cases hfolders : part.isFolders with
      | true =>
        simp only [specials, hfolders, Bool.not_true, Bool.false_and, Bool.false_eq_true, if_false,
          List.flatMap_nil, List.nil_append, if_true, and_self]
        cases parts with
        | nil =>
          have hexpand : t.expand [] = fun q => [q] := funext t.expand_nil
          rw [List.tail_nil, hexpand, ← List.filterMap_eq_map, List.filterMap_filter,
            List.filterMap_eq_flatMap_toList]
          refine List.flatMap_congr fun x hx => ?_
          obtain ⟨-, he⟩ := ht.mem_below.mp (List.mem_mergeSort.mp hx)
          simp only [reach, hfolders, if_true, he, Option.some.injEq]
          cases x.2 <;> simp
        | cons part' parts =>
          refine List.flatMap_congr fun x _ => ?_
          simp only [reach, hfolders, if_true, List.tail_cons]
          split <;> simp
      | false =>
        simp only [specials, hfolders, Bool.not_false, Bool.true_and, Bool.false_eq_true, if_false,
          and_false, beq_iff_eq]
        congr 1
        · split
          · rw [List.flatMap_map]
          · rfl
        · rw [List.filter_filterMap, flatMap_filterMap]
          refine List.flatMap_congr fun x _ => ?_
          obtain ⟨way, e⟩ := x
          simp only [reach, hfolders, Bool.false_eq_true, if_false]
          rcases way with _ | ⟨name, _ | ⟨_, _⟩⟩
          · rfl
          · simp only [Option.filter_some]
            split <;> simp
          · rfl

theorem rest_subset (part : Glob.Part) (parts : List Glob.Part) : rest part parts ⊆ parts := by
  rw [rest]
  split
  · exact (List.tail_sublist parts).subset
  · exact List.Subset.refl parts

theorem length_rest_le (part : Glob.Part) (parts : List Glob.Part) :
    (rest part parts).length ≤ parts.length := by
  rw [rest]
  split
  · simp
  · exact Nat.le_refl _

theorem spells_of_reach {loc way : Location} (hp : p.steps ≠ []) (hway : ∀ name ∈ way, IsName name)
    (h : t.reach part parts p loc way = some q) : Spells p way q := by
  have hspells := spells_foldl spells_spellEntry hp hway
  unfold reach at h
  split at h
  · split at h <;> split at h
    · cases h
      exact hspells
    · cases h
    · cases h
      exact hspells
    · cases h
  · split at h
    · split at h
      · cases h
        exact hspells
      · cases h
    · cases h

theorem isName_of_mem_ways {loc way : Location} (ht : t.WellFormed) (h : way ∈ t.ways loc) :
    ∀ name ∈ way, IsName name := by
  obtain ⟨-, e, he⟩ := ht.mem_ways.mp h
  exact fun name hname => ht.isName he name (List.mem_append_right _ hname)

/-- The special paths are those of the dots that fit. -/
theorem cases_specials (h : q ∈ specials part p) :
    (part.head? == some (.char '.')) = true ∧ ∃ name, (name = ".." ∨ name = ".") ∧
      Glob.fits part name.toList = true ∧ q = p.join ⟨name⟩ := by
  rw [specials] at h
  split at h
  · next hdot =>
    obtain ⟨name, hname, rfl⟩ := List.mem_map.mp h
    obtain ⟨hdots, hfits⟩ := List.mem_filter.mp hname
    rw [Bool.and_eq_true] at hdot
    exact ⟨hdot.2, name, by simpa using hdots, hfits, rfl⟩
  · cases h

/-- **A path that fits a part** is that of its text, a special one, or at the end of a way. -/
theorem cases_nexts (h : q ∈ t.nexts part parts p) :
    (∃ name, part.literal? = some name ∧ t.leadsOn p name = true ∧ q = spellEntry p name) ∨
    q ∈ specials part p ∨
    ∃ loc, ∃ way ∈ t.ways loc, t.reach part parts p loc way = some q := by
  rw [nexts] at h
  split at h
  · next name hliteral =>
    split at h
    · next hthere => exact .inl ⟨name, hliteral, hthere, List.mem_singleton.mp h⟩
    · cases h
  · split at h
    · cases h
    · next loc _ =>
      rcases List.mem_append.mp h with h | h
      · exact .inr (.inl h)
      · exact .inr (.inr ⟨loc, List.mem_filterMap.mp h⟩)

theorem extends_of_mem_specials (hp : p.steps ≠ []) (hq : q ∈ specials part p) : p.Extends q := by
  obtain ⟨-, name, hdots, -, rfl⟩ := cases_specials hq
  refine Path.extends_join hp (Path.isAbsolute_of_not_mem ?_)
  rcases hdots with rfl | rfl <;> decide

theorem steps_ne_of_find {loc : Location} {e : Entry} (h : t.find p = .ok (loc, e)) :
    p.steps ≠ [] :=
  (exists_walk_of_findSteps (find_eq_ok_iff.mp h).1).1

theorem extends_of_leadsOn (hp : p.steps ≠ []) (hslash : '/' ∉ name.toList)
    (h : t.leadsOn p name = true) : p.Extends (spellEntry p name) := by
  have habsolute := Path.isAbsolute_of_not_mem (p := ⟨name⟩) hslash
  refine extends_spellEntry hp habsolute ?_
  rw [leadsOn] at h
  split at h
  · next hdots =>
    refine steps_spellEntry_ne habsolute ?_
    simp only [Bool.or_eq_true, beq_iff_eq] at hdots
    rcases hdots with rfl | rfl <;> decide
  · obtain ⟨loc, e, hfind⟩ := has_iff.mp h
    exact steps_ne_of_find hfind

theorem extends_of_mem_nexts (ht : t.WellFormed) (hparts : Slashless (part :: parts))
    (hp : p.steps ≠ []) (hq : q ∈ t.nexts part parts p) : p.Extends q := by
  rcases cases_nexts hq with ⟨name, hliteral, hthere, rfl⟩ | hq | ⟨loc, way, hway, hreach⟩
  · exact extends_of_leadsOn hp (hparts part List.mem_cons_self name hliteral) hthere
  · exact extends_of_mem_specials hp hq
  · exact (spells_of_reach hp (isName_of_mem_ways ht hway) hreach).extends'

theorem slashless_rest (h : Slashless (part :: parts)) : Slashless (rest part parts) :=
  fun part hpart => h part (List.mem_cons_of_mem _ (rest_subset _ _ hpart))

/-- **Every path that fits goes on** from the one where the search began. -/
theorem extends_of_mem_expand {parts : List Glob.Part} {p : Path} (ht : t.WellFormed)
    (hparts : Slashless parts) (hp : p.steps ≠ []) (hq : q ∈ t.expand parts p) :
    p.Extends q := by
  match parts with
  | [] =>
    rw [expand_nil, List.mem_singleton] at hq
    subst hq
    exact .refl hp
  | part :: more =>
    rw [expand_cons ht, List.mem_flatMap] at hq
    obtain ⟨next, hnext, hq⟩ := hq
    have hfirst := extends_of_mem_nexts ht hparts hp hnext
    exact hfirst.trans (extends_of_mem_expand ht (slashless_rest hparts) hfirst.steps_ne hq)
termination_by parts.length
decreasing_by exact Nat.lt_succ_of_le (length_rest_le _ _)

/-! ### Going up -/

/-- Whether a part fits the folder above. -/
def leadsUp (part : Glob.Part) : Bool :=
  part.head? == some (.char '.') && Glob.fits part ['.', '.']

theorem leadsUp_of_literal (h : part.literal? = some "..") : leadsUp part = true := by
  rw [Glob.eq_of_literal? h]
  simp [leadsUp, Glob.fits]

theorem up_mem_steps_iff (hslash : '/' ∉ name.toList) : .up ∈ Path.steps ⟨name⟩ ↔ name = ".." := by
  have hpieces : Path.pieces ⟨name⟩ = [name.toList] := List.splitOn_eq_singleton hslash
  rw [Path.steps, Path.isAbsolute_of_not_mem (p := ⟨name⟩) hslash, hpieces]
  constructor
  · intro h
    obtain ⟨piece, hpiece, h⟩ := List.mem_filterMap.mp h
    rw [List.mem_singleton] at hpiece
    subst hpiece
    unfold Step.ofPiece? at h
    split at h
    · cases h
    · cases h
    · next hup => exact String.ext hup
    · cases h
  · rintro rfl
    decide

theorem straight_of_mem_specials (hup : leadsUp part = false) (hstraight : p.Straight)
    (hq : q ∈ specials part p) : q.Straight := by
  obtain ⟨hdot, name, rfl | rfl, hfits, rfl⟩ := cases_specials hq
  · rw [leadsUp, hdot, Bool.true_and] at hup
    exact absurd hfits (by simpa using hup)
  · have hhere : Path.Straight ⟨"."⟩ := by
      rw [Path.Straight]
      decide
    exact hstraight.join hhere (by decide)

theorem straight_of_mem_nexts (ht : t.WellFormed) (hslash : Slashless (part :: parts))
    (hup : leadsUp part = false) (hp : p.steps ≠ []) (hstraight : p.Straight)
    (hq : q ∈ t.nexts part parts p) : q.Straight := by
  rcases cases_nexts hq with ⟨name, hliteral, -, rfl⟩ | hq | ⟨loc, way, hway, hreach⟩
  · have hname := hslash part List.mem_cons_self name hliteral
    rw [Path.Straight, up_mem_spellEntry (Path.isAbsolute_of_not_mem hname),
      up_mem_steps_iff hname, not_or]
    refine ⟨hstraight, ?_⟩
    rintro rfl
    rw [leadsUp_of_literal hliteral] at hup
    cases hup
  · exact straight_of_mem_specials hup hstraight hq
  · exact (spells_of_reach hp (isName_of_mem_ways ht hway) hreach).straight hstraight

/-- **Paths that fit do not go up** if no part of the pattern fits the folder above. -/
theorem straight_of_mem_expand {parts : List Glob.Part} {p : Path} (ht : t.WellFormed)
    (hslash : Slashless parts) (hup : ∀ part ∈ parts, leadsUp part = false) (hp : p.steps ≠ [])
    (hstraight : p.Straight) (hq : q ∈ t.expand parts p) : q.Straight := by
  match parts with
  | [] =>
    rw [expand_nil, List.mem_singleton] at hq
    exact hq ▸ hstraight
  | part :: more =>
    rw [expand_cons ht, List.mem_flatMap] at hq
    obtain ⟨next, hnext, hq⟩ := hq
    have hfirst := straight_of_mem_nexts ht hslash (hup part List.mem_cons_self) hp hstraight hnext
    have hne := (extends_of_mem_nexts ht hslash hp hnext).steps_ne
    have hmore : ∀ part' ∈ rest part more, leadsUp part' = false := fun part' hpart' =>
      hup part' (List.mem_cons_of_mem _ (rest_subset _ _ hpart'))
    exact straight_of_mem_expand ht (slashless_rest hslash) hmore hne hfirst hq
termination_by parts.length
decreasing_by exact Nat.lt_succ_of_le (length_rest_le _ _)

/-! ### Scanning -/

theorem exists_of_mem_scan (ht : t.WellFormed) (hp : p.steps ≠ []) (hq : q ∈ t.scan p) :
    ∃ loc way c, t.find p = .ok (loc, .folder) ∧ t.lookup? (loc ++ way) = some (.file c) ∧
      Spells p way q := by
  rw [ht.scan_eq] at hq
  split at hq
  · cases hq
  · next loc hfolder =>
    obtain ⟨way, hway, rfl⟩ := List.mem_map.mp hq
    obtain ⟨-, c, hc⟩ := ht.mem_schemaFiles.mp hway
    exact ⟨loc, way, c, folder?_eq_some_iff.mp hfolder, hc,
      spells_foldl spells_join hp (ht.isName_of_mem_schemaFiles hway)⟩

theorem extends_of_mem_scan (ht : t.WellFormed) (hp : p.steps ≠ []) (hq : q ∈ t.scan p) :
    p.Extends q := by
  obtain ⟨_, _, _, -, -, hspells⟩ := exists_of_mem_scan ht hp hq
  exact hspells.extends'

/-- The path from which a pattern is expanded. -/
def origin (g : Glob) : Path := ⟨if g.absolute then "/" else "."⟩

theorem steps_origin_ne (g : Glob) : (origin g).steps ≠ [] := by
  rw [origin]
  cases g.absolute <;> decide

theorem straight_origin (g : Glob) : (origin g).Straight := by
  rw [origin]
  cases g.absolute <;> decide

theorem isAbsolute_origin (g : Glob) : (origin g).isAbsolute = g.absolute := by
  rw [origin]
  cases g.absolute <;> decide

theorem mem_expand_of_mem_glob {g : Glob} (h : q ∈ t.glob g) : q ∈ t.expand g.parts (origin g) := by
  rw [glob] at h
  split at h
  · exact List.mem_of_mem_filter h
  · exact h

end FileTree

end Datamodel
