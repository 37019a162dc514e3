import Datamodel.Proofs.Files.Growth
import Datamodel.Proofs.Files.Paths
import Mathlib.Data.List.Induction

/-! Trees that can exist.

In a well-formed tree everything on the way to a file or a folder is a folder, so looking up is
enough to know where a straight path leads (`FileTree.find_eq_folder_iff`). Making folders and
writing files keep a tree well-formed. -/

namespace Datamodel

open Datamodel.Path (IsName Step)

namespace FileTree

variable {t t' : FileTree} {loc way : Location} {e : Entry} {name : String} {steps : List Step}

/-! ### Looking up -/

theorem mem_entries_of_lookup? (hne : loc ≠ []) (h : t.lookup? loc = some e) :
    (loc, e) ∈ t.entries := by
  rw [lookup?, if_neg hne, List.lookup_eq_some_iff] at h
  obtain ⟨before, after, hentries, -⟩ := h
  rw [hentries]
  simp

/-- What is below a location is an entry with a longer way. -/
theorem of_below {x y : Location × Entry}
    (h : (match x with
      | (l, e) => match loc.isPrefixOf? l with
        | some (name :: more) => some (name :: more, e)
        | _ => none) = some y) : y.1 ≠ [] ∧ x = (loc ++ y.1, y.2) := by
  obtain ⟨l, e⟩ := x
  simp only at h
  split at h
  · next name more hbelow =>
    cases h
    rw [List.isPrefixOf?_eq_some_iff_append_eq.mp hbelow]
    exact ⟨List.cons_ne_nil _ _, rfl⟩
  · cases h

namespace WellFormed

theorem lookup?_of_mem (h : t.WellFormed) (hmem : (loc, e) ∈ t.entries) :
    t.lookup? loc = some e := by
  have hne : loc ≠ [] := h.ne_root _ hmem
  obtain ⟨before, after, hentries⟩ := List.append_of_mem hmem
  have hnodup := h.nodup
  rw [hentries, List.map_append, List.nodup_append] at hnodup
  rw [lookup?, if_neg hne, List.lookup_eq_some_iff]
  refine ⟨before, after, hentries, fun p hp => ?_⟩
  exact bne_iff_ne.mpr (hnodup.2.2 p.1 (List.mem_map_of_mem hp) loc (by simp)).symm

/-- What a location goes through is a folder. -/
theorem lookup?_of_append (h : t.WellFormed) (hway : way ≠ [])
    (he : t.lookup? (loc ++ way) = some e) : t.lookup? loc = some .folder := by
  induction way using List.reverseRecOn generalizing e with
  | nil => exact absurd rfl hway
  | append_singleton way name ih =>
    have hfolder := h.folders _ (mem_entries_of_lookup? (by simp) he)
    rw [← List.append_assoc, List.dropLast_concat] at hfolder
    by_cases hnil : way = []
    · rwa [hnil, List.append_nil] at hfolder
    · exact ih hnil hfolder

theorem isName (h : t.WellFormed) (he : t.lookup? loc = some e) : ∀ name ∈ loc, IsName name := by
  by_cases hne : loc = []
  · rw [hne]
    exact nofun
  · exact h.names _ (mem_entries_of_lookup? hne he)

/-- Below a location is what is found on a way from there. -/
theorem mem_below (h : t.WellFormed) :
    (way, e) ∈ t.below loc ↔ way ≠ [] ∧ t.lookup? (loc ++ way) = some e := by
  constructor
  · intro hmem
    obtain ⟨x, hx, hsome⟩ := List.mem_filterMap.mp hmem
    obtain ⟨hway, rfl⟩ := of_below hsome
    exact ⟨hway, h.lookup?_of_mem hx⟩
  · rintro ⟨hway, he⟩
    have hentry := mem_entries_of_lookup? (by simp [hway]) he
    refine List.mem_filterMap.mpr ⟨_, hentry, ?_⟩
    obtain ⟨name, more, rfl⟩ := List.exists_cons_of_ne_nil hway
    have hbehind : loc.isPrefixOf? (loc ++ name :: more) = some (name :: more) :=
      List.isPrefixOf?_eq_some_iff_append_eq.mpr rfl
    simp only [hbehind]

end WellFormed

/-! ### Straight ways -/

/-- The steps go to names or stay. -/
def Level (steps : List Step) : Prop := .up ∉ steps ∧ .root ∉ steps

theorem Level.of_cons {s : Step} (h : Level (s :: steps)) : Level steps :=
  ⟨fun hmem => h.1 (List.mem_cons_of_mem _ hmem), fun hmem => h.2 (List.mem_cons_of_mem _ hmem)⟩

/-- A level step leads to a name, or leaves the location. -/
theorem Level.follow_eq {s : Step} (h : Level (s :: steps)) (loc : Location) :
    loc.follow s = loc ++ s.name?.toList := by
  cases s with
  | root => exact absurd List.mem_cons_self h.2
  | up => exact absurd List.mem_cons_self h.1
  | here => exact (List.append_nil loc).symm
  | down name => rfl

theorem filterMap_name?_cons (s : Step) (steps : List Step) :
    (s :: steps).filterMap Step.name? = s.name?.toList ++ steps.filterMap Step.name? := by
  cases s <;> rfl

theorem Level.walk_eq (hlevel : Level steps) (h : t.walk loc steps = .ok way) :
    way = loc ++ steps.filterMap Step.name? := by
  induction steps generalizing loc with
  | nil =>
    cases h
    exact (List.append_nil _).symm
  | cons s steps ih =>
    rw [walk] at h
    split at h
    · cases h
    · cases h
    · rw [hlevel.follow_eq] at h
      rw [ih hlevel.of_cons h, filterMap_name?_cons, List.append_assoc]

/-- A level way to a folder can be walked. -/
theorem Level.walk_of_folder (hlevel : Level steps) (ht : t.WellFormed)
    (h : t.lookup? (loc ++ steps.filterMap Step.name?) = some .folder) :
    t.walk loc steps = .ok (loc ++ steps.filterMap Step.name?) := by
  induction steps generalizing loc with
  | nil => exact congrArg Except.ok (List.append_nil loc).symm
  | cons s steps ih =>
    have hloc : t.lookup? loc = some .folder := by
      by_cases hnil : (s :: steps).filterMap Step.name? = []
      · rw [hnil, List.append_nil] at h
        exact h
      · exact ht.lookup?_of_append hnil h
    rw [filterMap_name?_cons, ← List.append_assoc] at h ⊢
    rw [walk_cons_of_folder hloc, hlevel.follow_eq]
    exact ih hlevel.of_cons h

end FileTree

namespace Path.Straight

open FileTree

variable {p : Path} {t t' : FileTree} {loc : Location} {e e' : Entry}

theorem level (h : p.Straight) : Level (p.pieces.filterMap Step.ofPiece?) :=
  ⟨fun hmem => h (List.mem_append_right _ hmem), root_not_mem_pieces⟩

theorem walk_eq (hp : p.Straight) (h : t.walk t.start p.steps = .ok loc) :
    loc = p.place t.start := by
  rw [place, names_eq]
  rw [steps] at h
  cases habsolute : p.isAbsolute <;> rw [habsolute] at h
  · exact hp.level.walk_eq h
  · change t.walk t.start (.root :: _) = .ok loc at h
    rw [walk] at h
    split at h
    · cases h
    · cases h
    · exact hp.level.walk_eq h

/-- A straight path leads to the same place in any tree with the folders on the way there. -/
theorem walk_of_folder (hp : p.Straight) (ht : t.WellFormed)
    (h : t.lookup? (p.place t.start) = some .folder) :
    t.walk t.start p.steps = .ok (p.place t.start) := by
  rw [place, names_eq] at h ⊢
  rw [steps]
  cases habsolute : p.isAbsolute <;> rw [habsolute] at h
  · exact hp.level.walk_of_folder ht h
  · show t.walk t.start (.root :: _) = _
    rw [walk_cons_of_folder ht.start]
    exact hp.level.walk_of_folder ht h

end Path.Straight

namespace FileTree

variable {t t' : FileTree} {loc : Location} {e e' : Entry} {name : String} {steps : List Step}
  {p : Path}

/-! ### Finding -/

theorem exists_walk_of_findSteps (h : t.findSteps steps = .ok (loc, e)) :
    steps ≠ [] ∧ t.walk t.start steps = .ok loc ∧ t.lookup? loc = some e := by
  simp only [findSteps] at h
  split at h
  · cases h
  · next hne =>
    split at h
    · cases h
    · next hwalk =>
      split at h
      · cases h
      · next hlookup =>
        cases h
        exact ⟨by simpa using hne, hwalk, hlookup⟩

theorem find_eq_ok_iff : t.find p = .ok (loc, e) ↔
    t.findSteps p.steps = .ok (loc, e) ∧ (p.endsInSlash = true → e = .folder) := by
  rw [find]
  split
  · next c hfound =>
    rw [hfound]
    cases p.endsInSlash <;> grind
  · next hfound =>
    cases e with
    | file c => grind
    | folder => grind

theorem folder?_eq_some_iff : t.folder? p = some loc ↔ t.find p = .ok (loc, .folder) := by
  rw [folder?]
  split <;> grind

theorem isFolder_iff : t.isFolder p ↔ ∃ loc, t.find p = .ok (loc, .folder) := by
  rw [isFolder, Option.isSome_iff_exists]
  exact exists_congr fun _ => folder?_eq_some_iff

theorem isFile_iff : t.isFile p ↔ ∃ loc c, t.find p = .ok (loc, .file c) := by
  rw [isFile]
  split <;> grind

theorem has_iff : t.has p ↔ ∃ loc e, t.find p = .ok (loc, e) := by
  rw [has]
  cases t.find p with
  | error e => exact ⟨nofun, fun ⟨_, _, h⟩ => nomatch h⟩
  | ok x => exact ⟨fun _ => ⟨x.1, x.2, rfl⟩, fun _ => rfl⟩

theorem read_eq_ok_iff {text : String} :
    t.read p = .ok text ↔ ∃ loc, t.find p = .ok (loc, .file (.text text)) := by
  rw [read]
  split <;> grind

/-- A straight path leads to the place of its names. -/
theorem place_of_find (hp : p.Straight) (h : t.find p = .ok (loc, e)) :
    loc = p.place t.start ∧ t.lookup? loc = some e := by
  obtain ⟨hsteps, -⟩ := find_eq_ok_iff.mp h
  obtain ⟨-, hwalk, he⟩ := exists_walk_of_findSteps hsteps
  exact ⟨hp.walk_eq hwalk, he⟩

/-- Whether a straight path leads to a folder depends on its place alone. -/
theorem find_eq_folder_iff (ht : t.WellFormed) (hp : p.Straight) (hne : p.steps ≠ []) :
    t.find p = .ok (loc, .folder) ↔ loc = p.place t.start ∧ t.lookup? loc = some .folder := by
  constructor
  · exact place_of_find hp
  · rintro ⟨rfl, hfolder⟩
    have hsteps := findSteps_of_walk hne (hp.walk_of_folder ht hfolder) hfolder
    exact find_eq_ok_iff.mpr ⟨hsteps, fun _ => rfl⟩

/-! ### Making and writing -/

theorem mem_putEntry {entries : List (Location × Entry)} {x : Location × Entry}
    (h : x ∈ putEntry loc e entries) : x = (loc, e) ∨ x ∈ entries := by
  induction entries with
  | nil => exact .inl (List.mem_singleton.mp h)
  | cons y entries ih =>
    obtain ⟨l, e'⟩ := y
    rw [putEntry] at h
    split at h <;> rcases List.mem_cons.mp h with rfl | h
    · exact .inl rfl
    · exact .inr (List.mem_cons_of_mem _ h)
    · exact .inr List.mem_cons_self
    · exact (ih h).imp_right (List.mem_cons_of_mem _)

theorem nodup_putEntry {entries : List (Location × Entry)} (h : (entries.map (·.1)).Nodup) :
    ((putEntry loc e entries).map (·.1)).Nodup := by
  induction entries with
  | nil => simp [putEntry]
  | cons y entries ih =>
    obtain ⟨l, e'⟩ := y
    obtain ⟨hl, hentries⟩ := List.nodup_cons.mp h
    rw [putEntry]
    split
    · next heq =>
      subst heq
      exact h
    · next hne =>
      refine List.nodup_cons.mpr ⟨fun hmem => ?_, ih hentries⟩
      obtain ⟨x, hx, hxl⟩ := List.mem_map.mp hmem
      rcases mem_putEntry hx with rfl | hx
      · exact hne hxl.symm
      · exact hl (hxl ▸ List.mem_map_of_mem hx)

namespace WellFormed

/-- A tree stays well-formed if something is put into a folder, and not in the place of one. -/
theorem put (h : t.WellFormed) (hfolder : t.lookup? loc = some .folder) (hname : IsName name)
    (hplace : t.lookup? (loc ++ [name]) ≠ some .folder) : (t.put (loc ++ [name]) e).WellFormed := by
  have hne : loc ++ [name] ≠ [] := by simp
  have hkept := folders_put (e := e) hne hplace
  refine ⟨nodup_putEntry h.nodup, fun x hx => ?_, fun x hx => ?_, fun x hx => ?_, ?_⟩
  · rcases mem_putEntry hx with rfl | hx
    · exact hne
    · exact h.ne_root x hx
  · rcases mem_putEntry hx with rfl | hx
    · intro n hn
      rcases List.mem_append.mp hn with hn | hn
      · exact h.isName hfolder n hn
      · exact List.mem_singleton.mp hn ▸ hname
    · exact h.names x hx
  · rcases mem_putEntry hx with rfl | hx
    · show (t.put _ _).lookup? (loc ++ [name]).dropLast = _
      rw [List.dropLast_concat]
      exact hkept loc hfolder
    · exact hkept _ (h.folders x hx)
  · exact hkept t.start h.start

theorem of_makeFolder (h : t.WellFormed) (hnames : ∀ name, .down name ∈ steps → IsName name)
    (hmade : t.makeFolder steps = .ok t') : t'.WellFormed := by
  obtain ⟨loc, name, hlast, hfolder, hnone, rfl⟩ := makeFolder_eq_ok_iff.mp hmade
  have hname := hnames name (List.mem_of_getLast? hlast)
  exact h.put (lastFolder_eq_ok_iff.mp hfolder).2 hname (by rw [hnone]; exact nofun)

theorem of_ensureFolder (h : t.WellFormed) (hnames : ∀ name, .down name ∈ steps → IsName name)
    (hmade : t.ensureFolder steps = .ok t') : t'.WellFormed := by
  rw [ensureFolder] at hmade
  split at hmade
  · next hmade' =>
    cases hmade
    exact h.of_makeFolder hnames hmade'
  · split at hmade
    · cases hmade
      exact h
    · cases hmade

theorem makeFolders (h : t.WellFormed) (hnames : ∀ name, .down name ∈ steps → IsName name) :
    (t.makeFolders steps).1.WellFormed := by
  fun_induction FileTree.makeFolders t steps with
  | case1 => exact h
  | case2 steps hne t' hmade => exact h.of_ensureFolder hnames hmade
  | case3 steps hne hmissing t' e hfailed ih =>
    rw [hfailed] at ih
    exact ih fun name hname => hnames name ((List.dropLast_sublist _).mem hname)
  | case4 steps hne hmissing t' hmade t'' hlast ih =>
    rw [hmade] at ih
    have ht' := ih fun name hname => hnames name ((List.dropLast_sublist _).mem hname)
    exact ht'.of_ensureFolder hnames hlast
  | case5 steps hne hmissing t' hmade e hlast ih =>
    rw [hmade] at ih
    exact ih fun name hname => hnames name ((List.dropLast_sublist _).mem hname)
  | case6 steps hne e => exact h

theorem write {text : String} (h : t.WellFormed) (hwrite : t.write p text = .ok t') :
    t'.WellFormed := by
  obtain ⟨l, hl, rfl⟩ := exists_of_map hwrite
  obtain ⟨loc, name, hlast, hfolder, -, hplace, rfl⟩ := writable_eq_ok_iff.mp hl
  have hname := Path.isName_of_down_mem (List.mem_of_getLast? hlast)
  exact h.put (lastFolder_eq_ok_iff.mp hfolder).2 hname hplace

end WellFormed

end FileTree

end Datamodel
