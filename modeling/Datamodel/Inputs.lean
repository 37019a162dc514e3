import Datamodel.FileTree
import Datamodel.Glob

/-! Which files a list of patterns names.

A pattern with wildcards stands for the files that fit it, a folder for the schema files in it, and
any other text for the file of that path. `resolveInputs` puts the files of all patterns into one
list, in which no file comes twice and none that is excluded. -/

namespace Datamodel

/-- The file that a merge is usually written to. -/
def entryName : String := "schema.prisma"

/-- The end of the names of files that are left out. -/
def ignoredEnding : String := ".ignore.prisma"

/-- Whether a file of this name is picked up from a folder. -/
def isSchemaName (name : String) : Bool :=
  Path.nameExtension? name == some "prisma" && name != entryName &&
    !ignoredEnding.toList.isSuffixOf name.toList

/-- Whether the file at the end of a path is picked up from a folder. -/
def Path.isSchemaFile (p : Path) : Bool := p.fileName?.any isSchemaName

/-- A sorted set of paths with one more, unless one with its components is there. -/
def insertPath (paths : List Path) (p : Path) : List Path :=
  match paths with
  | [] => [p]
  | q :: qs =>
    if List.lex p.components q.components Path.Step.before then p :: q :: qs
    else if p.components = q.components then q :: qs
    else q :: insertPath qs p

namespace FileTree

/-! ### Folders -/

/-- The names in a folder, each with what it is the name of. -/
def entriesIn (t : FileTree) (loc : Location) : List (String × Entry) :=
  (t.below loc).filterMap fun
    | ([name], e) => some (name, e)
    | _ => none

/-- The schema files in a folder that is spelled `dir`. -/
def filesIn (t : FileTree) (loc : Location) (dir : Path) : List Path :=
  (t.entriesIn loc).filterMap fun
    | (name, .file _) => if (dir.join ⟨name⟩).isSchemaFile then some (dir.join ⟨name⟩) else none
    | (_, .folder) => none

/-- The names of the folders in a folder. -/
def foldersIn (t : FileTree) (loc : Location) : List String :=
  (t.entriesIn loc).filterMap fun
    | (name, .folder) => some name
    | (_, .file _) => none

theorem mem_entriesIn {t : FileTree} {loc : Location} {name : String} {e : Entry} :
    (name, e) ∈ t.entriesIn loc ↔ ([name], e) ∈ t.below loc := by
  rw [entriesIn, List.mem_filterMap]
  constructor
  · rintro ⟨⟨way, e'⟩, hmem, hsome⟩
    split at hsome <;> grind
  · exact fun hmem => ⟨_, hmem, rfl⟩

theorem mem_foldersIn {t : FileTree} {loc : Location} {name : String} :
    name ∈ t.foldersIn loc ↔ ([name], .folder) ∈ t.below loc := by
  rw [← mem_entriesIn, foldersIn, List.mem_filterMap]
  constructor
  · rintro ⟨⟨name', e⟩, hmem, hsome⟩
    split at hsome <;> grind
  · exact fun hmem => ⟨_, hmem, rfl⟩

/-- Whether a location is below another one. -/
def isBelow (loc l : Location) : Bool := loc.isPrefixOf l && loc.length < l.length

/-- How much there is below a location. -/
def countBelow (t : FileTree) (loc : Location) : Nat := t.entries.countP fun x => isBelow loc x.1

theorem eq_of_isPrefixOf? {loc l more : Location} (h : loc.isPrefixOf? l = some more) :
    l = loc ++ more := by
  induction loc generalizing l with
  | nil =>
    cases l with
    | nil => exact Option.some.inj h
    | cons name l => exact Option.some.inj h
  | cons first loc ih =>
    cases l with
    | nil => cases h
    | cons name l =>
      have h : (if first == name then loc.isPrefixOf? l else none) = some more := h
      split at h
      · next heq => rw [eq_of_beq heq, ih h, List.cons_append]
      · cases h

theorem mem_entries_of_mem_foldersIn {t : FileTree} {loc : Location} {name : String}
    (h : name ∈ t.foldersIn loc) : (loc ++ [name], .folder) ∈ t.entries := by
  obtain ⟨⟨l, e⟩, hmem, hbelow⟩ := List.mem_filterMap.mp (mem_foldersIn.mp h)
  simp only at hbelow
  split at hbelow
  · next hprefix =>
    cases hbelow
    rwa [eq_of_isPrefixOf? hprefix] at hmem
  · cases hbelow

/-- What is below a folder is below the one it is in. -/
theorem countP_isBelow_le (loc : Location) (name : String) (xs : List (Location × Entry)) :
    xs.countP (fun x => isBelow (loc ++ [name]) x.1) ≤ xs.countP (fun x => isBelow loc x.1) := by
  refine List.countP_mono_left fun x _ hbelow => ?_
  simp only [isBelow, Bool.and_eq_true, List.isPrefixOf_iff_prefix, decide_eq_true_eq,
    List.length_append] at hbelow ⊢
  exact ⟨(List.prefix_append loc [name]).trans hbelow.1, by omega⟩

/-- Below a folder there is less than below the one it is in: it is not below itself. -/
theorem countBelow_lt {t : FileTree} {loc : Location} {name : String}
    (h : name ∈ t.foldersIn loc) : t.countBelow (loc ++ [name]) < t.countBelow loc := by
  obtain ⟨before, after, hentries⟩ := List.append_of_mem (mem_entries_of_mem_foldersIn h)
  have hself : isBelow (loc ++ [name]) (loc ++ [name]) = false := by simp [isBelow]
  have houter : isBelow loc (loc ++ [name]) = true := by
    simp [isBelow, List.isPrefixOf_iff_prefix]
  have hbefore := countP_isBelow_le loc name before
  have hafter := countP_isBelow_le loc name after
  simp only [countBelow, hentries, List.countP_append, List.countP_cons, hself, houter,
    Bool.false_eq_true, if_false, if_true]
  omega

/-- The schema files in a folder that is spelled `dir`, and in the folders below it. Each folder in
it is scanned by itself, and what is found there is put to the files as a sorted set. -/
def scanFolder (t : FileTree) (loc : Location) (dir : Path) : List Path :=
  let nested := (t.foldersIn loc).attach.map fun ⟨name, _⟩ =>
    t.scanFolder (loc ++ [name]) (dir.join ⟨name⟩)
  nested.flatten.foldl insertPath ((t.filesIn loc dir).foldl insertPath [])
termination_by t.countBelow loc
decreasing_by exact countBelow_lt ‹_›

/-- The schema files in a folder and in the folders below it, sorted by component. What is no
folder has none. -/
def scan (t : FileTree) (dir : Path) : List Path :=
  match t.folder? dir with
  | none => []
  | some loc => t.scanFolder loc dir

/-! ### Patterns -/

/-- The path of an entry of a folder. From the folder where one is, it is the name alone. -/
def spellEntry (p : Path) (name : String) : Path :=
  if p.components = [.here] then ⟨name⟩ else p.join ⟨name⟩

/-- The files and folders below a folder, each after the folder it is in, and otherwise sorted by
name. -/
def sortedBelow (t : FileTree) (loc : Location) : List (Location × Entry) :=
  (t.below loc).mergeSort fun a b => Location.le a.1 b.1

/-- The paths that fit the parts of a pattern, from a path on. The folder itself and the one above
it come up only where the part begins with a dot. -/
def expand (t : FileTree) : List Glob.Part → Path → List Path
  | [], p => [p]
  | part :: parts, p =>
    match part.literal? with
    | some name =>
      let next := spellEntry p name
      let there := if name == "." || name == ".." then t.isFolder p else t.has next
      if there then t.expand parts next else []
    | none =>
      match t.folder? p with
      | none => []
      | some loc =>
        if part.isFolders then
          match parts with
          | [] => ((t.sortedBelow loc).filter (·.2 == .folder)).map fun x =>
              x.1.foldl spellEntry p
          | part :: parts => (t.sortedBelow loc).flatMap fun (way, _) =>
              if way.getLast?.any fun name => Glob.fits part name.toList then
                t.expand parts (way.foldl spellEntry p)
              else []
        else
          let special := if part.head? = some (.char '.') then
              ["..", "."].filter fun name => Glob.fits part name.toList
            else []
          let entries := ((t.sortedBelow loc).filterMap fun
            | ([name], _) => some name
            | _ => none).filter fun name => Glob.fits part name.toList
          special.flatMap (fun name => t.expand parts (p.join ⟨name⟩)) ++
            entries.flatMap (fun name => t.expand parts (spellEntry p name))

/-- The paths that fit a pattern. -/
def glob (t : FileTree) (g : Glob) : List Path :=
  let found := t.expand g.parts ⟨if g.absolute then "/" else "."⟩
  if g.foldersOnly then found.filter t.isFolder else found

end FileTree

/-- Whether a text is taken for a pattern with wildcards. -/
def hasWildcard (pattern : String) : Bool :=
  pattern.toList.any fun c => c == '*' || c == '?' || c == '['

/-- A pattern that cannot be read. -/
structure PatternError where
  pattern : String
  cause : Glob.Error
  deriving DecidableEq, Repr

def PatternError.message (e : PatternError) : String :=
  "invalid input pattern `" ++ e.pattern ++ "`: " ++ e.cause.message

/-- The text of a pattern as seen from `base`, whose own characters stand for themselves. -/
def rootedPattern (base : Path) (pattern : String) : List Char :=
  if Path.isAbsolute ⟨pattern⟩ then pattern.toList
  else Glob.escape base.text.toList ++ '/' :: pattern.toList

/-- The files that a pattern stands for. -/
def expandPattern (t : FileTree) (base : Path) (pattern : String) :
    Except PatternError (List Path) :=
  if hasWildcard pattern then
    match Glob.ofText (rootedPattern base pattern) with
    | .error cause => .error { pattern, cause }
    | .ok g => .ok (((t.glob g).filter t.isFile).mergeSort Path.le)
  else
    let p := base.join ⟨pattern⟩
    .ok (if t.isFolder p then t.scan p else [p])

/-- The paths whose normal form is not in `seen`, each normal form once. -/
def distinct (seen : List (List Path.Step)) : List Path → List Path
  | [] => []
  | p :: ps => if p.normal ∈ seen then distinct seen ps else p :: distinct (p.normal :: seen) ps

/-- Whether a path is the same as one of the excluded ones, which are seen from `base`. -/
def isExcluded (base : Path) (exclude : List Path) (p : Path) : Bool :=
  exclude.any fun q => (base.join q).normal == p.normal

/-- The files that the patterns stand for, in the order of the patterns, without the excluded
ones. Of several paths of one normal form the first counts. -/
def resolveInputs (t : FileTree) (base : Path) (patterns : List String) (exclude : List Path) :
    Except PatternError (List Path) := do
  let found ← patterns.mapM (expandPattern t base)
  return distinct [] (found.flatten.filter (!isExcluded base exclude ·))

end Datamodel
