import Datamodel.Log
import Datamodel.Mixing

/-! The events of a run.

Each function answers with the events that go with the function of the library whose arguments it
takes, in the order in which they happen. -/

namespace Datamodel.Trace

/-! ### Loading -/

/-- A view whose name does not say that it is one will be written as a model. -/
def ofBlock : Block → List Event
  | .model b =>
    if b.isView && !{ name := b.name : Model }.isView then
      [⟨.debug, .loader "parser::resolve",
        "view name lacks \"view\", it will be rendered as a model", [("name", b.name)]⟩]
    else []
  | _ => []

/-- The events of blocks, up to the first that makes no schema. -/
def ofBlocks (declared : List Declaration) : List Block → List Event
  | [] => []
  | b :: bs => ofBlock b ++ if (b.resolve declared).isOk then ofBlocks declared bs else []

def ofResolution (blocks : List Block) : List Event :=
  match Declaration.ofBlocks blocks with
  | .ok declared => ofBlocks declared blocks
  | .error _ => []

/-- Each piece of a text that opens no model is passed over. -/
def ofNotes (source : List Char) : List Event :=
  ((Text.splitAtClosings source).filter fun piece =>
    (Notes.ofLines? (Text.lines piece)).isNone && !Text.allBlank piece).map fun _ =>
      ⟨.debug, .loader "attributes", "no model declaration in block, skipping", []⟩

def ofSource (origin source : String) : List Event :=
  let text := Text.dropMark source.toList
  (match Block.ofText (String.ofList text) with
    | .ok blocks => ofResolution blocks
    | .error _ => []) ++
  match Fragment.load origin source with
  | .error _ => []
  | .ok f => ofNotes text ++ [⟨.debug, .loader "fragment", "loaded fragment", [
      ("origin", Event.quoted origin), ("models", toString f.schema.models.length),
      ("enums", toString f.schema.enums.length)]⟩]

def ofFile (t : FileTree) (p : Path) : List Event :=
  (match t.read p with
    | .ok source => ofSource p.text source
    | .error _ => []) ++
  match Fragment.ofFile t p with
  | .ok _ => []
  | .error e => [⟨.error, .loader "fragment", "skipping schema fragment", [
      ("path", p.text), ("error", e.message)]⟩]

/-! ### Merging -/

/-- Unique indexes that are merged into those of `m`. -/
def ofUniqueIndexes (m : Model) : List Index → List Event
  | [] => []
  | index :: more =>
    ⟨.debug, .core "merge",
      if index ∈ m.uniqueIndexes then "unique index already present, skipping"
      else "adding unique index",
      [("model", m.name), ("fields", Event.quotedList index.fields)]⟩ ::
    ofUniqueIndexes (m.mergeUniqueIndex index) more

/-- Models that are merged into those of `ms`. -/
def ofModels (ms : List Model) : List Model → List Event
  | [] => []
  | incoming :: more =>
    (match ms.find? (·.name == incoming.name) with
      | none => []
      | some existing =>
        ⟨.debug, .core "merge", "merging model declaration", [("model", incoming.name)]⟩ ::
          ofUniqueIndexes existing incoming.uniqueIndexes) ++
    ofModels (mergeModel ms incoming) more

/-- Enums, each with its origin, of which those with a name in `seen` are passed over. -/
def ofEnums (seen : List String) : List (String × Enum) → List Event
  | [] => []
  | (origin, e) :: more =>
    (if seen.contains e.name then
      [⟨.warn, .core "select", "enum already defined, keeping the first definition",
        [("name", e.name), ("origin", origin)]⟩]
    else []) ++ ofEnums (e.name :: seen) more

/-- The fragment that something is taken from. -/
def ofChoice (what : String) (f? : Option Fragment) : List Event :=
  f?.toList.map fun f => ⟨.debug, .core "select", "using " ++ what, [("origin", f.origin)]⟩

def ofMerge (fragments : List Fragment) (policy : Policy) : List Event :=
  ofModels [] (fragments.flatMap (·.schema.models)) ++
  ofEnums [] (fragments.flatMap fun f => f.schema.enums.map fun e => (f.origin, e)) ++
  ofChoice "data sources" (datasourceFragment? fragments policy) ++
  ofChoice "generators" (generatorFragment? fragments)

/-! ### Mixing -/

/-- A pattern and the files that it stands for. -/
def ofPattern (base : Path) (exclude : List Path) (pattern : String) (found : List Path) :
    List Event :=
  (if hasWildcard pattern && found.isEmpty then
    [⟨.warn, .loader "discover", "input pattern matched no files",
      [("pattern", Event.quoted pattern)]⟩]
  else []) ++
  (found.filter (isExcluded base exclude)).map fun p =>
    ⟨.debug, .loader "discover", "skipping mixer output", [("path", p.text)]⟩

/-- The patterns up to the first that cannot be read, and what was found in all. -/
def ofInputs (t : FileTree) (base : Path) (patterns : List String) (exclude : List Path) :
    List Event :=
  let found := patterns.map fun pattern => (pattern, expandPattern t base pattern)
  (found.takeWhile (·.2.isOk)).flatMap (fun (pattern, paths) =>
    ofPattern base exclude pattern (paths.toOption.getD [])) ++
  match resolveInputs t base patterns exclude with
  | .error _ => []
  | .ok inputs => [⟨.debug, .loader "discover", "resolved input files",
      [("count", toString inputs.length)]⟩]

def ofMix (t : FileTree) (root : Path) (m : Mixer) : List Event :=
  ofInputs t root m.input [⟨m.output⟩] ++
  match m.inputs t root with
  | .error _ => []
  | .ok inputs =>
    (if inputs.isEmpty then
      [⟨.warn, .loader "mixer", "no input files found", [("mixer", Event.quoted m.label)]⟩]
    else []) ++
    inputs.flatMap (ofFile t) ++ ofMerge (loadFragments t inputs) m.datasource

/-- What came of a mixer, which wrote its output or only mixed. -/
def ofResult (write : Bool) (label : String) : Except MixError Mix → List Event
  | .error e => [⟨.warn, .loader "mixer", "mixer failed",
      [("mixer", Event.quoted label), ("error", e.message)]⟩]
  | .ok made =>
    if write then
      [⟨.info, .loader "mixer", "wrote schema", [
        ("mixer", made.label), ("fragments", toString made.fragments),
        ("models", toString made.schema.models.length), ("output", made.output.text)]⟩]
    else []

def ofRunAll (write : Bool) (root : Path) (t : FileTree) : List Mixer → List Event
  | [] => []
  | m :: ms =>
    let (t', result) := if write then m.run t root else (t, m.mix t root)
    ofMix t root m ++ ofResult write m.label result ++ ofRunAll write root t' ms

end Datamodel.Trace
