import Datamodel.Proofs.Notes.Fields

/-! The lines of printed blocks and what they say about storage.

In a model the documentation and the attributes of the block say nothing, a secondary index says
itself, and a field says its notes (`Model.Legible.blockMeans`). The other blocks have no line that
is taken for the opening of a model, whatever their texts hold. -/

namespace Datamodel

open Notes
open Printer (blockLines commaList docLines indexLine isBlankLine mapLine nameArgument nameList)
open Text (Avoids Clear IsPlain OpensWith after? after?_eq_some_iff allBlank avoids_of_isName
  clear_concat clear_of_not_mem clear_quote dropWhile_append_of_stop firstMatch
  infix_of_infix_concat isBlank isNameChar_of_isName not_infix_of_not_mem not_infix_quote
  not_mem_toList_quote)
open Text.Quoted (quote)
open Token (IsName isBlank_of_isNameChar isNameChar)

namespace Notes

/-! ### Comments -/

theorem trimRight_append {s : List Char} (h : EndsVisible s) (t : List Char) :
    ∃ t', t' <+: t ∧ Text.trimRight (s ++ t) = s ++ t' := by
  have hkept : s.reverse.dropWhile isBlank = s.reverse := by
    have hstop : ([] ++ s.reverse).dropWhile isBlank = s.reverse :=
      dropWhile_append_of_stop nofun (by rw [List.head?_reverse]; exact h.getLast?)
    rwa [List.nil_append] at hstop
  rw [Text.trimRight, List.reverse_append, List.dropWhile_append]
  split
  · exact ⟨[], List.nil_prefix, by rw [hkept, List.reverse_reverse, List.append_nil]⟩
  · refine ⟨(t.reverse.dropWhile isBlank).reverse, ?_, by
      rw [List.reverse_append, List.reverse_reverse]⟩
    rw [← List.reverse_suffix, List.reverse_reverse]
    exact List.dropWhile_suffix _

theorem ofLine?_of_allBlank {line : List Char} (h : allBlank line = true) :
    ofLine? line = none := by
  have htrim : Text.trim line = [] := by
    rw [Text.trim, Text.trimLeft_eq_nil_iff.mpr h]
    rfl
  simp only [ofLine?, htrim]
  rfl

theorem ofLine?_comment {b : List Char} (hb : allBlank b = true) (s : List Char) :
    ofLine? (b ++ ("//".toList ++ s)) = none := by
  obtain ⟨s', -, hs'⟩ := trimRight_append (s := "//".toList) ⟨['/'], '/', rfl, by decide⟩ s
  have htrim : Text.trim (b ++ ("//".toList ++ s)) = "//".toList ++ s' := by
    rw [Text.trim, trimLeft_append hb (by rintro _ ⟨⟩; decide), hs']
  have hafter : after? "//".toList ("//".toList ++ s') = some s' := after?_eq_some_iff.mpr rfl
  rw [ofLine?, htrim, hafter, Option.isSome_some, Bool.or_true, if_pos rfl]

theorem toList_docLine (text : String) : ∃ s, (docLine text).toList = "//".toList ++ s ∧
    ('\n' ∉ text.toList → '\n' ∉ s) := by
  rw [docLine]
  split
  · exact ⟨['/'], rfl, fun _ => by decide⟩
  · refine ⟨'/' :: ' ' :: text.toList, by simp, fun h => ?_⟩
    simpa using h

/-- A line of documentation says nothing. -/
theorem lineMeans_docLine {documentation : Option String} {text : String}
    (h : text ∈ docTexts documentation) : LineMeans (' ' :: ' ' :: (docLine text).toList) none := by
  obtain ⟨s, hs, -⟩ := toList_docLine text
  have hline : ' ' :: ' ' :: (docLine text).toList = "  //".toList ++ s := by rw [hs]; rfl
  have hfront : "  //".toList.getLast? ≠ some '\r' := by decide
  obtain ⟨s', hs'⟩ := Text.exists_dropReturn_append hfront s
  have hcomment (s : List Char) : ofLine? ("  //".toList ++ s) = none :=
    ofLine?_comment (show allBlank [' ', ' '] = true by decide) s
  refine ⟨(isInner_indented (isInner_docLine h).1).1, ?_, ?_⟩
  · rw [hline, hcomment]
  · rw [hline, hs', hcomment]

/-! ### Attributes of a block -/

/-- A line of an attribute of a block. -/
theorem ofLine?_of_trim {line s : List Char} (h : Text.trim line = "@@".toList ++ s) :
    ofLine? line = (secondaryIndex? ("@@".toList ++ s)).map LineNote.secondaryIndex := by
  have hslash : after? "//".toList ("@@".toList ++ s) = none := rfl
  have hmark : after? "@@".toList ("@@".toList ++ s) = some s := after?_eq_some_iff.mpr rfl
  have hne : ("@@".toList ++ s).isEmpty = false := rfl
  simp only [ofLine?, h, hne, hslash, hmark, Option.isSome_none, Option.isSome_some,
    Bool.or_self, Bool.false_eq_true, if_false, if_true]

theorem ofLine?_blockMarker {s : List Char} (h : EndsVisible ("@@".toList ++ s)) :
    ofLine? (' ' :: ' ' :: ("@@".toList ++ s)) =
      (secondaryIndex? ("@@".toList ++ s)).map LineNote.secondaryIndex :=
  ofLine?_of_trim (trim_append (b := [' ', ' ']) (by decide) (by rintro _ ⟨⟩; decide) h)

theorem endsVisible_parenthesis (s : List Char) : EndsVisible (s ++ [')']) :=
  ⟨s, ')', rfl, by decide⟩

theorem not_mem_blockMarker {s : List Char} (h : '\n' ∉ s) :
    '\n' ∉ ' ' :: ' ' :: ("@@".toList ++ s) := by
  simpa using h

/-- What the reader of notes looks for in the attributes of a block. -/
def indexMark : List Char := "@@index(".toList

/-- The secondary index at the head of `s`. -/
def indexArgument? (s : List Char) : Option String :=
  (after? indexMark s).bind fun s =>
    (Text.throughLast? ')' (s.takeWhile (· != '\n'))).bind fun args =>
      some (String.ofList (indexMark ++ args))

theorem secondaryIndex?_eq (line : List Char) :
    secondaryIndex? line = firstMatch indexArgument? line := rfl

theorem opensWith_index : OpensWith indexMark indexArgument? := opensWith_bind

/-- An attribute that is no secondary index says nothing. -/
theorem lineMeans_attribute {name : String} (hname : name ∈ ["unique(", "map(", "id("])
    {s : List Char} (hs : ¬indexMark <:+: s) (hn : '\n' ∉ s) :
    LineMeans (' ' :: ' ' :: ("@@".toList ++ (name.toList ++ (s ++ [')'])))) none := by
  have hfront : ∀ n ∈ ["unique(", "map(", "id("], Clear indexMark ("@@".toList ++ n.toList) ∧
      '\n' ∉ n.toList := by decide
  obtain ⟨hstart, hone⟩ := hfront name hname
  have hvisible : EndsVisible ("@@".toList ++ (name.toList ++ (s ++ [')']))) :=
    ((endsVisible_parenthesis s).append name.toList).append "@@".toList
  have hend : Clear indexMark (s ++ [')']) :=
    clear_concat (fun h => hs (infix_of_infix_concat (by decide) h)) (by decide)
  have hnone : secondaryIndex? ("@@".toList ++ (name.toList ++ (s ++ [')']))) = none := by
    have hclear := hstart.append hend
    rw [List.append_assoc] at hclear
    exact opensWith_index.firstMatch_eq_none hclear
  have hmeans : ofLine? (' ' :: ' ' :: ("@@".toList ++ (name.toList ++ (s ++ [')'])))) = none := by
    rw [ofLine?_blockMarker hvisible, hnone]
    rfl
  rw [← hmeans]
  refine LineMeans.of_endsVisible (not_mem_blockMarker ?_) (hvisible.append [' ', ' '])
  simp [hone, hn]

end Notes

/-- A secondary index on one line. -/
def IsSecondaryIndex (t : String) : Prop :=
  ∃ args, '\n' ∉ args ∧ t.toList = "@@index(".toList ++ (args ++ [')'])

theorem IsSecondaryIndex.secondaryIndex? {t : String} (h : IsSecondaryIndex t) :
    secondaryIndex? t.toList = some t := by
  obtain ⟨args, hargs, ht⟩ := h
  have hafter : after? "@@index(".toList ("@@index(".toList ++ (args ++ [')'])) =
      some (args ++ [')']) := after?_eq_some_iff.mpr rfl
  have hline : (args ++ [')']).takeWhile (· != '\n') = args ++ [')'] := by
    have hkept : ∀ c ∈ args ++ [')'], (c != '\n') = true :=
      Text.bne_of_not_mem (by simpa using hargs)
    have hwhole := Text.takeWhile_append_of_stop (t := []) hkept nofun
    rwa [List.append_nil] at hwhole
  apply Text.firstMatch_of_some
  · rw [ht]
    nofun
  · rw [ht, hafter]
    simp only [Option.bind_eq_bind, Option.bind_some, hline, Text.throughLast?_concat, Option.pure_def]
    rw [Option.some_inj, ← String.toList_inj, String.toList_ofList, ht]

/-- A secondary index says itself. -/
theorem IsSecondaryIndex.lineMeans {t : String} (h : IsSecondaryIndex t) :
    LineMeans (' ' :: ' ' :: t.toList) (some (.secondaryIndex t)) := by
  have hindex := h.secondaryIndex?
  obtain ⟨args, hargs, ht⟩ := h
  have htext : t.toList = "@@".toList ++ ("index(".toList ++ (args ++ [')'])) := ht
  have hvisible : EndsVisible ("@@".toList ++ ("index(".toList ++ (args ++ [')']))) :=
    ((endsVisible_parenthesis args).append "index(".toList).append "@@".toList
  have hone : '\n' ∉ "index(".toList ++ (args ++ [')']) := by simpa using hargs
  rw [htext] at hindex ⊢
  have hmeans := ofLine?_blockMarker hvisible
  rw [hindex, Option.map_some] at hmeans
  rw [← hmeans]
  exact LineMeans.of_endsVisible (not_mem_blockMarker hone) (hvisible.append [' ', ' '])

/-! ### Models -/

/-- An index of names, with a plain name of its own or none. -/
structure Index.Plain (i : Index) : Prop where
  name : ∀ n ∈ i.name, IsPlain n
  fields : ∀ n ∈ i.fields, IsName n

/-- An index none of whose texts holds a secondary index. -/
structure Index.Legible (i : Index) : Prop where
  name : ∀ n ∈ i.name, ¬indexMark <:+: n.toList
  fields : ∀ n ∈ i.fields, Avoids ['@', '\n'] n.toList

/-- A model whose texts hold nothing that is looked for. -/
structure Model.Legible (m : Model) : Prop where
  name : IsName m.name
  undotted : '.' ∉ m.name.toList
  fields : ∀ f ∈ m.fields, f.Legible
  dbName : ∀ n ∈ m.dbName, ¬indexMark <:+: n.toList
  unique : ∀ i ∈ m.uniqueIndexes, i.Legible
  primaryKey : ∀ i ∈ m.primaryKey, i.Legible
  secondaryIndexes : ∀ t ∈ m.secondaryIndexes, IsSecondaryIndex t

/-- A model of names and plain texts. Its documentation and that of its fields is any. -/
structure Model.Plain (m : Model) : Prop where
  name : IsName m.name
  undotted : '.' ∉ m.name.toList
  fields : ∀ f ∈ m.fields, f.Plain
  fieldNames : m.fieldNames.Nodup
  dbName : ∀ n ∈ m.dbName, IsPlain n
  unique : ∀ i ∈ m.uniqueIndexes, i.Plain
  primaryKey : ∀ i ∈ m.primaryKey, i.Plain
  secondaryIndexes : ∀ t ∈ m.secondaryIndexes, IsSecondaryIndex t

/-- What a text has to say about the storage of the model. -/
def Model.notes (m : Model) : ModelNotes :=
  ⟨m.name, m.fields.filterMap Field.note? ++ m.secondaryIndexes.map .secondaryIndex⟩

/-- What the lines of the model say about its storage. -/
def Model.printedNotes (m : Model) : ModelNotes :=
  ⟨m.name, m.fields.filterMap Field.printedNote? ++ m.secondaryIndexes.map .secondaryIndex⟩

/-- A line of a body and what it says. -/
def BodyMeans (line : String) (note? : Option LineNote) : Prop :=
  isBlankLine line = false ∧ LineMeans (' ' :: ' ' :: line.toList) note?

theorem nonblank_of_mem {line : String} {c : Char} (hc : c ∈ line.toList)
    (h : isBlank c = false) : isBlankLine line = false := by
  rw [isBlankLine, allBlank, List.all_eq_false]
  exact ⟨c, hc, by simp [h]⟩

theorem bodyMeans_docLines (documentation : Option String) :
    List.Forall₂ BodyMeans (docLines documentation)
      ((docTexts documentation).map fun _ => none) := by
  rw [docLines_eq, forall₂_map_same]
  exact fun text htext => ⟨docLine_nonblank text, lineMeans_docLine htext⟩

theorem reduceOption_none {α β : Type} (xs : List α) :
    (xs.map fun _ => (none : Option β)).reduceOption = [] := by
  induction xs with
  | nil => rfl
  | cons x xs ih => rw [List.map_cons, List.reduceOption_cons_of_none, ih]

theorem reduceOption_append {α : Type} (xs ys : List (Option α)) :
    (xs ++ ys).reduceOption = xs.reduceOption ++ ys.reduceOption := List.filterMap_append ..

theorem Field.Legible.nonblank {f : Field} (h : f.Legible) {model line : String}
    (hline : f.toText model = .ok line) : isBlankLine line = false := by
  obtain ⟨value, -, htext⟩ := exists_toList_line hline fun t ht => (h.nativeType t ht).isEmpty
  obtain ⟨c, s, hname, hstart, -⟩ := h.name
  refine nonblank_of_mem (c := c) ?_ (isBlank_of_isNameChar (Token.isNameChar_of_isNameStart hstart))
  rw [htext, head, hname]
  simp

/-- The lines of fields say the notes of the fields. -/
theorem Field.exists_bodyMeans {model : String} {fs : List Field} (h : ∀ f ∈ fs, f.Legible)
    {lines : List String} (hlines : Model.fieldLines model fs = .ok lines) :
    ∃ notes, List.Forall₂ BodyMeans lines notes ∧
      notes.reduceOption = fs.filterMap Field.printedNote? := by
  induction fs generalizing lines with
  | nil =>
    cases hlines
    exact ⟨[], .nil, rfl⟩
  | cons f fs ih =>
    have hf : f.Legible := h f List.mem_cons_self
    rw [Model.fieldLines] at hlines
    cases hline : f.toText model with
    | error e =>
      rw [hline] at hlines
      cases hlines
    | ok line =>
      cases hrest : Model.fieldLines model fs with
      | error e =>
        rw [hline, hrest] at hlines
        cases hlines
      | ok rest =>
        rw [hline, hrest] at hlines
        cases hlines
        obtain ⟨notes, hnotes, hreduce⟩ := ih (fun g hg => h g (List.mem_cons_of_mem _ hg)) hrest
        have hmeans : BodyMeans line f.printedNote? := ⟨hf.nonblank hline, hf.lineMeans hline⟩
        refine ⟨_, List.rel_append (bodyMeans_docLines f.documentation) (.cons hmeans hnotes), ?_⟩
        rw [reduceOption_append, reduceOption_none, List.nil_append]
        cases hnote : f.printedNote? with
        | none => rw [List.reduceOption_cons_of_none, hreduce, List.filterMap_cons_none hnote]
        | some note => rw [List.reduceOption_cons_of_some, hreduce, List.filterMap_cons_some hnote]

theorem bodyMeans_attribute (name : String) (hname : name ∈ ["unique(", "map(", "id("])
    {s : List Char} (hs : ¬indexMark <:+: s) (hn : '\n' ∉ s) {line : String}
    (hline : line.toList = "@@".toList ++ (name.toList ++ (s ++ [')']))) : BodyMeans line none := by
  refine ⟨nonblank_of_mem (c := '@') ?_ (by decide), ?_⟩
  · rw [hline]
    exact List.mem_cons_self
  · rw [hline]
    exact lineMeans_attribute hname hs hn

theorem bodyMeans_mapLine {dbName : Option String} (h : ∀ n ∈ dbName, ¬indexMark <:+: n.toList) :
    List.Forall₂ BodyMeans (mapLine dbName) ((mapLine dbName).map fun _ => none) := by
  rw [List.forall₂_map_right_iff, List.forall₂_same]
  intro line hline
  rw [mapLine] at hline
  split at hline
  · cases hline
  · next n hn =>
    obtain rfl := List.mem_singleton.mp hline
    have hname : ¬indexMark <:+: n.toList := h n (Option.filter_eq_some_iff.mp hn).1
    apply bodyMeans_attribute "map(" (by simp) (not_infix_quote (by decide) hname)
      (not_mem_toList_quote n)
    simp

/-- The arguments of an index hold no secondary index. -/
theorem Index.Legible.arguments {i : Index} (h : i.Legible) :
    ¬indexMark <:+: (commaList (nameList i.fields :: nameArgument i.name)).toList ∧
      '\n' ∉ (commaList (nameList i.fields :: nameArgument i.name)).toList := by
  have hlist : Avoids ['@', '\n'] (nameList i.fields).toList :=
    Relation.avoids_nameList h.fields (by decide)
  have hfields : Clear indexMark (nameList i.fields).toList :=
    clear_of_not_mem (c := '@') rfl (hlist.not_mem (by decide))
  cases hn : i.name with
  | none =>
    have htext : (commaList (nameList i.fields :: nameArgument none)).toList =
        (nameList i.fields).toList := by
      simp [nameArgument, commaList]
    rw [htext]
    exact ⟨hfields.not_isInfix (by decide), hlist.not_mem (by decide)⟩
  | some n =>
    have htext : (commaList (nameList i.fields :: nameArgument (some n))).toList =
        (nameList i.fields).toList ++ (", name: ".toList ++ (quote n).toList) := by
      simp [nameArgument, commaList]
    have hlabel : Clear indexMark ", name: ".toList := by decide
    have hname : Clear indexMark (quote n).toList := clear_quote (by decide) (h.name n hn)
    rw [htext]
    refine ⟨(hfields.append (hlabel.append hname)).not_isInfix (by decide), ?_⟩
    simp [hlist.not_mem (c := '\n') (by decide), not_mem_toList_quote n]

theorem bodyMeans_indexLine {i : Index} (h : i.Legible) (name : String)
    (hname : name ∈ ["unique(", "id("]) {line : String}
    (hline : line.toList = "@@".toList ++ (name.toList ++
      ((commaList (nameList i.fields :: nameArgument i.name)).toList ++ [')']))) :
    BodyMeans line none := by
  have hnames : ["unique(", "id("] ⊆ ["unique(", "map(", "id("] := by decide
  exact bodyMeans_attribute name (hnames hname) h.arguments.1 h.arguments.2 hline

theorem Model.Legible.exists_bodyMeans {m : Model} (h : m.Legible) :
    ∃ notes, List.Forall₂ BodyMeans m.attributeLines notes ∧
      notes.reduceOption = m.secondaryIndexes.map .secondaryIndex := by
  have hunique : List.Forall₂ BodyMeans (m.uniqueIndexes.map (indexLine "@@unique"))
      (m.uniqueIndexes.map fun _ => none) := by
    refine forall₂_map_same.mpr fun i hi => ?_
    apply bodyMeans_indexLine (h.unique i hi) "unique(" (by simp)
    simp [indexLine]
  have hsecondary : List.Forall₂ BodyMeans m.secondaryIndexes
      (m.secondaryIndexes.map fun t => some (.secondaryIndex t)) := by
    rw [List.forall₂_map_right_iff, List.forall₂_same]
    intro t ht
    have hindex := h.secondaryIndexes t ht
    refine ⟨nonblank_of_mem (c := '@') ?_ (by decide), hindex.lineMeans⟩
    obtain ⟨args, -, htext⟩ := hindex
    rw [htext]
    exact List.mem_cons_self
  have hkey : List.Forall₂ BodyMeans
      ((m.primaryKey.filter (!·.fields.isEmpty)).map (indexLine "@@id")).toList
      ((m.primaryKey.filter (!·.fields.isEmpty)).toList.map fun _ => none) := by
    rw [Option.toList_map]
    refine forall₂_map_same.mpr fun i hi => ?_
    have hmem : i ∈ m.primaryKey := (Option.filter_eq_some_iff.mp (Option.mem_toList.mp hi)).1
    apply bodyMeans_indexLine (h.primaryKey i hmem) "id(" (by simp)
    simp [indexLine]
  refine ⟨_, List.rel_append (List.rel_append (List.rel_append hunique hsecondary)
    (bodyMeans_mapLine h.dbName)) hkey, ?_⟩
  simp only [reduceOption_append, reduceOption_none, List.nil_append, List.append_nil]
  have hmap : m.secondaryIndexes.map (fun t => some (LineNote.secondaryIndex t)) =
      (m.secondaryIndexes.map LineNote.secondaryIndex).map some := by
    rw [List.map_map]
    rfl
  rw [hmap, List.reduceOption, List.filterMap_map]
  exact List.filterMap_some

theorem isWord_of_isName {n : String} (h : IsName n) (hdot : '.' ∉ n.toList) :
    IsWord n.toList := by
  refine ⟨?_, fun c hc => ?_⟩
  · obtain ⟨c, s, hn, -⟩ := h
    rw [hn]
    exact List.cons_ne_nil c s
  · have hchar : isNameChar c = true := isNameChar_of_isName h c hc
    refine ⟨?_, isBlank_of_isNameChar hchar⟩
    have hrange := Token.toNat_of_isNameChar hchar
    have hne : (c == '.') = false := beq_eq_false_iff_ne.mpr fun he => hdot (he ▸ hc)
    rw [isNameChar, hne, Bool.or_false] at hchar
    rw [Text.isWordChar, if_pos (by omega)]
    exact hchar

/-- **The lines of a legible model say its notes**, names as they stand in their literals. -/
theorem Model.Legible.blockMeans {m : Model} (h : m.Legible) {ls : List String}
    (hlines : m.lines = .ok ls) : BlockMeans ls (some m.printedNotes) := by
  rw [lines] at hlines
  cases hfields : Model.fieldLines m.name m.fields with
  | error e =>
    rw [hfields] at hlines
    cases hlines
  | ok fields =>
    rw [hfields] at hlines
    cases hlines
    obtain ⟨notes, hnotes, hreduce⟩ := Field.exists_bodyMeans h.fields hfields
    obtain ⟨notes', hnotes', hreduce'⟩ := h.exists_bodyMeans
    have hbody := (List.forall₂_and_left _ _).mp (List.rel_append hnotes hnotes')
    have hkeyword : m.keyword = "model" ∨ m.keyword = "view" := by
      rw [keyword]
      cases m.isView
      · exact .inl rfl
      · exact .inr rfl
    rw [linesWith, Model.printedNotes, ← hreduce, ← hreduce', ← reduceOption_append]
    exact .model hkeyword (isWord_of_isName h.name h.undotted) hbody.1 hbody.2

/-! ### Plain models -/

theorem Index.Plain.legible {i : Index} (h : i.Plain) : i.Legible where
  name := fun n hn => not_infix_of_not_mem (c := '@') (by decide) ((h.name n hn).not_mem (by decide))
  fields := fun n hn => avoids_of_isName (h.fields n hn) (by decide)

theorem Model.Plain.legible {m : Model} (h : m.Plain) : m.Legible where
  name := h.name
  undotted := h.undotted
  fields := fun f hf => (h.fields f hf).legible
  dbName := fun n hn => not_infix_of_not_mem (c := '@') (by decide) ((h.dbName n hn).not_mem (by decide))
  unique := fun i hi => (h.unique i hi).legible
  primaryKey := fun i hi => (h.primaryKey i hi).legible
  secondaryIndexes := h.secondaryIndexes

theorem Model.Plain.printedNotes_eq {m : Model} (h : m.Plain) : m.printedNotes = m.notes := by
  rw [printedNotes, notes, List.filterMap_congr fun f hf => (h.fields f hf).printedNote?_eq]

end Datamodel
