import Datamodel.Fragment
import Datamodel.Proofs.Loading.Schemas

/-! What a loaded fragment is like.

The notes that the lines of a text give hold names without quotes, and secondary indexes that are
such. So the overlay keeps a schema well-formed, and every loaded schema is
(`Fragment.wellFormed_of_load`). -/

namespace Datamodel

open Text (after? after?_eq_some_iff firstMatch quotedPrefix? throughLast?)

/-! ### What patterns find -/

namespace Text

theorem exists_of_firstMatch {α : Type} {pattern : List Char → Option α} {s : List Char} {a : α}
    (h : firstMatch pattern s = some a) : ∃ t, pattern t = some a := by
  induction s with
  | nil => cases h
  | cons c s ih =>
    rw [firstMatch] at h
    split at h
    · next b hb =>
      cases h
      exact ⟨c :: s, hb⟩
    · exact ih h

theorem not_mem_of_quotedPrefix? {s name r : List Char} (h : quotedPrefix? s = some (name, r)) :
    '"' ∉ name := by
  unfold quotedPrefix? at h
  split at h
  · split at h
    · next hspan =>
      cases h
      obtain ⟨rfl, -⟩ := Prod.mk.inj hspan
      intro hmem
      simpa using List.mem_takeWhile_imp hmem
    · cases h
  · cases h

/-- The part of a text up to its last `c` ends with `c`. -/
theorem exists_of_throughLast? {c : Char} {s front : List Char}
    (h : throughLast? c s = some front) : ∃ args, front = args ++ [c] ∧ args ⊆ s := by
  unfold throughLast? at h
  split at h
  · cases h
  · next hne =>
    cases h
    cases hdrop : s.reverse.dropWhile (· != c) with
    | nil => exact absurd hdrop hne
    | cons d more =>
      have hd : d = c := by
        have hhead := List.head_dropWhile_not (· != c) (l := s.reverse) (by rw [hdrop]; nofun)
        simpa [hdrop] using hhead
      refine ⟨more.reverse, by rw [hd, List.reverse_cons], fun x hx => ?_⟩
      have hmem : x ∈ s.reverse.dropWhile (· != c) := by
        rw [hdrop]
        exact List.mem_cons_of_mem d (List.mem_reverse.mp hx)
      exact List.mem_reverse.mp ((List.dropWhile_suffix _).subset hmem)

end Text

/-! ### What lines say -/

/-- Notes whose names hold no quote. -/
structure FieldNotes.Unquoted (notes : FieldNotes) : Prop where
  columnName : ∀ n ∈ notes.columnName, '"' ∉ n.toList
  relationMap : ∀ n ∈ notes.relationMap, '"' ∉ n.toList

/-- What a line of a text may say. -/
def LineNote.Sound : LineNote → Prop
  | field _ notes => notes.Unquoted
  | secondaryIndex text => IsSecondaryIndex text

namespace Notes

theorem not_mem_of_columnName? {line : List Char} {n : String} (h : columnName? line = some n) :
    '"' ∉ n.toList := by
  obtain ⟨t, ht⟩ := Text.exists_of_firstMatch h
  split at ht
  · cases ht
  · simp only [Option.bind_eq_bind, Option.bind_eq_some_iff] at ht
    obtain ⟨s, -, ⟨name, r⟩, hname, _, -, hn⟩ := ht
    cases hn
    rw [String.toList_ofList]
    exact Text.not_mem_of_quotedPrefix? hname
  · cases ht

theorem not_mem_of_relationMap? {relation : List Char} {n : String}
    (h : relationMap? relation = some n) : '"' ∉ n.toList := by
  rw [relationMap?_eq] at h
  obtain ⟨t, ht⟩ := Text.exists_of_firstMatch h
  unfold mapArgument? at ht
  split at ht
  · split at ht
    · cases ht
    · simp only [Option.bind_eq_some_iff] at ht
      obtain ⟨s, -, ⟨name, r⟩, hname, hn⟩ := ht
      cases hn
      rw [String.toList_ofList]
      exact Text.not_mem_of_quotedPrefix? hname
  · cases ht

theorem isSecondaryIndex_of_secondaryIndex? {line : List Char} {t : String}
    (h : secondaryIndex? line = some t) : IsSecondaryIndex t := by
  obtain ⟨s, hs⟩ := Text.exists_of_firstMatch h
  simp only [Option.bind_eq_bind, Option.bind_eq_some_iff] at hs
  obtain ⟨r, -, args, hargs, ht⟩ := hs
  cases ht
  obtain ⟨args, rfl, hsub⟩ := Text.exists_of_throughLast? hargs
  refine ⟨args, fun hmem => ?_, String.toList_ofList⟩
  simpa using List.mem_takeWhile_imp (hsub hmem)

theorem sound_of_ofLine? {line : List Char} {note : LineNote} (h : ofLine? line = some note) :
    note.Sound := by
  simp only [ofLine?] at h
  split at h
  · cases h
  split at h
  · obtain ⟨t, ht, rfl⟩ := Option.map_eq_some_iff.mp h
    exact isSecondaryIndex_of_secondaryIndex? ht
  split at h
  · cases h
  · cases h
    exact ⟨fun n hn => not_mem_of_columnName? hn, fun n hn => not_mem_of_relationMap? hn⟩

theorem sound_of_extract {source : List Char} :
    ∀ m ∈ extract source, ∀ note ∈ m.lines, note.Sound := by
  intro m hm
  obtain ⟨piece, -, hm⟩ := List.mem_filterMap.mp hm
  generalize Text.lines piece = lines at hm
  induction lines with
  | nil => cases hm
  | cons line more ih =>
    rw [ofLines?] at hm
    split at hm
    · cases hm
      intro note hnote
      obtain ⟨line, -, hline⟩ := List.mem_filterMap.mp hnote
      exact sound_of_ofLine? hline
    · exact ih hm

/-- The lines of a model are among those of the notes of that name. -/
theorem exists_of_linesOf? {as : Notes} {name : String} {lines : List LineNote}
    (h : as.linesOf? name = some lines) :
    ∀ note ∈ lines, ∃ m ∈ as, m.model = name ∧ note ∈ m.lines := by
  unfold linesOf? at h
  split at h
  · cases h
    intro note hnote
    obtain ⟨m, hm, hnote⟩ := List.mem_flatMap.mp hnote
    obtain ⟨hm, hname⟩ := List.mem_filter.mp hm
    exact ⟨m, hm, by simpa using hname, hnote⟩
  · cases h

theorem sound_of_linesOf? {as : Notes} (h : ∀ m ∈ as, ∀ note ∈ m.lines, note.Sound) {name : String}
    {lines : List LineNote} (hlines : as.linesOf? name = some lines) :
    ∀ note ∈ lines, note.Sound := by
  intro note hnote
  obtain ⟨m, hm, -, hnote⟩ := exists_of_linesOf? hlines note hnote
  exact h m hm note hnote

end Notes

theorem LineNote.eq_of_notesOf? {note : LineNote} {name : String} {notes : FieldNotes}
    (h : note.notesOf? name = some notes) : note = .field name notes := by
  cases note with
  | field n notes' =>
    rw [notesOf?] at h
    split at h
    · next hn =>
      cases h
      rw [hn]
    · cases h
  | secondaryIndex text => cases h

/-- What lines say about a field, one of them says. -/
theorem LineNote.mem_of_fieldIn? {lines : List LineNote} {name : String} {notes : FieldNotes}
    (h : fieldIn? lines name = some notes) : .field name notes ∈ lines := by
  obtain ⟨note, hnote, hof⟩ := List.mem_filterMap.mp (List.mem_of_getLast? h)
  rwa [LineNote.eq_of_notesOf? hof] at hnote

/-! ### The overlay -/

section
variable {names : List (String × FieldKind)}

theorem Field.WellFormed.overlay {f : Field} (h : f.WellFormed names) {notes : FieldNotes}
    (hnotes : notes.Unquoted) : (f.overlay notes).WellFormed names where
  name := h.name
  documentation := h.documentation
  list := h.list
  object := by
    rw [Field.overlay, Option.isSome_map]
    exact h.object
  type := h.type
  columnName := by
    intro n hn
    rcases Option.or_eq_some_iff.mp hn with hn | ⟨-, hn⟩
    · exact h.columnName n hn
    · exact hnotes.columnName n hn
  relationMap := by
    intro r' hr' n hn
    obtain ⟨r, hr, rfl⟩ := Option.map_eq_some_iff.mp hr'
    rcases Option.or_eq_some_iff.mp hn with hn | ⟨-, hn⟩
    · exact h.relationMap r hr n hn
    · exact hnotes.relationMap n hn

theorem Model.WellFormed.overlay {m : Model} (h : m.WellFormed names) {lines : List LineNote}
    (hlines : ∀ note ∈ lines, note.Sound) : (m.overlay lines).WellFormed names where
  name := h.name
  documentation := h.documentation
  fields := by
    refine List.forall_mem_map.mpr fun f hf => ?_
    split
    · next notes hnotes =>
      apply (h.fields f hf).overlay
      exact hlines _ (LineNote.mem_of_fieldIn? hnotes)
    · exact h.fields f hf
  secondaryIndexes := by
    intro t ht
    obtain ⟨note, hnote, hof⟩ := List.mem_filterMap.mp ht
    have hsound := hlines note hnote
    cases note with
    | field name notes => cases hof
    | secondaryIndex text =>
      cases hof
      exact hsound

theorem Notes.wellFormed_overlay {as : Notes} (has : ∀ m ∈ as, ∀ note ∈ m.lines, note.Sound)
    {ms : List Model} (h : ∀ m ∈ ms, m.WellFormed names) :
    ∀ m ∈ as.overlay ms, m.WellFormed names := by
  refine List.forall_mem_map.mpr fun m hm => ?_
  split
  · next lines hlines => exact (h m hm).overlay (sound_of_linesOf? has hlines)
  · exact h m hm

end

theorem Notes.map_name_overlay (as : Notes) (ms : List Model) :
    (as.overlay ms).map (·.name) = ms.map (·.name) := by
  rw [overlay, List.map_map]
  refine List.map_congr_left fun m _ => ?_
  rw [Function.comp_apply]
  split <;> rfl

/-- The notes give no model another name. -/
theorem Schema.names_overlay (s : Schema) (notes : Notes) :
    Schema.names { s with models := notes.overlay s.models } = s.names := by
  have hpairs (ms : List Model) : ms.map (fun m => (m.name, FieldKind.object)) =
      (ms.map (·.name)).map fun n => (n, FieldKind.object) := by
    rw [List.map_map]
    rfl
  rw [names, names, hpairs, Notes.map_name_overlay, ← hpairs]

/-- A loaded fragment is the schema of its text, with the notes of the text on its models. -/
theorem Fragment.exists_schema_of_load {origin source : String} {f : Fragment}
    (h : Fragment.load origin source = .ok f) :
    ∃ s, Schema.ofText (String.ofList (Text.dropMark source.toList)) = .ok s ∧
      f = ⟨origin, { s with
        models := (Notes.extract (Text.dropMark source.toList)).overlay s.models }⟩ := by
  simp only [load] at h
  split at h
  · cases h
  · next s hs =>
    cases h
    exact ⟨s, hs, rfl⟩

/-- **The schema of a loaded fragment is well-formed.** -/
theorem Fragment.wellFormed_of_load {origin source : String} {f : Fragment}
    (h : Fragment.load origin source = .ok f) : f.schema.WellFormed f.schema.names := by
  obtain ⟨s, hs, rfl⟩ := exists_schema_of_load h
  have hwell := Schema.wellFormed_of_ofText hs
  rw [Schema.names_overlay]
  exact ⟨Notes.wellFormed_overlay Notes.sound_of_extract hwell.models, hwell.enums,
    hwell.datasources, hwell.generators⟩

/-! ### Loading characters -/

/-- What is loaded from the characters of a text. They are told apart once, so this is the form to
evaluate. -/
def Fragment.ofChars (origin : String) (cs : List Char) : Except LoadError Fragment :=
  match (Token.scan 1 0 (Text.dropMark (Text.dropMark cs)) >>= Block.ofTokens) >>= resolve with
  | .error cause => .error (.refused origin cause)
  | .ok schema =>
    .ok { origin, schema := { schema with
      models := (Notes.extract (Text.dropMark cs)).overlay schema.models } }

theorem Fragment.load_eq_ofChars (origin source : String) :
    load origin source = ofChars origin source.toList := by
  have hschema (cs : List Char) : Schema.ofText (String.ofList cs) =
      (Token.scan 1 0 (Text.dropMark cs) >>= Block.ofTokens) >>= resolve := by
    show (Token.scan 1 0 (Text.dropMark (String.ofList cs).toList) >>= Block.ofTokens) >>= resolve = _
    rw [String.toList_ofList]
  rw [ofChars, ← hschema]
  rfl

theorem Fragment.load_of_chars {origin : String} {cs : List Char} {f : Fragment}
    (h : (ofChars origin cs).toOption = some f) : load origin (String.ofList cs) = .ok f := by
  rw [load_eq_ofChars, String.toList_ofList]
  exact eq_ok_of_toOption h

end Datamodel
