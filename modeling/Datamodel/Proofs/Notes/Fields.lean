import Datamodel.Proofs.Notes.Blocks
import Datamodel.Proofs.Notes.Relations

/-! The line of a field and its storage notes.

A field is printed as its name, its type and words that start with `@`. If the words hold nothing
else that is looked for, each of the patterns is tried at the words only and matches the one that
was printed for it, so the notes of the line are those of the field, names as they stand in their
literals (`Field.Legible.lineMeans`). -/

namespace Datamodel

open Notes
open Printer (commaList)
open Text (Avoids Clear IsPlain IsMarked OpensBehind OpensWith after? after?_eq_some_iff allBlank
  avoids_append avoids_cons avoids_of_isName bne_of_not_mem clear_concat clear_nil
  clear_of_not_mem escaped escaped_of_plain firstAmong firstAmong_append firstAmong_cons
  firstAmong_eq_none firstMatch firstMatch_words firstMatch_words_behind infix_of_infix_concat
  isBlank isNameChar_of_isName isPlain_commaList isPlain_of_isName isPlain_of_isNumber
  not_infix_quote not_mem_escaped not_mem_toList_quote quotedPrefix?_quoted spaced span_append
  toList_quote_eq)
open Text.Quoted (quote)
open Token (IsName IsNumber isBlank_of_isNameChar isNameChar)

/-! ### Notes of a field -/

/-- What a text has to say about the storage of the field. -/
def Field.notes (f : Field) : FieldNotes where
  columnName := f.columnName
  nativeType := f.nativeType
  onUpdate := f.relation.bind (·.onUpdate)
  relationMap := f.relation.bind (·.map)

def Field.note? (f : Field) : Option LineNote :=
  if f.notes = {} then none else some (.field f.name f.notes)

/-- What the line of the field says: names are read as they stand in their literals. -/
def Field.printedNotes (f : Field) : FieldNotes where
  columnName := f.columnName.map escaped
  nativeType := f.nativeType
  onUpdate := f.relation.bind Relation.printedUpdate
  relationMap := f.relation.bind fun r => r.printedMap.map escaped

def Field.printedNote? (f : Field) : Option LineNote :=
  if f.printedNotes = {} then none else some (.field f.name f.printedNotes)

/-- A default whose texts are plain. -/
inductive DefaultValue.Plain : DefaultValue → Prop where
  | text {value : String} (h : IsPlain value) : Plain (.text value)
  | number {lexeme : String} (h : IsNumber lexeme) : Plain (.number lexeme)
  | boolean {value : Bool} : Plain (.boolean value)
  | member {name : String} (h : IsName name) : Plain (.member name)
  | call {function : String} {args : List String} (h : IsName function)
    (hargs : ∀ a ∈ args, IsPlain a) : Plain (.call function args)

/-- A native type `@db.Name`, with arguments or without. -/
def IsNativeType (t : String) : Prop :=
  ∃ (name : String) (args : List Char), IsName name ∧
    (args = [] ∨ ∃ inner, inner ≠ [] ∧ Avoids [')', '@', '\n'] inner ∧
      args = '(' :: (inner ++ [')'])) ∧
    t.toList = "@db.".toList ++ (name.toList ++ args)

/-- A field whose texts hold nothing that is looked for. Its column name holds no quote. -/
structure Field.Legible (f : Field) : Prop where
  name : IsName f.name
  type : IsName f.type
  columnName : ∀ n ∈ f.columnName, '"' ∉ n.toList ∧ Lacks marks n
  default : ∀ d ∈ f.default, ∀ t, d.valueText f.kind f.type = .ok t →
    '\n' ∉ t.toList ∧ Lacks marks t
  nativeType : ∀ t ∈ f.nativeType, IsNativeType t
  relation : ∀ r ∈ f.relation, r.Legible

/-- A field of names and plain texts. -/
structure Field.Plain (f : Field) : Prop where
  name : IsName f.name
  type : IsName f.type
  columnName : ∀ n ∈ f.columnName, IsPlain n
  default : ∀ d ∈ f.default, d.Plain
  nativeType : ∀ t ∈ f.nativeType, IsNativeType t
  relation : ∀ r ∈ f.relation, r.Plain

/-! ### Words -/

namespace Notes

/-- A printed attribute: nothing that is looked for starts in it, unless at its head, and its end is
visible. -/
def IsAttribute (word : List Char) : Prop :=
  ∃ body c, word = '@' :: (body ++ [c]) ∧ (∀ p ∈ marks, Clear p (body ++ [c])) ∧
    '\n' ∉ body ++ [c] ∧ isBlank c = false

theorem IsAttribute.isMarked {word : List Char} (h : IsAttribute word) :
    ∀ p ∈ marks, word.head? = some '@' ∧ IsMarked p word := by
  obtain ⟨body, c, rfl, h, -⟩ := h
  exact fun p hp => ⟨rfl, '@', body ++ [c], rfl, h p hp⟩

theorem IsAttribute.not_mem_newline {word : List Char} (h : IsAttribute word) : '\n' ∉ word := by
  obtain ⟨body, c, rfl, -, h, -⟩ := h
  exact List.not_mem_cons_of_ne_of_not_mem (by decide) h

theorem IsAttribute.endsVisible {word : List Char} (h : IsAttribute word) : EndsVisible word := by
  obtain ⟨body, c, rfl, -, -, hc⟩ := h
  exact ⟨'@' :: body, c, rfl, hc⟩

theorem EndsVisible.append_spaced {u : List Char} (hu : EndsVisible u) {words : List (List Char)}
    (h : ∀ word ∈ words, EndsVisible word) : EndsVisible (u ++ spaced words) := by
  rcases List.eq_nil_or_concat' words with rfl | ⟨words, word, rfl⟩
  · simpa [spaced] using hu
  · have hword : EndsVisible word := h word (by simp)
    have htext : u ++ spaced (words ++ [word]) = (u ++ (spaced words ++ [' '])) ++ word := by
      simp [spaced]
    rw [htext]
    exact hword.append _

theorem not_mem_spaced {words : List (List Char)} {c : Char} (hc : c ≠ ' ')
    (h : ∀ word ∈ words, c ∉ word) : c ∉ spaced words := by
  intro hmem
  obtain ⟨word, hword, hmem⟩ := List.mem_flatMap.mp hmem
  rcases List.mem_cons.mp hmem with hspace | hmem
  · exact hc hspace
  · exact h word hword hmem

/-- A word that is one of the attributes with those names, up to its arguments. -/
def StartsAmong (names : List String) (word : List Char) : Prop :=
  ∃ name ∈ names, ∃ s, word = '@' :: (name.toList ++ s)

theorem isAttribute_call {name : String} {s : List Char}
    (hname : ∀ p ∈ marks, Clear p name.toList) (hs : ∀ p ∈ marks, ¬p <:+: s)
    (hname' : '\n' ∉ name.toList) (hs' : '\n' ∉ s) :
    IsAttribute ('@' :: (name.toList ++ (s ++ [')']))) := by
  have hparen : ∀ p ∈ marks, ')' ∉ p := by decide
  refine ⟨name.toList ++ s, ')', by simp, fun p hp => ?_, by simp [hname', hs'], by decide⟩
  have hend : Clear p (s ++ [')']) :=
    clear_concat (fun h => hs p hp (infix_of_infix_concat (hparen p hp) h)) (hparen p hp)
  rw [List.append_assoc]
  exact (hname p hp).append hend

/-- Words that a pattern does not match, whatever stands behind them. -/
theorem skips {α : Type} {pattern : List Char → Option α} {names others : List String}
    {words : List (List Char)} (hwords : ∀ word ∈ words, StartsAmong names word)
    (h : ∀ name ∈ others, ∀ r, pattern ('@' :: (name.toList ++ r)) = none)
    (hnames : names ⊆ others) : ∀ word ∈ words, ∀ r, pattern (word ++ r) = none := by
  intro word hword r
  obtain ⟨name, hname, s, rfl⟩ := hwords word hword
  rw [List.cons_append, List.append_assoc]
  exact h name (hnames hname) (s ++ r)

/-! ### Patterns -/

def columnArgument? (s : List Char) : Option String :=
  (after? "@map(".toList s).bind fun s =>
    (Text.quotedPrefix? s).bind fun (name, s) =>
      (after? [')'] s).bind fun _ => some (String.ofList name)

/-- The same behind a character that is no `@`. -/
def columnBehind? : List Char → Option String
  | [] => none
  | c :: s => if c = '@' then none else columnArgument? s

theorem columnName?_eq (line : List Char) : columnName? line = firstMatch columnBehind? line := by
  rw [columnName?]
  refine congrArg (firstMatch · line) (funext fun s => ?_)
  cases s with
  | nil => rfl
  | cons c s =>
    by_cases hc : c = '@'
    · rw [columnBehind?, if_pos hc, hc]
      rfl
    · rw [columnBehind?, if_neg hc]
      split
      · next heq => cases heq; exact absurd rfl hc
      · next heq => cases heq; rfl
      · next heq => cases heq

theorem opensWith_column : OpensWith "@map(".toList columnArgument? := opensWith_bind

theorem opensBehind_column : OpensBehind "@map(".toList columnBehind? := by
  intro c s a h
  rw [columnBehind?] at h
  split at h
  · cases h
  · exact opensWith_column s a h

theorem columnName?_spaced {u : List Char} {words : List (List Char)} (hu : '@' ∉ u)
    (hwords : ∀ word ∈ words, IsAttribute word) :
    columnName? (u ++ spaced words) = firstAmong columnArgument? words := by
  rw [columnName?_eq]
  exact firstMatch_words_behind opensWith_column (fun _ _ => rfl) (by decide)
    (by decide) (by decide) (clear_of_not_mem rfl hu)
    fun word hword => (hwords word hword).isMarked _ (by decide)

theorem columnArgument?_quoted {name : List Char} (h : '"' ∉ name) (s : List Char) :
    columnArgument? ('@' :: ("map(".toList ++ ('"' :: (name ++ '"' :: ')' :: s)))) =
      some (String.ofList name) := by
  have hafter : after? "@map(".toList
      ('@' :: ("map(".toList ++ ('"' :: (name ++ '"' :: ')' :: s)))) =
        some ('"' :: (name ++ '"' :: ')' :: s)) := rfl
  rw [columnArgument?, hafter, Option.bind_some, quotedPrefix?_quoted h, Option.bind_some]
  rfl

theorem columnArgument?_other :
    ∀ name ∈ ["id", "unique", "updatedAt", "default(", "db.", "relation("], ∀ r,
      columnArgument? ('@' :: (name.toList ++ r)) = none := by
  intro name hname r
  simp only [List.mem_cons, List.not_mem_nil, or_false] at hname
  rcases hname with rfl | rfl | rfl | rfl | rfl | rfl <;> rfl

def nativePrefix? (s : List Char) : Option String :=
  (after? "@db.".toList s).bind fun s =>
    match Text.span (fun c => !(isBlank c || c == '(' || c == ')')) s with
    | ([], _) => none
    | (name, s) => some (String.ofList ("@db.".toList ++ name ++ parenthesized s))

theorem nativeType?_spaced {u : List Char} {words : List (List Char)} (hu : '@' ∉ u)
    (hwords : ∀ word ∈ words, IsAttribute word) :
    nativeType? (u ++ spaced words) = firstAmong nativePrefix? words :=
  firstMatch_words (p := "@db.".toList) opensWith_bind (by decide) (clear_of_not_mem rfl hu)
    fun word hword => ((hwords word hword).isMarked _ (by decide)).2

theorem parenthesized_args {inner : List Char} (hne : inner ≠ []) (h : ')' ∉ inner)
    (s : List Char) : parenthesized ('(' :: (inner ++ ')' :: s)) = '(' :: (inner ++ [')']) := by
  have hspan : Text.span (· != ')') (inner ++ ')' :: s) = (inner, ')' :: s) :=
    span_append (bne_of_not_mem h) (by rintro _ ⟨⟩; decide)
  obtain ⟨c, inner', rfl⟩ := List.exists_cons_of_ne_nil hne
  rw [List.cons_append] at hspan
  simp only [parenthesized, List.cons_append, hspan]

/-- A native type is read up to a space or the end of the line. -/
theorem nativePrefix?_nativeType {t : String} (h : IsNativeType t) {r : List Char}
    (hr : ∀ c ∈ r.head?, c = ' ') : nativePrefix? (t.toList ++ r) = some t := by
  obtain ⟨name, args, hname, hargs, ht⟩ := h
  have hstop : ∀ c ∈ (args ++ r).head?, (!(isBlank c || c == '(' || c == ')')) = false := by
    rcases hargs with rfl | ⟨inner, -, -, rfl⟩
    · intro c hc
      rw [hr c hc]
      decide
    · rintro _ ⟨⟩
      decide
  have hword : ∀ c ∈ name.toList, (!(isBlank c || c == '(' || c == ')')) = true := by
    intro c hc
    have hchar : isNameChar c = true := isNameChar_of_isName hname c hc
    have hparen : Avoids ['(', ')'] name.toList := avoids_of_isName hname (by decide)
    have hoff := hparen c hc
    simp only [List.mem_cons, List.not_mem_nil, or_false, not_or] at hoff
    simp [isBlank_of_isNameChar hchar, hoff]
  have hspan : Text.span (fun c => !(isBlank c || c == '(' || c == ')'))
      (name.toList ++ (args ++ r)) = (name.toList, args ++ r) := span_append hword hstop
  have hargs' : parenthesized (args ++ r) = args := by
    rcases hargs with rfl | ⟨inner, hne, hinner, rfl⟩
    · cases r with
      | nil => rfl
      | cons c r => rw [hr c rfl]; rfl
    · rw [List.cons_append, List.append_assoc, List.singleton_append]
      exact parenthesized_args hne (hinner.not_mem (by decide)) r
  have hafter : after? "@db.".toList ("@db.".toList ++ (name.toList ++ (args ++ r))) =
      some (name.toList ++ (args ++ r)) := after?_eq_some_iff.mpr rfl
  obtain ⟨c, s, hn, -⟩ := hname
  rw [hn] at hspan hafter ht
  rw [nativePrefix?, ht, List.append_assoc, List.append_assoc, hafter, Option.bind_some]
  simp only [hspan, hargs']
  rw [Option.some_inj, ← String.toList_inj, String.toList_ofList, ht, List.append_assoc]

theorem nativePrefix?_other :
    ∀ name ∈ ["id", "unique", "updatedAt", "map(", "default(", "relation("], ∀ r,
      nativePrefix? ('@' :: (name.toList ++ r)) = none := by
  intro name hname r
  simp only [List.mem_cons, List.not_mem_nil, or_false] at hname
  rcases hname with rfl | rfl | rfl | rfl | rfl | rfl <;> rfl

def relationPrefix? (s : List Char) : Option (List Char) :=
  (after? "@relation(".toList s).bind fun _ => some s

theorem relationPrefix?_other :
    ∀ name ∈ ["id", "unique", "updatedAt", "map(", "default(", "db."], ∀ r,
      relationPrefix? ('@' :: (name.toList ++ r)) = none := by
  intro name hname r
  simp only [List.mem_cons, List.not_mem_nil, or_false] at hname
  rcases hname with rfl | rfl | rfl | rfl | rfl | rfl <;> rfl

theorem relationPart_spaced {u : List Char} {words : List (List Char)} (hu : '@' ∉ u)
    (hwords : ∀ word ∈ words, IsAttribute word) :
    relationPart (u ++ spaced words) = (firstAmong relationPrefix? words).getD [] := by
  have hpattern : (fun s => (after? "@relation(".toList s).map fun _ => s) = relationPrefix? := by
    funext s
    rw [relationPrefix?]
    cases after? "@relation(".toList s <;> rfl
  have hwords' : firstMatch relationPrefix? (u ++ spaced words) =
      firstAmong relationPrefix? words :=
    firstMatch_words (p := "@relation(".toList) opensWith_bind (by decide)
      (clear_of_not_mem rfl hu) fun word hword => ((hwords word hword).isMarked _ (by decide)).2
  rw [relationPart, hpattern, hwords']

/-! ### The first word -/

/-- A line whose first word is a name is taken for the field of that name. -/
theorem ofLine?_of_trim_name {name : String} {line s : List Char} (hname : IsName name)
    (hs : ∀ c ∈ s.head?, isBlank c = true) (h : Text.trim line = name.toList ++ s) :
    ofLine? line = if ofFieldLine line (name.toList ++ s) = {} then none
      else some (.field name (ofFieldLine line (name.toList ++ s))) := by
  obtain ⟨c, t, hct, hstart, -⟩ := id hname
  have hchar : isNameChar c = true := Token.isNameChar_of_isNameStart hstart
  have hword : (name.toList ++ s).takeWhile (!isBlank ·) = name.toList := by
    refine Text.takeWhile_append_of_stop ?_ ?_
    · intro d hd
      rw [isBlank_of_isNameChar (isNameChar_of_isName hname d hd)]
      rfl
    · intro d hd
      rw [hs d hd]
      rfl
  have hne : (name.toList ++ s).isEmpty = false := by rw [hct]; rfl
  have hslash : after? "//".toList (name.toList ++ s) = none := by
    rw [hct]
    exact if_neg fun he => absurd (he ▸ hchar) (by decide)
  have hmark : after? "@@".toList (name.toList ++ s) = none := by
    rw [hct]
    exact if_neg fun he => absurd (he ▸ hchar) (by decide)
  simp only [ofLine?, h, hne, hslash, hmark, hword, Option.isSome_none, Bool.or_self,
    Bool.false_eq_true, if_false, String.ofList_toList]

end Notes

/-! ### Printed attributes -/

/-- The text of a plain default. -/
theorem DefaultValue.Plain.avoids_valueText {d : DefaultValue} (h : d.Plain) {kind : FieldKind}
    {type text : String} (ht : d.valueText kind type = .ok text) :
    Avoids ['@', '\n'] text.toList := by
  have hplain {s : String} (hs : IsPlain s) : Avoids ['@', '\n'] s.toList := hs.mono (by decide)
  have hquote {s : String} (hs : IsPlain s) : Avoids ['@', '\n'] (quote s).toList := by
    rw [toList_quote_eq, escaped_of_plain hs, avoids_cons, avoids_append]
    exact ⟨by decide, hplain hs, by decide⟩
  cases h with
  | @text value h =>
    cases ht
    split
    · exact hquote h
    · exact hplain h
  | @number lexeme h =>
    cases ht
    exact hplain (isPlain_of_isNumber h)
  | @boolean value =>
    cases ht
    cases value <;> decide
  | @member name h =>
    cases ht
    exact hplain (isPlain_of_isName h)
  | @call function args h hargs =>
    cases ht
    have hargs : IsPlain (commaList args) := isPlain_commaList hargs
    simp only [String.toList_append, avoids_append]
    refine ⟨⟨⟨hplain (isPlain_of_isName h), by decide⟩, ?_⟩, by decide⟩
    split
    · exact hquote hargs
    · exact hplain hargs

namespace Field
variable {f : Field}

/-- The attributes of a field up to its default, as words. -/
def flagWords (f : Field) : List (List Char) :=
  (if f.isId then ["@id".toList] else []) ++ (if f.isUnique then ["@unique".toList] else []) ++
    (if f.isUpdatedAt then ["@updatedAt".toList] else [])

def columnWords (f : Field) : List (List Char) :=
  (f.columnName.map fun name => '@' :: ("map(".toList ++ ((quote name).toList ++ [')']))).toList

def defaultWords (value : Option String) : List (List Char) :=
  (value.map fun v => '@' :: ("default(".toList ++ (v.toList ++ [')']))).toList

def nativeWords (f : Field) : List (List Char) := (f.nativeType.map String.toList).toList

/-- The relation of a field, unless it has no text. -/
def relationWords (f : Field) : List (List Char) :=
  ((f.relation.map Relation.toText).filter (!·.isEmpty)).toList.map String.toList

def words (f : Field) (value : Option String) : List (List Char) :=
  f.flagWords ++ (f.columnWords ++ (defaultWords value ++ (f.nativeWords ++ f.relationWords)))

def head (f : Field) : List Char := f.name.toList ++ ' ' :: (f.type.toList ++ f.modifier.toList)

theorem toList_intercalate_space (first : String) (texts : List String) :
    (" ".intercalate (first :: texts)).toList = first.toList ++ spaced (texts.map String.toList) := by
  induction texts generalizing first with
  | nil => simp [spaced]
  | cons text texts ih =>
    rw [String.intercalate_cons_cons, String.toList_append, String.toList_append, ih]
    simp [spaced]

theorem map_toList_attributeTexts (hnative : ∀ t ∈ f.nativeType, t.isEmpty = false)
    (value : Option String) :
    ((f.attributeTexts (value.map fun v => "@default(" ++ v ++ ")")).filter (!·.isEmpty)).map
      String.toList = f.words value := by
  have hflag (b : Bool) (t : String) (ht : t.isEmpty = false) :
      ((if b then [t] else []).filter (!·.isEmpty)).map String.toList =
        if b then [t.toList] else [] := by
    cases b <;> simp [ht]
  have hcolumn : ((f.columnName.map fun name => "@map(" ++ quote name ++ ")").toList.filter
      (!·.isEmpty)).map String.toList = f.columnWords := by
    rw [columnWords]
    cases f.columnName <;> simp
  have hdefault : ((value.map fun v => "@default(" ++ v ++ ")").toList.filter
      (!·.isEmpty)).map String.toList = defaultWords value := by
    rw [defaultWords]
    cases value <;> simp
  have hnative' : (f.nativeType.toList.filter (!·.isEmpty)).map String.toList = f.nativeWords := by
    rw [nativeWords]
    cases ht : f.nativeType with
    | none => rfl
    | some t => simp [hnative t ht]
  have hrelation : ((f.relation.map Relation.toText).toList.filter (!·.isEmpty)).map String.toList =
      f.relationWords := by
    rw [relationWords]
    cases f.relation.map Relation.toText with
    | none => rfl
    | some t => cases ht : t.isEmpty <;> simp [ht, Option.filter]
  simp only [attributeTexts, List.filter_append, List.map_append, hcolumn, hdefault, hnative',
    hrelation]
  rw [hflag f.isId _ rfl, hflag f.isUnique _ rfl, hflag f.isUpdatedAt _ rfl]
  simp only [words, flagWords, List.append_assoc]

/-- The line of a field is its head and its attributes. -/
theorem exists_toList_line {model line : String} (hline : f.toText model = .ok line)
    (hnative : ∀ t ∈ f.nativeType, t.isEmpty = false) :
    ∃ value, (∀ v ∈ value, ∃ d ∈ f.default, d.valueText f.kind f.type = .ok v) ∧
      line.toList = f.head ++ spaced (f.words value) := by
  have hhead : (f.name ++ " " ++ f.type ++ f.modifier).toList = f.head := by simp [head]
  rw [toText] at hline
  split at hline
  · cases hline
  · cases hd : f.default with
    | none =>
      rw [hd] at hline
      cases hline
      refine ⟨none, by simp, ?_⟩
      rw [toList_intercalate_space, hhead]
      exact congrArg (f.head ++ spaced ·) (map_toList_attributeTexts hnative none)
    | some d =>
      cases hv : d.valueText f.kind f.type with
      | error raw =>
        rw [hd] at hline
        simp only [Option.mapM_some, defaultText, hv] at hline
        cases hline
      | ok v =>
        rw [hd] at hline
        simp only [Option.mapM_some, defaultText, hv] at hline
        cases hline
        refine ⟨some v, fun _ h => ⟨d, rfl, Option.mem_some.mp h ▸ hv⟩, ?_⟩
        rw [toList_intercalate_space, hhead]
        exact congrArg (f.head ++ spaced ·) (map_toList_attributeTexts hnative (some v))

/-! ### The words of a legible field -/

theorem isAttribute_flagWords (f : Field) : ∀ word ∈ f.flagWords, IsAttribute word := by
  intro word hword
  simp only [flagWords, List.mem_append, List.mem_ite_nil_right, List.mem_singleton] at hword
  obtain (⟨-, rfl⟩ | ⟨-, rfl⟩) | ⟨-, rfl⟩ := hword
  · exact ⟨['i'], 'd', rfl, by decide⟩
  · exact ⟨"uniqu".toList, 'e', rfl, by decide⟩
  · exact ⟨"updatedA".toList, 't', rfl, by decide⟩

theorem startsAmong_flagWords (f : Field) :
    ∀ word ∈ f.flagWords, StartsAmong ["id", "unique", "updatedAt"] word := by
  intro word hword
  simp only [flagWords, List.mem_append, List.mem_ite_nil_right, List.mem_singleton] at hword
  obtain (⟨-, rfl⟩ | ⟨-, rfl⟩) | ⟨-, rfl⟩ := hword
  · exact ⟨"id", by simp, [], rfl⟩
  · exact ⟨"unique", by simp, [], rfl⟩
  · exact ⟨"updatedAt", by simp, [], rfl⟩

theorem mem_columnWords {word : List Char} (h : word ∈ f.columnWords) :
    ∃ n ∈ f.columnName, word = '@' :: ("map(".toList ++ ((quote n).toList ++ [')'])) := by
  obtain ⟨n, hn, rfl⟩ := Option.map_eq_some_iff.mp (Option.mem_toList.mp h)
  exact ⟨n, hn, rfl⟩

theorem mem_defaultWords {value : Option String} {word : List Char}
    (h : word ∈ defaultWords value) :
    ∃ v ∈ value, word = '@' :: ("default(".toList ++ (v.toList ++ [')'])) := by
  obtain ⟨v, hv, rfl⟩ := Option.map_eq_some_iff.mp (Option.mem_toList.mp h)
  exact ⟨v, hv, rfl⟩

theorem mem_nativeWords {word : List Char} (h : word ∈ f.nativeWords) :
    ∃ t ∈ f.nativeType, word = t.toList := by
  obtain ⟨t, ht, rfl⟩ := Option.map_eq_some_iff.mp (Option.mem_toList.mp h)
  exact ⟨t, ht, rfl⟩

theorem mem_relationWords {word : List Char} (h : word ∈ f.relationWords) :
    ∃ r ∈ f.relation, r.toText.isEmpty = false ∧ word = r.toText.toList := by
  obtain ⟨text, htext, rfl⟩ := List.mem_map.mp h
  obtain ⟨hrelation, hne⟩ := Option.filter_eq_some_iff.mp (Option.mem_toList.mp htext)
  obtain ⟨r, hr, rfl⟩ := Option.map_eq_some_iff.mp hrelation
  exact ⟨r, hr, by simpa using hne, rfl⟩

end Field

theorem endsVisible_of_isName {n : String} (h : IsName n) : EndsVisible n.toList := by
  obtain ⟨c, s, hn, -⟩ := id h
  have hne : n.toList ≠ [] := hn ▸ List.cons_ne_nil c s
  have hlast : isNameChar (n.toList.getLast hne) = true :=
    isNameChar_of_isName h _ (List.getLast_mem hne)
  exact ⟨_, _, (List.dropLast_append_getLast hne).symm, isBlank_of_isNameChar hlast⟩

/-- The printed native type is one word. -/
theorem IsNativeType.isAttribute {t : String} (h : IsNativeType t) : IsAttribute t.toList := by
  obtain ⟨name, args, hname, hargs, ht⟩ := h
  have hword : Avoids ['@', '\n'] name.toList := avoids_of_isName hname (by decide)
  obtain ⟨body, c, hbody, havoids, hvisible⟩ : ∃ body c, "db.".toList ++ (name.toList ++ args) =
      body ++ [c] ∧ Avoids ['@', '\n'] (body ++ [c]) ∧ isBlank c = false := by
    rcases hargs with rfl | ⟨inner, -, hinner, rfl⟩
    · obtain ⟨s, c, hn, hvisible⟩ := endsVisible_of_isName hname
      refine ⟨"db.".toList ++ s, c, by simp [hn], ?_, hvisible⟩
      rw [List.append_assoc, ← hn, avoids_append]
      exact ⟨by decide, hword⟩
    · refine ⟨"db.".toList ++ (name.toList ++ '(' :: inner), ')', by simp, ?_, by decide⟩
      simp only [avoids_append, avoids_cons]
      exact ⟨⟨by decide, hword, by decide, hinner.mono (by decide)⟩, by decide⟩
  have hhead : ∀ p ∈ marks, p.head? = some '@' := by decide
  refine ⟨body, c, ?_, fun p hp => ?_, havoids.not_mem (by decide), hvisible⟩
  · rw [ht, ← hbody]
    rfl
  · exact clear_of_not_mem (hhead p hp) (havoids.not_mem (by decide))

theorem IsNativeType.isEmpty {t : String} (h : IsNativeType t) : t.isEmpty = false := by
  obtain ⟨body, c, ht, -⟩ := h.isAttribute
  rw [Bool.eq_false_iff, ne_eq, String.isEmpty_iff, ← String.toList_inj, ht]
  nofun

/-- The printed relation is one word. -/
theorem Relation.Legible.isAttribute {r : Relation} (h : r.Legible)
    (hprinted : r.toText.isEmpty = false) : IsAttribute r.toText.toList := by
  have hmarks : marks ⊆ marks ++ labels := by decide
  have hparen : ∀ p ∈ marks, Clear p [')'] := by decide
  have hclear : ∀ p ∈ marks, Clear p ("relation(name: ".toList ++ ((quote r.name).toList ++
      (r.linkText ++ (r.updateText ++ (r.mapText ++ [')']))))) := by
    intro p hp
    have hupdate : Clear p r.updateText := clear_updateText p (List.mem_append_left _ hp)
    have hrest := hupdate.append ((h.clear_mapText p hp).append (hparen p hp))
    exact h.clear_front (hmarks hp) hrest fun a =>
      (clear_action a p (List.mem_append_left _ hp)).append hrest
  refine ⟨"relation(name: ".toList ++ ((quote r.name).toList ++
    (r.linkText ++ (r.updateText ++ r.mapText))), ')', ?_, fun p hp => ?_, ?_, by decide⟩
  · rw [toList_toText hprinted]
    simp
  · have htext := hclear p hp
    simpa only [List.append_assoc] using htext
  · have hone := h.not_mem_newline
    simpa using hone

namespace Field
variable {f : Field}

theorem Legible.isAttribute (h : f.Legible) {value : Option String}
    (hvalue : ∀ v ∈ value, ∃ d ∈ f.default, d.valueText f.kind f.type = .ok v) :
    ∀ word ∈ f.words value, IsAttribute word := by
  intro word hword
  simp only [words, List.mem_append] at hword
  rcases hword with hword | hword | hword | hword | hword
  · exact isAttribute_flagWords f word hword
  · obtain ⟨n, hn, rfl⟩ := mem_columnWords hword
    have hname : ∀ p ∈ marks, ¬p <:+: (quote n).toList := fun p hp =>
      not_infix_quote (unescaped_of_mem p (List.mem_append_left _ hp)) ((h.columnName n hn).2 p hp)
    exact isAttribute_call (by decide) hname (by decide) (not_mem_toList_quote n)
  · obtain ⟨v, hv, rfl⟩ := mem_defaultWords hword
    obtain ⟨d, hd, htext⟩ := hvalue v hv
    obtain ⟨hone, hlacks⟩ := h.default d hd v htext
    exact isAttribute_call (by decide) hlacks (by decide) hone
  · obtain ⟨t, ht, rfl⟩ := mem_nativeWords hword
    exact (h.nativeType t ht).isAttribute
  · obtain ⟨r, hr, hprinted, rfl⟩ := mem_relationWords hword
    exact (h.relation r hr).isAttribute hprinted

theorem startsAmong_columnWords (f : Field) :
    ∀ word ∈ f.columnWords, StartsAmong ["map("] word := by
  intro word hword
  obtain ⟨n, -, rfl⟩ := mem_columnWords hword
  exact ⟨"map(", by simp, _, rfl⟩

theorem startsAmong_defaultWords (value : Option String) :
    ∀ word ∈ defaultWords value, StartsAmong ["default("] word := by
  intro word hword
  obtain ⟨v, -, rfl⟩ := mem_defaultWords hword
  exact ⟨"default(", by simp, _, rfl⟩

theorem Legible.startsAmong_nativeWords (h : f.Legible) :
    ∀ word ∈ f.nativeWords, StartsAmong ["db."] word := by
  intro word hword
  obtain ⟨t, ht, rfl⟩ := mem_nativeWords hword
  obtain ⟨name, args, -, -, htext⟩ := h.nativeType t ht
  exact ⟨"db.", by simp, _, htext⟩

theorem startsAmong_relationWords (f : Field) :
    ∀ word ∈ f.relationWords, StartsAmong ["relation("] word := by
  intro word hword
  obtain ⟨r, hr, hprinted, rfl⟩ := mem_relationWords hword
  exact ⟨"relation(", by simp, _, r.toList_toText hprinted⟩

/-! ### The notes of the line -/

theorem Legible.firstAmong_column (h : f.Legible) (value : Option String) :
    firstAmong columnArgument? (f.words value) = f.columnName.map escaped := by
  rw [words, firstAmong_append (skips (startsAmong_flagWords f) columnArgument?_other (by decide)),
    columnWords]
  cases hcolumn : f.columnName with
  | none =>
    have hrest : ∀ word ∈ defaultWords value ++ (f.nativeWords ++ f.relationWords),
        ∀ r, columnArgument? (word ++ r) = none := by
      rw [List.forall_mem_append, List.forall_mem_append]
      exact ⟨skips (startsAmong_defaultWords value) columnArgument?_other (by decide),
        skips h.startsAmong_nativeWords columnArgument?_other (by decide),
        skips (startsAmong_relationWords f) columnArgument?_other (by decide)⟩
    exact firstAmong_eq_none hrest
  | some name =>
    have hname : '"' ∉ (escaped name).toList := not_mem_escaped (h.columnName name hcolumn).1
    apply firstAmong_cons
    have hmatch := columnArgument?_quoted hname
      (spaced (defaultWords value ++ (f.nativeWords ++ f.relationWords)))
    rw [String.ofList_toList] at hmatch
    dsimp only
    rw [toList_quote_eq]
    simpa using hmatch

theorem head?_spaced (words : List (List Char)) : ∀ c ∈ (spaced words).head?, c = ' ' := by
  cases words with
  | nil => nofun
  | cons word words => rintro _ ⟨⟩; rfl

theorem Legible.firstAmong_native (h : f.Legible) (value : Option String) :
    firstAmong nativePrefix? (f.words value) = f.nativeType := by
  rw [words, firstAmong_append (skips (startsAmong_flagWords f) nativePrefix?_other (by decide)),
    firstAmong_append (skips (startsAmong_columnWords f) nativePrefix?_other (by decide)),
    firstAmong_append (skips (startsAmong_defaultWords value) nativePrefix?_other (by decide)),
    nativeWords]
  cases hnative : f.nativeType with
  | none =>
    exact firstAmong_eq_none (skips (startsAmong_relationWords f) nativePrefix?_other (by decide))
  | some t =>
    apply firstAmong_cons
    exact nativePrefix?_nativeType (h.nativeType t hnative) (head?_spaced _)

theorem Legible.firstAmong_relation (h : f.Legible) (value : Option String) :
    firstAmong relationPrefix? (f.words value) =
      ((f.relation.map Relation.toText).filter (!·.isEmpty)).map String.toList := by
  rw [words, firstAmong_append (skips (startsAmong_flagWords f) relationPrefix?_other (by decide)),
    firstAmong_append (skips (startsAmong_columnWords f) relationPrefix?_other (by decide)),
    firstAmong_append (skips (startsAmong_defaultWords value) relationPrefix?_other (by decide)),
    firstAmong_append (skips h.startsAmong_nativeWords relationPrefix?_other (by decide))]
  cases hwords : (f.relation.map Relation.toText).filter (!·.isEmpty) with
  | none => rw [relationWords, hwords]; rfl
  | some text =>
    have hmem : text.toList ∈ f.relationWords := by rw [relationWords, hwords]; simp
    obtain ⟨s, htext⟩ : ∃ s, text.toList = "@relation(".toList ++ s := by
      obtain ⟨name, hname, s, hs⟩ := (startsAmong_relationWords f) _ hmem
      exact ⟨s, by rw [hs, List.mem_singleton.mp hname]; rfl⟩
    rw [relationWords, hwords, Option.toList_some, List.map_singleton]
    apply firstAmong_cons
    have hafter : after? "@relation(".toList (text.toList ++ spaced []) = some (s ++ spaced []) :=
      after?_eq_some_iff.mpr (by rw [htext, List.append_assoc])
    rw [relationPrefix?, hafter]
    simp [spaced]

theorem Legible.avoids_head (h : f.Legible) : Avoids ['@', '\n'] f.head := by
  have hmodifier : Avoids ['@', '\n'] f.modifier.toList := by
    rw [modifier]
    split
    · decide
    split <;> decide
  rw [head, avoids_append, avoids_cons, avoids_append]
  exact ⟨avoids_of_isName h.name (by decide), by decide, avoids_of_isName h.type (by decide),
    hmodifier⟩

theorem Legible.head_visible (h : f.Legible) : EndsVisible f.head := by
  have htype : EndsVisible f.type.toList := endsVisible_of_isName h.type
  have htail : EndsVisible (' ' :: (f.type.toList ++ f.modifier.toList)) := by
    rw [modifier]
    split
    · have hend : EndsVisible "[]".toList := ⟨['['], ']', rfl, by decide⟩
      exact hend.append (' ' :: f.type.toList)
    split
    · rw [String.toList_empty, List.append_nil]
      exact htype.append [' ']
    · have hend : EndsVisible "?".toList := ⟨[], '?', rfl, by decide⟩
      exact hend.append (' ' :: f.type.toList)
  exact htail.append f.name.toList

/-- What stands in the `@relation` of the line is what the relation has to say. -/
theorem Legible.notes_relation (h : f.Legible) (value : Option String) :
    onUpdate? ((firstAmong relationPrefix? (f.words value)).getD []) =
        f.relation.bind Relation.printedUpdate ∧
      relationMap? ((firstAmong relationPrefix? (f.words value)).getD []) =
        f.relation.bind fun r => r.printedMap.map escaped := by
  rw [h.firstAmong_relation value]
  cases hr : f.relation with
  | none => exact ⟨rfl, rfl⟩
  | some r =>
    have hlegible : r.Legible := h.relation r hr
    cases hprinted : r.toText.isEmpty with
    | true =>
      obtain ⟨hupdate, hmap⟩ := r.printed_of_isEmpty hprinted
      simp only [Option.map_some, Option.filter_some, hprinted, Bool.not_true, Bool.false_eq_true,
        if_false, Option.map_none, Option.getD_none, Option.bind_some, hupdate, hmap]
      exact ⟨rfl, rfl⟩
    | false =>
      simp only [Option.map_some, Option.filter_some, hprinted, Bool.not_false, if_true,
        Option.getD_some, Option.bind_some]
      exact ⟨hlegible.onUpdate?_toText hprinted, hlegible.relationMap?_toText hprinted⟩

/-- The notes on the line of a legible field are those that it prints. -/
theorem Legible.ofFieldLine_line (h : f.Legible) {value : Option String}
    (hwords : ∀ word ∈ f.words value, IsAttribute word) :
    ofFieldLine (' ' :: ' ' :: (f.head ++ spaced (f.words value)))
      (f.head ++ spaced (f.words value)) = f.printedNotes := by
  have hhead : '@' ∉ f.head := h.avoids_head.not_mem (by decide)
  have hindented : '@' ∉ ' ' :: ' ' :: f.head := by simpa using hhead
  have hcolumn : columnName? (' ' :: ' ' :: (f.head ++ spaced (f.words value))) =
      f.columnName.map escaped :=
    (columnName?_spaced hindented hwords).trans (h.firstAmong_column value)
  obtain ⟨hupdate, hmap⟩ := h.notes_relation value
  rw [ofFieldLine, hcolumn, nativeType?_spaced hhead hwords, h.firstAmong_native value,
    relationPart_spaced hhead hwords, hupdate, hmap, printedNotes]

/-- **The line of a legible field says what the field has to say**, and no more. -/
theorem Legible.lineMeans (h : f.Legible) {model line : String} (hline : f.toText model = .ok line) :
    LineMeans (' ' :: ' ' :: line.toList) f.printedNote? := by
  obtain ⟨value, hvalue, htext⟩ :=
    exists_toList_line hline fun t ht => (h.nativeType t ht).isEmpty
  have hattribute : ∀ word ∈ f.words value, IsAttribute word := h.isAttribute hvalue
  have hvisible : EndsVisible line.toList := by
    rw [htext]
    exact h.head_visible.append_spaced fun word hword => (hattribute word hword).endsVisible
  have hone : '\n' ∉ line.toList := by
    rw [htext, List.mem_append, not_or]
    refine ⟨h.avoids_head.not_mem (by decide), not_mem_spaced (by decide) fun word hword => ?_⟩
    exact (hattribute word hword).not_mem_newline
  obtain ⟨rest, hrest⟩ : ∃ rest, line.toList = f.name.toList ++ ' ' :: rest :=
    ⟨_, by rw [htext, head, List.append_assoc]; rfl⟩
  have htrim : Text.trim (' ' :: ' ' :: line.toList) = line.toList := by
    have hstop : ∀ d ∈ line.toList.head?, isBlank d = false := by
      obtain ⟨c, s, hname, hstart, -⟩ := id h.name
      rw [hrest, hname]
      rintro _ ⟨⟩
      exact isBlank_of_isNameChar (Token.isNameChar_of_isNameStart hstart)
    exact trim_append (b := [' ', ' ']) (by decide) hstop hvisible
  have hmeans : ofLine? (' ' :: ' ' :: line.toList) = f.printedNote? := by
    rw [ofLine?_of_trim_name h.name (by rintro _ ⟨⟩; decide) (htrim.trans hrest), ← hrest, htext,
      h.ofFieldLine_line hattribute, printedNote?]
  rw [← hmeans]
  have hindented : '\n' ∉ ' ' :: ' ' :: line.toList := by simpa using hone
  exact LineMeans.of_endsVisible hindented (hvisible.append [' ', ' '])

/-! ### Plain fields -/

theorem Plain.legible (h : f.Plain) : f.Legible where
  name := h.name
  type := h.type
  columnName := fun n hn => ⟨(h.columnName n hn).not_mem (by decide),
    (lacks_of_avoids ((h.columnName n hn).mono (by decide))).mono (by decide)⟩
  default := by
    intro d hd t ht
    have havoids : Avoids ['@', '\n'] t.toList := (h.default d hd).avoids_valueText ht
    have hhead : ∀ p ∈ marks, '@' ∈ p := by decide
    refine ⟨havoids.not_mem (by decide), fun p hp => ?_⟩
    exact Text.not_infix_of_not_mem (hhead p hp) (havoids.not_mem (by decide))
  nativeType := h.nativeType
  relation := fun r hr => (h.relation r hr).legible

/-- The notes of a plain field are read as they are. -/
theorem Plain.printedNotes_eq (h : f.Plain) : f.printedNotes = f.notes := by
  have hcolumn : f.columnName.map escaped = f.columnName :=
    (Option.map_congr fun n hn => escaped_of_plain (h.columnName n hn)).trans Option.map_id'
  have hupdate : f.relation.bind Relation.printedUpdate = f.relation.bind (·.onUpdate) := by
    cases hr : f.relation with
    | none => rfl
    | some r => exact (h.relation r hr).printed_eq.1
  have hmap : (f.relation.bind fun r => r.printedMap.map escaped) = f.relation.bind (·.map) := by
    cases hr : f.relation with
    | none => rfl
    | some r =>
      have hplain : r.Plain := h.relation r hr
      rw [Option.bind_some, Option.bind_some, hplain.printed_eq.2]
      exact (Option.map_congr fun n hn => escaped_of_plain (hplain.map n hn)).trans Option.map_id'
  rw [printedNotes, notes, hcolumn, hupdate, hmap]

theorem Plain.printedNote?_eq (h : f.Plain) : f.printedNote? = f.note? := by
  rw [printedNote?, note?, h.printedNotes_eq]

end Field

end Datamodel
