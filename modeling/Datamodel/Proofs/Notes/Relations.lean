import Datamodel.Notes
import Datamodel.Proofs.Text.Plain

/-! The update action and the constraint name of a printed relation.

The reader of notes looks for a few words. A relation is legible if none of its texts holds one of
them; then a label is found where it stands and nowhere else. -/

namespace Datamodel

open Printer (commaList nameList)
open Text (Avoids Clear IsPlain OpensBehind OpensWith Unescaped after? after?_eq_some_iff
  avoids_append avoids_intercalate avoids_of_isName clear_concat clear_nil clear_quote escaped
  firstMatch firstMatch_of_some not_infix_of_not_mem not_mem_escaped toList_quote_eq)
open Text.Quoted (quote)
open Token (IsName)

namespace Notes

/-! ### The words that are looked for -/

/-- What the reader of notes looks for on the line of a field. -/
def marks : List (List Char) := ["@map(".toList, "@db.".toList, "@relation(".toList]

/-- What it looks for in a relation. -/
def labels : List (List Char) := ["onUpdate:".toList, "map:".toList]

/-- None of the words `ps` stands in `s`. -/
def Lacks (ps : List (List Char)) (s : String) : Prop := ∀ p ∈ ps, ¬p <:+: s.toList

instance (ps : List (List Char)) (s : String) : Decidable (Lacks ps s) :=
  inferInstanceAs (Decidable (∀ p ∈ ps, ¬p <:+: s.toList))

theorem unescaped_of_mem : ∀ p ∈ marks ++ labels, Unescaped p := by decide

/-- A text without at signs and colons holds no word that is looked for. -/
theorem lacks_of_avoids {s : String} (h : Avoids ['@', ':'] s.toList) :
    Lacks (marks ++ labels) s := by
  have hsigns : ∀ p ∈ marks ++ labels, '@' ∈ p ∨ ':' ∈ p := by decide
  intro p hp
  rcases hsigns p hp with hmem | hmem
  · exact not_infix_of_not_mem hmem (h.not_mem (by decide))
  · exact not_infix_of_not_mem hmem (h.not_mem (by decide))

theorem Lacks.mono {ps qs : List (List Char)} {s : String} (h : Lacks ps s) (hqs : qs ⊆ ps) :
    Lacks qs s := fun p hp => h p (hqs hp)

theorem Lacks.clear_quote {ps : List (List Char)} {s : String} (h : Lacks ps s)
    (hps : ps ⊆ marks ++ labels) : ∀ p ∈ ps, Clear p (quote s).toList :=
  fun p hp => Text.clear_quote (unescaped_of_mem p (hps hp)) (h p hp)

/-! ### Patterns with a label -/

def updateArgument? (s : List Char) : Option ReferentialAction :=
  (after? "onUpdate:".toList s).bind fun s => actionPrefix? (Text.trimLeft s)

theorem onUpdate?_eq (relation : List Char) :
    onUpdate? relation = firstMatch updateArgument? relation := rfl

theorem opensWith_bind {α : Type} {p : List Char} {g : List Char → List Char → Option α} :
    OpensWith p fun s => (after? p s).bind (g s) := by
  intro s a h
  obtain ⟨r, hr, -⟩ := Option.bind_eq_some_iff.mp h
  exact ⟨r, (after?_eq_some_iff.mp hr).symm⟩

theorem opensWith_update : OpensWith "onUpdate:".toList updateArgument? := opensWith_bind

theorem actionPrefix?_toText (a : ReferentialAction) (s : List Char) :
    actionPrefix? (a.toText.toList ++ s) = some a := by
  cases a <;> rfl

theorem updateArgument?_toText (a : ReferentialAction) (s : List Char) :
    updateArgument? ("onUpdate: ".toList ++ (a.toText.toList ++ s)) = some a := by
  have htrim : Text.trimLeft (' ' :: (a.toText.toList ++ s)) = a.toText.toList ++ s := by
    cases a <;> rfl
  have hafter : after? "onUpdate:".toList ("onUpdate: ".toList ++ (a.toText.toList ++ s)) =
      some (' ' :: (a.toText.toList ++ s)) := rfl
  rw [updateArgument?, hafter, Option.bind_some, htrim, actionPrefix?_toText]

def mapArgument? : List Char → Option String
  | c :: s =>
    if Text.isWordChar c then none
    else (after? "map:".toList s).bind fun s =>
      (Text.quotedPrefix? (Text.trimLeft s)).bind fun (name, _) => some (String.ofList name)
  | [] => none

theorem relationMap?_eq (relation : List Char) :
    relationMap? relation = firstMatch mapArgument? relation := by
  refine congrArg (firstMatch · relation) (funext fun s => ?_)
  cases s with
  | nil => rfl
  | cons c s => cases h : Text.isWordChar c <;> simp [mapArgument?, h]

theorem opensBehind_map : OpensBehind "map:".toList mapArgument? := by
  intro c s a h
  rw [mapArgument?] at h
  split at h
  · cases h
  · obtain ⟨r, hr, -⟩ := Option.bind_eq_some_iff.mp h
    exact ⟨r, (after?_eq_some_iff.mp hr).symm⟩

theorem mapArgument?_quoted {name : List Char} (h : '"' ∉ name) (s : List Char) :
    mapArgument? (" map: ".toList ++ ('"' :: (name ++ '"' :: s))) = some (String.ofList name) := by
  have htrim : Text.trimLeft (' ' :: ('"' :: (name ++ '"' :: s))) = '"' :: (name ++ '"' :: s) :=
    rfl
  have hafter : after? "map:".toList ("map: ".toList ++ ('"' :: (name ++ '"' :: s))) =
      some (' ' :: ('"' :: (name ++ '"' :: s))) := rfl
  have hspace : Text.isWordChar ' ' = false := by decide
  show mapArgument? (' ' :: ("map: ".toList ++ ('"' :: (name ++ '"' :: s)))) = _
  rw [mapArgument?, hspace, if_neg Bool.false_ne_true, hafter, Option.bind_some, htrim,
    Text.quotedPrefix?_quoted h, Option.bind_some]

end Notes

open Notes

/-! ### Printed relations -/

namespace Relation

/-- The update action that is printed. -/
def printedUpdate (r : Relation) : Option ReferentialAction :=
  if r.fromFields.isEmpty then none else r.onUpdate

/-- The name of the constraint that is printed. -/
def printedMap (r : Relation) : Option String := if r.fromFields.isEmpty then none else r.map

/-- A relation whose texts hold no word that is looked for. The name of its constraint holds no
quote. -/
structure Legible (r : Relation) : Prop where
  name : Lacks (marks ++ labels) r.name
  fromFields : ∀ n ∈ r.fromFields, Avoids ['@', ':', '\n'] n.toList
  toFields : ∀ n ∈ r.toFields, Avoids ['@', ':', '\n'] n.toList
  map : ∀ n ∈ r.printedMap, '"' ∉ n.toList ∧ Lacks (marks ++ labels) n

/-- The arguments of a relation between its name and its update action. -/
def linkText (r : Relation) : List Char :=
  if r.fromFields.isEmpty then []
  else
    ", fields: ".toList ++ ((nameList r.fromFields).toList ++ (", references: ".toList ++
      ((nameList r.toFields).toList ++
        (r.onDelete.map fun action => ", onDelete: ".toList ++ action.toText.toList).getD [])))

def updateText (r : Relation) : List Char :=
  (r.printedUpdate.map fun action => ", onUpdate: ".toList ++ action.toText.toList).getD []

def mapText (r : Relation) : List Char :=
  (r.printedMap.map fun name => ", map: ".toList ++ (quote name).toList).getD []

section
variable {r : Relation}

theorem toList_toText (h : r.toText.isEmpty = false) : r.toText.toList =
    '@' :: ("relation(name: ".toList ++ ((quote r.name).toList ++
      (r.linkText ++ (r.updateText ++ (r.mapText ++ [')']))))) := by
  obtain ⟨name, fromFields, toFields, onDelete, onUpdate, map⟩ := r
  cases hf : fromFields.isEmpty with
  | true =>
    have hn : name.isEmpty = false := by
      cases hn : name.isEmpty with
      | false => rfl
      | true => simp [toText, hf, hn] at h
    simp [toText, hf, hn, linkText, updateText, mapText, printedUpdate, printedMap]
  | false =>
    cases onDelete <;> cases onUpdate <;> cases map <;>
      simp [toText, hf, commaList, linkText, updateText, mapText, printedUpdate, printedMap]

/-- A relation without text has no notes. -/
theorem printed_of_isEmpty (h : r.toText.isEmpty = true) :
    r.printedUpdate = none ∧ r.printedMap = none := by
  cases hf : r.fromFields.isEmpty with
  | true => exact ⟨if_pos hf, if_pos hf⟩
  | false =>
    rw [String.isEmpty_iff, ← String.toList_inj] at h
    simp [toText, hf] at h

theorem avoids_nameList {names : List String} {cs : List Char}
    (h : ∀ n ∈ names, Avoids cs n.toList) (hcs : Avoids cs "[], ".toList) :
    Avoids cs (nameList names).toList := by
  simp only [String.reduceToList, Text.avoids_cons] at hcs
  obtain ⟨hopen, hclose, hcomma, hspace, -⟩ := hcs
  have hnames : Avoids cs (commaList names).toList := by
    refine avoids_intercalate ?_ h
    simp [hcomma, hspace]
  rw [nameList, String.toList_append, String.toList_append, avoids_append, avoids_append]
  exact ⟨⟨by simp [hopen], hnames⟩, by simp [hclose]⟩

/-- A list of names without at signs and colons is clear of what is looked for. -/
theorem clear_nameList {names : List String} (h : ∀ n ∈ names, Avoids ['@', ':', '\n'] n.toList) :
    ∀ p ∈ marks ++ labels, Clear p (nameList names).toList := by
  intro p hp
  have hlist : Avoids ['@', ':'] (nameList names).toList :=
    avoids_nameList (fun n hn => (h n hn).mono (by decide)) (by decide)
  have hbracket : ∀ p ∈ marks ++ labels, ']' ∉ p := by decide
  have htext : (nameList names).toList = ('[' :: (commaList names).toList) ++ [']'] := by
    simp [nameList]
  have hlacks := lacks_of_avoids hlist p hp
  rw [htext] at hlacks ⊢
  exact clear_concat hlacks (hbracket p hp)

/-- Up to its update action a legible relation is clear of what is looked for. What is left of
`onDelete: NoAction` may well be the start of another label, so what follows has a say here. -/
theorem Legible.clear_front (h : r.Legible) {p x : List Char} (hp : p ∈ marks ++ labels)
    (hx : Clear p x) (hactions : ∀ a : ReferentialAction, Clear p (a.toText.toList ++ x)) :
    Clear p ("relation(name: ".toList ++ ((quote r.name).toList ++ (r.linkText ++ x))) := by
  have hstart : ∀ p ∈ marks ++ labels, Clear p "relation(name: ".toList := by decide
  have hfields : ∀ p ∈ marks ++ labels, Clear p ", fields: ".toList := by decide
  have hreferences : ∀ p ∈ marks ++ labels, Clear p ", references: ".toList := by decide
  have hdelete : ∀ p ∈ marks ++ labels, Clear p ", onDelete: ".toList := by decide
  have hname : Clear p (quote r.name).toList := h.name.clear_quote (List.Subset.refl _) p hp
  refine (hstart p hp).append (hname.append ?_)
  rw [linkText]
  split
  · exact hx
  · simp only [List.append_assoc]
    refine (hfields p hp).append ((clear_nameList h.fromFields p hp).append
      ((hreferences p hp).append ((clear_nameList h.toFields p hp).append ?_)))
    cases r.onDelete with
    | none => exact hx
    | some action =>
      rw [Option.map_some, Option.getD_some, List.append_assoc]
      exact (hdelete p hp).append (hactions action)

theorem clear_action (a : ReferentialAction) :
    ∀ p ∈ marks ++ ["map:".toList], Clear p a.toText.toList := by
  cases a <;> decide

theorem clear_action_update (a : ReferentialAction) :
    ∀ c ∈ [',', ')'], Clear "onUpdate:".toList (a.toText.toList ++ [c]) := by
  cases a <;> decide

theorem clear_updateText : ∀ p ∈ marks ++ ["map:".toList], Clear p r.updateText := by
  have hlabel : ∀ p ∈ marks ++ ["map:".toList], Clear p ", onUpdate: ".toList := by decide
  intro p hp
  rw [updateText]
  cases r.printedUpdate with
  | none => exact clear_nil
  | some action => exact (hlabel p hp).append (clear_action action p hp)

theorem Legible.clear_mapText (h : r.Legible) : ∀ p ∈ marks, Clear p r.mapText := by
  have hlabel : ∀ p ∈ marks, Clear p ", map: ".toList := by decide
  have hsub : marks ⊆ marks ++ labels := by decide
  intro p hp
  rw [mapText]
  cases hmap : r.printedMap with
  | none => exact clear_nil
  | some name =>
    have hname : Clear p (quote name).toList :=
      (h.map name hmap).2.clear_quote (List.Subset.refl _) p (hsub hp)
    exact (hlabel p hp).append hname

theorem Legible.not_mem_newline (h : r.Legible) : '\n' ∉ "relation(name: ".toList ++
    ((quote r.name).toList ++ (r.linkText ++ (r.updateText ++ (r.mapText ++ [')'])))) := by
  have hquote (n : String) : '\n' ∉ (quote n).toList := Text.not_mem_toList_quote n
  have haction (a : ReferentialAction) : '\n' ∉ a.toText.toList := by cases a <;> decide
  have hlist {names : List String} (h : ∀ n ∈ names, Avoids ['@', ':', '\n'] n.toList) :
      '\n' ∉ (nameList names).toList :=
    (avoids_nameList h (by decide)).not_mem (by decide)
  have hlink : '\n' ∉ r.linkText := by
    rw [linkText]
    split
    · nofun
    · cases r.onDelete <;> simp [hlist h.fromFields, hlist h.toFields, haction]
  have hupdate : '\n' ∉ r.updateText := by
    rw [updateText]
    cases r.printedUpdate <;> simp [haction]
  have hmap : '\n' ∉ r.mapText := by
    rw [mapText]
    cases r.printedMap <;> simp [hquote]
  simp [hquote, hlink, hupdate, hmap]

/-- **The update action of a printed relation** is found. -/
theorem Legible.onUpdate?_toText (h : r.Legible) (hprinted : r.toText.isEmpty = false) :
    onUpdate? r.toText.toList = r.printedUpdate := by
  have hlabel : "onUpdate:".toList ∈ marks ++ labels := by decide
  have hsign : Clear "onUpdate:".toList ['@'] := by decide
  have hends : ∀ c ∈ [',', ')'], Clear "onUpdate:".toList [c] := by decide
  have hskip {c : Char} (hc : c ∈ [',', ')']) (t : List Char) :
      firstMatch updateArgument? ('@' :: ("relation(name: ".toList ++ ((quote r.name).toList ++
        (r.linkText ++ c :: t)))) = firstMatch updateArgument? t := by
    have hfront := hsign.append
      (h.clear_front hlabel (hends c hc) fun a => clear_action_update a c hc)
    have htext : '@' :: ("relation(name: ".toList ++ ((quote r.name).toList ++
          (r.linkText ++ c :: t))) =
        (['@'] ++ ("relation(name: ".toList ++ ((quote r.name).toList ++
          (r.linkText ++ [c])))) ++ t := by
      simp
    rw [htext, opensWith_update.firstMatch_append hfront]
  have hend : firstMatch updateArgument? [] = none := rfl
  rw [onUpdate?_eq, toList_toText hprinted, updateText]
  cases r.printedUpdate with
  | none =>
    rw [Option.map_none, Option.getD_none, List.nil_append, mapText]
    cases hmap : r.printedMap with
    | none => exact (hskip (by decide) []).trans hend
    | some name =>
      have hspace : Clear "onUpdate:".toList " map: ".toList := by decide
      have hname : Clear "onUpdate:".toList (quote name).toList :=
        (h.map name hmap).2.clear_quote (List.Subset.refl _) _ hlabel
      have hargument : ", map: ".toList ++ (quote name).toList ++ [')'] =
          ',' :: (" map: ".toList ++ ((quote name).toList ++ [')'])) := by
        simp
      rw [Option.map_some, Option.getD_some, hargument, hskip (by decide)]
      exact opensWith_update.firstMatch_eq_none (hspace.append (hname.append (hends ')' (by decide))))
  | some action =>
    have hspace : Clear "onUpdate:".toList [' '] := by decide
    have hargument : ", onUpdate: ".toList ++ action.toText.toList ++ (r.mapText ++ [')']) =
        ',' :: ([' '] ++ ("onUpdate: ".toList ++ (action.toText.toList ++ (r.mapText ++ [')'])))) := by
      simp
    rw [Option.map_some, Option.getD_some, hargument, hskip (by decide),
      opensWith_update.firstMatch_append hspace]
    exact firstMatch_of_some (by simp) (updateArgument?_toText action _)

/-- **The constraint name of a printed relation** is found, as it stands in its literal. -/
theorem Legible.relationMap?_toText (h : r.Legible) (hprinted : r.toText.isEmpty = false) :
    relationMap? r.toText.toList = r.printedMap.map escaped := by
  have hlabel : "map:".toList ∈ marks ++ ["map:".toList] := by decide
  have hsign : Clear "map:".toList ['@'] := by decide
  have hends : ∀ c ∈ [',', ')'], Clear "map:".toList [c] := by decide
  have hupdate : Clear "map:".toList r.updateText := clear_updateText _ hlabel
  have hfront := hsign.append (h.clear_front (p := "map:".toList) (by decide) hupdate fun a =>
    (clear_action a _ hlabel).append hupdate)
  have htext : r.toText.toList = (['@'] ++ ("relation(name: ".toList ++ ((quote r.name).toList ++
      (r.linkText ++ r.updateText)))) ++ (r.mapText ++ [')']) := by
    rw [toList_toText hprinted]
    simp
  rw [relationMap?_eq, htext, mapText]
  cases hmap : r.printedMap with
  | none =>
    apply opensBehind_map.firstMatch_eq_none (by decide)
    exact hfront.append (hends ')' (by decide))
  | some name =>
    have hname : '"' ∉ (escaped name).toList := not_mem_escaped (h.map name hmap).1
    have hargument : ", map: ".toList ++ (quote name).toList ++ [')'] =
        [','] ++ (" map: ".toList ++ ('"' :: ((escaped name).toList ++ '"' :: [')']))) := by
      rw [toList_quote_eq]
      simp
    rw [Option.map_some, Option.getD_some, hargument, ← List.append_assoc,
      opensBehind_map.firstMatch_append (hfront.append (hends ',' (by decide))) (by simp)]
    apply firstMatch_of_some (by simp)
    rw [mapArgument?_quoted hname, String.ofList_toList]

end

/-! ### Plain relations -/

/-- A relation of names and plain texts. The side without a link has no storage notes. -/
structure Plain (r : Relation) : Prop where
  name : IsPlain r.name
  fromFields : ∀ n ∈ r.fromFields, IsName n
  toFields : ∀ n ∈ r.toFields, IsName n
  map : ∀ n ∈ r.map, IsPlain n
  unlinked : r.fromFields = [] → r.onUpdate = none ∧ r.map = none

section
variable {r : Relation}

theorem Plain.printed_eq (h : r.Plain) : r.printedUpdate = r.onUpdate ∧ r.printedMap = r.map := by
  rw [printedUpdate, printedMap]
  split
  · next hf =>
    obtain ⟨hupdate, hmap⟩ := h.unlinked (List.isEmpty_iff.mp hf)
    exact ⟨hupdate.symm, hmap.symm⟩
  · exact ⟨rfl, rfl⟩

theorem Plain.legible (h : r.Plain) : r.Legible where
  name := lacks_of_avoids (h.name.mono (by decide))
  fromFields := fun n hn => avoids_of_isName (h.fromFields n hn) (by decide)
  toFields := fun n hn => avoids_of_isName (h.toFields n hn) (by decide)
  map := by
    intro n hn
    rw [h.printed_eq.2] at hn
    exact ⟨(h.map n hn).not_mem (by decide), lacks_of_avoids ((h.map n hn).mono (by decide))⟩

end

end Relation

end Datamodel
