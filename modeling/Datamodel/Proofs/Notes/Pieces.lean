import Datamodel.Proofs.Notes.Lines

/-! The storage notes of one model in a text of lines.

The reader of notes cuts a text at the lines that start with a closing brace. So the notes of a
model come from the lines behind the one that opens it, up to the next of these, if no other line
opens a model of that name (`linesOf?_extract`). -/

namespace Datamodel.Notes

open Text (dropReturn joinLines joinLines_append joinLines_cons_cons)

/-- A line as the piece that starts with it has it: a closing brace at its head belongs to none. -/
def pastClosing : List Char → List Char
  | '}' :: s => s
  | s => s

/-- A line that starts no piece. -/
def isWithin (line : List Char) : Bool := line.head? != some '}'

/-- The line opens a model of that name, with or without the carriage return at its end. -/
def Opens (line : List Char) (name : String) : Prop :=
  ∃ line', Shown line line' ∧ openedModel? line' = some name

section
variable {line r : List Char} {ls ls' : List (List Char)} {a : ModelNotes} {name : String}

theorem pastClosing_of_head (h : line.head? ≠ some '}') : pastClosing line = line := by
  unfold pastClosing
  split
  · exact absurd rfl h
  · rfl

theorem not_mem_pastClosing (h : '\n' ∉ line) : '\n' ∉ pastClosing line := by
  unfold pastClosing
  split
  · exact fun hmem => h (List.mem_cons_of_mem _ hmem)
  · exact h

theorem isSilent_of_not_opens (h : ∀ name, ¬Opens line name) : IsSilent line := by
  constructor
  · rw [Option.eq_none_iff_forall_ne_some]
    exact fun name hname => h name ⟨line, .inl rfl, hname⟩
  · rw [Option.eq_none_iff_forall_ne_some]
    exact fun name hname => h name ⟨dropReturn line, .inr rfl, hname⟩

/-! ### Pieces -/

theorem extract_append_closing (s t : List Char) :
    extract (s ++ '\n' :: '}' :: t) = extract s ++ extract t := by
  rw [extract, Text.splitAtClosings_append_closing, List.filterMap_append]
  rfl

/-- A line that starts with a closing brace starts a piece. -/
theorem extract_joinLines_append (hne : ls ≠ []) :
    extract (joinLines (ls ++ ('}' :: r) :: ls')) =
      extract (joinLines ls) ++ extract (joinLines (r :: ls')) := by
  rw [joinLines_append hne (List.cons_ne_nil _ _), joinLines_cons_cons, extract_append_closing]

theorem isWithin_iff {l : List Char} : isWithin l = true ↔ l.head? ≠ some '}' := by
  simp [isWithin]

/-- The notes of lines of which only the first may start a piece. -/
theorem extract_cons (hline : '\n' ∉ line) (h : ∀ l ∈ ls, '\n' ∉ l ∧ isWithin l = true) :
    extract (joinLines (line :: ls)) = (ofLines? (line :: ls)).toList :=
  extract_piece (List.cons_ne_nil line ls)
    (List.forall_mem_cons.mpr ⟨hline, fun l hl => (h l hl).1⟩)
    fun l hl => isWithin_iff.mp (h l hl).2

/-- The notes of lines that are one piece. -/
theorem exists_extract_joinLines (hne : ls ≠ []) (hn : ∀ l ∈ ls, '\n' ∉ l)
    (htail : ∀ l ∈ ls.tail, l.head? ≠ some '}') :
    ∃ ls', List.Forall₂ Shown ls ls' ∧ extract (joinLines ls) = (ofLines? ls').toList :=
  ⟨ls, List.forall₂_same.mpr fun _ _ => .inl rfl, extract_piece hne hn htail⟩

/-- A line opens the model of the notes, and each of them is taken from one of the lines behind. -/
structure TakenFrom (a : ModelNotes) (line : List Char) (more : List (List Char)) : Prop where
  opens : Opens line a.model
  lines : ∀ note ∈ a.lines, ∃ l ∈ more, ∃ l', Shown l l' ∧ ofLine? l' = some note

/-- The notes of a piece are taken from its lines, behind one that opens a model. -/
theorem exists_takenFrom_of_ofLines? (hs : List.Forall₂ Shown ls ls') (h : ofLines? ls' = some a) :
    ∃ x l y, ls = x ++ l :: y ∧ TakenFrom a l y := by
  induction hs with
  | nil => cases h
  | @cons line line' ls ls' hshown hs ih =>
    rw [ofLines?] at h
    split at h
    · next model hmodel =>
      cases h
      refine ⟨[], line, ls, rfl, ⟨line', hshown, hmodel⟩, fun note hnote => ?_⟩
      obtain ⟨l', hl', hof⟩ := List.mem_filterMap.mp hnote
      obtain ⟨l, hl, hl''⟩ := exists_of_forall₂_right hs l' hl'
      exact ⟨l, hl, l', hl'', hof⟩
    · obtain ⟨x, l, y, rfl, htaken⟩ := ih h
      exact ⟨line :: x, l, y, rfl, htaken⟩

theorem exists_last_of_mem {α : Type} {p : α → Prop} {xs : List α} (h : ∃ x ∈ xs, p x) :
    ∃ u x v, xs = u ++ x :: v ∧ p x ∧ ∀ y ∈ v, ¬p y := by
  induction xs with
  | nil =>
    obtain ⟨x, hx, -⟩ := h
    cases hx
  | cons x xs ih =>
    by_cases hmore : ∃ y ∈ xs, p y
    · obtain ⟨u, y, v, rfl, hy, hv⟩ := ih hmore
      exact ⟨x :: u, y, v, rfl, hy, hv⟩
    · obtain ⟨y, hy, hp⟩ := h
      rcases List.mem_cons.mp hy with rfl | hy
      · exact ⟨[], y, xs, rfl, hp, fun z hz hpz => hmore ⟨z, hz, hpz⟩⟩
      · exact absurd ⟨y, hy, hp⟩ hmore

theorem eq_cons_of_head {l : List Char} (h : l.head? = some '}') : l = '}' :: pastClosing l := by
  obtain ⟨s, rfl⟩ := List.head?_eq_some_iff.mp h
  rfl

/-- The notes of the pieces behind the first, given the lines from the start of the second on. -/
def later : List (List Char) → Notes
  | [] => []
  | line :: ls => extract (joinLines (pastClosing line :: ls))

/-- A piece ends before the next line that starts with a closing brace. -/
theorem extract_joinLines_takeWhile (hne : ls ≠ []) (below : List (List Char)) :
    extract (joinLines (ls ++ below)) = extract (joinLines (ls ++ below.takeWhile isWithin)) ++
      later (below.dropWhile isWithin) := by
  have hbelow : below.takeWhile isWithin ++ below.dropWhile isWithin = below :=
    List.takeWhile_append_dropWhile
  cases hdrop : below.dropWhile isWithin with
  | nil =>
    rw [hdrop, List.append_nil] at hbelow
    rw [hbelow, later, List.append_nil]
  | cons l more =>
    have hl : l.head? = some '}' := by
      simpa [isWithin] using Text.head?_dropWhile isWithin below l (by rw [hdrop]; rfl)
    rw [later, ← extract_joinLines_append (by simp [hne]), ← eq_cons_of_head hl, List.append_assoc,
      ← hdrop, hbelow]

/-- The notes of the first piece are taken from its lines. -/
theorem takenFrom_of_mem_piece (hn : ∀ l ∈ line :: ls, '\n' ∉ l)
    (ha : a ∈ extract (joinLines (line :: ls.takeWhile isWithin))) :
    TakenFrom a line (ls.takeWhile isWithin) ∨
      ∃ x l y, ls = x ++ l :: y ∧ TakenFrom a (pastClosing l) (y.takeWhile isWithin) := by
  have hls : ls.takeWhile isWithin ++ ls.dropWhile isWithin = ls := List.takeWhile_append_dropWhile
  have hstop := Text.head?_dropWhile isWithin ls
  have hwithin : ∀ l ∈ ls.takeWhile isWithin, isWithin l = true :=
    List.all_eq_true.mp List.all_takeWhile
  generalize ls.takeWhile isWithin = piece at *
  generalize ls.dropWhile isWithin = rest at *
  obtain rfl := hls
  have hpiece : ∀ l ∈ line :: piece, '\n' ∉ l := fun l hl => hn l (by
    rw [← List.cons_append]
    exact List.mem_append_left _ hl)
  have hhead : ∀ l ∈ piece, l.head? ≠ some '}' := fun l hl => by
    simpa [isWithin] using hwithin l hl
  obtain ⟨ls', hshown, heq⟩ := exists_extract_joinLines (List.cons_ne_nil line piece) hpiece hhead
  rw [heq, Option.mem_toList] at ha
  obtain ⟨x, l, y, hsplit, htaken⟩ := exists_takenFrom_of_ofLines? hshown ha
  cases x with
  | nil =>
    cases hsplit
    exact .inl htaken
  | cons _ x =>
    obtain ⟨rfl, rfl⟩ := List.cons.inj hsplit
    refine .inr ⟨x, l, y ++ rest, by simp, ?_⟩
    rw [pastClosing_of_head (hhead l (by simp)),
      Text.takeWhile_append_of_stop (fun l' hl' => hwithin l' (by simp [hl'])) hstop]
    exact htaken

/-- **The notes of a model are taken** from the lines behind one that opens it, up to the next that
starts with a closing brace. -/
theorem takenFrom_of_mem_extract (hn : ∀ l ∈ line :: ls, '\n' ∉ l)
    (ha : a ∈ extract (joinLines (line :: ls))) :
    TakenFrom a line (ls.takeWhile isWithin) ∨
      ∃ x l y, ls = x ++ l :: y ∧ TakenFrom a (pastClosing l) (y.takeWhile isWithin) := by
  induction hlength : ls.length using Nat.strong_induction_on generalizing line ls with
  | _ n ih =>
    have hcut := extract_joinLines_takeWhile (List.cons_ne_nil line []) ls
    rw [List.singleton_append, List.singleton_append] at hcut
    rw [hcut, List.mem_append] at ha
    rcases ha with ha | ha
    · exact takenFrom_of_mem_piece hn ha
    · have hls : ls.takeWhile isWithin ++ ls.dropWhile isWithin = ls :=
        List.takeWhile_append_dropWhile
      cases hdrop : ls.dropWhile isWithin with
      | nil =>
        rw [hdrop] at ha
        cases ha
      | cons l more =>
        rw [hdrop] at ha hls
        have hmore : ∀ l' ∈ l :: more, '\n' ∉ l' := fun l' hl' => hn l' (by
          rw [← hls]
          exact List.mem_cons_of_mem _ (List.mem_append_right _ hl'))
        have hshorter : more.length < n := by
          rw [← hlength, ← hls, List.length_append, List.length_cons]
          omega
        have hpast : ∀ l' ∈ pastClosing l :: more, '\n' ∉ l' := by
          rw [List.forall_mem_cons] at hmore ⊢
          exact hmore.imp_left not_mem_pastClosing
        rw [← hls]
        rcases ih more.length hshorter hpast ha rfl with htaken | ⟨x, l', y, rfl, htaken⟩
        · exact .inr ⟨_, l, more, rfl, htaken⟩
        · exact .inr ⟨ls.takeWhile isWithin ++ l :: x, l', y, by simp, htaken⟩

/-- A model with notes is opened by a line of the text. -/
theorem exists_opens_of_mem_extract (hn : ∀ l ∈ line :: ls, '\n' ∉ l)
    (ha : a ∈ extract (joinLines (line :: ls))) :
    Opens line a.model ∨ ∃ l ∈ ls, Opens (pastClosing l) a.model := by
  rcases takenFrom_of_mem_extract hn ha with htaken | ⟨x, l, y, rfl, htaken⟩
  · exact .inl htaken.opens
  · exact .inr ⟨l, by simp, htaken.opens⟩

/-! ### The piece of a model -/

/-- What a line says about the field of that name. -/
def fieldNotes? (field : String) (line : List Char) : Option FieldNotes :=
  (ofLine? line).bind (LineNote.notesOf? field)

section
variable {above between below : List (List Char)} {header row : List Char} {field : String}

/-- The lines in front of a model's header. No other model that one of them opens is left open:
behind its line, up to that of the header, one starts with a closing brace. -/
structure Closes (above : List (List Char)) (header : List Char) : Prop where
  first : ∀ l ∈ (above ++ [header]).head?, l.head? ≠ some '}'
  closed : ∀ x l y, above = x ++ l :: y → ∀ name, Opens (pastClosing l) name →
    ∃ l' ∈ y ++ [header], l'.head? = some '}'

theorem Closes.isSilent (h : Closes above header) {u v : List (List Char)} {l : List Char}
    (habove : above = u ++ l :: v) (hv : ∀ l' ∈ v ++ [header], l'.head? ≠ some '}') :
    IsSilent (pastClosing l) := by
  refine isSilent_of_not_opens fun name hopens => ?_
  obtain ⟨l', hl', hhead⟩ := h.closed u l v habove name hopens
  exact hv l' hl' hhead

/-- Behind the last line that starts with a closing brace, the lines above a header say nothing. -/
theorem Closes.isSilent_of_mem (h : Closes above header) {u v : List (List Char)}
    (habove : above = u ++ v) (hv : ∀ l ∈ v ++ [header], l.head? ≠ some '}') :
    ∀ l ∈ v, IsSilent l ∧ ∃ l' ∈ above, l = pastClosing l' := by
  intro l hl
  obtain ⟨x, y, rfl⟩ := List.append_of_mem hl
  have hsame : pastClosing l = l := pastClosing_of_head (hv l (by simp))
  have hsplit : above = (u ++ x) ++ l :: y := by rw [habove, List.append_assoc]
  have hsilent := h.isSilent hsplit fun l' hl' => hv l' (by
    rw [List.append_assoc, List.cons_append]
    exact List.mem_append_right x (List.mem_cons_of_mem l hl'))
  rw [hsame] at hsilent
  exact ⟨hsilent, l, by simp [habove], hsame.symm⟩

/-- The piece with a header starts behind the last line that starts with a closing brace. -/
theorem Closes.exists_lead (h : Closes above header) (tail : List (List Char)) :
    ∃ earlier lead, extract (joinLines (above ++ header :: tail)) =
        extract (joinLines earlier) ++ extract (joinLines (lead ++ pastClosing header :: tail)) ∧
      earlier <+: above ∧ (∀ l ∈ lead, IsSilent l ∧ ∃ l' ∈ above, l = pastClosing l') ∧
      ∀ l ∈ (lead ++ [pastClosing header]).tail, l.head? ≠ some '}' := by
  by_cases hclosing : ∃ l ∈ above ++ [header], l.head? = some '}'
  · obtain ⟨u, l, v, heq, hl, hv⟩ := exists_last_of_mem hclosing
    have hu : u ≠ [] := by
      rintro rfl
      exact h.first l (by rw [heq]; rfl) hl
    rcases List.eq_nil_or_concat' v with rfl | ⟨v, d, rfl⟩
    · obtain ⟨rfl, hheader⟩ := List.append_inj' heq rfl
      obtain rfl := List.singleton_inj.mp hheader
      refine ⟨above, [], ?_, List.prefix_rfl, nofun, nofun⟩
      rw [eq_cons_of_head hl]
      exact extract_joinLines_append hu
    · rw [← List.cons_append, ← List.append_assoc] at heq
      obtain ⟨rfl, hheader⟩ := List.append_inj' heq rfl
      obtain rfl := List.singleton_inj.mp hheader
      have hheader : pastClosing header = header := pastClosing_of_head (hv header (by simp))
      refine ⟨u, pastClosing l :: v, ?_, List.prefix_append _ _, ?_, ?_⟩
      · rw [hheader, eq_cons_of_head hl, List.append_assoc]
        exact extract_joinLines_append hu
      · exact List.forall_mem_cons.mpr ⟨⟨h.isSilent rfl hv, l, by simp, rfl⟩,
          h.isSilent_of_mem (List.append_cons u l v) hv⟩
      · rw [hheader]
        exact hv
  · have hopen : ∀ l ∈ above ++ [header], l.head? ≠ some '}' :=
      fun l hl hhead => hclosing ⟨l, hl, hhead⟩
    have hheader : pastClosing header = header := pastClosing_of_head (hopen header (by simp))
    refine ⟨[], above, ?_, List.nil_prefix,
      h.isSilent_of_mem (List.nil_append above).symm hopen, fun l hl => ?_⟩
    · rw [hheader]
      rfl
    · rw [hheader] at hl
      exact hopen l (List.mem_of_mem_tail hl)

theorem Closes.exists_opens (h : Closes above header) {earlier : List (List Char)}
    (hearlier : earlier <+: above) (hn : ∀ l ∈ above, '\n' ∉ l)
    (ha : a ∈ extract (joinLines earlier)) : ∃ l ∈ above, Opens (pastClosing l) a.model := by
  obtain ⟨more, rfl⟩ := hearlier
  cases earlier with
  | nil => cases ha
  | cons line ls =>
    have hfirst : pastClosing line = line := pastClosing_of_head (h.first line rfl)
    rcases exists_opens_of_mem_extract (fun l hl => hn l (List.mem_append_left _ hl)) ha with
      hopens | ⟨l, hl, hopens⟩
    · exact ⟨line, by simp, by rwa [hfirst]⟩
    · exact ⟨l, by simp [hl], hopens⟩

theorem linesOf?_append_cons {as as' : Notes} {lines : List LineNote}
    (h : ∀ a ∈ as ++ as', a.model ≠ name) :
    linesOf? (as ++ ⟨name, lines⟩ :: as') name = some lines := by
  rw [List.forall_mem_append] at h
  have hnone (as : Notes) (h : ∀ a ∈ as, a.model ≠ name) : as.filter (·.model == name) = [] :=
    List.filter_eq_nil_iff.mpr fun a ha => by simpa using h a ha
  have hany : (as ++ ⟨name, lines⟩ :: as').any (·.model == name) = true := by simp
  rw [linesOf?, if_pos hany, List.filter_append, List.filter_cons, if_pos (beq_self_eq_true name),
    hnone as h.1, hnone as' h.2]
  simp

/-- The models of the later pieces are opened by their lines. -/
theorem exists_opens_of_mem_later (hn : ∀ l ∈ below, '\n' ∉ l)
    (ha : a ∈ later (below.dropWhile isWithin)) : ∃ l ∈ below, Opens (pastClosing l) a.model := by
  have hsub := (List.dropWhile_suffix isWithin (l := below)).subset
  cases hdrop : below.dropWhile isWithin with
  | nil =>
    rw [hdrop] at ha
    cases ha
  | cons l more =>
    rw [hdrop] at ha hsub
    have hpast : ∀ l' ∈ pastClosing l :: more, '\n' ∉ l' := by
      have hmore : ∀ l' ∈ l :: more, '\n' ∉ l' := fun l' hl' => hn l' (hsub hl')
      rw [List.forall_mem_cons] at hmore ⊢
      exact hmore.imp_left not_mem_pastClosing
    rcases exists_opens_of_mem_extract hpast ha with hopens | ⟨l', hl', hopens⟩
    · exact ⟨l, hsub List.mem_cons_self, hopens⟩
    · exact ⟨l', hsub (List.mem_cons_of_mem l hl'), hopens⟩

/-- The notes of a piece with a header are those of the lines behind it. -/
theorem ofLines?_header {lead body : List (List Char)} {head : List Char}
    (hlead : ∀ l ∈ lead, IsSilent l) (hhead : openedModel? head = some name) :
    ofLines? (lead ++ head :: body) = some ⟨name, body.filterMap ofLine?⟩ := by
  induction lead with
  | nil => rw [List.nil_append, ofLines?, hhead]
  | cons l lead ih =>
    obtain ⟨hl, hlead⟩ := List.forall_mem_cons.mp hlead
    rw [List.cons_append, ofLines?, hl.of_shown (.inl rfl), ih hlead]

/-- **The notes of a model** are those of the lines behind its header, up to the next that starts
with a closing brace. -/
theorem linesOf?_extract (hn : ∀ l ∈ above ++ header :: below, '\n' ∉ l)
    (habove : Closes above header) (hheader : openedModel? (pastClosing header) = some name)
    (honly : ∀ l ∈ above ++ below, ¬Opens (pastClosing l) name) :
    (extract (joinLines (above ++ header :: below))).linesOf? name =
      some ((below.takeWhile isWithin).filterMap ofLine?) := by
  obtain ⟨earlier, lead, heq, hearlier, hlead, htail⟩ := habove.exists_lead below
  simp only [List.forall_mem_append, List.forall_mem_cons] at hn
  obtain ⟨haboven, hheadern, hbelown⟩ := hn
  have hleadn : ∀ l ∈ lead, '\n' ∉ l := by
    intro l hl
    obtain ⟨-, l', hl', rfl⟩ := hlead l hl
    exact not_mem_pastClosing (haboven l' hl')
  -- The piece of the model ends before the first line below that starts with a closing brace.
  have hbody : ∀ l ∈ below.takeWhile isWithin, '\n' ∉ l ∧ l.head? ≠ some '}' := fun l hl =>
    ⟨hbelown l ((List.takeWhile_prefix _).subset hl),
      isWithin_iff.mp (List.all_eq_true.mp List.all_takeWhile l hl)⟩
  have hpiecen : ∀ l ∈ lead ++ pastClosing header :: below.takeWhile isWithin, '\n' ∉ l := by
    simp only [List.forall_mem_append, List.forall_mem_cons]
    exact ⟨hleadn, not_mem_pastClosing hheadern, fun l hl => (hbody l hl).1⟩
  have hinner : ∀ l ∈ (lead ++ pastClosing header :: below.takeWhile isWithin).tail,
      l.head? ≠ some '}' := by
    rw [List.append_cons, List.tail_append_of_ne_nil (by simp), List.forall_mem_append]
    exact ⟨htail, fun l hl => (hbody l hl).2⟩
  have hpiece : extract (joinLines (lead ++ pastClosing header :: below.takeWhile isWithin)) =
      [⟨name, (below.takeWhile isWithin).filterMap ofLine?⟩] := by
    rw [extract_piece (by simp) hpiecen hinner,
      ofLines?_header (fun l hl => (hlead l hl).1) hheader]
    rfl
  have hcut := extract_joinLines_takeWhile
    (show lead ++ [pastClosing header] ≠ [] by simp) below
  simp only [List.append_assoc, List.singleton_append] at hcut
  rw [heq, hcut, hpiece, List.singleton_append]
  apply linesOf?_append_cons
  rw [List.forall_mem_append]
  constructor
  · rintro a ha rfl
    obtain ⟨l, hl, hopens⟩ := habove.exists_opens hearlier haboven ha
    exact honly l (List.mem_append_left _ hl) hopens
  · rintro a ha rfl
    obtain ⟨l, hl, hopens⟩ := exists_opens_of_mem_later hbelown ha
    exact honly l (List.mem_append_right _ hl) hopens

/-- The notes of a field come from its line, if no later line says anything of it. -/
theorem fieldIn?_filterMap {front back : List (List Char)}
    (hline : fieldNotes? field line ≠ none)
    (hback : ∀ l ∈ back, fieldNotes? field l = none) :
    LineNote.fieldIn? ((front ++ line :: back).filterMap ofLine?) field =
      fieldNotes? field line := by
  obtain ⟨notes, hnotes⟩ := Option.ne_none_iff_exists'.mp hline
  have hfilter : ((front ++ line :: back).filterMap ofLine?).filterMap
      (LineNote.notesOf? field) = (front ++ line :: back).filterMap (fieldNotes? field) :=
    List.filterMap_filterMap
  rw [LineNote.fieldIn?, hfilter, List.filterMap_append, List.filterMap_cons_some hnotes,
    List.filterMap_eq_nil_iff.mpr hback, List.getLast?_concat, hnotes]

/-- The notes of a field in a model come from its line, if no later line of the model says anything
about it. -/
theorem exists_linesOf?_extract
    (hn : ∀ l ∈ above ++ header :: (between ++ row :: below), '\n' ∉ l)
    (habove : Closes above header)
    (hheader : ∀ line, Shown (pastClosing header) line → openedModel? line = some name)
    (honly : ∀ l ∈ above ++ (between ++ row :: below), ¬Opens (pastClosing l) name)
    (hbetween : ∀ l ∈ between ++ [row], l.head? ≠ some '}')
    (hrow : ∀ line, Shown row line → fieldNotes? field line ≠ none)
    (hlater : ∀ l ∈ below.takeWhile isWithin, ∀ line, Shown l line →
      fieldNotes? field line = none) :
    ∃ lines line,
      (extract (joinLines (above ++ header :: (between ++ row :: below)))).linesOf? name =
        some lines ∧ Shown row line ∧ LineNote.fieldIn? lines field = fieldNotes? field line := by
  have hwithin : ∀ l ∈ between ++ [row], isWithin l = true :=
    fun l hl => isWithin_iff.mpr (hbetween l hl)
  have htake : (between ++ row :: below).takeWhile isWithin =
      between ++ row :: below.takeWhile isWithin := by
    rw [List.append_cons, List.takeWhile_append_of_pos hwithin, ← List.append_cons]
  refine ⟨_, row, linesOf?_extract hn habove (hheader _ (.inl rfl)) honly, .inl rfl, ?_⟩
  rw [htake]
  exact fieldIn?_filterMap (hrow row (.inl rfl)) fun l hl => hlater l hl l (.inl rfl)
end

end

end Datamodel.Notes
