import Datamodel.Proofs.Inputs.Loaded
import Datamodel.Proofs.Mixing.Repeat

/-! Running mixers without writing.

A dry run leaves the tree as it is, so each of its mixers works on the first tree and not on what
those before it wrote. What a mixer loads is the same in both trees if it takes no output of an
earlier mixer, and no file by a way upwards that was not there at first (`Mixer.mix_of_written`).
Then what a dry run shows is what a run writes (`dryRun_of_run`). A way upwards may begin in a
folder that a mixer made, and no dry run finds it (`not_shows_of_apart`). -/

namespace Datamodel

namespace Mixer

variable {m : Mixer} {t t' : FileTree} {root : Path} {outs : List Location} {made : Mix}

/-- A mixer writes its output at most. -/
theorem written_of_run (ht : t.WellFormed) (m : Mixer) (root : Path) :
    ∃ outs ⊆ [(root.join ⟨m.output⟩).resolve t.start], t.Written outs (m.run t root).1 := by
  rw [run]
  cases hmix : m.mix t root with
  | error e => exact ⟨[], List.nil_subset _, .refl ht⟩
  | ok made =>
    have hwritten := FileTree.written_of_save ht (root.join ⟨m.output⟩) made.rendered
    simp only [output_of_mix hmix]
    cases hsaved : t.save (root.join ⟨m.output⟩) made.rendered with
    | mk t' result =>
      rw [hsaved] at hwritten
      cases result with
      | error reason => exact ⟨[], List.nil_subset _, hwritten⟩
      | ok _ => exact ⟨_, List.Subset.refl _, hwritten⟩

/-- **A mixer makes of a written tree** what it makes of the tree as it was, if it takes no file
that was written, and none by a way upwards that does not lead to a file in that tree. -/
theorem mix_of_written (h : t.Written outs t') (hroot : root.text ≠ "")
    (hinputs : ∀ inputs, m.inputs t' root = .ok inputs → ∀ p ∈ inputs,
      p.resolve t.start ∉ outs ∧ (p.Straight ∨ t.isFile p))
    (hmix : m.mix t' root = .ok made) : ∃ inputs, m.mix t root = .ok { made with inputs } := by
  obtain ⟨inputs', rendered, hinputs', hrendered, rfl⟩ := mix_eq_ok_iff.mp hmix
  obtain ⟨inputs, hfound, hsame⟩ :=
    h.resolveInputs (Path.steps_ne_of_text_ne hroot) inputs' hinputs'
  have hloaded := h.loadFragments hsame (fun p hp => (hinputs inputs' hinputs' p hp).1)
    fun p hp => (hinputs inputs' hinputs' p hp).2
  refine ⟨inputs, mix_eq_ok_iff.mpr ⟨inputs, rendered, hfound, hloaded ▸ hrendered, ?_⟩⟩
  rw [hloaded]

end Mixer

variable {t t' : FileTree} {root : Path} {ms : List Mixer} {outs : List Location}

/-- Each mixer has its result, in order, under its label. -/
theorem labels_runAll (write : Bool) (root : Path) (t : FileTree) (ms : List Mixer) :
    (runAll write root t ms).2.map (·.1) = ms.map Mixer.label := by
  induction ms generalizing t with
  | nil => rfl
  | cons m ms ih => exact congrArg (m.label :: ·) (ih _)

/-- A dry run mixes in the same tree all the time, and leaves it as it is. -/
theorem runAll_false (root : Path) (t : FileTree) (ms : List Mixer) :
    runAll false root t ms = (t, ms.map fun m => (m.label, m.mix t root)) := by
  induction ms with
  | nil => rfl
  | cons m ms ih =>
    rw [runAll]
    simp only [Bool.false_eq_true, if_false, ih, List.map_cons]

theorem runAll_true_cons (root : Path) (t : FileTree) (m : Mixer) (ms : List Mixer) :
    (runAll true root t (m :: ms)).2 =
      (m.label, (m.run t root).2) :: (runAll true root (m.run t root).1 ms).2 := rfl

/-- What holds of every file that a mixer takes when those before it have run. -/
def EveryInput (root : Path) (t : FileTree) (ms : List Mixer)
    (holds : List Mixer → Path → Prop) : Prop :=
  ∀ before m after, ms = before ++ m :: after →
    ∀ inputs, m.inputs (runAll true root t before).1 root = .ok inputs → ∀ p ∈ inputs,
      holds before p

theorem everyInput_nil (root : Path) (t : FileTree) (holds : List Mixer → Path → Prop) :
    EveryInput root t [] holds := by
  intro before m after hms
  simp at hms

theorem everyInput_cons {m : Mixer} {holds : List Mixer → Path → Prop} :
    EveryInput root t (m :: ms) holds ↔
      (∀ inputs, m.inputs t root = .ok inputs → ∀ p ∈ inputs, holds [] p) ∧
      EveryInput root (m.run t root).1 ms fun before => holds (m :: before) := by
  constructor
  · intro h
    exact ⟨h [] m ms rfl, fun before m' after hms => h (m :: before) m' after (hms ▸ rfl)⟩
  · rintro ⟨hm, hms⟩ before m' after heq
    cases before with
    | nil =>
      cases heq
      exact hm
    | cons m'' before =>
      cases heq
      exact hms before m' after rfl

/-- Every mixer that succeeded among the results of a run succeeded in the same place of a dry run,
with the same text, made of as many files. -/
def Shows (shown ran : List (String × Except MixError Mix)) : Prop :=
  List.Forall₂ (fun shown ran => ∀ made, ran.2 = .ok made → ∃ made', shown.2 = .ok made' ∧
    made'.rendered = made.rendered ∧ made'.fragments = made.fragments) shown ran

/-- A dry run of a tree shows what a run makes of the tree after other mixers have run. -/
theorem shows_runAll (h : t.Written outs t') (hroot : root.text ≠ "")
    (hinputs : EveryInput root t' ms fun before p => p.resolve t.start ∉ outs ∧
      (∀ m ∈ before, p.resolve t.start ≠ (root.join ⟨m.output⟩).resolve t.start) ∧
      (p.Straight ∨ t.isFile p)) :
    Shows (runAll false root t ms).2 (runAll true root t' ms).2 := by
  induction ms generalizing outs t' with
  | nil => exact .nil
  | cons m ms ih =>
    obtain ⟨hm, hms⟩ := everyInput_cons.mp hinputs
    refine .cons (fun made hmade => ?_) ?_
    · obtain ⟨hmix, -⟩ := Mixer.run_eq_ok_iff.mp (Prod.ext rfl hmade : m.run t' root = (_, .ok made))
      obtain ⟨inputs, hmix'⟩ := Mixer.mix_of_written h hroot
        (fun inputs hinputs p hp => ⟨(hm inputs hinputs p hp).1, (hm inputs hinputs p hp).2.2⟩) hmix
      exact ⟨_, hmix', rfl, rfl⟩
    · obtain ⟨outs', houts', hrun⟩ := Mixer.written_of_run h.wellFormed' m root
      refine ih (h.trans hrun) fun before m' after heq inputs hinputs p hp => ?_
      obtain ⟨hout, hbefore, hspelled⟩ := hms before m' after heq inputs hinputs p hp
      obtain ⟨hm, hbefore⟩ := List.forall_mem_cons.mp hbefore
      refine ⟨?_, hbefore, hspelled⟩
      rw [List.mem_append, not_or]
      refine ⟨hout, fun hmem => hm ?_⟩
      rw [List.mem_singleton.mp (houts' hmem), h.start]

/-! ### A way up from a folder that was made -/

namespace Detour

/-- A tree with one schema file. -/
def tree : FileTree where
  entries := [
    (["blog"], .folder),
    (["blog", "user.prisma"], .file (.text "model User \x7b\n  id Int @id\n\x7d\n"))]

/-- What a merge of that file is. -/
def rendered : String :=
  "// *** GENERATED BY SCHEMA MIXER :: DO NOT EDIT ***\n\nmodel User \x7b\n  id Int @id\n\x7d\n"

/-- A mixer that makes a folder for its output. -/
def first : Mixer := { input := ["user.prisma"], output := "build/schema.prisma" }

/-- A mixer that finds the way up from that folder. -/
def second : Mixer := { input := ["build/.*/user.prisma"], output := "all.prisma" }

/-- The tree after the first mixer has run. -/
def after : FileTree :=
  (tree.put ["blog", "build"] .folder).put ["blog", "build", "schema.prisma"]
    (.file (.text rendered))

theorem wellFormed : tree.WellFormed :=
  ⟨by decide, by decide, by decide, by decide, by decide⟩

theorem run_first : (first.run tree ⟨"blog"⟩).1 = after := by with_unfolding_all decide

theorem wellFormed_after : after.WellFormed := by
  obtain ⟨outs, -, hwritten⟩ := Mixer.written_of_run wellFormed first ⟨"blog"⟩
  exact run_first ▸ hwritten.wellFormed'

end Detour

/-- **A dry run shows what a run writes.** It leaves the tree as it is. Both answer with a result
for each mixer, in order and under its label, whatever other mixers failed. If no mixer takes a
file that one before it writes to, and none takes one that is spelled with steps upwards, unless
that leads to a file at first, each mixer that succeeds in the run succeeds in the dry run with the
same text. -/
theorem dryRun_of_run (ht : t.WellFormed) (hroot : root.text ≠ "")
    (hapart : EveryInput root t ms fun before p =>
      ∀ m ∈ before, p.resolve t.start ≠ (root.join ⟨m.output⟩).resolve t.start)
    (hspelled : EveryInput root t ms fun _ p => p.Straight ∨ t.isFile p) :
    let shown := runAll false root t ms
    let ran := runAll true root t ms
    shown.1 = t ∧ shown.2.map (·.1) = ms.map Mixer.label ∧ ran.2.map (·.1) = ms.map Mixer.label ∧
      Shows shown.2 ran.2 := by
  refine ⟨?_, labels_runAll false root t ms, labels_runAll true root t ms, ?_⟩
  · rw [runAll_false]
  · refine shows_runAll (.refl ht) hroot fun before m after hms inputs hinputs p hp => ?_
    exact ⟨List.not_mem_nil, hapart before m after hms inputs hinputs p hp,
      hspelled before m after hms inputs hinputs p hp⟩

namespace Detour

/-- A mixer with a pattern that cannot be read. -/
def broken : Mixer := { input := ["["], output := "broken.prisma" }

/-- A mixer that looks into the new folder, where only the usual output is. -/
def third : Mixer := { input := ["build", "user.prisma"], output := "all.prisma" }

/-- What was a missing file has become a folder in the run, and what is shown is the same. -/
theorem shows_third :
    Shows (runAll false ⟨"blog"⟩ tree [first, broken, third]).2
      (runAll true ⟨"blog"⟩ tree [first, broken, third]).2 := by
  have hfirst : first.inputs tree ⟨"blog"⟩ = .ok [⟨"blog/user.prisma"⟩] :=
    eq_ok_of_toOption (by decide +kernel)
  have hbroken : (broken.inputs after ⟨"blog"⟩).toOption = none := by decide +kernel
  have hafter : (broken.run after ⟨"blog"⟩).1 = after := by decide +kernel
  have hthird : third.inputs after ⟨"blog"⟩ = .ok [⟨"blog/user.prisma"⟩] :=
    eq_ok_of_toOption (by decide +kernel)
  have hinputs : EveryInput ⟨"blog"⟩ tree [first, broken, third] fun before p =>
      (∀ m ∈ before, p.resolve tree.start ≠ (Path.join ⟨"blog"⟩ ⟨m.output⟩).resolve tree.start) ∧
        (p.Straight ∨ tree.isFile p) := by
    refine everyInput_cons.mpr ⟨fun inputs heq => ?_, ?_⟩
    · cases hfirst.symm.trans heq
      decide +kernel
    rw [run_first]
    refine everyInput_cons.mpr ⟨fun inputs heq => ?_, ?_⟩
    · rw [heq] at hbroken
      cases hbroken
    rw [hafter]
    refine everyInput_cons.mpr ⟨fun inputs heq => ?_, everyInput_nil _ _ _⟩
    cases hthird.symm.trans heq
    decide +kernel
  exact (dryRun_of_run wellFormed (by decide)
    (fun before m after h inputs heq p hp => (hinputs before m after h inputs heq p hp).1)
    fun before m after h inputs heq p hp => (hinputs before m after h inputs heq p hp).2).2.2.2

theorem ways_after : after.ways ["blog", "build"] = [["schema.prisma"]] := by
  rw [FileTree.ways, FileTree.sortedBelow, List.mergeSort_of_pairwise (by decide)]
  rfl

/-- The part `.*` fits the folder above, and no file in the folder. -/
theorem nexts_after (parts : List Glob.Part) :
    after.nexts [.char '.', .anyText] parts ⟨"blog/build"⟩ =
      [⟨"blog/build/.."⟩, ⟨"blog/build/."⟩] := by
  have hfolder : after.folder? ⟨"blog/build"⟩ = some ["blog", "build"] := rfl
  have hup : Path.join ⟨"blog/build"⟩ ⟨".."⟩ = ⟨"blog/build/.."⟩ := rfl
  have hhere : Path.join ⟨"blog/build"⟩ ⟨"."⟩ = ⟨"blog/build/."⟩ := rfl
  rw [FileTree.nexts_of_folder? rfl hfolder, ways_after]
  simp [FileTree.specials, FileTree.reach, Glob.fits, Glob.Part.isFolders, hup, hhere]

theorem inputs_second : second.inputs after ⟨"blog"⟩ = .ok [⟨"blog/build/../user.prisma"⟩] := by
  let blog : Glob.Part := "blog".toList.map .char
  let build : Glob.Part := "build".toList.map .char
  let dotted : Glob.Part := [.char '.', .anyText]
  let file : Glob.Part := "user.prisma".toList.map .char
  have hexpand : after.expand [blog, build, dotted, file] ⟨"."⟩ =
      [⟨"blog/build/../user.prisma"⟩] := by
    have hblog : after.nexts blog [build, dotted, file] ⟨"."⟩ = [⟨"blog"⟩] := rfl
    have hbuild : after.nexts build [dotted, file] ⟨"blog"⟩ = [⟨"blog/build"⟩] := rfl
    calc after.expand [blog, build, dotted, file] ⟨"."⟩
      _ = after.expand [build, dotted, file] ⟨"blog"⟩ := by
        rw [FileTree.expand_cons wellFormed_after, hblog, List.flatMap_singleton]
        rfl
      _ = after.expand [dotted, file] ⟨"blog/build"⟩ := by
        rw [FileTree.expand_cons wellFormed_after, hbuild, List.flatMap_singleton]
        rfl
      _ = [⟨"blog/build/../user.prisma"⟩] := by
        rw [FileTree.expand_cons wellFormed_after, nexts_after]
        rfl
  have hglob : Glob.ofText (rootedPattern ⟨"blog"⟩ "build/.*/user.prisma") =
      .ok ⟨false, [blog, build, dotted, file], false⟩ :=
    eq_ok_of_toOption (by with_unfolding_all decide)
  have hfile : after.isFile ⟨"blog/build/../user.prisma"⟩ := rfl
  have hfound : expandPattern after ⟨"blog"⟩ "build/.*/user.prisma" =
      .ok [⟨"blog/build/../user.prisma"⟩] := by
    rw [expandPattern, if_pos (by decide), hglob]
    simp only [FileTree.glob, Bool.false_eq_true, if_false, hexpand, List.filter_cons_of_pos hfile,
      List.filter_nil, List.mergeSort_singleton]
  have hall : second.input.mapM (expandPattern after ⟨"blog"⟩) =
      .ok [[⟨"blog/build/../user.prisma"⟩]] := by
    rw [second, List.mapM_cons, hfound]
    rfl
  rw [Mixer.inputs, resolveInputs, hall]
  exact eq_ok_of_toOption rfl

/-- In the run the second mixer loads a file. -/
theorem run_second : ∃ made, (second.run after ⟨"blog"⟩).2 = .ok made ∧ made.fragments = 1 := by
  have hrendered : (merge (loadFragments after [⟨"blog/build/../user.prisma"⟩])
      second.datasource).toText = .ok rendered :=
    eq_ok_of_toOption (by with_unfolding_all decide)
  have hmix := Mixer.mix_eq_ok_iff.mpr ⟨_, _, inputs_second, hrendered, rfl⟩
  have hsaved : after.save (Path.join ⟨"blog"⟩ ⟨second.output⟩) rendered =
      (after.put ["blog", "all.prisma"] (.file (.text rendered)), .ok ()) := by
    with_unfolding_all decide
  exact ⟨_, congrArg (·.2) (Mixer.run_eq_ok_iff.mpr ⟨hmix, hsaved⟩),
    by with_unfolding_all decide⟩

/-- In the dry run it loads none. -/
theorem mix_second {made : Mix} (h : second.mix tree ⟨"blog"⟩ = .ok made) : made.fragments = 0 := by
  have hinputs : second.inputs tree ⟨"blog"⟩ = .ok [] :=
    eq_ok_of_toOption (by with_unfolding_all decide)
  obtain ⟨inputs, rendered, hfound, -, rfl⟩ := Mixer.mix_eq_ok_iff.mp h
  cases hinputs.symm.trans hfound
  rfl

end Detour

/-- A dry run does not show what a run writes, although root, patterns and outputs do not go up and
no mixer takes a file that another one writes to. -/
theorem not_shows_of_apart : ¬∀ (t : FileTree) (root : Path) (ms : List Mixer), t.WellFormed →
    root.text ≠ "" → root.Straight →
    (∀ m ∈ ms, (∀ pattern ∈ m.input, Path.isAbsolute ⟨pattern⟩ = false ∧ Path.Straight ⟨pattern⟩) ∧
      Path.isAbsolute ⟨m.output⟩ = false ∧ Path.Straight ⟨m.output⟩) →
    (EveryInput root t ms fun before p =>
      ∀ m ∈ before, p.resolve t.start ≠ (root.join ⟨m.output⟩).resolve t.start) →
    Shows (runAll false root t ms).2 (runAll true root t ms).2 := by
  intro hshows
  have hapart : EveryInput ⟨"blog"⟩ Detour.tree [Detour.first, Detour.second] fun before p =>
      ∀ m ∈ before, p.resolve Detour.tree.start ≠
        (Path.join ⟨"blog"⟩ ⟨m.output⟩).resolve Detour.tree.start := by
    refine everyInput_cons.mpr ⟨fun _ _ _ _ => List.forall_mem_nil _, ?_⟩
    refine everyInput_cons.mpr ⟨fun inputs heq => ?_, everyInput_nil _ _ _⟩
    rw [Detour.run_first, Detour.inputs_second] at heq
    cases heq
    decide +kernel
  have hboth := hshows _ ⟨"blog"⟩ _ Detour.wellFormed (by decide) (by decide) (by decide) hapart
  rw [runAll_false, runAll_true_cons, Detour.run_first, runAll_true_cons] at hboth
  obtain ⟨-, hsecond⟩ := List.forall₂_cons.mp hboth
  obtain ⟨made, hmade, hone⟩ := Detour.run_second
  obtain ⟨made', hmade', -, hfragments⟩ := (List.forall₂_cons.mp hsecond).1 made hmade
  rw [hone, Detour.mix_second hmade'] at hfragments
  cases hfragments

end Datamodel
