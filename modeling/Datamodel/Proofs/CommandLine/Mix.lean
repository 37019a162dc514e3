import Datamodel.CommandLine.Run
import Datamodel.Proofs.Except
import Datamodel.Proofs.Mixing.Selected

/-! What a run of mixers reports.

An invocation selects mixers if its configuration is found and can be run and each label is that of
some mixer (`Invocation.Selects`). Then the mixers are attempted one after another, each on the tree
that the one before it has left (`Attempts`), and the exit code tells whether all of them have
succeeded. An invocation that selects none changes nothing (`runArguments_mix`). All this holds
whatever reads the texts of configurations, `MixerFile.ofText?` or another reader. -/

namespace Datamodel

/-! ### Attempts -/

/-- What a mixer makes of a tree, and the tree that is there afterwards. -/
def Mixer.attempt (write : Bool) (root : Path) (m : Mixer) (t : FileTree) :
    FileTree × Except MixError Mix :=
  if write then m.run t root else (t, m.mix t root)

/-- Mixers are attempted once each and in order, whatever has come of those before. -/
inductive Attempts (write : Bool) (root : Path) :
    FileTree → List Mixer → List (Except MixError Mix) → FileTree → Prop
  | nil (t : FileTree) : Attempts write root t [] [] t
  | cons {t t' t'' : FileTree} {m : Mixer} {ms : List Mixer} {result : Except MixError Mix}
      {results : List (Except MixError Mix)} (attempt : m.attempt write root t = (t', result))
      (more : Attempts write root t' ms results t'') :
      Attempts write root t (m :: ms) (result :: results) t''

section
variable {write : Bool} {root : Path} {t t' : FileTree} {ms : List Mixer}
  {results : List (Except MixError Mix)}

theorem attempts_runAll (write : Bool) (root : Path) (t : FileTree) (ms : List Mixer) :
    Attempts write root t ms ((runAll write root t ms).2.map (·.2)) (runAll write root t ms).1 := by
  induction ms generalizing t with
  | nil => exact .nil t
  | cons m ms ih => exact .cons rfl (ih _)

/-- There is one way for attempts to come out. -/
theorem Attempts.eq_runAll (h : Attempts write root t ms results t') :
    results = (runAll write root t ms).2.map (·.2) ∧ t' = (runAll write root t ms).1 := by
  induction h with
  | nil => exact ⟨rfl, rfl⟩
  | cons attempt _ ih =>
    rw [Mixer.attempt] at attempt
    rw [runAll, attempt]
    exact ⟨congrArg _ ih.1, ih.2⟩

/-- Attempts that do not write leave the tree as it is. -/
theorem Attempts.eq_of_false (h : Attempts false root t ms results t') : t' = t := by
  induction h with
  | nil => rfl
  | cons attempt _ ih =>
    cases attempt
    exact ih

end

/-! ### What is printed -/

/-- The texts of the mixers that succeeded, in order. -/
def renderedTexts (results : List (Except MixError Mix)) : String :=
  String.join ((results.filterMap Except.toOption).map Mix.rendered)

theorem summaries_true (results : List (String × Except MixError Mix)) :
    (summaries true results).1 = renderedTexts (results.map (·.2)) := by
  induction results with
  | nil => rfl
  | cons r results ih =>
    obtain ⟨label, result⟩ := r
    cases result with
    | error e => exact ih
    | ok made =>
      calc made.rendered ++ (summaries true results).1
        _ = made.rendered ++ renderedTexts (results.map (·.2)) := by rw [ih]
        _ = _ := String.join_cons.symm

theorem failedLabels_eq_nil_iff {results : List (String × Except MixError Mix)} :
    failedLabels results = [] ↔ ∀ result ∈ results.map (·.2), result.isOk := by
  rw [failedLabels, List.map_eq_nil_iff, List.filter_eq_nil_iff, List.forall_mem_map]
  simp only [Bool.not_eq_true', Bool.not_eq_false]

/-! ### The mixers that are asked for -/

namespace Invocation

variable {reader : ConfigReader} {i : Invocation} {t : FileTree} {p : Path} {labels : List String}
  {mixers : List Mixer}

/-- Where the configuration is: at the path that is given, or else in the working folder under the
first of the usual names that is a file there. -/
inductive ConfigAt (i : Invocation) (t : FileTree) : Path → Prop
  | given {p : Path} (asked : i.config = some p) : ConfigAt i t (i.cwd.join p)
  | usual {before after : List String} {name : String} (unasked : i.config = none)
      (names : MixerFile.defaultNames = before ++ name :: after)
      (file : t.isFile (i.cwd.join ⟨name⟩) = true)
      (first : ∀ other ∈ before, t.isFile (i.cwd.join ⟨other⟩) = false) :
      ConfigAt i t (i.cwd.join ⟨name⟩)

theorem default?_eq_some_iff (unasked : i.config = none) :
    MixerFile.default? t i.cwd = some p ↔ i.ConfigAt t p := by
  rw [MixerFile.default?, List.find?_map, Option.map_eq_some_iff]
  constructor
  · rintro ⟨name, hname, rfl⟩
    obtain ⟨file, before, after, names, first⟩ := List.find?_eq_some_iff_append.mp hname
    exact .usual unasked names file fun other hother => by simpa using first other hother
  · rintro (⟨asked⟩ | ⟨-, names, file, first⟩)
    · cases unasked.symm.trans asked
    · refine ⟨_, List.find?_eq_some_iff_append.mpr ⟨file, _, _, names, fun other hother => ?_⟩, rfl⟩
      simpa using first other hother

theorem configPath_eq_ok_iff : configPath t i.config i.cwd = .ok p ↔ i.ConfigAt t p := by
  cases hconfig : i.config with
  | some given =>
    constructor
    · rintro ⟨⟩
      exact .given hconfig
    · rintro (⟨asked⟩ | ⟨unasked, -, -, -⟩)
      · cases hconfig.symm.trans asked
        rfl
      · cases hconfig.symm.trans unasked
  | none =>
    rw [← default?_eq_some_iff hconfig, configPath.eq_def]
    cases MixerFile.default? t i.cwd with
    | none => exact ⟨nofun, nofun⟩
    | some found => simp only [Except.ok.injEq, Option.some.injEq]

/-- The mixers that are to be run: those that the labels choose, if each label is known, of a
configuration that is there and can be run. -/
inductive Selects (reader : ConfigReader) (i : Invocation) (t : FileTree) (labels : List String) :
    List Mixer → Prop
  | intro {p : Path} {c : MixerFile} (found : i.ConfigAt t p) (read : c.ReadFrom reader t p)
      (runnable : c.Runnable) (known : ∀ label ∈ labels, ∃ m ∈ c.mixers, m.label = label) :
      Selects reader i t labels (c.chosen labels)

theorem selectedMixers_eq_ok_iff : selectedMixers t p labels reader = .ok mixers ↔
    ∃ c, MixerFile.load t p reader = .ok c ∧ c.select labels = .ok mixers := by
  unfold selectedMixers
  constructor
  · intro h
    split at h
    · cases h
    rename_i c hload
    split at h
    · cases h
    rename_i hselect
    cases h
    exact ⟨c, hload, hselect⟩
  · rintro ⟨c, hload, hselect⟩
    simp only [hload, hselect]

theorem selects_iff : i.Selects reader t labels mixers ↔
    ∃ p, configPath t i.config i.cwd = .ok p ∧ selectedMixers t p labels reader = .ok mixers := by
  constructor
  · rintro ⟨found, read, runnable, known⟩
    exact ⟨_, configPath_eq_ok_iff.mpr found, selectedMixers_eq_ok_iff.mpr ⟨_,
      MixerFile.load_eq_ok_iff.mpr ⟨read, runnable⟩, MixerFile.select_eq_ok_iff.mpr ⟨known, rfl⟩⟩⟩
  · rintro ⟨p, hpath, hselected⟩
    obtain ⟨c, hload, hselect⟩ := selectedMixers_eq_ok_iff.mp hselected
    obtain ⟨read, runnable⟩ := MixerFile.load_eq_ok_iff.mp hload
    obtain ⟨known, rfl⟩ := MixerFile.select_eq_ok_iff.mp hselect
    exact .intro (configPath_eq_ok_iff.mp hpath) read runnable known

/-- There is one selection at most. -/
theorem Selects.eq {mixers' : List Mixer} (h : i.Selects reader t labels mixers)
    (h' : i.Selects reader t labels mixers') : mixers = mixers' := by
  obtain ⟨p, hpath, hselected⟩ := selects_iff.mp h
  obtain ⟨p', hpath', hselected'⟩ := selects_iff.mp h'
  cases hpath.symm.trans hpath'
  exact Except.ok.inj (hselected.symm.trans hselected')

/-! ### The run -/

section
variable (toStdout : Bool)

/-- What is done when mixers are selected. -/
theorem runMix_of_selects (h : i.Selects reader t labels mixers) :
    let deed := runMix t i.config i.cwd labels toStdout reader
    let (tree, results) := runAll (!toStdout) i.cwd t mixers
    deed.tree = tree ∧ deed.stdout = (summaries toStdout results).1 ∧
      (deed.failure = none ↔ failedLabels results = []) := by
  obtain ⟨p, hpath, hselected⟩ := selects_iff.mp h
  simp only [runMix, hpath, hselected, List.isEmpty_iff, ite_eq_left_iff, reduceCtorEq, imp_false,
    not_not, true_and]

theorem runMix_of_not_selects (h : ¬∃ mixers, i.Selects reader t labels mixers) :
    let deed := runMix t i.config i.cwd labels toStdout reader
    deed.tree = t ∧ deed.failure ≠ none := by
  cases hpath : configPath t i.config i.cwd with
  | error e =>
    rw [runMix, hpath]
    exact ⟨rfl, nofun⟩
  | ok p =>
    cases hselected : selectedMixers t p labels reader with
    | error e =>
      simp only [runMix, hpath, hselected]
      exact ⟨trivial, nofun⟩
    | ok mixers => exact (h ⟨mixers, selects_iff.mpr ⟨p, hpath, hselected⟩⟩).elim

/-- The command does not fail just if mixers are selected and all of them succeed. -/
theorem failure_runMix_eq_none_iff :
    (runMix t i.config i.cwd labels toStdout reader).failure = none ↔
      ∃ mixers results t', i.Selects reader t labels mixers ∧
        Attempts (!toStdout) i.cwd t mixers results t' ∧ ∀ result ∈ results, result.isOk := by
  constructor
  · intro hnone
    by_cases hselects : ∃ mixers, i.Selects reader t labels mixers
    · obtain ⟨mixers, hselects⟩ := hselects
      have hok := failedLabels_eq_nil_iff.mp ((runMix_of_selects toStdout hselects).2.2.mp hnone)
      exact ⟨mixers, _, _, hselects, attempts_runAll (!toStdout) i.cwd t mixers, hok⟩
    · exact ((runMix_of_not_selects toStdout hselects).2 hnone).elim
  · rintro ⟨mixers, results, t', hselects, hattempts, hok⟩
    obtain ⟨rfl, -⟩ := hattempts.eq_runAll
    exact (runMix_of_selects toStdout hselects).2.2.mpr (failedLabels_eq_nil_iff.mpr hok)

end

theorem code_run_eq_zero_iff : (i.run t reader).code = 0 ↔ (i.deed t reader).failure = none := by
  rw [run]
  cases (i.deed t reader).failure with
  | none => exact ⟨fun _ => rfl, fun _ => rfl⟩
  | some e => exact ⟨nofun, nofun⟩

theorem code_run_eq_one (h : (i.run t reader).code ≠ 0) : (i.run t reader).code = 1 := by
  rw [Ne, code_run_eq_zero_iff] at h
  simp only [run, Option.isSome_iff_ne_none.mpr h, if_true]

end Invocation

/-- **What a run of mixers reports,** whatever reads the configuration. The exit code is 0 if mixers
are selected and all of them succeed, and 1 otherwise. Without a selection the tree stays as it is.
With one, each selected mixer is attempted, in order and whatever others do; if the merges are to be
printed, the tree stays as it is, and what is printed are the texts of the mixers that succeed, in
order. -/
theorem runArguments_mix {reader : ConfigReader} {args : List String} {i : Invocation}
    {labels : List String} {toStdout : Bool} {t : FileTree}
    (hargs : Invocation.ofArguments args = .ok i) (hcommand : i.command = .mix labels toStdout) :
    let report := runArguments args t reader
    (report.code = 0 ↔ ∃ mixers results t', i.Selects reader t labels mixers ∧
      Attempts (!toStdout) i.cwd t mixers results t' ∧ ∀ result ∈ results, result.isOk) ∧
    (report.code ≠ 0 → report.code = 1) ∧
    ((¬∃ mixers, i.Selects reader t labels mixers) → report.tree = t) ∧
    ∀ mixers, i.Selects reader t labels mixers → ∃ results,
      Attempts (!toStdout) i.cwd t mixers results report.tree ∧
      (toStdout = true → report.tree = t ∧ report.stdout = renderedTexts results) := by
  have hreport : runArguments args t reader = i.run t reader := by
    rw [runArguments, hargs]
  have hdeed : i.deed t reader = runMix t i.config i.cwd labels toStdout reader := by
    rw [Invocation.deed, hcommand]
  have htree : (i.run t reader).tree = (runMix t i.config i.cwd labels toStdout reader).tree :=
    congrArg Deed.tree hdeed
  have hstdout :
      (i.run t reader).stdout = (runMix t i.config i.cwd labels toStdout reader).stdout :=
    congrArg Deed.stdout hdeed
  simp only [hreport]
  refine ⟨?_, Invocation.code_run_eq_one, fun hnot => ?_, fun mixers hselects => ?_⟩
  · rw [Invocation.code_run_eq_zero_iff, hdeed]
    exact Invocation.failure_runMix_eq_none_iff toStdout
  · exact htree.trans (Invocation.runMix_of_not_selects toStdout hnot).1
  · -- The results of the run are those that the report is made of.
    obtain ⟨hran, hprinted, -⟩ := Invocation.runMix_of_selects toStdout hselects
    have hattempts := attempts_runAll (!toStdout) i.cwd t mixers
    rw [← hran, ← htree] at hattempts
    refine ⟨_, hattempts, ?_⟩
    rintro rfl
    exact ⟨hattempts.eq_of_false, hstdout.trans (hprinted.trans (summaries_true _))⟩

/-- A mixer whose merge cannot be rendered fails. The one behind it is attempted, and its merge is
printed. -/
theorem runArguments_mix_stdout :
    let config := "\x7b\"mixers\": [
      [\"geo\", [\"geo.prisma\"], \"geo.out.prisma\"],
      [\"users\", [\"user.prisma\"], \"users.out.prisma\"]]\x7d"
    let geo := "model Place \x7b\n  id Int @id\n  point Unsupported(\"point\")\n\x7d\n"
    let user := "model User \x7b\n  id Int @id\n\x7d\n"
    let t : FileTree := { entries := [
      (["geo.prisma"], .file (.text geo)), (["schema-mixer.json"], .file (.text config)),
      (["user.prisma"], .file (.text user))] }
    let report := runArguments ["mix", "--stdout"] t
    report.code = 1 ∧ report.tree = t ∧
      report.stdout = "// *** GENERATED BY SCHEMA MIXER :: DO NOT EDIT ***\n\n" ++ user := by
  intro config geo user t report
  let c : MixerFile := ⟨[
    { name := some "geo", input := ["geo.prisma"], output := "geo.out.prisma" },
    { name := some "users", input := ["user.prisma"], output := "users.out.prisma" }]⟩
  let i : Invocation := ⟨none, 0, ⟨"."⟩, .mix [] true⟩
  have hargs : Invocation.ofArguments ["mix", "--stdout"] = .ok i := rfl
  have hselects : i.Selects MixerFile.ofText? t [] (c.chosen []) := by
    have hnames : MixerFile.defaultNames =
        ["schema-mixer.yml", "schema-mixer.yaml"] ++ "schema-mixer.json" :: [] := rfl
    have hfound : i.ConfigAt t (i.cwd.join ⟨"schema-mixer.json"⟩) :=
      .usual rfl hnames (by decide +kernel) (by decide +kernel)
    have hread : c.ReadFrom MixerFile.ofText? t (i.cwd.join ⟨"schema-mixer.json"⟩) :=
      ⟨config, eq_ok_of_toOption (by decide +kernel), by decide +kernel⟩
    exact .intro hfound hread (MixerFile.fault?_eq_none_iff.mp (by decide +kernel)) nofun
  obtain ⟨hzero, hone, -, hrun⟩ := runArguments_mix (t := t) hargs rfl
  obtain ⟨results, hattempts, hprinted⟩ := hrun _ hselects
  obtain ⟨htree, hstdout⟩ := hprinted rfl
  obtain ⟨hran, hrendered⟩ : results.map Except.isOk = [false, true] ∧ renderedTexts results =
      "// *** GENERATED BY SCHEMA MIXER :: DO NOT EDIT ***\n\n" ++ user := by
    rw [hattempts.eq_runAll.1]
    decide +kernel
  refine ⟨hone fun h => ?_, htree, hstdout.trans hrendered⟩
  obtain ⟨mixers, results', t', hselects', hattempts', hok⟩ := hzero.mp h
  cases hselects.eq hselects'
  obtain rfl : results = results' := hattempts.eq_runAll.1.trans hattempts'.eq_runAll.1.symm
  have hnot : false ∈ results.map Except.isOk := hran ▸ List.mem_cons_self
  obtain ⟨result, hresult, hfailed⟩ := List.mem_map.mp hnot
  exact Bool.false_ne_true (hfailed.symm.trans (hok result hresult))

end Datamodel
