import Datamodel.Mixer.Reading

/-! Which mixers a configuration is run with.

A configuration can be run if it has mixers and each of them has an output and inputs
(`MixerFile.fault?_eq_none_iff`). Labels select from it the mixers that bear one of them, in the
order of the configuration, and every mixer that bears it (`MixerFile.select_eq_ok_iff`). -/

namespace Datamodel

/-- What a mixer needs to be run: some text for its output, and inputs. -/
structure Mixer.Runnable (m : Mixer) : Prop where
  output : Text.allBlank m.output.toList = false
  input : m.input ≠ []

theorem Mixer.fault?_eq_none_iff {m : Mixer} {number : Nat} :
    m.fault? number = none ↔ m.Runnable := by
  rw [Mixer.fault?]
  constructor
  · intro h
    split at h
    · cases h
    split at h
    · cases h
    · rename_i houtput hinput
      exact ⟨Bool.eq_false_iff.mpr houtput, fun hnil => hinput (List.isEmpty_iff.mpr hnil)⟩
  · rintro ⟨houtput, hinput⟩
    rw [if_neg (Bool.eq_false_iff.mp houtput), if_neg (hinput ∘ List.isEmpty_iff.mp)]

namespace MixerFile

variable {reader : ConfigReader} {t : FileTree} {p : Path} {c : MixerFile} {labels : List String}
  {mixers : List Mixer}

/-- What a configuration needs to be run: mixers, and each can be run. -/
structure Runnable (c : MixerFile) : Prop where
  nonempty : c.mixers ≠ []
  each : ∀ m ∈ c.mixers, m.Runnable

theorem fault?_eq_none_iff : c.fault? = none ↔ c.Runnable := by
  have heach : ((c.mixers.zipIdx 1).findSome? fun x => x.1.fault? x.2) = none ↔
      ∀ m ∈ c.mixers, m.Runnable := by
    rw [List.findSome?_eq_none_iff]
    constructor
    · intro h m hm
      rw [← List.zipIdx_map_fst 1 c.mixers] at hm
      obtain ⟨⟨m, number⟩, hmem, rfl⟩ := List.mem_map.mp hm
      exact Mixer.fault?_eq_none_iff.mp (h _ hmem)
    · exact fun h x hx => Mixer.fault?_eq_none_iff.mpr (h x.1 (List.fst_mem_of_mem_zipIdx hx))
  rw [fault?]
  split
  · rename_i hempty
    exact ⟨nofun, fun h => (h.nonempty (List.isEmpty_iff.mp hempty)).elim⟩
  · rename_i hempty
    exact heach.trans ⟨fun h => ⟨fun hnil => hempty (List.isEmpty_iff.mpr hnil), h⟩, (·.each)⟩

/-- What a file says to a reader, by its format. -/
def ReadFrom (reader : ConfigReader) (t : FileTree) (p : Path) (c : MixerFile) : Prop :=
  ∃ text, t.read p = .ok text ∧ reader (formatOf p) text = some c

/-- A file is loaded if it can be read, says which mixers there are, and these can be run. -/
theorem load_eq_ok_iff : load t p reader = .ok c ↔ c.ReadFrom reader t p ∧ c.Runnable := by
  constructor
  · intro h
    unfold load at h
    split at h
    · cases h
    rename_i text htext
    split at h
    · cases h
    rename_i hread
    split at h
    · cases h
    rename_i hfault
    cases h
    exact ⟨⟨text, htext, hread⟩, fault?_eq_none_iff.mp hfault⟩
  · rintro ⟨⟨text, htext, hread⟩, hrunnable⟩
    unfold load
    simp only [htext, hread, fault?_eq_none_iff.mpr hrunnable]

/-- The mixers that bear one of some labels, or all of them if there are no labels. -/
def chosen (c : MixerFile) (labels : List String) : List Mixer :=
  c.mixers.filter fun m => labels = [] ∨ m.label ∈ labels

theorem select_eq_ok_iff : c.select labels = .ok mixers ↔
    (∀ label ∈ labels, ∃ m ∈ c.mixers, m.label = label) ∧ mixers = c.chosen labels := by
  have hknown : (labels.find? fun label => !c.mixers.any (·.label == label)) = none ↔
      ∀ label ∈ labels, ∃ m ∈ c.mixers, m.label = label := by
    simp only [List.find?_eq_none, Bool.not_eq_true', Bool.not_eq_false, List.any_eq_true,
      beq_iff_eq]
  have hchosen : (if labels.isEmpty then c.mixers
      else c.mixers.filter (labels.contains ·.label)) = c.chosen labels := by
    cases labels with
    | nil => exact (List.filter_eq_self.mpr fun _ _ => decide_eq_true (.inl rfl)).symm
    | cons label labels => simp [chosen]
  rw [select, hchosen, ← hknown]
  cases labels.find? fun label => !c.mixers.any (·.label == label) with
  | some label => exact ⟨nofun, fun h => nomatch h.1⟩
  | none => exact ⟨fun h => ⟨rfl, (Except.ok.inj h).symm⟩, fun h => congrArg Except.ok h.2.symm⟩

end MixerFile

end Datamodel
