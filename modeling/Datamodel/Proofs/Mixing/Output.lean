import Datamodel.Mixing
import Datamodel.Proofs.Files.Resolved
import Datamodel.Proofs.Inputs.Repeated

/-! The output of a mixer among its inputs.

A mixer leaves out the files that are spelled as its output is, up to steps that stay where they
are. So its output comes up as an input just if a pattern finds it by a way that is spelled
differently, with steps upwards or from another start (`Mixer.output_mem_inputs_iff`), and never if
root, patterns and output do not go up (`Mixer.resolve_ne_of_straight`). -/

namespace Datamodel

variable {t : FileTree} {base root output p q : Path} {m : Mixer} {inputs : List Path}

/-- Of each normal form that is not the output's, a path is left of those that the patterns find. -/
theorem exists_mem_resolveInputs {patterns : List String} {pattern : String} {found : List Path}
    (h : resolveInputs t base patterns [output] = .ok inputs) (hpattern : pattern ∈ patterns)
    (hfound : expandPattern t base pattern = .ok found) (hp : p ∈ found)
    (hne : p.normal ≠ (base.join output).normal) : ∃ q ∈ inputs, q.normal = p.normal := by
  obtain ⟨finds, hfinds, rfl⟩ := resolveInputs_eq_ok_iff.mp h
  obtain ⟨found', hmem, hfound'⟩ := exists_of_forall₂_left (forall₂_of_mapM hfinds) pattern hpattern
  cases hfound.symm.trans hfound'
  refine exists_of_mem_of_distinct (List.mem_filter.mpr ⟨?_, ?_⟩) List.not_mem_nil
  · exact List.mem_flatten.mpr ⟨found, hmem, hp⟩
  · rw [Bool.not_eq_true', Bool.eq_false_iff, Ne, isExcluded_singleton]
    exact hne.symm

namespace Mixer

/-- **When the output is an input.** It is just if some pattern finds it by another spelling than
its own, up to steps that stay where they are. No input that goes nowhere but down behind a
beginning that it shares with the output leads to it. -/
theorem output_mem_inputs_iff (h : m.inputs t root = .ok inputs) :
    let output := root.join ⟨m.output⟩
    ((∃ p ∈ inputs, p.resolve t.start = output.resolve t.start) ↔
      ∃ pattern ∈ m.input, ∃ found, expandPattern t root pattern = .ok found ∧
        ∃ p ∈ found, p.resolve t.start = output.resolve t.start ∧ p.normal ≠ output.normal) ∧
    ∀ p ∈ inputs, p.Beside output → p.resolve t.start ≠ output.resolve t.start := by
  intro output
  refine ⟨⟨?_, ?_⟩, fun p hp hbeside hresolve => ?_⟩
  · rintro ⟨p, hp, hresolve⟩
    obtain ⟨⟨pattern, hpattern, found, hfound, hmem⟩, hne⟩ := of_mem_resolveInputs h hp
    exact ⟨pattern, hpattern, found, hfound, p, hmem, hresolve, hne⟩
  · rintro ⟨pattern, hpattern, found, hfound, p, hp, hresolve, hne⟩
    obtain ⟨q, hq, hnormal⟩ := exists_mem_resolveInputs h hpattern hfound hp hne
    exact ⟨q, hq, (Path.resolve_eq_of_normal_eq hnormal).trans hresolve⟩
  · exact (of_mem_resolveInputs h hp).2 ((hbeside.normal_eq_iff t.start).mpr hresolve)

/-- The output is found by a way up again, and is an input. No way up leads to the other input. -/
theorem output_mem_inputs_proj :
    let t : FileTree := { entries := [
      (["proj"], .folder), (["proj", "sub"], .folder),
      (["proj", "a.prisma"], .file (.text "")), (["proj", "b.prisma"], .file (.text ""))] }
    let m : Mixer := {
      input := ["./a.prisma", "./b.prisma", "sub/../b.prisma"], output := "b.prisma" }
    let root : Path := ⟨"sub/../proj"⟩
    let inputs : List Path := [⟨"sub/../proj/./a.prisma"⟩, ⟨"sub/../proj/sub/../b.prisma"⟩]
    let output := root.join ⟨m.output⟩
    m.inputs t root = .ok inputs ∧
      (∃ p ∈ inputs, p.resolve t.start = output.resolve t.start) ∧
      Path.resolve t.start ⟨"sub/../proj/./a.prisma"⟩ ≠ output.resolve t.start := by
  intro t m root inputs output
  have hinputs : m.inputs t root = .ok inputs := eq_ok_of_toOption (by decide +kernel)
  have hfound : expandPattern t root "sub/../b.prisma" = .ok [⟨"sub/../proj/sub/../b.prisma"⟩] :=
    eq_ok_of_toOption (by decide +kernel)
  have hbeside : Path.Beside ⟨"sub/../proj/./a.prisma"⟩ output :=
    ⟨[.down "sub", .up, .down "proj"], ["a.prisma"], ["b.prisma"], by decide +kernel,
      by decide +kernel⟩
  obtain ⟨hiff, hne⟩ := output_mem_inputs_iff hinputs
  exact ⟨hinputs, hiff.mpr ⟨"sub/../b.prisma", by decide, _, hfound, _, List.mem_singleton_self _,
    by decide +kernel, by decide +kernel⟩, hne _ List.mem_cons_self hbeside⟩

/-- No input leads to the output if root, patterns and output are seen from where the root is and
do not go up, and no part of a pattern fits the folder above. -/
theorem resolve_ne_of_straight (ht : t.WellFormed) (hroot : root.text ≠ "") (hup : root.Straight)
    (hinput : ∀ pattern ∈ m.input, Path.isAbsolute ⟨pattern⟩ = false ∧ Path.Straight ⟨pattern⟩)
    (hparts : ∀ pattern ∈ m.input, ∀ g, Glob.ofText (rootedPattern root pattern) = .ok g →
      ∀ part ∈ g.parts, FileTree.leadsUp part = false)
    (houtput : Path.isAbsolute ⟨m.output⟩ = false ∧ Path.Straight ⟨m.output⟩)
    (h : m.inputs t root = .ok inputs) :
    ∀ p ∈ inputs, p.resolve t.start ≠ (root.join ⟨m.output⟩).resolve t.start := by
  intro p hp
  obtain ⟨⟨pattern, hpattern, found, hfound, hmem⟩, hne⟩ := of_mem_resolveInputs h hp
  obtain ⟨hrelative, hstraight⟩ := hinput pattern hpattern
  have hsteps := Path.steps_ne_of_text_ne hroot
  have hpup := straight_of_mem_expandPattern ht hsteps hup hrelative hstraight
    (hparts pattern hpattern) hfound hmem
  have hstart := (of_mem_expandPattern ht hsteps hup hrelative hstraight hfound hmem).1.trans
    (Path.isAbsolute_join hroot houtput.1).symm
  have hbeside := hpup.beside (hup.join houtput.2 houtput.1) hstart
  exact fun hresolve => hne ((hbeside.normal_eq_iff t.start).mpr hresolve)

end Mixer

end Datamodel
