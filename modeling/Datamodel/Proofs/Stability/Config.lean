import Datamodel.Proofs.Loading.Schemas

/-! Data sources and generators, each printed as a text of its own.

What a property says is found by the form of its expression: an environment variable, a string, a
list of strings or anything else, which is kept as it is written. Printing keeps that form, so the
block is what it was (`Schema.ofText_config_of_ofText`). -/

namespace Datamodel

/-- A text of one block that declares no type declares what the block does. -/
theorem Schema.ofText_of_block {source : String} {s : Schema} {b : Block}
    (h : Block.ofText source = .ok [b]) (hb : Block.Declares s b) (hnames : s.names = [])
    (hmodels : s.models = []) : Schema.ofText source = .ok s := by
  have hsum : Schema.sum [s] = s := by
    show append s {} = s
    simp [append]
  have hresolve := resolve_of_declares (List.Forall₂.cons hb .nil)
    (by simp [hnames]) (by simp [hmodels])
  rw [hsum] at hresolve
  rw [ofText, h]
  exact hresolve

theorem DataSource.ofText_toText {d : DataSource} (hd : d.Lexical) :
    Schema.ofText d.toText = .ok { datasources := [d] } := by
  obtain ⟨pairs, hbody, hdeclares⟩ := hd.exists_body
  obtain ⟨line, items, hitems, hread⟩ :=
    Block.ofText_block Block.Maker.datasource Block.reads_datasource (by decide) hd.name hbody
  exact Schema.ofText_of_block hread (hdeclares [] line items hitems) rfl rfl

theorem Generator.ofText_toText {g : Generator} (hg : g.Lexical) :
    Schema.ofText g.toText = .ok { generators := [g] } := by
  obtain ⟨pairs, hbody, hdeclares⟩ := hg.exists_body
  obtain ⟨line, items, hitems, hread⟩ :=
    Block.ofText_block Block.Maker.generator Block.reads_generator (by decide) hg.name hbody
  exact Schema.ofText_of_block hread (hdeclares [] line items hitems) rfl rfl

/-- **Data sources and generators are read back one by one.** Whatever text declares them, the text
of each declares it and nothing else. -/
theorem Schema.ofText_config_of_ofText {source : String} {s : Schema}
    (h : Schema.ofText source = .ok s) :
    (∀ d ∈ s.datasources, Schema.ofText d.toText = .ok { datasources := [d] }) ∧
      ∀ g ∈ s.generators, Schema.ofText g.toText = .ok { generators := [g] } := by
  have hwell := Schema.wellFormed_of_ofText h
  constructor
  · intro d hd
    exact DataSource.ofText_toText (hwell.datasources d hd)
  · intro g hg
    exact Generator.ofText_toText (hwell.generators g hg)

/-- Known keys in any order, a list of strings, a call within a call and a quote in a string. -/
theorem ofText_config_of_ofText_nested :
    let source := "datasource db \x7b\n  url = env(\"URL\")\n  provider = \"a\\\"b\"\n" ++
      "  pool = f(x: [1, env(\"N\")])\n\x7d\ngenerator js \x7b\n  previewFeatures = [\"q\", r]\n" ++
      "  engines = [\"x\"]\n  provider = env(\"P\")\n  binaryTargets = []\n\x7d\n"
    ∃ s, Schema.ofText source = .ok s ∧
      s.datasources.map (·.config) = [[⟨"pool", .raw "f(x: [1, env(\"N\")])"⟩]] ∧
      s.generators.map (·.config) = [[⟨"engines", .list ["x"]⟩]] ∧
      (∀ d ∈ s.datasources, Schema.ofText d.toText = .ok { datasources := [d] }) ∧
      ∀ g ∈ s.generators, Schema.ofText g.toText = .ok { generators := [g] } := by
  intro source
  let s : Schema := {
    datasources := [{
      name := "db", provider := "a\"b", url := some (.env "URL")
      config := [⟨"pool", .raw "f(x: [1, env(\"N\")])"⟩] }]
    generators := [{
      name := "js", provider := .env "P", previewFeatures := ["q", "r"]
      config := [⟨"engines", .list ["x"]⟩] }] }
  have hs : Schema.ofText source = .ok s := eq_ok_of_toOption (by decide +kernel)
  exact ⟨s, hs, rfl, rfl, Schema.ofText_config_of_ofText hs⟩

end Datamodel
