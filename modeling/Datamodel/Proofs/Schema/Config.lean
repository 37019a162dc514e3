import Datamodel.Proofs.Schema.Models

/-! Data sources and generators, read back.

Their lines are properties, each a key with an expression. What a block of given properties makes is
looked up in the list of its keys and expressions, which is the list that was printed, so the block
is what was printed. -/

namespace Datamodel

open Token (IsName Lexes LexesLine Balanced Stops)

/-! ### Values -/

def EnvValue.toExpr : EnvValue → Expr
  | env name => .call "env" [⟨none, .text name⟩]
  | value text => .text text

namespace EnvValue

theorem toText_toExpr (v : EnvValue) : v.toExpr.toText = v.toText := by
  cases v <;> simp [toExpr, toText, Expr.toText, Argument.toText]

theorem lexical_toExpr (v : EnvValue) : v.toExpr.Lexical := by
  cases v with
  | env name => exact .call (by decide) (by simp) (by simpa using .text name)
  | value text => exact .text text

theorem toEnvValue_toExpr (v : EnvValue) (line : Nat) : v.toExpr.toEnvValue line = .ok v := by
  cases v <;> rfl

end EnvValue

/-- A list of string literals. -/
def Expr.ofTexts (values : List String) : Expr := .array (values.map .text)

theorem Expr.toText_ofTexts (values : List String) :
    (ofTexts values).toText = Printer.textList values := by
  simp [ofTexts, toText, Printer.textList, Printer.nameList, Printer.commaList, Function.comp_def]

theorem Expr.lexical_ofTexts (values : List String) : (ofTexts values).Lexical := by
  refine .array ?_
  rw [List.forall_mem_map]
  exact fun v _ => .text v

theorem Expr.texts_ofTexts (values : List String) : (ofTexts values).texts = values := by
  simp [ofTexts, texts, bareText, Function.comp_def]

theorem Expr.map_text_of_all {items : List Expr} (h : items.all (·.text?.isSome) = true) :
    (items.filterMap text?).map .text = items := by
  induction items with
  | nil => rfl
  | cons e items ih =>
    rw [List.all_cons, Bool.and_eq_true] at h
    cases e with
    | text value => exact congrArg (Expr.text value :: ·) (ih h.2)
    | number lexeme | name ident | call function args | array items' => cases h.1

/-- The value of a property is printed as the expression that it was. -/
theorem Expr.toText_toConfigValue (e : Expr) : e.toConfigValue.toText = e.toText := by
  unfold toConfigValue
  split
  · next var e henv =>
    unfold env? at henv
    split at henv
    · next value =>
      cases value with
      | text v =>
        cases henv
        simp [ConfigValue.toText, toText, Argument.toText]
      | number lexeme | name ident | call function args | array items => cases henv
    · cases henv
  · rfl
  · next items _ =>
    split
    · next hall =>
      have hitems := map_text_of_all hall
      rw [ConfigValue.toText, ← toText_ofTexts, ofTexts, hitems]
    · rfl
  · rfl

/-! ### Entries -/

/-- An entry that a property other than `known` makes. -/
structure ConfigEntry.Lexical (known : List String) (e : ConfigEntry) : Prop where
  key : IsName e.key
  unknown : e.key ∉ known
  value : ∃ x : Expr, x.Lexical ∧ x.toConfigValue = e.value

/-- The keys of properties and their expressions. -/
abbrev Properties : Type := List (String × Expr)

def Property.pair (p : Property) : String × Expr := (p.key, p.value)

/-- The pairs are what the entries are made of. -/
def ConfigEntry.MadeOf (e : ConfigEntry) (pair : String × Expr) : Prop :=
  pair.1 = e.key ∧ pair.2.Lexical ∧ pair.2.toConfigValue = e.value

section
variable {known : List String} {entries : List ConfigEntry} {pairs pairs' : Properties}
  {b : ConfigBlock}

theorem ConfigEntry.exists_pairs (h : ∀ e ∈ entries, e.Lexical known) :
    ∃ pairs, List.Forall₂ MadeOf entries pairs := by
  induction entries with
  | nil => exact ⟨[], .nil⟩
  | cons e entries ih =>
    obtain ⟨x, hx, hvalue⟩ := (h e List.mem_cons_self).value
    obtain ⟨pairs, hpairs⟩ := ih fun e' he' => h e' (List.mem_cons_of_mem _ he')
    exact ⟨(e.key, x) :: pairs, .cons ⟨rfl, hx, hvalue⟩ hpairs⟩

theorem ConfigEntry.lexical_pairs (h : List.Forall₂ MadeOf entries pairs)
    (hentries : ∀ e ∈ entries, IsName e.key) :
    ∀ pair ∈ pairs, IsName pair.1 ∧ pair.2.Lexical := by
  induction h with
  | nil => nofun
  | @cons e pair entries pairs hpair _ ih =>
    obtain ⟨hkey, hlexical, -⟩ := hpair
    have hname : IsName e.key := hentries e List.mem_cons_self
    exact List.forall_mem_cons.mpr
      ⟨⟨hkey ▸ hname, hlexical⟩, ih fun e' he' => hentries e' (List.mem_cons_of_mem _ he')⟩

/-- The line of a property. -/
def propertyLine (pair : String × Expr) : String := pair.1 ++ " = " ++ pair.2.toText

theorem ConfigEntry.map_toText (h : List.Forall₂ MadeOf entries pairs) :
    entries.map toText = pairs.map propertyLine := by
  induction h with
  | nil => rfl
  | @cons e pair entries pairs hpair _ ih =>
    obtain ⟨hkey, -, hvalue⟩ := hpair
    rw [List.map_cons, List.map_cons, ih, toText, propertyLine, hkey, ← hvalue,
      Expr.toText_toConfigValue]

theorem Property.itemLine {pair : String × Expr} (hkey : IsName pair.1) (hvalue : pair.2.Lexical)
    (docs : List String) :
    ItemLine Property.read (fun p pair => p.pair = pair) docs docs (propertyLine pair) pair := by
  have htext : (propertyLine pair).toList =
      pair.1.toList ++ ' ' :: '=' :: ' ' :: pair.2.toText.toList := by
    simp [propertyLine]
  have hlexes : Lexes (propertyLine pair).toList (.name pair.1 :: .equals :: pair.2.kinds) := by
    rw [htext]
    exact Lexes.name hkey (Stops.cons (by decide))
      (Lexes.space (Lexes.equals (Lexes.space (Expr.lexes hvalue))))
  refine ⟨?_, .name pair.1, _, .name _, LexesLine.of_lexes hlexes ?_, fun last n rest => ?_⟩
  · obtain ⟨c, s, hs, hc, -⟩ := hkey
    have hc := Token.isBlank_of_isNameChar (Token.isNameChar_of_isNameStart hc)
    exact nonblank_of_head (c := c) (by rw [htext, hs]; rfl) hc
  · exact (pair.2.balanced_kinds.cons fun _ => rfl).cons fun _ => rfl
  · exact ⟨_, Property.read_line pair.1 pair.2 last docs n rest, rfl⟩

/-! ### What properties make -/

theorem ConfigBlock.map_property? (h : b.properties.map Property.pair = pairs) (key : String) :
    (b.property? key).map Property.pair = pairs.find? (·.1 == key) := by
  rw [property?, ← h, List.find?_map]
  rfl

theorem ConfigBlock.provider_of_pairs (h : b.properties.map Property.pair = pairs) {x : Expr}
    (hx : pairs.find? (·.1 == "provider") = some ("provider", x)) (kind : String) :
    b.provider kind = .ok x := by
  obtain ⟨p, hp, hpair⟩ := Option.map_eq_some_iff.mp ((map_property? h "provider").trans hx)
  rw [provider, hp]
  exact congrArg (Except.ok ·.2) hpair

theorem ConfigBlock.envValue?_of_pairs (h : b.properties.map Property.pair = pairs) {key : String}
    {v : Option EnvValue} (hv : pairs.find? (·.1 == key) = v.map fun v => (key, v.toExpr)) :
    b.envValue? key = .ok v := by
  have hproperty := (map_property? h key).trans hv
  rw [envValue?]
  cases v with
  | none =>
    rw [Option.map_eq_none_iff.mp hproperty]
    rfl
  | some v =>
    obtain ⟨p, hp, hpair⟩ := Option.map_eq_some_iff.mp hproperty
    have hvalue : p.value = v.toExpr := congrArg Prod.snd hpair
    rw [hp, Option.mapM_some, hvalue, EnvValue.toEnvValue_toExpr]
    rfl

theorem ConfigBlock.texts_of_pairs (h : b.properties.map Property.pair = pairs) {key : String}
    {values : List String} (hvalues : pairs.find? (·.1 == key) =
      if values.isEmpty then none else some (key, Expr.ofTexts values)) :
    b.texts key = values := by
  have hproperty := (map_property? h key).trans hvalues
  rw [texts]
  cases values with
  | nil =>
    rw [Option.map_eq_none_iff.mp hproperty]
    rfl
  | cons value values =>
    obtain ⟨p, hp, hpair⟩ := Option.map_eq_some_iff.mp hproperty
    have hvalue : p.value = Expr.ofTexts (value :: values) := congrArg Prod.snd hpair
    rw [hp, Option.map_some, Option.getD_some, hvalue, Expr.texts_ofTexts]

theorem ConfigBlock.otherEntries_eq (h : b.properties.map Property.pair = pairs)
    (known : List String) : b.otherEntries known =
      (pairs.filter (!known.contains ·.1)).map fun pair => ⟨pair.1, pair.2.toConfigValue⟩ := by
  rw [otherEntries, ← h, List.filter_map, List.map_map]
  rfl

theorem ConfigEntry.filter_pairs (h : List.Forall₂ MadeOf entries pairs)
    (hentries : ∀ e ∈ entries, e.key ∉ known) :
    (pairs.filter (!known.contains ·.1)).map (fun pair => ⟨pair.1, pair.2.toConfigValue⟩) =
      entries := by
  induction h with
  | nil => rfl
  | @cons e pair entries pairs hpair _ ih =>
    obtain ⟨hkey, -, hvalue⟩ := hpair
    have hunknown : e.key ∉ known := hentries e List.mem_cons_self
    have ih := ih fun e' he' => hentries e' (List.mem_cons_of_mem _ he')
    rw [List.filter_cons_of_pos (by simpa [hkey] using hunknown), List.map_cons, ih, hkey, hvalue]

/-- A known key is not found among other entries. -/
theorem ConfigEntry.find?_pairs (h : List.Forall₂ MadeOf entries pairs)
    (hentries : ∀ e ∈ entries, e.key ∉ known) {key : String} (hkey : key ∈ known) :
    pairs.find? (·.1 == key) = none := by
  induction h with
  | nil => rfl
  | @cons e pair entries pairs hpair _ ih =>
    have hne : ¬(pair.1 == key) = true := by
      rw [hpair.1, beq_iff_eq]
      rintro rfl
      exact hentries e List.mem_cons_self hkey
    rw [List.find?_cons_of_neg (p := fun x : String × Expr => x.1 == key) hne]
    exact ih fun e' he' => hentries e' (List.mem_cons_of_mem _ he')

end

/-- The lines of properties are read back as the properties. -/
theorem Property.bodyLines {pairs : Properties} (h : ∀ pair ∈ pairs, IsName pair.1 ∧ pair.2.Lexical) :
    BodyLines Property.read (fun p pair => p.pair = pair) [] (pairs.map propertyLine) pairs := by
  have hitems : BodyLines Property.read (fun p pair => p.pair = pair) []
      (pairs.map propertyLine) (pairs.map id) :=
    BodyLines.of_items fun pair hpair => Property.itemLine (h pair hpair).1 (h pair hpair).2 []
  rwa [List.map_id] at hitems

theorem Property.map_pair_of_forall₂ {items : List Property} {pairs : Properties}
    (h : List.Forall₂ (fun p pair => Property.pair p = pair) items pairs) :
    items.map Property.pair = pairs := by
  induction h with
  | nil => rfl
  | cons hp _ ih => rw [List.map_cons, hp, ih]

/-! ### Data sources -/

namespace DataSource

def known : List String := ["provider", "url"]

/-- A data source that the properties of a block make. -/
structure Lexical (d : DataSource) : Prop where
  name : IsName d.name
  config : ∀ e ∈ d.config, e.Lexical known

/-- The properties that a data source is printed as, those of its other entries being `config`. -/
def pairs (d : DataSource) (config : Properties) : Properties :=
  ("provider", .text d.provider) :: ((d.url.map fun url => ("url", url.toExpr)).toList ++ config)

variable {d : DataSource} {config : Properties}

theorem bodyLines_eq (h : List.Forall₂ ConfigEntry.MadeOf d.config config) :
    d.bodyLines = (d.pairs config).map propertyLine := by
  have hurl : (d.url.map fun url => "url = " ++ url.toText).toList =
      (d.url.map fun url => ("url", url.toExpr)).toList.map propertyLine := by
    cases d.url with
    | none => rfl
    | some url =>
      rw [Option.map_some, Option.map_some, Option.toList_some, Option.toList_some,
        List.map_singleton, propertyLine, EnvValue.toText_toExpr]
      rfl
  have hprovider : "provider = " ++ Text.Quoted.quote d.provider =
      propertyLine ("provider", .text d.provider) := rfl
  rw [bodyLines, pairs, hprovider, hurl, ConfigEntry.map_toText h]
  simp

theorem Lexical.mem_pairs (hd : d.Lexical) (h : List.Forall₂ ConfigEntry.MadeOf d.config config) :
    ∀ pair ∈ d.pairs config, IsName pair.1 ∧ pair.2.Lexical := by
  have hconfig := ConfigEntry.lexical_pairs h fun e he => (hd.config e he).key
  rw [pairs, List.forall_mem_cons, List.forall_mem_append]
  refine ⟨⟨(by decide : IsName "provider"), .text d.provider⟩, ?_, hconfig⟩
  simp only [Option.mem_toList, Option.map_eq_some_iff]
  rintro _ ⟨url, -, rfl⟩
  exact ⟨(by decide : IsName "url"), url.lexical_toExpr⟩

theorem Lexical.resolve_pairs (hd : d.Lexical)
    (h : List.Forall₂ ConfigEntry.MadeOf d.config config) {items : List Property}
    (hitems : items.map Property.pair = d.pairs config) (line : Nat) :
    ConfigBlock.resolveDatasource ⟨d.name, items, line⟩ = .ok d := by
  have hunknown : ∀ e ∈ d.config, e.key ∉ known := fun e he => (hd.config e he).unknown
  have hprovider := ConfigBlock.provider_of_pairs (b := ⟨d.name, items, line⟩) hitems
    (x := .text d.provider) rfl "datasource"
  have hurl : ConfigBlock.envValue? ⟨d.name, items, line⟩ "url" = .ok d.url := by
    refine ConfigBlock.envValue?_of_pairs hitems ?_
    have hurl : "url" ∈ known := by decide
    have hrest := ConfigEntry.find?_pairs h hunknown hurl
    rw [pairs, List.find?_cons_of_neg (by simp), List.find?_append, hrest, Option.or_none]
    cases d.url <;> rfl
  have hothers : ConfigBlock.otherEntries ⟨d.name, items, line⟩ ["provider", "url"] = d.config := by
    have hconfig := ConfigEntry.filter_pairs h hunknown
    rw [ConfigBlock.otherEntries_eq hitems, pairs]
    rw [← hconfig]
    cases d.url <;> rfl
  simp only [ConfigBlock.resolveDatasource, hprovider, Expr.text?, hurl, hothers, bind, Except.bind,
    pure, Except.pure]

/-- The lines of the body stand for properties that make the data source again. -/
theorem Lexical.exists_body (hd : d.Lexical) : ∃ pairs : Properties,
    BodyLines Property.read (fun p pair => p.pair = pair) [] d.bodyLines pairs ∧
      ∀ docs line items, List.Forall₂ (fun p pair => Property.pair p = pair) items pairs →
        Block.Declares { datasources := [d] }
          (Block.Maker.datasource.make docs d.name line items) := by
  obtain ⟨config, hconfig⟩ := ConfigEntry.exists_pairs hd.config
  refine ⟨d.pairs config, ?_, ?_⟩
  · rw [bodyLines_eq hconfig]
    exact Property.bodyLines (hd.mem_pairs hconfig)
  · intro docs line items hitems
    refine ⟨rfl, fun declared _ => ?_⟩
    have hresolve := hd.resolve_pairs hconfig (Property.map_pair_of_forall₂ hitems) line
    simp only [Block.Maker.datasource, Block.resolve, hresolve, bind, Except.bind, pure,
      Except.pure]

/-- **A data source is read back.** -/
theorem blockLines (hd : d.Lexical) : BlockLines d.lines (Block.Declares { datasources := [d] }) := by
  obtain ⟨pairs, hbody, hdeclares⟩ := hd.exists_body
  have hdocumentation : IsDocumentation none := nofun
  have hblock := BlockLines.of_body Block.Maker.datasource Block.reads_datasource (by decide)
    hd.name hdocumentation hbody
  refine hblock.mono ?_
  rintro b ⟨line, items, rfl, hitems⟩
  exact hdeclares _ line items hitems

end DataSource

/-! ### Generators -/

namespace Generator

def known : List String := ["provider", "output", "previewFeatures", "binaryTargets"]

/-- A generator that the properties of a block make. -/
structure Lexical (g : Generator) : Prop where
  name : IsName g.name
  config : ∀ e ∈ g.config, e.Lexical known

/-- A property that is left out where there are no values. -/
def listPair (key : String) (values : List String) : Properties :=
  if values.isEmpty then [] else [(key, .ofTexts values)]

/-- The properties that a generator is printed as, those of its other entries being `config`. -/
def pairs (g : Generator) (config : Properties) : Properties :=
  ("provider", g.provider.toExpr) ::
    ((g.output.map fun output => ("output", output.toExpr)).toList ++ (config ++
      (listPair "binaryTargets" g.binaryTargets ++ listPair "previewFeatures" g.previewFeatures)))

variable {g : Generator} {config : Properties}

theorem map_listPair (key : String) (values : List String) :
    (if values.isEmpty then [] else [key ++ " = " ++ Printer.textList values]) =
      (listPair key values).map propertyLine := by
  rw [listPair]
  split
  · rfl
  · rw [List.map_singleton, propertyLine, Expr.toText_ofTexts]

theorem bodyLines_eq (h : List.Forall₂ ConfigEntry.MadeOf g.config config) :
    g.bodyLines = (g.pairs config).map propertyLine := by
  have houtput : (g.output.map fun output => "output = " ++ output.toText).toList =
      (g.output.map fun output => ("output", output.toExpr)).toList.map propertyLine := by
    cases g.output with
    | none => rfl
    | some output =>
      rw [Option.map_some, Option.map_some, Option.toList_some, Option.toList_some,
        List.map_singleton, propertyLine, EnvValue.toText_toExpr]
      rfl
  have hprovider : "provider = " ++ g.provider.toText =
      propertyLine ("provider", g.provider.toExpr) := by
    rw [propertyLine, EnvValue.toText_toExpr]
    rfl
  have htargets := map_listPair "binaryTargets" g.binaryTargets
  have hfeatures := map_listPair "previewFeatures" g.previewFeatures
  have htargets' : "binaryTargets" ++ " = " = "binaryTargets = " := rfl
  have hfeatures' : "previewFeatures" ++ " = " = "previewFeatures = " := rfl
  rw [htargets'] at htargets
  rw [hfeatures'] at hfeatures
  rw [bodyLines, pairs, hprovider, houtput, ConfigEntry.map_toText h, htargets, hfeatures]
  simp

theorem mem_listPair {key : String} (hkey : IsName key) (values : List String) :
    ∀ pair ∈ listPair key values, IsName pair.1 ∧ pair.2.Lexical := by
  rw [listPair]
  split
  · nofun
  · rw [List.forall_mem_singleton]
    exact ⟨hkey, Expr.lexical_ofTexts values⟩

theorem Lexical.mem_pairs (hg : g.Lexical) (h : List.Forall₂ ConfigEntry.MadeOf g.config config) :
    ∀ pair ∈ g.pairs config, IsName pair.1 ∧ pair.2.Lexical := by
  have hconfig := ConfigEntry.lexical_pairs h fun e he => (hg.config e he).key
  simp only [pairs, List.forall_mem_cons, List.forall_mem_append]
  refine ⟨⟨by decide, g.provider.lexical_toExpr⟩, ?_, hconfig,
    mem_listPair (by decide) g.binaryTargets, mem_listPair (by decide) g.previewFeatures⟩
  simp only [Option.mem_toList, Option.map_eq_some_iff]
  rintro _ ⟨output, -, rfl⟩
  exact ⟨(by decide : IsName "output"), output.lexical_toExpr⟩

theorem find?_listPair_ne {key key' : String} (h : key ≠ key') (values : List String) :
    (listPair key values).find? (·.1 == key') = none := by
  rw [listPair]
  split
  · rfl
  · simp [h]

theorem find?_listPair (key : String) (values : List String) :
    (listPair key values).find? (·.1 == key) =
      if values.isEmpty then none else some (key, .ofTexts values) := by
  rw [listPair]
  split <;> simp

theorem filter_listPair {key : String} (h : key ∈ known) (values : List String) :
    (listPair key values).filter (!known.contains ·.1) = [] := by
  rw [listPair]
  split
  · rfl
  · simp [h]

theorem Lexical.resolve_pairs (hg : g.Lexical)
    (h : List.Forall₂ ConfigEntry.MadeOf g.config config) {items : List Property}
    (hitems : items.map Property.pair = g.pairs config) (line : Nat) :
    ConfigBlock.resolveGenerator ⟨g.name, items, line⟩ = .ok g := by
  have hunknown : ∀ e ∈ g.config, e.key ∉ known := fun e he => (hg.config e he).unknown
  have hprovider := ConfigBlock.provider_of_pairs (b := ⟨g.name, items, line⟩) hitems
    (x := g.provider.toExpr) rfl "generator"
  have hrest {key : String} (hkey : key ∈ known) := ConfigEntry.find?_pairs h hunknown hkey
  have hfind {key : String} (hne : key ≠ "provider") (hne' : key ≠ "output") (hkey : key ∈ known) :
      (g.pairs config).find? (·.1 == key) =
        ((listPair "binaryTargets" g.binaryTargets).find? (·.1 == key)).or
          ((listPair "previewFeatures" g.previewFeatures).find? (·.1 == key)) := by
    have houtput : (g.output.map fun output => ("output", output.toExpr)).toList.find?
        (·.1 == key) = none := by
      cases g.output with
      | none => rfl
      | some output => simp [Ne.symm hne']
    rw [pairs, List.find?_cons_of_neg (by simpa using Ne.symm hne), List.find?_append, houtput,
      List.find?_append, hrest hkey, List.find?_append]
    rfl
  have houtput : ConfigBlock.envValue? ⟨g.name, items, line⟩ "output" = .ok g.output := by
    refine ConfigBlock.envValue?_of_pairs hitems ?_
    rw [pairs, List.find?_cons_of_neg (by simp), List.find?_append, List.find?_append,
      hrest (by decide), List.find?_append, find?_listPair_ne (by decide),
      find?_listPair_ne (by decide)]
    cases g.output <;> rfl
  have hfeatures : ConfigBlock.texts ⟨g.name, items, line⟩ "previewFeatures" =
      g.previewFeatures := by
    refine ConfigBlock.texts_of_pairs hitems ?_
    rw [hfind (by decide) (by decide) (by decide), find?_listPair_ne (by decide), find?_listPair]
    rfl
  have htargets : ConfigBlock.texts ⟨g.name, items, line⟩ "binaryTargets" = g.binaryTargets := by
    refine ConfigBlock.texts_of_pairs hitems ?_
    rw [hfind (by decide) (by decide) (by decide), find?_listPair, find?_listPair_ne (by decide),
      Option.or_none]
  have hothers : ConfigBlock.otherEntries ⟨g.name, items, line⟩ known = g.config := by
    have hconfig := ConfigEntry.filter_pairs h hunknown
    have houtput : (g.output.map fun output => ("output", output.toExpr)).toList.filter
        (!known.contains ·.1) = [] := by
      cases g.output <;> rfl
    rw [ConfigBlock.otherEntries_eq hitems, pairs, List.filter_cons_of_neg (by simp [known]),
      List.filter_append, List.filter_append, List.filter_append, houtput,
      filter_listPair (by decide), filter_listPair (by decide), List.nil_append,
      List.append_nil, List.append_nil, hconfig]
  have hknown : known = ["provider", "output", "previewFeatures", "binaryTargets"] := rfl
  rw [hknown] at hothers
  simp only [ConfigBlock.resolveGenerator, hprovider, EnvValue.toEnvValue_toExpr, houtput,
    hfeatures, htargets, hothers, bind, Except.bind, pure, Except.pure]

/-- The lines of the body stand for properties that make the generator again. -/
theorem Lexical.exists_body (hg : g.Lexical) : ∃ pairs : Properties,
    BodyLines Property.read (fun p pair => p.pair = pair) [] g.bodyLines pairs ∧
      ∀ docs line items, List.Forall₂ (fun p pair => Property.pair p = pair) items pairs →
        Block.Declares { generators := [g] }
          (Block.Maker.generator.make docs g.name line items) := by
  obtain ⟨config, hconfig⟩ := ConfigEntry.exists_pairs hg.config
  refine ⟨g.pairs config, ?_, ?_⟩
  · rw [bodyLines_eq hconfig]
    exact Property.bodyLines (hg.mem_pairs hconfig)
  · intro docs line items hitems
    refine ⟨rfl, fun declared _ => ?_⟩
    have hresolve := hg.resolve_pairs hconfig (Property.map_pair_of_forall₂ hitems) line
    simp only [Block.Maker.generator, Block.resolve, hresolve, bind, Except.bind, pure, Except.pure]

/-- **A generator is read back.** -/
theorem blockLines (hg : g.Lexical) : BlockLines g.lines (Block.Declares { generators := [g] }) := by
  obtain ⟨pairs, hbody, hdeclares⟩ := hg.exists_body
  have hdocumentation : IsDocumentation none := nofun
  have hblock := BlockLines.of_body Block.Maker.generator Block.reads_generator (by decide)
    hg.name hdocumentation hbody
  refine hblock.mono ?_
  rintro b ⟨line, items, rfl, hitems⟩
  exact hdeclares _ line items hitems

end Generator

end Datamodel
