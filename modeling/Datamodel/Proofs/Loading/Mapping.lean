import Datamodel.Proofs.Loading.Taken
import Datamodel.Resolution

/-! The mapped name of a field, by the tokens of its declaration.

The attributes of a field stand one behind the other, so the first `@map` among the tokens of a
declaration is the first among its attributes (`FieldDecl.mapName?_of_mapping`). -/

namespace Datamodel

open Token (EndsItem Kind Passing Reading Took)

/-- The tokens of `@map("...")`. -/
def Token.Kind.mapping (name : String) : List Kind :=
  [.marker, .name "map", .openParen, .text name, .closeParen]

section
variable {last : Nat} {ts rest : List Token} {u v : List Kind} {k : Kind} {name : String}

/-- A reader stops in front of a token that it does not take. -/
theorem Token.Took.exists_of_split {p : Kind → Bool} (h : Took p ts rest)
    (hts : ts.map (·.kind) = u ++ k :: v) (hk : p k = false) :
    ∃ c, c <:+ u ∧ rest.map (·.kind) = c ++ k :: v := by
  obtain ⟨used, rfl, -, hp⟩ := h
  rw [List.map_append] at hts
  rcases exists_of_append_eq_append_cons hts with ⟨c, hused, -⟩ | ⟨c, rfl, hrest⟩
  · obtain ⟨t, ht, rfl⟩ := List.mem_map.mp (hused ▸ List.mem_append_right u List.mem_cons_self)
    exact absurd (hp t ht) (by simp [hk])
  · exact ⟨c, List.suffix_append _ _, hrest⟩

namespace Attribute

theorem readAll_text {n n' : Nat} {as : Reading (List Argument) (⟨.text name, n⟩ ::
    ⟨.closeParen, n'⟩ :: rest)} (h : Argument.readAll last _ = .ok as) :
    as.value = [⟨none, .text name⟩] := by
  rw [Argument.readAll.eq_def] at h
  simp only [Argument.label?] at h
  rw [Expr.read.eq_def] at h
  cases h
  rfl

/-- The attribute `@map("...")`. -/
theorem read_mapping {r : Reading Attribute ts} (h : read last ts = .ok r)
    (hts : ts.map (·.kind) = (Kind.mapping name).tail ++ v) :
    r.value.name = "map" ∧ r.value.text? = some name := by
  obtain ⟨⟨_, n⟩, ts, rfl, rfl, hparen⟩ := List.map_eq_cons_iff.mp hts
  obtain ⟨⟨_, n'⟩, ts, rfl, rfl, htext⟩ := List.map_eq_cons_iff.mp hparen
  obtain ⟨⟨_, m⟩, ts, rfl, rfl, hclose⟩ := List.map_eq_cons_iff.mp htext
  obtain ⟨⟨_, m'⟩, ts, rfl, rfl, -⟩ := List.map_eq_cons_iff.mp hclose
  unfold read at h
  dsimp only at h
  split at h
  · cases h
  · next as has =>
    cases h
    rw [readAll_text has]
    exact ⟨rfl, rfl⟩

theorem mapName?_cons_of_eq {a : Attribute} {as : List Attribute} (h : a.name = "map") :
    mapName? (a :: as) = a.text? := by
  simp [mapName?, h]

theorem mapName?_cons_of_ne {a : Attribute} {as : List Attribute} (h : a.name ≠ "map") :
    mapName? (a :: as) = mapName? as := by
  simp [mapName?, h]

/-- What may stand behind the attributes of a field. -/
def EndsAttributes (k : Kind) : Prop := k = .newline ∨ k = .closeBrace ∨ ∃ text, k = .doc text

/-- **The first `@map` among the tokens** is the first among the attributes. -/
theorem mapName?_of_mapping {r : Passing (List Attribute) ts} (h : readAll last ts = .ok r)
    (hts : ts.map (·.kind) = u ++ (Kind.mapping name ++ v))
    (hu : ¬[.marker, .name "map"] <:+: u) (hends : ∀ k ∈ u, ¬EndsAttributes k)
    (hrest : ∀ t ∈ r.rest.head?, EndsAttributes t.kind) :
    mapName? r.value = some name := by
  fun_induction readAll last ts generalizing u with
  | case1 => cases h
  | case2 => cases h
  | case3 line rest a ha _ more hmore ih =>
    cases h
    cases u with
    | nil =>
      obtain ⟨hname, htext⟩ := read_mapping ha (List.cons.inj hts).2
      exact (mapName?_cons_of_eq hname).trans htext
    | cons k u =>
      obtain ⟨rfl, hkinds⟩ := List.cons.inj hts
      obtain ⟨n, ts', hname, htook⟩ := Attribute.took_of_read ha
      have htook : Took Kind.isInner rest a.rest := .of_eq hname (.token rfl (fun _ => rfl) htook)
      obtain ⟨c, hc, hrest'⟩ := htook.exists_of_split hkinds rfl
      have hnot : a.value.name ≠ "map" := by
        intro hmap
        rw [hname, hmap] at hkinds
        cases u with
        | nil => cases hkinds
        | cons k u =>
          obtain ⟨rfl, -⟩ := List.cons.inj hkinds
          exact hu ⟨[], u, rfl⟩
      have hsub : c <:+ Kind.marker :: u := hc.trans (List.suffix_cons _ u)
      exact (mapName?_cons_of_ne hnot).trans (ih hmore hrest' (fun h => hu (h.trans hsub.isInfix))
        (fun k hk => hends k (hsub.subset hk)) hrest)
  | case4 ts hmarker =>
    cases h
    cases u with
    | nil =>
      obtain ⟨⟨_, n⟩, ts, rfl, rfl, -⟩ := List.map_eq_cons_iff.mp hts
      exact absurd rfl (hmarker n ts)
    | cons k u =>
      obtain ⟨t, ts, rfl, rfl, -⟩ := List.map_eq_cons_iff.mp hts
      exact absurd (hrest t rfl) (hends _ List.mem_cons_self)

end Attribute

namespace FieldDecl
variable {docs : List String} {r : Reading FieldDecl ts}

theorem rest_trailingDoc (ts : List Token) :
    (Block.trailingDoc ts).rest = ts ∨ ∃ text n rest, ts = ⟨.doc text, n⟩ :: rest := by
  unfold Block.trailingDoc
  split
  · exact .inr ⟨_, _, _, rfl⟩
  · exact .inl rfl

theorem endsAttributes_of_endsItem (h : EndsItem (Block.trailingDoc ts).rest rest) :
    ∀ t ∈ ts.head?, Attribute.EndsAttributes t.kind := by
  intro t ht
  rcases rest_trailingDoc ts with hstay | ⟨text, n, rest, rfl⟩
  · rw [hstay] at h
    rcases h with ⟨n, rfl⟩ | ⟨-, hclose⟩
    · cases ht
      exact .inl rfl
    · exact .inr (.inl (hclose t ht))
  · cases ht
    exact .inr (.inr ⟨text, rfl⟩)

/-- **A field is mapped** to the name in its first `@map("...")`. -/
theorem mapName?_of_mapping (h : read last docs ts = .ok r)
    (hts : ts.map (·.kind) = u ++ (Kind.mapping name ++ v))
    (hu : ¬[.marker, .name "map"] <:+: u) (hends : ∀ k ∈ u, ¬Attribute.EndsAttributes k) :
    Attribute.mapName? r.value.attributes = some name := by
  obtain ⟨fieldName, line, rest, type, attributes, heq, htype, hattributes, hitem, hvalue⟩ :=
    cases_read h
  -- The name and the type of a field hold no attribute.
  have htook : Took Kind.isInner ts (Arity.read type.rest).rest :=
    .of_eq heq (.token rfl (fun _ => rfl) (took_front htype))
  obtain ⟨c, hc, harity⟩ := htook.exists_of_split hts rfl
  rw [hvalue]
  exact Attribute.mapName?_of_mapping hattributes harity (fun h => hu (h.trans hc.isInfix))
    (fun k hk => hends k (hc.subset hk)) (endsAttributes_of_endsItem hitem)

end FieldDecl

end

end Datamodel
