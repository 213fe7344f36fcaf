import ClassGraph.Proofs.Diagram.Growth
import ClassGraph.Proofs.Lockstep
import ClassGraph.Proofs.Spelling

/-! # Tokens that say the same

Two texts whose tokens say the same are built in lockstep from the start: the
tokens with the same number correspond to each other, since none occurs twice.
So the layout of a text and the way its names are quoted count for nothing.
-/

namespace ClassGraph

namespace Token

/-- Tokens with the same number in two lists. -/
def Corresponds (ts us : List Token) (t u : Token) : Prop :=
  ∃ i : Nat, ts[i]? = some t ∧ us[i]? = some u

/-- Where no token occurs twice, the numbers pair the tokens off. -/
theorem pairing_of_forall₂ {ts us : List Token} (h : List.Forall₂ SaysSame ts us)
    (hts : ts.Nodup) (hus : us.Nodup) : Pairing (Corresponds ts us) where
  saysSame := by
    rintro t u ⟨i, ht, hu⟩
    obtain ⟨hi, rfl⟩ := List.getElem?_eq_some_iff.mp ht
    obtain ⟨hj, rfl⟩ := List.getElem?_eq_some_iff.mp hu
    exact (List.forall₂_iff_get.mp h).2 i hi hj
  unique := by
    rintro t u t' u' ⟨i, ht, hu⟩ ⟨j, ht', hu'⟩
    constructor
    · rintro rfl
      obtain rfl := Diagram.number_unique hts ht ht'
      exact Option.some.inj (hu.symm.trans hu')
    · rintro rfl
      obtain rfl := Diagram.number_unique hus hu hu'
      exact Option.some.inj (ht.symm.trans ht')

end Token

/-- Building begins in states that are alike. -/
theorem Builder.abreast_ofText {source source' : Text} {read read' : List Token}
    {mark mark' : Token.EndMark} (hs : Token.stream source = (read, .ok mark))
    (hs' : Token.stream source' = (read', .ok mark')) (length : read.length = read'.length) :
    Abreast (Token.Corresponds read read') (.ofText source) (.ofText source') where
  graph := rfl
  packages := rfl
  depth := rfl
  pending := .none
  recorded _ _ _ := rfl
  ahead := by
    unfold Builder.ofText Token.Feed.ofText
    rw [hs, hs']
    exact List.forall₂_iff_get.mpr ⟨length, fun i hi hi' =>
      ⟨i, List.getElem?_eq_getElem hi, List.getElem?_eq_getElem hi'⟩⟩
  ending := by
    unfold Builder.ofText Token.Feed.ofText
    rw [hs, hs']
    rfl
  latest _ _ _ := .none

theorem sameResult_parse {source source' : Text} {tokens tokens' : List Token}
    (h : tokenize source = .ok tokens) (h' : tokenize source' = .ok tokens')
    (same : List.Forall₂ Token.SaysSame tokens tokens') :
    Builder.SameResult (parse source) (parse source') := by
  have once := nodup_of_tokenize h
  have once' := nodup_of_tokenize h'
  obtain ⟨read, mark, hs, rfl⟩ := exists_stream_of_tokenize h
  obtain ⟨read', mark', hs', rfl⟩ := exists_stream_of_tokenize h'
  have length : read.length = read'.length := by simpa using same.length_eq
  have front := List.forall₂_take_append _ _ _ same
  rw [← length, List.take_left] at front
  exact (Builder.abreast_ofText hs hs' length).run
    (Token.pairing_of_forall₂ front (List.nodup_append.mp once).1 (List.nodup_append.mp once').1)

/-- Layout and quoting do not count. The texts of the tokens of a text may be
written out again with any gaps that begin with line feeds, and have the same
tokens. Two texts whose tokens agree in kind, names in what they denote and arrows
in how they are written, are the same graph, or refused with errors of one class. -/
theorem layout_and_quoting_invisible :
    (∀ source tokens, tokenize source = .ok tokens → ∀ layout : Token.Layout tokens.length,
      ∃ again, tokenize (layout.write (tokens.map Token.text)) = .ok again ∧
        again.map Token.form = tokens.map Token.form) ∧
    ∀ source source' tokens tokens', tokenize source = .ok tokens →
      tokenize source' = .ok tokens' → List.Forall₂ Token.SaysSame tokens tokens' →
      Builder.SameResult (parse source) (parse source') :=
  ⟨fun _ _ h layout => exists_tokenize_write h layout,
    fun _ _ _ _ h h' same => sameResult_parse h h' same⟩

/-- A name with a direction word in it, a keyword of two words and an arrow that
touches its names are told apart again behind comments. Quotation marks around a
name change neither a graph nor the class of an error. -/
theorem layout_and_quoting_invisible_behind_comments :
    (∃ (source : Text) (tokens again : List Token) (layout : Token.Layout tokens.length),
      source = ("abstract  class A class B.up B.up-up-|>A@enduml A" : String) ∧
      tokenize source = .ok tokens ∧
      layout.write (tokens.map Token.text) =
        ("abstract  class\n ' -\n/' ' '/A\n ' -\n/' ' '/class\n ' -\n/' ' '/B.up" ++
          "\n ' -\n/' ' '/B.up\n ' -\n/' ' '/-up-|>\n ' -\n/' ' '/A" ++
          "\n ' -\n/' ' '/@enduml" : String) ∧
      tokenize (layout.write (tokens.map Token.text)) = .ok again ∧
      again.map Token.form = tokens.map Token.form) ∧
    (∃ (source source' : Text) (g : Graph),
      source = ("class A class B.up B.up-up-|>A" : String) ∧
      source' = ("class \"A\"class \"B.up\"' c\n B.up -up-|> A" : String) ∧
      parse source = .ok g ∧ parse source' = .ok g) ∧
    ∃ (source source' : Text) (e e' : DiagramError),
      source = ("class A A<|--B" : String) ∧ source' = ("class \"A\" \"A\" <|-- \"B\"" : String) ∧
      parse source = .error e ∧ parse source' = .error e' ∧ e.label = e'.label := by
  have same {source source' : Text} (ok : (tokenize source).isOk = true)
      (ok' : (tokenize source').isOk = true) (agree : ∀ ts ∈ (tokenize source).toOption,
        ∀ us ∈ (tokenize source').toOption,
          ts.length = us.length ∧ ∀ p ∈ ts.zip us, p.1.SaysSame p.2) :
      Builder.SameResult (parse source) (parse source') := by
    obtain ⟨ts, ht⟩ := exists_ok_of_isOk ok
    obtain ⟨us, hu⟩ := exists_ok_of_isOk ok'
    obtain ⟨length, pairs⟩ := agree ts (by rw [ht]; rfl) us (by rw [hu]; rfl)
    exact layout_and_quoting_invisible.2 _ _ ts us ht hu
      (List.forall₂_iff_zip.mpr ⟨length, fun hm => pairs _ hm⟩)
  refine ⟨?_, ?_, ?_⟩
  · let source : Text := ("abstract  class A class B.up B.up-up-|>A@enduml A" : String)
    let tokens : List Token := [⟨.declare .abstract, "abstract  class", ⟨1, 1⟩⟩,
      ⟨.name, "A", ⟨1, 17⟩⟩, ⟨.declare .concrete, "class", ⟨1, 19⟩⟩, ⟨.name, "B.up", ⟨1, 25⟩⟩,
      ⟨.name, "B.up", ⟨1, 30⟩⟩, ⟨.arrow .right, "-up-|>", ⟨1, 34⟩⟩, ⟨.name, "A", ⟨1, 40⟩⟩,
      ⟨.finish, "@enduml", ⟨1, 41⟩⟩]
    have ht : tokenize source = .ok tokens := by decide +kernel
    let gap : Text := ("\n ' -\n/' ' '/" : String)
    have written : Token.interleave
        ([] :: List.replicate 7 (("\n ' -\n/' ' '/" : String) : Text))
        (["abstract  class", "A", "class", "B.up", "B.up", "-up-|>", "A", "@enduml"] : List Text) =
        ("abstract  class\n ' -\n/' ' '/A\n ' -\n/' ' '/class\n ' -\n/' ' '/B.up" ++
          "\n ' -\n/' ' '/B.up\n ' -\n/' ' '/-up-|>\n ' -\n/' ' '/A" ++
          "\n ' -\n/' ' '/@enduml" : String) := by decide +kernel
    have feed : Token.Break gap := by
      refine ⟨_, rfl, .blank Text.isBlank_space ?_⟩
      exact @Token.Filler.line (" -" : Text) _ (by decide)
        (@Token.Filler.block (" ' " : Text) _ (by decide) .nil)
    let layout : Token.Layout tokens.length :=
      ⟨[] :: List.replicate 7 gap, rfl, fun _ h => .inl (Option.some.inj h).symm,
        fun g h => by rw [List.eq_of_mem_replicate h]; exact feed⟩
    obtain ⟨again, ha, forms⟩ := layout_and_quoting_invisible.1 source tokens ht layout
    exact ⟨source, tokens, again, layout, rfl, ht, written, ha, forms⟩
  · let source : Text := ("class A class B.up B.up-up-|>A" : String)
    let source' : Text := ("class \"A\"class \"B.up\"' c\n B.up -up-|> A" : String)
    have result : Builder.SameResult (parse source) (parse source') := same (by decide +kernel)
      (by decide +kernel) (by decide +kernel)
    obtain ⟨g, hg⟩ : ∃ g, parse source = .ok g := exists_ok_of_isOk (by decide +kernel)
    rcases result with ⟨g', h, h'⟩ | ⟨e, _, h, _⟩
    · exact ⟨source, source', g', rfl, rfl, h, h'⟩
    · rw [hg] at h; cases h
  · let source : Text := ("class A A<|--B" : String)
    let source' : Text := ("class \"A\" \"A\" <|-- \"B\"" : String)
    have result : Builder.SameResult (parse source) (parse source') := same (by decide +kernel)
      (by decide +kernel) (by decide +kernel)
    have refused : (parse source).isOk = false := by decide +kernel
    rcases result with ⟨g, h, _⟩ | ⟨e, e', h, h', label⟩
    · rw [h] at refused; cases refused
    · exact ⟨source, source', e, e', rfl, rfl, h, h', label⟩

end ClassGraph
