import ClassGraph.Proofs.Grammar
import ClassGraph.Proofs.Writing

/-! # A diagram within a package

When a diagram is put between the braces of a package, each of its tokens stands
three numbers further. If its own braces match, the package stays the outermost
frame up to the last brace, so every declaration gets one more frame around it.
Nothing else changes. A keyword at the front finds a brace behind it instead of
nothing, neither of which is a name, and what names denote does not depend on
frames.
-/

namespace ClassGraph

theorem Token.value_of_form {t u : Token} (h : t.form = u.form) : t.value = u.value := by
  unfold Token.value
  rw [show t.kind = u.kind from congrArg Prod.fst h, show t.text = u.text from congrArg Prod.snd h]

namespace Diagram

open Token

/-! ## Braces that match -/

def opens (d : Diagram) (k : Nat) : Nat := (d.take k).countP (·.kind = .openBrace)

def closes (d : Diagram) (k : Nat) : Nat := (d.take k).countP (·.kind = .closeBrace)

/-- At no token there are more close braces than open ones, and there are as many
in the end. -/
structure Balanced (d : Diagram) : Prop where
  covered : ∀ k ≤ d.length, d.closes k ≤ d.opens k
  closed : d.closes d.length = d.opens d.length

/-- Every close brace ends a frame, and no frame is left open. -/
structure Matched (d : Diagram) : Prop where
  opened : ∀ k t, d[k]? = some t → t.kind = .closeBrace → d.openFrames k ≠ []
  closed : d.openFrames d.length = []

variable {d : Diagram} {k : Nat} {t : Token}

theorem opens_succ (ht : d[k]? = some t) :
    d.opens (k + 1) = d.opens k + if t.kind = .openBrace then 1 else 0 := by
  unfold opens
  rw [List.take_add_one, ht, Option.toList_some, List.countP_append, List.countP_singleton]
  simp only [decide_eq_true_eq]

theorem closes_succ (ht : d[k]? = some t) :
    d.closes (k + 1) = d.closes k + if t.kind = .closeBrace then 1 else 0 := by
  unfold closes
  rw [List.take_add_one, ht, Option.toList_some, List.countP_append, List.countP_singleton]
  simp only [decide_eq_true_eq]

/-- Frames are counted by the braces as long as no close brace is stray. -/
theorem Balanced.length_openFrames (h : d.Balanced) (hk : k ≤ d.length) :
    (d.openFrames k).length + d.closes k = d.opens k := by
  induction k with
  | zero => rfl
  | succ k ih =>
    have ih := ih (Nat.le_of_succ_le hk)
    have ht := List.getElem?_eq_getElem hk
    have covered := h.covered (k + 1) hk
    rw [opens_succ ht, closes_succ ht] at covered ⊢
    by_cases opening : d[k].kind = .openBrace
    · rw [openFrames_succ_of_openBrace ht opening, List.length_cons, opening, if_pos rfl,
        if_neg (by decide)]
      omega
    · by_cases closing : d[k].kind = .closeBrace
      · rw [closing, if_pos rfl, if_neg (by decide)] at covered ⊢
        rw [openFrames_succ_of_closeBrace ht closing, List.length_tail]
        omega
      · rw [openFrames_succ ht opening closing, if_neg opening, if_neg closing]
        exact ih

theorem Balanced.matched (h : d.Balanced) : d.Matched where
  opened k t ht kind empty := by
    have hk := (List.getElem?_eq_some_iff.mp ht).1
    have length := h.length_openFrames (Nat.le_of_lt hk)
    have covered := h.covered (k + 1) hk
    rw [opens_succ ht, closes_succ ht, kind, if_pos rfl, if_neg (by decide)] at covered
    rw [empty, List.length_nil] at length
    omega
  closed := by
    have length := h.length_openFrames (Nat.le_refl d.length)
    rw [h.closed] at length
    exact List.length_eq_zero_iff.mp (by omega)

/-! ## Sites -/

/-- A declaration with all frames around it. -/
structure Site where
  kind : EntityKind
  name : Text
  frames : List Frame

def Site.declaration (s : Site) : Declaration := ⟨s.kind, s.name, Frame.path s.frames⟩

/-- The site within more frames. -/
def Site.within (outer : List Frame) (s : Site) : Site := { s with frames := s.frames ++ outer }

def siteAt (d : Diagram) (k : Nat) : Option Site :=
  match d.kindAt k, d[k + 1]? with
  | some (.declare kind), some name => some ⟨kind, name.value, d.openFrames k⟩
  | _, _ => none

def sitesBefore (d : Diagram) (k : Nat) : List Site := (List.range k).filterMap d.siteAt

def sites (d : Diagram) : List Site := d.sitesBefore d.length

theorem sitesBefore_succ (d : Diagram) (k : Nat) :
    d.sitesBefore (k + 1) = d.sitesBefore k ++ (d.siteAt k).toList := by
  unfold sitesBefore
  rw [List.range_succ, List.filterMap_append]
  cases h : d.siteAt k <;> simp [h]

theorem declarationAt_eq_map (d : Diagram) (k : Nat) :
    d.declarationAt k = (d.siteAt k).map Site.declaration := by
  unfold declarationAt siteAt
  generalize d.kindAt k = kind
  generalize d[k + 1]? = name
  match kind, name with
  | none, _ => rfl
  | some kind, none => cases kind <;> rfl
  | some kind, some name => cases kind <;> rfl

theorem declarationsBefore_eq_map (d : Diagram) (k : Nat) :
    d.declarationsBefore k = (d.sitesBefore k).map Site.declaration := by
  unfold declarationsBefore sitesBefore
  rw [List.map_filterMap]
  exact congrArg (List.filterMap · _) (funext d.declarationAt_eq_map)

theorem frames_of_siteAt {s : Site} (h : d.siteAt k = some s) : s.frames = d.openFrames k := by
  unfold siteAt at h
  split at h
  · cases h
    rfl
  · cases h

theorem siteAt_eq_none (ht : d[k]? = some t) (hk : t.kind.isClassLike = false) :
    d.siteAt k = none := by
  have none := declarationAt_eq_none ht hk
  rwa [declarationAt_eq_map, Option.map_eq_none_iff] at none

/-- A name denotes the first site under it. -/
theorem entityNamed_eq (d : Diagram) (k : Nat) (name : Text) :
    d.entityNamed k name = (d.sitesBefore k).findIdx? fun s => s.name == name := by
  unfold entityNamed
  rw [declarationsBefore_eq_map, List.findIdx?_map]
  rfl

theorem length_declarationsBefore (d : Diagram) (k : Nat) :
    (d.declarationsBefore k).length = (d.sitesBefore k).length := by
  rw [declarationsBefore_eq_map, List.length_map]

/-- Every site is that of one token. -/
theorem exists_siteAt {i : Nat} {s : Site} (h : (d.sitesBefore k)[i]? = some s) :
    ∃ j, d.siteAt j = some s ∧ (d.sitesBefore j).length = i := by
  induction k with
  | zero => cases h
  | succ k ih =>
    rw [sitesBefore_succ, List.getElem?_append] at h
    split at h
    · exact ih h
    · cases hs : d.siteAt k with
      | none => rw [hs] at h; cases h
      | some site =>
        rw [hs, Option.toList_some, List.getElem?_singleton] at h
        split at h
        · cases h
          exact ⟨k, hs, by omega⟩
        · cases h

/-! ## Names count by what they denote -/

theorem ownSubjectAt_eq_elim (d : Diagram) (k : Nat) : d.ownSubjectAt k =
    ((d.nameBefore k).map Token.value).elim (d.lastDeclared k) (d.entityNamed k) := by
  rw [ownSubjectAt]
  cases d.nameBefore k with
  | none => rfl
  | some name => rfl

theorem edgeAt_keyword_eq {relation : Relation} (ht : d[k]? = some t)
    (hk : t.kind = .relate relation) : d.edgeAt k =
      (d.subjectAt k).bind fun child => ((d.nameAt (k + 1)).map Token.value).bind fun name =>
        (d.entityNamed k name).map fun target => ⟨child, relation, target⟩ := by
  apply Option.ext
  intro e
  rw [edgeAt_keyword ht hk]
  simp only [Option.bind_eq_some_iff, Option.map_eq_some_iff]
  constructor
  · rintro ⟨child, operand, target, hs, hn, hr, rfl⟩
    exact ⟨child, hs, _, ⟨operand, hn, rfl⟩, target, hr, rfl⟩
  · rintro ⟨child, hs, _, ⟨operand, hn, rfl⟩, target, hr, rfl⟩
    exact ⟨child, operand, target, hs, hn, hr, rfl⟩

theorem edgeAt_arrow_eq {side : Side} (ht : d[k]? = some t) (hk : t.kind = .arrow side) :
    d.edgeAt k = (Arrow.family side t.text).relation?.bind fun relation =>
      (((d.nameBefore k).map Token.value).bind (d.entityNamed k)).bind fun before =>
        (((d.nameAt (k + 1)).map Token.value).bind (d.entityNamed k)).map fun after =>
          .drawn side relation before after := by
  apply Option.ext
  intro e
  rw [edgeAt_arrow ht hk]
  simp only [Option.bind_eq_some_iff, Option.map_eq_some_iff]
  constructor
  · rintro ⟨relation, left, before, right, after, hf, hl, hb, hr, ha, rfl⟩
    exact ⟨relation, hf, before, ⟨_, ⟨left, hl, rfl⟩, hb⟩, after, ⟨_, ⟨right, hr, rfl⟩, ha⟩, rfl⟩
  · rintro ⟨relation, hf, before, ⟨_, ⟨left, hl, rfl⟩, hb⟩, after, ⟨_, ⟨right, hr, rfl⟩, ha⟩, rfl⟩
    exact ⟨relation, left, before, right, after, hf, hl, hb, hr, ha, rfl⟩

/-! ## Within a package -/

/-- The tokens of a diagram, put between the braces of a package. -/
def Encloses (name : Text) (d d' : Diagram) : Prop :=
  d'.map form = packaging :: naming name :: opening :: (d.map form ++ [closing])

theorem exists_operands {lead : Option Token} {word name : Token} {ts us : List Token}
    (forms : us.map form = (lead.toList ++ word :: name :: ts).map form) :
    ∃ (lead' : Option Token) (u v : Token) (vs : List Token), us = lead'.toList ++ u :: v :: vs ∧
      lead'.map form = lead.map form ∧ u.form = word.form ∧ v.form = name.form ∧
      vs.map form = ts.map form := by
  rw [List.map_append] at forms
  obtain ⟨front, rest, rfl, hl, behind⟩ := List.map_eq_append_iff.mp forms
  obtain ⟨u, rest, rfl, hu, behind⟩ := List.map_eq_cons_iff.mp behind
  obtain ⟨v, vs, rfl, hv, behind⟩ := List.map_eq_cons_iff.mp behind
  cases lead with
  | none => exact ⟨none, u, v, vs, by rw [List.map_eq_nil_iff.mp hl]; rfl, rfl, hu, hv, behind⟩
  | some t =>
    obtain ⟨w, rfl, hw⟩ := List.map_eq_singleton_iff.mp hl
    exact ⟨some w, u, v, vs, rfl, congrArg some hw, hu, hv, behind⟩

theorem named_of_form {lead lead' : Option Token} (hl : lead'.map form = lead.map form)
    (named : ∀ t ∈ lead, t.kind = .name) : ∀ t ∈ lead', t.kind = .name := by
  rintro t ⟨⟩
  obtain ⟨u, rfl, hu⟩ := Option.map_eq_some_iff.mp hl.symm
  exact (kind_of_form hu).symm.trans (named u rfl)

/-- Items are split off without regard to where the tokens stand, and a close
brace may follow them. -/
theorem Items.enclosed {previous previous' : Option Token} {ts us : List Token} {close : Token}
    (h : Items previous ts) (forms : us.map form = ts.map form) (kind : close.kind = .closeBrace)
    (behind : ∀ t ∈ previous, t.kind = .name → ∃ u ∈ previous', u.kind = .name) :
    Items previous' (us ++ [close]) := by
  have named {t u : Token} (hf : u.form = t.form) : ∀ v ∈ some t, v.kind = .name →
      ∃ w ∈ some u, w.kind = .name := by
    rintro v ⟨⟩ hk
    exact ⟨u, rfl, (kind_of_form hf).trans hk⟩
  induction h generalizing previous' us with
  | nil =>
    rw [List.map_eq_nil_iff.mp forms]
    exact .brace (.inr kind) .nil
  | start kind _ ih =>
    obtain ⟨u, us, rfl, hf, forms⟩ := List.map_eq_cons_iff.mp forms
    exact .start ((kind_of_form hf).trans kind) (ih forms (named hf))
  | brace kind _ ih =>
    obtain ⟨u, us, rfl, hf, forms⟩ := List.map_eq_cons_iff.mp forms
    exact .brace (by rw [kind_of_form hf]; exact kind) (ih forms (named hf))
  | declaration kind name_kind _ ih =>
    obtain ⟨u, us, rfl, hf, forms⟩ := List.map_eq_cons_iff.mp forms
    obtain ⟨v, us, rfl, hv, forms⟩ := List.map_eq_cons_iff.mp forms
    exact .declaration ((kind_of_form hf).trans kind) ((kind_of_form hv).trans name_kind)
      (ih forms (named hv))
  | package kind name_kind brace_kind _ ih =>
    obtain ⟨u, us, rfl, hf, forms⟩ := List.map_eq_cons_iff.mp forms
    obtain ⟨v, us, rfl, hv, forms⟩ := List.map_eq_cons_iff.mp forms
    obtain ⟨w, us, rfl, hw, forms⟩ := List.map_eq_cons_iff.mp forms
    exact .package ((kind_of_form hf).trans kind) ((kind_of_form hv).trans name_kind)
      ((kind_of_form hw).trans brace_kind) (ih forms (named hw))
  | keyword lead_kind kind name_kind _ ih =>
    obtain ⟨lead, u, v, us, rfl, hl, hf, hv, forms⟩ := exists_operands forms
    rw [List.append_assoc]
    exact .keyword (named_of_form hl lead_kind) ((kind_of_form hf).trans kind)
      ((kind_of_form hv).trans name_kind) (ih forms (named hv))
  | arrow lead_kind kind before left_kind name_kind _ ih =>
    obtain ⟨lead, u, v, us, rfl, hl, hf, hv, forms⟩ := exists_operands forms
    have own := named_of_form hl lead_kind
    have first : ∃ w, lead.or previous' = some w ∧ w.kind = .name := by
      cases lead with
      | none =>
        rw [Option.map_eq_none_iff.mp hl.symm] at before
        exact behind _ before left_kind
      | some w => exact ⟨w, rfl, own w rfl⟩
    obtain ⟨w, hw, named_w⟩ := first
    rw [List.append_assoc]
    exact .arrow own ((kind_of_form hf).trans kind) hw named_w ((kind_of_form hv).trans name_kind)
      (ih forms (named hv))

namespace Encloses

variable {d' : Diagram} {name : Text}

theorem form_eq (h : Encloses name d d') (k : Nat) :
    d'[k + 3]?.map form = (d.map form ++ [closing])[k]? := by
  rw [← List.getElem?_map, h]
  rfl

theorem length_eq (h : Encloses name d d') : d'.length = d.length + 4 := by
  have length := congrArg List.length h
  simp only [List.length_map, List.length_cons, List.length_append, List.length_nil] at length
  exact length

theorem keyword (h : Encloses name d d') : ∃ t, d'[0]? = some t ∧ t.form = packaging := by
  rw [← Option.map_eq_some_iff, ← List.getElem?_map, h]
  rfl

theorem title (h : Encloses name d d') : ∃ t, d'[1]? = some t ∧ t.form = naming name := by
  rw [← Option.map_eq_some_iff, ← List.getElem?_map, h]
  rfl

theorem opener (h : Encloses name d d') : ∃ t, d'[2]? = some t ∧ t.form = opening := by
  rw [← Option.map_eq_some_iff, ← List.getElem?_map, h]
  rfl

theorem inner (h : Encloses name d d') (ht : d[k]? = some t) :
    ∃ u, d'[k + 3]? = some u ∧ u.form = t.form := by
  have hk := (List.getElem?_eq_some_iff.mp ht).1
  rw [← Option.map_eq_some_iff, h.form_eq,
    List.getElem?_append_left (by rwa [List.length_map]), List.getElem?_map, ht]
  rfl

theorem closer (h : Encloses name d d') :
    ∃ t, d'[d.length + 3]? = some t ∧ t.form = closing := by
  rw [← Option.map_eq_some_iff, h.form_eq, List.getElem?_append_right (by rw [List.length_map]),
    List.length_map, Nat.sub_self]
  rfl

theorem kindAt_eq (h : Encloses name d d') (ht : d[k]? = some t) :
    d'.kindAt (k + 3) = some t.kind := by
  obtain ⟨u, hu, hf⟩ := h.inner ht
  exact kindAt_eq_some_iff.mpr ⟨u, hu, congrArg Prod.fst hf⟩

/-- The same names stand in the package. The brace behind the diagram is none. -/
theorem nameAt_eq (h : Encloses name d d') (k : Nat) :
    (d'.nameAt (k + 3)).map Token.value = (d.nameAt k).map Token.value := by
  cases ht : d[k]? with
  | some t =>
    obtain ⟨u, hu, hf⟩ := h.inner ht
    have kind : u.kind = t.kind := congrArg Prod.fst hf
    unfold nameAt
    rw [hu, ht]
    by_cases hk : t.kind = .name
    · simp [Option.filter, hk, kind, value_of_form hf]
    · simp [Option.filter, hk, kind]
  | none =>
    have unnamed : d.nameAt k = none := by
      unfold nameAt
      rw [ht]
      rfl
    rw [unnamed, Option.map_none, Option.map_eq_none_iff, Option.eq_none_iff_forall_ne_some]
    intro u hu
    obtain ⟨hu, kind⟩ := nameAt_eq_some_iff.mp hu
    have outside : (d.map form).length ≤ k := by
      rw [List.length_map]
      exact List.getElem?_eq_none_iff.mp ht
    have last := h.form_eq k
    rw [hu, List.getElem?_append_right outside, List.getElem?_singleton] at last
    split at last
    · have closes : u.kind = .closeBrace := congrArg Prod.fst (Option.some.inj last)
      rw [kind] at closes
      cases closes
    · cases last

/-- The tokens in front of the diagram declare, relate and close nothing. -/
theorem front (h : Encloses name d d') (hk : k < 3) : ∃ t, d'[k]? = some t ∧
    t.kind.isClassLike = false ∧ t.kind.isRelation = false ∧ t.kind ≠ .closeBrace := by
  obtain ⟨keyword, hw, kf⟩ := h.keyword
  obtain ⟨t, ht, tf⟩ := h.title
  obtain ⟨brace, hb, bf⟩ := h.opener
  match k with
  | 0 => exact ⟨keyword, hw, by rw [kind_of_form kf]; exact ⟨rfl, rfl, nofun⟩⟩
  | 1 => exact ⟨t, ht, by rw [kind_of_form tf]; exact ⟨rfl, rfl, nofun⟩⟩
  | 2 => exact ⟨brace, hb, by rw [kind_of_form bf]; exact ⟨rfl, rfl, nofun⟩⟩

theorem siteAt_front (h : Encloses name d d') (hk : k < 3) : d'.siteAt k = none := by
  obtain ⟨t, ht, silent, _⟩ := h.front hk
  exact siteAt_eq_none ht silent

theorem edgeAt_front (h : Encloses name d d') (hk : k < 3) : d'.edgeAt k = none := by
  obtain ⟨t, ht, _, silent, _⟩ := h.front hk
  exact edgeAt_eq_none ht silent

/-! ## Frames -/

theorem kind_title (h : Encloses name d d') : d'.kindAt 1 = some .name := by
  obtain ⟨t, ht, hf⟩ := h.title
  exact kindAt_eq_some_iff.mpr ⟨t, ht, congrArg Prod.fst hf⟩

theorem kind_opener (h : Encloses name d d') : d'.kindAt 2 = some .openBrace := by
  obtain ⟨t, ht, hf⟩ := h.opener
  exact kindAt_eq_some_iff.mpr ⟨t, ht, congrArg Prod.fst hf⟩

theorem frameAt_eq (h : Encloses name d d') (hk : k < d.length) :
    d'.frameAt (k + 3) = d.frameAt k := by
  match k with
  | 0 => rw [frameAt, h.kind_title]; rfl
  | 1 => rw [frameAt, h.kind_opener]; rfl
  | j + 2 =>
    have ht := List.getElem?_eq_getElem (show j < d.length by omega)
    have names := h.nameAt_eq (j + 1)
    rw [show j + 2 + 3 = j + 3 + 2 from rfl, frameAt, frameAt, h.kindAt_eq ht,
      kindAt_eq_some_iff.mpr ⟨_, ht, rfl⟩, show j + 3 + 1 = j + 1 + 3 from rfl]
    generalize d[j].kind = kind
    generalize d'.nameAt (j + 1 + 3) = x at names ⊢
    generalize d.nameAt (j + 1) = y at names ⊢
    cases x with
    | none => rw [Option.map_eq_none_iff.mp names.symm]
    | some a =>
      obtain ⟨b, rfl, value⟩ := Option.map_eq_some_iff.mp names.symm
      cases kind with
      | package => exact congrArg Frame.package value.symm
      | _ => rfl

theorem openFrames_front (h : Encloses name d d') : d'.openFrames 3 = [.package name] := by
  obtain ⟨keyword, hk, kf⟩ := h.keyword
  obtain ⟨t, ht, tf⟩ := h.title
  obtain ⟨brace, hb, bf⟩ := h.opener
  have kind : keyword.kind = .package := kind_of_form kf
  have named : t.kind = .name := kind_of_form tf
  have first : d'.openFrames 1 = [] := openFrames_succ hk (by rw [kind]; decide)
    (by rw [kind]; decide)
  have second : d'.openFrames 2 = [] :=
    (openFrames_succ ht (by rw [named]; decide) (by rw [named]; decide)).trans first
  rw [openFrames_succ_of_openBrace hb (kind_of_form bf), second,
    frameAt_eq_package hk kind (nameAt_eq_some_iff.mpr ⟨ht, named⟩), value_of_naming tf]

/-- The package stays the outermost frame. -/
theorem openFrames_eq (h : Encloses name d d') (matched : d.Matched) (hk : k ≤ d.length) :
    d'.openFrames (k + 3) = d.openFrames k ++ [.package name] := by
  induction k with
  | zero => exact h.openFrames_front
  | succ k ih =>
    have ih := ih (Nat.le_of_succ_le hk)
    have ht := List.getElem?_eq_getElem hk
    obtain ⟨u, hu, hf⟩ := h.inner ht
    have kind : u.kind = d[k].kind := congrArg Prod.fst hf
    rw [Nat.add_right_comm]
    by_cases opens : d[k].kind = .openBrace
    · rw [openFrames_succ_of_openBrace hu (kind.trans opens),
        openFrames_succ_of_openBrace ht opens, ih, h.frameAt_eq hk, List.cons_append]
    · by_cases closes : d[k].kind = .closeBrace
      · rw [openFrames_succ_of_closeBrace hu (kind.trans closes),
          openFrames_succ_of_closeBrace ht closes, ih,
          List.tail_append_of_ne_nil (matched.opened k _ ht closes)]
      · rw [openFrames_succ hu (kind ▸ opens) (kind ▸ closes), openFrames_succ ht opens closes, ih]

theorem openFrames_last (h : Encloses name d d') (matched : d.Matched) :
    d'.openFrames d'.length = [] := by
  obtain ⟨t, ht, hf⟩ := h.closer
  rw [h.length_eq, openFrames_succ_of_closeBrace ht (kind_of_form hf),
    h.openFrames_eq matched (Nat.le_refl _), matched.closed]
  rfl

/-! ## Declarations -/

theorem siteAt_eq (h : Encloses name d d') (matched : d.Matched) (said : d.SaysAt k)
    (hk : k < d.length) : d'.siteAt (k + 3) = (d.siteAt k).map (.within [.package name]) := by
  have ht := List.getElem?_eq_getElem hk
  by_cases declares : d[k].kind.isClassLike = true
  · obtain ⟨e, he⟩ := (said _ ht).1 declares
    obtain ⟨t, next, hd, kind, hn, _⟩ := declarationAt_eq_some_iff.mp he
    obtain ⟨u, hu, hf⟩ := h.inner hn
    rw [siteAt, siteAt, h.kindAt_eq hd, kindAt_eq_some_iff.mpr ⟨t, hd, rfl⟩, kind, hn,
      show k + 3 + 1 = k + 1 + 3 from rfl, hu, h.openFrames_eq matched (Nat.le_of_lt hk)]
    simp only [value_of_form hf]
    rfl
  · rw [Bool.not_eq_true] at declares
    obtain ⟨u, hu, hf⟩ := h.inner ht
    rw [siteAt_eq_none ht declares, siteAt_eq_none hu (kind_of_form hf ▸ declares)]
    rfl

theorem sitesBefore_eq (h : Encloses name d d') (matched : d.Matched) (said : ∀ k, d.SaysAt k)
    (hk : k ≤ d.length) :
    d'.sitesBefore (k + 3) = (d.sitesBefore k).map (.within [.package name]) := by
  induction k with
  | zero =>
    rw [sitesBefore_succ, sitesBefore_succ, sitesBefore_succ, h.siteAt_front (by decide),
      h.siteAt_front (by decide), h.siteAt_front (by decide)]
    rfl
  | succ k ih =>
    rw [Nat.add_right_comm, d'.sitesBefore_succ, d.sitesBefore_succ, ih (Nat.le_of_succ_le hk),
      h.siteAt_eq matched (said k) hk, List.map_append]
    cases d.siteAt k <;> rfl

theorem sites_eq (h : Encloses name d d') (matched : d.Matched) (said : ∀ k, d.SaysAt k) :
    d'.sites = d.sites.map (.within [.package name]) := by
  obtain ⟨t, ht, hf⟩ := h.closer
  unfold sites
  rw [h.length_eq, sitesBefore_succ, h.sitesBefore_eq matched said (Nat.le_refl _),
    siteAt_eq_none ht (by rw [kind_of_form hf]; rfl), Option.toList_none, List.append_nil]

theorem entityNamed_eq (h : Encloses name d d') (matched : d.Matched) (said : ∀ k, d.SaysAt k)
    (hk : k ≤ d.length) : d'.entityNamed (k + 3) = d.entityNamed k := by
  funext n
  rw [Diagram.entityNamed_eq, Diagram.entityNamed_eq, h.sitesBefore_eq matched said hk,
    List.findIdx?_map]
  rfl

theorem lastDeclared_eq (h : Encloses name d d') (matched : d.Matched) (said : ∀ k, d.SaysAt k)
    (hk : k ≤ d.length) : d'.lastDeclared (k + 3) = d.lastDeclared k := by
  unfold lastDeclared
  rw [length_declarationsBefore, length_declarationsBefore, h.sitesBefore_eq matched said hk,
    List.length_map]

/-! ## Edges -/

theorem nameBefore_eq (h : Encloses name d d') (k : Nat) :
    (d'.nameBefore (k + 3)).map Token.value = (d.nameBefore k).map Token.value := by
  cases k with
  | zero =>
    obtain ⟨t, ht, hf⟩ := h.opener
    change (d'.nameAt 2).map Token.value = none
    rw [Option.map_eq_none_iff, Option.eq_none_iff_forall_ne_some]
    intro u hu
    obtain ⟨hu, kind⟩ := nameAt_eq_some_iff.mp hu
    cases ht.symm.trans hu
    rw [kind_of_form hf] at kind
    cases kind
  | succ k => exact h.nameAt_eq k

theorem exists_nameAt_iff (h : Encloses name d d') (k : Nat) :
    (∃ t, d'.nameAt (k + 3) = some t) ↔ ∃ t, d.nameAt k = some t := by
  rw [← Option.isSome_iff_exists, ← Option.isSome_iff_exists,
    ← Option.isSome_map (f := Token.value), h.nameAt_eq, Option.isSome_map]

theorem isOperandAt_eq (h : Encloses name d d') (hk : k < d.length) :
    d'.isOperandAt (k + 1 + 3) = d.isOperandAt (k + 1) := by
  have ht := List.getElem?_eq_getElem hk
  obtain ⟨u, hu, hf⟩ := h.inner ht
  have names := h.exists_nameAt_iff (k + 1)
  rw [Bool.eq_iff_iff, show k + 1 + 3 = k + 3 + 1 from rfl, isOperandAt_succ_iff,
    isOperandAt_succ_iff, hu, ht]
  constructor
  · rintro ⟨_, relation, t, ⟨⟩, kind, hn⟩
    obtain ⟨v, hv⟩ := names.mp ⟨t, hn⟩
    exact ⟨_, relation, v, rfl, (kind_of_form hf).symm.trans kind, hv⟩
  · rintro ⟨_, relation, t, ⟨⟩, kind, hn⟩
    obtain ⟨v, hv⟩ := names.mpr ⟨t, hn⟩
    exact ⟨_, relation, v, rfl, (kind_of_form hf).trans kind, hv⟩

theorem ownSubjectAt_eq (h : Encloses name d d') (matched : d.Matched) (said : ∀ k, d.SaysAt k)
    (hk : k ≤ d.length) : d'.ownSubjectAt (k + 3) = d.ownSubjectAt k := by
  rw [ownSubjectAt_eq_elim, ownSubjectAt_eq_elim, h.nameBefore_eq,
    h.entityNamed_eq matched said hk, h.lastDeclared_eq matched said hk]

theorem subjectAt_eq (h : Encloses name d d') (matched : d.Matched) (said : ∀ k, d.SaysAt k)
    (hk : k ≤ d.length) : d'.subjectAt (k + 3) = d.subjectAt k := by
  have own := h.ownSubjectAt_eq matched said hk
  fun_induction subjectAt d k with
  | case1 =>
    have front : d'.isOperandAt (1 + 1) = false := by rw [isOperandAt, h.kind_title]
    rw [show 0 + 3 = 1 + 2 from rfl, subjectAt, front, ← own]
    rfl
  | case2 =>
    have front : d'.isOperandAt (2 + 1) = false := by rw [isOperandAt, h.kind_opener]
    rw [show 1 + 3 = 2 + 2 from rfl, subjectAt, front, ← own]
    rfl
  | case3 j chained ih =>
    have operand := (h.isOperandAt_eq (k := j) (by omega)).trans chained
    have le : j ≤ d.length := by omega
    rw [show j + 2 + 3 = j + 3 + 2 from rfl, subjectAt, show j + 3 + 1 = j + 1 + 3 from rfl,
      operand, if_pos rfl]
    exact ih le (h.ownSubjectAt_eq matched said le)
  | case4 j chained =>
    have operand := h.isOperandAt_eq (k := j) (by omega)
    rw [show j + 2 + 3 = j + 3 + 2 from rfl, subjectAt, show j + 3 + 1 = j + 1 + 3 from rfl,
      operand, if_neg chained]
    exact own

theorem edgeAt_eq (h : Encloses name d d') (matched : d.Matched) (said : ∀ k, d.SaysAt k)
    (hk : k < d.length) : d'.edgeAt (k + 3) = d.edgeAt k := by
  have ht := List.getElem?_eq_getElem hk
  obtain ⟨u, hu, hf⟩ := h.inner ht
  have kind : u.kind = d[k].kind := congrArg Prod.fst hf
  have text : u.text = d[k].text := congrArg Prod.snd hf
  have le := Nat.le_of_lt hk
  cases hr : d[k].kind with
  | relate relation =>
    rw [edgeAt_keyword_eq hu (kind.trans hr), edgeAt_keyword_eq ht hr,
      h.subjectAt_eq matched said le, h.entityNamed_eq matched said le,
      show k + 3 + 1 = k + 1 + 3 from rfl, h.nameAt_eq]
  | arrow side =>
    rw [edgeAt_arrow_eq hu (kind.trans hr), edgeAt_arrow_eq ht hr, text, h.nameBefore_eq,
      h.entityNamed_eq matched said le, show k + 3 + 1 = k + 1 + 3 from rfl, h.nameAt_eq]
  | _ =>
    rw [edgeAt_eq_none hu (by rw [kind, hr]; rfl), edgeAt_eq_none ht (by rw [hr]; rfl)]

theorem edgesBefore_eq (h : Encloses name d d') (matched : d.Matched) (said : ∀ k, d.SaysAt k)
    (hk : k ≤ d.length) : d'.edgesBefore (k + 3) = d.edgesBefore k := by
  induction k with
  | zero =>
    rw [edgesBefore_succ, edgesBefore_succ, edgesBefore_succ, h.edgeAt_front (by decide),
      h.edgeAt_front (by decide), h.edgeAt_front (by decide)]
    rfl
  | succ k ih =>
    rw [Nat.add_right_comm, d'.edgesBefore_succ, d.edgesBefore_succ, ih (Nat.le_of_succ_le hk),
      h.edgeAt_eq matched said hk]

theorem edges_eq (h : Encloses name d d') (matched : d.Matched) (said : ∀ k, d.SaysAt k) :
    d'.edges = d.edges := by
  obtain ⟨t, ht, hf⟩ := h.closer
  unfold edges
  rw [h.length_eq, edgesBefore_succ, h.edgesBefore_eq matched said (Nat.le_refl _),
    edgeAt_eq_none ht (by rw [kind_of_form hf]; rfl), Option.toList_none, List.append_nil]

/-! ## What is well formed stays so -/

/-- Where a token stands: in front of the diagram, in it or behind it. -/
theorem place (h : Encloses name d d') (ht : d'[k]? = some t) :
    k < 3 ∨ (∃ j u, k = j + 3 ∧ d[j]? = some u ∧ t.form = u.form) ∨
      k = d.length + 3 ∧ t.form = closing := by
  rcases Nat.lt_or_ge k 3 with early | late
  · exact .inl early
  · obtain ⟨j, rfl⟩ := Nat.exists_eq_add_of_le' late
    have hf := h.form_eq j
    rw [ht, Option.map_some, List.getElem?_append, List.length_map] at hf
    split at hf
    · rename_i hj
      rw [List.getElem?_map, List.getElem?_eq_getElem hj] at hf
      exact .inr (.inl ⟨j, _, rfl, List.getElem?_eq_getElem hj, Option.some.inj hf⟩)
    · obtain ⟨hj, he⟩ := List.getElem?_eq_some_iff.mp hf.symm
      rw [List.length_singleton] at hj
      rw [List.getElem_singleton] at he
      exact .inr (.inr ⟨by omega, he.symm⟩)

theorem matched (h : Encloses name d d') (matched : d.Matched) : d'.Matched where
  opened k t ht kind := by
    rcases h.place ht with early | ⟨j, u, rfl, hu, _⟩ | ⟨rfl, _⟩
    · obtain ⟨u, hu, _, _, opens⟩ := h.front early
      cases ht.symm.trans hu
      exact absurd kind opens
    · rw [h.openFrames_eq matched (Nat.le_of_lt (List.getElem?_eq_some_iff.mp hu).1)]
      exact List.append_ne_nil_of_right_ne_nil _ (List.cons_ne_nil _ _)
    · rw [h.openFrames_eq matched (Nat.le_refl _)]
      exact List.append_ne_nil_of_right_ne_nil _ (List.cons_ne_nil _ _)
  closed := h.openFrames_last matched

theorem saysAt (h : Encloses name d d') (matched : d.Matched) (said : ∀ k, d.SaysAt k) (k : Nat) :
    d'.SaysAt k := by
  intro t ht
  rcases h.place ht with early | ⟨j, u, rfl, hu, hf⟩ | ⟨rfl, hf⟩
  · obtain ⟨u, hu, declares, relates, _⟩ := h.front early
    exact SaysAt.of_silent hu declares relates t ht
  · have hj := (List.getElem?_eq_some_iff.mp hu).1
    rw [declarationAt_eq_map, h.siteAt_eq matched (said j) hj, h.edgeAt_eq matched said hj,
      kind_of_form hf]
    refine ⟨fun declares => ?_, (said j u hu).2⟩
    obtain ⟨e, he⟩ := (said j u hu).1 declares
    rw [declarationAt_eq_map, Option.map_eq_some_iff] at he
    obtain ⟨s, hs, _⟩ := he
    exact ⟨_, by rw [hs]; rfl⟩
  · exact SaysAt.of_silent ht (by rw [kind_of_form hf]; rfl) (by rw [kind_of_form hf]; rfl) t ht

theorem wellFormed (h : Encloses name d d') (matched : d.Matched) (items : Items none d)
    (said : ∀ k, d.SaysAt k) : d'.WellFormed := by
  refine .of_saysAt ?_ (h.saysAt matched said) ?_
  · obtain ⟨keyword, ts, rfl, hk, forms⟩ := List.map_eq_cons_iff.mp h
    obtain ⟨title, ts, rfl, ht, forms⟩ := List.map_eq_cons_iff.mp forms
    obtain ⟨brace, ts, rfl, hb, forms⟩ := List.map_eq_cons_iff.mp forms
    obtain ⟨us, vs, rfl, body, last⟩ := List.map_eq_append_iff.mp forms
    obtain ⟨close, rfl, hc⟩ := List.map_eq_singleton_iff.mp last
    exact .package (kind_of_form hk) (kind_of_form ht) (kind_of_form hb)
      (items.enclosed body (kind_of_form hc) nofun)
  · rw [h.openFrames_last matched]
    exact nofun

end Encloses

end Diagram

end ClassGraph
