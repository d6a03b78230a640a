import ReductionStepper.Term

/-!
# What a label shows

A label is made of texts and tags. `Labels` says how pieces can be written as a label, and `Spelled`
what is left of it without its tags: a text in which every ampersand begins an entity. Replacing
one kind of entity leaves a text that is spelled with the other kinds, and as the ampersand
itself comes last, no replacement makes an entity that was not written.
-/

namespace ReductionStepper

namespace Markup

/-! ## Writing labels -/

/-- A tag: an ASCII letter or a slash, and what stands between it and the closing bracket. -/
structure Tag where
  first : Char
  rest : List Char
  first_opens : first.isAlpha = true ∨ first = '/'
  not_mem_rest : '>' ∉ rest

/-- A tag as it is written. -/
def Tag.written (tag : Tag) : List Char := '<' :: tag.first :: tag.rest ++ ['>']

/-- A piece of a label. -/
inductive Piece where
  | text (content : List Char)
  | tag (tag : Tag)

/-- What is to be seen of a piece. -/
def Piece.shown : Piece → List Char
  | .text content => content
  | .tag _ => []

/-- How a character of a text may be written before the rest of the label. -/
inductive Writes (rest : List Char) : Char → List Char → Prop where
  | ampersand : Writes rest '&' ['&', 'a', 'm', 'p', ';']
  | less : Writes rest '<' ['&', 'l', 't', ';']
  /-- A `<` that cannot be taken for the start of a tag. -/
  | operator (hrest : ∀ c, rest.head? = some c → c.isAlpha = false ∧ c ≠ '/') :
      Writes rest '<' ['<']
  | greater : Writes rest '>' ['&', 'g', 't', ';']
  | quote : Writes rest '"' ['&', 'q', 'u', 'o', 't', ';']
  | apostrophe : Writes rest '\'' ['&', '#', '3', '9', ';']
  | itself {c : Char} (hampersand : c ≠ '&') (hless : c ≠ '<') : Writes rest c [c]

/-- How pieces may be written as a label. -/
inductive Labels : List Piece → List Char → Prop where
  | nil : Labels [] []
  | tag {pieces : List Piece} {label : List Char} (tag : Tag) (h : Labels pieces label) :
      Labels (.tag tag :: pieces) (tag.written ++ label)
  | done {pieces : List Piece} {label : List Char} (h : Labels pieces label) :
      Labels (.text [] :: pieces) label
  | char {c : Char} {written content label : List Char} {pieces : List Piece}
      (hwrites : Writes label c written) (h : Labels (.text content :: pieces) label) :
      Labels (.text (c :: content) :: pieces) (written ++ label)

/-! ## Spelling with entities -/

/-- How a text is written with entities. An ampersand stands for itself only if there are none. -/
inductive Spelled (entities : List (List Char × Char)) : List Char → List Char → Prop where
  | nil : Spelled entities [] []
  | entity {entity text written : List Char} {c : Char} (hentity : (entity, c) ∈ entities)
      (h : Spelled entities text written) : Spelled entities (c :: text) (entity ++ written)
  | itself {text written : List Char} {c : Char} (hc : c = '&' → entities = [])
      (h : Spelled entities text written) : Spelled entities (c :: text) (c :: written)

/-- Entities that can be replaced one kind after the other: the ampersand at its start is the only
one in an entity, no entity can be taken for a later one, and that of the ampersand comes last. -/
structure Replaceable (entities : List (List Char × Char)) : Prop where
  ampersand : ∀ entity ∈ entities, ∃ name, entity.1 = '&' :: name ∧ '&' ∉ name
  apart : entities.Pairwise fun entity later =>
    entity.2 ≠ '&' ∧ ∀ rest, ¬entity.1 <+: later.1 ++ rest

private theorem replaceable_entities : Replaceable entities where
  ampersand := by simp [entities]
  apart := by simp [entities]

variable {entities : List (List Char × Char)} {text written label passed rest name : List Char}
  {pieces : List Piece} {c : Char}

/-- Without entities a text is written as it is. -/
theorem Spelled.eq (h : Spelled [] text written) : written = text := by
  induction h with
  | nil => rfl
  | entity hentity => cases hentity
  | itself _ _ ih => rw [ih]

/-! ## Replacing entities -/

private theorem replaceEntity_length (entity : List Char) (c : Char) (passed rest : List Char) :
    replaceEntity entity c passed.length (passed ++ rest) = replaceEntity entity c 0 rest := by
  induction passed with
  | nil => rfl
  | cons d passed ih => exact ih

/-- An entity at the start is replaced. -/
theorem replaceEntity_self :
    replaceEntity ('&' :: name) c 0 ('&' :: name ++ rest) =
      c :: replaceEntity ('&' :: name) c 0 rest := by
  have hprefix : ('&' :: name).isPrefixOf ('&' :: (name ++ rest)) = true :=
    List.isPrefixOf_iff_prefix.mpr ⟨rest, rfl⟩
  rw [List.cons_append, replaceEntity, if_pos hprefix]
  exact congrArg (c :: ·) (replaceEntity_length _ c name rest)

/-- A character that begins no entity is passed over. -/
theorem replaceEntity_cons {d : Char} (h : ¬ '&' :: name <+: d :: rest) :
    replaceEntity ('&' :: name) c 0 (d :: rest) =
      d :: replaceEntity ('&' :: name) c 0 rest := by
  rw [replaceEntity, if_neg (mt List.isPrefixOf_iff_prefix.mp h)]

/-- Characters other than the ampersand are passed over. -/
theorem replaceEntity_append (h : '&' ∉ passed) :
    replaceEntity ('&' :: name) c 0 (passed ++ rest) =
      passed ++ replaceEntity ('&' :: name) c 0 rest := by
  induction passed with
  | nil => rfl
  | cons d passed ih =>
    rw [List.mem_cons, not_or] at h
    rw [List.cons_append, replaceEntity_cons, ih h.2, List.cons_append]
    exact fun hprefix => h.1 (List.cons_prefix_cons.mp hprefix).1

/-- An entity of another kind is passed over. -/
theorem replaceEntity_other {other : List Char} (hother : '&' ∉ other)
    (h : ¬ '&' :: name <+: '&' :: other ++ rest) :
    replaceEntity ('&' :: name) c 0 ('&' :: other ++ rest) =
      '&' :: other ++ replaceEntity ('&' :: name) c 0 rest := by
  rw [List.cons_append] at h ⊢
  rw [replaceEntity_cons h, replaceEntity_append hother, List.cons_append]

/-- Replacing the first kind of entity leaves a text that is spelled with the others. -/
theorem Spelled.replaceEntity {entity : List Char}
    (h : Spelled ((entity, c) :: entities) text written)
    (hentities : Replaceable ((entity, c) :: entities)) :
    Spelled entities text (replaceEntity entity c 0 written) := by
  obtain ⟨name, rfl, -⟩ := hentities.ampersand _ List.mem_cons_self
  have hapart := (List.pairwise_cons.mp hentities.apart).1
  induction h with
  | nil => exact .nil
  | @entity found text written d hfound _ ih =>
    rcases List.mem_cons.mp hfound with heq | hlater
    · cases heq
      rw [replaceEntity_self]
      refine .itself ?_ ih
      rintro rfl
      exact List.eq_nil_iff_forall_not_mem.mpr fun later hlater => (hapart later hlater).1 rfl
    · obtain ⟨other, rfl, hother⟩ := hentities.ampersand _ hfound
      rw [replaceEntity_other hother ((hapart _ hlater).2 written)]
      exact .entity hlater ih
  | itself hd _ ih =>
    have hne : _ ≠ '&' := fun heq => List.cons_ne_nil _ _ (hd heq)
    rw [replaceEntity_cons fun hprefix => hne (List.cons_prefix_cons.mp hprefix).1.symm]
    exact .itself (fun heq => absurd heq hne) ih

/-- Replacing all kinds of entities gives the text. -/
theorem Spelled.foldl_replaceEntity (h : Spelled entities text written)
    (hentities : Replaceable entities) :
    entities.foldl (fun text (kind, c) => Markup.replaceEntity kind c 0 text) written =
      text := by
  induction entities generalizing written with
  | nil => exact h.eq
  | cons entity later ih =>
    exact ih (h.replaceEntity hentities)
      ⟨fun found hfound => hentities.ampersand found (List.mem_cons_of_mem _ hfound),
        (List.pairwise_cons.mp hentities.apart).2⟩

/-- Entities are decoded exactly once. -/
theorem Spelled.decodeEntities_eq (h : Spelled Markup.entities text written) :
    decodeEntities written = text :=
  h.foldl_replaceEntity replaceable_entities

/-! ## Removing tags -/

private theorem withoutTags_append (h : '<' ∉ passed) :
    withoutTags false (passed ++ rest) = passed ++ withoutTags false rest := by
  induction passed with
  | nil => rfl
  | cons c passed ih =>
    rw [List.mem_cons, not_or] at h
    have hc : c ≠ '<' := Ne.symm h.1
    rw [List.cons_append, withoutTags, if_neg Bool.false_ne_true, if_neg (by simp [hc]), ih h.2,
      List.cons_append]

/-- Inside a tag all is passed over until the closing bracket. -/
theorem withoutTags_true (h : '>' ∉ passed) :
    withoutTags true (passed ++ '>' :: rest) = withoutTags false rest := by
  induction passed with
  | nil => rfl
  | cons c passed ih =>
    rw [List.mem_cons, not_or] at h
    have hc : decide (c ≠ '>') = true := decide_eq_true (Ne.symm h.1)
    rw [List.cons_append, withoutTags, if_pos rfl, hc, ih h.2]

private theorem withoutTags_written (tag : Tag) (rest : List Char) :
    withoutTags false (tag.written ++ rest) = withoutTags false rest := by
  have hopens (later : List Char) : opensTag (tag.first :: later) = true := by
    simpa [opensTag] using tag.first_opens
  have hfirst : '>' ∉ tag.first :: tag.rest := by
    rw [List.mem_cons, not_or]
    refine ⟨fun heq => ?_, tag.not_mem_rest⟩
    have hnot : ¬('>'.isAlpha = true ∨ '>' = '/') := by decide
    exact hnot (heq ▸ tag.first_opens)
  rw [Tag.written, List.append_assoc, List.cons_append, List.cons_append, withoutTags,
    if_neg Bool.false_ne_true, hopens, ← List.cons_append]
  exact withoutTags_true hfirst

/-- Removing tags leaves a character as it was written. -/
theorem Writes.spelled (hwrites : Writes label c written)
    (h : Spelled Markup.entities text (withoutTags false label)) :
    Spelled Markup.entities (c :: text) (withoutTags false (written ++ label)) := by
  cases hwrites with
  | operator hrest =>
    have hopens : opensTag label = false := by
      cases label with
      | nil => rfl
      | cons next later => simpa [opensTag] using hrest next rfl
    rw [List.singleton_append, withoutTags, if_neg Bool.false_ne_true, hopens]
    exact .itself (by decide) h
  | itself hampersand hless =>
    rw [withoutTags_append (by simpa using hless.symm)]
    exact .itself (fun heq => absurd heq hampersand) h
  | ampersand | less | greater | quote | apostrophe =>
    rw [withoutTags_append (by decide)]
    exact .entity (by decide) h

/-- Without its tags a label spells what its pieces show. -/
theorem Labels.spelled (h : Labels pieces label) :
    Spelled Markup.entities (pieces.flatMap Piece.shown) (withoutTags false label) := by
  induction h with
  | nil => exact .nil
  | tag tag _ ih =>
    rw [withoutTags_written]
    exact ih
  | done _ ih => exact ih
  | char hwrites _ ih => exact hwrites.spelled ih

end Markup

open Markup

/-- A label shows the texts that it is written for and nothing else: tags go, comparison operators
stay, and what is written as an entity is read once, so a text that itself looks like an entity is
shown as it is. -/
theorem Term.plainLabel_eq_shown {term : Term} {pieces : List Piece}
    (h : Labels pieces term.label.toList) :
    term.plainLabel.toList = pieces.flatMap Piece.shown := by
  rw [plainLabel, plain, String.toList_ofList, h.spelled.decodeEntities_eq]

/-- A comparison operator stands before a tag, and behind the tag a text that looks like an
entity. -/
theorem Term.plainLabel_eq_shown_lookalike :
    let bold : Tag := ⟨'b', [], by decide, by decide⟩
    let thin : Tag := ⟨'/', ['b'], by decide, by decide⟩
    let pieces : List Piece := [.tag bold, .text ['<'], .tag thin, .text ['&', 'l', 't', ';']]
    let term : Term := ⟨⟨"t", by decide⟩, "<b><</b>&amp;lt;", none⟩
    Labels pieces term.label.toList ∧ term.plainLabel.toList = ['<', '&', 'l', 't', ';'] := by
  intro bold thin pieces term
  have hitself {c : Char} {content label : List Char} (hc : c ≠ '&' ∧ c ≠ '<')
      (h : Labels [.text content] label) : Labels [.text (c :: content)] (c :: label) :=
    .char (.itself hc.1 hc.2) h
  have hlookalike : Labels [.text ['&', 'l', 't', ';']] ['&', 'a', 'm', 'p', ';', 'l', 't', ';'] :=
    .char .ampersand (hitself (by decide) (hitself (by decide) (hitself (by decide) (.done .nil))))
  have hlabel : term.label.toList =
      bold.written ++ (['<'] ++ (thin.written ++ ['&', 'a', 'm', 'p', ';', 'l', 't', ';'])) := by
    decide +kernel
  have hlabels : Labels pieces term.label.toList := by
    rw [hlabel]
    refine .tag bold (.char (.operator ?_) (.done (.tag thin hlookalike)))
    intro c hc
    obtain rfl : '<' = c := Option.some.inj hc
    decide
  exact ⟨hlabels, (plainLabel_eq_shown hlabels).trans rfl⟩

end ReductionStepper
