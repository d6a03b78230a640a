import Mathlib.Data.List.Nodup
import ReductionStepper.Edge
import ReductionStepper.Proofs.Text.Word

/-!
# The tags of a label

A label has a tag exactly if the tag's name stands in it as a word. Where it stands, how often, and
which other words stand around it make no difference.
-/

namespace ReductionStepper

/-! ## Names of tags -/

namespace Tag

variable {tag : Tag} {word : String}

private theorem mem_all (tag : Tag) : tag ∈ all := by cases tag <;> decide

/-- A word names a tag exactly if it is the tag's name. -/
theorem ofName?_eq_some_iff : ofName? word = some tag ↔ tag.name = word := by
  constructor
  · intro h
    have hname := List.find?_some h
    exact of_decide_eq_true hname
  · rintro rfl
    exact ofName?_name tag

private theorem name_injective : Function.Injective name := fun tag other h =>
  Option.some.inj ((ofName?_name tag).symm.trans (h ▸ ofName?_name other))

private theorem name_ne_nil (tag : Tag) : tag.name.toList ≠ [] := by cases tag <;> decide

private theorem not_blank_of_mem_name (tag : Tag) :
    ∀ c ∈ tag.name.toList, Text.isBlank c = false := by
  have hall : tag.name.toList.all (fun c => !Text.isBlank c) = true := by cases tag <;> decide
  simpa using hall

end Tag

namespace Tags

variable {tag : Tag} {tags : Tags} {list : List Tag} {label : String}

/-! ## Sets and lists of tags -/

private theorem contains_foldl_insert :
    (list.foldl insert tags).contains tag = true ↔ tag ∈ list ∨ tags.contains tag = true := by
  induction list generalizing tags with
  | nil => simp
  | cons first later ih =>
    rw [List.foldl_cons, ih, contains_insert]
    simp only [Bool.or_eq_true, decide_eq_true_eq, List.mem_cons]
    tauto

private theorem contains_ofList_iff : (ofList list).contains tag = true ↔ tag ∈ list := by
  rw [ofList, contains_foldl_insert]
  simp

private theorem mem_toList_iff : tag ∈ tags.toList ↔ tags.contains tag = true := by
  rw [toList, List.mem_filter]
  simp [Tag.mem_all]

/-- Sets are equal if one has the tags of the other. -/
theorem eq_of_contains_iff {others : Tags}
    (h : ∀ tag, tags.contains tag = true ↔ others.contains tag = true) : tags = others :=
  ext_contains fun tag => Bool.eq_iff_iff.mpr (h tag)

/-- A set is given back by the list of its tags. -/
theorem ofList_toList (tags : Tags) : ofList tags.toList = tags :=
  eq_of_contains_iff fun _ => contains_ofList_iff.trans mem_toList_iff

/-! ## Sets of tags and labels -/

/-- A label has the tags that its words name. -/
theorem contains_ofLabel_iff_mem :
    (ofLabel label).contains tag = true ↔ tag.name.toList ∈ Text.wordList label.toList := by
  rw [ofLabel, contains_ofList_iff, List.mem_filterMap, Text.words]
  simp only [Tag.ofName?_eq_some_iff, List.mem_map]
  constructor
  · rintro ⟨_, ⟨word, hword, rfl⟩, hname⟩
    rwa [hname, String.toList_ofList]
  · exact fun h => ⟨tag.name, ⟨_, h, String.ofList_toList⟩, rfl⟩

private theorem contains_ofLabel_iff :
    (ofLabel label).contains tag = true ↔ Text.HasWord label.toList tag.name.toList :=
  contains_ofLabel_iff_mem.trans Text.mem_wordList_iff

/-- Labels with white space between them have the tags of either. -/
theorem contains_ofLabel_append {gap : String} (hne : gap ≠ "")
    (hgap : ∀ c ∈ gap.toList, Text.isBlank c = true) (label other : String) :
    (ofLabel (label ++ gap ++ other)).contains tag = true ↔
      (ofLabel label).contains tag = true ∨ (ofLabel other).contains tag = true := by
  have hgapNe : gap.toList ≠ [] := fun hnil => hne (String.toList_eq_nil_iff.mp hnil)
  simp only [contains_ofLabel_iff_mem, String.toList_append,
    Text.wordList_append_append hgapNe hgap, List.mem_append]

/-- The names of tags with spaces between them make a label with these tags. -/
theorem ofLabel_intercalate (list : List Tag) :
    ofLabel (" ".intercalate (list.map Tag.name)) = ofList list := by
  have hwords : Text.wordList (" ".intercalate (list.map Tag.name)).toList =
      list.map fun tag => tag.name.toList := by
    rw [String.toList_intercalate, List.map_map]
    exact Text.wordList_intercalate (List.forall_mem_map.mpr fun tag _ => tag.name_ne_nil)
      (List.forall_mem_map.mpr fun tag _ => tag.not_blank_of_mem_name)
  have hinj : Function.Injective fun tag : Tag => tag.name.toList :=
    fun _ _ h => Tag.name_injective (String.toList_injective h)
  refine eq_of_contains_iff fun tag => ?_
  rw [contains_ofLabel_iff_mem, hwords, contains_ofList_iff]
  exact List.mem_map_of_injective hinj

/-- What a label says of its edge. It has a tag exactly if the tag's name is one of its words; so
labels have the same tags exactly if they have the same words among the names of tags, whatever
their order, their number and the other words. Labels with white space between them have the tags of
either, and a set of tags is given back by its names with spaces between them, as by the list of its
tags. -/
theorem label_tags_are_words :
    (∀ label tag, (ofLabel label).contains tag = true ↔
      Text.HasWord label.toList tag.name.toList) ∧
    (∀ label other, ofLabel label = ofLabel other ↔ ∀ tag : Tag,
      Text.HasWord label.toList tag.name.toList ↔ Text.HasWord other.toList tag.name.toList) ∧
    (∀ label gap other : String, gap ≠ "" → (∀ c ∈ gap.toList, Text.isBlank c = true) → ∀ tag,
      (ofLabel (label ++ gap ++ other)).contains tag = true ↔
        (ofLabel label).contains tag = true ∨ (ofLabel other).contains tag = true) ∧
    ∀ tags : Tags, ofLabel (" ".intercalate (tags.toList.map Tag.name)) = tags ∧
      ofList tags.toList = tags := by
  refine ⟨fun _ _ => contains_ofLabel_iff, fun label other => ?_,
    fun label _ other hne hgap _ => contains_ofLabel_append hne hgap label other, fun tags => ?_⟩
  · simp only [← contains_ofLabel_iff]
    exact ⟨fun heq _ => by rw [heq], eq_of_contains_iff⟩
  · exact ⟨(ofLabel_intercalate _).trans (ofList_toList tags), ofList_toList tags⟩

example : ofLabel "StepsToX CallSteps\u00a0ReturnStep" = ofList [.returnStep] := by decide

end Tags

end ReductionStepper
