import Mathlib.Data.List.Induction
import Mathlib.Data.List.Nodup
import Mathlib.Logic.Function.Basic
import ReductionStepper.Proofs.CommandLine.Groups

/-!
# The grammar of the command line

Arguments are accepted exactly if they split into groups that go together, in whatever order: no
kind of group twice, no demo beside a program file, no server and no timeout beside a graph, and one
of program file, demo and graph at least. The options hold what the groups give and nothing else, so
that options that are written out, in any order, read back as they are.
-/

namespace ReductionStepper.CommandLine

/-- The kind of a group. -/
inductive Kind where
  | print
  | timeout
  | text (flag : Flag)
  deriving DecidableEq

/-- All kinds. -/
def Kind.all : List Kind := .print :: .timeout :: Flag.all.map .text

private theorem Kind.mem_all (kind : Kind) : kind ∈ Kind.all := by
  rcases kind with _ | _ | flag
  · decide
  · decide
  · cases flag <;> decide

private theorem Kind.nodup_all : Kind.all.Nodup := by decide

namespace Group

/-- The kind of a group; a program file is of one kind with its flag and without. -/
def kind : Group → Kind
  | .print => .print
  | .timeout _ => .timeout
  | .text flag _ => .text flag
  | .file _ => .text .program

/-- A group with its flag. -/
def flagged : Group → Group
  | .file path => .text .program path
  | group => group

@[simp] private theorem kind_flagged (group : Group) : group.flagged.kind = group.kind := by
  cases group <;> rfl

@[simp] private theorem flagged_eq_print_iff {group : Group} :
    group.flagged = .print ↔ group = .print := by
  cases group <;> simp [flagged]

@[simp] private theorem flagged_eq_timeout_iff {group : Group} {seconds : UInt64} :
    group.flagged = .timeout seconds ↔ group = .timeout seconds := by
  cases group <;> simp [flagged]

private theorem flagged_ne_file (group : Group) (path : String) : group.flagged ≠ .file path := by
  cases group <;> simp [flagged]

end Group

/-- The groups go together. -/
structure Compatible (groups : List Group) : Prop where
  nodup_kinds : (groups.map Group.kind).Nodup
  demo_or_program : .text .demo ∈ groups.map Group.kind → .text .program ∉ groups.map Group.kind
  graph_or_server : .text .graph ∈ groups.map Group.kind →
    .text .server ∉ groups.map Group.kind ∧ .timeout ∉ groups.map Group.kind
  subject_given : .text .program ∈ groups.map Group.kind ∨ .text .demo ∈ groups.map Group.kind ∨
    .text .graph ∈ groups.map Group.kind

/-- Groups that go together do so in any order. -/
theorem Compatible.perm {groups later : List Group} (h : Compatible groups)
    (hperm : groups.Perm later) : Compatible later := by
  have hkinds := hperm.map Group.kind
  obtain ⟨hnodup, hdemo, hgraph, hsubject⟩ := h
  simp only [hkinds.mem_iff] at hdemo hgraph hsubject
  exact ⟨hkinds.nodup_iff.mp hnodup, hdemo, hgraph, hsubject⟩

namespace Options

/-- The options hold exactly the values of the groups. -/
structure Given (options : Options) (groups : List Group) : Prop where
  text?_eq_some_iff : ∀ flag value,
    options.text? flag = some value ↔ .text flag value ∈ groups.map Group.flagged
  timeout_eq_some_iff : ∀ seconds, options.timeout = some seconds ↔ .timeout seconds ∈ groups
  print_iff : options.print = true ↔ .print ∈ groups

/-- The options that arguments can give. -/
structure Valid (options : Options) : Prop where
  text_not_flag : ∀ flag value, options.text? flag = some value → ¬['-', '-'] <+: value.toList
  timeout_ne_zero : options.timeout ≠ some 0
  demo_or_program : options.demo ≠ none → options.program = none
  graph_or_server : options.graph ≠ none → options.server = none ∧ options.timeout = none
  subject_given : options.program ≠ none ∨ options.demo ≠ none ∨ options.graph ≠ none

/-- Arguments that write options out, group by group in some order. -/
def WrittenAs (options : Options) (arguments : List String) : Prop :=
  ∃ groups, Splits arguments groups ∧ (groups.map Group.kind).Nodup ∧ options.Given groups

/-- The group that gives the value of a kind. -/
def group? (options : Options) : Kind → Option Group
  | .print => if options.print then some .print else none
  | .timeout => options.timeout.map .timeout
  | .text flag => (options.text? flag).map (.text flag)

/-- The options with the value of a group. -/
def put (options : Options) : Group → Options
  | .print => { options with print := true }
  | .timeout seconds => { options with timeout := some seconds }
  | .text flag value => options.setText value flag
  | .file path => options.setText path .program

/-- The groups that give the options, each value with its flag. -/
def written (options : Options) : List Group := Kind.all.filterMap options.group?

variable {options others : Options} {groups : List Group} {group : Group} {kind : Kind}

/-- Options are equal if they hold the same values. -/
theorem ext_group? (h : ∀ kind, options.group? kind = others.group? kind) : options = others := by
  have htext (flag : Flag) : options.text? flag = others.text? flag :=
    Option.map_injective (fun _ _ heq => (Group.text.inj heq).2) (h (.text flag))
  have htimeout : options.timeout = others.timeout :=
    Option.map_injective (fun _ _ heq => Group.timeout.inj heq) (h .timeout)
  have hprint : options.print = others.print := by
    have := h .print
    cases ho : options.print <;> cases ho' : others.print <;> simp_all [group?]
  cases options
  cases others
  simp only [mk.injEq]
  exact ⟨htext .program, htext .function, htext .server, htimeout, htext .demo, htext .graph,
    hprint, htext .logFile⟩

/-- A value is given by a group of its own kind, with its flag. -/
theorem of_group?_eq_some (h : options.group? kind = some group) :
    group.kind = kind ∧ group.flagged = group := by
  cases kind with
  | print =>
    obtain ⟨-, hgroup⟩ := Option.ite_none_right_eq_some.mp h
    cases hgroup
    exact ⟨rfl, rfl⟩
  | timeout =>
    obtain ⟨seconds, -, rfl⟩ := Option.map_eq_some_iff.mp h
    exact ⟨rfl, rfl⟩
  | text flag =>
    obtain ⟨value, -, rfl⟩ := Option.map_eq_some_iff.mp h
    exact ⟨rfl, rfl⟩

private theorem text?_setText (options : Options) (value : String) (flag other : Flag) :
    (options.setText value flag).text? other =
      if other = flag then some value else options.text? other := by
  cases flag <;> cases other <;> rfl

private theorem print_setText (options : Options) (value : String) (flag : Flag) :
    (options.setText value flag).print = options.print := by
  cases flag <;> rfl

private theorem timeout_setText (options : Options) (value : String) (flag : Flag) :
    (options.setText value flag).timeout = options.timeout := by
  cases flag <;> rfl

private theorem group?_setText (options : Options) (value : String) (flag : Flag) :
    (options.setText value flag).group? =
      Function.update options.group? (.text flag) (some (.text flag value)) := by
  funext kind
  cases kind with
  | print => simp [group?, print_setText]
  | timeout => simp [group?, timeout_setText]
  | text other =>
    by_cases heq : other = flag
    · subst heq
      simp [group?, text?_setText]
    · simp [group?, text?_setText, heq]

/-- A group changes the value of its own kind only. -/
theorem group?_put (options : Options) (group : Group) :
    (options.put group).group? =
      Function.update options.group? group.kind (some group.flagged) := by
  cases group with
  | print => funext kind; cases kind <;> rfl
  | timeout seconds => funext kind; cases kind <;> rfl
  | text flag value => exact options.group?_setText value flag
  | file path => exact options.group?_setText path .program

/-- A group is refused exactly if one of its kind came before. -/
theorem add?_eq (options : Options) (group : Group) :
    options.add? group =
      if (options.group? group.kind).isSome then none else some (options.put group) := by
  cases group with
  | print => cases hprint : options.print <;> simp [add?, group?, put, Group.kind, hprint]
  | timeout => simp [add?, group?, put, Group.kind]
  | text => simp [add?, group?, put, Group.kind]
  | file => simp [add?, group?, put, Group.kind, setText, text?]

/-- The options hold what the groups give, kind by kind. -/
theorem given_iff :
    options.Given groups ↔
      ∀ group, options.group? group.kind = some group ↔ group ∈ groups.map Group.flagged := by
  constructor
  · intro h group
    cases group with
    | print => simp [group?, Group.kind, h.print_iff]
    | timeout seconds => simp [group?, Group.kind, h.timeout_eq_some_iff]
    | text flag value => simp [group?, Group.kind, h.text?_eq_some_iff]
    | file path => simp [group?, Group.kind, Group.flagged_ne_file]
  · intro h
    refine ⟨fun flag value => ?_, fun seconds => ?_, ?_⟩
    · rw [← h]
      simp [group?, Group.kind]
    · simpa [group?, Group.kind] using h (.timeout seconds)
    · simpa [group?, Group.kind] using h .print

namespace Given

private theorem isSome_group?_iff (h : options.Given groups) :
    (options.group? kind).isSome ↔ kind ∈ groups.map Group.kind := by
  rw [given_iff] at h
  rw [Option.isSome_iff_exists, List.mem_map]
  constructor
  · rintro ⟨group, hgroup⟩
    obtain ⟨rfl, -⟩ := of_group?_eq_some hgroup
    obtain ⟨given, hgiven, rfl⟩ := List.mem_map.mp ((h group).mp hgroup)
    exact ⟨given, hgiven, given.kind_flagged.symm⟩
  · rintro ⟨group, hgroup, rfl⟩
    refine ⟨group.flagged, ?_⟩
    rw [← group.kind_flagged, h]
    exact List.mem_map_of_mem hgroup

/-- The same groups give the same options. -/
theorem unique (h : options.Given groups) (h' : others.Given groups) : options = others := by
  rw [given_iff] at h h'
  refine ext_group? fun kind => Option.ext fun group => ?_
  constructor
  · intro hgroup
    obtain ⟨rfl, -⟩ := of_group?_eq_some hgroup
    exact (h' group).mpr ((h group).mp hgroup)
  · intro hgroup
    obtain ⟨rfl, -⟩ := of_group?_eq_some hgroup
    exact (h group).mpr ((h' group).mp hgroup)

/-- A group of a new kind is held beside the others. -/
theorem put (h : options.Given groups) (hkind : group.kind ∉ groups.map Group.kind) :
    (options.put group).Given (groups ++ [group]) := by
  rw [given_iff] at h ⊢
  intro other
  rw [group?_put, List.map_append, List.map_singleton, List.mem_append, List.mem_singleton]
  by_cases hother : other.kind = group.kind
  · have hnew : other ∉ groups.map Group.flagged := by
      intro hmem
      obtain ⟨given, hgiven, rfl⟩ := List.mem_map.mp hmem
      rw [Group.kind_flagged] at hother
      exact hkind (hother ▸ List.mem_map_of_mem hgiven)
    rw [hother, Function.update_self, Option.some.injEq]
    simp [hnew, eq_comm]
  · have hne : other ≠ group.flagged := by
      rintro rfl
      exact hother group.kind_flagged
    rw [Function.update_of_ne hother, h]
    simp [hne]

/-- What one group more does to the options. -/
theorem add?_eq_some_iff (h : options.Given groups) :
    options.add? group = some others ↔
      group.kind ∉ groups.map Group.kind ∧ others.Given (groups ++ [group]) := by
  rw [add?_eq, ← h.isSome_group?_iff, Option.ite_none_left_eq_some, Option.some.injEq]
  refine and_congr_right fun hfree => ?_
  have hput := h.put (fun hmem => hfree (h.isSome_group?_iff.mpr hmem))
  constructor
  · rintro rfl
    exact hput
  · exact hput.unique

/-- The order of the groups does not matter. -/
theorem perm {later : List Group} (h : options.Given groups) (hperm : groups.Perm later) :
    options.Given later := by
  rw [given_iff] at h ⊢
  exact fun group => (h group).trans (hperm.map Group.flagged).mem_iff

end Given

private theorem given_nil : ({} : Options).Given [] :=
  ⟨fun flag value => by cases flag <;> simp [text?], by simp, by simp⟩

private theorem nodup_kinds_append_iff :
    ((groups ++ [group]).map Group.kind).Nodup ↔
      group.kind ∉ groups.map Group.kind ∧ (groups.map Group.kind).Nodup := by
  rw [List.map_append, List.map_singleton, ← List.concat_eq_append, List.nodup_concat]

/-- Groups of different kinds give some options. -/
theorem exists_given (hnodup : (groups.map Group.kind).Nodup) :
    ∃ options : Options, options.Given groups := by
  induction groups using List.reverseRecOn with
  | nil => exact ⟨_, given_nil⟩
  | append_singleton earlier group ih =>
    obtain ⟨hkind, hearlier⟩ := nodup_kinds_append_iff.mp hnodup
    obtain ⟨options, hoptions⟩ := ih hearlier
    exact ⟨_, hoptions.put hkind⟩

/-- All groups are taken in if no kind comes twice, and then they give the options. -/
theorem foldlM_add?_eq_some_iff :
    groups.foldlM add? {} = some options ↔
      (groups.map Group.kind).Nodup ∧ options.Given groups := by
  -- by the last group: the options that it is added to hold the groups before it
  induction groups using List.reverseRecOn generalizing options with
  | nil =>
    rw [List.foldlM_nil, Option.pure_def, Option.some.injEq]
    constructor
    · rintro rfl
      exact ⟨List.nodup_nil, given_nil⟩
    · exact fun h => given_nil.unique h.2
  | append_singleton earlier group ih =>
    simp only [List.foldlM_append, List.foldlM_cons, List.foldlM_nil, bind_pure,
      Option.bind_eq_bind, Option.bind_eq_some_iff, ih, nodup_kinds_append_iff]
    constructor
    · rintro ⟨before, ⟨hnodup, hbefore⟩, hadd⟩
      obtain ⟨hkind, hgiven⟩ := hbefore.add?_eq_some_iff.mp hadd
      exact ⟨⟨hkind, hnodup⟩, hgiven⟩
    · rintro ⟨⟨hkind, hnodup⟩, hgiven⟩
      obtain ⟨before, hbefore⟩ := exists_given hnodup
      exact ⟨before, ⟨hnodup, hbefore⟩, hbefore.add?_eq_some_iff.mpr ⟨hkind, hgiven⟩⟩

private theorem isConsistent_eq_true_iff (options : Options) :
    options.isConsistent = true ↔
      (options.demo ≠ none → options.program = none) ∧
        (options.graph ≠ none → options.server = none ∧ options.timeout = none) ∧
          (options.program ≠ none ∨ options.demo ≠ none ∨ options.graph ≠ none) := by
  simp only [isConsistent, Bool.and_eq_true, Bool.or_eq_true, Bool.not_eq_true',
    Bool.and_eq_false_iff, Bool.or_eq_false_iff, Option.isSome_eq_false_iff,
    Option.isNone_iff_eq_none, Option.isSome_iff_ne_none]
  tauto

/-- Options of groups that do not repeat go together if the groups do. -/
theorem Given.isConsistent_iff (h : options.Given groups)
    (hnodup : (groups.map Group.kind).Nodup) : options.isConsistent = true ↔ Compatible groups := by
  have htext (flag : Flag) : options.text? flag ≠ none ↔ .text flag ∈ groups.map Group.kind := by
    rw [← h.isSome_group?_iff, group?, Option.isSome_map, Option.isSome_iff_ne_none]
  have htimeout : options.timeout ≠ none ↔ .timeout ∈ groups.map Group.kind := by
    rw [← h.isSome_group?_iff, group?, Option.isSome_map, Option.isSome_iff_ne_none]
  have hprogram := htext .program
  have hdemo := htext .demo
  have hgraph := htext .graph
  have hserver := htext .server
  simp only [text?] at hprogram hdemo hgraph hserver
  rw [isConsistent_eq_true_iff, hdemo, hgraph, hprogram, ← not_ne_iff, hprogram,
    ← not_ne_iff (a := options.server), hserver, ← not_ne_iff (a := options.timeout), htimeout]
  constructor
  · rintro ⟨hdemo, hgraph, hsubject⟩
    exact ⟨hnodup, hdemo, hgraph, hsubject⟩
  · intro hcompatible
    exact ⟨hcompatible.demo_or_program, hcompatible.graph_or_server, hcompatible.subject_given⟩

/-- Arguments give the options of the groups that they split into, if these go together. -/
theorem ofArguments?_eq_some_iff {arguments : List String} :
    ofArguments? arguments = some options ↔
      ∃ groups, Splits arguments groups ∧ Compatible groups ∧ options.Given groups := by
  simp only [ofArguments?, Option.bind_eq_bind, Option.bind_eq_some_iff, groups?_eq_some_iff,
    foldlM_add?_eq_some_iff, Option.ite_none_right_eq_some, Option.some.injEq]
  constructor
  · rintro ⟨groups, hsplits, _, ⟨hnodup, hgiven⟩, hconsistent, rfl⟩
    exact ⟨groups, hsplits, (hgiven.isConsistent_iff hnodup).mp hconsistent, hgiven⟩
  · rintro ⟨groups, hsplits, hcompatible, hgiven⟩
    have hnodup := hcompatible.nodup_kinds
    exact ⟨groups, hsplits, options, ⟨hnodup, hgiven⟩,
      (hgiven.isConsistent_iff hnodup).mpr hcompatible, rfl⟩

/-! ## The order of the groups -/

/-- Groups of arguments mean the same in any order. -/
theorem ofArguments?_perm {pieces others : List (List String)}
    (h : List.Forall₂ Group.Spelling groups pieces) (hperm : pieces.Perm others) :
    ofArguments? pieces.flatten = ofArguments? others.flatten := by
  obtain ⟨later, hgroups, hlater⟩ := exists_spelling_perm h hperm
  refine Option.ext fun options => ?_
  have hsplits : Splits pieces.flatten groups := ⟨pieces, h, rfl⟩
  have hsplits' : Splits others.flatten later := ⟨others, hlater, rfl⟩
  rw [ofArguments?_eq_some_iff, ofArguments?_eq_some_iff]
  constructor
  · rintro ⟨found, hfound, hcompatible, hgiven⟩
    obtain rfl := hsplits.unique hfound
    exact ⟨later, hsplits', hcompatible.perm hgroups, hgiven.perm hgroups⟩
  · rintro ⟨found, hfound, hcompatible, hgiven⟩
    obtain rfl := hsplits'.unique hfound
    exact ⟨groups, hsplits, hcompatible.perm hgroups.symm, hgiven.perm hgroups.symm⟩

/-! ## Options that are written out -/

private theorem map_kind_written (options : Options) :
    options.written.map Group.kind = Kind.all.filter fun kind => (options.group? kind).isSome := by
  rw [written, List.map_filterMap, ← List.filterMap_eq_filter]
  refine List.filterMap_congr fun kind _ => ?_
  cases h : options.group? kind with
  | none => simp [h, Option.guard]
  | some group => simp [h, Option.guard, (of_group?_eq_some h).1]

private theorem given_written (options : Options) : options.Given options.written := by
  rw [given_iff]
  intro group
  rw [List.mem_map]
  constructor
  · intro h
    exact ⟨group, List.mem_filterMap.mpr ⟨_, Kind.mem_all _, h⟩, (of_group?_eq_some h).2⟩
  · rintro ⟨given, hgiven, rfl⟩
    obtain ⟨kind, -, hkind⟩ := List.mem_filterMap.mp hgiven
    obtain ⟨rfl, hflagged⟩ := of_group?_eq_some hkind
    rw [hflagged]
    exact hkind

/-- Valid options can be written out. -/
theorem Valid.exists_arguments (h : options.Valid) : ∃ arguments, options.WrittenAs arguments := by
  have hspelled : ∀ group ∈ options.written, ∃ piece, group.Spelling piece := by
    intro group hgroup
    obtain ⟨kind, -, hkind⟩ := List.mem_filterMap.mp hgroup
    cases kind with
    | print =>
      obtain ⟨-, hprint⟩ := Option.ite_none_right_eq_some.mp hkind
      cases hprint
      exact ⟨_, .print⟩
    | timeout =>
      obtain ⟨seconds, hseconds, rfl⟩ := Option.map_eq_some_iff.mp hkind
      have hpos : seconds ≠ 0 := fun hzero => h.timeout_ne_zero (hzero ▸ hseconds)
      refine ⟨["--timeout-secs", seconds.toNat.repr], .timeout hpos (Text.denotes_repr _)⟩
    | text flag =>
      obtain ⟨value, hvalue, rfl⟩ := Option.map_eq_some_iff.mp hkind
      exact ⟨_, .text (h.text_not_flag flag value hvalue)⟩
  obtain ⟨arguments, hsplits⟩ := exists_splits_iff.mpr hspelled
  refine ⟨arguments, options.written, hsplits, ?_, options.given_written⟩
  rw [map_kind_written]
  exact Kind.nodup_all.filter _

/-- Valid options that are written out read back as they are. -/
theorem Valid.ofArguments?_eq {arguments : List String} (h : options.Valid)
    (hwritten : options.WrittenAs arguments) : ofArguments? arguments = some options := by
  obtain ⟨groups, hsplits, hnodup, hgiven⟩ := hwritten
  refine ofArguments?_eq_some_iff.mpr ⟨groups, hsplits, ?_, hgiven⟩
  rw [← hgiven.isConsistent_iff hnodup, isConsistent_eq_true_iff]
  exact ⟨h.demo_or_program, h.graph_or_server, h.subject_given⟩

/-- The valid options are those that arguments can give. -/
theorem valid_iff_exists : options.Valid ↔ ∃ arguments, ofArguments? arguments = some options := by
  constructor
  · intro h
    obtain ⟨arguments, hwritten⟩ := h.exists_arguments
    exact ⟨arguments, h.ofArguments?_eq hwritten⟩
  · rintro ⟨arguments, h⟩
    obtain ⟨groups, hsplits, hcompatible, hgiven⟩ := ofArguments?_eq_some_iff.mp h
    have hspelled := exists_splits_iff.mp ⟨arguments, hsplits⟩
    obtain ⟨hdemo, hgraph, hsubject⟩ := (isConsistent_eq_true_iff options).mp
      ((hgiven.isConsistent_iff hcompatible.nodup_kinds).mpr hcompatible)
    refine ⟨fun flag value hvalue => ?_, fun hzero => ?_, hdemo, hgraph, hsubject⟩
    · obtain ⟨group, hgroup, hflagged⟩ :=
        List.mem_map.mp ((hgiven.text?_eq_some_iff flag value).mp hvalue)
      obtain ⟨piece, hpiece⟩ := hspelled group hgroup
      cases hpiece with
      | print => cases hflagged
      | timeout => cases hflagged
      | text htext =>
        cases hflagged
        exact htext
      | file hpath =>
        cases hflagged
        exact fun hflag => hpath (.trans (by decide) hflag)
    · obtain ⟨piece, hpiece⟩ := hspelled _ ((hgiven.timeout_eq_some_iff 0).mp hzero)
      cases hpiece with
      | timeout hpos => exact hpos rfl

/-- What arguments mean. They are accepted exactly if they split into groups that go together, and
give the values of these groups; the order of the groups does not matter; and valid options can be
written out and read back. -/
theorem ofArguments?_grammar :
    (∀ arguments, (ofArguments? arguments).isSome ↔
      ∃ groups, Splits arguments groups ∧ Compatible groups) ∧
    (∀ arguments options, ofArguments? arguments = some options ↔
      ∃ groups, Splits arguments groups ∧ Compatible groups ∧ options.Given groups) ∧
    (∀ groups pieces others, List.Forall₂ Group.Spelling groups pieces → pieces.Perm others →
      ofArguments? pieces.flatten = ofArguments? others.flatten) ∧
    ∀ options : Options, options.Valid → (∃ arguments, options.WrittenAs arguments) ∧
      ∀ arguments, options.WrittenAs arguments → ofArguments? arguments = some options := by
  refine ⟨fun arguments => ?_, fun _ _ => ofArguments?_eq_some_iff,
    fun _ _ _ => ofArguments?_perm, fun _ h => ⟨h.exists_arguments, fun _ => h.ofArguments?_eq⟩⟩
  rw [Option.isSome_iff_exists]
  simp only [ofArguments?_eq_some_iff]
  constructor
  · rintro ⟨options, groups, hsplits, hcompatible, -⟩
    exact ⟨groups, hsplits, hcompatible⟩
  · rintro ⟨groups, hsplits, hcompatible⟩
    obtain ⟨options, hgiven⟩ := exists_given hcompatible.nodup_kinds
    exact ⟨options, groups, hsplits, hcompatible, hgiven⟩

end Options

end ReductionStepper.CommandLine
