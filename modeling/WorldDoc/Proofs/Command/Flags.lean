import WorldDoc.Command.Arguments

/-!
# Flags

What a command is asked to do can be read off the words of its arguments. A flag is set exactly if
it is given: some word in front of any separator is its name, or is short for it. The file is one of
the words (`given_of_ofArguments`). And a file with flags on either side of it is never refused
(`exists_invocation`).

## Shape of the proof

To classify a word is to compare it with the names of the switches. A word that is short for a name
is found to be that switch (`classify_of_abbreviates`), and no other word is taken for it
(`abbreviates_of_classify`). Reading sets the flags of the switches that it comes by and no others;
with what is refused left aside, that is `Reading.Took`, which is proved once for all words
(`Reading.took_of_words`).
-/

namespace WorldDoc.Command

/-! ## Names and what is short for them -/

/-- The long name of a switch. -/
def Switch.name : Switch → String
  | help => "--help"
  | noValidate => "--no-validate"
  | rejectDuplicates => "--reject-duplicates"
  | verbose => "--verbose"

/-- A word is the name of a flag, or short for it: it begins like the name and goes on for at least
the three characters by which the names differ. -/
def Abbreviates (flag word : String) : Prop :=
  3 ≤ word.toList.length ∧ word.toList <+: flag.toList

instance (flag word : String) : Decidable (Abbreviates flag word) :=
  inferInstanceAs (Decidable (_ ∧ _))

/-- A flag is given among arguments: in front of any separator there is a word for it. -/
def Given (flag : String) (arguments : List String) : Prop :=
  ∃ word ∈ arguments.takeWhile (· ≠ "--"), Abbreviates flag word

instance (flag : String) (arguments : List String) : Decidable (Given flag arguments) :=
  inferInstanceAs (Decidable (∃ word ∈ arguments.takeWhile (· ≠ "--"), Abbreviates flag word))

/-! ## Words -/

/-- A word that is short for a name is that switch, and comes without a value. -/
theorem classify_of_abbreviates {s : Switch} {word : String} (h : Abbreviates s.name word) :
    classify checkSwitches word = .switch s.name s none := by
  obtain ⟨hlong, hbegins⟩ := h
  have hfew : ∀ n ≤ 19, 3 ≤ n →
      classify checkSwitches (String.ofList (s.name.toList.take n)) = .switch s.name s none := by
    cases s <;> decide +kernel
  have hname : s.name.toList.length ≤ 19 := by cases s <;> decide +kernel
  have hword : String.ofList (s.name.toList.take word.toList.length) = word := by
    rw [← List.prefix_iff_eq_take.mp hbegins, String.ofList_toList]
  rw [← hword]
  exact hfew _ (Nat.le_trans hbegins.length_le hname) hlong

/-- A word without an equals sign is all name. -/
theorem eq_of_splitAtEquals {word name : String} (h : splitAtEquals word = (name, none)) :
    name = word := by
  obtain ⟨hname, hvalue⟩ := Prod.mk.inj h
  have hrest : word.toList.drop (word.toList.takeWhile (· ≠ '=')).length = [] := by
    simpa using hvalue
  have hwhole : word.toList.takeWhile (· ≠ '=') = word.toList :=
    (List.takeWhile_prefix _).eq_of_length_le (List.drop_eq_nil_iff.mp hrest)
  rw [← hname, hwhole, String.ofList_toList]

/-- What is found by name is known under that name. -/
theorem mem_of_lookup {known : Switches} {name : String} {s : Switch}
    (h : known.lookup name = some s) : (name, s) ∈ known := by
  obtain ⟨before, behind, rfl, -⟩ := List.lookup_eq_some_iff.mp h
  exact List.mem_append_right _ List.mem_cons_self

/-- What a word may be short for is a known switch. Where it comes without a value, the word has two
hyphens and begins the name. -/
theorem exists_of_mem_candidates {known : Switches} {word : String} {w : Word}
    (h : w ∈ candidates known word) :
    ∃ name s value, w = .switch name s value ∧ (name, s) ∈ known ∧
      (value = none → word.startsWith "--" ∧ word.toList <+: name.toList) := by
  rw [candidates] at h
  split at h
  · rename_i hhyphens
    split at h
    rename_i start value hsplit
    obtain ⟨found, hfound, rfl⟩ := List.mem_map.mp h
    obtain ⟨hknown, hbegins⟩ := List.mem_filter.mp hfound
    refine ⟨_, _, _, rfl, hknown, ?_⟩
    rintro rfl
    obtain rfl := eq_of_splitAtEquals hsplit
    exact ⟨hhyphens, String.startsWith_string_iff.mp hbegins⟩
  · obtain ⟨found, hfound, rfl⟩ := List.mem_map.mp h
    exact ⟨_, _, _, rfl, (List.mem_filter.mp hfound).1, nofun⟩

/-- A word that is a switch is a known one. Where it comes without a value, the word is the name of
the switch or begins it with two hyphens. -/
theorem of_classify_switch {known : Switches} {word name : String} {s : Switch}
    {value : Option String} (h : classify known word = .switch name s value) :
    (name, s) ∈ known ∧
      (value = none → name = word ∨ word.startsWith "--" ∧ word.toList <+: name.toList) := by
  rw [classify] at h
  split at h
  · contradiction
  split at h
  · rename_i hlookup
    obtain ⟨rfl, rfl, -⟩ := Word.switch.inj h
    exact ⟨mem_of_lookup hlookup, fun _ => Or.inl rfl⟩
  split at h
  rename_i start behind hsplit
  split at h
  · rename_i hlookup
    obtain ⟨rfl, rfl, rfl⟩ := Word.switch.inj h
    refine ⟨mem_of_lookup hlookup, ?_⟩
    rintro rfl
    exact Or.inl (eq_of_splitAtEquals hsplit)
  split at h
  · rename_i only honly
    obtain ⟨_, _, _, hswitch, hknown, hbegins⟩ :=
      exists_of_mem_candidates (honly ▸ List.mem_singleton_self only)
    obtain ⟨rfl, rfl, rfl⟩ := Word.switch.inj (hswitch.symm.trans h)
    exact ⟨hknown, fun hvalue => Or.inr (hbegins hvalue)⟩
  · contradiction
  · split at h <;> contradiction

/-- A plain word is what it says. -/
theorem eq_of_classify_plain {known : Switches} {word text : String}
    (h : classify known word = .plain text) : text = word := by
  rw [classify] at h
  split at h
  · exact (Word.plain.inj h).symm
  split at h
  · contradiction
  split at h
  split at h
  · contradiction
  split at h
  · rename_i only honly
    obtain ⟨_, _, _, rfl, -⟩ := exists_of_mem_candidates (honly ▸ List.mem_singleton_self only)
    contradiction
  · contradiction
  · split at h
    · exact (Word.plain.inj h).symm
    · contradiction

/-- A switch that is accepted, other than help, is meant by a word that is short for its name. -/
theorem abbreviates_of_classify {word name : String} {s : Switch} {value : Option String}
    (h : classify checkSwitches word = .switch name s value) (hword : word ≠ "--")
    (hs : s ≠ .help) (hvalue : valueAllowed name value = true) : Abbreviates s.name word := by
  have hlong : ∀ known ∈ checkSwitches, known.2 ≠ .help →
      known.1 = known.2.name ∧ known.1.startsWith "--" = true ∧ 3 ≤ known.1.toList.length := by
    decide +kernel
  obtain ⟨hknown, hbegins⟩ := of_classify_switch h
  obtain ⟨hname, hhyphens, hlength⟩ := hlong _ hknown hs
  cases value with
  | some v => simp [valueAllowed, hhyphens] at hvalue
  | none =>
    rcases hbegins rfl with rfl | ⟨hstart, hprefix⟩
    · exact ⟨hlength, hname ▸ List.prefix_refl _⟩
    · refine ⟨?_, hname ▸ hprefix⟩
      -- two hyphens alone would be the separator
      have htwo := String.startsWith_string_iff.mp hstart
      refine Nat.lt_of_le_of_ne htwo.length_le fun heq => hword ?_
      exact (String.toList_inj.mp (htwo.eq_of_length heq)).symm

/-- The switches among the words are those in front of the separator. -/
theorem switch_mem_classifyAll {known : Switches} {arguments : List String} {name : String}
    {s : Switch} {value : Option String} :
    .switch name s value ∈ classifyAll known arguments ↔
      ∃ word ∈ arguments.takeWhile (· ≠ "--"), classify known word = .switch name s value := by
  induction arguments with
  | nil => simp [classifyAll]
  | cons word later ih =>
    rw [classifyAll]
    by_cases hword : word = "--"
    · simp [hword]
    · rw [if_neg hword, List.takeWhile_cons_of_pos (by simp [hword]), List.mem_cons, ih]
      simp [eq_comm]

/-- The plain words are among the arguments. -/
theorem mem_of_plain_mem_classifyAll {known : Switches} {arguments : List String} {text : String}
    (h : .plain text ∈ classifyAll known arguments) : text ∈ arguments := by
  induction arguments with
  | nil => exact absurd h List.not_mem_nil
  | cons word later ih =>
    rw [classifyAll] at h
    split at h
    · obtain ⟨plain, hplain, heq⟩ := List.mem_map.mp ((List.mem_cons.mp h).resolve_left nofun)
      exact List.mem_cons_of_mem _ (Word.plain.inj heq ▸ hplain)
    · rcases List.mem_cons.mp h with hfirst | hlater
      · exact eq_of_classify_plain hfirst.symm ▸ List.mem_cons_self
      · exact List.mem_cons_of_mem _ (ih hlater)

/-! ## Reading -/

namespace Reading

/-- Whether the flag of a switch is set. To ask for help sets none. -/
def has (r : Reading) : Switch → Bool
  | .help => false
  | .noValidate => r.noValidate
  | .rejectDuplicates => r.rejectDuplicates
  | .verbose => r.verbose

/-- Words were taken in between two states of the reading: all had a meaning, the flags of their
switches were set and no others, and the file is one of them if it was not known before. -/
structure Took (ws : List Word) (r r' : Reading) : Prop where
  meaningful : r.meaningless = false
  allowed : ∀ name s value, .switch name s value ∈ ws → s ≠ .help ∧ valueAllowed name value = true
  has_iff : ∀ s, r'.has s = true ↔ r.has s = true ∨ ∃ name value, .switch name s value ∈ ws
  file : ∀ text, r'.file = some text → r.file = some text ∨ .plain text ∈ ws

namespace Took

variable {ws : List Word} {r r₁ r' : Reading}

/-- Where no words are left nothing was taken in. -/
theorem nil (h : r.meaningless = false) : Took [] r r :=
  ⟨h, nofun, fun _ => by simp, fun _ => Or.inl⟩

/-- A word that is no switch sets no flag. -/
theorem cons_of_no_switch {w : Word} (h : Took ws r₁ r')
    (hw : ∀ name s value, w ≠ .switch name s value)
    (hmeaningless : r₁.meaningless = r.meaningless) (hhas : r₁.has = r.has)
    (hfile : ∀ text, r₁.file = some text → r.file = some text ∨ w = .plain text) :
    Took (w :: ws) r r' where
  meaningful := hmeaningless ▸ h.meaningful
  allowed name s value hmem :=
    h.allowed name s value ((List.mem_cons.mp hmem).resolve_left (hw name s value).symm)
  has_iff s := by
    rw [h.has_iff, hhas]
    simp [fun name value => (hw name s value).symm]
  file text htext := by
    rcases h.file text htext with hbefore | hlater
    · rcases hfile text hbefore with hknown | rfl
      · exact Or.inl hknown
      · exact Or.inr List.mem_cons_self
    · exact Or.inr (List.mem_cons_of_mem _ hlater)

/-- A plain word is taken for the file. -/
theorem cons_plain {text : String} (h : Took ws { r with file := some text } r') :
    Took (.plain text :: ws) r r' :=
  h.cons_of_no_switch nofun rfl rfl fun _ htext => Or.inr (congrArg _ (Option.some.inj htext))

/-- The separator changes nothing by itself. -/
theorem cons_separator (h : Took ws r r') : Took (.separator :: ws) r r' :=
  h.cons_of_no_switch nofun rfl rfl fun _ => Or.inl

/-- A switch sets its own flag. -/
theorem cons_switch {name : String} {s : Switch} {value : Option String} (h : Took ws r₁ r')
    (hset : r.set s = .ok r₁) (hvalue : valueAllowed name value = true) :
    Took (.switch name s value :: ws) r r' := by
  have hmeaningless : r₁.meaningless = r.meaningless := by
    cases s <;> cases hset <;> rfl
  have hfile : r₁.file = r.file := by
    cases s <;> cases hset <;> rfl
  have hhelp : s ≠ .help := by
    rintro rfl
    cases hset
  have hhas (t : Switch) : r₁.has t = true ↔ r.has t = true ∨ t = s := by
    cases s <;> cases hset <;> cases t <;> simp [has]
  refine ⟨hmeaningless ▸ h.meaningful, fun n t v hmem => ?_, fun t => ?_, fun text htext => ?_⟩
  · rcases List.mem_cons.mp hmem with heq | hlater
    · obtain ⟨rfl, rfl, rfl⟩ := Word.switch.inj heq
      exact ⟨hhelp, hvalue⟩
    · exact h.allowed n t v hlater
  · rw [h.has_iff, hhas, or_assoc]
    refine or_congr_right ⟨?_, ?_⟩
    · rintro (rfl | ⟨n, v, hlater⟩)
      · exact ⟨name, value, List.mem_cons_self⟩
      · exact ⟨n, v, List.mem_cons_of_mem _ hlater⟩
    · rintro ⟨n, v, hmem⟩
      rcases List.mem_cons.mp hmem with heq | hlater
      · exact Or.inl (Word.switch.inj heq).2.1
      · exact Or.inr ⟨n, v, hlater⟩
  · exact (h.file text htext).imp (hfile ▸ ·) (List.mem_cons_of_mem _)

end Took

/-- Words that are read to the end, all of them with a meaning, are taken in. -/
theorem took_of_words {ws : List Word} {r r' : Reading} (h : r.words ws = .ok r')
    (hmeaningful : r'.meaningless = false) : Took ws r r' := by
  fun_induction words r ws with
  | case1 r =>
    cases h
    exact .nil hmeaningful
  | case2 r text later hnone ih => exact (ih h).cons_separator.cons_plain
  | case3 r text later hsome ih => exact absurd (ih h).meaningful (by simp)
  | case4 r text later hbehind hnone ih => exact (ih h).cons_plain
  | case5 r text later hbehind hsome ih => exact absurd (ih h).meaningful (by simp)
  | case6 r text later hnone ih => exact (ih h).cons_plain.cons_separator
  | case7 r text later hsome =>
    cases h
    contradiction
  | case8 r later hbehind =>
    cases h
    contradiction
  | case9 r name s value later hvalue ih =>
    cases hset : r.set s with
    | error stop =>
      rw [hset] at h
      contradiction
    | ok r₁ =>
      rw [hset] at h
      exact (ih r₁ h).cons_switch hset hvalue
  | case10 => contradiction
  | case11 r later ih => exact absurd (ih h).meaningful (by simp)
  | case12 r later ih => exact absurd (ih h).meaningful (by simp)

/-- What is concluded of a reading is what it has found. -/
theorem conclude_eq_ok {r : Reading} {i : Invocation} (h : r.conclude = .ok i) :
    r.meaningless = false ∧ r.file = some i.file ∧
      i = ⟨i.file, !r.has .noValidate, r.has .rejectDuplicates, r.has .verbose⟩ := by
  rw [conclude] at h
  split at h
  · rename_i file hfile
    split at h
    · contradiction
    split at h
    · contradiction
    · rename_i hmeaningful hnul
      obtain rfl := Except.ok.inj h
      exact ⟨by simpa using hmeaningful, hfile, rfl⟩
  · contradiction

end Reading

/-! ## Arguments -/

/-- Arguments behind the command that are accepted are taken in. -/
theorem took_of_readCheck {arguments : List String} {meaningless : Bool} {i : Invocation}
    (h : readCheck arguments meaningless = .ok i) :
    ∃ r : Reading, Reading.Took (classifyAll checkSwitches arguments) { meaningless } r ∧
      r.file = some i.file ∧
      i = ⟨i.file, !r.has .noValidate, r.has .rejectDuplicates, r.has .verbose⟩ := by
  rw [readCheck] at h
  split at h
  · contradiction
  cases hwords : Reading.words { meaningless } (classifyAll checkSwitches arguments) with
  | error stop =>
    simp only [hwords, bind, Except.bind] at h
    contradiction
  | ok r =>
    simp only [hwords, bind, Except.bind] at h
    obtain ⟨hmeaningful, hfile, hi⟩ := Reading.conclude_eq_ok h
    exact ⟨r, Reading.took_of_words hwords hmeaningful, hfile, hi⟩

/-- What had no meaning is not forgotten: after it nothing is accepted. -/
theorem readFrom_true_ne_ok (arguments : List String) (i : Invocation) :
    readFrom true arguments ≠ .ok i := by
  intro h
  induction arguments with
  | nil => contradiction
  | cons word later ih =>
    rw [readFrom] at h
    split at h
    · contradiction
    split at h
    · split at h
      · obtain ⟨r, htook, -⟩ := took_of_readCheck h
        exact absurd htook.meaningful (by simp)
      · contradiction
    · contradiction
    all_goals exact ih h

/-- Arguments that are accepted begin with the command. -/
theorem exists_of_ofArguments {arguments : List String} {i : Invocation}
    (h : Invocation.ofArguments arguments = .ok i) :
    ∃ later, arguments = "check" :: later ∧ readCheck later false = .ok i := by
  rw [Invocation.ofArguments] at h
  cases arguments with
  | nil => contradiction
  | cons word later =>
    rw [readFrom] at h
    split at h
    · contradiction
    split at h
    · rename_i command hcommand
      split at h
      · rename_i hcheck
        exact ⟨later, by rw [← eq_of_classify_plain hcommand, hcheck], h⟩
      · contradiction
    · contradiction
    all_goals exact absurd h (readFrom_true_ne_ok _ _)

/-- A flag is set exactly if it is given. -/
theorem has_iff_given {later : List String} {meaningless : Bool} {r : Reading} {s : Switch}
    (htook : Reading.Took (classifyAll checkSwitches later) { meaningless } r) (hs : s ≠ .help) :
    r.has s = true ↔ Given s.name later := by
  have hfresh : Reading.has { meaningless } s = false := by cases s <;> rfl
  rw [htook.has_iff, hfresh]
  constructor
  · rintro (hset | ⟨name, value, hmem⟩)
    · contradiction
    · obtain ⟨word, hword, hclassify⟩ := switch_mem_classifyAll.mp hmem
      have hne : word ≠ "--" := by
        simpa using List.all_eq_true.mp List.all_takeWhile word hword
      exact ⟨word, hword, abbreviates_of_classify hclassify hne hs (htook.allowed _ _ _ hmem).2⟩
  · rintro ⟨word, hword, hshort⟩
    exact Or.inr ⟨s.name, none,
      switch_mem_classifyAll.mpr ⟨word, hword, classify_of_abbreviates hshort⟩⟩

/-- A flag is given by the first word, if that is not the separator, or by a later one. -/
theorem given_cons {flag word : String} (later : List String) (hword : word ≠ "--") :
    Given flag (word :: later) ↔ Abbreviates flag word ∨ Given flag later := by
  simp [Given, hword]

/-- The flags of an accepted invocation are those that are given, and its file is an argument. -/
theorem given_of_ofArguments {arguments : List String} {i : Invocation}
    (h : Invocation.ofArguments arguments = .ok i) :
    i.file ∈ arguments ∧ (i.validate = false ↔ Given "--no-validate" arguments) ∧
      (i.rejectDuplicates = true ↔ Given "--reject-duplicates" arguments) ∧
      (i.verbose = true ↔ Given "--verbose" arguments) := by
  obtain ⟨later, rfl, hread⟩ := exists_of_ofArguments h
  obtain ⟨r, htook, hfile, hi⟩ := took_of_readCheck hread
  have hgiven (s : Switch) (hs : s ≠ .help) :
      r.has s = true ↔ Given s.name ("check" :: later) := by
    have hcommand : ¬Abbreviates s.name "check" := by cases s <;> decide
    rw [has_iff_given htook hs, given_cons later (by decide), or_iff_right hcommand]
  rw [hi]
  refine ⟨?_, ?_, hgiven .rejectDuplicates nofun, hgiven .verbose nofun⟩
  · have hplain := (htook.file _ hfile).resolve_left nofun
    exact List.mem_cons_of_mem _ (mem_of_plain_mem_classifyAll hplain)
  · rw [Bool.not_eq_false']
    exact hgiven .noValidate nofun

/-! ## A file with flags around it -/

/-- A word for a flag of the command. -/
def IsFlag (word : String) : Prop :=
  Abbreviates "--no-validate" word ∨ Abbreviates "--reject-duplicates" word ∨
    Abbreviates "--verbose" word

instance (word : String) : Decidable (IsFlag word) :=
  inferInstanceAs (Decidable (_ ∨ _ ∨ _))

/-- A word for a flag is a switch, and none that asks for help. -/
theorem exists_switch_of_isFlag {word : String} (h : IsFlag word) :
    ∃ s : Switch, s ≠ .help ∧ Abbreviates s.name word := by
  rcases h with h | h | h
  · exact ⟨.noValidate, nofun, h⟩
  · exact ⟨.rejectDuplicates, nofun, h⟩
  · exact ⟨.verbose, nofun, h⟩

/-- A word for a flag is classified as a switch that is not help. -/
theorem classify_of_isFlag {word : String} (h : IsFlag word) :
    ∃ s : Switch, s ≠ .help ∧ classify checkSwitches word = .switch s.name s none := by
  obtain ⟨s, hs, hshort⟩ := exists_switch_of_isFlag h
  exact ⟨s, hs, classify_of_abbreviates hshort⟩

/-- Words for flags are not classified as anything else. -/
theorem exists_switch_of_mem_map {flags : List String} {w : Word}
    (h : ∀ word ∈ flags, IsFlag word) (hw : w ∈ flags.map (classify checkSwitches)) :
    ∃ s : Switch, w = .switch s.name s none := by
  obtain ⟨word, hword, rfl⟩ := List.mem_map.mp hw
  obtain ⟨s, -, hclassify⟩ := classify_of_isFlag (h word hword)
  exact ⟨s, hclassify⟩

/-- The separator is too short to be a flag. -/
theorem ne_separator_of_isFlag {word : String} (h : IsFlag word) : word ≠ "--" := by
  rintro rfl
  obtain ⟨s, -, hlong, -⟩ := exists_switch_of_isFlag h
  exact absurd hlong (by decide)

/-- A word that does not begin with a hyphen is plain. -/
theorem classify_of_head?_ne {known : Switches} {word : String} (h : word.toList.head? ≠ some '-') :
    classify known word = .plain word := by
  have hstart : word.startsWith "-" = false := by
    refine Bool.eq_false_iff.mpr fun hstart => h ?_
    obtain ⟨rest, hrest⟩ := String.startsWith_string_iff.mp hstart
    rw [← hrest]
    rfl
  rw [classify, if_pos (Or.inl (by rw [hstart]; rfl))]

/-- Without a separator each word is classified by itself. -/
theorem classifyAll_eq_map {known : Switches} {arguments : List String}
    (h : ∀ word ∈ arguments, word ≠ "--") :
    classifyAll known arguments = arguments.map (classify known) := by
  induction arguments with
  | nil => rfl
  | cons word later ih =>
    obtain ⟨hword, hlater⟩ := List.forall_mem_cons.mp h
    rw [classifyAll, if_neg hword, ih hlater, List.map_cons]

namespace Reading

/-- Flags are read without looking at what follows them, and leave the file as it is. -/
theorem exists_words_flags {flags : List String} (h : ∀ word ∈ flags, IsFlag word) (r : Reading) :
    ∃ r' : Reading, r'.file = r.file ∧ r'.meaningless = r.meaningless ∧
      ∀ rest, r.words (flags.map (classify checkSwitches) ++ rest) = r'.words rest := by
  induction flags generalizing r with
  | nil => exact ⟨r, rfl, rfl, fun _ => rfl⟩
  | cons word later ih =>
    obtain ⟨hword, hlater⟩ := List.forall_mem_cons.mp h
    obtain ⟨s, hs, hclassify⟩ := classify_of_isFlag hword
    obtain ⟨r₁, hset, hfile, hmeaningless⟩ :
        ∃ r₁, r.set s = .ok r₁ ∧ r₁.file = r.file ∧ r₁.meaningless = r.meaningless := by
      cases s with
      | help => contradiction
      | _ => exact ⟨_, rfl, rfl, rfl⟩
    obtain ⟨r', hfile', hmeaningless', hwords⟩ := ih hlater r₁
    refine ⟨r', hfile'.trans hfile, hmeaningless'.trans hmeaningless, fun rest => ?_⟩
    rw [List.map_cons, hclassify, List.cons_append, words,
      if_pos (show valueAllowed s.name none = true from rfl), hset, ← hwords]
    rfl

/-- A file with flags in front of it and behind it is read to the end. -/
theorem exists_words_file {before behind : List String} (hbefore : ∀ word ∈ before, IsFlag word)
    (hbehind : ∀ word ∈ behind, IsFlag word) (file : String) :
    ∃ r : Reading, r.file = some file ∧ r.meaningless = false ∧
      words {} (before.map (classify checkSwitches) ++
        .plain file :: behind.map (classify checkSwitches)) = .ok r := by
  obtain ⟨r₁, hfile₁, hmeaningless₁, hwords₁⟩ := exists_words_flags hbefore {}
  obtain ⟨r₂, hfile₂, hmeaningless₂, hwords₂⟩ :=
    exists_words_flags hbehind { r₁ with file := some file }
  have hseparator : ∀ later, behind.map (classify checkSwitches) ≠ .separator :: later := by
    intro later heq
    obtain ⟨s, hs⟩ := exists_switch_of_mem_map hbehind (heq ▸ List.mem_cons_self)
    contradiction
  refine ⟨r₂, hfile₂, hmeaningless₂.trans hmeaningless₁, ?_⟩
  have hend := hwords₂ []
  rw [List.append_nil, words] at hend
  rw [hwords₁, words, if_pos (by rw [hfile₁]; rfl), hend]
  exact hseparator

end Reading

/-- A file with flags in front of it and behind it is accepted, if its name does not look like a
switch and can be a name. -/
theorem exists_invocation {before behind : List String} {file : String}
    (hflags : ∀ word ∈ before ++ behind, IsFlag word) (hfile : file.toList.head? ≠ some '-')
    (hnul : '\x00' ∉ file.toList) :
    ∃ i, Invocation.ofArguments ("check" :: (before ++ file :: behind)) = .ok i ∧ i.file = file := by
  obtain ⟨hbefore, hbehind⟩ := List.forall_mem_append.mp hflags
  obtain ⟨r, hname, hmeaningless, hread⟩ := Reading.exists_words_file hbefore hbehind file
  have hplain : classify checkSwitches file = .plain file := classify_of_head?_ne hfile
  have hwords : classifyAll checkSwitches (before ++ file :: behind) =
      before.map (classify checkSwitches) ++ .plain file :: behind.map (classify checkSwitches) := by
    rw [classifyAll_eq_map, List.map_append, List.map_cons, hplain]
    intro word hword
    rcases List.mem_append.mp hword with hword | hword
    · exact ne_separator_of_isFlag (hbefore word hword)
    · rcases List.mem_cons.mp hword with rfl | hword
      · rintro rfl
        exact hfile rfl
      · exact ne_separator_of_isFlag (hbehind word hword)
  have hclear :
      (classifyAll checkSwitches (before ++ file :: behind)).contains .ambiguous = false := by
    rw [hwords, Bool.eq_false_iff, ne_eq, List.contains_iff_mem]
    intro hmem
    rcases List.mem_append.mp hmem with hmem | hmem
    · obtain ⟨s, hs⟩ := exists_switch_of_mem_map hbefore hmem
      contradiction
    · have hlater := (List.mem_cons.mp hmem).resolve_left nofun
      obtain ⟨s, hs⟩ := exists_switch_of_mem_map hbehind hlater
      contradiction
  have hcommand : classify outerSwitches "check" = .plain "check" := by decide +kernel
  refine ⟨⟨file, !r.noValidate, r.rejectDuplicates, r.verbose⟩, ?_, rfl⟩
  have hconclude : r.conclude = .ok ⟨file, !r.noValidate, r.rejectDuplicates, r.verbose⟩ := by
    simp [Reading.conclude, hname, hmeaningless, hnul]
  rw [Invocation.ofArguments, readFrom, if_neg (by decide), hcommand]
  simp only [if_true, readCheck, hclear, Bool.false_eq_true, if_false]
  rw [hwords, hread]
  exact hconclude

end WorldDoc.Command
