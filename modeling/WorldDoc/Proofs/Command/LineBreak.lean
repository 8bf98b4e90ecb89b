import WorldDoc.Proofs.Check
import WorldDoc.Proofs.Citizen.LineBreak

/-!
# Files whose line breaks are CR LF

The command reads a file with its line breaks as line feeds and checks that. Its tree is the one of
the file as it stands, and it reports the same problems of the syntax at the same lines and columns
(`parsed_and_reported_alike`). Problems of other kinds are reported alike, too, unless there are
names that only their line breaks tell apart: two keys that differ in nothing else are one key to
the command (`key_rejected_by_command_only`).

## Shape of the proof

Both outcomes are told alike (`ToldAlike`) if they are worlds, or failures of which the same lines
are written. Syntax errors are, as their diagnostics keep their positions
(`toldAlike_syntaxErrors`). All that can fail otherwise comes of citizens whose names are written
differently, so what fails on either side is the same about these names
(`corresponds_behindCitizens`).
-/

namespace WorldDoc

open LineBreak

/-- The characters of a text as a string. -/
def SourceText.string (t : SourceText) : String := String.ofList t.toList

/-- The string of a source has the characters of the source. -/
theorem SourceText.toList_string (t : SourceText) : t.string.toList = t.toList :=
  String.toList_ofList

/-- To write line breaks as line feeds in a source is to do so in its string. -/
theorem SourceText.string_normalized (t : SourceText) :
    t.normalized.string = String.ofList (normalize t.toList) := by
  rw [string, normalized, toList_ofString, String.toList_ofList]

/-- A failure with the line breaks in the names that it is about as line feeds. -/
def Failure.withFeeds : Failure → Failure := renamed normalized id

/-- A failure stands in the same place however line breaks in names are written. -/
theorem Failure.range_withFeeds (f : Failure) : f.withFeeds.range = f.range := by
  cases f <;> rfl

/-- Whether a failure is one of the syntax does not depend on how line breaks in names are
written. -/
theorem Failure.isSyntax_withFeeds (f : Failure) : f.withFeeds.isSyntax = f.isSyntax := by
  cases f <;> rfl

/-- A diagnostic is written alike at places of the same line and column. -/
theorem Diagnostic.render_at {text text' : String} {d : Diagnostic} {r : TextRange}
    (hplace : (LineIndex.ofText text'.toList).lineCol r.start =
      (LineIndex.ofText text.toList).lineCol d.range.start) (path : Option String) :
    { d with range := r }.render (some text') path = d.render (some text) path := by
  unfold render
  simp only [hplace]

namespace Command

/-- Whether a line says something of the file, and does not record an event. -/
def Line.isText : Line → Bool
  | .text _ => true
  | .event _ => false

/-- What is said to be wrong: the lines on standard error apart from the log. -/
def Outcome.problems (o : Outcome) : List Line := o.errors.filter Line.isText

section Report

variable {i : Invocation} {path text text' : String} {result result' : CheckResult}

/-- All that is written about a failure is text, and none of it is an event. -/
theorem filter_isText_failureLines (path text : String) (f : Failure) :
    (failureLines path text f).filter Line.isText = failureLines path text f := by
  refine List.filter_eq_self.mpr fun l hl => ?_
  rw [failureLines] at hl
  split at hl
  · rcases List.mem_cons.mp hl with rfl | hl
    · rfl
    · obtain ⟨d, -, rfl⟩ := List.mem_map.mp hl
      rfl
  · obtain rfl := List.mem_singleton.mp hl
    rfl

/-- A failure that concerns the world is none of the syntax. -/
theorem isSyntax_of_concernsWorld {f : Failure} (h : f.concernsWorld = true) :
    f.isSyntax = false := by
  cases f <;> first | rfl | contradiction

/-- Of a failure that is none of the syntax, only the place may depend on the text. -/
theorem failureLines_semantic {f : Failure} (h : f.isSyntax = false) (path text : String) :
    failureLines path text f =
      let source := if f.range.isSome then some text else none
      [.text s!"Semantic error: {f.diagnostic.render source path}"] := by
  rw [failureLines, if_neg (Bool.eq_false_iff.mp h)]

/-- What is said to be wrong depends on the failure only. -/
theorem problems_report (i : Invocation) (path text : String) (result : CheckResult) :
    (report i path text result).problems = match result.outcome with
      | .ok _ => []
      | .error f => failureLines path text f := by
  have hevents (es : List LogEvent) :
      (if i.verbose then es.map Line.event else []).filter Line.isText = [] := by
    refine List.filter_eq_nil_iff.mpr fun l hl => ?_
    split at hl
    · obtain ⟨e, -, rfl⟩ := List.mem_map.mp hl
      exact Bool.false_ne_true
    · contradiction
  rw [report, CheckResult.failure?]
  cases result.outcome with
  | ok w => exact hevents _
  | error f =>
    show ((if i.verbose then _ else []) ++ failureLines path text f).filter Line.isText = _
    rw [List.filter_append, hevents, filter_isText_failureLines, List.nil_append]

/-- A report has it from its failure whether that is one of the syntax. -/
theorem isSyntaxError_eq (result : CheckResult) :
    result.isSyntaxError = match result.outcome with
      | .ok _ => false
      | .error f => f.isSyntax := by
  rw [CheckResult.isSyntaxError, CheckResult.failure?]
  cases result.outcome <;> rfl

/-- The status is 2 exactly if the report is of syntax errors. -/
theorem status_report_eq_two_iff :
    (report i path text result).status = 2 ↔ result.isSyntaxError = true := by
  rw [status_report, isSyntaxError_eq]
  cases result.outcome with
  | ok w => simp
  | error f => cases f.isSyntax <;> simp

/-- Both outcomes are worlds, or failures of one kind that are reported by the same lines. -/
inductive ToldAlike (text text' : String) : Except Failure World → Except Failure World → Prop where
  | valid (w w' : World) : ToldAlike text text' (.ok w) (.ok w')
  | failed {f f' : Failure} (hkind : f'.isSyntax = f.isSyntax)
    (hlines : ∀ path, failureLines path text' f' = failureLines path text f) :
    ToldAlike text text' (.error f) (.error f')

/-- Outcomes that are told alike are reported with the same status and the same problems. -/
theorem ToldAlike.report_eq (h : ToldAlike text text' result.outcome result'.outcome)
    (i : Invocation) (path : String) :
    (report i path text' result').status = (report i path text result).status ∧
      (report i path text' result').problems = (report i path text result).problems := by
  rw [status_report, status_report, problems_report, problems_report]
  generalize result.outcome = o at h
  generalize result'.outcome = o' at h
  cases h with
  | valid w w' => exact ⟨rfl, rfl⟩
  | failed hkind hlines => exact ⟨by simp only [hkind], hlines path⟩

end Report

section Normalized

variable {source : SourceText} {limit : NestingLimit}

/-- A diagnostic at another place of the text is written as one at that place once the line breaks
are line feeds, if it cuts none of them. -/
theorem render_normalized (h : Paired source.toList) {d : Diagnostic}
    (hstart : d.range.start ≤ source.toList.length)
    (hpaired : Paired (source.toList.take d.range.start)) (path : Option String) :
    (d.stripped source.toList).render (some source.normalized.string) path =
      d.render (some source.string) path := by
  refine Diagnostic.render_at ?_ path
  rw [SourceText.toList_string, SourceText.toList_string, SourceText.toList_normalized h]
  exact lineCol_offsetWithout hstart hpaired

/-- Syntax errors are told alike, since they stand at the same lines and columns. -/
theorem toldAlike_syntaxErrors (h : Paired source.toList) {errors errors' : SyntaxErrors}
    (herrors : errors.diagnostics = (Document.parse source limit).diagnostics)
    (herrors' : errors'.diagnostics = (Document.parse source.normalized limit).diagnostics) :
    ToldAlike source.string source.normalized.string
      (.error (.syntaxErrors errors)) (.error (.syntaxErrors errors')) := by
  refine .failed rfl fun path => congrArg (List.cons _) ?_
  show errors'.diagnostics.map _ = errors.diagnostics.map _
  rw [herrors, herrors', Document.diagnostics_normalized h, List.map_map]
  refine List.map_congr_left fun d hd => ?_
  have hwhole := Document.whole_of_mem_diagnostics h
    ((Document.diagnostics_perm source limit).subset hd)
  rw [Function.comp_apply, render_normalized h hwhole.start_le hwhole.start]

/-- What fails behind the building of citizens is told alike whatever the text is. -/
theorem toldAlike_of_concernsWorld {f : Failure} (hworld : f.concernsWorld = true)
    (hrange : f.range = none) (place : Option TextRange → Option TextRange) (text text' : String) :
    ToldAlike text text' (.error f.withFeeds) (.error (f.renamed normalized place)) := by
  have hsame : f.renamed normalized place = f.withFeeds := by
    cases f <;> first | rfl | contradiction
  have hkind : f.withFeeds.isSyntax = false := by
    rw [f.isSyntax_withFeeds, isSyntax_of_concernsWorld hworld]
  rw [hsame]
  refine .failed rfl fun path => ?_
  rw [failureLines_semantic hkind, failureLines_semantic hkind, f.range_withFeeds, hrange]
  rfl

/-- A key that comes twice is rejected in the same words at the same line and column. -/
theorem toldAlike_duplicateField (h : Paired source.toList) (declaration key : String) {r : TextRange}
    (hstart : r.start ≤ source.toList.length) (hpaired : Paired (source.toList.take r.start)) :
    ToldAlike source.string source.normalized.string
      (.error (Failure.duplicateField declaration key (some r)).withFeeds)
      (.error ((Failure.duplicateField declaration key (some r)).renamed normalized
        (Option.map (TextRange.stripped source.toList)))) := by
  refine .failed rfl fun path => ?_
  have hrender := render_normalized h
    (d := (Failure.duplicateField declaration key (some r)).withFeeds.diagnostic) hstart hpaired
    (some path)
  rw [failureLines_semantic rfl, failureLines_semantic rfl]
  exact congrArg (fun line : String => [Line.text s!"Semantic error: {line}"]) hrender

/-! ## Both outcomes -/

/-- Where nothing is wrong with the syntax of a text, what fails is no matter of the syntax. -/
theorem isSyntax_of_endsIn {settings : Settings} {cs : List Citizen} {f : Failure}
    (hclean : (Document.parse source limit).diagnostics = [])
    (hends : EndsIn settings (.standard limit) source cs (.error f)) : f.isSyntax = false := by
  cases hends with
  | notBuilt hbuilt =>
    obtain ⟨-, declaration, key, range, rfl⟩ :=
      Document.eq_duplicateField_of_citizensBy hclean hbuilt
    rfl
  | notAssembled hbuilt hassembled =>
    exact isSyntax_of_concernsWorld (World.failsBehind_assemble _ _ _ hassembled).1
  | invalid hbuilt hassembled hvalidate hvalid =>
    exact isSyntax_of_concernsWorld (Rule.failsBehind_validate _ _ _ hvalid).1

/-- A text is reported for its syntax exactly if it has diagnostics. -/
theorem isSyntaxError_iff {settings : Settings} {result : CheckResult}
    (hends : EndsIn settings (.standard limit) source result.citizens result.outcome) :
    result.isSyntaxError = true ↔ (Document.parse source limit).diagnostics ≠ [] := by
  rw [isSyntaxError_eq]
  by_cases hclean : (Document.parse source limit).diagnostics = []
  · refine iff_of_false ?_ (not_not_intro hclean)
    cases houtcome : result.outcome with
    | ok w => exact Bool.false_ne_true
    | error f =>
      rw [houtcome] at hends
      exact Bool.eq_false_iff.mp (isSyntax_of_endsIn hclean hends)
  · obtain ⟨errors, herrors, -⟩ := Document.exists_syntaxErrors settings.duplicateFields hclean
    rw [hends.outcome_eq, herrors]
    exact iff_of_true rfl hclean

/-- What comes behind the building of citizens. -/
def behindCitizens (settings : Settings) (citizens : List Citizen) : Except Failure World := do
  let w ← (World.assemble settings.duplicateDeclarations citizens).outcome
  (checkedWorld settings w).outcome

/-- The usual rules find the same wrong with worlds whose names are apart. -/
theorem corresponds_checkedWorld {settings : Settings} (hrules : settings.chosenRules = Rule.standard)
    {f : String → String} {kept : Collection → Set String} {w w' : World}
    (h : World.Renamed f kept w w')
    (hlisted : ∀ origin, w.origin = some origin → ∀ x, origin.Lists x →
      ∀ y ∈ kept .coreEvents, f y = x ↔ y = x) (place : Option TextRange → Option TextRange) :
    Corresponds (fun _ _ => True) (Failure.renamed f place) (checkedWorld settings w).outcome
      (checkedWorld settings w').outcome := by
  rw [checkedWorld, checkedWorld, hrules]
  cases settings.validate with
  | false => exact .ok trivial
  | true =>
    simp only [if_true, Traced.outcome_bind]
    rw [Rule.outcome_validate_renamed h hlisted]
    exact (Rule.corresponds_validate_standard place w).bind fun _ _ _ => .ok trivial

/-- Citizens whose names stay apart come to the same once their names are rewritten. -/
theorem corresponds_behindCitizens {settings : Settings}
    (hrules : settings.chosenRules = Rule.standard) {cs cs' : List Citizen}
    (hbuilt : (citizensBy (.standard limit) .overwrite source).outcome = .ok cs)
    (hapart : ApartWithFeeds cs) (hcs : List.Forall₂ (Citizen.Renamed normalized) cs cs')
    (place : Option TextRange → Option TextRange) :
    Corresponds (fun _ _ => True) (Failure.renamed normalized place) (behindCitizens settings cs)
      (behindCitizens settings cs') := by
  have hassemble : Corresponds (World.Renamed normalized fun of => namesOf cs (.member of))
      (Failure.renamed normalized place)
      (World.assemble settings.duplicateDeclarations cs).outcome
      (World.assemble settings.duplicateDeclarations cs').outcome :=
    World.corresponds_assemble hcs (fun c hc of hkind => ⟨c, hc, hkind, rfl⟩)
      (fun of => hapart.names (.member of))
  rw [behindCitizens, behindCitizens]
  generalize hw : (World.assemble settings.duplicateDeclarations cs).outcome = o at hassemble ⊢
  generalize (World.assemble settings.duplicateDeclarations cs').outcome = o' at hassemble ⊢
  cases hassemble with
  | error f => exact .error f
  | @ok w w' hrenamed =>
    refine corresponds_checkedWorld hrules hrenamed (fun origin horigin x hx => ?_) place
    rintro _ ⟨c, hc, -, rfl⟩
    -- an anchor is a word, and no other name becomes one
    have hword := Document.isWord_of_lists hbuilt (World.origin_mem_of_assemble hw horigin) hx
    exact normalized_eq_iff_of_isWord hword
      (isName_of_nameIn (Document.namedBy_of_citizensBy hbuilt hc).name)

/-- Both texts are told alike, but for the line breaks in names, if names that differ in more than
these are all that there are. -/
theorem toldAlike_of_endsIn (h : Paired source.toList) {settings : Settings}
    (hrules : settings.chosenRules = Rule.standard) {cs cs' : List Citizen}
    {o o' : Except Failure World} (hends : EndsIn settings (.standard limit) source cs o)
    (hends' : EndsIn settings (.standard limit) source.normalized cs' o')
    (hapart : ∀ citizens, (citizensBy (.standard limit) .overwrite source).outcome = .ok citizens →
      ApartWithFeeds citizens) :
    ToldAlike source.string source.normalized.string (o.mapError Failure.withFeeds) o' := by
  by_cases hclean : (Document.parse source limit).diagnostics = []
  · obtain ⟨citizens, hbuilt⟩ := Document.exists_outcome_of_overwrite hclean
    obtain ⟨citizens', hrenamed, hall⟩ :=
      Document.corresponds_normalized h hbuilt (hapart citizens hbuilt)
    have hcorresponds : Corresponds (fun _ _ => True)
        (Failure.renamed normalized (Option.map (TextRange.stripped source.toList))) o o' := by
      rw [hends.outcome_eq, hends'.outcome_eq]
      refine (hall settings.duplicateFields).bind fun ds ds' hds => ?_
      rw [hds.1, hds.2]
      exact corresponds_behindCitizens hrules hbuilt (hapart citizens hbuilt) hrenamed _
    cases hcorresponds with
    | @ok w w' => exact .valid w w'
    | error f =>
      cases hends with
      | notBuilt hfails =>
        obtain ⟨-, declaration, key, range, rfl⟩ :=
          Document.eq_duplicateField_of_citizensBy hclean hfails
        obtain ⟨r, rfl, hstart, hpaired⟩ :=
          Document.paired_take_start_of_duplicateField h hclean hfails
        exact toldAlike_duplicateField h declaration key hstart hpaired
      | notAssembled _ hassembled =>
        obtain ⟨hworld, hrange⟩ := World.failsBehind_assemble _ _ _ hassembled
        exact toldAlike_of_concernsWorld hworld hrange _ _ _
      | invalid _ _ _ hvalid =>
        obtain ⟨hworld, hrange⟩ := Rule.failsBehind_validate _ _ _ hvalid
        exact toldAlike_of_concernsWorld hworld hrange _ _ _
  · have hclean' : (Document.parse source.normalized limit).diagnostics ≠ [] := by
      rwa [Document.diagnostics_normalized h, Ne, List.map_eq_nil_iff]
    obtain ⟨errors, hfails, herrors⟩ :=
      Document.exists_syntaxErrors settings.duplicateFields hclean
    obtain ⟨errors', hfails', herrors'⟩ :=
      Document.exists_syntaxErrors settings.duplicateFields hclean'
    rw [hends.outcome_eq, hends'.outcome_eq, hfails, hfails']
    exact toldAlike_syntaxErrors h herrors herrors'

end Normalized

/-! ## The command -/

/-- The same things are wrong with two texts at the same lines and columns. -/
def FoundAlike (source source' : SourceText) (d d' : Diagnostic) : Prop :=
  d'.code = d.code ∧ d'.message = d.message ∧ d'.severity = d.severity ∧ d'.hint = d.hint ∧
    d'.category = d.category ∧
    (LineIndex.ofText source'.toList).lineCol d'.range.start =
      (LineIndex.ofText source.toList).lineCol d.range.start

/-- A text whose carriage returns are all followed by line feeds is parsed like the same text with
line feeds in place of these pairs: the trees have one shape and the same tokens, each with its line
breaks as line feeds, and the diagnostics are the same one by one, at the same lines and columns. So
the command, which reads a file with its line breaks as line feeds, ends in the status of wrong
syntax exactly if the text of the file is checked with syntax errors, and then it says of the file
what the check of its text says. It does so whatever is wrong, but for the line breaks in the names
that it quotes, if all line breaks of the text are CR LF, or else if no two keys of one citizen and
no names of two citizens of one kind differ in their line breaks only. -/
theorem parsed_and_reported_alike (source : SourceText) (h : Paired source.toList) :
    (∀ limit,
      (Document.parse source.normalized limit).root.erased =
        ((Document.parse source limit).root.retexted normalize).erased ∧
      List.Forall₂ (FoundAlike source source.normalized)
        (Document.parse source limit).diagnostics
        (Document.parse source.normalized limit).diagnostics) ∧
    ∀ read i bytes, read (simplifyPath i.file) = .ok bytes →
      Utf8.decode bytes = .ok source.toList →
      ∃ result, runCheck i.settings source = .ok result ∧
        ((Command.check read i).status = 2 ↔ result.isSyntaxError = true) ∧
        (result.isSyntaxError = true ∨ FeedsPaired source.toList ∨
            (∀ citizens, (citizensBy .standard .overwrite source).outcome = .ok citizens →
              ApartWithFeeds citizens) →
          let told := report i (simplifyPath i.file) source.string
            { result with outcome := result.outcome.mapError Failure.withFeeds }
          (Command.check read i).status = told.status ∧
            (Command.check read i).problems = told.problems) := by
  refine ⟨fun limit => ⟨?_, ?_⟩, fun read i bytes hread hdecode => ?_⟩
  · exact (SyntaxTree.erased_eq_of_gist_eq (Document.gist_normalized h limit)).symm
  · rw [Document.diagnostics_normalized h, List.forall₂_map_right_iff, List.forall₂_same]
    exact fun d hd => ⟨rfl, rfl, rfl, rfl, rfl, Document.lineCol_normalized h hd⟩
  · obtain ⟨run, result, -, hcheck, houtcome, hends⟩ := exists_result i source
    obtain ⟨run', result', -, hcheck', houtcome', hends'⟩ := exists_result i source.normalized
    rw [← houtcome] at hends
    rw [← houtcome'] at hends'
    have htext : textOf bytes = .ok (String.ofList (normalize source.toList)) := by
      rw [textOf, hdecode]
      rfl
    rw [check_eq_report hread htext hcheck', ← SourceText.string_normalized]
    refine ⟨result, hcheck, ?_, fun hnames => ?_⟩
    · rw [status_report_eq_two_iff, isSyntaxError_iff hends, isSyntaxError_iff hends',
        Document.diagnostics_normalized h, Ne, List.map_eq_nil_iff]
    · have hapart (citizens : List Citizen)
          (hbuilt : (citizensBy .standard .overwrite source).outcome = .ok citizens) :
          ApartWithFeeds citizens := by
        rcases hnames with hwrong | hfeeds | hall
        · exact absurd (Document.diagnostics_eq_nil_of_outcome_citizensBy hbuilt)
            ((isSyntaxError_iff hends).mp hwrong)
        · exact Document.apartWithFeeds_of_feedsPaired h hfeeds hbuilt
        · exact hall citizens hbuilt
      exact (toldAlike_of_endsIn h rfl hends hends' hapart).report_eq i _

/-- A text with all its line breaks as CR LF, where a key with a line break comes twice. -/
def breakInKey : SourceText :=
  .ofString "@Era E \x7b\r\n\"\"\"a\r\nb\"\"\": 1,\r\n \"\"\"a\r\nb\"\"\": 2\r\n\x7d"

/-- The command, which is to reject keys that come twice, reports the later one in the fourth line,
as the check of the text does. -/
theorem parsed_and_reported_alike_with_key_twice :
    Paired breakInKey.toList ∧
      List.Forall₂ (FoundAlike breakInKey breakInKey.normalized)
        (Document.parse breakInKey .standard).diagnostics
        (Document.parse breakInKey.normalized .standard).diagnostics ∧
      ∃ result, runCheck (Invocation.settings ⟨"f", true, true, false⟩) breakInKey = .ok result ∧
        (Command.check (fun _ => .ok breakInKey.string.toUTF8.toList)
          ⟨"f", true, true, false⟩).problems =
          (report ⟨"f", true, true, false⟩ "f" breakInKey.string
            { result with outcome := result.outcome.mapError Failure.withFeeds }).problems ∧
        (Command.check (fun _ => .ok breakInKey.string.toUTF8.toList)
          ⟨"f", true, true, false⟩).problems = [.text ("Semantic error: f:4:2: " ++
            "error[AST_DUPLICATE_FIELD] field `\"\"\"a\nb\"\"\"` declared more than once in `E` " ++
            "(hint: Keep one entry per key, or allow overwriting duplicates.)")] := by
  have hpaired : Paired breakInKey.toList := by decide
  obtain ⟨hparsed, hreported⟩ := parsed_and_reported_alike breakInKey hpaired
  obtain ⟨result, hcheck, hkind, htold⟩ := hreported
    (fun _ => .ok breakInKey.string.toUTF8.toList) ⟨"f", true, true, false⟩
    breakInKey.string.toUTF8.toList rfl (eq_ok_of_toOption (by decide +kernel))
  have hfeeds : FeedsPaired breakInKey.toList := by decide
  exact ⟨hpaired, (hparsed .standard).2, result, hcheck, (htold (Or.inr (Or.inl hfeeds))).2,
    by decide +kernel⟩

/-- An Origin with two keys that differ in their line breaks only. -/
def twoBreaksAsKeys : SourceText :=
  .ofString "@Origin o \x7b\"\"\"\r\n\"\"\": 1, \"\"\"\n\"\"\": 2\x7d"

/-- To the command, which is to reject keys that come twice, the later one is the same as the
earlier one. When the text is checked as it stands nothing is wrong with it. -/
theorem key_rejected_by_command_only :
    Paired twoBreaksAsKeys.toList ∧
      Utf8.decode twoBreaksAsKeys.string.toUTF8.toList = .ok twoBreaksAsKeys.toList ∧
      (∃ result, runCheck (Invocation.settings ⟨"f", true, true, false⟩) twoBreaksAsKeys = .ok result ∧
        (report ⟨"f", true, true, false⟩ "f" twoBreaksAsKeys.string result).status = 0 ∧
        (report ⟨"f", true, true, false⟩ "f" twoBreaksAsKeys.string result).problems = []) ∧
      (Command.check (fun _ => .ok twoBreaksAsKeys.string.toUTF8.toList)
        ⟨"f", true, true, false⟩).status = 1 ∧
      (Command.check (fun _ => .ok twoBreaksAsKeys.string.toUTF8.toList)
        ⟨"f", true, true, false⟩).problems = [.text ("Semantic error: f:2:9: " ++
          "error[AST_DUPLICATE_FIELD] field `\"\"\"\n\"\"\"` declared more than once in `o` " ++
          "(hint: Keep one entry per key, or allow overwriting duplicates.)")] := by
  refine ⟨by decide, eq_ok_of_toOption (by decide +kernel), ?_, by decide +kernel,
    by decide +kernel⟩
  have htold : ((runCheck (Invocation.settings ⟨"f", true, true, false⟩)
      twoBreaksAsKeys).toOption.map fun result =>
        let told := report ⟨"f", true, true, false⟩ "f" twoBreaksAsKeys.string result
        (told.status, told.problems)) = some (0, []) := by decide +kernel
  obtain ⟨result, hresult, htold⟩ := Option.map_eq_some_iff.mp htold
  obtain ⟨hstatus, hproblems⟩ := Prod.mk.inj htold
  exact ⟨result, eq_ok_of_toOption hresult, hstatus, hproblems⟩

end Command

end WorldDoc
