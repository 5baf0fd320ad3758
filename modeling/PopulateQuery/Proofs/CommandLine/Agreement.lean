import PopulateQuery.CommandLine.Run
import PopulateQuery.Proofs.Compilation

/-!
# Compiling and explaining agree

A compiled value and an explained one load the options and compile in the same way, but an explanation
reads the expressions before. As compiling under any options refuses what cannot be read, this makes no
difference to what succeeds, and only where the options cannot be loaded either does it decide which of two
failures is reported (`compiling_and_explaining_agree`).
-/

namespace PopulateQuery

/-! ## What cannot be read -/

theorem Options.compile_of_unread (o : Options) {value : String} {e : QueryError}
    (h : Expression.readAll value = .error e) : (o.compile value).result = .error e := by
  rw [compile_eq, h]
  rfl

namespace CommandLine.Setup

/-- The setup with another format and verbosity. -/
def showing (s : Setup) (format : Format) (verbose : Bool) : Setup :=
  { s with settings := { s.settings with format, verbose } }

/-- What a verbose call shows before it compiles a value. -/
def inputLines (s : Setup) (value : String) : List String :=
  if s.settings.verbose then [s.paint .label "Input:" ++ " " ++ s.paint .field value] else []

variable {s : Setup} {value : String}

/-! ## Loading and compiling -/

/-- A failure to load the options is never mistaken for one of the value. -/
theorem loadOptions_ne_value (e : QueryError) : s.loadOptions.result ≠ .error (.value e) := by
  unfold loadOptions loadOptionsWith
  split
  · rename_i path _
    cases h : (Options.loadWith tomlReader s.environment.files path).result <;>
      simp [Transcript.ofLogged, h, Except.mapError]
  · cases h : (Options.discoverWith tomlReader s.environment.files s.environment.userDirectory).result <;>
      simp [Transcript.ofLogged, h, Except.mapError]

theorem loadOptions_lines : s.loadOptions.lines = [] := by
  unfold loadOptions loadOptionsWith
  split <;> rfl

theorem compileForest_of_unloaded {failure : Failure} (h : s.loadOptions.result = .error failure) :
    (s.compileForest value).lines = [] ∧ (s.compileForest value).result = .error failure := by
  rw [compileForest, Transcript.bind_of_error h]
  exact ⟨loadOptions_lines, rfl⟩

theorem compileForest_of_loaded {o : Options} (h : s.loadOptions.result = .ok o) :
    (s.compileForest value).lines = [] ∧
      (s.compileForest value).result = (o.compile value).result.mapError .value := by
  rw [compileForest, Transcript.bind_of_ok h, loadOptions_lines]
  exact ⟨rfl, rfl⟩

theorem compileForest_lines : (s.compileForest value).lines = [] := by
  cases h : s.loadOptions.result with
  | error failure => exact (compileForest_of_unloaded h).1
  | ok o => exact (compileForest_of_loaded h).1

theorem compileForest_eq_ok_iff {f : Forest} : (s.compileForest value).result = .ok f ↔
    ∃ o, s.loadOptions.result = .ok o ∧ (o.compile value).result = .ok f := by
  cases h : s.loadOptions.result with
  | error failure =>
    have hresult : (s.compileForest value).result = .error failure := (compileForest_of_unloaded h).2
    simp [hresult]
  | ok o =>
    rw [(compileForest_of_loaded h).2]
    cases hvalue : (o.compile value).result <;> simp [Except.mapError, hvalue]

/-- Where the options are loaded, what cannot be read is refused with the same error. -/
theorem compileForest_of_unread {o : Options} (h : s.loadOptions.result = .ok o) {e : QueryError}
    (hread : Expression.readAll value = .error e) : (s.compileForest value).result = .error (.value e) := by
  rw [(compileForest_of_loaded h).2, o.compile_of_unread hread]
  rfl

/-! ## A compiled value -/

theorem compileValue_eq : s.compileValue value =
    ⟨s.inputLines value, [], .ok ()⟩ >>= fun _ => s.compileForest value >>= fun f => .say (s.forestLines f) := by
  unfold compileValue inputLines
  split <;> rfl

theorem compileValue_of_ok {f : Forest} (h : (s.compileForest value).result = .ok f) :
    (s.compileValue value).lines = s.inputLines value ++ s.forestLines f ∧
      (s.compileValue value).result = .ok () := by
  rw [compileValue_eq, Transcript.bind_of_ok rfl, Transcript.bind_of_ok h, compileForest_lines]
  exact ⟨rfl, rfl⟩

theorem compileValue_of_error {failure : Failure} (h : (s.compileForest value).result = .error failure) :
    (s.compileValue value).lines = s.inputLines value ∧ (s.compileValue value).result = .error failure := by
  rw [compileValue_eq, Transcript.bind_of_ok rfl, Transcript.bind_of_error h, compileForest_lines]
  exact ⟨List.append_nil _, rfl⟩

/-! ## An explained value -/

theorem explainValue_of_unread {e : QueryError} (h : Expression.readAll value = .error e) :
    (s.explainValue value).result = .error (.value e) := by
  unfold explainValue
  rw [h]
  rfl

theorem explainValue_of_read {es : List Expression} (h : Expression.readAll value = .ok es) :
    s.explainValue value =
      ⟨explanationHead s.paint value ++ expressionList s.paint es, [], .ok ()⟩ >>= fun _ =>
        s.compileForest value >>= fun f => .say (explanationTail s.paint f) := by
  unfold explainValue
  rw [h]
  rfl

theorem explainValue_of_ok {es : List Expression} (hread : Expression.readAll value = .ok es) {f : Forest}
    (h : (s.compileForest value).result = .ok f) :
    (s.explainValue value).lines = explanationHead s.paint value ++ expressionList s.paint es ++
        explanationTail s.paint f ∧ (s.explainValue value).result = .ok () := by
  rw [explainValue_of_read hread, Transcript.bind_of_ok rfl, Transcript.bind_of_ok h, compileForest_lines]
  exact ⟨rfl, rfl⟩

theorem explainValue_of_error {es : List Expression} (hread : Expression.readAll value = .ok es)
    {failure : Failure} (h : (s.compileForest value).result = .error failure) :
    (s.explainValue value).result = .error failure := by
  rw [explainValue_of_read hread, Transcript.bind_of_ok rfl, Transcript.bind_of_error h]

/-! ## Both -/

/-- What can be read is compiled and explained with the same result. -/
theorem result_eq_of_read {es : List Expression} (hread : Expression.readAll value = .ok es) :
    (s.compileValue value).result = (s.explainValue value).result := by
  cases h : (s.compileForest value).result with
  | error failure => rw [(compileValue_of_error h).2, explainValue_of_error hread h]
  | ok f => rw [(compileValue_of_ok h).2, (explainValue_of_ok hread h).2]

theorem result_eq_of_loaded {o : Options} (hload : s.loadOptions.result = .ok o) :
    (s.compileValue value).result = (s.explainValue value).result := by
  cases hread : Expression.readAll value with
  | ok es => exact result_eq_of_read hread
  | error e => rw [(compileValue_of_error (compileForest_of_unread hload hread)).2, explainValue_of_unread hread]

/-- Where neither the options are loaded nor the value can be read, each way reports what it meets first. -/
theorem result_of_unloaded_of_unread {failure : Failure} (hload : s.loadOptions.result = .error failure)
    {e : QueryError} (hread : Expression.readAll value = .error e) :
    (s.compileValue value).result = .error failure ∧ (s.explainValue value).result = .error (.value e) :=
  ⟨(compileValue_of_error (compileForest_of_unloaded hload).2).2, explainValue_of_unread hread⟩

/-- The failures differ exactly where neither the options are loaded nor the value can be read. -/
theorem result_ne_iff : (s.compileValue value).result ≠ (s.explainValue value).result ↔
    ∃ failure e, s.loadOptions.result = .error failure ∧ Expression.readAll value = .error e := by
  constructor
  · intro hne
    cases hload : s.loadOptions.result with
    | ok o => exact absurd (result_eq_of_loaded hload) hne
    | error failure =>
      cases hread : Expression.readAll value with
      | ok es => exact absurd (result_eq_of_read hread) hne
      | error e => exact ⟨failure, e, rfl, rfl⟩
  · rintro ⟨failure, e, hload, hread⟩ heq
    obtain ⟨hcompiled, hexplained⟩ := result_of_unloaded_of_unread hload hread
    rw [hcompiled, hexplained, Except.error.injEq] at heq
    -- the one failure would be to load and the other of the value
    exact loadOptions_ne_value e (heq ▸ hload)

theorem compileValue_eq_ok_iff : (s.compileValue value).result = .ok () ↔
    ∃ o f, s.loadOptions.result = .ok o ∧ (o.compile value).result = .ok f := by
  rw [exists_comm]
  simp only [← compileForest_eq_ok_iff]
  cases h : (s.compileForest value).result with
  | error failure => simp [(compileValue_of_error h).2]
  | ok f => simp [(compileValue_of_ok h).2]

theorem explainValue_eq_ok_iff : (s.explainValue value).result = .ok () ↔
    ∃ o f, s.loadOptions.result = .ok o ∧ (o.compile value).result = .ok f := by
  cases hread : Expression.readAll value with
  | ok es => rw [← result_eq_of_read hread, compileValue_eq_ok_iff]
  | error e =>
    rw [explainValue_of_unread hread]
    simp only [reduceCtorEq, false_iff]
    rintro ⟨o, f, -, hf⟩
    rw [o.compile_of_unread hread] at hf
    cases hf

/-- A compiled value that fails has shown nothing but the value itself. -/
theorem lines_of_compileValue_error {failure : Failure} (h : (s.compileValue value).result = .error failure) :
    (s.compileValue value).lines = s.inputLines value := by
  cases hforest : (s.compileForest value).result with
  | error failure' => exact (compileValue_of_error hforest).1
  | ok f =>
    rw [(compileValue_of_ok hforest).2] at h
    cases h

/-- The format and the verbosity decide nothing about the result. -/
theorem compileValue_showing_result (format : Format) (verbose : Bool) :
    ((s.showing format verbose).compileValue value).result = (s.compileValue value).result := by
  have hforest : (s.showing format verbose).compileForest value = s.compileForest value := rfl
  cases h : (s.compileForest value).result with
  | error failure => rw [(compileValue_of_error h).2, (compileValue_of_error (hforest ▸ h)).2]
  | ok f => rw [(compileValue_of_ok h).2, (compileValue_of_ok (hforest ▸ h)).2]

/-- **Compiling and explaining agree**, whatever the format and the verbosity of each. One succeeds where
the other does, and this is where the options are loaded and the value compiles under them. Where the options
are loaded the two have the same result. Their results differ exactly where neither the options are loaded nor
the value can be read; then the one reports the failure to load and the other what cannot be read. A call
that compiles a value, is not verbose and fails leaves nothing but its log and the exit code 1. Where both
succeed, the descriptors, the two trees and the canonical text are those of one forest. -/
theorem compiling_and_explaining_agree (s : Setup) (value : String) :
    (∀ (format : Format) (verbose : Bool),
      (((s.showing format verbose).compileValue value).result = .ok () ↔
        (s.explainValue value).result = .ok ()) ∧
      (((s.showing format verbose).compileValue value).result = .ok () ↔
        ∃ o f, s.loadOptions.result = .ok o ∧ (o.compile value).result = .ok f) ∧
      (∀ o, s.loadOptions.result = .ok o →
        ((s.showing format verbose).compileValue value).result = (s.explainValue value).result) ∧
      (((s.showing format verbose).compileValue value).result ≠ (s.explainValue value).result ↔
        ∃ failure e, s.loadOptions.result = .error failure ∧ Expression.readAll value = .error e) ∧
      (∀ failure e, s.loadOptions.result = .error failure → Expression.readAll value = .error e →
        ((s.showing format verbose).compileValue value).result = .error failure ∧
        (s.explainValue value).result = .error (.value e)) ∧
      ∀ failure, ((s.showing format false).compileValue value).result = .error failure →
        ∃ log, ending (s.showing format false) ((s.showing format false).compileValue value) =
          .ended 1 "" log) ∧
    ∀ o f, s.loadOptions.result = .ok o → (o.compile value).result = .ok f → ∃ es,
      Expression.readAll value = .ok es ∧ f = .ofExpressions es ∧
      (∀ verbose,
        ((s.showing .json verbose).compileValue value).lines =
          (s.showing .json verbose).inputLines value ++ [(Descriptor.listToJson f.descriptors).pretty] ∧
        ((s.showing .tree verbose).compileValue value).lines =
          (s.showing .tree verbose).inputLines value ++ treeLines s.paint f) ∧
      (s.explainValue value).lines = explanationHead s.paint value ++ expressionList s.paint es ++
        (["", s.paint .heading "Merged Tree:"] ++ treeLines s.paint f ++
          ["", s.paint .label "Canonical:" ++ " " ++ s.paint .text f.render]) := by
  refine ⟨fun format verbose => ?_, fun o f hload hf => ?_⟩
  · rw [compileValue_showing_result]
    refine ⟨?_, compileValue_eq_ok_iff, fun o hload => result_eq_of_loaded hload, result_ne_iff,
      fun failure e hload hread => result_of_unloaded_of_unread hload hread, fun failure h => ?_⟩
    · rw [compileValue_eq_ok_iff, explainValue_eq_ok_iff]
    · rw [ending, h, lines_of_compileValue_error h]
      exact ⟨_, rfl⟩
  · obtain ⟨es, hread, -, hmerged⟩ := Options.compile_eq_ok_iff.1 hf
    have hforest : (s.compileForest value).result = .ok f := compileForest_eq_ok_iff.2 ⟨o, hload, hf⟩
    refine ⟨es, hread, hmerged, fun verbose => ⟨?_, ?_⟩, (explainValue_of_ok hread hforest).1⟩
    · exact (compileValue_of_ok (s := s.showing .json verbose) hforest).1
    · exact (compileValue_of_ok (s := s.showing .tree verbose) hforest).1

/-- Without an options file a value with an empty name and one that compiles; and the first of them where a
directory stands at the place of the options file. -/
theorem compiling_and_explaining_agree_around_a_broken_file :
    ((compileValue ⟨{ files := fun _ => .absent .notFound }, {}⟩ "a::b").result =
      (explainValue ⟨{ files := fun _ => .absent .notFound }, {}⟩ "a::b").result) ∧
    ((compileValue ⟨{ files := fun _ => .directory }, {}⟩ "a::b").result =
        .error (.usualOptions (.io .isADirectory)) ∧
      (explainValue ⟨{ files := fun _ => .directory }, {}⟩ "a::b").result =
        .error (.value (.malformed "a::b" (.emptyRelation 2)))) ∧
    (∃ log, ending ⟨{ files := fun _ => .directory }, {}⟩
      (compileValue ⟨{ files := fun _ => .directory }, {}⟩ "a::b") = .ended 1 "" log) ∧
    (compileValue ⟨{ files := fun _ => .absent .notFound }, { format := .tree }⟩ "b.x , a").lines =
      treeLines (painter false) (.tree "b" ["x"] .empty (.tree "a" [] .empty .empty)) := by
  have hread : Expression.readAll "a::b" = .error (.malformed "a::b" (.emptyRelation 2)) := by decide +kernel
  have hforest : (Options.compile {} "b.x , a").result =
      .ok (.tree "b" ["x"] .empty (.tree "a" [] .empty .empty)) := by decide +kernel
  have hmissing := compiling_and_explaining_agree ⟨{ files := fun _ => .absent .notFound }, {}⟩ "a::b"
  have hbroken := compiling_and_explaining_agree ⟨{ files := fun _ => .directory }, {}⟩ "a::b"
  have hdifferent := (hbroken.1 .json false).2.2.2.2.1 _ _ rfl hread
  obtain ⟨es, -, -, hlines, -⟩ :=
    (compiling_and_explaining_agree ⟨{ files := fun _ => .absent .notFound }, {}⟩ "b.x , a").2 {} _ rfl hforest
  exact ⟨(hmissing.1 .json false).2.2.1 {} rfl, hdifferent, (hbroken.1 .json false).2.2.2.2.2 _ hdifferent.1,
    (hlines false).2⟩

end CommandLine.Setup

end PopulateQuery
