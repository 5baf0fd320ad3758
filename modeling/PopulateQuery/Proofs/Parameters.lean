import PopulateQuery.Proofs.Descriptor.Restoring
import PopulateQuery.Proofs.Restriction
import PopulateQuery.Query

/-!
# Parameters of two kinds

The parameters of a query are the populate values and those for the filter compiler, in any interleaving.
The one loop over them is a fold over the second kind alone, with the values of the first kind collected
beside it (`sortParameters_eq`), as in `parse_pairs`. So a query depends on the two lists only: neither the result nor the
events say how the two were interleaved (`compile_of_interleaving`), and a refusal by the filter compiler
comes before anything that is wrong with a populate value.
-/

namespace PopulateQuery

def Filter.ofConditions (conditions : List (String × Json)) : Filter :=
  conditions.foldl (fun filter entry => filter.set entry.1 entry.2) []

namespace QueryCompiler

/-- The values of the populate parameter, in their order. -/
def populateValues (c : QueryCompiler) (parameters : List (String × String)) : List String :=
  (parameters.filter fun p => p.1 = c.options.populateKey).map Prod.snd

def filterParameters (c : QueryCompiler) (parameters : List (String × String)) :
    List (String × String) :=
  parameters.filter fun p => p.1 ≠ c.options.populateKey

/-- Whether the filter compiler takes a parameter or passes it over, and does not refuse it. -/
def Accepts (c : QueryCompiler) (parameter : String × String) : Prop :=
  ∃ entry, c.filter parameter.1 parameter.2 = .ok entry

/-- The conditions that the filter compiler makes of parameters, in their order. -/
def conditions (c : QueryCompiler) (parameters : List (String × String)) : List (String × Json) :=
  parameters.filterMap fun p => (c.filter p.1 p.2).toOption.join

/-- Adds to a filter what the filter compiler makes of one parameter. -/
def addParameter (c : QueryCompiler) (filter : Filter) (parameter : String × String) :
    Logged Filter := do
  match ← c.filter parameter.1 parameter.2 with
  | none => pure filter
  | some (field, condition) => addCondition filter field condition

variable (c : QueryCompiler)

/-! ## One parameter -/

section One
variable {key : String} (value : String) (rest : List (String × String))

theorem populateValues_cons_self (h : key = c.options.populateKey) :
    c.populateValues ((key, value) :: rest) = value :: c.populateValues rest := by
  simp [populateValues, h]

theorem populateValues_cons_of_ne (h : key ≠ c.options.populateKey) :
    c.populateValues ((key, value) :: rest) = c.populateValues rest := by
  simp [populateValues, h]

theorem filterParameters_cons_self (h : key = c.options.populateKey) :
    c.filterParameters ((key, value) :: rest) = c.filterParameters rest := by
  simp [filterParameters, h]

theorem filterParameters_cons_of_ne (h : key ≠ c.options.populateKey) :
    c.filterParameters ((key, value) :: rest) = (key, value) :: c.filterParameters rest := by
  simp [filterParameters, h]

theorem sortParameters_cons_self (filter : Filter) (h : key = c.options.populateKey) :
    c.sortParameters filter ((key, value) :: rest) =
      c.sortParameters filter rest >>= fun r => pure (r.1, value :: r.2) := by
  rw [sortParameters, if_pos h]

theorem sortParameters_cons_of_ne (filter : Filter) (h : key ≠ c.options.populateKey) :
    c.sortParameters filter ((key, value) :: rest) =
      c.addParameter filter (key, value) >>= fun filter => c.sortParameters filter rest := by
  rw [sortParameters, if_neg h, addParameter, bind_assoc]
  refine bind_congr fun entry => ?_
  cases entry with
  | none => rw [pure_bind]
  | some entry => rfl

end One

theorem addCondition_result (filter : Filter) (field : String) (condition : Json) :
    (addCondition filter field condition).result = .ok (filter.set field condition) := by
  unfold addCondition
  split <;> rfl

theorem addParameter_eq (filter : Filter) (p : String × String) :
    c.addParameter filter p = match c.filter p.1 p.2 with
      | .error e => Logged.refuse e
      | .ok none => pure filter
      | .ok (some entry) => addCondition filter entry.1 entry.2 := by
  have hrun : c.addParameter filter p = Logged.ofExcept (c.filter p.1 p.2) >>= fun entry =>
      match entry with
      | none => pure filter
      | some (field, condition) => addCondition filter field condition := rfl
  rw [hrun]
  cases c.filter p.1 p.2 with
  | error e => rw [Logged.ofExcept_error_bind]
  | ok entry =>
    rw [Logged.ofExcept_ok_bind]
    cases entry <;> rfl

theorem addParameter_of_ok {filter : Filter} {p : String × String} {entry : Option (String × Json)}
    (h : c.filter p.1 p.2 = .ok entry) :
    (c.addParameter filter p).result =
      .ok (entry.elim filter fun entry => filter.set entry.1 entry.2) := by
  rw [addParameter_eq, h]
  cases entry with
  | none => rfl
  | some entry => exact addCondition_result filter entry.1 entry.2

theorem addParameter_of_error {filter : Filter} {p : String × String} {e : QueryError}
    (h : c.filter p.1 p.2 = .error e) : c.addParameter filter p = Logged.refuse e := by
  rw [addParameter_eq, h]

/-! ## The loop -/

/-- **The loop over all parameters** is a fold over those for the filter compiler. -/
theorem sortParameters_eq (filter : Filter) (parameters : List (String × String)) :
    c.sortParameters filter parameters =
      (c.filterParameters parameters).foldlM c.addParameter filter >>= fun filter =>
        pure (filter, c.populateValues parameters) := by
  induction parameters generalizing filter with
  | nil => rfl
  | cons p rest ih =>
    obtain ⟨key, value⟩ := p
    by_cases h : key = c.options.populateKey
    · rw [sortParameters_cons_self c value rest filter h, filterParameters_cons_self c value rest h,
        populateValues_cons_self c value rest h, ih, bind_assoc]
      simp only [pure_bind]
    · rw [sortParameters_cons_of_ne c value rest filter h, filterParameters_cons_of_ne c value rest h,
        populateValues_cons_of_ne c value rest h, List.foldlM_cons, bind_assoc]
      exact bind_congr fun filter => ih filter

/-- Where the filter compiler refuses none of the parameters, the fold sets their conditions. -/
theorem foldlM_addParameter_of_accepts {parameters : List (String × String)}
    (h : ∀ p ∈ parameters, c.Accepts p) (filter : Filter) :
    (parameters.foldlM c.addParameter filter).result =
      .ok ((c.conditions parameters).foldl (fun filter entry => filter.set entry.1 entry.2) filter) := by
  induction parameters generalizing filter with
  | nil => rfl
  | cons p rest ih =>
    obtain ⟨⟨entry, hentry⟩, hrest⟩ := List.forall_mem_cons.1 h
    rw [List.foldlM_cons, Logged.bind_of_ok (c.addParameter_of_ok hentry), ih hrest]
    cases entry <;> simp [conditions, hentry, Except.toOption]

/-- The first parameter that the filter compiler refuses decides the error. -/
theorem foldlM_addParameter_of_refused {before after : List (String × String)} {p : String × String}
    {e : QueryError} (h : ∀ p ∈ before, c.Accepts p) (he : c.filter p.1 p.2 = .error e)
    (filter : Filter) :
    ((before ++ p :: after).foldlM c.addParameter filter).result = .error e := by
  rw [List.foldlM_append, Logged.bind_of_ok (c.foldlM_addParameter_of_accepts h filter),
    List.foldlM_cons, c.addParameter_of_error he]
  rfl

/-! ## The query -/

theorem compile_eq (parameters : List (String × String)) :
    c.compile parameters =
      (c.filterParameters parameters).foldlM c.addParameter [] >>= fun filter =>
        if (c.populateValues parameters).isEmpty then pure ⟨filter, []⟩
        else c.options.compile (",".intercalate (c.populateValues parameters)) >>= fun forest =>
          pure ⟨filter, forest.descriptors⟩ := by
  have h : c.compile parameters = c.sortParameters [] parameters >>= fun r =>
      if r.2.isEmpty then pure ⟨r.1, []⟩
      else c.options.compile (",".intercalate r.2) >>= fun forest => pure ⟨r.1, forest.descriptors⟩ := rfl
  rw [h, sortParameters_eq, bind_assoc]
  simp only [pure_bind]

/-- A populate value that compiles has something to hydrate. -/
theorem descriptors_ne_nil_of_compile {o : Options} {value : String} {f : Forest}
    (h : (o.compile value).result = .ok f) : f.descriptors ≠ [] := by
  have hne := Forest.ne_empty_of_compile (Options.compile_eq_ok_iff_allows.1 h).1
  exact fun hnil => hne (Forest.descriptors_eq_nil_iff.1 hnil)

section Accepted
variable {parameters : List (String × String)} (h : ∀ p ∈ c.filterParameters parameters, c.Accepts p)
include h

/-- Where no parameter is refused, the filter is that of the conditions, and what is left to do is to
compile the populate values. -/
theorem compile_result_of_accepts :
    (c.compile parameters).result =
      (if (c.populateValues parameters).isEmpty then
        pure ⟨.ofConditions (c.conditions (c.filterParameters parameters)), []⟩
      else c.options.compile (",".intercalate (c.populateValues parameters)) >>= fun forest =>
        pure ⟨.ofConditions (c.conditions (c.filterParameters parameters)), forest.descriptors⟩
          : Logged Query).result := by
  rw [compile_eq, Logged.bind_of_ok (c.foldlM_addParameter_of_accepts h [])]
  rfl

theorem compile_of_no_values (hp : c.populateValues parameters = []) :
    (c.compile parameters).result =
      .ok ⟨.ofConditions (c.conditions (c.filterParameters parameters)), []⟩ := by
  rw [c.compile_result_of_accepts h, hp]
  rfl

theorem compile_of_values_refused (hp : c.populateValues parameters ≠ []) {e : QueryError}
    (he : (c.options.compile (",".intercalate (c.populateValues parameters))).result = .error e) :
    (c.compile parameters).result = .error e := by
  rw [c.compile_result_of_accepts h, if_neg (by simpa using hp), Logged.bind_of_error he]

theorem compile_of_values (hp : c.populateValues parameters ≠ []) {f : Forest}
    (hf : (c.options.compile (",".intercalate (c.populateValues parameters))).result = .ok f) :
    (c.compile parameters).result =
      .ok ⟨.ofConditions (c.conditions (c.filterParameters parameters)), f.descriptors⟩ := by
  rw [c.compile_result_of_accepts h, if_neg (by simpa using hp), Logged.bind_of_ok hf]
  rfl

end Accepted

theorem compile_of_parameter_refused {parameters before after : List (String × String)}
    {p : String × String} (hp : c.filterParameters parameters = before ++ p :: after)
    (h : ∀ p ∈ before, c.Accepts p) {e : QueryError} (he : c.filter p.1 p.2 = .error e) :
    (c.compile parameters).result = .error e := by
  rw [compile_eq, hp, Logged.bind_of_error (c.foldlM_addParameter_of_refused h he [])]

/-- A query that is not refused hydrates something exactly where it has a populate value. -/
theorem populate_ne_nil_iff {parameters : List (String × String)} {q : Query}
    (h : (c.compile parameters).result = .ok q) :
    q.populate ≠ [] ↔ c.populateValues parameters ≠ [] := by
  rw [compile_eq, Logged.bind_eq_ok_iff] at h
  obtain ⟨filter, -, h⟩ := h
  by_cases hp : c.populateValues parameters = []
  · rw [hp] at h ⊢
    cases h
    simp
  · rw [if_neg (by simpa using hp), Logged.bind_eq_ok_iff] at h
    obtain ⟨forest, hforest, h⟩ := h
    cases h
    simp [hp, descriptors_ne_nil_of_compile hforest]

/-- **Interleaving does not matter.** Parameters with the same populate values and the same other
parameters, each in the same order, make the same query or are refused for the same reason, with the same
events. The first parameter that the filter compiler refuses decides the error, whatever the populate
values are. If it refuses none, an error of compiling the joined populate values comes next. Otherwise the
filter is that of the conditions made of the other parameters, and the descriptors are those that the
joined populate values compile to; there are some exactly where there is a populate value. -/
theorem compile_of_interleaving (c : QueryCompiler) :
    (∀ parameters parameters' : List (String × String),
      c.populateValues parameters = c.populateValues parameters' →
      c.filterParameters parameters = c.filterParameters parameters' →
      c.compile parameters = c.compile parameters') ∧
    ∀ parameters : List (String × String),
      (∀ before p after e, c.filterParameters parameters = before ++ p :: after →
        (∀ p ∈ before, c.Accepts p) → c.filter p.1 p.2 = .error e →
        (c.compile parameters).result = .error e) ∧
      ((∀ p ∈ c.filterParameters parameters, c.Accepts p) →
        (c.populateValues parameters = [] → (c.compile parameters).result =
          .ok ⟨.ofConditions (c.conditions (c.filterParameters parameters)), []⟩) ∧
        (c.populateValues parameters ≠ [] →
          (∀ e, (c.options.compile (",".intercalate (c.populateValues parameters))).result = .error e →
            (c.compile parameters).result = .error e) ∧
          ∀ f, (c.options.compile (",".intercalate (c.populateValues parameters))).result = .ok f →
            (c.compile parameters).result =
              .ok ⟨.ofConditions (c.conditions (c.filterParameters parameters)), f.descriptors⟩)) ∧
      ∀ q, (c.compile parameters).result = .ok q →
        (q.populate ≠ [] ↔ c.populateValues parameters ≠ []) := by
  refine ⟨fun parameters parameters' hvalues hothers => ?_, fun parameters => ⟨?_, fun h => ⟨?_, fun hp =>
    ⟨?_, ?_⟩⟩, ?_⟩⟩
  · rw [compile_eq, compile_eq, hvalues, hothers]
  · exact fun before p after e hp h he => c.compile_of_parameter_refused hp h he
  · exact c.compile_of_no_values h
  · exact fun e he => c.compile_of_values_refused h hp he
  · exact fun f hf => c.compile_of_values h hp hf
  · exact fun q hq => c.populate_ne_nil_iff hq

/-- Two interleavings of two populate values and a condition, a filter compiler that refuses a condition
behind a populate value that cannot be read, and a query that is not refused. -/
theorem compile_of_interleaving_mixed :
    (QueryCompiler.compile {} [("populate", "a.x"), ("status", "on"), ("populate", "a.y")] =
      QueryCompiler.compile {} [("status", "on"), ("populate", "a.x"), ("populate", "a.y")]) ∧
    (QueryCompiler.compile { filter := fun _ _ => .error (.filter "refused") }
      [("populate", "a::b"), ("status", "on")]).result = .error (.filter "refused") ∧
    (QueryCompiler.compile {} [("populate", "a.x"), ("status", "on"), ("populate", "a.y")]).result =
      .ok ⟨[("status", .string "on")], [.mk "a" (some "x y") none]⟩ := by
  have haccepts : ∀ p ∈ filterParameters {}
      [("populate", "a.x"), ("status", "on"), ("populate", "a.y")], Accepts {} p := by
    intro p hp
    obtain rfl : p = ("status", "on") := by simpa [filterParameters] using hp
    exact ⟨_, rfl⟩
  have hforest : ((({} : QueryCompiler).options.compile (",".intercalate (populateValues {}
      [("populate", "a.x"), ("status", "on"), ("populate", "a.y")]))).result =
        .ok (.tree "a" ["x", "y"] .empty .empty)) := by decide +kernel
  refine ⟨(compile_of_interleaving {}).1 _ _ (by decide) (by decide),
    ((compile_of_interleaving _).2 _).1 [] ("status", "on") [] _ (by decide) (by simp) rfl, ?_⟩
  exact (((compile_of_interleaving {}).2 _).2.1 haccepts).2 (by decide) |>.2 _ hforest

end QueryCompiler

end PopulateQuery
