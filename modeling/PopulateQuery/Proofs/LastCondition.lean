import Mathlib.Data.List.Sort
import Mathlib.Data.String.Basic
import PopulateQuery.Proofs.Refusal
import PopulateQuery.Query

/-!
# The filter of a query

A filter has one entry for each field that conditions were set on, the last one (`last_condition_stands`).
-/

namespace PopulateQuery

/-!
## The entries of a filter

A filter keeps its fields in increasing order, and so none of them twice (`Sorted`). Setting a condition
keeps this order, and changes the entry of its field and no other (`mem_set_iff`). So a run of conditions
leaves for each field the one that came last on it (`mem_setAll_iff`), and every condition of the run either
made a new entry or took the place of an earlier one (`length_setAll`).
-/

/-! ### What comes last, and what comes again -/

/-- What the last entry with a key has there. -/
def lastOn {α : Type} (entries : List (String × α)) (key : String) : Option α :=
  (entries.filter fun entry => entry.1 = key).getLast?.map Prod.snd

/-- The keys of a list that were there before: earlier in the list, or already among `earlier`. Each is
named as often as it comes again. -/
def repeats (earlier : List String) : List String → List String
  | [] => []
  | key :: rest =>
    if key ∈ earlier then key :: repeats (key :: earlier) rest else repeats (key :: earlier) rest

section Last
variable {α : Type} {entries : List (String × α)} {key : String}

theorem lastOn_nil (key : String) : lastOn ([] : List (String × α)) key = none := rfl

/-- The first entry counts only where no later one has its key. -/
theorem lastOn_cons (entry : String × α) (rest : List (String × α)) (key : String) :
    lastOn (entry :: rest) key =
      (lastOn rest key).or (if entry.1 = key then some entry.2 else none) := by
  unfold lastOn
  by_cases h : entry.1 = key
  · rw [List.filter_cons_of_pos (by simpa using h), List.getLast?_cons]
    cases (rest.filter fun entry => entry.1 = key).getLast? <;> simp [h]
  · rw [List.filter_cons_of_neg (by simpa using h)]
    simp [h]

theorem exists_lastOn_iff : (∃ a, lastOn entries key = some a) ↔ key ∈ entries.map Prod.fst := by
  induction entries with
  | nil => simp [lastOn_nil]
  | cons entry rest ih =>
    rw [lastOn_cons, List.map_cons, List.mem_cons, ← ih]
    by_cases h : entry.1 = key
    · cases lastOn rest key <;> simp [h]
    · cases lastOn rest key <;> simp [h, Ne.symm h]

end Last

/-- Of the keys before it is only asked which they are. -/
theorem repeats_congr {earlier earlier' : List String} (keys : List String)
    (h : ∀ key, key ∈ earlier ↔ key ∈ earlier') : repeats earlier keys = repeats earlier' keys := by
  induction keys generalizing earlier earlier' with
  | nil => rfl
  | cons key rest ih =>
    have hrest : repeats (key :: earlier) rest = repeats (key :: earlier') rest :=
      ih fun other => by simp [h]
    by_cases hkey : key ∈ earlier
    · rw [repeats, if_pos hkey, repeats, if_pos ((h key).1 hkey), hrest]
    · rw [repeats, if_neg hkey, repeats, if_neg fun hmem => hkey ((h key).2 hmem), hrest]

namespace Filter

/-- The fields stand in increasing order, so none of them twice. -/
def Sorted (filter : Filter) : Prop := filter.Pairwise fun a b => a.1 < b.1

def setAll (filter : Filter) (conditions : List (String × Json)) : Filter :=
  conditions.foldl (fun filter entry => filter.set entry.1 entry.2) filter

variable {filter : Filter} {field : String}

/-! ### One condition -/

theorem sorted_cons {entry : String × Json} {rest : Filter} :
    Sorted (entry :: rest) ↔ (∀ other ∈ rest, entry.1 < other.1) ∧ Sorted rest := List.pairwise_cons

theorem has_iff : filter.has field = true ↔ field ∈ filter.map Prod.fst := by
  simp [has]

/-- **What setting a condition does.** The entries of smaller fields stay in front and those of greater
fields behind, and between them the new entry stands alone. -/
theorem exists_set_eq (h : filter.Sorted) (field : String) (condition : Json) : ∃ before after : Filter,
    (∀ entry ∈ before, entry.1 < field) ∧ (∀ entry ∈ after, field < entry.1) ∧
    filter.set field condition = before ++ (field, condition) :: after ∧
    (filter = before ++ after ∨ ∃ old, filter = before ++ (field, old) :: after) := by
  induction filter with
  | nil => exact ⟨[], [], by simp, by simp, rfl, Or.inl rfl⟩
  | cons first rest ih =>
    obtain ⟨f, c⟩ := first
    obtain ⟨hfirst, hrest⟩ := sorted_cons.1 h
    rcases lt_trichotomy field f with hlt | rfl | hgt
    · refine ⟨[], (f, c) :: rest, by simp, ?_, by simp [set, hlt.ne, hlt], Or.inl rfl⟩
      exact List.forall_mem_cons.2 ⟨hlt, fun entry hentry => hlt.trans (hfirst entry hentry)⟩
    · exact ⟨[], rest, by simp, hfirst, by simp [set], Or.inr ⟨c, rfl⟩⟩
    · obtain ⟨before, after, hbefore, hafter, hset, hfilter⟩ := ih hrest
      refine ⟨(f, c) :: before, after, List.forall_mem_cons.2 ⟨hgt, hbefore⟩, hafter, ?_, ?_⟩
      · simp [set, hgt.ne', hgt.not_gt, hset]
      · rcases hfilter with rfl | ⟨old, rfl⟩
        · exact Or.inl rfl
        · exact Or.inr ⟨old, rfl⟩

section Set
variable (h : filter.Sorted) (condition : Json)
include h

/-- Setting a condition gives its entry, and keeps those of all other fields. -/
theorem mem_set_iff {entry : String × Json} : entry ∈ filter.set field condition ↔
    entry = (field, condition) ∨ entry.1 ≠ field ∧ entry ∈ filter := by
  obtain ⟨before, after, hbefore, hafter, hset, hfilter⟩ := exists_set_eq h field condition
  have hsmaller : entry ∈ before → entry.1 ≠ field := fun hentry => (hbefore entry hentry).ne
  have hgreater : entry ∈ after → entry.1 ≠ field := fun hentry => (hafter entry hentry).ne'
  rw [hset]
  rcases hfilter with rfl | ⟨old, rfl⟩ <;> grind

theorem sorted_set (field : String) : (filter.set field condition).Sorted := by
  obtain ⟨before, after, hbefore, hafter, hset, hfilter⟩ := exists_set_eq h field condition
  have hparts : Sorted before ∧ Sorted after := by
    rcases hfilter with rfl | ⟨old, rfl⟩
    · exact ⟨(List.pairwise_append.1 h).1, (List.pairwise_append.1 h).2.1⟩
    · exact ⟨(List.pairwise_append.1 h).1, (sorted_cons.1 (List.pairwise_append.1 h).2.1).2⟩
  rw [hset]
  refine List.pairwise_append.2 ⟨hparts.1, sorted_cons.2 ⟨hafter, hparts.2⟩, ?_⟩
  intro a ha b hb
  rcases List.mem_cons.1 hb with rfl | hb
  · exact hbefore a ha
  · exact (hbefore a ha).trans (hafter b hb)

theorem length_set (field : String) : (filter.set field condition).length =
    if field ∈ filter.map Prod.fst then filter.length else filter.length + 1 := by
  obtain ⟨before, after, hbefore, hafter, hset, hfilter⟩ := exists_set_eq h field condition
  have hnew : field ∉ (before ++ after).map Prod.fst := by
    intro hmem
    obtain ⟨entry, hentry, rfl⟩ := List.mem_map.1 hmem
    rcases List.mem_append.1 hentry with hentry | hentry
    · exact lt_irrefl _ (hbefore entry hentry)
    · exact lt_irrefl _ (hafter entry hentry)
  rw [hset]
  rcases hfilter with rfl | ⟨old, rfl⟩
  · rw [if_neg hnew]
    simp only [List.length_append, List.length_cons]
    omega
  · rw [if_pos (by simp)]
    simp

/-- Setting a condition brings no other field with it. -/
theorem repeats_fields_set (field : String) (keys : List String) :
    repeats ((filter.set field condition).map Prod.fst) keys =
      repeats (field :: filter.map Prod.fst) keys := by
  obtain ⟨before, after, -, -, hset, hfilter⟩ := exists_set_eq h field condition
  refine repeats_congr keys fun other => ?_
  rw [hset]
  simp only [List.map_append, List.map_cons, List.mem_append, List.mem_cons]
  rcases hfilter with rfl | ⟨old, rfl⟩ <;> grind

end Set

/-- A filter is what its entries are. -/
theorem eq_of_mem_iff {other : Filter} (h : filter.Sorted) (h' : other.Sorted)
    (hmem : ∀ entry, entry ∈ filter ↔ entry ∈ other) : filter = other := by
  refine List.Perm.eq_of_pairwise ?_ h h' ?_
  · intro a b _ _ hab hba
    exact absurd hba (not_lt_of_gt hab)
  · exact (List.perm_ext_iff_of_nodup (h.imp fun hlt e => absurd (e ▸ hlt) (lt_irrefl _))
      (h'.imp fun hlt e => absurd (e ▸ hlt) (lt_irrefl _))).2 hmem

/-! ### A run of conditions -/

section Run
variable (h : filter.Sorted) (conditions : List (String × Json))
include h

theorem sorted_setAll : (filter.setAll conditions).Sorted := by
  induction conditions generalizing filter with
  | nil => exact h
  | cons entry rest ih => exact ih (sorted_set h entry.2 entry.1)

/-- **The last condition on a field stands**, and what was there before it only where none was set. -/
theorem mem_setAll_iff {condition : Json} : (field, condition) ∈ filter.setAll conditions ↔
    lastOn conditions field = some condition ∨
      lastOn conditions field = none ∧ (field, condition) ∈ filter := by
  induction conditions generalizing filter with
  | nil => simp [setAll, lastOn_nil]
  | cons entry rest ih =>
    have hstep : filter.setAll (entry :: rest) = (filter.set entry.1 entry.2).setAll rest := rfl
    obtain ⟨f, c⟩ := entry
    rw [hstep, ih (sorted_set h c f), mem_set_iff h, lastOn_cons, Prod.mk.injEq]
    cases lastOn rest field with
    | some later => simp
    | none =>
      by_cases hf : field = f
      · simp [hf, eq_comm]
      · simp [hf, Ne.symm hf]

/-- Every condition makes an entry or takes the place of one. -/
theorem length_setAll : (repeats (filter.map Prod.fst) (conditions.map Prod.fst)).length +
    (filter.setAll conditions).length = filter.length + conditions.length := by
  induction conditions generalizing filter with
  | nil => simp [repeats, setAll]
  | cons entry rest ih =>
    have hstep : filter.setAll (entry :: rest) = (filter.set entry.1 entry.2).setAll rest := rfl
    have hrest := ih (sorted_set h entry.2 entry.1)
    rw [repeats_fields_set h, length_set h] at hrest
    rw [hstep, List.map_cons, repeats, List.length_cons]
    by_cases hmem : entry.1 ∈ filter.map Prod.fst
    · rw [if_pos hmem] at hrest ⊢
      rw [List.length_cons]
      omega
    · rw [if_neg hmem] at hrest ⊢
      omega

end Run

end Filter

/-!
## The last condition on a field stands

The filter of a query that is not refused is made of the conditions that its filter compiler answers with:
an entry for each field that one of them is on, with the condition that came last on it
(`mem_filter_iff`). A condition on a field that had one before is worth a warning, and there are no other
warnings (`warnings_of_compile`). So only the order of conditions on one field matters
(`last_condition_stands`).
-/

def Logged.warnings {α : Type} (x : Logged α) : List Event :=
  x.events.filter fun event => event.level = .warn

theorem Logged.warnings_bind_of_ok {α β : Type} {x : Logged α} {a : α} (h : x.result = .ok a)
    (f : α → Logged β) : (x >>= f).warnings = x.warnings ++ (f a).warnings := by
  rw [warnings, bind_of_ok h, List.filter_append]
  rfl

/-- Steps without a warning make a run without one. -/
theorem Logged.warnings_bind_eq_nil {α β : Type} {x : Logged α} {f : α → Logged β}
    (h : x.warnings = []) (hf : ∀ a, (f a).warnings = []) : (x >>= f).warnings = [] := by
  cases hx : x.result with
  | ok a => rw [warnings_bind_of_ok hx, h, hf, List.append_nil]
  | error e =>
    rw [bind_of_error hx]
    exact h

/-- Compiling populate values gives no warning. -/
theorem Options.warnings_compile (o : Options) (value : String) : (o.compile value).warnings = [] := by
  rw [compile_eq]
  split
  · rfl
  · split <;> rfl

namespace QueryCompiler

/-- The parameters, other than populate values, that the filter compiler makes conditions on a field of. -/
def compiledTo (c : QueryCompiler) (field : String) (parameters : List (String × String)) :
    List (String × String) :=
  (c.filterParameters parameters).filter fun p =>
    (c.filter p.1 p.2).toOption.join.any fun entry => entry.1 = field

variable (c : QueryCompiler)

/-! ### The loop -/

theorem accepts_of_addParameter {filter filter' : Filter} {p : String × String}
    (h : (c.addParameter filter p).result = .ok filter') : c.Accepts p := by
  cases hp : c.filter p.1 p.2 with
  | ok entry => exact ⟨entry, hp⟩
  | error e =>
    rw [c.addParameter_of_error hp] at h
    cases h

theorem forall_accepts_of_foldlM {parameters : List (String × String)} {filter filter' : Filter}
    (h : (parameters.foldlM c.addParameter filter).result = .ok filter') :
    ∀ p ∈ parameters, c.Accepts p := by
  induction parameters generalizing filter with
  | nil => simp
  | cons p rest ih =>
    rw [List.foldlM_cons, Logged.bind_eq_ok_iff] at h
    obtain ⟨next, hp, hrest⟩ := h
    exact List.forall_mem_cons.2 ⟨c.accepts_of_addParameter hp, ih hrest⟩

/-- A query that is not refused has no parameter that the filter compiler refuses. -/
theorem forall_accepts_of_compile {parameters : List (String × String)} {q : Query}
    (h : (c.compile parameters).result = .ok q) : ∀ p ∈ c.filterParameters parameters, c.Accepts p := by
  rw [compile_eq, Logged.bind_eq_ok_iff] at h
  obtain ⟨filter, hfilter, -⟩ := h
  exact c.forall_accepts_of_foldlM hfilter

theorem events_addCondition (filter : Filter) (field : String) (condition : Json) :
    (addCondition filter field condition).events =
      if field ∈ filter.map Prod.fst then [.filterReplaced field] else [] := by
  unfold addCondition
  by_cases h : filter.has field
  · rw [if_pos h, if_pos (Filter.has_iff.1 h)]
    rfl
  · rw [if_neg h, if_neg fun hmem => h (Filter.has_iff.2 hmem)]
    rfl

theorem conditions_cons {p : String × String} {entry : Option (String × Json)}
    (h : c.filter p.1 p.2 = .ok entry) (rest : List (String × String)) :
    c.conditions (p :: rest) = entry.toList ++ c.conditions rest := by
  cases entry <;> simp [conditions, h, Except.toOption]

/-- The loop warns of each condition on a field that has one already. -/
theorem events_foldlM_addParameter {parameters : List (String × String)}
    (h : ∀ p ∈ parameters, c.Accepts p) {filter : Filter} (hfilter : filter.Sorted) :
    (parameters.foldlM c.addParameter filter).events =
      (repeats (filter.map Prod.fst) ((c.conditions parameters).map Prod.fst)).map
        Event.filterReplaced := by
  induction parameters generalizing filter with
  | nil => rfl
  | cons p rest ih =>
    obtain ⟨⟨entry, hp⟩, hrest⟩ := List.forall_mem_cons.1 h
    rw [List.foldlM_cons, Logged.bind_of_ok (c.addParameter_of_ok hp), c.conditions_cons hp,
      c.addParameter_eq, hp]
    cases entry with
    | none => exact ih hrest hfilter
    | some entry =>
      -- what was seen before is now what the filter has, and the field of the new entry
      have hset := Filter.repeats_fields_set hfilter entry.2 entry.1
      simp only [Option.elim_some, Option.toList_some, List.singleton_append, List.map_cons,
        ih hrest (Filter.sorted_set hfilter entry.2 entry.1), events_addCondition, hset, repeats]
      split <;> rfl

/-! ### The query -/

section Compiled
variable {parameters : List (String × String)} {q : Query} (h : (c.compile parameters).result = .ok q)
include h

theorem filter_of_compile :
    q.filter = Filter.setAll [] (c.conditions (c.filterParameters parameters)) := by
  have haccepts := c.forall_accepts_of_compile h
  rw [compile_eq, Logged.bind_of_ok (c.foldlM_addParameter_of_accepts haccepts [])] at h
  by_cases hvalues : (c.populateValues parameters).isEmpty
  · simp only [if_pos hvalues] at h
    cases h
    rfl
  · simp only [if_neg hvalues] at h
    obtain ⟨f, -, hq⟩ := Logged.bind_eq_ok_iff.1 h
    cases hq
    rfl

theorem sorted_filter : q.filter.Sorted := by
  rw [c.filter_of_compile h]
  exact Filter.sorted_setAll List.Pairwise.nil _

/-- The filter has for each field the condition that came last on it. -/
theorem mem_filter_iff {field : String} {condition : Json} : (field, condition) ∈ q.filter ↔
    lastOn (c.conditions (c.filterParameters parameters)) field = some condition := by
  rw [c.filter_of_compile h, Filter.mem_setAll_iff List.Pairwise.nil]
  simp

/-- The warnings name, in order, the fields of the conditions that took the place of another. -/
theorem warnings_of_compile : (c.compile parameters).warnings =
    (repeats [] ((c.conditions (c.filterParameters parameters)).map Prod.fst)).map
      Event.filterReplaced := by
  have haccepts := c.forall_accepts_of_compile h
  rw [compile_eq, Logged.warnings_bind_of_ok (c.foldlM_addParameter_of_accepts haccepts [])]
  have hvalues : ∀ filter : Filter, (if (c.populateValues parameters).isEmpty then pure ⟨filter, []⟩
      else c.options.compile (",".intercalate (c.populateValues parameters)) >>= fun forest =>
        pure ⟨filter, forest.descriptors⟩ : Logged Query).warnings = [] := by
    intro filter
    split
    · rfl
    · exact Logged.warnings_bind_eq_nil (c.options.warnings_compile _) fun forest => rfl
  rw [hvalues, List.append_nil, Logged.warnings, c.events_foldlM_addParameter haccepts List.Pairwise.nil]
  refine List.filter_eq_self.2 ?_
  intro event hevent
  obtain ⟨field, -, rfl⟩ := List.mem_map.1 hevent
  rfl

theorem length_warnings_of_compile :
    (c.compile parameters).warnings.length + q.filter.length =
      (c.conditions (c.filterParameters parameters)).length := by
  have hlength := Filter.length_setAll List.Pairwise.nil (c.conditions (c.filterParameters parameters))
  rw [c.warnings_of_compile h, c.filter_of_compile h, List.length_map]
  simpa using hlength

end Compiled

/-! ### Another order -/

theorem filter_conditions (field : String) (parameters : List (String × String)) :
    (c.conditions (c.filterParameters parameters)).filter (fun entry => entry.1 = field) =
      c.conditions (c.compiledTo field parameters) := by
  rw [conditions, conditions, compiledTo, List.filter_filterMap, List.filterMap_filter]
  refine List.filterMap_congr fun p _ => ?_
  cases (c.filter p.1 p.2).toOption.join with
  | none => rfl
  | some entry => by_cases hfield : entry.1 = field <;> simp [hfield]

section Reordered
variable {parameters parameters' : List (String × String)} (hperm : parameters'.Perm parameters)
include hperm

theorem populateValues_perm : (c.populateValues parameters').Perm (c.populateValues parameters) :=
  (hperm.filter _).map _

/-- Parameters in another order are not refused either. -/
theorem exists_compile_of_perm {q : Query} (h : (c.compile parameters).result = .ok q) :
    ∃ q', (c.compile parameters').result = .ok q' := by
  have haccepts : ∀ p ∈ c.filterParameters parameters', c.Accepts p := fun p hp =>
    c.forall_accepts_of_compile h p ((hperm.filter _).mem_iff.1 hp)
  by_cases hvalues : c.populateValues parameters' = []
  · exact ⟨_, c.compile_of_no_values haccepts hvalues⟩
  · have halone : ∀ v ∈ c.populateValues parameters', ∃ f, (c.options.compile v).result = .ok f :=
      fun v hv => exists_compile_of_populateValues h v ((c.populateValues_perm hperm).mem_iff.1 hv)
    obtain ⟨f, hf⟩ := (Options.exists_compile_join_iff hvalues).2 halone
    exact ⟨_, c.compile_of_values haccepts hvalues hf⟩

end Reordered

/-- The filter is the same where the same parameters are compiled to each field in the same order. -/
theorem filter_eq_of_compiledTo {parameters parameters' : List (String × String)} {q q' : Query}
    (h : (c.compile parameters).result = .ok q) (h' : (c.compile parameters').result = .ok q')
    (hsame : ∀ field, c.compiledTo field parameters' = c.compiledTo field parameters) :
    q'.filter = q.filter := by
  refine Filter.eq_of_mem_iff (c.sorted_filter h') (c.sorted_filter h) ?_
  rintro ⟨field, condition⟩
  rw [c.mem_filter_iff h', c.mem_filter_iff h, lastOn, lastOn, c.filter_conditions, c.filter_conditions,
    hsame]

/-! ### Conditions of equality -/

/-- Equality makes of each named parameter a condition on its key. -/
theorem lastOn_conditions_equality (o : Options) (parameters : List (String × String)) (field : String) :
    lastOn (conditions ⟨o, equalityFilter⟩ (filterParameters ⟨o, equalityFilter⟩ parameters)) field =
      if field = "" ∨ field = o.populateKey then none else (lastOn parameters field).map Json.string := by
  induction parameters with
  | nil => simp [conditions, filterParameters, lastOn_nil]
  | cons p rest ih =>
    obtain ⟨key, value⟩ := p
    rw [lastOn_cons]
    by_cases hkey : key = o.populateKey
    · rw [filterParameters_cons_self _ _ _ hkey, ih]
      by_cases hfield : key = field
      · simp [← hfield, hkey]
      · simp [hfield]
    · rw [filterParameters_cons_of_ne _ _ _ hkey, conditions_cons ⟨o, equalityFilter⟩ rfl]
      by_cases hempty : key = ""
      · rw [if_pos (by simpa using hempty), Option.toList_none, List.nil_append, ih]
        by_cases hfield : key = field
        · simp [← hfield, hempty]
        · simp [hfield]
      · rw [if_neg (by simpa using hempty), Option.toList_some, List.singleton_append, lastOn_cons, ih]
        by_cases hfield : key = field
        · subst hfield
          cases lastOn rest key <;> simp [hempty, hkey]
        · simp [hfield]

/-- Equality refuses nothing, so only the populate values can be refused. -/
theorem error_of_compile_equality {o : Options} {parameters : List (String × String)} {e : QueryError}
    (h : (compile ⟨o, equalityFilter⟩ parameters).result = .error e) :
    populateValues ⟨o, equalityFilter⟩ parameters ≠ [] ∧
      (o.compile (",".intercalate (populateValues ⟨o, equalityFilter⟩ parameters))).result = .error e := by
  have haccepts : ∀ p ∈ filterParameters ⟨o, equalityFilter⟩ parameters, Accepts ⟨o, equalityFilter⟩ p :=
    fun p _ => ⟨_, rfl⟩
  have hvalues : populateValues ⟨o, equalityFilter⟩ parameters ≠ [] := by
    intro hnone
    rw [compile_of_no_values _ haccepts hnone] at h
    cases h
  refine ⟨hvalues, ?_⟩
  cases hjoined : (o.compile (",".intercalate (populateValues ⟨o, equalityFilter⟩ parameters))).result with
  | ok f =>
    rw [compile_of_values _ haccepts hvalues hjoined] at h
    cases h
  | error e' =>
    rw [compile_of_values_refused _ haccepts hvalues hjoined] at h
    cases h
    rfl

/-- **The last condition on a field stands.** The filter of a query that is not refused has exactly the
fields that its conditions are on, in increasing order, each with the condition that came last on it. There
is one warning for each condition whose field had come before, in their order and with its name, so as many
as there are more conditions than fields. Parameters in another order make a query with the same filter, if
those that are compiled to one field keep their order. Under equality only the populate values can be
refused, and the conditions are on the keys of the other parameters that have one, each with the last value
of its key. -/
theorem last_condition_stands :
    (∀ (c : QueryCompiler) (parameters : List (String × String)) (q : Query),
      (c.compile parameters).result = .ok q →
      q.filter.Sorted ∧
      (∀ field, field ∈ q.filter.map Prod.fst ↔
        field ∈ (c.conditions (c.filterParameters parameters)).map Prod.fst) ∧
      (∀ field condition, (field, condition) ∈ q.filter ↔
        lastOn (c.conditions (c.filterParameters parameters)) field = some condition) ∧
      (c.compile parameters).warnings =
        (repeats [] ((c.conditions (c.filterParameters parameters)).map Prod.fst)).map
          Event.filterReplaced ∧
      (c.compile parameters).warnings.length + q.filter.length =
        (c.conditions (c.filterParameters parameters)).length ∧
      ∀ parameters' : List (String × String), parameters'.Perm parameters →
        (∀ field, c.compiledTo field parameters' = c.compiledTo field parameters) →
        ∃ q', (c.compile parameters').result = .ok q' ∧ q'.filter = q.filter) ∧
    ∀ (o : Options) (parameters : List (String × String)),
      (∀ e, (compile ⟨o, equalityFilter⟩ parameters).result = .error e →
        populateValues ⟨o, equalityFilter⟩ parameters ≠ [] ∧
        (o.compile (",".intercalate (populateValues ⟨o, equalityFilter⟩ parameters))).result =
          .error e) ∧
      ∀ q, (compile ⟨o, equalityFilter⟩ parameters).result = .ok q → ∀ field condition,
        (field, condition) ∈ q.filter ↔ field ≠ "" ∧ field ≠ o.populateKey ∧
          (lastOn parameters field).map Json.string = some condition := by
  constructor
  · intro c parameters q h
    have hentries : ∀ field condition, (field, condition) ∈ q.filter ↔
        lastOn (c.conditions (c.filterParameters parameters)) field = some condition :=
      fun field condition => c.mem_filter_iff h
    refine ⟨c.sorted_filter h, fun field => ?_, hentries, c.warnings_of_compile h,
      c.length_warnings_of_compile h, fun parameters' hperm hsame => ?_⟩
    · have hfield : field ∈ q.filter.map Prod.fst ↔ ∃ condition, (field, condition) ∈ q.filter := by
        simp
      rw [hfield, ← exists_lastOn_iff]
      simp only [hentries]
    · obtain ⟨q', h'⟩ := c.exists_compile_of_perm hperm h
      exact ⟨q', h', c.filter_eq_of_compiledTo h h' hsame⟩
  · intro o parameters
    refine ⟨fun e h => error_of_compile_equality h, fun q h field condition => ?_⟩
    rw [mem_filter_iff _ h, lastOn_conditions_equality]
    split
    · rename_i hnone
      rcases hnone with rfl | rfl <;> simp
    · rename_i hsome
      rw [not_or] at hsome
      simp [hsome]

/-- Equality, with another name for one of the keys. -/
def renamed (old new : String) : FilterCompiler := fun key value =>
  equalityFilter (if key = old then new else key) value

/-- Two keys that become one field, around a populate value; and the parameters in another order. -/
theorem last_condition_stands_after_renaming :
    ∃ q, (compile { filter := renamed "b" "a" }
        [("b", "1"), ("populate", "x"), ("a", "2"), ("c", "3")]).result = .ok q ∧
      ("a", .string "2") ∈ q.filter ∧
      (compile { filter := renamed "b" "a" }
        [("b", "1"), ("populate", "x"), ("a", "2"), ("c", "3")]).warnings = [.filterReplaced "a"] ∧
      ∃ q', (compile { filter := renamed "b" "a" }
        [("c", "3"), ("b", "1"), ("a", "2"), ("populate", "x")]).result = .ok q' ∧
        q'.filter = q.filter := by
  have hforest : (({} : Options).compile "x").result = .ok (.tree "x" [] .empty .empty) := by
    decide +kernel
  have hcompiled := compile_of_values { filter := renamed "b" "a" }
    (fun _ _ => ⟨_, rfl⟩ : ∀ p ∈ filterParameters { filter := renamed "b" "a" }
      [("b", "1"), ("populate", "x"), ("a", "2"), ("c", "3")], _) (by decide) hforest
  obtain ⟨-, -, hentries, hwarnings, -, horder⟩ := last_condition_stands.1 _ _ _ hcompiled
  refine ⟨_, hcompiled, (hentries "a" (.string "2")).2 rfl, hwarnings, horder _ (by decide) ?_⟩
  intro field
  by_cases ha : field = "a"
  · subst ha
    decide
  · by_cases hc : field = "c"
    · subst hc
      decide
    · simp [compiledTo, filterParameters, renamed, equalityFilter, Except.toOption, Ne.symm ha, Ne.symm hc]

end QueryCompiler

end PopulateQuery
