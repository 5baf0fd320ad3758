import Mathlib.Data.List.Infix
import PopulateQuery.Expression

/-!
# Chains along a path

A path of names is walked down a chain as long as the names agree. What is left of the chain below
the path (`Chain.under?`) says which relation comes next there (`Chain.nextAfter?`) and whether the
chain ends at the path with a field (`Chain.fieldAt?`). `Chain.Each` is what holds of all names and
of the field.
-/

namespace PopulateQuery.Chain

/-- The chain that comes after some relations. -/
def after (names : List String) (c : Chain) : Chain :=
  names.foldr .step c

/-- What is left of a chain below a path that it goes along. -/
def under? : Chain → List String → Option Chain
  | c, [] => some c
  | last _ _, _ :: _ => none
  | step relation rest, name :: path => if name = relation then rest.under? path else none

/-- The relation that follows a path in a chain that goes on from it. -/
def nextAfter? (path : List String) (c : Chain) : Option String :=
  if path <+: c.relations then c.relations[path.length]? else none

/-- The field that a chain selects at the end of a path, if this is where it ends. -/
def fieldAt? (path : List String) (c : Chain) : Option String :=
  if c.relations = path then c.field else none

/-- All relations of the chain satisfy `P`, and its field satisfies `Q` if it has one. -/
def Each (P Q : String → Prop) (c : Chain) : Prop :=
  (∀ relation ∈ c.relations, P relation) ∧ ∀ field ∈ c.field, Q field

/-- No relation of the chain has the mark in it, and neither has its field. -/
def Lacks (mark : Char) (c : Chain) : Prop := c.Each (mark ∉ ·.toList) (mark ∉ ·.toList)

variable {P Q : String → Prop}

theorem each_last {relation : String} {field : Option String} :
    (last relation field).Each P Q ↔ P relation ∧ ∀ x ∈ field, Q x := by
  unfold Each
  rw [relations, List.forall_mem_singleton, Chain.field]

theorem each_step {relation : String} {rest : Chain} :
    (step relation rest).Each P Q ↔ P relation ∧ rest.Each P Q := by
  unfold Each
  rw [relations, List.forall_mem_cons, field, and_assoc]

theorem Each.mono {P' Q' : String → Prop} {c : Chain} (h : c.Each P Q) (hP : ∀ s, P s → P' s)
    (hQ : ∀ s, Q s → Q' s) : c.Each P' Q' :=
  ⟨fun s hs => hP s (h.1 s hs), fun s hs => hQ s (h.2 s hs)⟩

theorem Lacks.forall_ne {mark : Char} {c : Chain} (h : c.Lacks mark) :
    c.Each (∀ ch ∈ ·.toList, ch ≠ mark) (∀ ch ∈ ·.toList, ch ≠ mark) :=
  Each.mono h (fun _ hs _ hch e => hs (e ▸ hch)) fun _ hs _ hch e => hs (e ▸ hch)

theorem length_pos (c : Chain) : 0 < c.length := by
  cases c with
  | last => exact Nat.one_pos
  | step _ rest => exact Nat.succ_pos rest.length

/-! ## Chains after relations -/

theorem segments_after (names : List String) (c : Chain) :
    (c.after names).segments = names.map .relation ++ c.segments := by
  induction names with
  | nil => rfl
  | cons name names ih =>
    rw [List.map_cons, List.cons_append, ← ih]
    rfl

theorem after_concat (names : List String) (relation : String) (c : Chain) :
    c.after (names ++ [relation]) = (step relation c).after names := by
  rw [after, after, List.foldr_append]
  rfl

theorem relations_after (names : List String) (c : Chain) :
    (c.after names).relations = names ++ c.relations := by
  induction names with
  | nil => rfl
  | cons name names ih =>
    rw [List.cons_append, ← ih]
    rfl

theorem field_after (names : List String) (c : Chain) : (c.after names).field = c.field := by
  induction names with
  | nil => rfl
  | cons name names ih => exact ih

theorem relations_eq_cons (c : Chain) : ∃ rest, c.relations = c.head :: rest := by
  cases c with
  | last => exact ⟨[], rfl⟩
  | step _ rest => exact ⟨rest.relations, rfl⟩

theorem relations_ne_nil (c : Chain) : c.relations ≠ [] := by
  cases c <;> simp [relations]

theorem relations_eq_concat (c : Chain) : ∃ init last, c.relations = init ++ [last] :=
  ⟨_, _, (List.dropLast_append_getLast c.relations_ne_nil).symm⟩

theorem segments_eq_cons (c : Chain) : ∃ s rest, c.segments = s :: rest ∧ s.target = c.head := by
  cases c with
  | last relation field => cases field <;> exact ⟨_, _, rfl, rfl⟩
  | step relation rest => exact ⟨_, _, rfl, rfl⟩

/-- A chain is its relations and its field. -/
theorem eq_of_relations_of_field {c d : Chain} (hrelations : c.relations = d.relations)
    (hfield : c.field = d.field) : c = d := by
  induction c generalizing d with
  | last relation field =>
    cases d with
    | last relation' field' =>
      obtain rfl : relation = relation' := List.head_eq_of_cons_eq hrelations
      exact congrArg (last relation) hfield
    | step relation' rest =>
      obtain ⟨more, hmore⟩ := rest.relations_eq_cons
      simp [relations, hmore] at hrelations
  | step relation rest ih =>
    cases d with
    | last relation' field' =>
      obtain ⟨more, hmore⟩ := rest.relations_eq_cons
      simp [relations, hmore] at hrelations
    | step relation' rest' =>
      obtain ⟨rfl, hrest⟩ : relation = relation' ∧ rest.relations = rest'.relations := by
        simpa [relations] using hrelations
      rw [ih hrest hfield]

/-! ## Below a path -/

theorem under?_eq_some_iff {c rest : Chain} {path : List String} :
    c.under? path = some rest ↔ c = rest.after path := by
  induction path generalizing c with
  | nil => simp [under?, after]
  | cons name path ih =>
    cases c with
    | last relation field => simp [under?, after]
    | step relation tail =>
      by_cases h : name = relation
      · subst h
        simpa [under?, after] using ih
      · simp [under?, after, h, Ne.symm h]

/-- A chain goes on below a path exactly where the path is a proper start of its relations. -/
theorem under?_eq_none_iff {c : Chain} {path : List String} :
    c.under? path = none ↔ ∀ name rest, c.relations ≠ path ++ name :: rest := by
  induction path generalizing c with
  | nil =>
    obtain ⟨rest, hrest⟩ := c.relations_eq_cons
    simp only [under?, reduceCtorEq, List.nil_append, false_iff]
    exact fun h => h _ _ hrest
  | cons name path ih =>
    cases c with
    | last relation field => simp [under?, relations]
    | step relation tail =>
      by_cases h : name = relation
      · subst h
        simpa [under?, relations] using ih
      · simp [under?, relations, h, Ne.symm h]

theorem nextAfter?_eq (path : List String) (c : Chain) :
    c.nextAfter? path = (c.under? path).map head := by
  unfold nextAfter?
  cases h : c.under? path with
  | none =>
    have hnot := under?_eq_none_iff.1 h
    split
    · rename_i hp
      obtain ⟨rest, hrest⟩ := hp
      cases rest with
      | nil => simp [← hrest]
      | cons name rest => exact absurd hrest.symm (hnot name rest)
    · rfl
  | some rest =>
    obtain rfl := under?_eq_some_iff.1 h
    obtain ⟨more, hmore⟩ := rest.relations_eq_cons
    simp [relations_after, hmore]

theorem nextAfter?_eq_some_iff {path : List String} {c : Chain} {name : String} :
    c.nextAfter? path = some name ↔ path ++ [name] <+: c.relations := by
  rw [nextAfter?_eq, Option.map_eq_some_iff]
  constructor
  · rintro ⟨rest, h, rfl⟩
    obtain rfl := under?_eq_some_iff.1 h
    obtain ⟨more, hmore⟩ := rest.relations_eq_cons
    exact ⟨more, by simp [relations_after, hmore]⟩
  · rintro ⟨more, hmore⟩
    rw [List.append_assoc, List.singleton_append] at hmore
    cases h : c.under? path with
    | none => exact absurd hmore.symm (under?_eq_none_iff.1 h name more)
    | some rest =>
      obtain rfl := under?_eq_some_iff.1 h
      obtain ⟨tail, htail⟩ := rest.relations_eq_cons
      rw [relations_after, htail, List.append_cancel_left_eq, List.cons.injEq] at hmore
      exact ⟨rest, rfl, hmore.1.symm⟩

/-- Below another name than its head a chain has nothing. -/
theorem nextAfter?_of_head_ne {c : Chain} {name : String} (h : c.head ≠ name) (path : List String) :
    c.nextAfter? (name :: path) = none := by
  rw [nextAfter?_eq]
  cases c with
  | last relation field => rfl
  | step relation rest =>
    have hne : name ≠ relation := Ne.symm h
    rw [under?, if_neg hne, Option.map_none]

theorem fieldAt?_of_head_ne {c : Chain} {name : String} (h : c.head ≠ name) (path : List String) :
    c.fieldAt? (name :: path) = none := by
  obtain ⟨rest, hrest⟩ := c.relations_eq_cons
  simp [fieldAt?, hrest, h]

/-- A chain ends at a path where what is left before the last name is that name alone. -/
theorem fieldAt?_concat (path : List String) (name : String) (c : Chain) :
    c.fieldAt? (path ++ [name]) = (c.under? path).bind (fieldAt? [name]) := by
  unfold fieldAt?
  cases h : c.under? path with
  | none =>
    have hnot := under?_eq_none_iff.1 h name []
    simp [hnot]
  | some rest =>
    obtain rfl := under?_eq_some_iff.1 h
    simp [relations_after, field_after]

end PopulateQuery.Chain
