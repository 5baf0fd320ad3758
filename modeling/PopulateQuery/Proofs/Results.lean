import Mathlib.Data.List.Forall2
import PopulateQuery.Logged

/-!
# Results and refusals

When a step or a list of steps has a result, and what a run with events makes of a step that has
none. A list of steps is refused for what its first refused step is refused for (`FirstError`). Runs
with events are a lawful monad: how their steps are grouped changes neither the events nor the result.
-/

namespace PopulateQuery

variable {ε α β : Type}

theorem map_eq_ok_iff {x : Except ε α} {f : α → β} {b : β} :
    x.map f = .ok b ↔ ∃ a, x = .ok a ∧ f a = b := by
  cases x <;> simp [Except.map]

theorem map_eq_error_iff {x : Except ε α} {f : α → β} {e : ε} :
    x.map f = .error e ↔ x = .error e := by
  cases x <;> simp [Except.map]

theorem bind_eq_ok_iff {x : Except ε α} {f : α → Except ε β} {b : β} :
    x >>= f = .ok b ↔ ∃ a, x = .ok a ∧ f a = .ok b := by
  cases x <;> simp [bind, Except.bind]

/-- A list of steps has a result where each step has one. -/
theorem mapM_eq_ok_iff {f : α → Except ε β} {as : List α} {bs : List β} :
    as.mapM f = .ok bs ↔ List.Forall₂ (fun a b => f a = .ok b) as bs := by
  induction as generalizing bs with
  | nil => cases bs <;> simp [pure, Except.pure]
  | cons a as ih =>
    rw [List.mapM_cons]
    cases ha : f a with
    | error e => cases bs <;> simp [bind, Except.bind, ha]
    | ok b =>
      cases has : as.mapM f with
      | error e => cases bs <;> simp [bind, Except.bind, ← ih, has]
      | ok rest => cases bs <;> simp [bind, Except.bind, pure, Except.pure, ha, ← ih, has]

/-- Each result comes from one of the steps. -/
theorem exists_of_mem_mapM {f : α → Except ε β} {as : List α} {bs : List β}
    (h : as.mapM f = .ok bs) : ∀ b ∈ bs, ∃ a ∈ as, f a = .ok b := by
  induction mapM_eq_ok_iff.1 h with
  | nil => simp
  | @cons a b as bs hab hrest ih =>
    intro x hx
    rcases List.mem_cons.1 hx with rfl | hx
    · exact ⟨a, List.mem_cons_self, hab⟩
    · obtain ⟨a', ha', hx'⟩ := ih (mapM_eq_ok_iff.2 hrest) x hx
      exact ⟨a', List.mem_cons_of_mem a ha', hx'⟩

theorem exists_mapM_eq_ok_iff {f : α → Except ε β} {as : List α} :
    (∃ bs, as.mapM f = .ok bs) ↔ ∀ a ∈ as, ∃ b, f a = .ok b := by
  simp only [mapM_eq_ok_iff]
  induction as with
  | nil => simp
  | cons a as ih =>
    rw [List.forall_mem_cons, ← ih]
    constructor
    · rintro ⟨_, h⟩
      cases h with
      | cons ha has => exact ⟨⟨_, ha⟩, ⟨_, has⟩⟩
    · rintro ⟨⟨b, ha⟩, ⟨bs, has⟩⟩
      exact ⟨b :: bs, .cons ha has⟩

/-- `e` is the error of the leftmost element that `f` refuses. -/
def FirstError (f : α → Except ε β) (as : List α) (e : ε) : Prop :=
  ∃ before a after, as = before ++ a :: after ∧ (∀ b ∈ before, ∃ x, f b = .ok x) ∧ f a = .error e

theorem not_firstError_nil {f : α → Except ε β} {e : ε} : ¬ FirstError f [] e := by
  rintro ⟨before, a, after, h, -⟩
  simp at h

theorem firstError_cons {f : α → Except ε β} {a : α} {as : List α} {e : ε} :
    FirstError f (a :: as) e ↔ f a = .error e ∨ (∃ x, f a = .ok x) ∧ FirstError f as e := by
  constructor
  · rintro ⟨before, b, after, h, hbefore, hb⟩
    cases before with
    | nil =>
      obtain ⟨rfl, -⟩ : a = b ∧ as = after := by simpa using h
      exact Or.inl hb
    | cons c before =>
      obtain ⟨rfl, rfl⟩ : a = c ∧ as = before ++ b :: after := by simpa using h
      rw [List.forall_mem_cons] at hbefore
      exact Or.inr ⟨hbefore.1, before, b, after, rfl, hbefore.2, hb⟩
  · rintro (ha | ⟨ha, before, b, after, rfl, hbefore, hb⟩)
    · exact ⟨[], a, as, rfl, by simp, ha⟩
    · exact ⟨a :: before, b, after, rfl, List.forall_mem_cons.2 ⟨ha, hbefore⟩, hb⟩

/-- A list of steps is refused for what its first refused step is refused for. -/
theorem mapM_eq_error_iff {f : α → Except ε β} {as : List α} {e : ε} :
    as.mapM f = .error e ↔ FirstError f as e := by
  induction as with
  | nil => simp [not_firstError_nil, pure, Except.pure]
  | cons a as ih =>
    rw [firstError_cons, ← ih, List.mapM_cons]
    cases f a with
    | error e' => simp [bind, Except.bind]
    | ok b => cases as.mapM f <;> simp [bind, Except.bind, pure, Except.pure]

/-- Where some step is refused there is a first one. -/
theorem exists_firstError {f : α → Except ε β} {as : List α} (h : ∃ a ∈ as, ∃ e, f a = .error e) :
    ∃ e, FirstError f as e := by
  obtain ⟨a, ha, e, he⟩ := h
  cases hall : as.mapM f with
  | error e' => exact ⟨e', mapM_eq_error_iff.1 hall⟩
  | ok bs =>
    obtain ⟨b, hb⟩ := exists_mapM_eq_ok_iff.1 ⟨bs, hall⟩ a ha
    rw [he] at hb
    cases hb

/-- Steps that come in groups can be taken group by group. -/
theorem mapM_flatMap {γ : Type} (f : β → Except ε γ) (g : α → List β) (as : List α) :
    (as.flatMap g).mapM f = (as.mapM fun a => (g a).mapM f).map List.flatten := by
  induction as with
  | nil => rfl
  | cons a as ih =>
    rw [List.flatMap_cons, List.mapM_append, ih, List.mapM_cons]
    cases (g a).mapM f with
    | error e => rfl
    | ok group => cases as.mapM fun a => (g a).mapM f <;> rfl

namespace Logged

instance : LawfulMonad Logged :=
  LawfulMonad.mk' Logged
    (fun x => by
      obtain ⟨events, result⟩ := x
      cases result <;> simp [Functor.map, Logged.bind, Logged.pure])
    (fun a f => by
      rw [bind_of_ok (result_pure a)]
      rfl)
    (fun x f g => by
      cases hx : x.result with
      | error e => rw [bind_of_error hx, bind_of_error hx, bind_of_error rfl]
      | ok a =>
        rw [bind_of_ok hx, bind_of_ok hx]
        cases hf : (f a).result with
        | error e => rw [bind_of_error rfl, bind_of_error hf]
        | ok b => rw [bind_of_ok rfl, bind_of_ok hf, List.append_assoc])

theorem bind_eq_ok_iff {x : Logged α} {f : α → Logged β} {b : β} :
    (x >>= f).result = .ok b ↔ ∃ a, x.result = .ok a ∧ (f a).result = .ok b := by
  cases hx : x.result with
  | error e => simp [bind_of_error hx]
  | ok a => simp [bind_of_ok hx]

theorem ofExcept_ok_bind (a : α) (f : α → Logged β) : (ofExcept (.ok a) >>= f) = f a := by
  rw [bind_of_ok rfl]
  rfl

theorem ofExcept_error_bind (e : QueryError) (f : α → Logged β) :
    (ofExcept (.error e) >>= f) = refuse e := rfl

end Logged

end PopulateQuery
