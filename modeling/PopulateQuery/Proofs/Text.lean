import Mathlib.Data.List.TakeDrop
import Mathlib.Data.List.TakeWhile
import PopulateQuery.Text

/-!
# Lemmas on texts

How texts are cut, trimmed and padded, and what readers take of them.
-/

namespace PopulateQuery

/-!
## Cutting and trimming texts

A text that starts with a run of one class of characters falls apart in one way where the class ends
(`append_inj_of_run`). A text cut at a mark is its part up to the first mark followed by the cut of what
comes after it (`splitOn_eq`), and every piece is a part of it without the mark (`mem_splitOn`). Pieces
joined by a mark hold nothing else (`forall_mem_intercalate`), and are cut apart again
(`splitOn_intercalate_eq_flatMap`). Trimming only drops characters (`mem_of_mem_trim`), and drops none
from a text without blanks (`trim_eq_self`).
-/

namespace Text

/-! ### Runs of a class -/

section Runs
variable {α : Type} {p : α → Bool} {run run' rest rest' : List α} (hrun : ∀ a ∈ run, p a = true)
  (hrest : ∀ a ∈ rest.head?, p a = false)
include hrun hrest

/-- A run is taken up to where its class ends. -/
theorem takeWhile_append_of_stop : (run ++ rest).takeWhile p = run := by
  rw [List.takeWhile_append_of_pos hrun]
  cases rest with
  | nil => simp
  | cons a rest => simp [hrest a rfl]

/-- What follows a run is left where its class ends. -/
theorem dropWhile_append_of_stop : (run ++ rest).dropWhile p = rest := by
  rw [List.dropWhile_append_of_pos hrun]
  cases rest with
  | nil => rfl
  | cons a rest => simp [hrest a rfl]

/-- A text that starts with a run of a class, and goes on with another class, falls apart in one way. -/
theorem append_inj_of_run (hrun' : ∀ a ∈ run', p a = true) (hrest' : ∀ a ∈ rest'.head?, p a = false)
    (h : run ++ rest = run' ++ rest') : run = run' ∧ rest = rest' := by
  have hruns : run = run' := by
    rw [← takeWhile_append_of_stop hrun hrest, h, takeWhile_append_of_stop hrun' hrest']
  exact ⟨hruns, List.append_cancel_left (hruns ▸ h)⟩

end Runs

theorem toList_pushn (s : String) (c : Char) (n : Nat) :
    (s.pushn c n).toList = s.toList ++ List.replicate n c := by
  induction n with
  | zero => exact (List.append_nil _).symm
  | succ n ih =>
    have hpush : s.pushn c (n + 1) = (s.pushn c n).push c := rfl
    rw [hpush, String.toList_push, ih, List.append_assoc, ← List.replicate_succ']

/-! ### Cutting at every mark -/

theorem dropWhile_eq_nil_or_cons (mark : Char) (cs : List Char) :
    cs.dropWhile (· != mark) = [] ∨ ∃ rest, cs.dropWhile (· != mark) = mark :: rest := by
  induction cs with
  | nil => exact Or.inl rfl
  | cons c cs ih =>
    by_cases h : c = mark
    · subst h
      exact Or.inr ⟨cs, by simp⟩
    · simpa [h] using ih

theorem not_mem_takeWhile (mark : Char) (cs : List Char) : mark ∉ cs.takeWhile (· != mark) := by
  intro h
  have := List.mem_takeWhile_imp h
  simp at this

/-- A text cut at a mark, by the first mark in it. -/
theorem splitOn_eq (mark : Char) (cs : List Char) :
    cs.splitOn mark = cs.takeWhile (· != mark) ::
      match cs.dropWhile (· != mark) with
      | [] => []
      | _ :: rest => rest.splitOn mark := by
  have hcs : cs.takeWhile (· != mark) ++ cs.dropWhile (· != mark) = cs :=
    List.takeWhile_append_dropWhile
  have hnot := not_mem_takeWhile mark cs
  rcases dropWhile_eq_nil_or_cons mark cs with h | ⟨rest, h⟩
  · rw [h, List.append_nil] at hcs
    rw [h, hcs]
    rw [hcs] at hnot
    exact List.splitOn_eq_singleton hnot
  · rw [h] at hcs ⊢
    conv => lhs; rw [← hcs]
    exact List.splitOn_append_cons_self_of_not_mem hnot rest

/-- A piece is a part of the text without the mark that it was cut at. -/
theorem mem_splitOn {mark : Char} {piece : List Char} :
    ∀ {cs : List Char}, piece ∈ cs.splitOn mark → mark ∉ piece ∧ piece <:+: cs
  | cs, h => by
    rw [splitOn_eq] at h
    have hsuffix : cs.dropWhile (· != mark) <:+ cs := List.dropWhile_suffix _
    rcases List.mem_cons.1 h with rfl | h
    · exact ⟨not_mem_takeWhile mark cs, (List.takeWhile_prefix _).isInfix⟩
    · rcases dropWhile_eq_nil_or_cons mark cs with hd | ⟨rest, hd⟩
      · rw [hd] at h
        simp at h
      · rw [hd] at h hsuffix
        have hlen : rest.length < cs.length := hsuffix.length_le
        obtain ⟨hnot, hinfix⟩ := mem_splitOn h
        exact ⟨hnot, hinfix.trans ((List.suffix_cons mark rest).trans hsuffix).isInfix⟩
termination_by cs => cs.length

/-! ### Joining by a mark -/

theorem forall_mem_intercalate {R : Char → Prop} {mark : Char} (hmark : R mark) :
    ∀ {pieces : List (List Char)}, (∀ piece ∈ pieces, ∀ c ∈ piece, R c) →
      ∀ c ∈ [mark].intercalate pieces, R c
  | [], _ => by simp
  | [piece], h => by
    rw [List.intercalate_singleton]
    exact h piece (by simp)
  | piece :: next :: rest, h => by
    rw [List.intercalate_cons_cons]
    intro c hc
    have hrest := forall_mem_intercalate hmark fun p hp => h p (List.mem_cons_of_mem _ hp)
    rcases List.mem_append.1 hc with hc | hc
    · rcases List.mem_append.1 hc with hc | hc
      · exact h piece (by simp) c hc
      · exact List.mem_singleton.1 hc ▸ hmark
    · exact hrest c hc

/-- Joining texts by the mark and cutting at it gives the cuts of all the texts. -/
theorem splitOn_intercalate_eq_flatMap (mark : Char) : ∀ {css : List (List Char)}, css ≠ [] →
    ([mark].intercalate css).splitOn mark = css.flatMap (·.splitOn mark)
  | [cs], _ => by simp
  | cs :: next :: rest, _ => by
    have ih := splitOn_intercalate_eq_flatMap mark (List.cons_ne_nil next rest)
    rw [List.intercalate_cons_cons, List.append_assoc, List.singleton_append,
      List.splitOn_append_cons_self, ih]
    rfl

/-- What is put behind the last text stands behind the whole. -/
theorem intercalate_concat_append (mark : Char) (pieces : List (List Char)) (last rest : List Char) :
    [mark].intercalate (pieces ++ [last ++ rest]) = [mark].intercalate (pieces ++ [last]) ++ rest := by
  induction pieces with
  | nil => simp
  | cons piece pieces ih =>
    cases pieces with
    | nil => simp
    | cons next pieces =>
      rw [List.cons_append, List.cons_append, List.intercalate_cons_cons, ← List.cons_append, ih]
      simp

/-! ### Texts without blanks -/

theorem not_mem_of_solid {mark : Char} {cs : List Char} (h : ∀ c ∈ cs, isBlank c = false)
    (hmark : isBlank mark = true) : mark ∉ cs := by
  intro hmem
  rw [h mark hmem] at hmark
  cases hmark

/-! ### Trimming -/

theorem mem_of_mem_trim {c : Char} {cs : List Char} (h : c ∈ trim cs) : c ∈ cs := by
  have h1 : c ∈ (cs.dropWhile isBlank).reverse :=
    (List.dropWhile_suffix _).subset (List.mem_reverse.1 h)
  exact (List.dropWhile_suffix _).subset (List.mem_reverse.1 h1)

/-- A text without blanks is trimmed. -/
theorem trim_eq_self {cs : List Char} (h : ∀ c ∈ cs, isBlank c = false) : trim cs = cs := by
  have hd : ∀ l : List Char, (∀ c ∈ l, isBlank c = false) → l.dropWhile isBlank = l := by
    intro l hl
    cases l with
    | nil => rfl
    | cons c l => simp [hl c (by simp)]
  unfold trim trimEnd
  rw [hd cs h, hd cs.reverse fun c hc => h c (List.mem_reverse.1 hc), List.reverse_reverse]

/-!
## What readers take

One equation for each reader, on a text of the form that the reader is made for. A run is taken up to
where its class ends (`takeWhile_append`), a repetition goes on for as long as its step takes
something (`manyFrom_of_some`, `manyFrom_of_none`).
-/

namespace Reader

variable {α β : Type}

theorem bind_apply (r : Reader α) (k : α → Reader β) (cs : List Char) :
    (r >>= k) cs = (r cs).bind fun p => k p.1 p.2 := rfl

theorem char_cons_self (c : Char) (rest : List Char) : char c (c :: rest) = some ((), rest) := by
  simp [char, satisfy, discard, Functor.discard, Functor.mapConst, StateT.map, bind]

theorem char_eq_none {c : Char} {cs : List Char} (h : ∀ d ∈ cs.head?, d ≠ c) : char c cs = none := by
  cases cs with
  | nil => rfl
  | cons d rest =>
    have hd : d ≠ c := h d rfl
    simp [char, satisfy, discard, Functor.discard, Functor.mapConst, StateT.map, bind, hd]

/-- A run is taken whole, and nothing after it, where the next character is of another class. -/
theorem takeWhile_append {p : Char → Bool} {run rest : List Char} (hrun : ∀ c ∈ run, p c = true)
    (hrest : ∀ c ∈ rest.head?, p c = false) : takeWhile p (run ++ rest) = some (run, rest) := by
  rw [takeWhile, List.span_eq_takeWhile_dropWhile, takeWhile_append_of_stop hrun hrest,
    dropWhile_append_of_stop hrun hrest]

theorem optional?_apply (r : Reader α) (cs : List Char) : optional? r cs =
    ((r cs).map fun p => (some p.1, p.2)).orElse fun _ => some (none, cs) := by
  have hmap : (some <$> r) cs = (r cs).map fun p => (some p.1, p.2) := by
    cases h : r cs with
    | none => simp [Functor.map, StateT.map, bind, h]
    | some p => simp [Functor.map, StateT.map, bind, pure, h]
  rw [← hmap]
  rfl

theorem optional?_of_some {r : Reader α} {cs rest : List Char} {a : α} (h : r cs = some (a, rest)) :
    optional? r cs = some (some a, rest) := by
  rw [optional?_apply, h]
  rfl

theorem optional?_of_none {r : Reader α} {cs : List Char} (h : r cs = none) :
    optional? r cs = some (none, cs) := by
  rw [optional?_apply, h]
  rfl

theorem manyFrom_of_none {step : Reader α} {cs : List Char} (h : step cs = none) :
    manyFrom step cs = ([], cs) := by
  rw [manyFrom, h]

theorem manyFrom_of_some {step : Reader α} {cs rest : List Char} {a : α}
    (h : step cs = some (a, rest)) (hlt : rest.length < cs.length) :
    manyFrom step cs = (a :: (manyFrom step rest).1, (manyFrom step rest).2) := by
  rw [manyFrom, h]
  simp only [hlt, ↓reduceDIte]

theorem separated_of_some {separator : Reader Unit} {item : Reader α} {cs rest : List Char} {a : α}
    (h : item cs = some (a, rest)) :
    separated separator item cs =
      some (a :: (manyFrom (do separator; item) rest).1, (manyFrom (do separator; item) rest).2) := by
  unfold separated
  rw [bind_apply, h]
  rfl

end Reader

/-!
## Blanks around a text and between its characters

A text is its trimmed middle with blanks on both sides (`exists_padding`), and blanks that are put on
either side of a text are trimmed again (`trim_blank_append`, `trim_append_blank`). Cutting at a mark
that is no blank leaves blanks at the two ends with the first and the last piece, so they do not show
in what is made of the pieces if they do not show in what is made of one text
(`map_splitOn_blank_append`, `map_splitOn_append_blank`). Deleting all blanks goes into the pieces of a
cut (`splitOn_solid`).
-/

/-- Nothing but blanks, perhaps none. -/
def AllBlank (cs : List Char) : Prop := ∀ c ∈ cs, isBlank c = true

instance (cs : List Char) : Decidable (AllBlank cs) :=
  List.decidableBAll (fun c => isBlank c = true) cs

def solid (cs : List Char) : List Char := cs.filter fun c => !isBlank c

variable {mark : Char} {pad cs ds : List Char}

theorem AllBlank.not_mem (h : AllBlank pad) (hmark : isBlank mark = false) : mark ∉ pad := by
  intro hmem
  have hblank := h mark hmem
  rw [hmark] at hblank
  cases hblank

/-! ### Trimming -/

theorem trimEnd_append_blank (h : AllBlank pad) : trimEnd (cs ++ pad) = trimEnd cs := by
  have hrev : ∀ c ∈ pad.reverse, isBlank c = true := fun c hc => h c (List.mem_reverse.1 hc)
  rw [trimEnd, List.reverse_append, List.dropWhile_append_of_pos hrev]
  rfl

theorem trim_blank_append (h : AllBlank pad) : trim (pad ++ cs) = trim cs := by
  rw [trim, List.dropWhile_append_of_pos h]
  rfl

theorem trim_append_blank (h : AllBlank pad) : trim (cs ++ pad) = trim cs := by
  unfold trim
  by_cases hcs : cs.dropWhile isBlank = []
  · -- the text is blank itself, so all of it is dropped from the front
    have hpad : pad.dropWhile isBlank = [] := List.dropWhile_eq_nil_iff.2 h
    simp [List.dropWhile_append, hcs, hpad]
  · rw [List.dropWhile_append, if_neg (by simpa using hcs)]
    exact trimEnd_append_blank h

theorem trim_eq_nil_iff : trim cs = [] ↔ AllBlank cs := by
  constructor
  · intro h
    have hdrop : (cs.dropWhile isBlank).reverse.dropWhile isBlank = [] := by
      simpa [trim, trimEnd] using h
    have hrest : ∀ c ∈ cs.dropWhile isBlank, isBlank c = true := fun c hc =>
      List.dropWhile_eq_nil_iff.1 hdrop c (List.mem_reverse.2 hc)
    intro c hc
    rw [← List.takeWhile_append_dropWhile (p := isBlank) (l := cs)] at hc
    rcases List.mem_append.1 hc with hc | hc
    · exact List.mem_takeWhile_imp hc
    · exact hrest c hc
  · intro h
    have hnil : trim ([] ++ cs) = trim [] := trim_append_blank h
    simpa using hnil

/-- A text is its trimmed middle between blanks. -/
theorem exists_padding (cs : List Char) :
    ∃ pad pad', AllBlank pad ∧ AllBlank pad' ∧ cs = pad ++ (trim cs ++ pad') := by
  have hback : ∀ l : List Char, l = trimEnd l ++ (l.reverse.takeWhile isBlank).reverse := by
    intro l
    rw [trimEnd, ← List.reverse_append, List.takeWhile_append_dropWhile, List.reverse_reverse]
  refine ⟨cs.takeWhile isBlank, ((cs.dropWhile isBlank).reverse.takeWhile isBlank).reverse, ?_, ?_, ?_⟩
  · exact fun c hc => List.mem_takeWhile_imp hc
  · exact fun c hc => List.mem_takeWhile_imp (List.mem_reverse.1 hc)
  · rw [trim, ← hback, List.takeWhile_append_dropWhile]

theorem trim_trim (cs : List Char) : trim (trim cs) = trim cs := by
  obtain ⟨pad, pad', hpad, hpad', hcs⟩ := exists_padding cs
  conv => rhs; rw [hcs]
  rw [trim_blank_append hpad, trim_append_blank hpad']

/-! ### Cutting a padded text -/

theorem splitOn_append_of_not_mem (cs : List Char) (h : mark ∉ ds) :
    ∃ init last, cs.splitOn mark = init ++ [last] ∧
      (cs ++ ds).splitOn mark = init ++ [last ++ ds] := by
  obtain ⟨init, last, hcut⟩ : ∃ init last, cs.splitOn mark = init ++ [last] :=
    ⟨_, _, (List.dropLast_concat_getLast (List.splitOn_ne_nil mark cs)).symm⟩
  have hwhole : cs ++ ds = [mark].intercalate (init ++ [last ++ ds]) := by
    rw [intercalate_concat_append, ← hcut, List.intercalate_splitOn]
  have hpieces : ∀ piece ∈ init ++ [last ++ ds], mark ∉ piece := by
    have hcs : ∀ piece ∈ init ++ [last], mark ∉ piece :=
      fun piece hpiece => (mem_splitOn (hcut ▸ hpiece)).1
    rw [List.forall_mem_append, List.forall_mem_singleton] at hcs ⊢
    exact ⟨hcs.1, fun hmem => (List.mem_append.1 hmem).elim hcs.2 h⟩
  refine ⟨init, last, hcut, ?_⟩
  rw [hwhole, List.splitOn_intercalate mark hpieces (by simp)]

theorem splitOn_of_not_mem_append (cs : List Char) (h : mark ∉ ds) :
    ∃ first rest, cs.splitOn mark = first :: rest ∧ (ds ++ cs).splitOn mark = (ds ++ first) :: rest := by
  have hall : ∀ c ∈ ds, (c != mark) = true := fun c hc => by
    simpa using fun e : c = mark => h (e ▸ hc)
  refine ⟨_, _, splitOn_eq mark cs, ?_⟩
  rw [splitOn_eq, List.takeWhile_append_of_pos hall, List.dropWhile_append_of_pos hall]

section Map
variable {α : Type} {f : List Char → α} (hmark : isBlank mark = false) (hpad : AllBlank pad)
include hmark hpad

theorem map_splitOn_blank_append (hf : ∀ cs, f (pad ++ cs) = f cs) (cs : List Char) :
    ((pad ++ cs).splitOn mark).map f = (cs.splitOn mark).map f := by
  obtain ⟨first, rest, hcut, hcut'⟩ := splitOn_of_not_mem_append cs (hpad.not_mem hmark)
  rw [hcut, hcut', List.map_cons, List.map_cons, hf]

theorem map_splitOn_append_blank (hf : ∀ cs, f (cs ++ pad) = f cs) (cs : List Char) :
    ((cs ++ pad).splitOn mark).map f = (cs.splitOn mark).map f := by
  obtain ⟨init, last, hcut, hcut'⟩ := splitOn_append_of_not_mem cs (hpad.not_mem hmark)
  rw [hcut, hcut', List.map_append, List.map_append, List.map_singleton, List.map_singleton, hf]

end Map

/-! ### Deleting all blanks -/

@[simp] theorem solid_append (cs ds : List Char) : solid (cs ++ ds) = solid cs ++ solid ds :=
  List.filter_append cs ds

theorem solid_cons_of_not_blank (h : isBlank mark = false) (cs : List Char) :
    solid (mark :: cs) = mark :: solid cs := by
  rw [solid, List.filter_cons_of_pos (by simp [h])]
  rfl

theorem solid_eq_self (h : ∀ c ∈ cs, isBlank c = false) : solid cs = cs :=
  List.filter_eq_self.2 fun c hc => by simp [h c hc]

theorem AllBlank.solid_eq_nil (h : AllBlank pad) : solid pad = [] :=
  List.filter_eq_nil_iff.2 fun c hc => by simp [h c hc]

theorem solid_trim (cs : List Char) : solid (trim cs) = solid cs := by
  obtain ⟨pad, pad', hpad, hpad', hcs⟩ := exists_padding cs
  conv => rhs; rw [hcs]
  rw [solid_append, solid_append, hpad.solid_eq_nil, hpad'.solid_eq_nil, List.nil_append, List.append_nil]

/-- Blanks can be deleted before the cut or in its pieces. -/
theorem splitOn_solid (h : isBlank mark = false) (cs : List Char) :
    (solid cs).splitOn mark = (cs.splitOn mark).map solid := by
  have hpieces : ∀ piece ∈ (cs.splitOn mark).map solid, mark ∉ piece := by
    intro piece hpiece hmem
    obtain ⟨part, hpart, rfl⟩ := List.mem_map.1 hpiece
    exact (mem_splitOn hpart).1 (List.mem_filter.1 hmem).1
  have hjoin : ∀ pieces : List (List Char),
      solid ([mark].intercalate pieces) = [mark].intercalate (pieces.map solid) := by
    intro pieces
    induction pieces with
    | nil => rfl
    | cons piece pieces ih =>
      cases pieces with
      | nil => simp
      | cons next rest =>
        rw [List.map_cons] at ih ⊢
        rw [List.intercalate_cons_cons, List.map_cons, List.intercalate_cons_cons, ← ih, solid_append,
          solid_append, solid_cons_of_not_blank h]
        rfl
  have hcs : [mark].intercalate (cs.splitOn mark) = cs := List.intercalate_splitOn mark
  conv => lhs; rw [← hcs, hjoin]
  exact List.splitOn_intercalate mark hpieces (by simp)

end Text

end PopulateQuery
