import PopulateQuery.Proofs.Expression.Grammar
import PopulateQuery.Proofs.Text

/-!
# What a refused expression is blamed for

A part of an expression is faulty if its name is empty or has a blank inside, if it has a field that is
empty or has a blank inside, or if it has a field at all and is not the last part (`Faulty`). Only the
leftmost faulty part counts. It is misplaced if all that is wrong with it is its place; otherwise the
expression is malformed, for the first fault inside that part (`FirstFault`). What stands to its right has
no influence on the error (`refused_at_leftmost_fault`).
-/

namespace PopulateQuery

/-! ## Parts -/

def nameText (part : List Char) : List Char := (Scan.cutAtDot part).1

def fieldText? (part : List Char) : Option (List Char) := (Scan.cutAtDot part).2

inductive Faulty (isLast : Prop) (part : List Char) : Prop where
  | emptyName : Text.trim (nameText part) = [] → Faulty isLast part
  | blankInName {c : Char} : c ∈ Text.trim (nameText part) → Text.isBlank c = true →
    Faulty isLast part
  | emptyField {field : List Char} : fieldText? part = some field → Text.trim field = [] →
    Faulty isLast part
  | blankInField {field : List Char} {c : Char} : fieldText? part = some field →
    c ∈ Text.trim field → Text.isBlank c = true → Faulty isLast part
  | dotBeforeEnd : '.' ∈ part → ¬ isLast → Faulty isLast part

/-- The first fault inside a part, wherever the part stands: an empty name, a blank in the name, a blank
in the field, an empty field. The position counts the parts of the expression from one. -/
inductive FirstFault (position : Nat) (part : List Char) : ExpressionFault → Prop where
  | emptyName : Text.trim (nameText part) = [] → FirstFault position part (.emptyRelation position)
  | blankInName {c : Char} : c ∈ Text.trim (nameText part) → Text.isBlank c = true →
    FirstFault position part (.blankInside (word (nameText part)))
  | blankInField {field : List Char} {c : Char} : IsWord (nameText part) →
    fieldText? part = some field → c ∈ Text.trim field → Text.isBlank c = true →
    FirstFault position part (.blankInside (word field))
  | emptyField {field : List Char} : IsWord (nameText part) → fieldText? part = some field →
    Text.trim field = [] → FirstFault position part (.emptyField (word (nameText part)))

/-- What an expression with the text `source` is refused for, if the part at `position` is the one to
blame and the parts `after` come behind it. -/
inductive Blames (source : String) (position : Nat) (part : List Char) (after : List (List Char)) :
    QueryError → Prop where
  | malformed {fault : ExpressionFault} : FirstFault position part fault →
    Blames source position part after (.malformed source fault)
  | misplaced {name field : List Char} : after ≠ [] → SelectsField part name field →
    Blames source position part after (.misplacedField source (word name ++ "." ++ word field))

/-- The error of the same fault in an expression with another text. -/
def QueryError.about (text : String) : QueryError → QueryError
  | .malformed _ fault => .malformed text fault
  | .misplacedField _ segment => .misplacedField text segment
  | e => e

theorem fieldText?_eq_none_iff {part : List Char} : fieldText? part = none ↔ '.' ∉ part := by
  rcases Scan.exists_first_dot part with hdot | ⟨name, field, rfl, hdot⟩
  · simp [fieldText?, Scan.cutAtDot_of_not_mem hdot, hdot]
  · simp [fieldText?, Scan.cutAtDot_append field hdot]

theorem namesRelation_iff {part : List Char} :
    NamesRelation part ↔ fieldText? part = none ∧ IsWord (nameText part) := by
  rw [fieldText?_eq_none_iff]
  constructor
  · intro h
    refine ⟨h.no_dot, ?_⟩
    rw [nameText, Scan.cutAtDot_of_not_mem h.no_dot]
    exact h.isWord
  · rintro ⟨hdot, hword⟩
    rw [nameText, Scan.cutAtDot_of_not_mem hdot] at hword
    exact ⟨hdot, hword⟩

theorem selectsField_iff {part name field : List Char} :
    SelectsField part name field ↔
      nameText part = name ∧ fieldText? part = some field ∧ IsWord name ∧ IsWord field := by
  constructor
  · rintro ⟨rfl, hdot, hname, hfield⟩
    rw [nameText, fieldText?, Scan.cutAtDot_append field hdot]
    exact ⟨rfl, rfl, hname, hfield⟩
  · rintro ⟨rfl, hf, hname, hfield⟩
    rcases Scan.exists_first_dot part with hdot | ⟨name, field', rfl, hdot⟩
    · rw [fieldText?_eq_none_iff.2 hdot] at hf
      cases hf
    · rw [nameText, fieldText?, Scan.cutAtDot_append field' hdot] at *
      obtain rfl : field' = field := by simpa using hf
      exact ⟨rfl, hdot, hname, hfield⟩

theorem isWord_iff_trim {cs : List Char} :
    IsWord cs ↔ Text.trim cs ≠ [] ∧ ∀ c ∈ Text.trim cs, Text.isBlank c ≠ true := by
  simp only [ne_eq, Bool.not_eq_true]
  exact ⟨fun h => ⟨h.ne_nil, h.solid⟩, fun h => ⟨h.1, h.2⟩⟩

/-- A part that is not faulty is made of words, and has a field only if it is the last part. -/
theorem not_faulty_iff_isWord {isLast : Prop} {part : List Char} :
    ¬ Faulty isLast part ↔ IsWord (nameText part) ∧
      ∀ field, fieldText? part = some field → isLast ∧ IsWord field := by
  constructor
  · intro h
    have hname : IsWord (nameText part) :=
      isWord_iff_trim.2 ⟨fun he => h (.emptyName he), fun c hc hb => h (.blankInName hc hb)⟩
    refine ⟨hname, ?_⟩
    intro field hf
    have hdot : '.' ∈ part := by
      by_contra hno
      rw [fieldText?_eq_none_iff.2 hno] at hf
      cases hf
    have hlast : isLast := by_contra fun hno => h (.dotBeforeEnd hdot hno)
    exact ⟨hlast,
      isWord_iff_trim.2 ⟨fun he => h (.emptyField hf he), fun c hc hb => h (.blankInField hf hc hb)⟩⟩
  · rintro ⟨hname, hfield⟩ hfaulty
    cases hfaulty with
    | emptyName he => exact hname.ne_nil he
    | blankInName hc hb => exact (isWord_iff_trim.1 hname).2 _ hc hb
    | emptyField hf he => exact (hfield _ hf).2.ne_nil he
    | blankInField hf hc hb => exact (isWord_iff_trim.1 (hfield _ hf).2).2 _ hc hb
    | dotBeforeEnd hdot hlast =>
      cases hf : fieldText? part with
      | none => exact fieldText?_eq_none_iff.1 hf hdot
      | some field => exact hlast (hfield field hf).1

/-- A part is not faulty where the grammar has a place for it. -/
theorem not_faulty_iff {isLast : Prop} {part : List Char} :
    ¬ Faulty isLast part ↔
      NamesRelation part ∨ isLast ∧ ∃ name field, SelectsField part name field := by
  rw [not_faulty_iff_isWord]
  simp only [namesRelation_iff, selectsField_iff]
  cases fieldText? part with
  | none => simp
  | some field => simp [and_left_comm]

theorem not_faulty_before_iff {part : List Char} : ¬ Faulty False part ↔ NamesRelation part := by
  simp [not_faulty_iff]

/-! ## The fault inside a part -/

theorem word_isEmpty_iff {cs : List Char} : (word cs).isEmpty = true ↔ Text.trim cs = [] := by
  simp [word, String.isEmpty_iff]

theorem hasBlank_word_iff {cs : List Char} :
    Text.hasBlank (word cs) = true ↔ ∃ c ∈ Text.trim cs, Text.isBlank c = true := by
  simp [word, Text.hasBlank]

theorem ofRaw_cutAtDot (part : List Char) :
    Piece.ofRaw (Scan.cutAtDot part) = ⟨word (nameText part), (fieldText? part).map word⟩ := rfl

theorem firstFault_of_fault? {position : Nat} {part : List Char} {fault : ExpressionFault}
    (h : (Piece.ofRaw (Scan.cutAtDot part)).fault? position = some fault) :
    FirstFault position part fault := by
  rw [ofRaw_cutAtDot] at h
  simp only [Piece.fault?] at h
  split at h
  · rename_i hempty
    cases h
    exact .emptyName (word_isEmpty_iff.1 hempty)
  rename_i hempty
  split at h
  · rename_i hblank
    cases h
    obtain ⟨c, hc, hb⟩ := hasBlank_word_iff.1 hblank
    exact .blankInName hc hb
  rename_i hblank
  have hname : IsWord (nameText part) :=
    (isWord_iff _).2 ⟨by simpa using hempty, by simpa using hblank⟩
  cases hf : fieldText? part with
  | none =>
    rw [hf] at h
    cases h
  | some field =>
    rw [hf] at h
    simp only [Option.map_some] at h
    split at h
    · rename_i hblank
      cases h
      obtain ⟨c, hc, hb⟩ := hasBlank_word_iff.1 hblank
      exact .blankInField hname hf hc hb
    split at h
    · rename_i hempty
      cases h
      exact .emptyField hname hf (word_isEmpty_iff.1 hempty)
    · cases h

theorem FirstFault.fault?_eq {position : Nat} {part : List Char} {fault : ExpressionFault}
    (h : FirstFault position part fault) :
    (Piece.ofRaw (Scan.cutAtDot part)).fault? position = some fault := by
  rw [ofRaw_cutAtDot]
  simp only [Piece.fault?]
  cases h with
  | emptyName he => rw [if_pos (word_isEmpty_iff.2 he)]
  | blankInName hc hb =>
    have hempty : ¬ (word (nameText part)).isEmpty = true := by
      intro he
      rw [word_isEmpty_iff.1 he] at hc
      cases hc
    rw [if_neg hempty, if_pos (hasBlank_word_iff.2 ⟨_, hc, hb⟩)]
  | blankInField hname hf hc hb =>
    obtain ⟨hempty, hblank⟩ := (isWord_iff _).1 hname
    simp only [hempty, hblank, hf, Option.map_some, hasBlank_word_iff.2 ⟨_, hc, hb⟩]
    rfl
  | @emptyField field hname hf he =>
    obtain ⟨hempty, hblank⟩ := (isWord_iff _).1 hname
    have hsolid : Text.hasBlank (word field) = false := by simp [word, Text.hasBlank, he]
    simp only [hempty, hblank, hf, Option.map_some, hsolid, word_isEmpty_iff.2 he]
    rfl

/-- Checking a part finds its first fault. -/
theorem fault?_eq_some_iff {position : Nat} {part : List Char} {fault : ExpressionFault} :
    (Piece.ofRaw (Scan.cutAtDot part)).fault? position = some fault ↔
      FirstFault position part fault :=
  ⟨firstFault_of_fault?, FirstFault.fault?_eq⟩

theorem FirstFault.faulty {position : Nat} {part : List Char} {fault : ExpressionFault}
    (h : FirstFault position part fault) (isLast : Prop) : Faulty isLast part := by
  cases h with
  | emptyName he => exact .emptyName he
  | blankInName hc hb => exact .blankInName hc hb
  | blankInField _ hf hc hb => exact .blankInField hf hc hb
  | emptyField _ hf he => exact .emptyField hf he

/-- Where the check finds no fault inside a part, at most its place is wrong. -/
theorem sound_of_fault?_eq_none {position : Nat} {part : List Char}
    (h : (Piece.ofRaw (Scan.cutAtDot part)).fault? position = none) :
    NamesRelation part ∨ ∃ name field, SelectsField part name field := by
  rcases Scan.exists_first_dot part with hdot | ⟨name, field, rfl, hdot⟩
  · rw [Piece.ofRaw_bare hdot, Piece.fault?_bare] at h
    exact Or.inl ⟨hdot, h⟩
  · rw [Piece.ofRaw_dotted field hdot, Piece.fault?_dotted] at h
    exact Or.inr ⟨name, field, rfl, hdot, h.1, h.2⟩

/-! ## The part to blame -/

section Part
variable {position : Nat} {part : List Char} {after : List (List Char)} {e : QueryError}

theorem Blames.faulty {source : String} (h : Blames source position part after e) :
    Faulty (after = []) part := by
  cases h with
  | malformed hfault => exact hfault.faulty _
  | misplaced hafter hfield => exact .dotBeforeEnd hfield.dot_mem hafter

/-- Every faulty part can be blamed for something. -/
theorem exists_blames (source : String) (position : Nat) (h : Faulty (after = []) part) :
    ∃ e, Blames source position part after e := by
  cases hfault : (Piece.ofRaw (Scan.cutAtDot part)).fault? position with
  | some fault => exact ⟨_, .malformed (fault?_eq_some_iff.1 hfault)⟩
  | none =>
    rcases sound_of_fault?_eq_none hfault with hname | ⟨name, field, hfield⟩
    · exact absurd h (not_faulty_iff.2 (Or.inl hname))
    · have hafter : after ≠ [] := fun hlast =>
        absurd h (not_faulty_iff.2 (Or.inr ⟨hlast, name, field, hfield⟩))
      exact ⟨_, .misplaced hafter hfield⟩

/-- A part that would be a sound last one is to blame for its place only. -/
theorem Blames.eq_misplaced {source : String} {name field : List Char}
    (h : Blames source position part after e) (hfield : SelectsField part name field) :
    after ≠ [] ∧ e = .misplacedField source (word name ++ "." ++ word field) := by
  cases h with
  | malformed hfault =>
    have hsound := not_faulty_iff.2 (Or.inr ⟨trivial, name, field, hfield⟩)
    exact absurd (hfault.faulty True) hsound
  | misplaced hafter hfield' =>
    obtain ⟨rfl, rfl⟩ := Scan.append_dot_inj hfield.no_dot hfield'.no_dot
      (hfield.eq_append.symm.trans hfield'.eq_append)
    exact ⟨hafter, rfl⟩

/-- What a part is blamed for does not depend on the text around it. -/
theorem Blames.about {source : String} (h : Blames source position part after e) (source' : String)
    {after' : List (List Char)} (hfaulty : Faulty (after' = []) part) :
    Blames source' position part after' (e.about source') := by
  cases h with
  | malformed hfault => exact .malformed hfault
  | misplaced _ hfield =>
    have hafter' : after' ≠ [] := fun hlast =>
      absurd hfaulty (not_faulty_iff.2 (Or.inr ⟨hlast, _, _, hfield⟩))
    exact .misplaced hafter' hfield

/-- The check refuses a part that is to blame. -/
theorem chainOfPieces_of_blames {source : String} (h : Blames source position part after e) :
    chainOfPieces source position (Piece.ofRaw (Scan.cutAtDot part))
      (after.map (Piece.ofRaw ∘ Scan.cutAtDot)) = .error e := by
  cases h with
  | malformed hfault =>
    cases after <;> simp only [List.map_nil, List.map_cons, chainOfPieces, fault?_eq_some_iff.2 hfault]
  | @misplaced name field hafter hfield =>
    obtain ⟨next, rest, rfl⟩ := List.exists_cons_of_ne_nil hafter
    obtain ⟨rfl, hdot, hname, hword⟩ := hfield
    have hsound := (Piece.fault?_dotted position name field).2 ⟨hname, hword⟩
    rw [Piece.ofRaw_dotted field hdot]
    simp only [List.map_cons, chainOfPieces, hsound]
    rfl

theorem blames_of_chainOfPieces {source : String} (hfaulty : Faulty (after = []) part)
    (h : chainOfPieces source position (Piece.ofRaw (Scan.cutAtDot part))
      (after.map (Piece.ofRaw ∘ Scan.cutAtDot)) = .error e) :
    Blames source position part after e := by
  obtain ⟨e', he'⟩ := exists_blames source position hfaulty
  rw [chainOfPieces_of_blames he'] at h
  cases h
  exact he'

/-- The check passes a last part that is not faulty. -/
theorem exists_chainOfPieces_of_not_faulty (source : String) (position : Nat)
    (h : ¬ Faulty True part) :
    ∃ chain, chainOfPieces source position (Piece.ofRaw (Scan.cutAtDot part)) [] = .ok chain := by
  simp only [chainOfPieces_nil]
  rcases not_faulty_iff.1 h with hname | ⟨-, name, field, hfield⟩
  · exact ⟨_, .relation hname⟩
  · exact ⟨_, .field hfield⟩

/-- A relation on the way is passed. -/
theorem chainOfPieces_of_namesRelation (source : String) (position : Nat) (h : NamesRelation part)
    (next : List Char) (rest : List (List Char)) :
    chainOfPieces source position (Piece.ofRaw (Scan.cutAtDot part))
        ((next :: rest).map (Piece.ofRaw ∘ Scan.cutAtDot)) =
      (chainOfPieces source (position + 1) (Piece.ofRaw (Scan.cutAtDot next))
        (rest.map (Piece.ofRaw ∘ Scan.cutAtDot))).map (.step (word part)) := by
  have hsound := (Piece.fault?_bare position part).2 h.isWord
  rw [Piece.ofRaw_bare h.no_dot]
  simp only [List.map_cons, chainOfPieces, hsound]
  rfl

/-- The leftmost faulty part refuses the whole cut. -/
theorem chainOfPieces_of_leftmost {source : String} {parts before : List (List Char)} {bad : List Char}
    (hparts : part :: parts = before ++ bad :: after) (hbefore : ∀ p ∈ before, NamesRelation p)
    (h : Blames source (position + before.length) bad after e) :
    chainOfPieces source position (Piece.ofRaw (Scan.cutAtDot part))
      (parts.map (Piece.ofRaw ∘ Scan.cutAtDot)) = .error e := by
  induction before generalizing position part parts with
  | nil =>
    obtain ⟨rfl, rfl⟩ : part = bad ∧ parts = after := by simpa using hparts
    exact chainOfPieces_of_blames h
  | cons p before ih =>
    obtain ⟨rfl, hrest⟩ : part = p ∧ parts = before ++ bad :: after := by simpa using hparts
    obtain ⟨next, rest, rfl⟩ := List.exists_cons_of_ne_nil (l := parts) (by simp [hrest])
    obtain ⟨hname, hbefore⟩ := List.forall_mem_cons.1 hbefore
    rw [List.length_cons, Nat.add_comm before.length, ← Nat.add_assoc] at h
    rw [chainOfPieces_of_namesRelation source position hname, ih hrest hbefore h]
    rfl

/-- A refused cut has a leftmost faulty part. -/
theorem exists_leftmost_of_chainOfPieces {source : String} {parts : List (List Char)}
    (h : chainOfPieces source position (Piece.ofRaw (Scan.cutAtDot part))
      (parts.map (Piece.ofRaw ∘ Scan.cutAtDot)) = .error e) :
    ∃ before bad after, part :: parts = before ++ bad :: after ∧
      (∀ p ∈ before, NamesRelation p) ∧ Blames source (position + before.length) bad after e := by
  induction parts generalizing position part with
  | nil =>
    have hfaulty : Faulty (([] : List (List Char)) = []) part := by
      by_contra hsound
      obtain ⟨chain, hchain⟩ :=
        exists_chainOfPieces_of_not_faulty source position (by simpa using hsound)
      rw [List.map_nil, hchain] at h
      cases h
    exact ⟨[], part, [], rfl, by simp, blames_of_chainOfPieces hfaulty h⟩
  | cons next rest ih =>
    by_cases hfaulty : Faulty (next :: rest = []) part
    · exact ⟨[], part, next :: rest, rfl, by simp, blames_of_chainOfPieces hfaulty h⟩
    · -- a part that passes here is a relation, so the fault lies behind it
      have hname : NamesRelation part := by simpa [not_faulty_iff] using hfaulty
      rw [chainOfPieces_of_namesRelation source position hname, map_eq_error_iff] at h
      obtain ⟨before, bad, after, hparts, hbefore, hblames⟩ := ih h
      refine ⟨part :: before, bad, after, ?_, List.forall_mem_cons.2 ⟨hname, hbefore⟩, ?_⟩
      · rw [hparts, List.cons_append]
      · rwa [List.length_cons, Nat.add_comm before.length, ← Nat.add_assoc]

end Part

/-! ## The expression to blame -/

namespace Expression

/-- A text that is not blank is refused for its leftmost faulty part. -/
theorem read_eq_error_iff {text : String} (hne : ¬ Text.AllBlank text.toList) {e : QueryError} :
    read text = .error e ↔ ∃ before part after,
      (Text.trim text.toList).splitOn ':' = before ++ part :: after ∧
      (∀ p ∈ before, NamesRelation p) ∧
      Blames (word text.toList) (before.length + 1) part after e := by
  obtain ⟨first, parts, hparts⟩ :=
    List.exists_cons_of_ne_nil (List.splitOn_ne_nil ':' (Text.trim text.toList))
  have htrim : Text.trim text.toList ≠ [] := fun h => hne (Text.trim_eq_nil_iff.1 h)
  rw [read_eq text htrim hparts, map_eq_error_iff, hparts]
  simp only [Nat.add_comm _ 1]
  constructor
  · exact exists_leftmost_of_chainOfPieces
  · rintro ⟨before, part, after, hcut, hbefore, hblames⟩
    exact chainOfPieces_of_leftmost hcut hbefore hblames

theorem read_of_allBlank {text : String} (h : Text.AllBlank text.toList) :
    read text = .error (.malformed "" .emptyExpression) := by
  simp only [read, Text.trim_eq_nil_iff.2 h]
  rfl

/-- **A refused expression is blamed on its leftmost faulty part.** Nothing but blanks is an empty
expression. Any other refused text has, between its colons, a leftmost part that is faulty. The error is
that of a misplaced field, with the field's segment, exactly where that part is not the last one and
would be a sound last one; otherwise the expression is malformed, for the first fault inside the part.
Either way the error names the trimmed text, and any other text that has the same parts up to this one,
and in which this one is faulty, is refused for the same fault. -/
theorem refused_at_leftmost_fault (text : String) :
    (Text.AllBlank text.toList → read text = .error (.malformed "" .emptyExpression)) ∧
    ∀ e, ¬ Text.AllBlank text.toList → read text = .error e → ∃ before part after,
      (Text.trim text.toList).splitOn ':' = before ++ part :: after ∧
      (∀ p ∈ before, ¬ Faulty False p) ∧ Faulty (after = []) part ∧
      ((∃ expression segment, e = .misplacedField expression segment) ↔
        after ≠ [] ∧ ∃ name field, SelectsField part name field) ∧
      (∀ name field, after ≠ [] → SelectsField part name field →
        e = .misplacedField (word text.toList) (word name ++ "." ++ word field)) ∧
      ((¬ ∃ expression segment, e = .misplacedField expression segment) → ∃ fault,
        FirstFault (before.length + 1) part fault ∧ e = .malformed (word text.toList) fault) ∧
      ∀ (other : String) (after' : List (List Char)), ¬ Text.AllBlank other.toList →
        (Text.trim other.toList).splitOn ':' = before ++ part :: after' →
        Faulty (after' = []) part → read other = .error (e.about (word other.toList)) := by
  refine ⟨read_of_allBlank, ?_⟩
  intro e hne h
  obtain ⟨before, part, after, hparts, hbefore, hblames⟩ := (read_eq_error_iff hne).1 h
  refine ⟨before, part, after, hparts, fun p hp => not_faulty_before_iff.2 (hbefore p hp),
    hblames.faulty, ?_, ?_, ?_, ?_⟩
  · constructor
    · rintro ⟨expression, segment, rfl⟩
      cases hblames with
      | misplaced hafter hfield => exact ⟨hafter, _, _, hfield⟩
    · rintro ⟨-, name, field, hfield⟩
      exact ⟨_, _, (hblames.eq_misplaced hfield).2⟩
  · exact fun name field _ hfield => (hblames.eq_misplaced hfield).2
  · intro hnot
    cases hblames with
    | malformed hfault => exact ⟨_, hfault, rfl⟩
    | misplaced => exact absurd ⟨_, _, rfl⟩ hnot
  · intro other after' hother hparts' hfaulty
    exact (read_eq_error_iff hother).2 ⟨before, part, after', hparts', hbefore, hblames.about _ hfaulty⟩

/-- A field in the second of four parts, with two faulty parts behind it; the same part with sound parts
behind it; and a text of blanks of three kinds. -/
theorem refused_at_leftmost_fault_of_three :
    read " a : b. x::c d" = .error (.misplacedField "a : b. x::c d" "b.x") ∧
    (∃ before part after, (Text.trim " a : b. x::c d".toList).splitOn ':' = before ++ part :: after ∧
      Faulty (after = []) part ∧ after ≠ [] ∧ ∃ name field, SelectsField part name field) ∧
    read "\t\u2003\u00a0" = .error (.malformed "" .emptyExpression) := by
  have hne : ¬ Text.AllBlank " a : b. x::c d".toList := by decide
  have hread : read " a : b. x::c d" = .error (.misplacedField "a : b. x::c d" "b.x") := by
    decide +kernel
  obtain ⟨before, part, after, hparts, -, hfaulty, hmisplaced, -⟩ :=
    (refused_at_leftmost_fault " a : b. x::c d").2 _ hne hread
  obtain ⟨hafter, hfield⟩ := hmisplaced.1 ⟨_, _, rfl⟩
  exact ⟨hread, ⟨before, part, after, hparts, hfaulty, hafter, hfield⟩,
    (refused_at_leftmost_fault _).1 (by decide)⟩

end Expression

end PopulateQuery
