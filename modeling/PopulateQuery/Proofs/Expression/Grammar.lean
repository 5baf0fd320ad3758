import PopulateQuery.Expression
import PopulateQuery.Proofs.Expression.Chains
import PopulateQuery.Proofs.Results
import PopulateQuery.Proofs.Text

/-!
# What can be read, and as what

An expression is cut at its colons and each part at its first dot, and nothing is left over (`read_plain_cut`).
-/

namespace PopulateQuery

/-!
## What the scan of an expression takes

The scan takes every text to its end, and the pieces that it finds are those of the plain cut: the
text cut at each colon, and each part cut once more at its first dot (`pieces_eq`). So the scan never
refuses, and never comes back without a piece.
-/

namespace Scan

open Text Text.Reader

def cutAtDot (cs : List Char) : RawPiece :=
  (cs.takeWhile (· != '.'), (cs.dropWhile (· != '.')).tail?)

theorem cutAtDot_of_not_mem {cs : List Char} (h : '.' ∉ cs) : cutAtDot cs = (cs, none) := by
  have hall : ∀ c ∈ cs, (c != '.') = true := fun c hc => by
    simpa using fun e : c = '.' => h (e ▸ hc)
  rw [cutAtDot, List.takeWhile_eq_self_iff.2 hall, List.dropWhile_eq_nil_iff.2 hall]
  rfl

theorem cutAtDot_append {name : List Char} (field : List Char) (h : '.' ∉ name) :
    cutAtDot (name ++ '.' :: field) = (name, some field) := by
  have hall : ∀ c ∈ name, (c != '.') = true := fun c hc => by
    simpa using fun e : c = '.' => h (e ▸ hc)
  rw [cutAtDot, List.takeWhile_append_of_pos hall, List.dropWhile_append_of_pos hall]
  simp

/-- The first dot decides what stands before and after it. -/
theorem append_dot_inj {name field name' field' : List Char} (h : '.' ∉ name) (h' : '.' ∉ name')
    (heq : name ++ '.' :: field = name' ++ '.' :: field') : name = name' ∧ field = field' := by
  have hcut := cutAtDot_append field h
  rw [heq, cutAtDot_append field' h'] at hcut
  simp only [Prod.mk.injEq, Option.some.injEq] at hcut
  exact ⟨hcut.1.symm, hcut.2.symm⟩

/-- Every text has a first dot or none. -/
theorem exists_first_dot (cs : List Char) :
    '.' ∉ cs ∨ ∃ name field, cs = name ++ '.' :: field ∧ '.' ∉ name := by
  by_cases h : '.' ∈ cs
  · obtain ⟨name, field, hcs, hname⟩ := List.eq_append_cons_of_mem h
    exact Or.inr ⟨name, field, hcs, hname⟩
  · exact Or.inl h

/-! ### One piece -/

theorem nameChar_of_not_mem {name : List Char} (hcolon : ':' ∉ name) (hdot : '.' ∉ name) :
    ∀ c ∈ name, (c != ':' && c != '.') = true := by
  intro c hc
  have h1 : c ≠ ':' := fun e => hcolon (e ▸ hc)
  have h2 : c ≠ '.' := fun e => hdot (e ▸ hc)
  simp [h1, h2]

theorem piece_of_bare {name rest : List Char} (hcolon : ':' ∉ name) (hdot : '.' ∉ name)
    (hrest : ∀ c ∈ rest.head?, c = ':') : piece (name ++ rest) = some ((name, none), rest) := by
  have hstop : ∀ c ∈ rest.head?, (c != ':' && c != '.') = false :=
    fun c hc => by simp [hrest c hc]
  have htake := takeWhile_append (nameChar_of_not_mem hcolon hdot) hstop
  have hchar : char '.' rest = none := char_eq_none fun c hc => by simp [hrest c hc]
  unfold piece
  rw [bind_apply, htake, Option.bind_some, bind_apply, optional?_of_none]
  · rfl
  · rw [bind_apply, hchar]
    rfl

theorem piece_of_dotted {name field rest : List Char} (hname : ':' ∉ name) (hdot : '.' ∉ name)
    (hfield : ':' ∉ field) (hrest : ∀ c ∈ rest.head?, c = ':') :
    piece (name ++ '.' :: (field ++ rest)) = some ((name, some field), rest) := by
  have hstop : ∀ c ∈ ('.' :: (field ++ rest)).head?, (c != ':' && c != '.') = false := by
    simp
  have htake := takeWhile_append (nameChar_of_not_mem hname hdot) hstop
  have hall : ∀ c ∈ field, (c != ':') = true := fun c hc => by
    simpa using fun e : c = ':' => hfield (e ▸ hc)
  have hstop' : ∀ c ∈ rest.head?, (c != ':') = false := fun c hc => by simp [hrest c hc]
  have htail := takeWhile_append hall hstop'
  unfold piece
  rw [bind_apply, htake, Option.bind_some, bind_apply, optional?_of_some]
  · rfl
  · rw [bind_apply, char_cons_self, Option.bind_some, htail]

/-- A part without a colon is taken up to the next colon, cut at its first dot. -/
theorem piece_append {part rest : List Char} (hpart : ':' ∉ part)
    (hrest : ∀ c ∈ rest.head?, c = ':') : piece (part ++ rest) = some (cutAtDot part, rest) := by
  rcases exists_first_dot part with hdot | ⟨name, field, rfl, hdot⟩
  · rw [cutAtDot_of_not_mem hdot]
    exact piece_of_bare hpart hdot hrest
  · simp only [List.mem_append, List.mem_cons, not_or] at hpart
    rw [cutAtDot_append field hdot, List.append_assoc, List.cons_append]
    exact piece_of_dotted hpart.1 hdot hpart.2.2 hrest

/-! ### All pieces -/

theorem intercalate_eq_append (first : List Char) (parts : List (List Char)) :
    [':'].intercalate (first :: parts) = first ++ parts.flatMap (':' :: ·) := by
  induction parts generalizing first with
  | nil => simp
  | cons part parts ih => simp [List.intercalate_cons_cons, ih]

theorem head?_flatMap_colon (parts : List (List Char)) :
    ∀ c ∈ (parts.flatMap (':' :: ·)).head?, c = ':' := by
  cases parts <;> simp

/-- The parts after the first one, each with its colon in front. -/
theorem manyFrom_piece (parts : List (List Char)) (h : ∀ part ∈ parts, ':' ∉ part) :
    manyFrom (do char ':'; piece) (parts.flatMap (':' :: ·)) = (parts.map cutAtDot, []) := by
  induction parts with
  | nil =>
    exact manyFrom_of_none rfl
  | cons part parts ih =>
    have hstep : (do char ':'; piece : Reader RawPiece) (':' :: (part ++ parts.flatMap (':' :: ·))) =
        some (cutAtDot part, parts.flatMap (':' :: ·)) := by
      rw [bind_apply, char_cons_self, Option.bind_some]
      exact piece_append (h part (by simp)) (head?_flatMap_colon parts)
    have hshorter : (parts.flatMap (':' :: ·)).length <
        (':' :: (part ++ parts.flatMap (':' :: ·))).length := by
      rw [List.length_cons, List.length_append]
      omega
    have hrest := ih fun p hp => h p (List.mem_cons_of_mem part hp)
    rw [List.flatMap_cons, List.cons_append, manyFrom_of_some hstep hshorter, hrest]
    rfl

/-- **The scan is the plain cut.** It takes every text to its end. -/
theorem pieces_eq (cs : List Char) : pieces cs = some ((cs.splitOn ':').map cutAtDot, []) := by
  obtain ⟨first, parts, hparts⟩ := List.exists_cons_of_ne_nil (List.splitOn_ne_nil ':' cs)
  have hcolon : ∀ part ∈ first :: parts, ':' ∉ part :=
    fun part hp => (mem_splitOn (hparts ▸ hp)).1
  have hcs : first ++ parts.flatMap (':' :: ·) = cs := by
    rw [← intercalate_eq_append, ← hparts, List.intercalate_splitOn]
  have hfirst : piece cs = some (cutAtDot first, parts.flatMap (':' :: ·)) := by
    rw [← hcs]
    exact piece_append (hcolon first (by simp)) (head?_flatMap_colon parts)
  unfold pieces
  rw [bind_apply, separated_of_some hfirst, manyFrom_piece parts fun p hp => hcolon p (by simp [hp]),
    hparts]
  rfl

end Scan

/-!
## The grammar of expressions

`Spells parts chain` says which chain a list of parts stands for, each part being what lies between
two colons: a part before the last names a relation, and the last one names a relation and perhaps,
after its first dot, a field. Reading accepts exactly what the grammar spells, and gives the chain
that is spelled (`read_eq_ok_iff`).
-/

def word (cs : List Char) : String := String.ofList (Text.trim cs)

/-- Without its padding the text is not empty, and has no blank inside. -/
structure IsWord (cs : List Char) : Prop where
  ne_nil : Text.trim cs ≠ []
  solid : ∀ c ∈ Text.trim cs, Text.isBlank c = false

structure NamesRelation (part : List Char) : Prop where
  no_dot : '.' ∉ part
  isWord : IsWord part

/-- A part that names a relation and, after its first dot, a field. The field may hold more dots. -/
structure SelectsField (part name field : List Char) : Prop where
  eq_append : part = name ++ '.' :: field
  no_dot : '.' ∉ name
  name_isWord : IsWord name
  field_isWord : IsWord field

theorem SelectsField.dot_mem {part name field : List Char} (h : SelectsField part name field) :
    '.' ∈ part := by
  rw [h.eq_append]
  simp

inductive Spells : List (List Char) → Chain → Prop where
  | relation {part : List Char} : NamesRelation part → Spells [part] (.last (word part) none)
  | field {part name field : List Char} : SelectsField part name field →
    Spells [part] (.last (word name) (some (word field)))
  | step {part : List Char} {parts : List (List Char)} {chain : Chain} : NamesRelation part →
    Spells parts chain → Spells (part :: parts) (.step (word part) chain)

/-! ### Words -/

theorem isWord_iff (cs : List Char) :
    IsWord cs ↔ (word cs).isEmpty = false ∧ Text.hasBlank (word cs) = false := by
  have hempty : (word cs).isEmpty = false ↔ Text.trim cs ≠ [] := by
    simp [word, ← Bool.not_eq_true, String.isEmpty_iff]
  have hblank : Text.hasBlank (word cs) = false ↔ ∀ c ∈ Text.trim cs, Text.isBlank c = false := by
    simp [word, Text.hasBlank]
  rw [hempty, hblank]
  exact ⟨fun h => ⟨h.ne_nil, h.solid⟩, fun h => ⟨h.1, h.2⟩⟩

theorem not_isWord_nil : ¬ IsWord [] := fun h => h.ne_nil rfl

/-! ### Pieces -/

namespace Piece

theorem ofRaw_bare {part : List Char} (h : '.' ∉ part) :
    ofRaw (Scan.cutAtDot part) = ⟨word part, none⟩ := by
  rw [Scan.cutAtDot_of_not_mem h]
  rfl

theorem ofRaw_dotted {name : List Char} (field : List Char) (h : '.' ∉ name) :
    ofRaw (Scan.cutAtDot (name ++ '.' :: field)) = ⟨word name, some (word field)⟩ := by
  rw [Scan.cutAtDot_append field h]
  rfl

theorem fault?_bare (position : Nat) (part : List Char) :
    fault? position ⟨word part, none⟩ = none ↔ IsWord part := by
  rw [isWord_iff]
  simp only [fault?]
  cases (word part).isEmpty <;> cases Text.hasBlank (word part) <;> simp

theorem fault?_dotted (position : Nat) (name field : List Char) :
    fault? position ⟨word name, some (word field)⟩ = none ↔ IsWord name ∧ IsWord field := by
  rw [isWord_iff, isWord_iff]
  simp only [fault?]
  cases (word name).isEmpty <;> cases Text.hasBlank (word name) <;>
    cases (word field).isEmpty <;> cases Text.hasBlank (word field) <;> simp

theorem fault?_ne_leftOver (position : Nat) (p : Piece) :
    p.fault? position ≠ some .leftOver := by
  unfold fault?
  split
  · simp
  · split
    · simp
    · split
      · simp
      · split
        · simp
        · split <;> simp

end Piece

/-! ### Chains of pieces -/

theorem spells_singleton {part : List Char} {chain : Chain} : Spells [part] chain ↔
    (NamesRelation part ∧ chain = .last (word part) none) ∨
      ∃ name field, SelectsField part name field ∧ chain = .last (word name) (some (word field)) := by
  constructor
  · intro h
    cases h with
    | relation h => exact Or.inl ⟨h, rfl⟩
    | field h => exact Or.inr ⟨_, _, h, rfl⟩
    | step _ h => cases h
  · rintro (⟨h, rfl⟩ | ⟨name, field, h, rfl⟩)
    · exact .relation h
    · exact .field h

theorem NamesRelation.spells {part : List Char} {chain : Chain} (h : NamesRelation part)
    (hs : Spells [part] chain) : chain = .last (word part) none := by
  rcases spells_singleton.1 hs with ⟨-, rfl⟩ | ⟨name, field, h', -⟩
  · rfl
  · exact absurd h'.dot_mem h.no_dot

theorem SelectsField.spells {part name field : List Char} {chain : Chain}
    (h : SelectsField part name field) (hs : Spells [part] chain) :
    chain = .last (word name) (some (word field)) := by
  rcases spells_singleton.1 hs with ⟨h', -⟩ | ⟨name', field', h', rfl⟩
  · exact absurd h.dot_mem h'.no_dot
  · obtain ⟨rfl, rfl⟩ := Scan.append_dot_inj h.no_dot h'.no_dot (h.eq_append.symm.trans h'.eq_append)
    rfl

theorem spells_cons {part : List Char} {parts : List (List Char)} {chain : Chain} (h : parts ≠ []) :
    Spells (part :: parts) chain ↔
      NamesRelation part ∧ ∃ rest, Spells parts rest ∧ chain = .step (word part) rest := by
  constructor
  · intro hs
    cases hs with
    | relation => exact absurd rfl h
    | field => exact absurd rfl h
    | step hpart hrest => exact ⟨hpart, _, hrest, rfl⟩
  · rintro ⟨hpart, rest, hrest, rfl⟩
    exact .step hpart hrest

/-- The relations on the way to the last part come first, in their order. -/
theorem spells_concat {init : List (List Char)} {last : List Char} {chain : Chain} :
    Spells (init ++ [last]) chain ↔ (∀ part ∈ init, NamesRelation part) ∧
      ∃ rest, Spells [last] rest ∧ chain = rest.after (init.map word) := by
  induction init generalizing chain with
  | nil => simp [Chain.after]
  | cons part init ih =>
    rw [List.cons_append, spells_cons (by simp)]
    constructor
    · rintro ⟨hpart, rest, hrest, rfl⟩
      obtain ⟨hinit, tail, htail, rfl⟩ := ih.1 hrest
      refine ⟨?_, tail, htail, rfl⟩
      intro p hp
      rcases List.mem_cons.1 hp with rfl | hp
      · exact hpart
      · exact hinit p hp
    · rintro ⟨hall, tail, htail, rfl⟩
      refine ⟨hall part (by simp), tail.after (init.map word), ih.2 ⟨?_, tail, htail, rfl⟩, rfl⟩
      exact fun p hp => hall p (by simp [hp])

/-- The last piece: checking it gives the chain that it spells. -/
theorem chainOfPieces_nil (source : String) (position : Nat) (part : List Char) (chain : Chain) :
    chainOfPieces source position (Piece.ofRaw (Scan.cutAtDot part)) [] = .ok chain ↔
      Spells [part] chain := by
  rw [spells_singleton]
  rcases Scan.exists_first_dot part with hdot | ⟨name, field, rfl, hdot⟩
  · rw [Piece.ofRaw_bare hdot]
    have hfault := Piece.fault?_bare position part
    constructor
    · intro h
      simp only [chainOfPieces] at h
      split at h
      · cases h
      · rename_i hf
        cases h
        exact Or.inl ⟨⟨hdot, hfault.1 hf⟩, rfl⟩
    · rintro (⟨h, rfl⟩ | ⟨name, field, h, rfl⟩)
      · simp only [chainOfPieces, hfault.2 h.isWord]
      · exact absurd h.dot_mem hdot
  · rw [Piece.ofRaw_dotted field hdot]
    have hfault := Piece.fault?_dotted position name field
    constructor
    · intro h
      simp only [chainOfPieces] at h
      split at h
      · cases h
      · rename_i hf
        cases h
        exact Or.inr ⟨name, field, ⟨rfl, hdot, (hfault.1 hf).1, (hfault.1 hf).2⟩, rfl⟩
    · rintro (⟨h, rfl⟩ | ⟨name', field', h, rfl⟩)
      · exact absurd (by simp) h.no_dot
      · obtain ⟨rfl, rfl⟩ := Scan.append_dot_inj hdot h.no_dot h.eq_append
        simp only [chainOfPieces, hfault.2 ⟨h.name_isWord, h.field_isWord⟩]

/-- Checking the pieces of a cut gives the chain that the parts spell. -/
theorem chainOfPieces_eq_ok_iff (source : String) :
    ∀ (parts : List (List Char)) (position : Nat) (part : List Char) (chain : Chain),
      chainOfPieces source position (Piece.ofRaw (Scan.cutAtDot part))
        (parts.map (Piece.ofRaw ∘ Scan.cutAtDot)) = .ok chain ↔ Spells (part :: parts) chain
  | [], position, part, chain => chainOfPieces_nil source position part chain
  | next :: parts, position, part, chain => by
    have ih := chainOfPieces_eq_ok_iff source parts (position + 1) next
    rw [spells_cons (by simp)]
    rcases Scan.exists_first_dot part with hdot | ⟨name, field, rfl, hdot⟩
    · have hfault := Piece.fault?_bare position part
      rw [Piece.ofRaw_bare hdot]
      simp only [List.map_cons, Function.comp_apply, chainOfPieces]
      split
      · rename_i hf
        constructor
        · intro h
          cases h
        · rintro ⟨h, -⟩
          rw [hfault.2 h.isWord] at hf
          cases hf
      · rename_i hf
        constructor
        · intro h
          obtain ⟨rest, hrest, rfl⟩ := map_eq_ok_iff.1 h
          exact ⟨⟨hdot, hfault.1 hf⟩, rest, (ih rest).1 hrest, rfl⟩
        · rintro ⟨-, rest, hrest, rfl⟩
          exact map_eq_ok_iff.2 ⟨rest, (ih rest).2 hrest, rfl⟩
    · -- a field before the end: whatever the piece is, it is refused
      rw [Piece.ofRaw_dotted field hdot]
      simp only [List.map_cons, chainOfPieces]
      refine ⟨fun h => ?_, fun ⟨h, _⟩ => absurd (by simp) h.no_dot⟩
      split at h <;> cases h

theorem chainOfPieces_ne_leftOver (source : String) :
    ∀ (rest : List Piece) (position : Nat) (first : Piece) (blamed : String),
      chainOfPieces source position first rest ≠ .error (.malformed blamed .leftOver)
  | [], position, first, blamed => by
    have hfault := first.fault?_ne_leftOver position
    simp only [chainOfPieces]
    split
    · rename_i fault hf
      rw [hf] at hfault
      simpa using fun _ => fun e => hfault (by rw [e])
    · simp
  | next :: rest, position, first, blamed => by
    have hfault := first.fault?_ne_leftOver position
    have ih := chainOfPieces_ne_leftOver source rest (position + 1) next blamed
    simp only [chainOfPieces]
    split
    · rename_i fault hf
      rw [hf] at hfault
      simpa using fun _ => fun e => hfault (by rw [e])
    · split
      · simp
      · exact fun h => ih (map_eq_error_iff.1 h)

/-! ### Expressions -/

namespace Expression

/-- What reading does with a text that is not blank: its parts are checked. -/
theorem read_eq (text : String) {first : List Char} {parts : List (List Char)}
    (hne : Text.trim text.toList ≠ [])
    (hparts : (Text.trim text.toList).splitOn ':' = first :: parts) :
    read text = (chainOfPieces (word text.toList) 1 (Piece.ofRaw (Scan.cutAtDot first))
      (parts.map (Piece.ofRaw ∘ Scan.cutAtDot))).map (Expression.mk (word text.toList)) := by
  have hempty : (Text.trim text.toList).isEmpty = false := by simpa using hne
  simp only [read, hempty, Scan.pieces_eq, hparts, List.map_cons, List.map_map]
  rfl

/-- **Reading accepts what the grammar spells**, and gives what it spells. -/
theorem read_eq_ok_iff (text : String) (e : Expression) :
    read text = .ok e ↔
      e.source = word text.toList ∧ Spells ((Text.trim text.toList).splitOn ':') e.chain := by
  obtain ⟨source, chain⟩ := e
  obtain ⟨first, parts, hparts⟩ :=
    List.exists_cons_of_ne_nil (List.splitOn_ne_nil ':' (Text.trim text.toList))
  by_cases hne : Text.trim text.toList = []
  · have hnot : ¬ Spells [[]] chain := by
      rw [spells_singleton]
      rintro (⟨h, -⟩ | ⟨name, field, h, -⟩)
      · exact not_isWord_nil h.isWord
      · simpa using h.eq_append
    simp [read, hne, hnot]
  · rw [read_eq text hne hparts, hparts]
    have hchain := chainOfPieces_eq_ok_iff (word text.toList) parts 1 first chain
    rw [← hchain]
    constructor
    · intro h
      obtain ⟨c, hc, he⟩ := map_eq_ok_iff.1 h
      cases he
      exact ⟨rfl, hc⟩
    · rintro ⟨rfl, hc⟩
      exact map_eq_ok_iff.2 ⟨chain, hc, rfl⟩

theorem read_ne_leftOver (text blamed : String) :
    read text ≠ .error (.malformed blamed .leftOver) := by
  obtain ⟨first, parts, hparts⟩ :=
    List.exists_cons_of_ne_nil (List.splitOn_ne_nil ':' (Text.trim text.toList))
  by_cases hne : Text.trim text.toList = []
  · simp [read, hne]
  · rw [read_eq text hne hparts]
    have hchain := chainOfPieces_ne_leftOver (word text.toList)
      (parts.map (Piece.ofRaw ∘ Scan.cutAtDot)) 1 (Piece.ofRaw (Scan.cutAtDot first)) blamed
    intro h
    exact hchain (map_eq_error_iff.1 h)

/-- **Reading is the plain cut.** Let the trimmed text be cut at each colon. The scan takes every text
to its end and finds a piece in it, so reading never stops at something left over. A text is accepted
if and only if each part but the last names a relation, and the last one names a relation or, after
its first dot, a field of it. What is read then is the trimmed text with these names, trimmed. -/
theorem read_plain_cut (text : String) :
    (∀ cs : List Char, ∃ first rest, Scan.pieces cs = some (first :: rest, [])) ∧
    (∀ blamed, read text ≠ .error (.malformed blamed .leftOver)) ∧
    ∃ init last, (Text.trim text.toList).splitOn ':' = init ++ [last] ∧
      ((∃ e, read text = .ok e) ↔ (∀ part ∈ init, NamesRelation part) ∧
        (NamesRelation last ∨ ∃ name field, SelectsField last name field)) ∧
      ∀ e, read text = .ok e → e.source = word text.toList ∧
        (NamesRelation last → e.chain.segments =
          init.map (fun part => .relation (word part)) ++ [.relation (word last)]) ∧
        ∀ name field, SelectsField last name field → e.chain.segments =
          init.map (fun part => .relation (word part)) ++ [.leaf (word name) (word field)] := by
  refine ⟨fun cs => ?_, read_ne_leftOver text, ?_⟩
  · obtain ⟨first, parts, hparts⟩ := List.exists_cons_of_ne_nil (List.splitOn_ne_nil ':' cs)
    exact ⟨Scan.cutAtDot first, parts.map Scan.cutAtDot, by rw [Scan.pieces_eq, hparts]; rfl⟩
  obtain ⟨init, last, hsplit⟩ : ∃ init last, (Text.trim text.toList).splitOn ':' = init ++ [last] :=
    ⟨_, _, (List.dropLast_append_getLast (List.splitOn_ne_nil ':' _)).symm⟩
  have hread : ∀ e, read text = .ok e ↔ e.source = word text.toList ∧
      (∀ part ∈ init, NamesRelation part) ∧
      ∃ rest, Spells [last] rest ∧ e.chain = rest.after (init.map word) := by
    intro e
    rw [read_eq_ok_iff, hsplit, spells_concat]
  refine ⟨init, last, hsplit, ⟨?_, ?_⟩, ?_⟩
  · rintro ⟨e, he⟩
    obtain ⟨-, hinit, rest, hrest, -⟩ := (hread e).1 he
    rcases spells_singleton.1 hrest with ⟨h, -⟩ | ⟨name, field, h, -⟩
    · exact ⟨hinit, Or.inl h⟩
    · exact ⟨hinit, Or.inr ⟨name, field, h⟩⟩
  · rintro ⟨hinit, h | ⟨name, field, h⟩⟩
    · exact ⟨⟨_, _⟩, (hread _).2 ⟨rfl, hinit, _, .relation h, rfl⟩⟩
    · exact ⟨⟨_, _⟩, (hread _).2 ⟨rfl, hinit, _, .field h, rfl⟩⟩
  · intro e he
    obtain ⟨hsource, -, rest, hrest, hchain⟩ := (hread e).1 he
    have hsegments : e.chain.segments = init.map (fun part => .relation (word part)) ++ rest.segments := by
      rw [hchain, Chain.segments_after, List.map_map]
      rfl
    refine ⟨hsource, fun h => ?_, fun name field h => ?_⟩
    · rw [hsegments, h.spells hrest]
      rfl
    · rw [hsegments, h.spells hrest]
      rfl

end Expression

end PopulateQuery
