import Mathlib.Logic.Relation
import PopulateQuery.Proofs.Expression.Writing
import PopulateQuery.Proofs.Restriction
import PopulateQuery.Proofs.Text

/-!
# Blanks

Where blanks may stand without a difference, in an expression and in a value (`determined_by_solid_characters`).
-/

namespace PopulateQuery

/-!
## Blanks in an expression

Blanks at the ends of an expression, beside a colon, or beside the first dot of the last part do not
show in its pieces (`piecesOf_of_spaced`), and the pieces decide which chain the text spells
(`spells_congr`). So trimming an expression before it is cut makes no difference to its chain
(`exists_read_iff`), and an accepted text differs from the written form of its chain in blanks only
(`Expression.render_of_read`).
-/

open Text

/-- Blanks put into an expression at one place where they do not count: at one of its ends, beside a
colon, or beside the first dot of its last part. -/
inductive Spaced : List Char → List Char → Prop where
  | atStart {pad : List Char} (cs : List Char) : AllBlank pad → Spaced cs (pad ++ cs)
  | atEnd {pad : List Char} (cs : List Char) : AllBlank pad → Spaced cs (cs ++ pad)
  | besideColon {pad pad' : List Char} (cs ds : List Char) : AllBlank pad → AllBlank pad' →
    Spaced (cs ++ ':' :: ds) (cs ++ pad ++ ':' :: (pad' ++ ds))
  | besideDot {pad pad' name field : List Char} (init : List (List Char)) : AllBlank pad →
    AllBlank pad' → ':' ∉ name → '.' ∉ name → ':' ∉ field →
    Spaced ([':'].intercalate (init ++ [name ++ '.' :: field]))
      ([':'].intercalate (init ++ [name ++ pad ++ '.' :: (pad' ++ field)]))

/-- The pieces of a text, cut at each colon and at the first dot of each part, and trimmed. -/
def piecesOf (cs : List Char) : List Piece := (cs.splitOn ':').map (Piece.ofRaw ∘ Scan.cutAtDot)

/-! ### One part -/

section Part
variable {pad : List Char} (h : AllBlank pad) (cs : List Char)
include h

theorem word_blank_append : word (pad ++ cs) = word cs := by
  rw [word, trim_blank_append h, word]

theorem word_append_blank : word (cs ++ pad) = word cs := by
  rw [word, trim_append_blank h, word]

theorem ofRaw_cutAtDot_blank_append :
    Piece.ofRaw (Scan.cutAtDot (pad ++ cs)) = Piece.ofRaw (Scan.cutAtDot cs) := by
  have hpad : '.' ∉ pad := h.not_mem (by decide)
  rcases Scan.exists_first_dot cs with hdot | ⟨name, field, rfl, hdot⟩
  · have hdot' : '.' ∉ pad ++ cs := fun hmem => (List.mem_append.1 hmem).elim hpad hdot
    rw [Piece.ofRaw_bare hdot, Piece.ofRaw_bare hdot', word_blank_append h]
  · have hdot' : '.' ∉ pad ++ name := fun hmem => (List.mem_append.1 hmem).elim hpad hdot
    rw [← List.append_assoc, Piece.ofRaw_dotted field hdot, Piece.ofRaw_dotted field hdot',
      word_blank_append h]

theorem ofRaw_cutAtDot_append_blank :
    Piece.ofRaw (Scan.cutAtDot (cs ++ pad)) = Piece.ofRaw (Scan.cutAtDot cs) := by
  have hpad : '.' ∉ pad := h.not_mem (by decide)
  rcases Scan.exists_first_dot cs with hdot | ⟨name, field, rfl, hdot⟩
  · have hdot' : '.' ∉ cs ++ pad := fun hmem => (List.mem_append.1 hmem).elim hdot hpad
    rw [Piece.ofRaw_bare hdot, Piece.ofRaw_bare hdot', word_append_blank h]
  · rw [List.append_assoc, List.cons_append, Piece.ofRaw_dotted field hdot,
      Piece.ofRaw_dotted (field ++ pad) hdot, word_append_blank h]

end Part

/-! ### All parts -/

theorem piecesOf_blank_append {pad : List Char} (h : AllBlank pad) (cs : List Char) :
    piecesOf (pad ++ cs) = piecesOf cs :=
  map_splitOn_blank_append (by decide) h (ofRaw_cutAtDot_blank_append h) cs

theorem piecesOf_append_blank {pad : List Char} (h : AllBlank pad) (cs : List Char) :
    piecesOf (cs ++ pad) = piecesOf cs :=
  map_splitOn_append_blank (by decide) h (ofRaw_cutAtDot_append_blank h) cs

theorem piecesOf_append_colon (cs ds : List Char) :
    piecesOf (cs ++ ':' :: ds) = piecesOf cs ++ piecesOf ds := by
  rw [piecesOf, List.splitOn_append_cons_self, List.map_append]
  rfl

theorem piecesOf_intercalate_concat (init : List (List Char)) {last : List Char} (h : ':' ∉ last) :
    piecesOf ([':'].intercalate (init ++ [last])) =
      init.flatMap piecesOf ++ [Piece.ofRaw (Scan.cutAtDot last)] := by
  rw [piecesOf, splitOn_intercalate_eq_flatMap ':' (by simp), List.flatMap_append,
    List.flatMap_singleton, List.splitOn_eq_singleton h, List.map_append, List.map_flatMap]
  rfl

/-- Blanks that do not count do not show in the pieces. -/
theorem piecesOf_of_spaced {cs ds : List Char} (h : Spaced cs ds) : piecesOf ds = piecesOf cs := by
  cases h with
  | atStart cs hpad => exact piecesOf_blank_append hpad cs
  | atEnd cs hpad => exact piecesOf_append_blank hpad cs
  | besideColon cs ds hpad hpad' =>
    rw [piecesOf_append_colon, piecesOf_append_colon, piecesOf_append_blank hpad,
      piecesOf_blank_append hpad']
  | @besideDot pad pad' name field init hpad hpad' hname hdot hfield =>
    have hcolon : ':' ∉ pad := hpad.not_mem (by decide)
    have hcolon' : ':' ∉ pad' := hpad'.not_mem (by decide)
    have hdotpad : '.' ∉ pad := hpad.not_mem (by decide)
    have hbefore : ':' ∉ name ++ '.' :: field := by simp [hname, hfield]
    have hafter : ':' ∉ name ++ pad ++ '.' :: (pad' ++ field) := by
      simp [hname, hfield, hcolon, hcolon']
    have hdot' : '.' ∉ name ++ pad := by simp [hdot, hdotpad]
    rw [piecesOf_intercalate_concat init hbefore, piecesOf_intercalate_concat init hafter,
      Piece.ofRaw_dotted field hdot, Piece.ofRaw_dotted (pad' ++ field) hdot', word_append_blank hpad,
      word_blank_append hpad']

/-- The pieces decide which chain a text spells. -/
theorem spells_congr {cs ds : List Char} (h : piecesOf cs = piecesOf ds) {c : Chain} :
    Spells (cs.splitOn ':') c ↔ Spells (ds.splitOn ':') c := by
  obtain ⟨first, parts, hcs⟩ := List.exists_cons_of_ne_nil (List.splitOn_ne_nil ':' cs)
  obtain ⟨first', parts', hds⟩ := List.exists_cons_of_ne_nil (List.splitOn_ne_nil ':' ds)
  rw [piecesOf, piecesOf, hcs, hds, List.map_cons, List.map_cons, List.cons_eq_cons] at h
  have hcheck := chainOfPieces_eq_ok_iff "" parts 1 first c
  have hcheck' := chainOfPieces_eq_ok_iff "" parts' 1 first' c
  rw [hcs, hds, ← hcheck, ← hcheck', h.2]
  exact Eq.congr_left (congrArg (chainOfPieces "" 1 · _) h.1)

theorem spells_trim {cs : List Char} {c : Chain} :
    Spells ((trim cs).splitOn ':') c ↔ Spells (cs.splitOn ':') c := by
  obtain ⟨pad, pad', hpad, hpad', hcs⟩ := exists_padding cs
  refine spells_congr ?_
  conv => rhs; rw [hcs]
  rw [piecesOf_blank_append hpad, piecesOf_append_blank hpad']

theorem Expression.exists_read_iff {text : String} {c : Chain} :
    (∃ e, read text = .ok e ∧ e.chain = c) ↔ Spells (text.toList.splitOn ':') c := by
  rw [← spells_trim]
  constructor
  · rintro ⟨e, he, rfl⟩
    exact ((read_eq_ok_iff text e).1 he).2
  · intro h
    exact ⟨⟨word text.toList, c⟩, (read_eq_ok_iff text _).2 ⟨rfl, h⟩, rfl⟩

/-! ### Without blanks -/

theorem IsWord.toList_word {cs : List Char} (h : IsWord cs) : (word cs).toList = Text.solid cs := by
  rw [word, String.toList_ofList, ← solid_trim, solid_eq_self h.solid]

/-- The segments of a chain are the parts that spell it, without their blanks. -/
theorem Spells.map_render_segments {parts : List (List Char)} {c : Chain} (h : Spells parts c) :
    (c.segments.map fun s => s.render.toList) = parts.map solid := by
  induction h with
  | relation h =>
    rw [Chain.segments, List.map_singleton, List.map_singleton, ← h.isWord.toList_word]
    rfl
  | field h =>
    rw [h.eq_append, List.map_singleton, solid_append, solid_cons_of_not_blank (by decide),
      ← h.name_isWord.toList_word, ← h.field_isWord.toList_word]
    simp [Chain.segments, Segment.render]
  | step h _ ih =>
    rw [Chain.segments, List.map_cons, List.map_cons, ih, ← h.isWord.toList_word]
    rfl

theorem Spells.toList_render {cs : List Char} {c : Chain} (h : Spells (cs.splitOn ':') c) :
    c.render.toList = solid cs := by
  rw [Chain.toList_render, h.map_render_segments, ← splitOn_solid (by decide), List.intercalate_splitOn]

/-- An accepted text is written like its chain, but for its blanks. -/
theorem Expression.render_of_read {text : String} {e : Expression} (h : read text = .ok e) :
    e.chain.render = String.ofList (solid text.toList) := by
  rw [← (exists_read_iff.1 ⟨e, h, rfl⟩).toList_render, String.ofList_toList]

/-- Without its blanks an accepted text spells the same chain. -/
theorem Spells.without_blanks {cs : List Char} {c : Chain} (h : Spells (cs.splitOn ':') c) :
    Spells ((solid cs).splitOn ':') c := by
  have hread : ∃ e, Expression.read (String.ofList cs) = .ok e ∧ e.chain = c := by
    rwa [Expression.exists_read_iff, String.toList_ofList]
  obtain ⟨e, he, rfl⟩ := hread
  have heach := Expression.each_of_read he
  rw [← h.toList_render, splitOn_render heach]
  exact spells_segments heach

/-!
## Values with the same solid characters

An accepted expression is decided by its characters that are not blank: deleting the blanks gives the
written form of its chain. A value is a list of expressions, so what goes for blanks in an expression
goes for blanks in a value, and for blanks beside its commas (`outline_of_spacedValue`). Neither deleting
all blanks nor putting some where they do not count changes what a value compiles to
(`determined_by_solid_characters`).
-/

open Text

/-- Blanks put into a value at one place where they do not count: beside a comma, or inside one of its
expressions. -/
inductive SpacedValue : List Char → List Char → Prop where
  | besideComma {pad pad' : List Char} (cs ds : List Char) : AllBlank pad → AllBlank pad' →
    SpacedValue (cs ++ ',' :: ds) (cs ++ pad ++ ',' :: (pad' ++ ds))
  | inExpression {cs ds : List Char} (before after : List (List Char)) : ',' ∉ cs → Spaced cs ds →
    SpacedValue ([','].intercalate (before ++ cs :: after)) ([','].intercalate (before ++ ds :: after))

def outline (cs : List Char) : List (List Piece) := (cs.splitOn ',').map piecesOf

/-! ### The outline of a value -/

theorem solid_of_spaced {cs ds : List Char} (h : Spaced cs ds) : solid ds = solid cs := by
  cases h with
  | atStart cs hpad => rw [solid_append, hpad.solid_eq_nil, List.nil_append]
  | atEnd cs hpad => rw [solid_append, hpad.solid_eq_nil, List.append_nil]
  | besideColon cs ds hpad hpad' =>
    have hcolon : isBlank ':' = false := by decide
    simp [solid_cons_of_not_blank hcolon, hpad.solid_eq_nil, hpad'.solid_eq_nil]
  | @besideDot pad pad' name field init hpad hpad' =>
    have hdot : isBlank '.' = false := by decide
    rw [List.append_assoc, intercalate_concat_append, intercalate_concat_append]
    simp [solid_cons_of_not_blank hdot, hpad.solid_eq_nil, hpad'.solid_eq_nil]

theorem outline_append_comma (cs ds : List Char) :
    outline (cs ++ ',' :: ds) = outline cs ++ outline ds := by
  rw [outline, List.splitOn_append_cons_self, List.map_append]
  rfl

theorem outline_intercalate {texts : List (List Char)} (h : texts ≠ []) :
    outline ([','].intercalate texts) = texts.flatMap outline := by
  rw [outline, splitOn_intercalate_eq_flatMap ',' h, List.map_flatMap]
  rfl

theorem outline_of_not_mem {cs : List Char} (h : ',' ∉ cs) : outline cs = [piecesOf cs] := by
  rw [outline, List.splitOn_eq_singleton h, List.map_singleton]

theorem outline_of_spacedValue {cs ds : List Char} (h : SpacedValue cs ds) : outline ds = outline cs := by
  cases h with
  | @besideComma pad pad' cs ds hpad hpad' =>
    have hmark : isBlank ',' = false := by decide
    have hcs : outline (cs ++ pad) = outline cs :=
      map_splitOn_append_blank hmark hpad (piecesOf_append_blank hpad) cs
    have hds : outline (pad' ++ ds) = outline ds :=
      map_splitOn_blank_append hmark hpad' (piecesOf_blank_append hpad') ds
    rw [outline_append_comma, outline_append_comma, hcs, hds]
  | @inExpression cs ds before after hcomma hspaced =>
    have hcomma' : ',' ∉ ds := by
      intro hmem
      have hsolid : ',' ∈ solid ds := List.mem_filter.2 ⟨hmem, by decide⟩
      rw [solid_of_spaced hspaced] at hsolid
      exact hcomma (List.mem_filter.1 hsolid).1
    rw [outline_intercalate (by simp), outline_intercalate (by simp)]
    simp only [List.flatMap_append, List.flatMap_cons, outline_of_not_mem hcomma,
      outline_of_not_mem hcomma', piecesOf_of_spaced hspaced]

/-- What one step keeps, any number of steps keep. -/
theorem eq_of_steps {α : Type} {step : List Char → List Char → Prop} {view : List Char → α}
    {cs ds : List Char} (h : Relation.ReflTransGen step cs ds)
    (hstep : ∀ {cs ds}, step cs ds → view ds = view cs) : view ds = view cs := by
  induction h with
  | refl => rfl
  | tail _ hlast ih => rw [hstep hlast, ih]

/-! ### What a value compiles to -/

namespace Expression

/-- Parts that spell what other parts spell are read to the same chains. -/
theorem exists_reads {ps qs : List (List Char)} {es : List Expression}
    (h : List.Forall₂ (fun p q => ∀ c, Spells (p.splitOn ':') c → Spells (q.splitOn ':') c) ps qs)
    (hes : List.Forall₂ (fun p e => read (String.ofList p) = .ok e) ps es) :
    ∃ es', List.Forall₂ (fun q e => read (String.ofList q) = .ok e) qs es' ∧
      es'.map Expression.chain = es.map Expression.chain := by
  induction h generalizing es with
  | nil =>
    cases hes
    exact ⟨[], .nil, rfl⟩
  | @cons p q ps qs hpq _ ih =>
    cases hes with
    | @cons _ e _ es he hes =>
      have hp : Spells (p.splitOn ':') e.chain := by
        rw [← String.toList_ofList (l := p), ← exists_read_iff]
        exact ⟨e, he, rfl⟩
      have hq : ∃ e', read (String.ofList q) = .ok e' ∧ e'.chain = e.chain := by
        rw [exists_read_iff, String.toList_ofList]
        exact hpq e.chain hp
      obtain ⟨e', he', hchain⟩ := hq
      obtain ⟨es', hes', hchains⟩ := ih hes
      exact ⟨e' :: es', .cons he' hes', by rw [List.map_cons, List.map_cons, hchain, hchains]⟩

end Expression

namespace Forest

theorem compile_of_spells {value value' : String}
    (h : List.Forall₂ (fun p q => ∀ c, Spells (p.splitOn ':') c → Spells (q.splitOn ':') c)
      (value.toList.splitOn ',') (value'.toList.splitOn ','))
    {f : Forest} (hf : (compile value).result = .ok f) : (compile value').result = .ok f := by
  obtain ⟨es, hes, rfl⟩ := compile_eq_ok_iff.1 hf
  obtain ⟨es', hes', hchains⟩ := Expression.exists_reads h (Expression.readAll_eq_ok_iff.1 hes)
  refine compile_eq_ok_iff.2 ⟨es', Expression.readAll_eq_ok_iff.2 hes', ?_⟩
  rw [ofExpressions_eq_insertChains, ofExpressions_eq_insertChains, hchains]

/-- The outline decides what a value compiles to. -/
theorem compile_of_outline_eq {value value' : String}
    (h : outline value'.toList = outline value.toList) {f : Forest}
    (hf : (compile value).result = .ok f) : (compile value').result = .ok f := by
  have hpieces : List.Forall₂ (fun p q => piecesOf p = piecesOf q)
      (value.toList.splitOn ',') (value'.toList.splitOn ',') := by
    rw [← List.forall₂_map_right_iff, ← List.forall₂_map_left_iff (R := (· = ·)),
      List.forall₂_eq_eq_eq]
    exact h.symm
  exact compile_of_spells (hpieces.imp fun p q hpq c => (spells_congr hpq).1) hf

theorem compile_solid {value : String} {f : Forest} (hf : (compile value).result = .ok f) :
    (compile (String.ofList (solid value.toList))).result = .ok f := by
  refine compile_of_spells ?_ hf
  rw [String.toList_ofList, splitOn_solid (by decide), List.forall₂_map_right_iff, List.forall₂_same]
  exact fun p _ c => Spells.without_blanks

end Forest

/-- A change to a value that keeps what it plainly compiles to keeps what it compiles to under options. -/
theorem Options.compile_of_plain {o : Options} {value value' : String} {f : Forest}
    (h : (Forest.compile value).result = .ok f → (Forest.compile value').result = .ok f)
    (hf : (o.compile value).result = .ok f) : (o.compile value').result = .ok f := by
  obtain ⟨hplain, hallows⟩ := compile_eq_ok_iff_allows.1 hf
  exact compile_eq_ok_iff_allows.2 ⟨h hplain, hallows⟩

namespace Expression

/-- **Blanks do not count.** What is read from an accepted text is written as that text without its
blanks, and the text without its blanks is accepted with the same segments; so two accepted texts have
the same segments exactly where they are the same but for blanks. An accepted text stays accepted, with
the same segments, when blanks are put in at its ends, beside colons and beside the first dot of its last
part. For values it is the same, and blanks may stand beside commas as well: without its blanks, or with
blanks put in, a value compiles to the same forest, without options and under any. -/
theorem determined_by_solid_characters :
    (∀ text e, read text = .ok e →
      e.chain.render = String.ofList (solid text.toList) ∧
      ∃ e', read (String.ofList (solid text.toList)) = .ok e' ∧
        e'.chain.segments = e.chain.segments) ∧
    (∀ text text' e e', read text = .ok e → read text' = .ok e' →
      (e.chain.segments = e'.chain.segments ↔ solid text.toList = solid text'.toList)) ∧
    (∀ text text' e, Relation.ReflTransGen Spaced text.toList text'.toList → read text = .ok e →
      ∃ e', read text' = .ok e' ∧ e'.chain.segments = e.chain.segments) ∧
    (∀ value f, (Forest.compile value).result = .ok f →
      (Forest.compile (String.ofList (solid value.toList))).result = .ok f ∧
      ∀ value', Relation.ReflTransGen SpacedValue value.toList value'.toList →
        (Forest.compile value').result = .ok f) ∧
    ∀ (o : Options) value f, (o.compile value).result = .ok f →
      (o.compile (String.ofList (solid value.toList))).result = .ok f ∧
      ∀ value', Relation.ReflTransGen SpacedValue value.toList value'.toList →
        (o.compile value').result = .ok f := by
  refine ⟨?_, ?_, ?_, ?_, ?_⟩
  · intro text e he
    refine ⟨render_of_read he, ?_⟩
    rw [← render_of_read he]
    exact ⟨_, read_render (each_of_read he), rfl⟩
  · intro text text' e e' he he'
    have hsource := render_of_read he
    have hsource' := render_of_read he'
    constructor
    · intro h
      have hrender : e.chain.render = e'.chain.render := by rw [Chain.render, Chain.render, h]
      rw [hsource, hsource', String.ofList_inj] at hrender
      exact hrender
    · intro h
      have hrender : e.chain.render = e'.chain.render := by rw [hsource, hsource', h]
      rw [Chain.render_inj (each_of_read he) (each_of_read he') hrender]
  · intro text text' e hspaced he
    have hspells := exists_read_iff.1 ⟨e, he, rfl⟩
    obtain ⟨e', he', hchain⟩ :=
      exists_read_iff.2 ((spells_congr (eq_of_steps hspaced piecesOf_of_spaced)).2 hspells)
    exact ⟨e', he', by rw [hchain]⟩
  · intro value f hf
    refine ⟨Forest.compile_solid hf, ?_⟩
    intro value' h
    exact Forest.compile_of_outline_eq (eq_of_steps h outline_of_spacedValue) hf
  · intro o value f hf
    refine ⟨Options.compile_of_plain Forest.compile_solid hf, ?_⟩
    intro value' h
    have houtline := eq_of_steps h outline_of_spacedValue
    exact Options.compile_of_plain (Forest.compile_of_outline_eq houtline) hf

/-- Beside a later dot a blank counts. -/
example : read "b.x .y" = .error (.malformed "b.x .y" (.blankInside "x .y")) := by decide +kernel

/-- Blanks beside a colon and beside the first dot of an expression with two dots; blanks beside a comma
and inside the expression before it; and two accepted texts that differ in their blanks. -/
theorem determined_by_solid_characters_padded :
    (∃ e', read "a : b .\tx.y" = .ok e' ∧
      e'.chain.segments = [.relation "a", .leaf "b" "x.y"]) ∧
    (Forest.compile "a:b. x ,c").result =
      .ok (.tree "a" [] (.tree "b" ["x"] .empty .empty) (.tree "c" [] .empty .empty)) ∧
    solid " a:b.x".toList = solid "a : b. x".toList := by
  have hcolon : Spaced "a:b.x.y".toList "a : b.x.y".toList :=
    @Spaced.besideColon [' '] [' '] ['a'] "b.x.y".toList (by decide) (by decide)
  have hdot : Spaced "a : b.x.y".toList "a : b .\tx.y".toList :=
    @Spaced.besideDot [' '] ['\t'] " b".toList "x.y".toList ["a ".toList] (by decide) (by decide)
      (by decide) (by decide) (by decide)
  have hcomma : SpacedValue "a:b.x,c".toList "a:b.x ,c".toList :=
    @SpacedValue.besideComma [' '] [] "a:b.x".toList ['c'] (by decide) (by decide)
  have hinside : SpacedValue "a:b.x ,c".toList "a:b. x ,c".toList :=
    .inExpression [] [['c']] (by decide) (@Spaced.besideDot [] [' '] ['b'] "x ".toList [['a']]
      (by decide) (by decide) (by decide) (by decide) (by decide))
  have hread : read "a:b.x.y" = .ok ⟨"a:b.x.y", .step "a" (.last "b" (some "x.y"))⟩ := by
    decide +kernel
  have hvalue : (Forest.compile "a:b.x,c").result =
      .ok (.tree "a" [] (.tree "b" ["x"] .empty .empty) (.tree "c" [] .empty .empty)) := by
    decide +kernel
  have hleft : read " a:b.x" = .ok ⟨"a:b.x", .step "a" (.last "b" (some "x"))⟩ := by decide +kernel
  have hright : read "a : b. x" = .ok ⟨"a : b. x", .step "a" (.last "b" (some "x"))⟩ := by
    decide +kernel
  exact ⟨determined_by_solid_characters.2.2.1 _ _ _ ((Relation.ReflTransGen.single hcolon).tail hdot) hread,
    (determined_by_solid_characters.2.2.2.1 _ _ hvalue).2 _
      ((Relation.ReflTransGen.single hcomma).tail hinside),
    (determined_by_solid_characters.2.1 _ _ _ _ hleft hright).1 rfl⟩

end Expression

end PopulateQuery
