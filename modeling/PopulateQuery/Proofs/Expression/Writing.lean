import PopulateQuery.Proofs.Expression.Grammar

/-!
# Reading and writing

The written form of what was read is read as the same again, and says which lists of segments can be read at
all (`reading_undoes_writing`).
-/

namespace PopulateQuery

/-!
## Written chains can be read

A relation has no colon, no dot and no blank, and a field has no colon and no blank (`IsName`,
`IsField`). What is read has such names and fields only (`each_of_read`), and a chain that has such
names and fields is read back from the text that it is written as (`read_render`).
-/

/-- A text that stands for a relation wherever it is written. -/
structure IsName (s : String) : Prop where
  ne_nil : s.toList ≠ []
  no_colon : ':' ∉ s.toList
  no_dot : '.' ∉ s.toList
  solid : ∀ c ∈ s.toList, Text.isBlank c = false

/-- A text that stands for a field after the first dot of a piece. It may hold more dots. -/
structure IsField (s : String) : Prop where
  ne_nil : s.toList ≠ []
  no_colon : ':' ∉ s.toList
  solid : ∀ c ∈ s.toList, Text.isBlank c = false

/-! ### What is read -/

theorem not_mem_word {mark : Char} {cs : List Char} (h : mark ∉ cs) : mark ∉ (word cs).toList := by
  rw [word, String.toList_ofList]
  exact fun hmem => h (Text.mem_of_mem_trim hmem)

theorem IsWord.isField {cs : List Char} (h : IsWord cs) (hcolon : ':' ∉ cs) : IsField (word cs) := by
  refine ⟨?_, not_mem_word hcolon, ?_⟩
  · rw [word, String.toList_ofList]
    exact h.ne_nil
  · rw [word, String.toList_ofList]
    exact h.solid

theorem NamesRelation.isName {part : List Char} (h : NamesRelation part) (hcolon : ':' ∉ part) :
    IsName (word part) :=
  have hfield := h.isWord.isField hcolon
  ⟨hfield.ne_nil, hfield.no_colon, not_mem_word h.no_dot, hfield.solid⟩

theorem SelectsField.not_mem {mark : Char} {part name field : List Char}
    (h : SelectsField part name field) (hmark : mark ∉ part) : mark ∉ name ∧ mark ∉ field := by
  rw [h.eq_append, List.mem_append, List.mem_cons] at hmark
  exact ⟨fun hm => hmark (Or.inl hm), fun hm => hmark (Or.inr (Or.inr hm))⟩

/-- What holds of the names and the fields in parts without a mark holds of what the parts spell. -/
theorem Spells.each {mark : Char} {P Q : String → Prop} {parts : List (List Char)} {chain : Chain}
    (h : Spells parts chain) (hmark : ∀ part ∈ parts, mark ∉ part)
    (hname : ∀ cs, mark ∉ cs → NamesRelation cs → P (word cs))
    (hfield : ∀ cs, mark ∉ cs → IsWord cs → Q (word cs)) : chain.Each P Q := by
  induction h with
  | @relation part h =>
    rw [List.forall_mem_singleton] at hmark
    exact Chain.each_last.2 ⟨hname part hmark h, by simp⟩
  | @field part name field h =>
    rw [List.forall_mem_singleton] at hmark
    obtain ⟨hm, hm'⟩ := h.not_mem hmark
    refine Chain.each_last.2 ⟨hname name hm ⟨h.no_dot, h.name_isWord⟩, ?_⟩
    simpa using hfield field hm' h.field_isWord
  | @step part parts chain h _ ih =>
    rw [List.forall_mem_cons] at hmark
    exact Chain.each_step.2 ⟨hname part hmark.1 h, ih hmark.2⟩

namespace Expression

theorem each_of_read {text : String} {e : Expression} (h : read text = .ok e) :
    e.chain.Each IsName IsField := by
  obtain ⟨-, hspells⟩ := (read_eq_ok_iff text e).1 h
  exact hspells.each (fun part hpart => (Text.mem_splitOn hpart).1)
    (fun cs hcolon hcs => hcs.isName hcolon) fun cs hcolon hcs => hcs.isField hcolon

/-- A mark that is not in the text is in no relation and no field that is read from it. -/
theorem lacks_of_read {mark : Char} {text : String} {e : Expression} (h : read text = .ok e)
    (hmark : mark ∉ text.toList) : e.chain.Lacks mark := by
  obtain ⟨-, hspells⟩ := (read_eq_ok_iff text e).1 h
  have hparts : ∀ part ∈ (Text.trim text.toList).splitOn ':', mark ∉ part := by
    intro part hpart hmem
    exact hmark (Text.mem_of_mem_trim ((Text.mem_splitOn hpart).2.subset hmem))
  exact hspells.each hparts (fun cs hcs _ => not_mem_word hcs) fun cs hcs _ => not_mem_word hcs

end Expression

/-! ### What is written -/

theorem word_eq_self {s : String} (h : ∀ c ∈ s.toList, Text.isBlank c = false) : word s.toList = s := by
  rw [word, Text.trim_eq_self h, String.ofList_toList]

theorem IsField.isWord {s : String} (h : IsField s) : IsWord s.toList := by
  refine ⟨?_, ?_⟩
  · rw [Text.trim_eq_self h.solid]
    exact h.ne_nil
  · rw [Text.trim_eq_self h.solid]
    exact h.solid

theorem IsName.isField {s : String} (h : IsName s) : IsField s := ⟨h.ne_nil, h.no_colon, h.solid⟩

theorem IsName.namesRelation {s : String} (h : IsName s) : NamesRelation s.toList :=
  ⟨h.no_dot, h.isField.isWord⟩

theorem IsName.selectsField {name field : String} (h : IsName name) (hf : IsField field) :
    SelectsField (Segment.leaf name field).render.toList name.toList field.toList := by
  refine ⟨?_, h.no_dot, h.isField.isWord, hf.isWord⟩
  simp [Segment.render]

/-- The segments of a chain spell it. -/
theorem spells_segments {c : Chain} (h : c.Each IsName IsField) :
    Spells (c.segments.map fun s => s.render.toList) c := by
  induction c with
  | last relation field =>
    obtain ⟨hname, hfield⟩ := Chain.each_last.1 h
    cases field with
    | none =>
      have hspells := Spells.relation hname.namesRelation
      rwa [word_eq_self hname.solid] at hspells
    | some x =>
      have hx : IsField x := hfield x rfl
      have hspells := Spells.field (hname.selectsField hx)
      rwa [word_eq_self hname.solid, word_eq_self hx.solid] at hspells
  | step relation rest ih =>
    obtain ⟨hname, hrest⟩ := Chain.each_step.1 h
    have hspells := Spells.step hname.namesRelation (ih hrest)
    rwa [word_eq_self hname.solid] at hspells

/-- A character of a written segment is the dot, or belongs to the name or to the field. -/
theorem Chain.forall_mem_segments {R : Char → Prop} {c : Chain}
    (h : c.Each (∀ ch ∈ ·.toList, R ch) (∀ ch ∈ ·.toList, R ch)) (hdot : R '.') :
    ∀ s ∈ c.segments, ∀ ch ∈ s.render.toList, R ch := by
  induction c with
  | last relation field =>
    obtain ⟨hname, hfield⟩ := each_last.1 h
    cases field with
    | none =>
      rw [segments, List.forall_mem_singleton]
      exact hname
    | some x =>
      rw [segments, List.forall_mem_singleton]
      intro ch hch
      simp only [Segment.render, String.toList_append, List.mem_append] at hch
      rcases hch with (hch | hch) | hch
      · exact hname ch hch
      · obtain rfl : ch = '.' := by simpa using hch
        exact hdot
      · exact hfield x rfl ch hch
  | step relation rest ih =>
    obtain ⟨hname, hrest⟩ := each_step.1 h
    rw [segments, List.forall_mem_cons]
    exact ⟨hname, ih hrest⟩

theorem Chain.toList_render (c : Chain) :
    c.render.toList = [':'].intercalate (c.segments.map fun s => s.render.toList) := by
  rw [render, Segment.renderAll, String.toList_intercalate, List.map_map]
  rfl

/-- A character of a written chain is a colon or a dot, or belongs to a name or to the field. -/
theorem Chain.forall_mem_render {R : Char → Prop} {c : Chain}
    (h : c.Each (∀ ch ∈ ·.toList, R ch) (∀ ch ∈ ·.toList, R ch)) (hcolon : R ':') (hdot : R '.') :
    ∀ ch ∈ c.render.toList, R ch := by
  rw [toList_render]
  refine Text.forall_mem_intercalate hcolon fun piece hpiece => ?_
  obtain ⟨s, hs, rfl⟩ := List.mem_map.1 hpiece
  exact forall_mem_segments h hdot s hs

/-- The segments are what lies between the colons of a written chain. -/
theorem splitOn_render {c : Chain} (h : c.Each IsName IsField) :
    c.render.toList.splitOn ':' = c.segments.map fun s => s.render.toList := by
  have hne : c.segments ≠ [] := by
    rw [← List.length_pos_iff, Chain.length_segments]
    exact c.length_pos
  have hcolon : c.Lacks ':' := h.mono (fun _ hs => hs.no_colon) fun _ hs => hs.no_colon
  rw [Chain.toList_render]
  refine List.splitOn_intercalate ':' (fun piece hpiece hmem => ?_) (by simpa using hne)
  obtain ⟨s, hs, rfl⟩ := List.mem_map.1 hpiece
  exact Chain.forall_mem_segments hcolon.forall_ne (by decide) s hs ':' hmem rfl

/-- **A written chain is read back**, with the text as its source. -/
theorem Expression.read_render {c : Chain} (h : c.Each IsName IsField) :
    read c.render = .ok ⟨c.render, c⟩ := by
  have hsolid : ∀ ch ∈ c.render.toList, Text.isBlank ch = false :=
    Chain.forall_mem_render (h.mono (fun _ hs => hs.solid) fun _ hs => hs.solid) (by decide) (by decide)
  refine (read_eq_ok_iff _ _).2 ⟨(word_eq_self hsolid).symm, ?_⟩
  rw [Text.trim_eq_self hsolid, splitOn_render h]
  exact spells_segments h

/-- Two chains are written alike only if they are the same. -/
theorem Chain.render_inj {c d : Chain} (hc : c.Each IsName IsField) (hd : d.Each IsName IsField)
    (h : c.render = d.render) : c = d := by
  have hread := Expression.read_render hc
  rw [h, Expression.read_render hd] at hread
  cases hread
  rfl

/-!
## The lists of segments that are read

Reading gives a list of segments of a certain form: there is at least one, only the last one has a field,
and the names and the field are those of written expressions (`Segment.WellFormed`). Every list of this form
is read from the text that it is written as, so these lists are exactly what can be read, and no two of
them are written alike (`reading_undoes_writing`).
-/

namespace Segment

/-- The lists of segments that make an expression. -/
structure WellFormed (segments : List Segment) : Prop where
  ne_nil : segments ≠ []
  /-- Only the last segment may have a field. -/
  leaf_last : ∀ s ∈ segments.dropLast, s.field = none
  /-- A relation is not empty and has no colon, no dot and no blank. -/
  isName : ∀ s ∈ segments, IsName s.target
  /-- A field is not empty and has no colon and no blank. -/
  isField : ∀ s ∈ segments, ∀ field, s.field = some field → IsField field

theorem wellFormed_singleton {s : Segment} :
    WellFormed [s] ↔ IsName s.target ∧ ∀ field, s.field = some field → IsField field := by
  constructor
  · intro h
    exact ⟨h.isName s (by simp), h.isField s (by simp)⟩
  · rintro ⟨hname, hfield⟩
    exact ⟨by simp, by simp, by simpa using hname, by simpa using hfield⟩

theorem wellFormed_cons_cons {s next : Segment} {rest : List Segment} :
    WellFormed (s :: next :: rest) ↔
      s.field = none ∧ IsName s.target ∧ WellFormed (next :: rest) := by
  constructor
  · intro h
    have hleaf := h.leaf_last
    have hname := h.isName
    have hfield := h.isField
    rw [List.dropLast_cons_cons, List.forall_mem_cons] at hleaf
    rw [List.forall_mem_cons] at hname hfield
    exact ⟨hleaf.1, hname.1, by simp, hleaf.2, hname.2, hfield.2⟩
  · rintro ⟨hbare, hname, h⟩
    refine ⟨by simp, ?_, ?_, ?_⟩
    · rw [List.dropLast_cons_cons, List.forall_mem_cons]
      exact ⟨hbare, h.leaf_last⟩
    · rw [List.forall_mem_cons]
      exact ⟨hname, h.isName⟩
    · rw [List.forall_mem_cons]
      exact ⟨by simp [hbare], h.isField⟩

end Segment

namespace Chain

open Segment (WellFormed wellFormed_singleton wellFormed_cons_cons)

/-- The segments of a chain are well formed where its relations and its field are. -/
theorem wellFormed_segments_iff {c : Chain} : WellFormed c.segments ↔ c.Each IsName IsField := by
  induction c with
  | last relation field =>
    cases field <;> simp [segments, wellFormed_singleton, each_last, Segment.target, Segment.field]
  | step relation rest ih =>
    obtain ⟨next, more, hmore, -⟩ := rest.segments_eq_cons
    rw [segments, each_step, ← ih, hmore, wellFormed_cons_cons]
    exact and_iff_right rfl

/-- A well-formed list of segments is the list of a chain. -/
theorem exists_of_wellFormed {l : List Segment} (h : WellFormed l) : ∃ c : Chain, c.segments = l := by
  induction l with
  | nil => exact absurd rfl h.ne_nil
  | cons s rest ih =>
    cases rest with
    | nil =>
      cases s with
      | relation name => exact ⟨last name none, rfl⟩
      | leaf name field => exact ⟨last name (some field), rfl⟩
    | cons next rest =>
      obtain ⟨hbare, -, hrest⟩ := wellFormed_cons_cons.1 h
      obtain ⟨c, hc⟩ := ih hrest
      cases s with
      | relation name => exact ⟨step name c, by rw [segments, hc]⟩
      | leaf name field => cases hbare

end Chain

namespace Expression

/-- What is read has well-formed segments. -/
theorem wellFormed_of_read {text : String} {e : Expression} (h : read text = .ok e) :
    Segment.WellFormed e.chain.segments :=
  Chain.wellFormed_segments_iff.2 (each_of_read h)

/-- A well-formed list of segments is read from the text that it is written as. -/
theorem exists_read_of_wellFormed {l : List Segment} (h : Segment.WellFormed l) :
    ∃ e, read (Segment.renderAll l) = .ok e ∧ e.chain.segments = l ∧
      e.source = Segment.renderAll l := by
  obtain ⟨c, rfl⟩ := Chain.exists_of_wellFormed h
  exact ⟨⟨c.render, c⟩, read_render (Chain.wellFormed_segments_iff.1 h), rfl, rfl⟩

/-- **Reading undoes writing, and reads nothing else.** A list of segments is read from some text if and
only if it is well formed. Then it is read from the text that it is written as, and that text is the source.
So what is read has a first segment, whose relation is the head, and what is read from two texts is written
alike only if it is the same list of segments. -/
theorem reading_undoes_writing :
    (∀ l : List Segment, (∃ text e, read text = .ok e ∧ e.chain.segments = l) ↔ Segment.WellFormed l) ∧
    (∀ l : List Segment, Segment.WellFormed l → ∃ e, read (Segment.renderAll l) = .ok e ∧
      e.chain.segments = l ∧ e.source = Segment.renderAll l) ∧
    (∀ text e, read text = .ok e → e.chain.segments.isEmpty = false ∧
      e.chain.segments.head?.map Segment.target = some e.chain.head) ∧
    ∀ text text' e e', read text = .ok e → read text' = .ok e' →
      e.chain.render = e'.chain.render → e.chain.segments = e'.chain.segments := by
  refine ⟨fun l => ⟨?_, fun h => ?_⟩, fun l h => exists_read_of_wellFormed h, fun text e h => ?_, ?_⟩
  · rintro ⟨text, e, h, rfl⟩
    exact wellFormed_of_read h
  · obtain ⟨e, hread, hsegments, -⟩ := exists_read_of_wellFormed h
    exact ⟨_, e, hread, hsegments⟩
  · obtain ⟨s, rest, hsegments, htarget⟩ := e.chain.segments_eq_cons
    simp [hsegments, htarget]
  · intro text text' e e' h h' hsame
    rw [Chain.render_inj (each_of_read h) (each_of_read h') hsame]

/-- A field that begins and ends with a dot and has a comma in it, and a list with a field before its end. -/
theorem reading_undoes_writing_with_dots :
    (∃ e, read "a:b..x,y." = .ok e ∧ e.chain.segments = [.relation "a", .leaf "b" ".x,y."] ∧
      e.source = "a:b..x,y.") ∧
    ¬ ∃ text e, read text = .ok e ∧ e.chain.segments = [.leaf "a" "b", .relation "c"] := by
  have hwritten : Segment.WellFormed [.relation "a", .leaf "b" ".x,y."] := by
    rw [Segment.wellFormed_cons_cons, Segment.wellFormed_singleton]
    have hname : ∀ name ∈ ["a", "b"], IsName name := by
      intro name hname
      simp only [List.mem_cons, List.not_mem_nil, or_false] at hname
      rcases hname with rfl | rfl <;>
        exact ⟨by decide, by decide, by decide, by simp [Text.isBlank, Text.blankRanges]⟩
    refine ⟨rfl, hname "a" (by simp), hname "b" (by simp), ?_⟩
    rintro field ⟨⟩
    exact ⟨by decide, by decide, by simp [Text.isBlank, Text.blankRanges]⟩
  refine ⟨reading_undoes_writing.2.1 _ hwritten, fun h => ?_⟩
  have hleaf := ((reading_undoes_writing.1 _).1 h).leaf_last (.leaf "a" "b") (by decide)
  cases hleaf

end Expression

end PopulateQuery
