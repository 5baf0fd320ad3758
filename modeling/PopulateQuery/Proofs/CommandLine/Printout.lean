import PopulateQuery.Proofs.CommandLine.Agreement
import PopulateQuery.Proofs.Descriptor.Restoring
import PopulateQuery.Proofs.Json.Pretty
import PopulateQuery.Proofs.RoundTrip

/-!
# The printout of a forest loses nothing

Without styles the line of a node is its indentation and a bullet, then a relation without blanks, then a
blank and the fields in brackets. So a line is read in one way (`nodeLine_inj`) although relations and
fields may hold brackets and bullets. The lines below a node are those that are indented further, up to
the next that is not, and so the lines tell the forest (`nodeLines_inj`). As the JSON form does too, the
two formats tell the same values apart (`printout_loses_nothing`).
-/

namespace PopulateQuery

namespace CommandLine

/-! ## Lines -/

def indentation (line : String) : Nat := (line.toList.takeWhile (· == ' ')).length

/-- What stands behind the relation of a node: its fields in brackets, if it selects any. -/
def bracketed : Option String → List Char
  | none => []
  | some fields => ' ' :: '[' :: (fields.toList ++ [']'])

theorem toList_nodeLine (level : Nat) (n : Node) : (nodeLine (painter false) level n).toList =
    List.replicate (2 * level) ' ' ++ '•' :: ' ' :: (n.relation.toList ++ bracketed n.selectText) := by
  unfold nodeLine
  cases n.selectText <;> simp [painter, Text.toList_pushn, bracketed]

theorem bracketed_inj {fields fields' : Option String} (h : bracketed fields = bracketed fields') :
    fields = fields' := by
  cases fields <;> cases fields' <;> simp_all [bracketed, String.toList_inj]

theorem indentation_nodeLine (level : Nat) (n : Node) :
    indentation (nodeLine (painter false) level n) = 2 * level := by
  rw [indentation, toList_nodeLine, Text.takeWhile_append_of_stop (by simp) (by simp), List.length_replicate]

/-- A line of one level is read in one way. -/
theorem nodeLine_inj {level : Nat} {n m : Node} (hn : IsName n.relation ∧ ∀ field ∈ n.select, IsField field)
    (hm : IsName m.relation ∧ ∀ field ∈ m.select, IsField field)
    (h : nodeLine (painter false) level n = nodeLine (painter false) level m) :
    n.relation = m.relation ∧ n.select = m.select := by
  have hchars := congrArg String.toList h
  rw [toList_nodeLine, toList_nodeLine] at hchars
  have hafter := List.tail_eq_of_cons_eq (List.tail_eq_of_cons_eq (List.append_cancel_left hchars))
  -- the relation ends at the first blank
  have hstop : ∀ n : Node, ∀ c ∈ (bracketed n.selectText).head?, (!Text.isBlank c) = false := by
    intro n
    cases n.selectText with
    | none => simp [bracketed]
    | some fields => simpa [bracketed] using (by decide : Text.isBlank ' ' = true)
  obtain ⟨hrelation, hfields⟩ := Text.append_inj_of_run (p := (!Text.isBlank ·))
    (by simpa using hn.1.solid) (hstop n) (by simpa using hm.1.solid) (hstop m) hafter
  refine ⟨String.toList_injective hrelation, ?_⟩
  rw [← Node.fieldsOf_selectText fun field hfield => (hn.2 field hfield).lacks_blank, bracketed_inj hfields,
    Node.fieldsOf_selectText fun field hfield => (hm.2 field hfield).lacks_blank]

/-! ## The lines of a forest -/

/-- The lines of a forest are those of its nodes in pre-order, each at the level that its path is long. -/
theorem nodeLines_eq_map (paint : Painter) (f : Forest) (above : List String) :
    nodeLines paint (above.length + 1) f =
      (f.preorderBelow above).map fun p => nodeLine paint p.1.length p.2 := by
  induction f generalizing above with
  | empty => rfl
  | tree relation select children siblings ihc ihs =>
    have hbelow := ihc (above ++ [relation])
    rw [List.length_append, List.length_singleton] at hbelow
    rw [nodeLines, hbelow, ihs, Forest.preorderBelow, List.map_cons, List.map_append, List.length_append,
      List.length_singleton]

theorem le_indentation_of_mem_nodeLines {level : Nat} {f : Forest} {line : String}
    (h : line ∈ nodeLines (painter false) level f) : 2 * level ≤ indentation line := by
  induction f generalizing level with
  | empty => cases h
  | tree relation select children siblings ihc ihs =>
    rw [nodeLines, List.mem_cons, List.mem_append] at h
    rcases h with rfl | h | h
    · exact (indentation_nodeLine level _).ge
    · have := ihc h
      omega
    · exact ihs h

theorem indentation_of_head?_nodeLines {level : Nat} {f : Forest} {line : String}
    (h : line ∈ (nodeLines (painter false) level f).head?) : indentation line = 2 * level := by
  cases f with
  | empty => cases h
  | tree relation select children siblings =>
    cases h
    exact indentation_nodeLine level _

/-- **The lines of a forest tell the forest.** The lines behind a node that are indented further are those of
its children, and the others those of its later siblings. -/
theorem nodeLines_inj {f g : Forest} (hf : f.Each IsName IsField) (hg : g.Each IsName IsField) {level : Nat}
    (h : nodeLines (painter false) level f = nodeLines (painter false) level g) : f = g := by
  induction f generalizing g level with
  | empty =>
    cases g with
    | empty => rfl
    | tree relation select children siblings => cases h
  | tree relation select children siblings ihc ihs =>
    cases g with
    | empty => cases h
    | tree relation' select' children' siblings' =>
      obtain ⟨hn, hchildren, hsiblings⟩ := Forest.each_tree.1 hf
      obtain ⟨hm, hchildren', hsiblings'⟩ := Forest.each_tree.1 hg
      obtain ⟨hline, hrest⟩ := List.cons.inj h
      obtain ⟨rfl, rfl⟩ := nodeLine_inj (n := ⟨relation, select, children⟩)
        (m := ⟨relation', select', children'⟩) hn hm hline
      have hdeeper : ∀ c : Forest, ∀ line ∈ nodeLines (painter false) (level + 1) c,
          decide (2 * level < indentation line) = true := fun c line hline => by
        have := le_indentation_of_mem_nodeLines hline
        simp only [decide_eq_true_eq]
        omega
      have hbeside : ∀ s : Forest, ∀ line ∈ (nodeLines (painter false) level s).head?,
          decide (2 * level < indentation line) = false := fun s line hline => by
        simp [indentation_of_head?_nodeLines hline]
      obtain ⟨hc, hs⟩ := Text.append_inj_of_run (hdeeper children) (hbeside siblings) (hdeeper children')
        (hbeside siblings') hrest
      rw [ihc hchildren hchildren' hc, ihs hsiblings hsiblings' hs]

/-! ## Texts of lines -/

theorem unlines_cons (line : String) (lines : List String) :
    unlines (line :: lines) = line ++ "\n" ++ unlines lines := by
  cases lines with
  | nil => simp [unlines]
  | cons next lines =>
    rw [unlines, List.map_cons, List.map_cons, String.intercalate_cons_cons, String.append_empty]
    rfl

theorem unlines_ne_empty {lines : List String} (h : lines ≠ []) : unlines lines ≠ "" := by
  cases lines with
  | nil => exact absurd rfl h
  | cons line lines => simp [unlines_cons]

/-- A text of lines is cut at its line ends into the lines, and an empty text behind the last. -/
theorem splitOn_unlines {lines : List String} (h : ∀ line ∈ lines, '\n' ∉ line.toList) :
    (unlines lines).toList.splitOn '\n' = lines.map String.toList ++ [[]] := by
  induction lines with
  | nil => rfl
  | cons line lines ih =>
    rw [List.forall_mem_cons] at h
    rw [unlines_cons, String.toList_append, String.toList_append, List.append_assoc, List.map_cons,
      List.cons_append, ← ih h.2]
    exact List.splitOn_append_cons_self_of_not_mem h.1 _

theorem unlines_inj {lines lines' : List String} (h : ∀ line ∈ lines, '\n' ∉ line.toList)
    (h' : ∀ line ∈ lines', '\n' ∉ line.toList) : unlines lines = unlines lines' ↔ lines = lines' := by
  refine ⟨fun hsame => ?_, fun hsame => by rw [hsame]⟩
  have hcut := congrArg (fun text : String => text.toList.splitOn '\n') hsame
  simp only [splitOn_unlines h, splitOn_unlines h', List.append_cancel_right_eq] at hcut
  exact List.map_injective_iff.2 (fun _ _ => String.toList_injective) hcut

/-- The line of a node has no line end in it. -/
theorem not_mem_nodeLine {level : Nat} {n : Node} (h : IsName n.relation ∧ ∀ field ∈ n.select, IsField field) :
    '\n' ∉ (nodeLine (painter false) level n).toList := by
  have hfields : '\n' ∉ bracketed n.selectText := by
    cases htext : n.selectText with
    | none => simp [bracketed]
    | some fields =>
      obtain ⟨-, rfl⟩ := Node.selectText_eq_some_iff.1 htext
      have hjoined : '\n' ∉ (" ".intercalate n.select).toList := by
        rw [String.toList_intercalate]
        intro hmem
        refine Text.forall_mem_intercalate (R := (· ≠ '\n')) (by decide) (fun cs hcs c hc => ?_) _ hmem rfl
        obtain ⟨field, hfield, rfl⟩ := List.mem_map.1 hcs
        rintro rfl
        exact Text.not_mem_of_solid (h.2 field hfield).solid (by decide) hc
      simpa [bracketed] using hjoined
  have hrelation : '\n' ∉ n.relation.toList := Text.not_mem_of_solid h.1.solid (by decide)
  simp [toList_nodeLine, hrelation, hfields]

/-! ## The printout -/

/-- The printout of a forest that has a node has one line for each. -/
theorem treeLines_eq_map {f : Forest} (hne : f ≠ .empty) (paint : Painter) :
    treeLines paint f = (f.preorderBelow []).map fun p => nodeLine paint p.1.length p.2 := by
  rw [treeLines, if_neg (mt Forest.isEmpty_iff.1 hne)]
  exact nodeLines_eq_map paint f []

section Printout
variable {f g : Forest} (hf : f.Each IsName IsField) (hg : g.Each IsName IsField)
include hf

theorem lineEnd_not_mem_treeLines : ∀ line ∈ treeLines (painter false) f, '\n' ∉ line.toList := by
  by_cases hne : f = .empty
  · subst hne
    decide +kernel
  · rw [treeLines_eq_map hne, List.forall_mem_map]
    intro p hp
    have hmem : p.2 ∈ f.preorder := Forest.map_snd_preorderBelow f [] ▸ List.mem_map_of_mem hp
    exact not_mem_nodeLine (hf p.2 hmem)

include hg

/-- **The printouts of two forests are equal where the forests are.** -/
theorem unlines_treeLines_inj :
    unlines (treeLines (painter false) f) = unlines (treeLines (painter false) g) ↔ f = g := by
  refine ⟨fun h => ?_, fun h => by rw [h]⟩
  rw [unlines_inj (lineEnd_not_mem_treeLines hf) (lineEnd_not_mem_treeLines hg)] at h
  -- what is shown in place of no node is not indented
  have hnothing : ∀ relation select children siblings,
      treeLines (painter false) .empty ≠ treeLines (painter false) (.tree relation select children siblings) := by
    intro relation select children siblings hsame
    have hline := congrArg indentation (List.cons.inj hsame).1
    rw [indentation_nodeLine] at hline
    exact absurd hline (by decide)
  cases f with
  | empty =>
    cases g with
    | empty => rfl
    | tree => exact absurd h (hnothing _ _ _ _)
  | tree =>
    cases g with
    | empty => exact absurd h.symm (hnothing _ _ _ _)
    | tree => exact nodeLines_inj hf hg h

end Printout

end CommandLine

/-! ## The JSON form -/

namespace Descriptor

theorem textual_ownMembers (path : String) (select : Option String) :
    ∀ member ∈ ownMembers path select, member.2.Textual := by
  cases select <;> simp [ownMembers, Json.Textual.string]

mutual

/-- A descriptor is written with texts, arrays and objects only. -/
theorem textual_toJson : ∀ d : Descriptor, d.toJson.Textual
  | mk path select none => .object (textual_ownMembers path select)
  | mk path select (some ds) => .object <| List.forall_mem_append.2
      ⟨textual_ownMembers path select, List.forall_mem_singleton.2 (.array (textual_listToJsonItems ds))⟩

theorem textual_listToJsonItems : ∀ ds : List Descriptor, ∀ item ∈ listToJsonItems ds, item.Textual
  | [] => by simp [listToJsonItems]
  | d :: ds => List.forall_mem_cons.2 ⟨textual_toJson d, textual_listToJsonItems ds⟩

end

/-- Lists of descriptors are equal where the texts of their JSON forms are. -/
theorem pretty_listToJson_inj {ds ds' : List Descriptor} :
    (listToJson ds).pretty = (listToJson ds').pretty ↔ ds = ds' := by
  rw [← listToJson_inj]
  exact Json.pretty_inj (.array (textual_listToJsonItems ds)) (.array (textual_listToJsonItems ds'))

end Descriptor

namespace CommandLine

/-! ## Both formats -/

def Ending.output : Ending → String
  | .misused _ => ""
  | .ended _ output _ => output

namespace Setup
variable {s : Setup} {format : Format} {value : String}

/-- What a call that is not verbose leaves as its output when it compiles a value. -/
def printed (s : Setup) (format : Format) (value : String) : String :=
  (ending (s.showing format false) ((s.showing format false).compileValue value)).output

theorem output_ending (s : Setup) (t : Transcript Unit) : (ending s t).output = unlines t.lines := by
  unfold ending
  cases t.result <;> rfl

theorem printed_of_ok {f : Forest} (h : (s.compileForest value).result = .ok f) :
    s.printed format value = unlines ((s.showing format false).forestLines f) := by
  rw [printed, output_ending, (compileValue_of_ok (s := s.showing format false) h).1]
  rfl

theorem printed_of_error {failure : Failure} (h : (s.compileForest value).result = .error failure) :
    s.printed format value = "" := by
  rw [printed, output_ending, (compileValue_of_error (s := s.showing format false) h).1]
  rfl

theorem reachable_of_compileForest {f : Forest} (h : (s.compileForest value).result = .ok f) : f.Reachable := by
  obtain ⟨o, -, hf⟩ := compileForest_eq_ok_iff.1 h
  obtain ⟨es, hread, -, hmerged⟩ := Options.compile_eq_ok_iff.1 hf
  exact Forest.reachable_of_compile (Forest.compile_eq_ok_iff.2 ⟨es, hread, hmerged⟩)

theorem forestLines_ne_nil (s : Setup) (f : Forest) : s.forestLines f ≠ [] := by
  unfold forestLines
  split
  · simp
  · cases f <;> simp [treeLines, nodeLines, Forest.isEmpty]

/-- In either format the texts of two forests are equal where the forests are. -/
theorem unlines_forestLines_inj (hplain : s.environment.colours = false) {f g : Forest} (hf : f.Reachable)
    (hg : g.Reachable) : unlines (s.forestLines f) = unlines (s.forestLines g) ↔ f = g := by
  unfold forestLines
  cases s.settings.format with
  | json =>
    simp only [unlines_cons, String.append_left_inj]
    rw [Descriptor.pretty_listToJson_inj, Forest.descriptors_inj hf.plainFields hg.plainFields]
  | tree =>
    rw [paint, hplain]
    exact unlines_treeLines_inj hf.each hg.each

/-- Two values are printed alike where both fail, or both compile to one forest; the format does not matter. -/
theorem printed_eq_iff (hplain : s.environment.colours = false) {value' : String} :
    s.printed format value = s.printed format value' ↔
      ((∃ failure, (s.compileForest value).result = .error failure) ∧
        ∃ failure, (s.compileForest value').result = .error failure) ∨
      ∃ f, (s.compileForest value).result = .ok f ∧ (s.compileForest value').result = .ok f := by
  have hne : ∀ f, unlines ((s.showing format false).forestLines f) ≠ "" := fun f =>
    unlines_ne_empty (forestLines_ne_nil _ f)
  cases h : (s.compileForest value).result with
  | error failure =>
    rw [printed_of_error h]
    cases h' : (s.compileForest value').result with
    | error failure' => simp [printed_of_error h']
    | ok g => simp [printed_of_ok h', (hne g).symm]
  | ok f =>
    rw [printed_of_ok h]
    cases h' : (s.compileForest value').result with
    | error failure' => simp [printed_of_error h', hne f]
    | ok g =>
      rw [printed_of_ok h', unlines_forestLines_inj (s := s.showing format false) hplain
        (reachable_of_compileForest h) (reachable_of_compileForest h')]
      simp [eq_comm]

end Setup

/-- **The printout of a forest loses nothing.** Without styles, reachable forests have the same printout if and only
if they are equal, and if and only if the texts of their JSON forms are the same. The printout of a forest that has
a node is one line for each of its nodes in pre-order, indented by two spaces for each name on the path that leads
to the node, and each line is ended. So a call prints two values alike in the one format exactly where it does so
in the other, whether they compile or not. -/
theorem printout_loses_nothing :
    (∀ f g : Forest, f.Reachable → g.Reachable →
      (unlines (treeLines (painter false) f) = unlines (treeLines (painter false) g) ↔ f = g) ∧
      ((Descriptor.listToJson f.descriptors).pretty = (Descriptor.listToJson g.descriptors).pretty ↔ f = g)) ∧
    (∀ f : Forest, f.Reachable → f ≠ .empty →
      (unlines (treeLines (painter false) f)).toList.splitOn '\n' =
        (f.preorderBelow []).map (fun p => (nodeLine (painter false) p.1.length p.2).toList) ++ [[]] ∧
      (f.preorderBelow []).map Prod.snd = f.preorder ∧
      ∀ p ∈ f.preorderBelow [], f.at? p.1 = some p.2 ∧
        indentation (nodeLine (painter false) p.1.length p.2) = 2 * p.1.length) ∧
    ∀ (s : Setup) (value value' : String), s.environment.colours = false →
      (s.printed .tree value = s.printed .tree value' ↔ s.printed .json value = s.printed .json value') := by
  refine ⟨fun f g hf hg => ⟨unlines_treeLines_inj hf.each hg.each, ?_⟩,
    fun f hf hne => ⟨?_, ?_, fun p hp => ⟨?_, ?_⟩⟩, fun s value value' hplain => ?_⟩
  · rw [Descriptor.pretty_listToJson_inj, Forest.descriptors_inj hf.plainFields hg.plainFields]
  · rw [splitOn_unlines (lineEnd_not_mem_treeLines hf.each), treeLines_eq_map hne, List.map_map]
    rfl
  · exact Forest.map_snd_preorderBelow f []
  · obtain ⟨below, hpath, hbelow⟩ := Forest.at?_of_mem_preorderBelow hf.distinct hp
    rw [hpath]
    exact hbelow
  · exact indentation_nodeLine _ _
  · rw [Setup.printed_eq_iff hplain, Setup.printed_eq_iff hplain]

/-- A relation that is a bullet and a field in brackets, below a relation and beside it. -/
theorem printout_loses_nothing_of_bullets :
    unlines (treeLines (painter false) (.tree "a" ["[x]"] (.tree "•" [] .empty .empty) .empty)) ≠
      unlines (treeLines (painter false) (.tree "a" ["[x]"] .empty (.tree "•" [] .empty .empty))) ∧
    (unlines (treeLines (painter false) (.tree "a" ["[x]"] (.tree "•" [] .empty .empty) .empty))).toList.splitOn
      '\n' = ["  • a [[x]]".toList, "    • •".toList, []] ∧
    Setup.printed ⟨{ files := fun _ => .absent .notFound }, {}⟩ .json "a.[x],a:•" ≠
      Setup.printed ⟨{ files := fun _ => .absent .notFound }, {}⟩ .json "a.[x],•" := by
  have hbelow : (Forest.compile "a.[x],a:•").result =
      .ok (.tree "a" ["[x]"] (.tree "•" [] .empty .empty) .empty) := by decide +kernel
  have hbeside : (Forest.compile "a.[x],•").result =
      .ok (.tree "a" ["[x]"] .empty (.tree "•" [] .empty .empty)) := by decide +kernel
  obtain ⟨htexts, hlines, hformats⟩ := printout_loses_nothing
  refine ⟨fun h => ?_, ?_, fun h => ?_⟩
  · have hsame := (htexts _ _ (Forest.reachable_of_compile hbelow) (Forest.reachable_of_compile hbeside)).1.1 h
    exact absurd hsame (by decide)
  · rw [(hlines _ (Forest.reachable_of_compile hbelow) (by simp)).1]
    decide +kernel
  · exact absurd ((hformats _ _ _ rfl).2 h) (by decide +kernel)

end CommandLine

end PopulateQuery
