import PopulateQuery.Forest

/-!
# Descriptors and their JSON form

What descriptors are written as is read back, and everything else that is read as them has one of a few shapes
(`json_form_read_back`).
-/

namespace PopulateQuery

/-!
## Written descriptors are read back

Each descriptor is what its JSON form is read as (`listOfJson?_listToJson`), so two lists of descriptors
have the same JSON form only if they are the same (`listToJson_inj`).
-/

namespace Descriptor

theorem lookup_path_ownMembers (path : String) (select : Option String) (more : List (String × Json)) :
    (ownMembers path select ++ more).lookup "path" = some (.string path) := by
  simp [ownMembers]

theorem optionalText?_lookup_ownMembers (path : String) (select : Option String)
    (more : List (String × Json)) (h : more.lookup "select" = none) :
    optionalText? ((ownMembers path select ++ more).lookup "select") = some select := by
  have hkey : ("select" == "path") = false := by decide
  cases select <;> simp [ownMembers, List.lookup_cons, hkey, h, optionalText?]

theorem populateMember?_ownMembers (path : String) (select : Option String)
    (more : List (String × Json)) :
    populateMember? (ownMembers path select ++ more) = populateMember? more := by
  cases select <;> simp [ownMembers, populateMember?]

mutual

theorem ofJson?_toJson : ∀ d : Descriptor, ofJson? d.toJson = some d
  | mk path select none => by
    have hpath := lookup_path_ownMembers path select []
    have hselect := optionalText?_lookup_ownMembers path select [] rfl
    have hpopulate := populateMember?_ownMembers path select []
    rw [List.append_nil] at hpath hselect hpopulate
    simp [toJson, ofJson?, hpath, hselect, hpopulate, requiredText?, populateMember?]
  | mk path select (some ds) => by
    have hitems := itemsOfJson?_listToJsonItems ds
    have hpath := lookup_path_ownMembers path select [("populate", .array (listToJsonItems ds))]
    have hselect := optionalText?_lookup_ownMembers path select
      [("populate", .array (listToJsonItems ds))] rfl
    have hpopulate := populateMember?_ownMembers path select
      [("populate", .array (listToJsonItems ds))]
    simp [toJson, ofJson?, hpath, hselect, hpopulate, requiredText?, populateMember?, populatePart?,
      hitems]

theorem itemsOfJson?_listToJsonItems : ∀ ds : List Descriptor,
    itemsOfJson? (listToJsonItems ds) = some ds
  | [] => rfl
  | d :: ds => by
    simp [listToJsonItems, itemsOfJson?, ofJson?_toJson d, itemsOfJson?_listToJsonItems ds]

end

/-- **Written descriptors are read back.** -/
theorem listOfJson?_listToJson (ds : List Descriptor) : listOfJson? (listToJson ds) = some ds :=
  itemsOfJson?_listToJsonItems ds

theorem listToJson_inj {ds ds' : List Descriptor} : listToJson ds = listToJson ds' ↔ ds = ds' := by
  refine ⟨fun h => ?_, fun h => by rw [h]⟩
  have hread := congrArg listOfJson? h
  rw [listOfJson?_listToJson, listOfJson?_listToJson] at hread
  exact Option.some.inj hread

/-!
## The JSON shapes of descriptors

A descriptor is read from an object with a path and any further members, or from an array of its three
parts. The selection and the list below may be null, and may be missing: in an object, or at the end of an
array. `Reads` states these shapes apart from the reader, which accepts exactly them (`ofJson?_eq_some_iff`).
What was read is written in one shape only, without anything that is absent, and from there it is read
again (`json_form_read_back`).
-/

/-! ### Shapes -/

/-- The shapes of a text that may be missing. -/
inductive ReadsText : Option Json → Option String → Prop
  | missing : ReadsText none none
  | null : ReadsText (some .null) none
  | text (text : String) : ReadsText (some (.string text)) (some text)

mutual

/-- The shapes of a descriptor. -/
inductive Reads : Json → Descriptor → Prop
  /-- An object, in which members of other names do not count. -/
  | object {members : List (String × Json)} {path : String} {select : Option String}
      {populate : Option (List Descriptor)} : members.lookup "path" = some (.string path) →
      ReadsText (members.lookup "select") select → ReadsBelow (members.lookup "populate") populate →
      Reads (.object members) (.mk path select populate)
  /-- An array of the path and at most two parts behind it. -/
  | array {path : String} {parts : List Json} {select : Option String}
      {populate : Option (List Descriptor)} : parts.length ≤ 2 →
      ReadsText parts[0]? select → ReadsBelow parts[1]? populate →
      Reads (.array (.string path :: parts)) (.mk path select populate)

/-- The shapes of a list of descriptors that may be missing. -/
inductive ReadsBelow : Option Json → Option (List Descriptor) → Prop
  | missing : ReadsBelow none none
  | null : ReadsBelow (some .null) none
  | array {items : List Json} {ds : List Descriptor} : ReadsItems items ds →
      ReadsBelow (some (.array items)) (some ds)

/-- The items of an array, each of which has the shape of a descriptor. -/
inductive ReadsItems : List Json → List Descriptor → Prop
  | nil : ReadsItems [] []
  | cons {item : Json} {items : List Json} {d : Descriptor} {ds : List Descriptor} : Reads item d →
      ReadsItems items ds → ReadsItems (item :: items) (d :: ds)

end

/-! ### The reader, part by part -/

theorem requiredText?_eq_some_iff {part : Option Json} {text : String} :
    requiredText? part = some text ↔ part = some (.string text) := by
  unfold requiredText?
  split <;> simp_all

theorem optionalText?_eq_some_iff {part : Option Json} {text : Option String} :
    optionalText? part = some text ↔ ReadsText part text := by
  constructor
  · intro h
    unfold optionalText? at h
    split at h
    · cases h
      exact .missing
    · cases h
      exact .null
    · cases h
      exact .text _
    · cases h
  · rintro (_ | _ | _) <;> rfl

/-- The list below a descriptor, from a part that may be missing. -/
def below? (part : Option Json) : Option (Option (List Descriptor)) := part.elim (some none) populatePart?

theorem populateMember?_eq (members : List (String × Json)) :
    populateMember? members = below? (members.lookup "populate") := by
  induction members with
  | nil => rfl
  | cons member members ih =>
    obtain ⟨key, value⟩ := member
    by_cases h : key = "populate"
    · simp [populateMember?, below?, h]
    · have hkey : ("populate" == key) = false := beq_eq_false_iff_ne.2 (Ne.symm h)
      rw [populateMember?, if_neg h, ih, List.lookup_cons, hkey]

theorem ofJson?_object_eq_some_iff {members : List (String × Json)} {path : String}
    {select : Option String} {populate : Option (List Descriptor)} :
    ofJson? (.object members) = some (mk path select populate) ↔
      members.lookup "path" = some (.string path) ∧ ReadsText (members.lookup "select") select ∧
        below? (members.lookup "populate") = some populate := by
  rw [← requiredText?_eq_some_iff, ← optionalText?_eq_some_iff, ← populateMember?_eq]
  simp only [ofJson?, Option.bind_eq_bind, Option.bind_eq_some_iff, Option.some.injEq, mk.injEq]
  constructor
  · rintro ⟨_, hpath, _, hselect, _, hbelow, rfl, rfl, rfl⟩
    exact ⟨hpath, hselect, hbelow⟩
  · rintro ⟨hpath, hselect, hbelow⟩
    exact ⟨_, hpath, _, hselect, _, hbelow, rfl, rfl, rfl⟩

/-- The array shapes are one: parts that are missing at the end are absent. -/
theorem ofJson?_array (path : String) : ∀ {parts : List Json}, parts.length ≤ 2 →
    ofJson? (.array (.string path :: parts)) = (optionalText? parts[0]?).bind fun select =>
      (below? parts[1]?).bind fun populate => some (mk path select populate)
  | [], _ => rfl
  | [_], _ => rfl
  | [_, _], _ => rfl

theorem ofJson?_array_of_long (path : String) : ∀ {parts : List Json}, 2 < parts.length →
    ofJson? (.array (.string path :: parts)) = none
  | _ :: _ :: _ :: _, _ => rfl

theorem ofJson?_array_eq_some_iff {path path' : String} {parts : List Json} {select : Option String}
    {populate : Option (List Descriptor)} :
    ofJson? (.array (.string path :: parts)) = some (mk path' select populate) ↔
      path = path' ∧ parts.length ≤ 2 ∧ ReadsText parts[0]? select ∧ below? parts[1]? = some populate := by
  rw [← optionalText?_eq_some_iff]
  by_cases h : parts.length ≤ 2
  · simp only [ofJson?_array path h, Option.bind_eq_some_iff, Option.some.injEq, mk.injEq]
    constructor
    · rintro ⟨_, hselect, _, hbelow, rfl, rfl, rfl⟩
      exact ⟨rfl, h, hselect, hbelow⟩
    · rintro ⟨rfl, -, hselect, hbelow⟩
      exact ⟨_, hselect, _, hbelow, rfl, rfl, rfl⟩
  · rw [ofJson?_array_of_long path (by omega)]
    simp [h]

/-- Besides an object, only an array that begins with a text is read. -/
theorem exists_of_ofJson? {j : Json} {d : Descriptor} (h : ofJson? j = some d) :
    (∃ members, j = .object members) ∨ ∃ path parts, j = .array (.string path :: parts) := by
  unfold ofJson? at h
  split at h
  · exact Or.inl ⟨_, rfl⟩
  · exact Or.inr ⟨_, _, rfl⟩
  · exact Or.inr ⟨_, _, rfl⟩
  · exact Or.inr ⟨_, _, rfl⟩
  · cases h

/-! ### The reader accepts the shapes -/

mutual

theorem ofJson?_eq_some_iff : ∀ (d : Descriptor) (j : Json), ofJson? j = some d ↔ Reads j d
  | mk path select populate, j => by
    constructor
    · intro h
      rcases exists_of_ofJson? h with ⟨members, rfl⟩ | ⟨name, parts, rfl⟩
      · obtain ⟨hpath, hselect, hbelow⟩ := ofJson?_object_eq_some_iff.1 h
        exact .object hpath hselect ((below?_eq_some_iff populate _).1 hbelow)
      · obtain ⟨rfl, hlength, hselect, hbelow⟩ := ofJson?_array_eq_some_iff.1 h
        exact .array hlength hselect ((below?_eq_some_iff populate _).1 hbelow)
    · intro h
      cases h with
      | object hpath hselect hbelow =>
        exact ofJson?_object_eq_some_iff.2 ⟨hpath, hselect, (below?_eq_some_iff populate _).2 hbelow⟩
      | array hlength hselect hbelow =>
        exact ofJson?_array_eq_some_iff.2
          ⟨rfl, hlength, hselect, (below?_eq_some_iff populate _).2 hbelow⟩

theorem below?_eq_some_iff : ∀ (below : Option (List Descriptor)) (part : Option Json),
    below? part = some below ↔ ReadsBelow part below
  | none, part => by
    constructor
    · intro h
      match part, h with
      | none, _ => exact .missing
      | some .null, _ => exact .null
      | some (.array items), h => simp [below?, populatePart?] at h
    · rintro (_ | _) <;> rfl
  | some ds, part => by
    constructor
    · intro h
      match part, h with
      | some (.array items), h =>
        refine .array ((itemsOfJson?_eq_some_iff ds items).1 ?_)
        simpa [below?, populatePart?] using h
    · rintro (_ | _ | hitems)
      simp [below?, populatePart?, (itemsOfJson?_eq_some_iff ds _).2 hitems]

theorem itemsOfJson?_eq_some_iff : ∀ (ds : List Descriptor) (items : List Json),
    itemsOfJson? items = some ds ↔ ReadsItems items ds
  | [], items => by
    constructor
    · intro h
      cases items with
      | nil => exact .nil
      | cons item items => simp [itemsOfJson?, Option.bind_eq_some_iff] at h
    · rintro ⟨⟩
      rfl
  | d :: ds, items => by
    constructor
    · intro h
      cases items with
      | nil => cases h
      | cons item items =>
        simp only [itemsOfJson?, Option.bind_eq_bind, Option.bind_eq_some_iff] at h
        obtain ⟨d', hd, ds', hds, h⟩ := h
        cases h
        exact .cons ((ofJson?_eq_some_iff d item).1 hd) ((itemsOfJson?_eq_some_iff ds items).1 hds)
    · intro h
      cases h with
      | cons hd hds =>
        simp [itemsOfJson?, (ofJson?_eq_some_iff d _).2 hd, (itemsOfJson?_eq_some_iff ds _).2 hds]

end

/-- A list of descriptors is read from an array of their shapes. -/
theorem listOfJson?_eq_some_iff {j : Json} {ds : List Descriptor} :
    listOfJson? j = some ds ↔ ∃ items, j = .array items ∧ ReadsItems items ds := by
  cases j <;> simp [listOfJson?, itemsOfJson?_eq_some_iff]

/-! ### The shape that is written -/

/-- A descriptor is written as an object of the parts that are there. -/
theorem toJson_mk (path : String) (select : Option String) (populate : Option (List Descriptor)) :
    (mk path select populate).toJson = .object (("path", .string path) ::
      ((select.map fun text => ("select", Json.string text)).toList ++
        (populate.map fun ds => ("populate", listToJson ds)).toList)) := by
  cases select <;> cases populate <;> simp [toJson, ownMembers, listToJson]

/-- Reads a list of descriptors and writes what was read. -/
def rewritten? (j : Json) : Option Json := (listOfJson? j).map listToJson

/-- What is written is read as what was read before. -/
theorem listOfJson?_of_rewritten {j j' : Json} (h : rewritten? j = some j') :
    listOfJson? j' = listOfJson? j := by
  obtain ⟨ds, hds, rfl⟩ := Option.map_eq_some_iff.1 h
  rw [listOfJson?_listToJson, hds]

/-- **The JSON form is read back.** Descriptors are read back from their JSON form, whatever is in them. In
that form a selection or a list below stands where there is one, also when it is empty, and nowhere else.
A JSON value is read if and only if it is an array of the shapes of descriptors. What is read from it is
written in a form that is read as the same descriptors, so writing it once more changes nothing. -/
theorem json_form_read_back :
    (∀ ds : List Descriptor, listOfJson? (listToJson ds) = some ds) ∧
    (∀ path select populate, (mk path select populate).toJson = .object (("path", .string path) ::
      ((select.map fun text => ("select", Json.string text)).toList ++
        (populate.map fun ds => ("populate", listToJson ds)).toList))) ∧
    (∀ j ds, listOfJson? j = some ds ↔ ∃ items, j = .array items ∧ ReadsItems items ds) ∧
    ∀ j j', rewritten? j = some j' → listOfJson? j' = listOfJson? j ∧ rewritten? j' = some j' := by
  refine ⟨listOfJson?_listToJson, toJson_mk, fun j ds => listOfJson?_eq_some_iff, fun j j' h => ?_⟩
  have hsame : listOfJson? j' = listOfJson? j := listOfJson?_of_rewritten h
  refine ⟨hsame, ?_⟩
  rw [rewritten?, hsame]
  exact h

/-- An object with a member of another name and a null, above two arrays, one of which ends in an empty
list. -/
def mixedShapes : List Json :=
  [.object [("note", .bool true), ("path", .string "a"), ("select", .null), ("populate",
    .array [.array [.string "b", .string ""], .array [.string "c", .null, .array []]])]]

/-- The form that they are written in, with what is empty and without what is absent. -/
def mixedShapesWritten : Json :=
  .array [.object [("path", .string "a"), ("populate",
    .array [.object [("path", .string "b"), ("select", .string "")],
      .object [("path", .string "c"), ("populate", .array [])]])]]

theorem json_form_read_back_from_mixed_shapes :
    ReadsItems mixedShapes [.mk "a" none (some [.mk "b" (some "") none, .mk "c" none (some [])])] ∧
    rewritten? (.array mixedShapes) = some mixedShapesWritten ∧
    rewritten? mixedShapesWritten = some mixedShapesWritten := by
  have hread : listOfJson? (.array mixedShapes) =
      some [.mk "a" none (some [.mk "b" (some "") none, .mk "c" none (some [])])] := by
    decide +kernel
  have hwritten : rewritten? (.array mixedShapes) = some mixedShapesWritten := by
    rw [rewritten?, hread]
    rfl
  obtain ⟨items, hitems, hreads⟩ := (json_form_read_back.2.2.1 _ _).1 hread
  cases hitems
  exact ⟨hreads, hwritten, (json_form_read_back.2.2.2 _ _ hwritten).2⟩

end Descriptor

end PopulateQuery
