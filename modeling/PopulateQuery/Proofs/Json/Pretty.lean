import Mathlib.Tactic.IntervalCases
import PopulateQuery.Json
import PopulateQuery.Proofs.Text

/-!
# Indented JSON texts are read in one way

A quoted text ends at the first quote that is not escaped, and each character in it stands for itself or
for the one that is escaped there (`unescape?_escape`). So the indented text of a value that is made of
texts, arrays and objects tells where it ends, whatever comes behind it (`Textual.delimits`), and two such
values with the same text are equal (`pretty_inj`).
-/

namespace PopulateQuery.Json

/-! ## Quoted texts -/

/-- Reads one character of a quoted text, which may be escaped; a quote ends the text. -/
def unescape? : List Char → Option (Char × List Char)
  | '\\' :: 'b' :: rest => some ('\x08', rest)
  | '\\' :: 't' :: rest => some ('\t', rest)
  | '\\' :: 'n' :: rest => some ('\n', rest)
  | '\\' :: 'f' :: rest => some ('\x0c', rest)
  | '\\' :: 'r' :: rest => some ('\r', rest)
  | '\\' :: 'u' :: _ :: _ :: high :: low :: rest =>
    let digits := "0123456789abcdef".toList
    some (Char.ofNat (16 * digits.idxOf high + digits.idxOf low), rest)
  | '\\' :: c :: rest => some (c, rest)
  | '"' :: _ => none
  | c :: rest => some (c, rest)
  | [] => none

theorem unescape?_of_plain {c : Char} (hquote : c ≠ '"') (hbackslash : c ≠ '\\') (rest : List Char) :
    unescape? (c :: rest) = some (c, rest) := by
  unfold unescape?
  split <;> simp_all

/-- A character below U+0020 is escaped by a letter of its own, or by its code point. -/
theorem unescape?_escape_of_lt {c : Char} (h : c.toNat < 0x20) (rest : List Char) :
    unescape? (escape c ++ rest) = some (c, rest) := by
  obtain ⟨n, hn, rfl⟩ : ∃ n < 0x20, c = Char.ofNat n := ⟨c.toNat, h, (Char.ofNat_toNat c).symm⟩
  interval_cases n <;> rfl

/-- **An escaped character is read back.** -/
theorem unescape?_escape (c : Char) (rest : List Char) : unescape? (escape c ++ rest) = some (c, rest) := by
  by_cases h : c.toNat < 0x20
  · exact unescape?_escape_of_lt h rest
  · unfold escape
    split
    case h_8 hquote hbackslash _ _ _ _ _ =>
      rw [if_neg h]
      exact unescape?_of_plain hquote hbackslash rest
    all_goals rfl

theorem escaped_append_inj : ∀ {cs ds rest rest' : List Char},
    cs.flatMap escape ++ '"' :: rest = ds.flatMap escape ++ '"' :: rest' → cs = ds ∧ rest = rest'
  | [], [], rest, rest', h => ⟨rfl, List.tail_eq_of_cons_eq h⟩
  | [], d :: ds, rest, rest', h => by
    have hread := congrArg unescape? h
    rw [List.flatMap_cons, List.append_assoc, unescape?_escape] at hread
    cases hread
  | c :: cs, [], rest, rest', h => by
    have hread := congrArg unescape? h
    rw [List.flatMap_cons, List.append_assoc, unescape?_escape] at hread
    cases hread
  | c :: cs, d :: ds, rest, rest', h => by
    have hread := congrArg unescape? h
    rw [List.flatMap_cons, List.flatMap_cons, List.append_assoc, List.append_assoc, unescape?_escape,
      unescape?_escape, Option.some.injEq, Prod.mk.injEq] at hread
    obtain ⟨rfl, hrest⟩ := hread
    obtain ⟨rfl, rfl⟩ := escaped_append_inj hrest
    exact ⟨rfl, rfl⟩

/-- A quoted text tells where it ends. -/
theorem quote_append_inj {s t : String} {rest rest' : List Char}
    (h : (quote s).toList ++ rest = (quote t).toList ++ rest') : s = t ∧ rest = rest' := by
  simp only [quote, String.toList_append, String.toList_ofList, List.append_assoc] at h
  obtain ⟨hchars, rfl⟩ := escaped_append_inj (List.tail_eq_of_cons_eq h)
  exact ⟨String.toList_injective hchars, rfl⟩

/-! ## The text of a value at a level -/

def prettyAt (level : Nat) (value : Json) : String := appendPretty level "" value

def itemText (level : Nat) (item : Json) : String := newLine level ++ prettyAt level item

def memberText (level : Nat) (member : String × Json) : String :=
  newLine level ++ quote member.1 ++ ": " ++ prettyAt level member.2

mutual

/-- The text of a value is put behind the text that is there. -/
theorem appendPretty_eq (level : Nat) (out : String) :
    (value : Json) → appendPretty level out value = out ++ prettyAt level value
  | array (item :: rest) => by
    simp only [prettyAt, appendPretty, appendPrettyItems_eq, String.append_assoc, String.empty_append]
  | object (member :: rest) => by
    simp only [prettyAt, appendPretty, appendPrettyMembers_eq, String.append_assoc, String.empty_append]
  | array [] | object [] | null | bool _ | number _ _ | string _ => by
    simp only [prettyAt, appendPretty, String.empty_append]

theorem appendPrettyItems_eq (level : Nat) (out : String) : (items : List Json) →
    appendPrettyItems level out items = out ++ ",".intercalate (items.map (itemText level))
  | [] => by simp [appendPrettyItems]
  | [item] => by
    rw [appendPrettyItems, appendPretty_eq, List.map_singleton, String.intercalate_singleton, itemText,
      String.append_assoc]
  | item :: next :: rest => by
    rw [appendPrettyItems, appendPrettyItems_eq, appendPretty_eq]
    · simp only [List.map_cons, String.intercalate_cons_cons, itemText, String.append_assoc]
    · exact List.cons_ne_nil next rest

theorem appendPrettyMembers_eq (level : Nat) (out : String) : (members : List (String × Json)) →
    appendPrettyMembers level out members = out ++ ",".intercalate (members.map (memberText level))
  | [] => by simp [appendPrettyMembers]
  | [(key, value)] => by
    rw [appendPrettyMembers, appendPretty_eq, List.map_singleton, String.intercalate_singleton, memberText]
    simp only [String.append_assoc]
  | (key, value) :: next :: rest => by
    rw [appendPrettyMembers, appendPrettyMembers_eq, appendPretty_eq]
    · simp only [List.map_cons, String.intercalate_cons_cons, memberText, String.append_assoc]
    · exact List.cons_ne_nil next rest

end

/-- What stands inside the brackets around some entries: nothing, or all of their lines and the start of
the line that the closing bracket is on. -/
def between (level : Nat) (entries : List String) : List Char :=
  if entries.isEmpty then [] else (",".intercalate entries ++ newLine level).toList

theorem toList_prettyAt_string (level : Nat) (text : String) :
    (prettyAt level (string text)).toList = (quote text).toList := by
  rw [prettyAt, appendPretty, String.empty_append]

theorem toList_prettyAt_array (level : Nat) (items : List Json) :
    (prettyAt level (array items)).toList =
      '[' :: (between level (items.map (itemText (level + 1))) ++ [']']) := by
  cases items with
  | nil => simp [prettyAt, appendPretty, between]
  | cons item items =>
    rw [prettyAt, appendPretty, appendPrettyItems_eq, String.empty_append, String.toList_append,
      String.append_assoc, String.toList_append]
    rfl

theorem toList_prettyAt_object (level : Nat) (members : List (String × Json)) :
    (prettyAt level (object members)).toList =
      '\x7b' :: (between level (members.map (memberText (level + 1))) ++ ['\x7d']) := by
  cases members with
  | nil => simp [prettyAt, appendPretty, between]
  | cons member members =>
    rw [prettyAt, appendPretty, appendPrettyMembers_eq, String.empty_append, String.toList_append,
      String.append_assoc, String.toList_append]
    rfl

/-! ## Entries in brackets -/

theorem toList_newLine (level : Nat) : (newLine level).toList = '\n' :: List.replicate (2 * level) ' ' :=
  Text.toList_pushn "\n" ' ' (2 * level)

theorem toList_intercalate_cons (entry : String) (entries : List String) :
    (",".intercalate (entry :: entries)).toList =
      entry.toList ++ entries.flatMap fun next => ',' :: next.toList := by
  induction entries generalizing entry with
  | nil => simp
  | cons next entries ih =>
    rw [String.intercalate_cons_cons, String.toList_append, String.toList_append, ih, List.flatMap_cons,
      List.append_assoc]
    rfl

section Entries
variable {α : Type} {code : α → String}

/-- Whatever comes behind the texts of two entries, they are told apart, or else end at the same place. -/
def Delimits (code : α → String) (a b : α) : Prop :=
  ∀ rest rest', (code a).toList ++ rest = (code b).toList ++ rest' → a = b ∧ rest = rest'

/-- Further entries, each behind a comma, are read in one way up to where another character follows. -/
theorem further_append_inj : ∀ {as bs : List α} {rest rest' : List Char},
    (∀ a ∈ as, ∀ b ∈ bs, Delimits code a b) → rest.head? ≠ some ',' → rest'.head? ≠ some ',' →
    (as.map code).flatMap (fun next => ',' :: next.toList) ++ rest =
      (bs.map code).flatMap (fun next => ',' :: next.toList) ++ rest' → as = bs ∧ rest = rest'
  | [], [], _, _, _, _, _, h => ⟨rfl, h⟩
  | [], b :: bs, _, _, _, hrest, _, h => absurd (congrArg List.head? h) hrest
  | a :: as, [], _, _, _, _, hrest', h => absurd (congrArg List.head? h).symm hrest'
  | a :: as, b :: bs, rest, rest', hcode, hrest, hrest', h => by
    simp only [List.map_cons, List.flatMap_cons, List.cons_append, List.append_assoc] at h
    obtain ⟨rfl, hnext⟩ := hcode a (by simp) b (by simp) _ _ (List.tail_eq_of_cons_eq h)
    have hfurther : ∀ a' ∈ as, ∀ b' ∈ bs, Delimits code a' b' := fun a' ha' b' hb' =>
      hcode a' (List.mem_cons_of_mem _ ha') b' (List.mem_cons_of_mem _ hb')
    obtain ⟨rfl, rfl⟩ := further_append_inj hfurther hrest hrest' hnext
    exact ⟨rfl, rfl⟩

variable {level : Nat} {closing : Char}

theorem between_cons_append (a : α) (as : List α) (rest : List Char) :
    between level ((a :: as).map code) ++ rest = (code a).toList ++
      ((as.map code).flatMap (fun next => ',' :: next.toList) ++ ((newLine level).toList ++ rest)) := by
  rw [between, List.map_cons, List.isEmpty_cons, if_neg Bool.false_ne_true, String.toList_append,
    toList_intercalate_cons, List.append_assoc, List.append_assoc]

/-- Entries that start with a line end are read in one way up to the closing bracket. -/
theorem between_append_inj (hclosing : closing ≠ '\n') (hstart : ∀ a, (code a).toList.head? = some '\n')
    {as bs : List α} (hcode : ∀ a ∈ as, ∀ b ∈ bs, Delimits code a b) {rest rest' : List Char}
    (h : between level (as.map code) ++ closing :: rest = between level (bs.map code) ++ closing :: rest') :
    as = bs ∧ rest = rest' := by
  -- a line end after the opening bracket tells that there is an entry
  have hne : ∀ (a : α) (as : List α) (rest rest' : List Char),
      between level ((a :: as).map code) ++ rest ≠ closing :: rest' := by
    intro a as rest rest' hsame
    have hhead := congrArg List.head? hsame
    rw [between_cons_append, List.head?_append, hstart a] at hhead
    exact hclosing (Option.some.inj hhead).symm
  cases as with
  | nil =>
    cases bs with
    | nil => exact ⟨rfl, List.tail_eq_of_cons_eq h⟩
    | cons b bs => exact absurd h.symm (hne b bs _ _)
  | cons a as =>
    cases bs with
    | nil => exact absurd h (hne a as _ _)
    | cons b bs =>
      rw [between_cons_append, between_cons_append] at h
      obtain ⟨rfl, hnext⟩ := hcode a (by simp) b (by simp) _ _ h
      have hfurther : ∀ a' ∈ as, ∀ b' ∈ bs, Delimits code a' b' := fun a' ha' b' hb' =>
        hcode a' (List.mem_cons_of_mem _ ha') b' (List.mem_cons_of_mem _ hb')
      have hend : ∀ rest : List Char, ((newLine level).toList ++ rest).head? ≠ some ',' := by
        simp [toList_newLine]
      obtain ⟨rfl, hrest⟩ := further_append_inj hfurther (hend _) (hend _) hnext
      exact ⟨rfl, List.tail_eq_of_cons_eq (List.append_cancel_left hrest)⟩

end Entries

/-! ## Values made of texts -/

/-- A value that is made of texts, arrays and objects only. -/
inductive Textual : Json → Prop where
  | string (text : String) : Textual (.string text)
  | array {items : List Json} : (∀ item ∈ items, Textual item) → Textual (.array items)
  | object {members : List (String × Json)} : (∀ member ∈ members, Textual member.2) →
    Textual (.object members)

theorem head?_itemText (level : Nat) (item : Json) : (itemText level item).toList.head? = some '\n' := by
  simp [itemText, toList_newLine]

theorem head?_memberText (level : Nat) (member : String × Json) :
    (memberText level member).toList.head? = some '\n' := by
  simp [memberText, toList_newLine]

theorem delimits_itemText {level : Nat} {item item' : Json} (h : Delimits (prettyAt level) item item') :
    Delimits (itemText level) item item' := by
  intro rest rest' hsame
  simp only [itemText, String.toList_append, List.append_assoc] at hsame
  exact h rest rest' (List.append_cancel_left hsame)

theorem delimits_memberText {level : Nat} {member member' : String × Json}
    (h : Delimits (prettyAt level) member.2 member'.2) : Delimits (memberText level) member member' := by
  intro rest rest' hsame
  simp only [memberText, String.toList_append, List.append_assoc] at hsame
  obtain ⟨hkey, hafter⟩ := quote_append_inj (List.append_cancel_left hsame)
  obtain ⟨hvalue, hrest⟩ := h rest rest' (List.append_cancel_left hafter)
  exact ⟨Prod.ext hkey hvalue, hrest⟩

/-- **The indented text of a value that is made of texts tells where it ends.** The first character tells the
kind of the value, and then a quote, or a bracket that no line end or comma leads to, ends it. -/
theorem Textual.delimits {value value' : Json} (h : value.Textual) (h' : value'.Textual) (level : Nat) :
    Delimits (prettyAt level) value value' := by
  induction h generalizing value' level with
  | string text =>
    intro rest rest' hsame
    cases h' with
    | string text' =>
      rw [toList_prettyAt_string, toList_prettyAt_string] at hsame
      obtain ⟨rfl, hrest⟩ := quote_append_inj hsame
      exact ⟨rfl, hrest⟩
    | array _ => simp [toList_prettyAt_string, toList_prettyAt_array, quote] at hsame
    | object _ => simp [toList_prettyAt_string, toList_prettyAt_object, quote] at hsame
  | array hitems ih =>
    intro rest rest' hsame
    cases h' with
    | string _ => simp [toList_prettyAt_string, toList_prettyAt_array, quote] at hsame
    | array hitems' =>
      rw [toList_prettyAt_array, toList_prettyAt_array, List.cons_append, List.cons_append, List.append_assoc,
        List.append_assoc] at hsame
      obtain ⟨rfl, hrest⟩ := between_append_inj (by decide) (head?_itemText _)
        (fun item hitem item' hitem' => delimits_itemText (ih item hitem (hitems' item' hitem') (level + 1)))
        (List.tail_eq_of_cons_eq hsame)
      exact ⟨rfl, hrest⟩
    | object _ => simp [toList_prettyAt_array, toList_prettyAt_object] at hsame
  | object hmembers ih =>
    intro rest rest' hsame
    cases h' with
    | string _ => simp [toList_prettyAt_string, toList_prettyAt_object, quote] at hsame
    | array _ => simp [toList_prettyAt_array, toList_prettyAt_object] at hsame
    | object hmembers' =>
      rw [toList_prettyAt_object, toList_prettyAt_object, List.cons_append, List.cons_append,
        List.append_assoc, List.append_assoc] at hsame
      obtain ⟨rfl, hrest⟩ := between_append_inj (by decide) (head?_memberText _)
        (fun member hmember member' hmember' =>
          delimits_memberText (ih member hmember (hmembers' member' hmember') (level + 1)))
        (List.tail_eq_of_cons_eq hsame)
      exact ⟨rfl, hrest⟩

/-- **Values made of texts are equal where their indented texts are.** -/
theorem pretty_inj {value value' : Json} (h : value.Textual) (h' : value'.Textual) :
    value.pretty = value'.pretty ↔ value = value' := by
  refine ⟨fun hsame => ?_, fun hsame => by rw [hsame]⟩
  exact (h.delimits h' 0 [] [] (congrArg (String.toList · ++ []) hsame)).1

end PopulateQuery.Json
