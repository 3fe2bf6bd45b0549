/-!
# Vocabulary entries

A vocabulary is a table of entries. An entry has one canonical spelling and any number of other
spellings; a canonical spelling always wins over another entry's alias.

## Main definitions

* `Vocabulary.Entry`: one item with its spellings.
* `Vocabulary.lookup`: the item that a spelling stands for.
* `Vocabulary.canonical`: the canonical spelling of an item.
-/

namespace SourceGen

namespace Vocabulary

/-- One item of a vocabulary. -/
structure Entry (α : Type) where
  item : α
  canonical : String
  aliases : List String
  description : String

variable {α : Type}

/-- The spelling belongs to the entry. -/
def Entry.accepts (entry : Entry α) (name : String) : Bool :=
  entry.canonical == name || entry.aliases.contains name

/-- The item with this canonical spelling, else the first with this alias. -/
def lookup (table : List (Entry α)) (name : String) : Option α :=
  match table.find? (·.canonical == name) with
  | some entry => some entry.item
  | none => (table.find? (·.aliases.contains name)).map Entry.item

/-- The canonical spelling of an item. -/
def canonical [DecidableEq α] (table : List (Entry α)) (item : α) : String :=
  match table.find? (·.item = item) with
  | some entry => entry.canonical
  | none => "<unknown>"

end Vocabulary

end SourceGen
