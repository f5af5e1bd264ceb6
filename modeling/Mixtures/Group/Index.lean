import Mixtures.Error

/-!
# Group indices

Groups may be known by keys of the caller, such as cells of a grid or names. An index lists the
distinct keys in increasing order, by group id, and holds a table that leads from keys back to
group ids. So sorting samples by key and sorting them by group id agree.

The table comes first: every key is put at its place in it, before any id is known. Then its
entries are numbered from the front, and the keys are listed on the way.
-/

namespace Mixtures

variable {κ : Type} [LT κ] [DecidableLT κ]

/-- Puts a key at its place in an increasing table, unless it is there already. Zero stands in
for its group id. -/
def insertKey (key : κ) : List (κ × Nat) → List (κ × Nat)
  | [] => [(key, 0)]
  | (k, group) :: table =>
    if key < k then (key, 0) :: (k, group) :: table
    else if k < key then (k, group) :: insertKey key table
    else (k, 0) :: table

/-- Numbers the entries of a table from a group id on. Gives the keys and the numbered table. -/
def numberKeys : Nat → List (κ × Nat) → List κ × List (κ × Nat)
  | _, [] => ([], [])
  | group, (key, _) :: table =>
    let (keys, numbered) := numberKeys (group + 1) table
    (key :: keys, (key, group) :: numbered)

/-- The distinct keys of the groups, in increasing order, and their group ids. -/
structure GroupIndex (κ : Type) where
  /-- The key of every group, by group id. -/
  keys : List κ
  /-- The group id of every key, in increasing order of the keys. -/
  table : List (κ × Nat)
deriving DecidableEq, Repr

namespace GroupIndex

/-- The index of the distinct keys in a list. -/
def ofKeys (keys : List κ) : GroupIndex κ :=
  let (keys, table) := numberKeys 0 (keys.foldl (fun table key => insertKey key table) [])
  { keys, table }

/-- The number of groups. -/
def size (index : GroupIndex κ) : Nat := index.keys.length

/-- There are no groups. -/
def isEmpty (index : GroupIndex κ) : Bool := index.keys.isEmpty

/-- The group id of a key. -/
def groupOf (index : GroupIndex κ) (key : κ) : Option Nat :=
  (index.table.find? fun entry => !decide (entry.1 < key) && !decide (key < entry.1)).map (·.2)

/-- The key of a group. -/
def key? (index : GroupIndex κ) (group : Nat) : Option κ := index.keys[group]?

/-- The group ids of keys from a position on; fails at the first unknown key. -/
def assignFrom (index : GroupIndex κ) : Nat → List κ → Except Error (List Nat)
  | _, [] => .ok []
  | position, key :: keys =>
    match index.groupOf key with
    | none => .error (.inputContract position .unknownKey)
    | some group => do return group :: (← index.assignFrom (position + 1) keys)

/-- The group ids of a list of keys; fails at the first unknown key. -/
def assign (index : GroupIndex κ) (keys : List κ) : Except Error (List Nat) :=
  index.assignFrom 0 keys

end GroupIndex

end Mixtures
