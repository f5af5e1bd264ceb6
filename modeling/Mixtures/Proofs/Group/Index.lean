import Mathlib.Data.List.NodupEquivFin
import Mathlib.Order.Hom.Set
import Mixtures.Group.Index
import Mixtures.Proofs.Group.Sorting

/-!
# Group indices number keys in their order

An index is filled in two passes: keys are put into an increasing table, and then the table is
numbered while its keys are listed. `GroupIndex.Numbered` says what this comes to: the keys
increase, and the table holds each of them with its position. Everything else follows from it, for
keys of any linear order.

* `GroupIndex.numbered_ofKeys`, `GroupIndex.mem_keys_ofKeys`: what both passes establish.
* `GroupIndex.groupOf_eq_some_iff`: group ids and keys correspond to each other.
* `GroupIndex.ofKeys_numbers_keys`: an index is an order isomorphism, it assigns ids to known keys,
  and samples that are assigned, sorted and laid out by it come out grouped by their keys.
-/

namespace Mixtures

variable {κ : Type} [LinearOrder κ] {key k : κ} {table : List (κ × Nat)}

/-! ## The two passes -/

/-- Where neither of two keys is smaller they are the same. -/
private theorem eq_of_not_lt (h₁ : ¬key < k) (h₂ : ¬k < key) : key = k :=
  le_antisymm (not_lt.mp h₂) (not_lt.mp h₁)

theorem mem_insertKey {other : κ} :
    other ∈ (insertKey key table).map (·.1) ↔ other = key ∨ other ∈ table.map (·.1) := by
  induction table with
  | nil => simp [insertKey]
  | cons entry table ih =>
    obtain ⟨k, group⟩ := entry
    rw [insertKey]
    split_ifs with hlt hgt
    · simp
    · simp [ih, or_left_comm]
    · simp [eq_of_not_lt hlt hgt]

/-- Keys are put in their order. -/
theorem pairwise_insertKey (h : (table.map (·.1)).Pairwise (· < ·)) :
    ((insertKey key table).map (·.1)).Pairwise (· < ·) := by
  induction table with
  | nil => simp [insertKey]
  | cons entry table ih =>
    obtain ⟨k, group⟩ := entry
    rw [List.map_cons, List.pairwise_cons] at h
    rw [insertKey]
    split_ifs with hlt hgt
    · rw [List.map_cons, List.map_cons, List.pairwise_cons, List.pairwise_cons]
      refine ⟨?_, h⟩
      rw [List.forall_mem_cons]
      exact ⟨hlt, fun other hother => hlt.trans (h.1 other hother)⟩
    · rw [List.map_cons, List.pairwise_cons]
      refine ⟨?_, ih h.2⟩
      intro other hother
      rcases mem_insertKey.mp hother with rfl | hother
      · exact hgt
      · exact h.1 other hother
    · rw [List.map_cons, List.pairwise_cons]
      exact h

/-- The table of the keys of a list: they increase, and no other keys are in it. -/
theorem foldl_insertKey (keys : List κ) (table : List (κ × Nat))
    (h : (table.map (·.1)).Pairwise (· < ·)) :
    ((keys.foldl (fun table key => insertKey key table) table).map (·.1)).Pairwise (· < ·) ∧
      ∀ k, k ∈ (keys.foldl (fun table key => insertKey key table) table).map (·.1) ↔
        k ∈ keys ∨ k ∈ table.map (·.1) := by
  induction keys generalizing table with
  | nil => exact ⟨h, by simp⟩
  | cons key keys ih =>
    obtain ⟨hpairwise, hmem⟩ := ih (insertKey key table) (pairwise_insertKey h)
    refine ⟨hpairwise, fun k => ?_⟩
    rw [List.foldl_cons, hmem, mem_insertKey, List.mem_cons, or_assoc, or_left_comm]

omit [LinearOrder κ] in
/-- Numbering lists the keys, and puts them into the table with their positions. -/
theorem numberKeys_eq (group : Nat) (table : List (κ × Nat)) :
    numberKeys group table = (table.map (·.1), (table.map (·.1)).zipIdx group) := by
  induction table generalizing group with
  | nil => rfl
  | cons entry table ih => simp [numberKeys, ih]

namespace GroupIndex

/-- The keys of an index increase, and its table holds each of them with its position. -/
structure Numbered (index : GroupIndex κ) : Prop where
  pairwise : index.keys.Pairwise (· < ·)
  table_eq : index.table = index.keys.zipIdx

theorem numbered_ofKeys (keys : List κ) : (ofKeys keys).Numbered := by
  have h := (foldl_insertKey keys [] (by simp)).1
  constructor
  · rw [ofKeys, numberKeys_eq]
    exact h
  · rw [ofKeys, numberKeys_eq]

theorem mem_keys_ofKeys {keys : List κ} : k ∈ (ofKeys keys).keys ↔ k ∈ keys := by
  have h := (foldl_insertKey keys [] (by simp)).2 k
  rw [ofKeys, numberKeys_eq]
  simpa using h

/-! ## Group ids and keys -/

section Numbered

variable {index : GroupIndex κ} (h : index.Numbered)

include h

/-- The search in the table stops at the key that is looked for. -/
private theorem mem_table_of_find? {entry : κ × Nat}
    (hfind : index.table.find? (fun entry => !decide (entry.1 < k) && !decide (k < entry.1)) =
      some entry) : index.key? entry.2 = some k := by
  have hkey : entry.1 = k := by
    have hneither := List.find?_some hfind
    simp only [Bool.and_eq_true, Bool.not_eq_true', decide_eq_false_iff_not] at hneither
    exact eq_of_not_lt hneither.1 hneither.2
  have hmem := List.mem_of_find?_eq_some hfind
  rw [h.table_eq] at hmem
  rw [← hkey, key?]
  exact List.mk_mem_zipIdx_iff_getElem?.mp hmem

/-- **Correspondence**: a key has a group id exactly if the group has that key. -/
theorem groupOf_eq_some_iff {group : Nat} :
    index.groupOf k = some group ↔ index.key? group = some k := by
  rw [groupOf, Option.map_eq_some_iff]
  constructor
  · rintro ⟨entry, hfind, rfl⟩
    exact mem_table_of_find? h hfind
  · intro hgroup
    have hmem : (k, group) ∈ index.table := by
      rw [h.table_eq]
      exact List.mk_mem_zipIdx_iff_getElem?.mpr hgroup
    obtain ⟨entry, hfind⟩ : ∃ entry, index.table.find?
        (fun entry => !decide (entry.1 < k) && !decide (k < entry.1)) = some entry := by
      rw [← Option.isSome_iff_exists, List.find?_isSome]
      exact ⟨_, hmem, by simp⟩
    refine ⟨entry, hfind, ?_⟩
    -- the keys are distinct, so the entry that is found stands where the key stands
    have hentry := mem_table_of_find? h hfind
    have hlt := (List.getElem?_eq_some_iff.mp hentry).1
    exact (List.getElem?_inj hlt h.pairwise.nodup).mp (hentry.trans hgroup.symm)

theorem groupOf_eq_none_iff : index.groupOf k = none ↔ k ∉ index.keys := by
  rw [Option.eq_none_iff_forall_ne_some, List.mem_iff_getElem?, not_exists]
  exact forall_congr' fun group => not_congr (groupOf_eq_some_iff h)

theorem groupOf_lt {group : Nat} (hgroup : index.groupOf k = some group) : group < index.size :=
  (List.getElem?_eq_some_iff.mp ((groupOf_eq_some_iff h).mp hgroup)).1

/-- **Order**: the keys of an index and its group ids are in the same order. -/
theorem exists_orderIso : ∃ iso : {k // k ∈ index.keys} ≃o Fin index.size,
    ∀ k group, iso k = group ↔ index.groupOf k = some group.1 := by
  have hsorted : index.keys.SortedLT := List.sortedLT_iff_pairwise.mpr h.pairwise
  show ∃ iso : {k // k ∈ index.keys} ≃o Fin index.keys.length,
    ∀ k group, iso k = group ↔ index.groupOf k = some group.1
  refine ⟨(hsorted.getIso index.keys).symm, fun k group => ?_⟩
  rw [groupOf_eq_some_iff h, OrderIso.symm_apply_eq, Subtype.ext_iff,
    List.SortedLT.coe_getIso_apply, key?, List.get_eq_getElem, List.getElem?_eq_getElem group.2]
  simp [eq_comm]

/-- Indices with the same keys are the same. -/
theorem Numbered.eq_iff {other : GroupIndex κ} (hother : other.Numbered) :
    other = index ↔ ∀ k, k ∈ other.keys ↔ k ∈ index.keys := by
  constructor
  · rintro rfl k
    rfl
  · intro hmem
    have hkeys : other.keys = index.keys :=
      hother.pairwise.eq_of_mem_iff h.pairwise (fun {k} => hmem k)
    obtain ⟨keys, table⟩ := other
    obtain ⟨keys', table'⟩ := index
    obtain rfl : table = keys.zipIdx := hother.table_eq
    obtain rfl : table' = keys'.zipIdx := h.table_eq
    obtain rfl : keys = keys' := hkeys
    rfl

end Numbered

/-! ## Assigning group ids to keys -/

section Assign

variable {index : GroupIndex κ} {queries : List κ}

theorem assignFrom_cons_of_some {position group : Nat} (hkey : index.groupOf key = some group) :
    index.assignFrom position (key :: queries) =
      (index.assignFrom (position + 1) queries).map (group :: ·) := by
  rw [assignFrom, hkey]
  cases index.assignFrom (position + 1) queries <;> rfl

/-- Assigning ids succeeds exactly if every key has one, and gives them in order. -/
theorem assignFrom_eq_ok_iff {position : Nat} {ids : List Nat} :
    index.assignFrom position queries = .ok ids ↔
      queries.map index.groupOf = ids.map some := by
  induction queries generalizing position ids with
  | nil => cases ids <;> simp [assignFrom]
  | cons key queries ih =>
    cases hkey : index.groupOf key with
    | none => cases ids <;> simp [assignFrom, hkey]
    | some group =>
      have hrest : ∀ rest, index.assignFrom (position + 1) queries = .ok rest ↔
          queries.map index.groupOf = rest.map some := fun _ => ih
      rw [assignFrom_cons_of_some hkey, List.map_cons, hkey]
      cases hassign : index.assignFrom (position + 1) queries with
      | error e =>
        simp only [hassign, reduceCtorEq, false_iff] at hrest
        cases ids <;> simp [Except.map, hrest]
      | ok found =>
        simp only [hassign, Except.ok.injEq] at hrest
        cases ids <;> simp [Except.map, ← hrest]

/-- Assigning ids fails exactly at the first key that has none. -/
theorem assignFrom_eq_error_iff {position : Nat} {e : Error} :
    index.assignFrom position queries = .error e ↔
      ∃ i, queries.findIdx? (fun k => (index.groupOf k).isNone) = some i ∧
        e = .inputContract (position + i) .unknownKey := by
  induction queries generalizing position with
  | nil => simp [assignFrom]
  | cons key queries ih =>
    rw [List.findIdx?_cons]
    cases hkey : index.groupOf key with
    | none => simp [assignFrom, hkey, eq_comm]
    | some group =>
      have hrest : (index.assignFrom (position + 1) queries).map (group :: ·) = .error e ↔
          index.assignFrom (position + 1) queries = .error e := by
        cases index.assignFrom (position + 1) queries <;> simp [Except.map]
      rw [assignFrom_cons_of_some hkey, hrest, ih]
      simp [Nat.add_assoc, Nat.add_comm 1]

theorem assign_eq_error_iff {e : Error} :
    index.assign queries = .error e ↔
      ∃ i, (∃ h : i < queries.length, index.groupOf queries[i] = none ∧
        ∀ j, ∀ hj : j < i, index.groupOf queries[j] ≠ none) ∧
        e = .inputContract i .unknownKey := by
  rw [assign, assignFrom_eq_error_iff]
  simp only [List.findIdx?_eq_some_iff_getElem, Option.isNone_iff_eq_none, Nat.zero_add, ne_eq]

theorem exists_assign_iff :
    (∃ ids, index.assign queries = .ok ids) ↔ ∀ k ∈ queries, index.groupOf k ≠ none := by
  constructor
  · rintro ⟨ids, hids⟩ k hk hnone
    have hmem : none ∈ ids.map some := by
      rw [← assignFrom_eq_ok_iff.mp hids, ← hnone]
      exact List.mem_map_of_mem hk
    simp at hmem
  · intro hknown
    cases hassign : index.assign queries with
    | ok ids => exact ⟨ids, rfl⟩
    | error e =>
      obtain ⟨i, ⟨hi, hnone, -⟩, -⟩ := assign_eq_error_iff.mp hassign
      exact absurd hnone (hknown _ (List.getElem_mem hi))

end Assign

/-! ## Grouping samples by their keys -/

section Samples

variable {β : Type} {index : GroupIndex κ} {keys : List κ} {ids : List Nat}

/-- The samples with a key in a list aligned with keys, in order. -/
def samplesOf (key : κ) (keys : List κ) (samples : List β) : List β :=
  ((keys.zip samples).filter fun entry => entry.1 = key).map (·.2)

/-- What belongs to a group are the samples with its key. -/
theorem owned_of_assign (h : index.Numbered) {group : Nat} (hgroup : index.key? group = some k)
    (hids : keys.map index.groupOf = ids.map some) (samples : List β) :
    Layout.owned group ids samples = samplesOf k keys samples := by
  induction keys generalizing ids samples with
  | nil =>
    obtain rfl : ids = [] := by simpa using hids.symm
    rfl
  | cons key keys ih =>
    cases ids with
    | nil => simp at hids
    | cons id ids =>
      cases samples with
      | nil => simp [Layout.owned, samplesOf]
      | cons x samples =>
        obtain ⟨hid, hrest⟩ := List.cons.inj hids
        have hiff : id = group ↔ key = k := by
          rw [← groupOf_eq_some_iff h] at hgroup
          constructor
          · rintro rfl
            rw [groupOf_eq_some_iff h] at hid hgroup
            exact Option.some.inj (hid.symm.trans hgroup)
          · rintro rfl
            exact Option.some.inj (hid.symm.trans hgroup)
        by_cases hkey : key = k
        · rw [hiff.mpr hkey, Layout.owned_cons_self, ih hrest]
          simp [samplesOf, hkey]
        · rw [Layout.owned_cons_of_ne (mt hiff.mp hkey), ih hrest]
          simp [samplesOf, hkey]

/-- Samples that are assigned to the groups of their keys and sorted by group have a layout, in
which every group holds the samples with its key. -/
theorem exists_layout_of_assign (h : index.Numbered) (hmem : ∀ k, k ∈ index.keys ↔ k ∈ keys)
    (hids : keys.map index.groupOf = ids.map some) {samples : List β}
    (haligned : samples.length = keys.length) :
    ∃ sorted sortedIds layout, sortByGroup samples ids = .ok (sorted, sortedIds) ∧
      Layout.ofIds sortedIds index.size = .ok layout ∧ layout.groupCount = index.size ∧
      ∀ group k, index.key? group = some k →
        0 < (layout.span group).length ∧ layout.slice group sorted = samplesOf k keys samples := by
  have hlength : samples.length = ids.length := by
    rw [haligned]
    simpa using congrArg List.length hids
  have hlt : ∀ id ∈ ids, id < index.size := by
    intro id hid
    have hsome : some id ∈ keys.map index.groupOf := by
      rw [hids]
      exact List.mem_map_of_mem hid
    obtain ⟨k, -, hk⟩ := List.mem_map.mp hsome
    exact groupOf_lt h hk
  obtain ⟨layout, hlayout⟩ := (exists_layout_iff hlength index.size).mpr hlt
  refine ⟨_, _, layout, sortByGroup_eq_sortedPairs hlength, hlayout, ?_, ?_⟩
  · rw [(Layout.ofIds_eq_ok_iff.mp hlayout).2, Layout.groupCount_ofSorted]
  · intro group k hgroup
    have hslice := slice_sortedPairs hlayout group
    refine ⟨?_, hslice.trans (owned_of_assign h hgroup hids samples)⟩
    -- the key of the group is one of the keys that were assigned
    have hkey : k ∈ keys := (hmem k).mp (List.mem_of_getElem? hgroup)
    have hid : some group ∈ ids.map some := by
      rw [← hids, ← (groupOf_eq_some_iff h).mpr hgroup]
      exact List.mem_map_of_mem hkey
    have hcount : 0 < ids.count group := List.count_pos_iff.mpr (by simpa using hid)
    rw [← Layout.length_owned hlength, ← hslice, Layout.slice, Span.slice,
      List.length_take] at hcount
    omega

end Samples

/-- **An index numbers keys in their order.** The distinct keys of a list and the group ids of its
index are isomorphic as orders: the table leads from keys to ids and the list of keys leads back.
Keys that are not in the list have no id. Lists of the same keys have the same index, in whatever
order and however often the keys occur. Assigning ids to keys succeeds exactly if all of them are
known, position by position, and otherwise reports the first unknown one. So the keys of samples can
be assigned through their own index, and the samples sorted and laid out by group: no group is
empty, and the span of each group holds exactly the samples with its key, in the order in which they
were given. -/
theorem ofKeys_numbers_keys (keys : List κ) :
    (∃ iso : {k // k ∈ keys} ≃o Fin (ofKeys keys).size,
      (∀ k, (ofKeys keys).groupOf k.1 = some (iso k).1) ∧
        ∀ group, (ofKeys keys).key? group.1 = some (iso.symm group).1) ∧
    (∀ k group, (ofKeys keys).groupOf k = some group ↔ (ofKeys keys).key? group = some k) ∧
    (∀ k, (ofKeys keys).groupOf k = none ↔ k ∉ keys) ∧
    (∀ others, ofKeys others = ofKeys keys ↔ ∀ k, k ∈ others ↔ k ∈ keys) ∧
    (∀ queries, (∃ ids, (ofKeys keys).assign queries = .ok ids) ↔ ∀ k ∈ queries, k ∈ keys) ∧
    (∀ queries ids, (ofKeys keys).assign queries = .ok ids ↔
      queries.map (ofKeys keys).groupOf = ids.map some) ∧
    (∀ queries e, (ofKeys keys).assign queries = .error e ↔
      ∃ i, (∃ h : i < queries.length, queries[i] ∉ keys ∧ ∀ j, ∀ hj : j < i, queries[j] ∈ keys) ∧
        e = .inputContract i .unknownKey) ∧
    ∀ (β : Type) (samples : List β), samples.length = keys.length →
      ∃ ids sorted sortedIds layout, (ofKeys keys).assign keys = .ok ids ∧
        sortByGroup samples ids = .ok (sorted, sortedIds) ∧
        Layout.ofIds sortedIds (ofKeys keys).size = .ok layout ∧
        layout.groupCount = (ofKeys keys).size ∧
        ∀ group k, (ofKeys keys).key? group = some k →
          0 < (layout.span group).length ∧
            layout.slice group sorted = samplesOf k keys samples := by
  have h := numbered_ofKeys keys
  have hmem : ∀ k, k ∈ (ofKeys keys).keys ↔ k ∈ keys := fun _ => mem_keys_ofKeys
  have hnone : ∀ k, (ofKeys keys).groupOf k = none ↔ k ∉ keys := by
    intro k
    rw [groupOf_eq_none_iff h, hmem]
  have hassign : ∀ queries, (∃ ids, (ofKeys keys).assign queries = .ok ids) ↔
      ∀ k ∈ queries, k ∈ keys := by
    intro queries
    rw [exists_assign_iff]
    simp only [ne_eq, hnone, not_not]
  refine ⟨?iso, fun _ _ => groupOf_eq_some_iff h, hnone, ?same, hassign,
    fun _ _ => assignFrom_eq_ok_iff, ?error, ?samples⟩
  case iso =>
    obtain ⟨iso, hiso⟩ := exists_orderIso h
    have hset : {k | k ∈ keys} = {k | k ∈ (ofKeys keys).keys} := Set.ext fun k => (hmem k).symm
    refine ⟨(OrderIso.setCongr _ _ hset).trans iso, ?_, ?_⟩
    · intro k
      exact (hiso ⟨k.1, (hmem k.1).mpr k.2⟩ _).mp rfl
    · intro group
      rw [← groupOf_eq_some_iff h]
      exact (hiso _ _).mp (iso.apply_symm_apply group)
  case same =>
    intro others
    rw [h.eq_iff (numbered_ofKeys others)]
    simp only [mem_keys_ofKeys]
  case error =>
    intro queries e
    rw [assign_eq_error_iff]
    simp only [ne_eq, hnone, not_not]
  case samples =>
    intro β samples haligned
    obtain ⟨ids, hids⟩ := (hassign keys).mpr fun _ hk => hk
    obtain ⟨sorted, sortedIds, layout, hlayout⟩ :=
      exists_layout_of_assign h hmem (assignFrom_eq_ok_iff.mp hids) haligned
    exact ⟨ids, sorted, sortedIds, layout, hids, hlayout⟩

/-- Four samples with three distinct keys, in two orders of the keys; the keys `7` and `9` are not
known. -/
theorem ofKeys_numbers_keys_cells :
    ["a", "b", "c", "d"].length = ([5, -3, 5, 0] : List Int).length ∧
      (ofKeys [5, -3, 5, 0]).groupOf (5 : Int) = some 2 ∧
      ofKeys [0, 5, -3, 0, -3] = ofKeys ([5, -3, 5, 0] : List Int) ∧
      (ofKeys [5, -3, 5, 0]).assign [0, 7, (-3 : Int), 9] =
        .error (.inputContract 1 .unknownKey) ∧
      ∃ ids sorted sortedIds layout, (ofKeys [5, -3, 5, 0]).assign [5, -3, 5, (0 : Int)] = .ok ids ∧
        sortByGroup ["a", "b", "c", "d"] ids = .ok (sorted, sortedIds) ∧
        Layout.ofIds sortedIds 3 = .ok layout ∧ 0 < (layout.span 2).length ∧
        layout.slice 0 sorted = ["b"] ∧ layout.slice 2 sorted = ["a", "c"] := by
  obtain ⟨-, hgroupOf, -, hsame, -, -, herror, hsamples⟩ :=
    ofKeys_numbers_keys ([5, -3, 5, 0] : List Int)
  obtain ⟨ids, sorted, sortedIds, layout, hids, hsort, hlayout, -, hgroups⟩ :=
    hsamples String ["a", "b", "c", "d"] rfl
  have hfirst : (ofKeys ([5, -3, 5, 0] : List Int)).key? 0 = some (-3) := by decide
  have hlast : (ofKeys ([5, -3, 5, 0] : List Int)).key? 2 = some 5 := by decide
  refine ⟨rfl, (hgroupOf 5 2).mpr hlast, (hsame [0, 5, -3, 0, -3]).mpr ?_,
    (herror [0, 7, -3, 9] _).mpr ⟨1, by decide, rfl⟩, ids, sorted, sortedIds, layout, hids, hsort,
    hlayout, (hgroups 2 5 hlast).1, (hgroups 0 (-3) hfirst).2, (hgroups 2 5 hlast).2⟩
  intro k
  simp only [List.mem_cons, List.not_mem_nil, or_false]
  omega

end GroupIndex

end Mixtures
