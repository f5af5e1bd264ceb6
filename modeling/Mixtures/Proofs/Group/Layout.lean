import Mathlib.Tactic.SplitIfs
import Mixtures.Group.Layout

/-!
# Layouts of sorted ids

A layout is read off its ids in one pass. Here is what that pass comes to, without a pass:

* `ofIds_eq`: the outcome is the error of the first id that is too large or decreases, and
  otherwise the layout in which a group begins after all smaller ids.
* `slice_ofSorted`: the span of a group cuts out of an aligned list exactly what belongs to the
  group, in order.
* `owned_flatten`: what belongs to a group in a list that was put together from parts, one for
  each group, is the part of that group.
-/

namespace Mixtures.Layout

/-! ## The first bad id -/

/-- What is wrong with an id that stands after the id `before`, if anything. -/
def idFault (groupCount : Nat) (before : Option Nat) (id : Nat) : Option Violation :=
  if groupCount ≤ id then some (.idTooLarge id groupCount)
  else before.bind fun earlier => if id < earlier then some (.idDecreases id earlier) else none

/-- The error of the first bad id in a list that stands at position `index` after the id
`before`. -/
def rejectionFrom (groupCount index : Nat) (before : Option Nat) (ids : List Nat) : Option Error :=
  ((ids.zip (before :: ids.map some)).zipIdx index).findSome? fun ((id, before), i) =>
    (idFault groupCount before id).map (.inputContract i)

/-- The error of the first bad id. -/
def rejection (groupCount : Nat) (ids : List Nat) : Option Error :=
  rejectionFrom groupCount 0 none ids

theorem rejectionFrom_cons (groupCount index : Nat) (before : Option Nat) (id : Nat)
    (ids : List Nat) :
    rejectionFrom groupCount index before (id :: ids) =
      match idFault groupCount before id with
      | some fault => some (.inputContract index fault)
      | none => rejectionFrom groupCount (index + 1) (some id) ids := by
  rw [rejectionFrom, List.map_cons, List.zip_cons_cons, List.zipIdx_cons, List.findSome?_cons]
  cases h : idFault groupCount before id with
  | none =>
    simp only [h, Option.map_none]
    rfl
  | some fault => simp only [h, Option.map_some]

theorem idFault_eq_none_iff {groupCount id : Nat} {before : Option Nat} :
    idFault groupCount before id = none ↔ id < groupCount ∧ ∀ earlier ∈ before, earlier ≤ id := by
  rw [idFault]
  cases before with
  | none => simp
  | some earlier => split_ifs <;> simp <;> omega

theorem rejectionFrom_eq_none_iff {groupCount index : Nat} {before : Option Nat}
    {ids : List Nat} :
    rejectionFrom groupCount index before ids = none ↔
      (∀ id ∈ ids, id < groupCount) ∧ (∀ earlier ∈ before, ∀ id ∈ ids, earlier ≤ id) ∧
        ids.Pairwise (· ≤ ·) := by
  induction ids generalizing index before with
  | nil => simp [rejectionFrom]
  | cons id ids ih =>
    rw [rejectionFrom_cons, List.pairwise_cons]
    cases hfault : idFault groupCount before id with
    | some fault =>
      have hbad := mt idFault_eq_none_iff.mpr (by rw [hfault]; simp)
      simp only [reduceCtorEq, false_iff]
      rintro ⟨hlt, hbefore, -⟩
      exact hbad ⟨hlt id List.mem_cons_self,
        fun earlier h => hbefore earlier h id List.mem_cons_self⟩
    | none =>
      obtain ⟨hlt, hle⟩ := idFault_eq_none_iff.mp hfault
      simp only [ih, Option.mem_some_iff, forall_eq', List.forall_mem_cons]
      constructor
      · rintro ⟨hids, hid, hsorted⟩
        exact ⟨⟨hlt, hids⟩,
          fun e he => ⟨hle e he, fun i hi => Nat.le_trans (hle e he) (hid i hi)⟩, hid, hsorted⟩
      · rintro ⟨⟨-, hids⟩, -, hid, hsorted⟩
        exact ⟨hids, hid, hsorted⟩

/-- A list of ids is good if all of them are below the number of groups and none decreases. -/
theorem rejection_eq_none_iff {groupCount : Nat} {ids : List Nat} :
    rejection groupCount ids = none ↔
      (∀ id ∈ ids, id < groupCount) ∧ ids.Pairwise (· ≤ ·) := by
  simp [rejection, rejectionFrom_eq_none_iff]

/-! ## The layout of sorted ids -/

/-- The span of a group in a sorted list of ids: it begins after all smaller ids. -/
def spanOf (ids : List Nat) (group : Nat) : Span :=
  if group ∈ ids then ⟨ids.countP (· < group), ids.countP (· < group) + ids.count group⟩
  else ⟨0, 0⟩

/-- The layout of a sorted list of ids. -/
def ofSorted (ids : List Nat) (groupCount : Nat) : Layout :=
  ⟨(List.range groupCount).map (spanOf ids)⟩

@[simp] theorem groupCount_ofSorted (ids : List Nat) (groupCount : Nat) :
    (ofSorted ids groupCount).groupCount = groupCount := by
  rw [Layout.groupCount, ofSorted, List.length_map, List.length_range]

/-- The spans of the groups in a list of ids that stands at position `index`. -/
def spanFrom (index : Nat) (ids : List Nat) (group : Nat) : Option Span :=
  if group ∈ ids then
    some ⟨index + ids.countP (· < group), index + (ids.countP (· < group) + ids.count group)⟩
  else none

private theorem countP_eq_zero_of_le {ids : List Nat} {group : Nat} (h : ∀ id ∈ ids, group ≤ id) :
    ids.countP (· < group) = 0 := by
  rw [List.countP_eq_zero]
  intro id hid
  have := h id hid
  simp only [decide_eq_true_eq]
  omega

/-- The spans after the first id: that of another group is read off the ids after it. -/
theorem spanFrom_cons_of_ne {index group id : Nat} {ids : List Nat} (hne : group ≠ id)
    (hsorted : (id :: ids).Pairwise (· ≤ ·)) :
    spanFrom index (id :: ids) group = spanFrom (index + 1) ids group := by
  rw [List.pairwise_cons] at hsorted
  by_cases hmem : group ∈ ids
  · have hlt : id < group := Nat.lt_of_le_of_ne (hsorted.1 group hmem) (Ne.symm hne)
    have hcount : (id :: ids).count group = ids.count group := List.count_cons_of_ne hne.symm
    have hbelow : (id :: ids).countP (· < group) = ids.countP (· < group) + 1 :=
      List.countP_cons_of_pos (by simpa using hlt)
    rw [spanFrom, spanFrom, if_pos hmem, if_pos (List.mem_cons_of_mem _ hmem), hcount, hbelow]
    congr 2 <;> omega
  · rw [spanFrom, spanFrom, if_neg hmem, if_neg (by simp [hne, hmem])]

/-- The spans after the first id: that of its own group begins with it. -/
theorem spanFrom_cons_self {index id : Nat} {ids : List Nat}
    (hsorted : (id :: ids).Pairwise (· ≤ ·)) :
    spanFrom index (id :: ids) id = some ⟨index, index + 1 + ids.count id⟩ := by
  rw [List.pairwise_cons] at hsorted
  have hbelow : (id :: ids).countP (· < id) = 0 := by
    apply countP_eq_zero_of_le
    rw [List.forall_mem_cons]
    exact ⟨Nat.le_refl id, hsorted.1⟩
  have hcount : (id :: ids).count id = ids.count id + 1 := List.count_cons_self
  rw [spanFrom, if_pos List.mem_cons_self, hbelow, hcount]
  congr 2
  omega

/-- What is found when the ids before `index` have been read and `current` is the run that is still
open there: an open run goes on as long as its id is repeated. -/
def foundFrom (index : Nat) (current : Option Run) (ids : List Nat) (group : Nat) : Option Span :=
  match current with
  | none => spanFrom index ids group
  | some run =>
    if group = run.group then some ⟨run.start, index + ids.count group⟩
    else spanFrom index ids group

/-- The first id of a run opens it. -/
theorem foundFrom_open {index id : Nat} {ids : List Nat} (hsorted : (id :: ids).Pairwise (· ≤ ·))
    (group : Nat) :
    spanFrom index (id :: ids) group = foundFrom (index + 1) (some ⟨id, index⟩) ids group := by
  by_cases h : group = id
  · subst h
    rw [spanFrom_cons_self hsorted, foundFrom, if_pos rfl]
  · rw [spanFrom_cons_of_ne h hsorted, foundFrom, if_neg h]

/-- The id of an open run keeps it open. -/
theorem foundFrom_same {index : Nat} {run : Run} {ids : List Nat}
    (hsorted : (run.group :: ids).Pairwise (· ≤ ·)) (group : Nat) :
    foundFrom index (some run) (run.group :: ids) group =
      foundFrom (index + 1) (some run) ids group := by
  by_cases h : group = run.group
  · subst h
    have hcount : (run.group :: ids).count run.group = ids.count run.group + 1 :=
      List.count_cons_self
    rw [foundFrom, foundFrom, if_pos rfl, if_pos rfl, hcount]
    congr 2
    omega
  · rw [foundFrom, foundFrom, if_neg h, if_neg h, spanFrom_cons_of_ne h hsorted]

/-- A larger id closes an open run and opens the next one. -/
theorem foundFrom_later {index id : Nat} {run : Run} {ids : List Nat} (hlt : run.group < id)
    (hsorted : (id :: ids).Pairwise (· ≤ ·)) {later : List (Nat × Span)}
    (hlater : ∀ group, later.lookup group = foundFrom (index + 1) (some ⟨id, index⟩) ids group)
    (group : Nat) :
    (run.closeAt index :: later).lookup group =
      foundFrom index (some run) (id :: ids) group := by
  by_cases h : group = run.group
  · subst h
    have hcount : (id :: ids).count run.group = 0 := by
      rw [List.count_eq_zero]
      intro hmem
      have hle : ∀ i ∈ id :: ids, id ≤ i := by
        rw [List.forall_mem_cons]
        exact ⟨Nat.le_refl id, (List.pairwise_cons.mp hsorted).1⟩
      exact absurd (hle _ hmem) (by omega)
    rw [foundFrom, if_pos rfl, hcount, Run.closeAt, List.lookup_cons_self]
    rfl
  · have hne : (group == run.group) = false := by simpa using h
    rw [foundFrom, if_neg h, foundFrom_open hsorted, ← hlater, Run.closeAt, List.lookup_cons, hne]

/-- The pass over good ids, from any of its states, finds the span of every group that occurs. -/
theorem runs_of_sorted {groupCount : Nat} {ids : List Nat} (hlt : ∀ id ∈ ids, id < groupCount)
    (hsorted : ids.Pairwise (· ≤ ·)) (index : Nat) (current : Option Run)
    (hcurrent : ∀ run ∈ current, ∀ id ∈ ids, run.group ≤ id) :
    ∃ found, runs groupCount index current ids = .ok found ∧
      ∀ group, found.lookup group = foundFrom index current ids group := by
  induction ids generalizing index current with
  | nil =>
    cases current with
    | none => exact ⟨[], rfl, fun group => rfl⟩
    | some run =>
      refine ⟨[run.closeAt index], rfl, fun group => ?_⟩
      rw [Run.closeAt, List.lookup_cons, foundFrom]
      by_cases h : group = run.group
      · rw [if_pos h, beq_iff_eq.mpr h]
        rfl
      · rw [if_neg h, beq_eq_false_iff_ne.mpr h]
        rfl
  | cons id ids ih =>
    rw [List.forall_mem_cons] at hlt
    have hlarge : ¬groupCount ≤ id := Nat.not_le_of_lt hlt.1
    obtain ⟨hid, htail⟩ := List.pairwise_cons.mp hsorted
    -- whichever run is open afterwards has the id just read, so no later id is smaller than its id
    have hopen := ih hlt.2 htail (index + 1) (some ⟨id, index⟩) (by simpa using hid)
    cases current with
    | none =>
      obtain ⟨found, hruns, hfound⟩ := hopen
      refine ⟨found, ?_, fun group => (hfound group).trans (foundFrom_open hsorted group).symm⟩
      rw [runs, if_neg hlarge, hruns]
    | some run =>
      have hrun : run.group ≤ id := hcurrent run rfl id List.mem_cons_self
      by_cases hsame : id = run.group
      · subst hsame
        obtain ⟨found, hruns, hfound⟩ := ih hlt.2 htail (index + 1) (some run) (by simpa using hid)
        refine ⟨found, ?_, fun group => (hfound group).trans (foundFrom_same hsorted group).symm⟩
        rw [runs, if_neg hlarge]
        simp only [if_neg (Nat.lt_irrefl _), if_true, hruns]
      · obtain ⟨later, hruns, hlater⟩ := hopen
        refine ⟨run.closeAt index :: later, ?_, foundFrom_later (by omega) hsorted hlater⟩
        rw [runs, if_neg hlarge]
        simp only [if_neg (Nat.not_lt_of_le hrun), if_neg hsame, hruns]
        rfl

/-- The pass over the ids, from any of its states, ends with the error of the first bad one. -/
theorem runs_of_rejectionFrom {groupCount index : Nat} {current : Option Run} {ids : List Nat}
    {e : Error} (h : rejectionFrom groupCount index (current.map (·.group)) ids = some e) :
    runs groupCount index current ids = .error e := by
  induction ids generalizing index current with
  | nil => cases h
  | cons id ids ih =>
    rw [rejectionFrom_cons, idFault] at h
    by_cases hlarge : groupCount ≤ id
    · rw [if_pos hlarge] at h
      cases current <;> (rw [runs, if_pos hlarge]; exact congrArg _ (Option.some.inj h))
    rw [if_neg hlarge] at h
    cases current with
    | none =>
      rw [runs, if_neg hlarge]
      exact ih h
    | some run =>
      rw [runs, if_neg hlarge]
      simp only [Option.map_some, Option.bind_some] at h ⊢
      by_cases hdecreases : id < run.group
      · rw [if_pos hdecreases] at h ⊢
        exact congrArg _ (Option.some.inj h)
      rw [if_neg hdecreases] at h ⊢
      -- repeated or larger, the id is the one that the next id is compared with
      by_cases hsame : id = run.group
      · rw [if_pos hsame]
        exact ih (by rw [← h, hsame]; rfl)
      · have hruns : runs groupCount (index + 1) (some ⟨id, index⟩) ids = .error e := ih h
        rw [if_neg hsame, hruns]
        rfl

/-- **The layout of ids** is the one of sorted ids, unless some id is bad; then the first bad one
is reported. -/
theorem ofIds_eq (ids : List Nat) (groupCount : Nat) :
    ofIds ids groupCount =
      match rejection groupCount ids with
      | some e => .error e
      | none => .ok (ofSorted ids groupCount) := by
  cases h : rejection groupCount ids with
  | some e =>
    have hruns : runs groupCount 0 none ids = .error e := runs_of_rejectionFrom h
    rw [ofIds, hruns]
    rfl
  | none =>
    obtain ⟨hlt, hsorted⟩ := rejection_eq_none_iff.mp h
    obtain ⟨found, hruns, hfound⟩ := runs_of_sorted hlt hsorted 0 none (by simp)
    have hspans : ∀ group, (found.lookup group).getD ⟨0, 0⟩ = spanOf ids group := by
      intro group
      rw [hfound, foundFrom, spanFrom, spanOf]
      split_ifs <;> simp
    rw [ofIds, hruns, ofSorted, ← funext hspans]
    rfl

theorem ofIds_eq_ok_iff {ids : List Nat} {groupCount : Nat} {layout : Layout} :
    ofIds ids groupCount = .ok layout ↔
      ((∀ id ∈ ids, id < groupCount) ∧ ids.Pairwise (· ≤ ·)) ∧
        layout = ofSorted ids groupCount := by
  rw [← rejection_eq_none_iff, ofIds_eq]
  cases rejection groupCount ids <;> simp [eq_comm]

theorem ofIds_eq_error_iff {ids : List Nat} {groupCount : Nat} {e : Error} :
    ofIds ids groupCount = .error e ↔ rejection groupCount ids = some e := by
  rw [ofIds_eq]
  cases rejection groupCount ids <;> simp

/-- The span of a group, also of one that there is not. -/
theorem span_ofSorted {ids : List Nat} {groupCount : Nat} (hlt : ∀ id ∈ ids, id < groupCount)
    (group : Nat) : (ofSorted ids groupCount).span group = spanOf ids group := by
  by_cases hgroup : group < groupCount
  · simp [span, ofSorted, List.getD, hgroup]
  · have hmem : group ∉ ids := fun hmem => hgroup (hlt group hmem)
    simp [span, ofSorted, List.getD, hgroup, spanOf, hmem]

theorem countP_lt_succ (ids : List Nat) (group : Nat) :
    ids.countP (· < group + 1) = ids.countP (· < group) + ids.count group := by
  induction ids with
  | nil => rfl
  | cons id ids ih =>
    rw [List.countP_cons, List.countP_cons, List.count_cons, ih]
    simp only [decide_eq_true_eq, beq_iff_eq]
    split_ifs <;> omega

/-- Spans lie within the positions of the ids. -/
theorem spanOf_bounds (ids : List Nat) (group : Nat) :
    (spanOf ids group).start ≤ (spanOf ids group).stop ∧
      (spanOf ids group).stop ≤ ids.length := by
  rw [spanOf]
  split_ifs
  · refine ⟨Nat.le_add_right _ _, ?_⟩
    rw [← countP_lt_succ]
    exact List.countP_le_length
  · exact ⟨Nat.le_refl 0, Nat.zero_le _⟩

/-! ## Cutting out the part of a group -/

section Parts

variable {β : Type}

/-- The entries of a list aligned with ids that belong to a group, in order. -/
def owned (group : Nat) (ids : List Nat) (xs : List β) : List β :=
  ((ids.zip xs).filter fun entry => entry.1 == group).map (·.2)

theorem owned_cons_self (group : Nat) (ids : List Nat) (x : β) (xs : List β) :
    owned group (group :: ids) (x :: xs) = x :: owned group ids xs := by
  simp [owned]

theorem owned_cons_of_ne {group id : Nat} (h : id ≠ group) (ids : List Nat) (x : β)
    (xs : List β) : owned group (id :: ids) (x :: xs) = owned group ids xs := by
  simp [owned, h]

theorem mem_of_mem_owned {group : Nat} {ids : List Nat} {xs : List β} {x : β}
    (h : x ∈ owned group ids xs) : x ∈ xs := by
  obtain ⟨entry, hentry, rfl⟩ := List.mem_map.mp h
  exact (List.of_mem_zip (List.mem_filter.mp hentry).1).2

theorem owned_eq_nil_of_not_mem {group : Nat} {ids : List Nat} (h : group ∉ ids) (xs : List β) :
    owned group ids xs = [] := by
  rw [owned, List.map_eq_nil_iff, List.filter_eq_nil_iff]
  intro entry hentry hgroup
  have hid : entry.1 = group := by simpa using hgroup
  exact h (hid ▸ (List.of_mem_zip hentry).1)

theorem length_owned {group : Nat} {ids : List Nat} {xs : List β} (h : xs.length = ids.length) :
    (owned group ids xs).length = ids.count group := by
  induction ids generalizing xs with
  | nil => rfl
  | cons id ids ih =>
    obtain ⟨x, xs, rfl⟩ := List.exists_cons_of_length_eq_add_one h
    by_cases hid : id = group
    · subst hid
      rw [owned_cons_self, List.length_cons, List.count_cons_self, ih (Nat.succ.inj h)]
    · rw [owned_cons_of_ne hid, List.count_cons_of_ne hid, ih (Nat.succ.inj h)]

/-- In sorted ids, what belongs to a group stands after what belongs to smaller groups. -/
theorem take_drop_eq_owned {ids : List Nat} (hsorted : ids.Pairwise (· ≤ ·)) (group : Nat)
    (xs : List β) :
    (xs.drop (ids.countP (· < group))).take (ids.count group) = owned group ids xs := by
  induction ids generalizing xs with
  | nil => simp [owned]
  | cons id ids ih =>
    cases xs with
    | nil => simp [owned]
    | cons x xs =>
      obtain ⟨hid, htail⟩ := List.pairwise_cons.mp hsorted
      -- before the group an entry is dropped, within it one is taken, and after it nothing is left
      rcases Nat.lt_trichotomy id group with hlt | rfl | hgt
      · rw [List.countP_cons_of_pos (by simpa using hlt), List.count_cons_of_ne (by omega),
          List.drop_succ_cons, ih htail, owned_cons_of_ne (by omega)]
      · have hrest : ids.countP (· < id) = 0 := countP_eq_zero_of_le hid
        have htake := ih htail xs
        rw [hrest, List.drop_zero] at htake
        rw [List.countP_cons_of_neg (by simp), hrest, List.drop_zero, List.count_cons_self,
          List.take_succ_cons, htake, owned_cons_self]
      · have hmem : group ∉ id :: ids := by
          intro h
          rcases List.mem_cons.mp h with rfl | h
          · omega
          · exact absurd (hid group h) (by omega)
        rw [List.count_eq_zero.mpr hmem, List.take_zero, owned_eq_nil_of_not_mem hmem]

/-- **Cutting out a group**: its span holds exactly what belongs to the group, in order. -/
theorem slice_ofSorted {groupCount : Nat} {ids : List Nat} (hlt : ∀ id ∈ ids, id < groupCount)
    (hsorted : ids.Pairwise (· ≤ ·)) (group : Nat) (xs : List β) :
    (ofSorted ids groupCount).slice group xs = owned group ids xs := by
  rw [slice, span_ofSorted hlt, spanOf]
  split_ifs with hmem
  · rw [Span.slice, Span.length, Nat.add_sub_cancel_left, take_drop_eq_owned hsorted]
  · rw [owned_eq_nil_of_not_mem hmem]
    rfl

/-- Each of the parts has the size of its group. -/
theorem length_part {ids : List Nat} {groupCount : Nat} {parts : List (List β)}
    (h : parts.map List.length = (List.range groupCount).map fun g => ids.count g) {group : Nat}
    (hgroup : group < parts.length) : parts[group].length = ids.count group := by
  have hlen : parts.length = groupCount := by simpa using congrArg List.length h
  have hget := congrArg (fun lengths => lengths[group]?) h
  rw [List.getElem?_map, List.getElem?_map, List.getElem?_range (by omega),
    List.getElem?_eq_getElem hgroup] at hget
  exact Option.some.inj hget

/-- Parts of the sizes of the groups take up as much room as there are ids of these groups. -/
theorem length_flatten_take {ids : List Nat} {groupCount : Nat} {parts : List (List β)}
    (h : parts.map List.length = (List.range groupCount).map fun g => ids.count g) {group : Nat}
    (hgroup : group ≤ groupCount) :
    (parts.take group).flatten.length = ids.countP (· < group) := by
  induction group with
  | zero => simp
  | succ group ih =>
    have hlen : parts.length = groupCount := by simpa using congrArg List.length h
    have hlt : group < parts.length := by omega
    have hpart := length_part h hlt
    rw [List.take_succ_eq_append_getElem (by omega), List.flatten_append, List.length_append,
      ih (by omega), countP_lt_succ]
    simp [hpart]

/-- Parts of the sizes of all groups take up as much room as there are ids. -/
theorem length_flatten {ids : List Nat} {groupCount : Nat} (hlt : ∀ id ∈ ids, id < groupCount)
    {parts : List (List β)}
    (h : parts.map List.length = (List.range groupCount).map fun g => ids.count g) :
    parts.flatten.length = ids.length := by
  have hlen : parts.length = groupCount := by simpa using congrArg List.length h
  have hall := length_flatten_take h (Nat.le_refl groupCount)
  have hcount : ids.countP (· < groupCount) = ids.length := by
    rw [List.countP_eq_length]
    simpa using hlt
  rwa [← hlen, List.take_length, hlen, hcount] at hall

/-- **Putting parts together**: the span of a group holds the part of that group. -/
theorem owned_flatten {ids : List Nat} {groupCount : Nat}
    (hsorted : ids.Pairwise (· ≤ ·)) {parts : List (List β)}
    (h : parts.map List.length = (List.range groupCount).map fun g => ids.count g) {group : Nat}
    (hgroup : group < parts.length) : owned group ids parts.flatten = parts[group] := by
  have hlen : parts.length = groupCount := by simpa using congrArg List.length h
  have hbefore := length_flatten_take h (show group ≤ groupCount by omega)
  have hpart := length_part h hgroup
  have hsplit : parts.flatten =
      (parts.take group).flatten ++ (parts[group] ++ (parts.drop (group + 1)).flatten) := by
    rw [← List.flatten_cons, List.getElem_cons_drop, ← List.flatten_append, List.take_append_drop]
  rw [← take_drop_eq_owned hsorted, hsplit, List.drop_left' hbefore, List.take_left' hpart]

end Parts

end Mixtures.Layout
