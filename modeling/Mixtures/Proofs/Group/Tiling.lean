import Mixtures.Proofs.Group.Layout

/-!
# What a layout promises

Ids have a layout unless one of them is too large or decreases, and the first such id is the one
that is reported. The spans of a layout say where the ids of each group stand. Those that are not
empty tile the positions of the ids, one group after the other, so a list that is cut into the
parts of the groups is put together again by their order, and so are results that were found group
by group.

* `rejection_eq_some_iff`: the error is that of the first violation.
* `mem_spanOf`: the span of a group holds the positions of its id.
* `tiles_spanOf`: the spans tile the positions.
* `ofIds_outcome`: all of this about `ofIds`.
-/

namespace Mixtures

instance : Membership Nat Span where
  mem span i := span.start ≤ i ∧ i < span.stop

namespace Span

theorem mem_iff {span : Span} {i : Nat} : i ∈ span ↔ span.start ≤ i ∧ i < span.stop := Iff.rfl

/-- The spans follow each other from one position to another without gap or overlap, and none of
them is empty. -/
inductive Tiles : Nat → List Span → Nat → Prop
  | nil (i : Nat) : Tiles i [] i
  | cons {stop : Nat} {span : Span} {spans : List Span} (hlt : span.start < span.stop)
      (h : Tiles span.stop spans stop) : Tiles span.start (span :: spans) stop

namespace Tiles

variable {start stop : Nat} {spans : List Span}

/-- A tiling is continued by a span that begins where it ends. -/
theorem concat (h : Tiles start spans stop) {next : Nat} (hlt : stop < next) :
    Tiles start (spans ++ [⟨stop, next⟩]) next := by
  induction h with
  | nil i =>
    have hspan : (Span.mk i next).start < (Span.mk i next).stop := hlt
    exact .cons hspan (.nil next)
  | cons hspan _ ih => exact .cons hspan (ih hlt)

theorem start_le_stop (h : Tiles start spans stop) : start ≤ stop := by
  induction h with
  | nil i => exact Nat.le_refl i
  | cons hspan _ ih => omega

/-- The parts of a list at the spans, put together, are what stands between the two ends. -/
theorem flatMap_slice (h : Tiles start spans stop) {β : Type} (xs : List β) :
    spans.flatMap (·.slice xs) = (xs.drop start).take (stop - start) := by
  induction h with
  | nil i => simp
  | @cons stop span spans hspan htail ih =>
    have hstop := htail.start_le_stop
    have hsplit : stop - span.start = span.length + (stop - span.stop) := by
      rw [Span.length]
      omega
    have hnext : span.start + span.length = span.stop := by
      rw [Span.length]
      omega
    rw [List.flatMap_cons, ih, hsplit, List.take_add, List.drop_drop, hnext, Span.slice]

end Tiles

/-- Spans without positions do not contribute to what is put together. -/
theorem flatMap_slice_filter {β : Type} (spans : List Span) (xs : List β) :
    (spans.filter (0 < ·.length)).flatMap (·.slice xs) = spans.flatMap (·.slice xs) := by
  induction spans with
  | nil => rfl
  | cons span spans ih =>
    by_cases hpos : 0 < span.length
    · rw [List.filter_cons_of_pos (by simpa using hpos), List.flatMap_cons, List.flatMap_cons, ih]
    · have hnil : span.slice xs = [] := by
        rw [slice, Nat.eq_zero_of_not_pos hpos, List.take_zero]
      rw [List.filter_cons_of_neg (by simpa using hpos), List.flatMap_cons, hnil, ih,
        List.nil_append]

end Span

namespace Layout

/-! ## The first violation -/

/-- What is wrong with the id at a position: it is too large, or else it is smaller than the id
before it. -/
inductive Breaks (groupCount : Nat) (ids : List Nat) : Nat → Violation → Prop
  | tooLarge {i id : Nat} (hid : ids[i]? = some id) (hlarge : groupCount ≤ id) :
      Breaks groupCount ids i (.idTooLarge id groupCount)
  | decreases {i id before : Nat} (hbefore : ids[i]? = some before)
      (hid : ids[i + 1]? = some id) (hsmall : id < groupCount) (hlt : id < before) :
      Breaks groupCount ids (i + 1) (.idDecreases id before)

theorem idFault_eq_some_iff {groupCount id : Nat} {before : Option Nat} {v : Violation} :
    idFault groupCount before id = some v ↔
      (groupCount ≤ id ∧ v = .idTooLarge id groupCount) ∨
        id < groupCount ∧ ∃ earlier, before = some earlier ∧ id < earlier ∧
          v = .idDecreases id earlier := by
  rw [idFault]
  split_ifs with hlarge
  · simp [hlarge, eq_comm, Nat.not_lt_of_le hlarge]
  · cases before <;> simp [hlarge, Nat.lt_of_not_le hlarge, eq_comm]

/-- A violation is a fault of an id as it stands beside the id before it. -/
theorem breaks_iff {groupCount i : Nat} {ids : List Nat} {v : Violation} :
    Breaks groupCount ids i v ↔
      ∃ entry, (ids.zip (none :: ids.map some))[i]? = some entry ∧
        idFault groupCount entry.2 entry.1 = some v := by
  simp only [Prod.exists, List.getElem?_zip_eq_some]
  constructor
  · intro h
    cases h with
    | @tooLarge i id hid hlarge =>
      have hi : i < (none :: ids.map some).length := by
        have := (List.getElem?_eq_some_iff.mp hid).1
        simp only [List.length_cons, List.length_map]
        omega
      exact ⟨id, _, ⟨hid, List.getElem?_eq_getElem hi⟩,
        idFault_eq_some_iff.mpr (.inl ⟨hlarge, rfl⟩)⟩
    | @decreases i id before hbefore hid hsmall hlt =>
      exact ⟨id, some before, ⟨hid, by simp [hbefore]⟩,
        idFault_eq_some_iff.mpr (.inr ⟨hsmall, before, rfl, hlt, rfl⟩)⟩
  · rintro ⟨id, before, ⟨hid, hbefore⟩, hfault⟩
    rcases idFault_eq_some_iff.mp hfault with ⟨hlarge, rfl⟩ | ⟨hsmall, earlier, rfl, hlt, rfl⟩
    · exact .tooLarge hid hlarge
    · cases i with
      | zero => simp at hbefore
      | succ i => exact .decreases (by simpa using hbefore) hid hsmall hlt

/-- What a search finds is found at some position, and at none before it. -/
theorem findSome?_eq_some_iff_getElem? {β γ : Type} {f : β → Option γ} {xs : List β} {y : γ} :
    xs.findSome? f = some y ↔
      ∃ i : Nat, ∃ x, xs[i]? = some x ∧ f x = some y ∧
        ∀ j < i, ∀ x', xs[j]? = some x' → f x' = none := by
  rw [List.findSome?_eq_some_iff]
  constructor
  · rintro ⟨before, x, after, rfl, hx, hbefore⟩
    refine ⟨before.length, x, by simp, hx, fun j hj x' hx' => ?_⟩
    rw [List.getElem?_append_left hj] at hx'
    exact hbefore x' (List.mem_of_getElem? hx')
  · rintro ⟨i, x, hx, hfound, hbefore⟩
    obtain ⟨hi, rfl⟩ := List.getElem?_eq_some_iff.mp hx
    refine ⟨xs.take i, xs[i], xs.drop (i + 1), by simp, hfound, fun x' hx' => ?_⟩
    obtain ⟨j, hj, rfl⟩ := List.mem_iff_getElem.mp hx'
    rw [List.length_take] at hj
    exact hbefore j (by omega) _ (by rw [List.getElem_take, List.getElem?_eq_getElem])

/-- **The error of ids** is that of the first violation. -/
theorem rejection_eq_some_iff {groupCount : Nat} {ids : List Nat} {e : Error} :
    rejection groupCount ids = some e ↔
      ∃ i v, Breaks groupCount ids i v ∧ (∀ j < i, ∀ w, ¬Breaks groupCount ids j w) ∧
        e = .inputContract i v := by
  simp only [breaks_iff]
  rw [rejection, rejectionFrom, findSome?_eq_some_iff_getElem?]
  generalize ids.zip (none :: ids.map some) = entries
  simp only [List.getElem?_zipIdx, Option.map_eq_some_iff, Nat.zero_add]
  constructor
  · rintro ⟨i, -, ⟨entry, hentry, rfl⟩, ⟨v, hv, rfl⟩, hbefore⟩
    refine ⟨i, v, ⟨entry, hentry, hv⟩, ?_, rfl⟩
    rintro j hj w ⟨earlier, hearlier, hw⟩
    have hnone := hbefore j hj _ ⟨earlier, hearlier, rfl⟩
    simp [hw] at hnone
  · rintro ⟨i, v, ⟨entry, hentry, hv⟩, hbefore, rfl⟩
    refine ⟨i, _, ⟨entry, hentry, rfl⟩, ⟨v, hv, rfl⟩, ?_⟩
    rintro j hj - ⟨earlier, hearlier, rfl⟩
    rw [Option.map_eq_none_iff, Option.eq_none_iff_forall_ne_some]
    exact fun w hw => hbefore j hj w ⟨earlier, hearlier, hw⟩

/-! ## Where the ids of a group stand -/

/-- In sorted ids, those that are smaller than a group stand in front. -/
theorem lt_countP_iff {ids : List Nat} (hsorted : ids.Pairwise (· ≤ ·)) {group i : Nat} :
    i < ids.countP (· < group) ↔ ∃ id, ids[i]? = some id ∧ id < group := by
  induction ids generalizing i with
  | nil => simp
  | cons id ids ih =>
    obtain ⟨hid, htail⟩ := List.pairwise_cons.mp hsorted
    by_cases hlt : id < group
    · rw [List.countP_cons_of_pos (by simpa using hlt)]
      cases i with
      | zero => simp [hlt]
      | succ i => rw [Nat.succ_lt_succ_iff, ih htail, List.getElem?_cons_succ]
    · have hnone : ∀ later ∈ id :: ids, ¬later < group := by
        rw [List.forall_mem_cons]
        refine ⟨hlt, fun later hlater => ?_⟩
        have := hid later hlater
        omega
      have hzero : (id :: ids).countP (· < group) = 0 := by
        rw [List.countP_eq_zero]
        simpa using hnone
      rw [hzero]
      simp only [Nat.not_lt_zero, false_iff, not_exists, not_and]
      exact fun later hlater => hnone later (List.mem_of_getElem? hlater)

/-- **The span of a group** holds the positions of its id. -/
theorem mem_spanOf {ids : List Nat} (hsorted : ids.Pairwise (· ≤ ·)) {group i : Nat} :
    i ∈ spanOf ids group ↔ ids[i]? = some group := by
  by_cases hmem : group ∈ ids
  · rw [spanOf, if_pos hmem, Span.mem_iff, ← countP_lt_succ, ← Nat.not_lt, lt_countP_iff hsorted,
      lt_countP_iff hsorted]
    constructor
    · rintro ⟨hnot, id, hid, hlt⟩
      have hle : ¬id < group := fun h => hnot ⟨id, hid, h⟩
      rw [hid, show id = group by omega]
    · intro hid
      rw [hid]
      simp
  · have hne : ids[i]? ≠ some group := fun hid => hmem (List.mem_of_getElem? hid)
    rw [spanOf, if_neg hmem, Span.mem_iff]
    simp [hne]

theorem length_spanOf (ids : List Nat) (group : Nat) :
    (spanOf ids group).length = ids.count group := by
  rw [spanOf]
  split_ifs with hmem
  · rw [Span.length, Nat.add_sub_cancel_left]
  · rw [List.count_eq_zero.mpr hmem]
    rfl

/-- The spans of the groups below a bound tile the positions of their ids. -/
theorem tiles_spanOf (ids : List Nat) (bound : Nat) :
    Span.Tiles 0 (((List.range bound).map (spanOf ids)).filter (0 < ·.length))
      (ids.countP (· < bound)) := by
  induction bound with
  | zero => simpa using Span.Tiles.nil 0
  | succ group ih =>
    rw [List.range_succ, List.map_append, List.filter_append, countP_lt_succ]
    by_cases hmem : group ∈ ids
    · have hpos : 0 < ids.count group := List.count_pos_iff.mpr hmem
      have hspan : [spanOf ids group].filter (0 < ·.length) =
          [⟨ids.countP (· < group), ids.countP (· < group) + ids.count group⟩] := by
        rw [List.filter_cons_of_pos (by simpa [length_spanOf] using hpos), List.filter_nil, spanOf,
          if_pos hmem]
      rw [List.map_singleton, hspan]
      exact ih.concat (by omega)
    · have hspan : [spanOf ids group].filter (0 < ·.length) = [] := by
        rw [List.filter_cons_of_neg (by simpa [length_spanOf] using hmem), List.filter_nil]
      rw [List.map_singleton, hspan, List.append_nil, List.count_eq_zero.mpr hmem, Nat.add_zero]
      exact ih

/-! ## The outcome of reading a layout -/

section Parts

variable {ids : List Nat} {groupCount : Nat} (hlt : ∀ id ∈ ids, id < groupCount)
  {β : Type}

include hlt in
/-- The spans of a layout tile the positions of the ids. -/
theorem tiles_ofSorted :
    Span.Tiles 0 ((ofSorted ids groupCount).spans.filter (0 < ·.length)) ids.length := by
  have hall : ids.countP (· < groupCount) = ids.length := by
    rw [List.countP_eq_length]
    simpa using hlt
  rw [← hall]
  exact tiles_spanOf ids groupCount

include hlt in
/-- A list is the parts of the groups, one group after the other. -/
theorem flatMap_slice_ofSorted {xs : List β} (h : xs.length = ids.length) :
    (ofSorted ids groupCount).spans.flatMap (·.slice xs) = xs := by
  rw [← Span.flatMap_slice_filter, (tiles_ofSorted hlt).flatMap_slice, List.drop_zero,
    Nat.sub_zero, ← h, List.take_length]

end Parts

/-- **The outcome of reading a layout.** Ids have a layout exactly if all of them are below the
number of groups and none is smaller than the one before it; otherwise the first violation is
reported. In a layout there is a span for each group. It holds the positions of the id of the
group, and is `0 ‥ 0` if there are none. The spans that are not empty tile the positions of the ids
in the order of the groups. So all of them lie within an aligned list, their parts put together are
that list again, and parts found group by group, once put together, are found again by their
spans. -/
theorem ofIds_outcome (ids : List Nat) (groupCount : Nat) :
    ((∃ layout, ofIds ids groupCount = .ok layout) ↔
      (∀ id ∈ ids, id < groupCount) ∧ ids.Pairwise (· ≤ ·)) ∧
    (∀ e, ofIds ids groupCount = .error e ↔
      ∃ i v, Breaks groupCount ids i v ∧ (∀ j < i, ∀ w, ¬Breaks groupCount ids j w) ∧
        e = .inputContract i v) ∧
    ∀ layout, ofIds ids groupCount = .ok layout →
      layout.groupCount = groupCount ∧
      (∀ group i, i ∈ layout.span group ↔ ids[i]? = some group) ∧
      (∀ group, group ∉ ids → layout.span group = ⟨0, 0⟩) ∧
      Span.Tiles 0 (layout.spans.filter (0 < ·.length)) ids.length ∧
      (∀ span ∈ layout.spans, span.start ≤ span.stop ∧ span.stop ≤ ids.length) ∧
      (∀ (β : Type) (xs : List β), xs.length = ids.length →
        layout.spans.flatMap (·.slice xs) = xs) ∧
      ∀ (β : Type) (parts : List (List β)),
        parts.map List.length = layout.spans.map Span.length →
          parts.flatten.length = ids.length ∧
          ∀ group, ∀ h : group < parts.length, layout.slice group parts.flatten = parts[group] := by
  refine ⟨?accepted, fun e => ofIds_eq_error_iff.trans rejection_eq_some_iff, ?layout⟩
  case accepted =>
    simp [ofIds_eq_ok_iff]
  case layout =>
    intro layout hlayout
    obtain ⟨⟨hlt, hsorted⟩, rfl⟩ := ofIds_eq_ok_iff.mp hlayout
    refine ⟨groupCount_ofSorted ids groupCount, ?_, ?_, tiles_ofSorted hlt, ?_, ?_, ?_⟩
    · intro group i
      rw [span_ofSorted hlt, mem_spanOf hsorted]
    · intro group hmem
      rw [span_ofSorted hlt, spanOf, if_neg hmem]
    · intro span hspan
      obtain ⟨group, -, rfl⟩ := List.mem_map.mp hspan
      exact spanOf_bounds ids group
    · intro β xs h
      exact flatMap_slice_ofSorted hlt h
    · intro β parts h
      have hcounts : parts.map List.length = (List.range groupCount).map fun g => ids.count g := by
        rw [h, ofSorted, List.map_map]
        exact List.map_congr_left fun group _ => length_spanOf ids group
      refine ⟨length_flatten hlt hcounts, fun group hgroup => ?_⟩
      rw [slice_ofSorted hlt hsorted, owned_flatten hsorted hcounts hgroup]

/-- Three samples in five groups, of which the first, the third and the last are empty; and ids of
which the third is too large before the fourth decreases. -/
theorem ofIds_outcome_skipping :
    ofIds [1, 1, 3] 5 = .ok ⟨[⟨0, 0⟩, ⟨0, 2⟩, ⟨0, 0⟩, ⟨2, 3⟩, ⟨0, 0⟩]⟩ ∧
      Span.Tiles 0 [⟨0, 2⟩, ⟨2, 3⟩] 3 ∧
      [[], ["a", "b"], [], ["c"], []].flatten.length = 3 ∧
      Span.slice ⟨2, 3⟩ [[], ["a", "b"], [], ["c"], []].flatten = ["c"] ∧
      ofIds [0, 2, 7, 1] 4 = .error (.inputContract 2 (.idTooLarge 7 4)) ∧
      ∃ i v, Breaks 4 [0, 2, 7, 1] i v ∧ ∀ j < i, ∀ w, ¬Breaks 4 [0, 2, 7, 1] j w := by
  have hok : ofIds [1, 1, 3] 5 = .ok ⟨[⟨0, 0⟩, ⟨0, 2⟩, ⟨0, 0⟩, ⟨2, 3⟩, ⟨0, 0⟩]⟩ := rfl
  have hbad : ofIds [0, 2, 7, 1] 4 = .error (.inputContract 2 (.idTooLarge 7 4)) := rfl
  obtain ⟨-, -, hlayout⟩ := ofIds_outcome [1, 1, 3] 5
  obtain ⟨-, -, -, htiles, -, -, hparts⟩ := hlayout _ hok
  obtain ⟨hlength, hslice⟩ := hparts String [[], ["a", "b"], [], ["c"], []] rfl
  obtain ⟨-, herror, -⟩ := ofIds_outcome [0, 2, 7, 1] 4
  obtain ⟨i, v, hbreaks, hfirst, -⟩ := (herror _).mp hbad
  exact ⟨hok, htiles, hlength, hslice 3 (by decide), hbad, i, v, hbreaks, hfirst⟩

end Layout

end Mixtures
