import Mixtures.Proofs.Random.Draws
import Mixtures.Random.Distinct

/-!
# Distinct indices are distinct

Both methods of drawing distinct indices keep a list without repetitions. The shuffle only exchanges
places of the list of all indices; Floyd's method adds one index at a time, and where that index is
there already, the new bound takes its place first.

* `shufflePlaces_perm`, `floydStep_spec`: what one method or the other keeps.
* `distinctIndices_spec`: as many indices as asked for, all different and below the length.
-/

namespace Mixtures

variable {ρ : Type} [RandomSource ρ]

/-- A number of indices, all of them different and below a bound. -/
structure Distinct (amount bound : Nat) (xs : List Nat) : Prop where
  length_eq : xs.length = amount
  nodup : xs.Nodup
  lt : ∀ x ∈ xs, x < bound

/-! ## The shuffle -/

theorem exchange_perm {xs : List Nat} {i j : Nat} (hi : i < xs.length) (hj : j < xs.length) :
    (exchange xs i j).Perm xs := by
  rw [exchange, List.getD_eq_getElem _ _ hi, List.getD_eq_getElem _ _ hj]
  exact List.set_set_perm hi hj

/-- Shuffled places hold the same indices in another order. -/
theorem shufflePlaces_perm {length n place : Nat} {xs : List Nat} (hlength : xs.length = length)
    (hplace : place + n ≤ length) (source : ρ) :
    (shufflePlaces length n place xs source).1.Perm xs := by
  induction n generalizing place xs source with
  | zero => exact .refl xs
  | succ n ih =>
    have hoffset := uniformBelow_lt (show 0 < length - place by omega) source
    rw [shufflePlaces]
    rcases hdraw : uniformBelow (length - place) source with ⟨offset, rest⟩
    rw [hdraw] at hoffset
    dsimp only at hoffset ⊢
    -- the drawn place is at or after this one, and still within the list
    have hexchange : (exchange xs place (place + offset)).Perm xs :=
      exchange_perm (by omega) (by omega)
    exact (ih (hexchange.length_eq.trans hlength) (by omega) rest).trans hexchange

theorem shuffledIndices_spec {length amount : Nat} (h : amount ≤ length) (source : ρ) :
    Distinct amount length (shuffledIndices length amount source).1 := by
  have hperm : (shufflePlaces length amount 0 (List.range length) source).1.Perm
      (List.range length) := shufflePlaces_perm List.length_range (by omega) source
  rw [shuffledIndices]
  refine ⟨?_, ?_, fun i hi => ?_⟩
  · rw [List.length_take, hperm.length_eq, List.length_range, Nat.min_eq_left h]
  · exact (hperm.nodup_iff.mpr List.nodup_range).sublist (List.take_sublist _ _)
  · exact List.mem_range.mp (hperm.mem_iff.mp (List.mem_of_mem_take hi))

/-! ## Floyd's method -/

/-- A drawn index that is new is added. -/
theorem Distinct.concat {amount bound t : Nat} {xs : List Nat} (h : Distinct amount bound xs)
    (ht : t < bound) (hnew : t ∉ xs) : Distinct (amount + 1) bound (xs ++ [t]) where
  length_eq := by rw [List.length_append, h.length_eq, List.length_singleton]
  nodup := List.nodup_append.mpr ⟨h.nodup, List.nodup_singleton t, fun x hx y hy hxy =>
    hnew (List.mem_singleton.mp hy ▸ hxy ▸ hx)⟩
  lt x hx := by
    rcases List.mem_append.mp hx with hx | hx
    · exact h.lt x hx
    · exact List.mem_singleton.mp hx ▸ ht

/-- An index that was drawn before gives its place to the bound, and is new then. -/
theorem Distinct.replace {amount bound place : Nat} {xs : List Nat} (h : Distinct amount bound xs)
    (hplace : place < xs.length) :
    Distinct amount (bound + 1) (xs.set place bound) ∧ xs[place] ∉ xs.set place bound := by
  have hbound : bound ∉ xs := fun hmem => Nat.lt_irrefl bound (h.lt bound hmem)
  refine ⟨⟨by rw [List.length_set, h.length_eq], h.nodup.set hbound, fun x hx => ?_⟩,
    fun hmem => ?_⟩
  · rcases List.mem_or_eq_of_mem_set hx with hold | rfl
    · exact Nat.lt_succ_of_lt (h.lt x hold)
    · exact Nat.lt_succ_self x
  · obtain ⟨i, hi, hget⟩ := List.mem_iff_getElem.mp hmem
    rw [List.length_set] at hi
    rw [List.getElem_set] at hget
    split at hget
    · exact hbound (hget ▸ List.getElem_mem hplace)
    next hne => exact hne (h.nodup.getElem_inj_iff.mp hget.symm)

theorem floydStep_spec {n bound amount : Nat} {xs : List Nat} (h : Distinct amount bound xs)
    (source : ρ) : Distinct (amount + n) (bound + n) (floydStep n bound xs source).1 := by
  -- the indices drawn so far are below the bound, so the bound itself is not among them
  induction n generalizing bound amount xs source with
  | zero => exact h
  | succ n ih =>
    have ht := uniformBelow_lt (n := bound + 1) bound.succ_pos source
    rw [floydStep]
    rcases hdraw : uniformBelow (bound + 1) source with ⟨t, rest⟩
    rw [hdraw] at ht
    dsimp only at ht ⊢
    rw [Nat.add_comm n 1, ← Nat.add_assoc, ← Nat.add_assoc]
    refine ih ?_ rest
    cases hfind : xs.idxOf? t with
    | none =>
      refine Distinct.concat ⟨h.length_eq, h.nodup, fun x hx => ?_⟩ ht
        (List.idxOf?_eq_none_iff.mp hfind)
      exact Nat.lt_succ_of_lt (h.lt x hx)
    | some place =>
      obtain ⟨hplace, rfl, -⟩ := List.idxOf?_eq_some_iff.mp hfind
      obtain ⟨hset, hnew⟩ := h.replace hplace
      exact hset.concat ht hnew

/-- **Distinct indices**: as many as asked for, all of them different and below the length. -/
theorem distinctIndices_spec {length amount : Nat} (h : amount ≤ length) (source : ρ) :
    Distinct amount length (distinctIndices length amount source).1 := by
  rw [distinctIndices]
  split
  · exact shuffledIndices_spec h source
  · have hempty : Distinct 0 (length - amount) [] := ⟨rfl, List.nodup_nil, nofun⟩
    have hfloyd := floydStep_spec hempty (n := amount) source
    rwa [Nat.zero_add, Nat.sub_add_cancel h] at hfloyd

end Mixtures
