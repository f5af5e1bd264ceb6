import Mathlib
import Mixtures.Proofs.Search
import Mixtures.Proofs.Scalar.Exact

/-!
# What the first best key is

A search keeps a key as long as no later one is better. If being better is an order in which every
admissible key can take its place, what is kept in the end is a least key, and the first of them:
every admissible key before it is worse.

* `Selects.of_firstBest`: what such a search finds.
* `nearestIndex_least`: the nearest center is at the least distance, and the first one there.
-/

namespace Mixtures

variable {κ : Type} {admissible : κ → Bool} {better : κ → κ → Bool}

/-- One more key at the end is compared with what was found before it. -/
theorem firstBest_concat (keys : List κ) (key : κ) :
    firstBest admissible better (keys ++ [key]) =
      keepBetter admissible better (firstBest admissible better keys) (key, keys.length) := by
  rw [firstBest, List.zipIdx_append, List.foldl_append, Nat.zero_add]
  rfl

/-- What makes the first best key a least one: better keys are admissible, they are ordered, and
what is better than a key is better than every admissible key that is not better than it. -/
structure Selects (admissible : κ → Bool) (better : κ → κ → Bool) : Prop where
  admissible_of_better : ∀ {a b}, admissible b → better a b → admissible a
  irrefl : ∀ a, ¬better a a
  trans : ∀ {a b c}, better a b → better b c → better a c
  better_of_not : ∀ {a b c}, admissible c → better a b → ¬better c b → better a c

/-- **The first best key** is admissible, no key is better, and it is better than every admissible
key before it. -/
theorem Selects.of_firstBest (h : Selects admissible better) {keys : List κ} {index : Nat} {key : κ}
    (hfound : firstBest admissible better keys = some (index, key)) :
    admissible key ∧ (∀ k ∈ keys, ¬better k key) ∧
      ∀ i < index, ∀ k, keys[i]? = some k → admissible k → better key k := by
  induction keys using List.reverseRecOn generalizing index key with
  | nil => cases hfound
  | append_singleton keys last ih =>
    rw [firstBest_concat] at hfound
    cases hbefore : firstBest admissible better keys with
    | none =>
      -- no key before the last one is admissible
      have hnone : ∀ k ∈ keys, ¬admissible k := fun k hk hadmissible =>
        firstBest_ne_none hk hadmissible hbefore
      rw [hbefore, keepBetter] at hfound
      split at hfound
      next hlast =>
        cases hfound
        refine ⟨hlast, fun k hk hbetter => ?_, fun i hi k hget hadmissible => ?_⟩
        · rcases List.mem_append.mp hk with hk | hk
          · exact hnone k hk (h.admissible_of_better hlast hbetter)
          · rw [List.mem_singleton.mp hk] at hbetter
            exact h.irrefl last hbetter
        · rw [List.getElem?_append_left hi] at hget
          exact absurd hadmissible (hnone k (List.mem_of_getElem? hget))
      next => cases hfound
    | some found =>
      obtain ⟨before, kept⟩ := found
      obtain ⟨hkept, hleast, hfirst⟩ := ih hbefore
      have hlt : before < keys.length :=
        (List.getElem?_eq_some_iff.mp (getElem?_of_firstBest hbefore)).1
      rw [hbefore, keepBetter] at hfound
      split at hfound
      next hlast =>
        cases hfound
        refine ⟨h.admissible_of_better hkept hlast, fun k hk hbetter => ?_,
          fun i hi k hget hadmissible => ?_⟩
        · rcases List.mem_append.mp hk with hk | hk
          · exact hleast k hk (h.trans hbetter hlast)
          · rw [List.mem_singleton.mp hk] at hbetter
            exact h.irrefl last hbetter
        · rw [List.getElem?_append_left hi] at hget
          exact h.better_of_not hadmissible hlast (hleast k (List.mem_of_getElem? hget))
      next hlast =>
        cases hfound
        refine ⟨hkept, fun k hk => ?_, fun i hi k hget => ?_⟩
        · rcases List.mem_append.mp hk with hk | hk
          · exact hleast k hk
          · rwa [List.mem_singleton.mp hk]
        · rw [List.getElem?_append_left (hi.trans hlt)] at hget
          exact hfirst i hi k hget

/-- Keys that are better for a lower rank select a least one, whatever keys have no rank, as long as
those are not admissible. -/
theorem Selects.of_rank {ω : Type} [LinearOrder ω] (rank : κ → Option ω)
    (hbetter : ∀ {a b}, better a b ↔ ∃ x ∈ rank a, ∃ y ∈ rank b, x < y)
    (hranked : ∀ {a}, admissible a → ∃ x, rank a = some x)
    (hbelow : ∀ {a b}, admissible b → better a b → admissible a) : Selects admissible better where
  admissible_of_better := hbelow
  irrefl a h := by
    obtain ⟨x, hx, y, hy, hlt⟩ := hbetter.mp h
    exact hlt.ne (Option.mem_unique hx hy)
  trans hab hbc := by
    obtain ⟨x, hx, y, hy, hxy⟩ := hbetter.mp hab
    obtain ⟨y', hy', z, hz, hyz⟩ := hbetter.mp hbc
    obtain rfl : y = y' := Option.mem_unique hy hy'
    exact hbetter.mpr ⟨x, hx, z, hz, hxy.trans hyz⟩
  better_of_not hadmissible hab hcb := by
    obtain ⟨z, hz⟩ := hranked hadmissible
    obtain ⟨x, hx, y, hy, hxy⟩ := hbetter.mp hab
    have hyz : y ≤ z := not_lt.mp fun hzy => hcb (hbetter.mpr ⟨z, hz, y, hy, hzy⟩)
    exact hbetter.mpr ⟨x, hx, z, hz, hxy.trans_le hyz⟩

/-- Exact numbers are all admissible, and ranked by themselves. -/
theorem selects_exact : Selects (Point.isBelowInfinity (α := ℝ)) fun a b => decide (a < b) :=
  Selects.of_rank some (by simp) (fun _ => ⟨_, rfl⟩) fun _ _ => rfl

namespace Point

variable {centers : List (Point ℝ)}

/-- **The nearest center**: no center is nearer, and those before it are farther. -/
theorem nearestIndex_least (x : Point ℝ) (hcenters : centers ≠ []) :
    (∀ center ∈ centers,
        squaredDistance x (centers.getD (nearestIndex x centers) []) ≤ squaredDistance x center) ∧
      ∀ i < nearestIndex x centers,
        squaredDistance x (centers.getD (nearestIndex x centers) []) <
          squaredDistance x (centers.getD i []) := by
  have hlt := nearestIndex_lt x hcenters
  unfold nearestIndex nearest at hlt ⊢
  cases hfound : firstBest isBelowInfinity (fun a b => decide (a < b))
      (centers.map (squaredDistance x)) with
  | none =>
    obtain ⟨center, hcenter⟩ := List.exists_mem_of_ne_nil centers hcenters
    exact absurd hfound (firstBest_ne_none (List.mem_map_of_mem hcenter) rfl)
  | some found =>
    obtain ⟨index, key⟩ := found
    rw [hfound] at hlt
    obtain ⟨-, hleast, hfirst⟩ := selects_exact.of_firstBest hfound
    have hkey := getElem?_of_firstBest hfound
    rw [List.getElem?_map] at hkey
    obtain ⟨center, hcenter, rfl⟩ := Option.map_eq_some_iff.mp hkey
    simp only [Option.map_some, Option.getD_some, List.getD_eq_getElem?_getD, hcenter]
    refine ⟨fun other hother => ?_, fun i hi => ?_⟩
    · have hnot := hleast _ (List.mem_map_of_mem hother)
      exact not_lt.mp fun h => hnot (decide_eq_true h)
    · have hget : i < centers.length := hi.trans (List.getElem?_eq_some_iff.mp hcenter).1
      have hkeys : (centers.map (squaredDistance x))[i]? = some (squaredDistance x centers[i]) := by
        rw [List.getElem?_map, List.getElem?_eq_getElem hget, Option.map_some]
      rw [List.getElem?_eq_getElem hget, Option.getD_some]
      exact of_decide_eq_true (hfirst i hi _ hkeys rfl)

end Point

end Mixtures
