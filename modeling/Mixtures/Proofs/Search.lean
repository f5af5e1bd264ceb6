import Mixtures.Point

/-!
# What a search finds

Whatever is admissible and whatever is better, the first best key of a list is one of its keys, at
the position that is reported. So a search over a list with entries names one of its positions,
also when it falls back to the first.
-/

namespace Mixtures

/-- What stands at a position of a list is one of its entries. -/
theorem getD_mem {β : Type} {xs : List β} {i : Nat} (h : i < xs.length) (fallback : β) :
    xs.getD i fallback ∈ xs := by
  rw [List.getD_eq_getElem?_getD, List.getElem?_eq_getElem h]
  exact List.getElem_mem h

variable {κ : Type} {admissible : κ → Bool} {better : κ → κ → Bool}

/-- What is kept in the end was kept from the start or is one of the entries. -/
theorem eq_or_mem_of_foldl_keepBetter {entries : List (κ × Nat)} {best : Option (Nat × κ)}
    {index : Nat} {key : κ}
    (h : entries.foldl (keepBetter admissible better) best = some (index, key)) :
    best = some (index, key) ∨ (key, index) ∈ entries := by
  induction entries generalizing best with
  | nil => exact .inl h
  | cons entry entries ih =>
    rcases ih h with hkept | hmem
    · have hstep : keepBetter admissible better best entry = best ∨
          keepBetter admissible better best entry = some (entry.2, entry.1) := by
        unfold keepBetter
        cases best <;> dsimp only <;> split <;> simp
      rcases hstep with hbest | hentry
      · exact .inl (hbest ▸ hkept)
      · rw [hentry] at hkept
        cases hkept
        exact .inr List.mem_cons_self
    · exact .inr (List.mem_cons_of_mem _ hmem)

/-- What is found is an entry of the list. -/
theorem getElem?_of_firstBest {keys : List κ} {index : Nat} {key : κ}
    (h : firstBest admissible better keys = some (index, key)) : keys[index]? = some key := by
  rcases eq_or_mem_of_foldl_keepBetter h with hnone | hmem
  · cases hnone
  · exact List.mk_mem_zipIdx_iff_getElem?.mp hmem

/-- What is found has every property that admissible keys and better keys have. -/
theorem of_firstBest {P : κ → Prop} (hadmissible : ∀ key, admissible key → P key)
    (hbetter : ∀ key kept, better key kept → P key) {keys : List κ} {index : Nat} {key : κ}
    (h : firstBest admissible better keys = some (index, key)) : P key := by
  have hkept : ∀ found ∈ firstBest admissible better keys, P found.2 := by
    refine List.foldlRecOn (motive := fun best : Option (Nat × κ) => ∀ found ∈ best, P found.2)
      keys.zipIdx _ nofun ?_
    intro best hbest entry _
    cases best with
    | none =>
      rw [keepBetter]
      split
      next hentry =>
        rintro found ⟨⟩
        exact hadmissible _ hentry
      next => nofun
    | some kept =>
      rw [keepBetter]
      split
      next hentry =>
        rintro found ⟨⟩
        exact hbetter _ _ hentry
      next => exact hbest
  exact hkept (index, key) h

/-- With an admissible key, a search finds something. -/
theorem firstBest_ne_none {keys : List κ} {key : κ} (hmem : key ∈ keys) (h : admissible key) :
    firstBest admissible better keys ≠ none := by
  rw [Option.ne_none_iff_isSome]
  -- once something is kept, something is kept
  have hstays : ∀ (entries : List (κ × Nat)) (best : Option (Nat × κ)), best.isSome →
      (entries.foldl (keepBetter admissible better) best).isSome := by
    intro entries best hbest
    refine List.foldlRecOn (motive := fun best : Option (Nat × κ) => best.isSome = true)
      entries _ hbest ?_
    intro best hbest entry _
    obtain ⟨kept, rfl⟩ := Option.isSome_iff_exists.mp hbest
    rw [keepBetter]
    split <;> rfl
  obtain ⟨i, hi⟩ := List.mem_iff_getElem?.mp hmem
  obtain ⟨before, after, hsplit⟩ :=
    List.append_of_mem (List.mk_mem_zipIdx_iff_getElem?.mpr hi)
  rw [firstBest, hsplit, List.foldl_append, List.foldl_cons]
  apply hstays
  cases before.foldl (keepBetter admissible better) none with
  | none => rw [keepBetter, if_pos h]; rfl
  | some kept =>
    rw [keepBetter]
    split <;> rfl

/-- A search names a position of the list. -/
theorem firstBest_lt {keys : List κ} (hkeys : keys ≠ []) :
    ((firstBest admissible better keys).map (·.1)).getD 0 < keys.length := by
  cases h : firstBest admissible better keys with
  | none => exact List.length_pos_iff.mpr hkeys
  | some found => exact (List.getElem?_eq_some_iff.mp (getElem?_of_firstBest h)).1

theorem Point.nearestIndex_lt {α : Type} [Scalar α] (x : Point α) {centers : List (Point α)}
    (hcenters : centers ≠ []) : Point.nearestIndex x centers < centers.length := by
  have hkeys : centers.map (Point.squaredDistance x) ≠ [] := by simpa using hcenters
  have hlen : (centers.map (Point.squaredDistance x)).length = centers.length := List.length_map _
  rw [← hlen]
  exact firstBest_lt hkeys

end Mixtures
