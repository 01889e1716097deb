import Mathlib.Algebra.BigOperators.Group.Finset.Sigma
import Mathlib.Algebra.Order.BigOperators.Group.Finset
import Mathlib.Data.Finset.Dedup

/-! # Packing — counting things that do not overlap

    Ranges of one width that lie below a bound and do not meet fit into the
    bound (`length_mul_le`), and a list without repetitions that enumerates the
    values `f a i` is as long as there are pairs (`length_eq_sum`).  Both are
    one injection between finite sets. -/

namespace Packing

variable {α : Type} [DecidableEq α]

/-- Ranges of width `w` at the starts of a list, pairwise apart and below `M`. -/
theorem length_mul_le {l : List α} (hl : l.Nodup) (start : α → Nat) {w M : Nat}
    (hM : ∀ a ∈ l, start a + w ≤ M)
    (hap : ∀ a ∈ l, ∀ b ∈ l, a ≠ b → start a + w ≤ start b ∨ start b + w ≤ start a) :
    l.length * w ≤ M := by
  have hcard : (l.toFinset ×ˢ Finset.range w).card ≤ (Finset.range M).card := by
    refine Finset.card_le_card_of_injOn (fun p => start p.1 + p.2) ?_ ?_
    · rintro ⟨a, i⟩ hp
      have hp' := Finset.mem_product.mp (Finset.mem_coe.mp hp)
      have ha := hM a (List.mem_toFinset.mp hp'.1)
      have hi := Finset.mem_range.mp hp'.2
      refine Finset.mem_coe.mpr (Finset.mem_range.mpr ?_)
      show start a + i < M
      omega
    · rintro ⟨a, i⟩ hp ⟨b, j⟩ hq heq
      have hp' := Finset.mem_product.mp (Finset.mem_coe.mp hp)
      have hq' := Finset.mem_product.mp (Finset.mem_coe.mp hq)
      have hi := Finset.mem_range.mp hp'.2
      have hj := Finset.mem_range.mp hq'.2
      have heq' : start a + i = start b + j := heq
      by_cases hab : a = b
      · subst hab
        have hij : i = j := by omega
        rw [hij]
      · -- two different ranges share no point
        have := hap a (List.mem_toFinset.mp hp'.1) b (List.mem_toFinset.mp hq'.1) hab
        simp only at hi hj
        omega
  rwa [Finset.card_product, Finset.card_range, Finset.card_range,
    List.toFinset_card_of_nodup hl] at hcard

/-- A list that enumerates the values `f a i`, `i ∈ used a`, each once. -/
theorem length_eq_sum {β : Type} [DecidableEq β] {l : List β} (hl : l.Nodup) {keys : List α}
    (used : α → Finset Nat) (f : α → Nat → β)
    (hmem : ∀ x, x ∈ l ↔ ∃ a ∈ keys, ∃ i ∈ used a, f a i = x)
    (hinj : ∀ a ∈ keys, ∀ i ∈ used a, ∀ b ∈ keys, ∀ j ∈ used b, f a i = f b j → a = b ∧ i = j) :
    l.length = ∑ a ∈ keys.toFinset, (used a).card := by
  have himg : l.toFinset = (keys.toFinset.sigma used).image (fun p => f p.1 p.2) := by
    ext x
    rw [List.mem_toFinset, hmem, Finset.mem_image]
    constructor
    · rintro ⟨a, ha, i, hi, rfl⟩
      exact ⟨⟨a, i⟩, Finset.mem_sigma.mpr ⟨List.mem_toFinset.mpr ha, hi⟩, rfl⟩
    · rintro ⟨⟨a, i⟩, hp, rfl⟩
      obtain ⟨ha, hi⟩ := Finset.mem_sigma.mp hp
      exact ⟨a, List.mem_toFinset.mp ha, i, hi, rfl⟩
  rw [← List.toFinset_card_of_nodup hl, himg, Finset.card_image_of_injOn, Finset.card_sigma]
  rintro ⟨a, i⟩ hp ⟨b, j⟩ hq heq
  obtain ⟨ha, hi⟩ := Finset.mem_sigma.mp (Finset.mem_coe.mp hp)
  obtain ⟨hb, hj⟩ := Finset.mem_sigma.mp (Finset.mem_coe.mp hq)
  obtain ⟨rfl, rfl⟩ := hinj a (List.mem_toFinset.mp ha) i hi b (List.mem_toFinset.mp hb) j hj heq
  rfl

end Packing
