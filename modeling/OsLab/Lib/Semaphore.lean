import Mathlib.Data.Finset.Max
import Mathlib.Data.Fintype.Card
import Mathlib.Logic.Function.Basic

/-!
# Binary semaphores and ordered acquisition

Two facts about processes that guard shared resources with binary semaphores, over
arbitrary types of processes and resources.

* **`Exclusive`** ties the semaphore counts to who holds what: a count is `1` exactly when
  nobody holds the resource and `0` exactly when one process does. Acquiring a resource
  whose count is not `0` keeps it (`Exclusive.acquire`), and so does a release by the
  holder (`Exclusive.release`).
* **`exists_unblocked_holder`** is the classical argument that acquiring resources in a
  fixed order excludes deadlock: among the blocked processes, the one whose awaited
  resource has the highest rank waits for a holder that is not blocked.
-/

namespace Semaphore

variable {ι ρ : Type*}

/-! ## Counts and holders

A binary semaphore for each resource, with the processes that hold it. `Exclusive` is the whole of
what is kept between the two, and acquiring and releasing keep it. -/

/-- Every count is `1` with no holder or `0` with exactly one. -/
def Exclusive (count : ρ → Nat) (holds : ι → ρ → Prop) : Prop :=
  ∀ r, (count r = 1 ∧ ∀ i, ¬ holds i r) ∨ (count r = 0 ∧ ∃ i, holds i r ∧ ∀ j, holds j r → j = i)

/-- Who holds it has brought its count to `0`. -/
theorem Exclusive.count_eq_zero_of_holds {count : ρ → Nat} {holds : ι → ρ → Prop}
    (h : Exclusive count holds) {i : ι} {r : ρ} (hi : holds i r) : count r = 0 := by
  rcases h r with ⟨-, hnone⟩ | ⟨hc, -⟩
  · exact absurd hi (hnone i)
  · exact hc

theorem Exclusive.holder_unique {count : ρ → Nat} {holds : ι → ρ → Prop}
    (h : Exclusive count holds) {i j : ι} {r : ρ} (hi : holds i r) (hj : holds j r) : i = j := by
  rcases h r with ⟨-, hnone⟩ | ⟨-, k, -, huniq⟩
  · exact absurd hi (hnone i)
  · rw [huniq i hi, huniq j hj]

/-- The count is `1` exactly while nobody holds it. -/
theorem Exclusive.count_eq_one_iff {count : ρ → Nat} {holds : ι → ρ → Prop}
    (h : Exclusive count holds) (r : ρ) : count r ≤ 1 ∧ (count r = 1 ↔ ∀ i, ¬ holds i r) := by
  rcases h r with ⟨hc, hnone⟩ | ⟨hc, i, hi, -⟩
  · exact ⟨by omega, fun _ => hnone, fun _ => hc⟩
  · exact ⟨by omega, fun hone => absurd hone (by omega), fun hnone => absurd hi (hnone i)⟩

/-- Only the holders matter, not how they are described. -/
theorem Exclusive.congr {count : ρ → Nat} {holds holds' : ι → ρ → Prop}
    (h : Exclusive count holds) (heq : ∀ i r, holds' i r ↔ holds i r) :
    Exclusive count holds' := by
  have hfun : holds' = holds := by
    funext i r
    exact propext (heq i r)
  rwa [hfun]

/-- **Acquire.** Process `who` takes `r`, whose count was not `0`. -/
theorem Exclusive.acquire [DecidableEq ρ] {count : ρ → Nat} {holds holds' : ι → ρ → Prop}
    (h : Exclusive count holds) (who : ι) {r : ρ} (hfree : count r ≠ 0)
    (hholds : ∀ i q, holds' i q ↔ holds i q ∨ (i = who ∧ q = r)) :
    Exclusive (Function.update count r (count r - 1)) holds' := by
  intro q
  by_cases hq : q = r
  · subst hq
    rcases h q with ⟨hc, hnone⟩ | ⟨hc, -⟩
    · refine Or.inr ⟨by simp [hc], who, (hholds who q).mpr (Or.inr ⟨rfl, rfl⟩), ?_⟩
      intro j hj
      rcases (hholds j q).mp hj with hold | ⟨rfl, -⟩
      · exact absurd hold (hnone j)
      · rfl
    · exact absurd hc hfree
  · simpa [Function.update_of_ne hq, hholds, hq] using h q

/-- **Release.** The holder `who` of `r` gives it back. -/
theorem Exclusive.release [DecidableEq ρ] {count : ρ → Nat} {holds holds' : ι → ρ → Prop}
    (h : Exclusive count holds) {who : ι} {r : ρ} (hwho : holds who r)
    (hholds : ∀ i q, holds' i q ↔ holds i q ∧ ¬ (i = who ∧ q = r)) :
    Exclusive (Function.update count r (count r + 1)) holds' := by
  intro q
  by_cases hq : q = r
  · subst hq
    refine Or.inl ⟨by simp [h.count_eq_zero_of_holds hwho], fun i hi => ?_⟩
    obtain ⟨hold, hne⟩ := (hholds i q).mp hi
    exact hne ⟨h.holder_unique hold hwho, rfl⟩
  · simpa [Function.update_of_ne hq, hholds, hq] using h q

/-- Processes that hold two resources each are at most half as many as the resources. -/
theorem Exclusive.two_mul_card_le [Fintype ρ] [DecidableEq ρ] {count : ρ → Nat}
    {holds : ι → ρ → Prop} (h : Exclusive count holds) {S : Finset ι} {a b : ι → ρ}
    (ha : ∀ i ∈ S, holds i (a i)) (hb : ∀ i ∈ S, holds i (b i)) (hne : ∀ i ∈ S, a i ≠ b i) :
    2 * S.card ≤ Fintype.card ρ := by
  have hinj (f : ι → ρ) (hf : ∀ i ∈ S, holds i (f i)) : (S.image f).card = S.card :=
    Finset.card_image_of_injOn fun i hi j hj heq =>
      h.holder_unique (hf i hi) (show holds j (f i) from heq ▸ hf j hj)
  have hdisjoint : Disjoint (S.image a) (S.image b) := by
    refine Finset.disjoint_left.mpr fun r hra hrb => ?_
    obtain ⟨i, hi, rfl⟩ := Finset.mem_image.mp hra
    obtain ⟨j, hj, heq⟩ := Finset.mem_image.mp hrb
    obtain rfl := h.holder_unique (ha i hi) (show holds j (a i) from heq ▸ hb j hj)
    exact hne i hi heq.symm
  have hunion := Finset.card_union_of_disjoint hdisjoint
  have hle := Finset.card_le_univ (S.image a ∪ S.image b)
  rw [hinj a ha, hinj b hb] at hunion
  omega

/-! ## Ordered acquisition

Processes that acquire their resources in one order do not wait for each other in a circle: the
holder of the greatest awaited resource is not blocked. -/

/-- **Ordered acquisition.** `waits i = some r`: process `i` is blocked on `r`. If every
awaited resource has a holder and a blocked holder waits for something ranked above
everything it holds, then a blocked process exists only together with a holder that is not
blocked. -/
theorem exists_unblocked_holder [Fintype ι] (waits : ι → Option ρ) (holds : ι → ρ → Prop)
    (rank : ρ → Nat)
    (hheld : ∀ i r, waits i = some r → ∃ j, holds j r)
    (horder : ∀ j r r', holds j r → waits j = some r' → rank r < rank r')
    {i : ι} {r : ρ} (hi : waits i = some r) :
    ∃ j r', holds j r' ∧ waits j = none := by
  by_contra hall
  push Not at hall
  -- the rank of the awaited resource, `0` for a process that is not blocked
  let height : ι → Nat := fun k => (waits k).elim 0 fun r => rank r + 1
  obtain ⟨top, -, htop⟩ := Finset.exists_max_image Finset.univ height ⟨i, Finset.mem_univ i⟩
  have hpos : 0 < height top := by
    have hle := htop i (Finset.mem_univ i)
    simp only [height, hi, Option.elim_some] at hle ⊢
    omega
  cases htopw : waits top with
  | none => simp [height, htopw] at hpos
  | some rt =>
    obtain ⟨j, hj⟩ := hheld top rt htopw
    cases hjw : waits j with
    | none => exact hall j rt hj hjw
    | some rj =>
      have hlt := horder j rt rj hj hjw
      have hle := htop j (Finset.mem_univ j)
      simp only [height, htopw, hjw, Option.elim_some] at hle
      omega

end Semaphore
