import Mathlib.Data.Finset.Card

/-!
# Ownership of blocks

Slots that each may own a block, and a set of blocks marked used. The slots and the blocks
are of any types; `region` are the blocks that may be owned at all.

* **`Sound`**: no block is owned twice, owned blocks lie in the region and are marked used.
  Marked blocks without an owner are allowed (they are lost, not reused).
* **`Exact`**: moreover every marked block of the region has an owner.
* the rules `assign` and `release` for both, from what a step does to the owners and marks.
* **`Lost`**: a marked block without an owner. It stays lost, and a block that a slot owned is
  lost when another is assigned to the slot (`Lost.of_assign`). With finitely many slots and
  blocks nothing is lost exactly if there are as many owning slots as marked blocks
  (`Sound.exact_iff_card`).
-/

namespace Ownership

variable {α β : Type*}

structure Sound (owner : α → Option β) (used region : β → Prop) : Prop where
  injective : ∀ ⦃a a' b⦄, owner a = some b → owner a' = some b → a = a'
  inRegion : ∀ ⦃a b⦄, owner a = some b → region b
  marked : ∀ ⦃a b⦄, owner a = some b → used b

structure Exact (owner : α → Option β) (used region : β → Prop) : Prop
    extends Sound owner used region where
  owned : ∀ ⦃b⦄, region b → used b → ∃ a, owner a = some b

variable {owner owner' : α → Option β} {used used' region : β → Prop}

/-- The same owners, and no mark taken away. -/
theorem Sound.mono (h : Sound owner used region) (howner : ∀ a, owner' a = owner a)
    (hused : ∀ b, used b → used' b) : Sound owner' used' region where
  injective a a' _ ha ha' := h.injective (howner a ▸ ha) (howner a' ▸ ha')
  inRegion a _ ha := h.inRegion (howner a ▸ ha)
  marked a _ ha := hused _ (h.marked (howner a ▸ ha))

/-- The same owners and the same marks. -/
theorem Exact.congr (h : Exact owner used region) (howner : ∀ a, owner' a = owner a)
    (hused : ∀ b, used' b ↔ used b) : Exact owner' used' region where
  toSound := h.toSound.mono howner fun b => (hused b).mpr
  owned b hb hub := by
    obtain ⟨a, ha⟩ := h.owned hb ((hused b).mp hub)
    exact ⟨a, (howner a).trans ha⟩

/-- **Assign** an unmarked block of the region to a slot, whatever the slot owned. -/
theorem Sound.assign (h : Sound owner used region) {a : α} {b : β} (hfresh : ¬ used b)
    (hregion : region b) (ha : owner' a = some b) (hothers : ∀ a', a' ≠ a → owner' a' = owner a')
    (hused : ∀ c, used' c ↔ c = b ∨ used c) : Sound owner' used' region := by
  -- an owner is the new one or an old one
  have hcases : ∀ a' c, owner' a' = some c → a' = a ∧ c = b ∨ owner a' = some c := by
    intro a' c hc
    by_cases haa : a' = a
    · subst haa
      rw [ha] at hc
      exact Or.inl ⟨rfl, (Option.some.inj hc).symm⟩
    · exact Or.inr (hothers a' haa ▸ hc)
  refine ⟨fun a₁ a₂ c h₁ h₂ => ?_, fun a' c hc => ?_, fun a' c hc => ?_⟩
  · rcases hcases a₁ c h₁ with ⟨rfl, hcb⟩ | hold₁ <;> rcases hcases a₂ c h₂ with ⟨rfl, hcb'⟩ | hold₂
    · rfl
    · exact absurd (hcb ▸ h.marked hold₂) hfresh
    · exact absurd (hcb' ▸ h.marked hold₁) hfresh
    · exact h.injective hold₁ hold₂
  · rcases hcases a' c hc with ⟨-, rfl⟩ | hold
    · exact hregion
    · exact h.inRegion hold
  · rcases hcases a' c hc with ⟨-, rfl⟩ | hold
    · exact (hused _).mpr (Or.inl rfl)
    · exact (hused c).mpr (Or.inr (h.marked hold))

/-- Assigning to a slot that owned nothing loses nothing. -/
theorem Exact.assign (h : Exact owner used region) {a : α} {b : β} (hempty : owner a = none)
    (hfresh : ¬ used b) (hregion : region b) (ha : owner' a = some b)
    (hothers : ∀ a', a' ≠ a → owner' a' = owner a') (hused : ∀ c, used' c ↔ c = b ∨ used c) :
    Exact owner' used' region where
  toSound := h.toSound.assign hfresh hregion ha hothers hused
  owned c hc huc := by
    rcases (hused c).mp huc with rfl | huc
    · exact ⟨a, ha⟩
    · obtain ⟨a', ha'⟩ := h.owned hc huc
      have hne : a' ≠ a := by
        rintro rfl
        rw [hempty] at ha'
        cases ha'
      exact ⟨a', (hothers a' hne).trans ha'⟩

/-- **Release** all slots of a group, and the marks of the blocks they owned. -/
theorem Sound.release (h : Sound owner used region) {group : α → Prop}
    (hgroup : ∀ a, group a → owner' a = none) (hothers : ∀ a, ¬ group a → owner' a = owner a)
    (hused : ∀ c, used c → (¬ ∃ a, group a ∧ owner a = some c) → used' c) :
    Sound owner' used' region := by
  have hold : ∀ a c, owner' a = some c → ¬ group a ∧ owner a = some c := by
    intro a c hc
    have hnot : ¬ group a := fun hg => by
      rw [hgroup a hg] at hc
      cases hc
    exact ⟨hnot, hothers a hnot ▸ hc⟩
  refine ⟨fun a a' c hc hc' => h.injective (hold a c hc).2 (hold a' c hc').2,
    fun a c hc => h.inRegion (hold a c hc).2, fun a c hc => ?_⟩
  obtain ⟨hnot, hc⟩ := hold a c hc
  refine hused c (h.marked hc) fun ⟨a', hg, ha'⟩ => ?_
  exact hnot (h.injective ha' hc ▸ hg)

/-- Where a whole group goes with its marks, nothing is lost. -/
theorem Exact.release (h : Exact owner used region) {group : α → Prop}
    (hgroup : ∀ a, group a → owner' a = none) (hothers : ∀ a, ¬ group a → owner' a = owner a)
    (hused : ∀ c, region c → (used' c ↔ used c ∧ ¬ ∃ a, group a ∧ owner a = some c)) :
    Exact owner' used' region where
  toSound := by
    have hsound : Sound owner' (fun c => region c → used' c) region :=
      h.toSound.release hgroup hothers fun c huc hnot hc => (hused c hc).mpr ⟨huc, hnot⟩
    exact ⟨hsound.injective, hsound.inRegion,
      fun a c hc => hsound.marked hc (hsound.inRegion hc)⟩
  owned c hc huc := by
    obtain ⟨huc, hnot⟩ := (hused c hc).mp huc
    obtain ⟨a, ha⟩ := h.owned hc huc
    have hng : ¬ group a := fun hg => hnot ⟨a, hg, ha⟩
    exact ⟨a, (hothers a hng).trans ha⟩

/-! ## Lost blocks

A block that is marked and has no owner can never be assigned, since only what is unmarked is. So
the losses of a run add up, and it is enough to find one. -/

/-- A marked block of the region without an owner. -/
structure Lost (owner : α → Option β) (used region : β → Prop) (b : β) : Prop where
  inRegion : region b
  marked : used b
  unowned : ∀ a, owner a ≠ some b

/-- Where every marked block has an owner, none is lost. -/
theorem Exact.not_lost (h : Exact owner used region) (b : β) : ¬ Lost owner used region b := by
  intro hlost
  obtain ⟨a, ha⟩ := h.owned hlost.inRegion hlost.marked
  exact hlost.unowned a ha

/-- The same owners, and the mark still there. -/
theorem Lost.mono {b : β} (h : Lost owner used region b) (howner : ∀ a, owner' a = owner a)
    (hused : used b → used' b) : Lost owner' used' region b where
  inRegion := h.inRegion
  marked := hused h.marked
  unowned a := howner a ▸ h.unowned a

/-- Nothing that is marked is assigned, so a lost block is not found again. -/
theorem Lost.assign {a : α} {b c : β} (h : Lost owner used region c) (hfresh : ¬ used b)
    (ha : owner' a = some b) (hothers : ∀ a', a' ≠ a → owner' a' = owner a')
    (hused : ∀ c, used' c ↔ c = b ∨ used c) : Lost owner' used' region c where
  inRegion := h.inRegion
  marked := (hused c).mpr (Or.inr h.marked)
  unowned a' hc := by
    by_cases haa : a' = a
    · rw [haa, ha] at hc
      exact hfresh (Option.some.inj hc ▸ h.marked)
    · exact h.unowned a' (hothers a' haa ▸ hc)

/-- **Assigned over**: what the slot owned is lost. -/
theorem Lost.of_assign (h : Sound owner used region) {a : α} {b c : β} (hold : owner a = some c)
    (hfresh : ¬ used b) (ha : owner' a = some b) (hothers : ∀ a', a' ≠ a → owner' a' = owner a')
    (hused : ∀ c, used' c ↔ c = b ∨ used c) : Lost owner' used' region c where
  inRegion := h.inRegion hold
  marked := (hused c).mpr (Or.inr (h.marked hold))
  unowned a' hc := by
    by_cases haa : a' = a
    · rw [haa, ha] at hc
      exact hfresh (Option.some.inj hc ▸ h.marked hold)
    · exact haa (h.injective (hothers a' haa ▸ hc) hold)

/-- Only the marks of owned blocks are taken away. -/
theorem Lost.release {b : β} (h : Lost owner used region b) {group : α → Prop}
    (hgroup : ∀ a, group a → owner' a = none) (hothers : ∀ a, ¬ group a → owner' a = owner a)
    (hused : ∀ c, used' c ↔ used c ∧ ¬ ∃ a, group a ∧ owner a = some c) :
    Lost owner' used' region b where
  inRegion := h.inRegion
  marked := (hused b).mpr ⟨h.marked, fun ⟨a, _, ha⟩ => h.unowned a ha⟩
  unowned a hc := by
    by_cases hg : group a
    · rw [hgroup a hg] at hc
      cases hc
    · exact h.unowned a (hothers a hg ▸ hc)

/-- **Counting.** The slots own different blocks, so there are as many of them as marked blocks
exactly if every marked block has an owner. -/
theorem Sound.exact_iff_card (h : Sound owner used region) {slots : Finset α} {blocks : Finset β}
    (hslots : ∀ a, a ∈ slots ↔ owner a ≠ none) (hblocks : ∀ b, b ∈ blocks ↔ region b ∧ used b) :
    Exact owner used region ↔ blocks.card = slots.card := by
  classical
  -- slots and marked blocks are compared as sets of blocks
  have hinjective : Set.InjOn owner slots := by
    intro a ha a' _ heq
    obtain ⟨b, hb⟩ := Option.ne_none_iff_exists'.mp ((hslots a).mp ha)
    exact h.injective hb (heq ▸ hb)
  have hsubset : slots.image owner ⊆ blocks.image some := by
    intro o ho
    obtain ⟨a, ha, rfl⟩ := Finset.mem_image.mp ho
    obtain ⟨b, hb⟩ := Option.ne_none_iff_exists'.mp ((hslots a).mp ha)
    exact Finset.mem_image.mpr ⟨b, (hblocks b).mpr ⟨h.inRegion hb, h.marked hb⟩, hb.symm⟩
  have hslotsCard : (slots.image owner).card = slots.card := Finset.card_image_of_injOn hinjective
  have hblocksCard : (blocks.image some).card = blocks.card :=
    Finset.card_image_of_injective blocks (Option.some_injective β)
  rw [← hslotsCard, ← hblocksCard]
  constructor
  · intro hexact
    refine congrArg Finset.card (hsubset.antisymm' fun o ho => ?_)
    obtain ⟨b, hb, rfl⟩ := Finset.mem_image.mp ho
    obtain ⟨hregion, hused⟩ := (hblocks b).mp hb
    obtain ⟨a, ha⟩ := hexact.owned hregion hused
    exact Finset.mem_image.mpr ⟨a, (hslots a).mpr (by rw [ha]; exact Option.some_ne_none b), ha⟩
  · intro hcard
    have hsame := Finset.eq_of_subset_of_card_le hsubset hcard.le
    refine ⟨h, fun b hregion hused => ?_⟩
    have hmem : some b ∈ slots.image owner := by
      rw [hsame]
      exact Finset.mem_image_of_mem some ((hblocks b).mpr ⟨hregion, hused⟩)
    obtain ⟨a, -, ha⟩ := Finset.mem_image.mp hmem
    exact ⟨a, ha⟩

end Ownership
