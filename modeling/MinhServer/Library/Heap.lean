import Mathlib.Data.Finset.Card
import Mathlib.Tactic.Common

structure Heap where
  next : Nat
  live : Finset Nat
  below : ∀ block ∈ live, block < next

namespace Heap

def empty : Heap := ⟨0, ∅, by simp⟩

def malloc (h : Heap) : Nat × Heap :=
  (h.next, {
    next := h.next + 1
    live := insert h.next h.live
    below := by
      intro block hblock
      rcases Finset.mem_insert.mp hblock with rfl | hblock
      · exact Nat.lt_succ_self h.next
      · exact Nat.lt_succ_of_lt (h.below block hblock) })

def free (h : Heap) (block : Nat) : Option Heap :=
  if block ∈ h.live then
    some { h with
      live := h.live.erase block
      below := fun b hb => h.below b (Finset.mem_of_mem_erase hb) }
  else none

/-- The block moves. -/
def realloc (h : Heap) (block : Nat) : Option (Nat × Heap) := (h.free block).map malloc

/-- From `h` to `h'` no block of `h` was freed. The new blocks are `blocks`, which somebody holds,
and `n` that were left behind. -/
structure Holds (h : Heap) (blocks : Finset Nat) (n : Nat) (h' : Heap) : Prop where
  kept : h.live ⊆ h'.live
  held : blocks ⊆ h'.live
  new : Disjoint h.live blocks
  card : h'.live.card = h.live.card + blocks.card + n

namespace Holds
variable {h h' h'' : Heap} {blocks blocks' : Finset Nat} {n m block : Nat}

theorem refl (h : Heap) : h.Holds ∅ 0 h :=
  ⟨Finset.Subset.refl _, Finset.empty_subset _, Finset.disjoint_empty_right _, rfl⟩

theorem trans (hs : h.Holds blocks n h') (hs' : h'.Holds blocks' m h'') :
    h.Holds (blocks ∪ blocks') (n + m) h'' := by
  have hapart : Disjoint blocks blocks' := Finset.disjoint_of_subset_left hs.held hs'.new
  refine ⟨hs.kept.trans hs'.kept, ?_, ?_, ?_⟩
  · exact Finset.union_subset (hs.held.trans hs'.kept) hs'.held
  · exact Finset.disjoint_union_right.mpr
      ⟨hs.new, Finset.disjoint_of_subset_left hs.kept hs'.new⟩
  · rw [hs'.card, hs.card, Finset.card_union_of_disjoint hapart]
    omega

/-- What comes later leaves blocks behind, and holds none. -/
theorem later (hs : h.Holds blocks n h') (hs' : h'.Holds ∅ m h'') :
    h.Holds blocks (n + m) h'' := by
  have hall := hs.trans hs'
  rwa [Finset.union_empty] at hall

theorem malloc_notMem (hs : h.Holds blocks n h') : h'.malloc.1 ∉ blocks :=
  fun hmem => (h'.below _ (hs.held hmem)).false

theorem malloc (hs : h.Holds blocks n h') :
    h.Holds (insert h'.malloc.1 blocks) n h'.malloc.2 := by
  have hfresh : h'.next ∉ h'.live := fun hmem => (h'.below _ hmem).false
  have hnew : h'.next ∉ blocks := hs.malloc_notMem
  refine ⟨?_, ?_, ?_, ?_⟩
  · exact hs.kept.trans (Finset.subset_insert _ _)
  · exact Finset.insert_subset_insert _ hs.held
  · exact Finset.disjoint_insert_right.mpr ⟨fun hmem => hfresh (hs.kept hmem), hs.new⟩
  · show (insert h'.next h'.live).card = h.live.card + (insert h'.next blocks).card + n
    rw [Finset.card_insert_of_notMem hfresh, Finset.card_insert_of_notMem hnew, hs.card]
    omega

/-- A block that is held can be freed. -/
theorem free (hs : h.Holds blocks n h') (hblock : block ∈ blocks) :
    ∃ h'', h'.free block = some h'' ∧ h.Holds (blocks.erase block) n h'' := by
  refine ⟨_, if_pos (hs.held hblock), ?_, ?_, ?_, ?_⟩
  · intro b hb
    refine Finset.mem_erase.mpr ⟨?_, hs.kept hb⟩
    rintro rfl
    exact Finset.disjoint_left.mp hs.new hb hblock
  · exact Finset.erase_subset_erase _ hs.held
  · exact Finset.disjoint_of_subset_right (Finset.erase_subset _ _) hs.new
  · have hcard := hs.card
    have hpos := Finset.card_pos.mpr ⟨block, hblock⟩
    show (h'.live.erase block).card = _
    rw [Finset.card_erase_of_mem (hs.held hblock), Finset.card_erase_of_mem hblock]
    omega

theorem free_older (hs : h.Holds {block} n h') (hs' : h'.Holds blocks m h'') :
    ∃ freed, h''.free block = some freed ∧ h.Holds blocks (n + m) freed := by
  have hlive : block ∈ h'.live := hs.held (Finset.mem_singleton_self block)
  have hother : block ∉ blocks := Finset.disjoint_left.mp hs'.new hlive
  have hall := hs.trans hs'
  rw [← Finset.insert_eq] at hall
  obtain ⟨freed, hfree, hrest⟩ := hall.free (Finset.mem_insert_self block blocks)
  rw [Finset.erase_insert hother] at hrest
  exact ⟨freed, hfree, hrest⟩

theorem realloc (hs : h.Holds blocks n h') (hblock : block ∈ blocks) :
    ∃ block' h'', h'.realloc block = some (block', h'') ∧
      h.Holds (insert block' (blocks.erase block)) n h'' := by
  obtain ⟨freed, hfree, hrest⟩ := hs.free hblock
  exact ⟨_, _, by rw [Heap.realloc, hfree, Option.map_some], hrest.malloc⟩

/-- Nobody holds the block any more. -/
theorem leave (hs : h.Holds blocks n h') (hblock : block ∈ blocks) :
    h.Holds (blocks.erase block) (n + 1) h' := by
  refine ⟨hs.kept, (Finset.erase_subset _ _).trans hs.held, ?_, ?_⟩
  · exact Finset.disjoint_of_subset_right (Finset.erase_subset _ _) hs.new
  · have hcard := hs.card
    have hpos := Finset.card_pos.mpr ⟨block, hblock⟩
    rw [Finset.card_erase_of_mem hblock]
    omega

theorem live_eq (hs : h.Holds ∅ 0 h') : h'.live = h.live := by
  have hcard : h'.live.card = h.live.card := hs.card
  exact (Finset.eq_of_subset_of_card_le hs.kept hcard.le).symm

end Holds
end Heap
