import Mathlib.Data.List.ReduceOption
import Mathlib.Data.Set.BooleanAlgebra
import Mathlib.Order.CompletePartialOrder
import Mathlib.Order.Interval.Set.Basic
import UsbSpdt.Library.Service

/-!
# Bump allocation

Memory that is handed out from one end. A request is for the block at the present end, and the end
moves to behind the block, rounded up; a request that would move it beyond the top is refused.
-/

namespace BumpAllocator

structure Block where
  base : Nat
  size : Nat

def Block.cells (b : Block) : Set Nat := Set.Ico b.base (b.base + b.size)

theorem Block.disjoint_of_le {b c : Block} (h : b.base + b.size ≤ c.base) :
    Disjoint b.cells c.cells := by
  rw [Set.disjoint_left]
  intro a hb hc
  exact absurd (Nat.lt_of_lt_of_le hb.2 (Nat.le_trans h hc.1)) (Nat.lt_irrefl a)

variable (round : Nat → Nat) (top : Nat)

def request (present : Nat) (size : Nat) : Option Block × Nat :=
  if round (present + size) ≤ top then (some ⟨present, size⟩, round (present + size))
  else (none, present)

theorem request_le {present : Nat} (h : present ≤ top) (size : Nat) :
    (request round top present size).2 ≤ top := by
  rw [request]
  split
  case isTrue hfit => exact hfit
  case isFalse => exact h

/-- The blocks that a sequence of requests is granted, in order. -/
def blocks (present : Nat) (sizes : List Nat) : List Block :=
  (Service.run (request round top) present sizes).1.reduceOption

theorem blocks_cons_granted {present size : Nat} (h : round (present + size) ≤ top)
    (sizes : List Nat) : blocks round top present (size :: sizes) =
      ⟨present, size⟩ :: blocks round top (round (present + size)) sizes := by
  rw [blocks, Service.run_cons, request, if_pos h, List.reduceOption_cons_of_some]
  rfl

theorem blocks_cons_refused {present size : Nat} (h : ¬ round (present + size) ≤ top)
    (sizes : List Nat) :
    blocks round top present (size :: sizes) = blocks round top present sizes := by
  rw [blocks, Service.run_cons, request, if_neg h, List.reduceOption_cons_of_none]
  rfl

variable {round top}

/-- A block is granted to the first request, or behind it, or the first request is refused. -/
theorem mem_blocks_cons {present size : Nat} {sizes : List Nat} {b : Block}
    (hb : b ∈ blocks round top present (size :: sizes)) :
    (round (present + size) ≤ top ∧
      (b = ⟨present, size⟩ ∨ b ∈ blocks round top (round (present + size)) sizes)) ∨
      b ∈ blocks round top present sizes := by
  by_cases hfit : round (present + size) ≤ top
  · rw [blocks_cons_granted round top hfit] at hb
    exact Or.inl ⟨hfit, List.mem_cons.mp hb⟩
  · rw [blocks_cons_refused round top hfit] at hb
    exact Or.inr hb

/-- Every block lies between the present end and the top. -/
theorem blocks_within (hround : ∀ n, n ≤ round n) {present : Nat} {sizes : List Nat} {b : Block}
    (hb : b ∈ blocks round top present sizes) : present ≤ b.base ∧ b.base + b.size ≤ top := by
  induction sizes generalizing present with
  | nil => cases hb
  | cons size sizes ih =>
    have hend := hround (present + size)
    rcases mem_blocks_cons hb with ⟨hfit, rfl | hb⟩ | hb
    · exact ⟨Nat.le_refl _, Nat.le_trans hend hfit⟩
    · obtain ⟨hlow, hhigh⟩ := ih hb
      exact ⟨by omega, hhigh⟩
    · exact ih hb

theorem blocks_disjoint (hround : ∀ n, n ≤ round n) (present : Nat) (sizes : List Nat) :
    (blocks round top present sizes).Pairwise fun b c => Disjoint b.cells c.cells := by
  induction sizes generalizing present with
  | nil => exact List.Pairwise.nil
  | cons size sizes ih =>
    by_cases hfit : round (present + size) ≤ top
    · rw [blocks_cons_granted round top hfit]
      refine List.Pairwise.cons (fun c hc => ?_) (ih _)
      have hlow := (blocks_within hround hc).1
      exact Block.disjoint_of_le (Nat.le_trans (hround _) hlow)
    · rw [blocks_cons_refused round top hfit]
      exact ih _

/-- From a rounded end on every base is rounded. -/
theorem base_rounded {present : Nat} (hpresent : ∃ n, present = round n) {sizes : List Nat}
    {b : Block} (hb : b ∈ blocks round top present sizes) : ∃ n, b.base = round n := by
  induction sizes generalizing present with
  | nil => cases hb
  | cons size sizes ih =>
    rcases mem_blocks_cons hb with ⟨-, rfl | hb⟩ | hb
    · exact hpresent
    · exact ih ⟨_, rfl⟩ hb
    · exact ih hpresent hb

/-- Wherever the memory begins, every base behind the first is rounded. -/
theorem base_rounded_of_tail (present : Nat) (sizes : List Nat) {b : Block}
    (hb : b ∈ (blocks round top present sizes).tail) : ∃ n, b.base = round n := by
  induction sizes with
  | nil => cases hb
  | cons size sizes ih =>
    by_cases hfit : round (present + size) ≤ top
    · rw [blocks_cons_granted round top hfit] at hb
      exact base_rounded ⟨_, rfl⟩ hb
    · rw [blocks_cons_refused round top hfit] at hb
      exact ih hb

end BumpAllocator
