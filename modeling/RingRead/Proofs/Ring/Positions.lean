import Mathlib.Data.Nat.ModEq

/-!
# Ring positions

Positions are 32-bit numbers that run on and wrap. In a queue whose depth is a power of two,
masking a position gives its remainder (`toNat_slot`), the wrap at `2 ^ 32` included, so any
window of positions that is no longer than the queue has a slot for each of them
(`slot_inj`).
-/

namespace RingRead.Position

variable {n : UInt32}

theorem min_zero (n : UInt32) : min n 0 = 0 :=
  UInt32.toNat_inj.mp ((UInt32.toNat_min n 0).trans (Nat.min_zero _))

theorem min_eq_left {a b : UInt32} (h : a.toNat ≤ b.toNat) : min a b = a :=
  UInt32.toNat_inj.mp ((UInt32.toNat_min a b).trans (Nat.min_eq_left h))

theorem add_ofNat_zero (p : UInt32) : p + UInt32.ofNat 0 = p := UInt32.add_zero p

/-- Counting from the next position on is counting one further from this one. -/
theorem succ_add_ofNat (p : UInt32) (i : Nat) :
    p + 1 + UInt32.ofNat i = p + UInt32.ofNat (i + 1) := by
  rw [UInt32.ofNat_add, UInt32.add_assoc, UInt32.add_comm 1]
  rfl

/-- A depth whose mask picks out the low bits of a position: a power of two. The kernel's
own queues have such depths. -/
def IsDepth (n : UInt32) : Prop := ∃ k, n.toNat = 2 ^ k

theorem IsDepth.pos (h : IsDepth n) : 0 < n.toNat := by
  obtain ⟨k, hk⟩ := h
  exact hk ▸ Nat.two_pow_pos k

/-- The depth divides the number at which positions wrap. This is why a wrap is not seen in
the slots. -/
theorem IsDepth.dvd (h : IsDepth n) : n.toNat ∣ 2 ^ 32 := by
  obtain ⟨k, hk⟩ := h
  have hlt : 2 ^ k < 2 ^ 32 := hk ▸ n.toNat_lt
  rw [hk]
  exact Nat.pow_dvd_pow 2 (Nat.le_of_lt ((Nat.pow_lt_pow_iff_right Nat.one_lt_two).mp hlt))

/-- The slot of a position is its remainder modulo the depth. -/
theorem toNat_slot (h : IsDepth n) (p : UInt32) : (p &&& (n - 1)).toNat = p.toNat % n.toNat := by
  have hone : 1 ≤ n := UInt32.le_iff_toNat_le.mpr h.pos
  obtain ⟨k, hk⟩ := h
  rw [UInt32.toNat_and, UInt32.toNat_sub_of_le _ _ hone, UInt32.toNat_one, hk,
    Nat.and_two_pow_sub_one_eq_mod]

theorem slot_lt (h : IsDepth n) (p : UInt32) : (p &&& (n - 1)).toNat < n.toNat := by
  rw [toNat_slot h]
  exact Nat.mod_lt _ h.pos

/-- The slot of the position `i` places after another one. -/
theorem toNat_slot_add (h : IsDepth n) (p : UInt32) (i : Nat) :
    ((p + UInt32.ofNat i) &&& (n - 1)).toNat = (p.toNat + i) % n.toNat := by
  rw [toNat_slot h, UInt32.toNat_add, UInt32.toNat_ofNat', Nat.add_mod_mod,
    Nat.mod_mod_of_dvd _ h.dvd]

/-- Positions less than the depth apart have different slots, also when the wrap lies
between them. -/
theorem slot_inj (h : IsDepth n) {p : UInt32} {i j : Nat} (hi : i < n.toNat) (hj : j < n.toNat)
    (heq : ((p + UInt32.ofNat i) &&& (n - 1)).toNat =
      ((p + UInt32.ofNat j) &&& (n - 1)).toNat) : i = j := by
  rw [toNat_slot_add h, toNat_slot_add h] at heq
  exact (Nat.ModEq.add_left_cancel' p.toNat heq).eq_of_lt_of_lt hi hj

end RingRead.Position
