/-!
Arithmetic on unsigned 64-bit words, written on natural numbers. Each operation says in its name
what it does at the edge: `?` refuses a result that does not fit, `sat` stops at `largest`, and
`wrap` reduces modulo `2 ^ 64`.
-/

namespace OffRow.Word

def largest : Nat := 0xffffffffffffffff

def add? (a b : Nat) : Option Nat := if a + b ≤ largest then some (a + b) else none

def sub? (a b : Nat) : Option Nat := if b ≤ a then some (a - b) else none

def mul? (a b : Nat) : Option Nat := if a * b ≤ largest then some (a * b) else none

def shl? (a k : Nat) : Option Nat := if k < 64 then some ((a <<< k) % (largest + 1)) else none

def satAdd (a b : Nat) : Nat := min (a + b) largest

def satMul (a b : Nat) : Nat := min (a * b) largest

def wrapSub (a b : Nat) : Nat := (a + (largest + 1) - b) % (largest + 1)

def wrapMul (a b : Nat) : Nat := a * b % (largest + 1)

variable (a b c k : Nat)

theorem add?_eq_some : add? a b = some c ↔ a + b ≤ largest ∧ a + b = c := by
  by_cases h : a + b ≤ largest <;> simp [add?, h]

theorem sub?_eq_some : sub? a b = some c ↔ b ≤ a ∧ a - b = c := by
  by_cases h : b ≤ a <;> simp [sub?, h]

theorem mul?_eq_some : mul? a b = some c ↔ a * b ≤ largest ∧ a * b = c := by
  by_cases h : a * b ≤ largest <;> simp [mul?, h]

theorem shl?_one (hk : k < 64) : shl? 1 k = some (1 <<< k) := by
  have hp : 1 <<< k < largest + 1 := by
    rw [Nat.one_shiftLeft]
    exact Nat.pow_lt_pow_right (by decide) hk
  rw [shl?, if_pos hk, Nat.mod_eq_of_lt hp]

theorem wrapSub_of_le (h : b ≤ a) (ha : a ≤ largest) : wrapSub a b = a - b := by
  unfold wrapSub largest at *; omega

theorem wrapMul_of_le (h : a * b ≤ largest) : wrapMul a b = a * b :=
  Nat.mod_eq_of_lt (Nat.lt_succ_of_le h)

end OffRow.Word
