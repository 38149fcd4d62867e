/-! Doubles as exact rationals: 53 bits on the grid of step `2^-1074`, below `2^1024`. The two zeros
are told apart because some printed answers show the sign. Flags, payloads and other rounding modes
are left out. -/

namespace FunctionStudy

def nearestEven (v : Rat) : Int :=
  if 2 * (v - v.floor) < 1 then v.floor
  else if 1 < 2 * (v - v.floor) then v.floor + 1
  else if v.floor % 2 = 0 then v.floor
  else v.floor + 1

@[simp] theorem nearestEven_intCast (n : Int) : nearestEven n = n := by
  have h : (2 * ((n : Rat) - n) : Rat) < 1 := by grind
  rw [nearestEven, Rat.floor_intCast, if_pos h]

theorem nearestEven_eq_floor_or (v : Rat) :
    nearestEven v = v.floor ∨ nearestEven v = v.floor + 1 := by
  unfold nearestEven
  split
  · exact .inl rfl
  · split
    · exact .inr rfl
    · split
      · exact .inl rfl
      · exact .inr rfl

theorem nearestEven_le {v : Rat} {n : Int} (h : v ≤ n) : nearestEven v ≤ n := by
  have hf : v.floor ≤ n := by simpa using Rat.floor_monotone h
  by_cases hn : v.floor = n
  · have hv : v = n := Rat.le_antisymm h (hn ▸ Rat.floor_le v)
    simp [hv]
  · rcases nearestEven_eq_floor_or v with e | e <;> omega

theorem le_nearestEven {v : Rat} {n : Int} (h : n ≤ v) : n ≤ nearestEven v := by
  have hf : n ≤ v.floor := Rat.le_floor_iff.2 h
  rcases nearestEven_eq_floor_or v with e | e <;> omega

/-- Rationals that a finite double can hold: at most `2 ^ 53` steps of a binary place. -/
def OnGrid (v : Rat) : Prop :=
  ∃ (m : Int) (k : Nat), m.natAbs ≤ 9007199254740992 ∧ v = m * 2 ^ k / 2 ^ (1074 : Nat) ∧
    v.abs < 2 ^ (1024 : Nat)

theorem onGrid_zero : OnGrid 0 :=
  ⟨0, 0, by decide, by decide +kernel, by decide +kernel⟩

theorem OnGrid.neg {v : Rat} : OnGrid v → OnGrid (-v)
  | ⟨m, k, hm, hv, hlt⟩ => ⟨-m, k, by omega,
      by rw [hv, Rat.intCast_neg, Rat.div_def, Rat.div_def, Rat.neg_mul, Rat.neg_mul],
      by rw [Rat.abs_neg]; exact hlt⟩

/-- A double: not a number, an infinity, the negative zero, or a rational on the grid. -/
inductive Binary64 where
  | nan
  | inf (negative : Bool)
  | negZero
  | finite (value : Rat) (onGrid : OnGrid value)
deriving DecidableEq

namespace Binary64

/-- How many low bits of `v`, counted in grid steps, lie below a 53-bit significand. -/
def excessBits (v : Rat) : Nat :=
  ((v.abs * 2 ^ (1074 : Nat)).floor.natAbs.log2 + 1) - 53

/-- The significand that nearest-even rounding keeps of `v`. -/
def significand (v : Rat) : Int :=
  nearestEven (v * 2 ^ (1074 : Nat) / 2 ^ excessBits v)

theorem two_pow_pos (n : Nat) : (0 : Rat) < 2 ^ n := Rat.pow_pos (by decide)

theorem abs_steps_lt (v : Rat) :
    v.abs * 2 ^ (1074 : Nat) / 2 ^ excessBits v < 2 ^ (53 : Nat) := by
  have hnn : 0 ≤ v.abs * 2 ^ (1074 : Nat) :=
    Rat.mul_nonneg Rat.abs_nonneg (Rat.le_of_lt (two_pow_pos 1074))
  rw [Rat.div_lt_iff (two_pow_pos _)]
  have hexc : excessBits v = ((v.abs * 2 ^ (1074 : Nat)).floor.natAbs.log2 + 1) - 53 := rfl
  generalize v.abs * 2 ^ (1074 : Nat) = u at hnn hexc ⊢
  have hfl : 0 ≤ u.floor := Rat.le_floor_iff.2 (by simpa using hnn)
  have hlog := Nat.lt_log2_self (n := u.floor.natAbs)
  have hle : 2 ^ (u.floor.natAbs.log2 + 1) ≤ 2 ^ (53 + excessBits v) :=
    Nat.pow_le_pow_right (by decide) (by omega)
  have hlt : u.floor + 1 ≤ ((2 ^ 53 * 2 ^ excessBits v : Nat) : Int) := by
    rw [← Nat.pow_add]; omega
  have hcast := Rat.intCast_le_intCast.2 hlt
  have hu := Rat.lt_floor_add_one u
  rw [Rat.intCast_natCast, Rat.natCast_mul, Rat.natCast_pow, Rat.natCast_pow] at hcast
  have two : ((2 : Nat) : Rat) = 2 := rfl
  rw [two] at hcast
  grind

theorem natAbs_significand_le (v : Rat) : (significand v).natAbs ≤ 9007199254740992 := by
  have hlt := abs_steps_lt v
  have hpos : (0 : Rat) < 2 ^ (1074 : Nat) / 2 ^ excessBits v := by
    rw [Rat.div_def]; exact Rat.mul_pos (two_pow_pos _) (Rat.inv_pos.2 (two_pow_pos _))
  have hsplit : ∀ w : Rat,
      w * 2 ^ (1074 : Nat) / 2 ^ excessBits v = w * (2 ^ (1074 : Nat) / 2 ^ excessBits v) := by
    intro w; rw [Rat.div_def, Rat.div_def, Rat.mul_assoc]
  rw [hsplit] at hlt
  have hcast : ((9007199254740992 : Int) : Rat) = 2 ^ (53 : Nat) := by decide +kernel
  have hup : v ≤ v.abs := by
    rcases Rat.le_total (a := 0) (b := v) with h | h
    · have := Rat.abs_of_nonneg h
      grind
    · exact Rat.le_trans h Rat.abs_nonneg
  have hdown : -v.abs ≤ v := by
    rcases Rat.le_total (a := 0) (b := v) with h | h
    · exact Rat.le_trans (Rat.neg_le_neg Rat.abs_nonneg) (by simpa using h)
    · have := Rat.abs_of_nonpos h
      grind
  have h1 : significand v ≤ 9007199254740992 := by
    apply nearestEven_le
    rw [hsplit, hcast]
    exact Rat.le_trans (Rat.mul_le_mul_of_nonneg_right hup (Rat.le_of_lt hpos)) (Rat.le_of_lt hlt)
  have h2 : -9007199254740992 ≤ significand v := by
    apply le_nearestEven
    rw [hsplit, Rat.intCast_neg, hcast]
    have := Rat.mul_le_mul_of_nonneg_right hdown (Rat.le_of_lt hpos)
    rw [Rat.neg_mul] at this
    exact Rat.le_trans (Rat.neg_le_neg (Rat.le_of_lt hlt)) this
  omega

/-- The grid value nearest to `v`, before the range is checked. -/
def gridValue (v : Rat) : Rat :=
  significand v * 2 ^ excessBits v / 2 ^ (1074 : Nat)

theorem onGrid_gridValue (v : Rat) (h : (gridValue v).abs < 2 ^ (1024 : Nat)) :
    OnGrid (gridValue v) :=
  ⟨significand v, excessBits v, natAbs_significand_le v, rfl, h⟩

/-- The double nearest to an exact rational, ties to even; a result at `2^1024` or beyond is an
infinity, and a negative value that rounds to nothing is the negative zero. -/
def round (v : Rat) : Binary64 :=
  if gridValue v = 0 ∧ v < 0 then .negZero
  else if h : (gridValue v).abs < 2 ^ (1024 : Nat) then .finite (gridValue v) (onGrid_gridValue v h)
  else .inf (v < 0)

def zero : Binary64 := .finite 0 onGrid_zero

def ofInt (n : Int) : Binary64 := round n

/-- The exact value; a zero of either sign is 0, and what is not finite has none. -/
def toRat? : Binary64 → Option Rat
  | .nan | .inf _ => none
  | .negZero => some 0
  | .finite v _ => some v

/-- The exact value of a finite double, and 0 for the others. -/
def toRat (x : Binary64) : Rat := x.toRat?.getD 0

def isNaN : Binary64 → Bool
  | .nan => true
  | _ => false

def isFinite (x : Binary64) : Bool := x.toRat?.isSome

/-- The sign bit; not a number counts as unsigned. -/
def isNegative : Binary64 → Bool
  | .nan => false
  | .inf negative => negative
  | .negZero => true
  | .finite v _ => v < 0

def isIntegral : Binary64 → Bool
  | .negZero => true
  | .finite v _ => v.den = 1
  | _ => false

end Binary64
end FunctionStudy
