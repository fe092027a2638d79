set_option autoImplicit false

/- Counts of ticks in 64-bit words: common divisors and multiples, with overflow as an error. -/
namespace PeriodicJobs

/-- The operands of a common multiple that does not fit a word. -/
structure TickOverflow where
  a : UInt64
  b : UInt64
deriving DecidableEq

def TickOverflow.message (e : TickOverflow) : String :=
  s!"LCM overflow computing lcm({e.a}, {e.b}) ticks"

namespace Ticks

/-- The greatest common divisor, by Euclid's algorithm. -/
def gcd (a b : UInt64) : UInt64 :=
  if b = 0 then a else gcd b (a % b)
termination_by b.toNat
decreasing_by
  rename_i nonzero
  have positive : 0 < b.toNat := Nat.pos_of_ne_zero fun zero => nonzero (UInt64.toNat_inj.1 zero)
  rw [UInt64.toNat_mod]
  exact Nat.mod_lt _ positive

/-- The least common multiple; zero if an operand is. The division comes first, so only a multiple
that does not fit overflows. -/
def lcm (a b : UInt64) : Except TickOverflow UInt64 :=
  if a = 0 ∨ b = 0 then .ok 0
  else
    let quotient := a / gcd a b
    if quotient.toNat * b.toNat < UInt64.size then .ok (quotient * b) else .error ⟨a, b⟩

/-- The least common multiple of a list, from left to right; zero for no values. -/
def lcmAll (values : List UInt64) : Except TickOverflow UInt64 :=
  if values.isEmpty then .ok 0 else values.foldlM lcm 1

end Ticks

end PeriodicJobs
