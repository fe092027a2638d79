import PeriodicJobs.Binary64.Rounding

set_option autoImplicit false

/- Arithmetic: each operation is exact on units and then rounds once. -/
namespace PeriodicJobs.Binary64

/-- An exact sum of zero is positive unless both operands are negative zeros. -/
def add : Binary64 → Binary64 → Binary64
  | .number s p _, .number t q _ =>
    if p = infinityPlace then
      if q = infinityPlace ∧ s ≠ t then .nan false else infinity s
    else if q = infinityPlace then infinity t
    else
      let sum := signedUnits s p + signedUnits t q
      ofUnits (if sum = 0 then s && t else sum < 0) sum.natAbs 1
  | _, _ => .nan false

def sub (a b : Binary64) : Binary64 := a.add b.neg

def mul : Binary64 → Binary64 → Binary64
  | .number s p _, .number t q _ =>
    if p = infinityPlace ∨ q = infinityPlace then
      if p = 0 ∨ q = 0 then .nan false else infinity (s != t)
    else ofUnits (s != t) (unitsAt p * unitsAt q) unitsPerOne
  | _, _ => .nan false

def div : Binary64 → Binary64 → Binary64
  | .number s p _, .number t q _ =>
    if p = infinityPlace then
      if q = infinityPlace then .nan false else infinity (s != t)
    else if q = infinityPlace then ofPlace (s != t) 0
    else if q = 0 then
      if p = 0 then .nan false else infinity (s != t)
    else ofUnits (s != t) (unitsAt p * unitsPerOne) (unitsAt q)
  | _, _ => .nan false

instance : Add Binary64 := ⟨add⟩
instance : Sub Binary64 := ⟨sub⟩
instance : Mul Binary64 := ⟨mul⟩
instance : Div Binary64 := ⟨div⟩

/-- The nearest whole number, an exact half going away from zero. -/
def round : Binary64 → Binary64
  | .number s p h =>
    if p = infinityPlace then .number s p h
    else ofRatio s ((2 * unitsAt p + unitsPerOne) / (2 * unitsPerOne)) 1
  | .nan s => .nan s

/-- The least whole number that is not below the operand. -/
def ceil : Binary64 → Binary64
  | .number s p h =>
    if p = infinityPlace then .number s p h
    else if s then ofRatio s (unitsAt p / unitsPerOne) 1
    else ofRatio s ((unitsAt p + (unitsPerOne - 1)) / unitsPerOne) 1
  | .nan s => .nan s

/-- The whole part as a 64-bit word. Numbers out of range go to the nearer end, NaN to zero. -/
def toUInt64 : Binary64 → UInt64
  | .number false p _ =>
    if p = infinityPlace then UInt64.ofNat (UInt64.size - 1)
    else UInt64.ofNat (Min.min (unitsAt p / unitsPerOne) (UInt64.size - 1))
  | .number true _ _ => 0
  | .nan _ => 0

def ofUInt64 (n : UInt64) : Binary64 := ofNat n.toNat

end PeriodicJobs.Binary64
