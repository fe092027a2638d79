import PeriodicJobs.Binary64.Arithmetic
import PeriodicJobs.Decimal.Shortest

set_option autoImplicit false

/- Windows of time, from an earliest to a latest instant. -/
namespace PeriodicJobs

structure Window where
  min : Binary64
  max : Binary64
deriving DecidableEq

/-- Bounds that are not in order, or are not both numbers. -/
structure InvertedWindow where
  min : Binary64
  max : Binary64
deriving DecidableEq

def InvertedWindow.message (e : InvertedWindow) : String :=
  s!"range minimum {e.min} exceeds maximum {e.max}"

namespace Window

def between (min max : Binary64) : Except InvertedWindow Window :=
  if min ≤ max then .ok ⟨min, max⟩ else .error ⟨min, max⟩

def point (instant : Binary64) : Window := ⟨instant, instant⟩

def shift (window : Window) (offset : Binary64) : Window :=
  ⟨window.min + offset, window.max + offset⟩

end Window

end PeriodicJobs
