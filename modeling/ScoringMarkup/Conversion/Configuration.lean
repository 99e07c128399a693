/-!
# Configurations

The settings of a conversion: how many levels a tree may have.
-/

namespace ScoringMarkup

/-- The settings of a conversion. -/
structure Configuration where
  /-- The most levels that a tree may have, if there is a limit. -/
  maxDepth : Option Nat
  deriving DecidableEq

namespace Configuration

/-- The limit that holds when none is chosen. -/
def defaultMaxDepth : Nat := 256

/-- The configuration that is used where none is given. -/
def standard : Configuration := ⟨some defaultMaxDepth⟩

def unbounded : Configuration := ⟨none⟩

/-- A configuration with a limit of its own. -/
def withMaxDepth (limit : Nat) : Configuration := ⟨some limit⟩

end Configuration

end ScoringMarkup
