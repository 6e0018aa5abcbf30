import Stencil.Condition.Basic
import Stencil.Expression.Grammar

/-!
# The grammar of conditions

A condition is an expression, or two of them around a comparison.
-/

namespace Stencil.Grammar

open Text Stencil.Parser

variable {σ : Type} [Source σ]

/-- The first of some comparisons whose symbol follows. -/
def comparisonOf? : List Comparison → StateM σ (Option Comparison)
  | [] => return none
  | comparison :: comparisons => do
      if ← Scan.acceptText comparison.symbol then return some comparison
      else comparisonOf? comparisons

/-- A comparison. -/
def comparison? : StateM σ (Option Comparison) :=
  comparisonOf? Comparison.longestFirst

/-- A condition, if an expression begins here. -/
def condition? : Parser σ (Option Condition) := do
  match ← expression? with
  | none => return none
  | some left =>
      let place ← scan Scan.pointer
      let _ ← scan Scan.skipSpaces
      match ← scan comparison? with
      | none =>
          scan (Scan.returnTo place)
          return some (.value left)
      | some comparison =>
          let _ ← scan Scan.skipSpaces
          return some (.compare left comparison (← expression "a value after the comparison"))

end Stencil.Grammar
