/-!
# ASCII letters

Comparison up to the case of the letters `a` to `z`; every other character counts as itself.
-/

namespace SourceGen

namespace Text

/-- Lower case for the letters `A` to `Z`. -/
def lowerAscii (c : Char) : Char :=
  if 'A' ≤ c ∧ c ≤ 'Z' then Char.ofNat (c.toNat + 32) else c

/-- Equality up to the case of ASCII letters. -/
def eqIgnoreCase (s t : String) : Bool :=
  s.toList.map lowerAscii == t.toList.map lowerAscii

theorem eqIgnoreCase_refl (s : String) : eqIgnoreCase s s = true := by
  simp [eqIgnoreCase]

theorem eqIgnoreCase_comm (s t : String) : eqIgnoreCase s t = eqIgnoreCase t s := by
  simp only [eqIgnoreCase]
  exact BEq.comm

end Text

end SourceGen
