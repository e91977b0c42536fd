import Optima.Proofs.Solver.Returns

/-!
Minimizers that keep to the points of a dimension. They learn about a function and its gradient only
at points of the dimension they start from, and end at such a point, as long as the gradients they
are given have this dimension. What a function does elsewhere makes no difference to them. Nor does
it to difference quotients.
-/

namespace Optima

variable {α : Type}

structure Minimizer.Confined (minimizer : Minimizer α) (n : Nat) : Prop where
  /-- Functions that agree at points of the dimension lead to the same answer. -/
  congr {f f' : Vec α → Except Fault α} {gradient gradient' : Vec α → Except Fault (Vec α)}
    {start : Vec α} : start.size = n → (∀ y, y.size = n → f' y = f y) →
    (∀ y, y.size = n → gradient' y = gradient y) →
    (∀ y d, y.size = n → gradient y = .ok d → d.size = n) →
    minimizer f' gradient' start = minimizer f gradient start
  size_eq {f : Vec α → Except Fault α} {gradient : Vec α → Except Fault (Vec α)}
    {start x slope : Vec α} : start.size = n →
    (∀ y d, y.size = n → gradient y = .ok d → d.size = n) →
    minimizer f gradient start = .ok (x, slope) → x.size = n

theorem staying_confined (n : Nat) : staying.Confined n where
  congr hstart _ hgradient _ := by simp only [staying, hgradient _ hstart]
  size_eq hstart _ h := by rwa [eq_of_staying h]

theorem size_set (point : Vec α) (i : Nat) (x : α) : (point.set i x).size = point.size := by
  simp only [Vec.set, Vec.size, List.length_set]

variable [Scalar α]

/-- Difference quotients look at points of the dimension only. -/
theorem numericalGradient_congr {f f' : Vec α → Except Fault α} {point : Vec α}
    (h : ∀ y, y.size = point.size → f' y = f y) (step : α) :
    numericalGradient f' step point = numericalGradient f step point := by
  have hslopes : (fun entry : α × Nat => partialDifference f' step point entry.2 entry.1) =
      fun entry => partialDifference f step point entry.2 entry.1 := by
    funext ⟨x, i⟩
    simp only [partialDifference, h _ (size_set point i _)]
  rw [numericalGradient_eq, numericalGradient_eq, hslopes]

theorem size_of_numericalGradient {f : Vec α → Except Fault α} {step : α} {point d : Vec α}
    (h : numericalGradient f step point = .ok d) : d.size = point.size := by
  rw [numericalGradient_eq, map_eq_pure_bind] at h
  obtain ⟨slopes, hslopes, hd⟩ := bind_eq_ok.mp h
  rw [pure_eq_ok] at hd
  have hlength := (mapM_eq_ok.mp hslopes).length_eq
  rw [List.length_zipIdx] at hlength
  rw [← hd]
  exact hlength.symm

end Optima
