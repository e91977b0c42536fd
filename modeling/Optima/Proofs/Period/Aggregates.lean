import Optima.Proofs.Scalar.Real
import Optima.Proofs.Period.Satisfaction

/-!
Constraints on what a trajectory amounts to. The limit on turnover compares the turnover that the
trajectory itself reports; the limit on a metric compares the sum of the metric over every
beginning, so that one residual exceeds the one before it by the metric of its last state. The mean
is the last of these sums over the number of periods, and as long as the metric is not negative, the
last sum is the only one that has to be looked at.
-/

namespace Optima

section Turnover

variable {α : Type} [Scalar α]

/-- The magnitudes of a difference sum to the movement. -/
theorem movement_eq_gross {v w : Vec α} (h : v.size = w.size) :
    ∃ difference, w.sub v = .ok difference ∧ difference.gross = Trajectory.movement v w := by
  have hsizes : (w.size == v.size) = true := by simpa using h.symm
  refine ⟨⟨List.zipWith (· - ·) w.toList v.toList⟩, ?_, ?_⟩
  · simp only [Vec.sub, Vec.pairwise, hsizes, if_true]
  · rw [Vec.gross, Trajectory.movement, List.map_zipWith, List.zipWith_comm]

theorem Trajectory.length_turnover (t : Trajectory α) : t.turnover.length = t.periods - 1 := by
  simp [Trajectory.turnover, Trajectory.periods, Trajectory.states]

namespace PeriodConstraint

/-- The limit is compared with the movement between each two consecutive states. -/
theorem turnoverLimit_evaluate (t : Trajectory α) (limit : α) :
    (turnoverLimit limit).evaluate t = .ok (t.turnover.map (· - limit)) := by
  have hpair : ∀ entry ∈ (t.states.zip t.rest).zipIdx,
      (do return (← entry.1.2.sub entry.1.1).gross - limit : Except Fault α) =
        .ok (Trajectory.movement entry.1.1 entry.1.2 - limit) := by
    intro entry hentry
    obtain ⟨hfirst, hsecond⟩ := List.of_mem_zip (List.fst_mem_of_mem_zipIdx hentry)
    have hsizes : entry.1.1.size = entry.1.2.size :=
      (Trajectory.size_of_mem_states hfirst).trans (t.uniform _ hsecond).symm
    obtain ⟨difference, hsub, hgross⟩ := movement_eq_gross hsizes
    rw [hsub, ← hgross]
    rfl
  have hturnover : t.turnover.map (· - limit) =
      (t.states.zip t.rest).zipIdx.map fun entry =>
        Trajectory.movement entry.1.1 entry.1.2 - limit := by
    have hnumbers := List.map_map (l := (t.states.zip t.rest).zipIdx) (f := Prod.fst)
      (g := fun pair => Trajectory.movement pair.1 pair.2 - limit)
    rw [List.zipIdx_map_fst, List.zip_eq_zipWith, List.map_zipWith] at hnumbers
    rw [Trajectory.turnover, List.map_zipWith, hnumbers]
    rfl
  rw [hturnover]
  exact mapM_eq_map hpair

end PeriodConstraint

end Turnover

section Totals

variable {t : Trajectory ℝ} {metric : Vec ℝ → Except Fault ℝ} {value : Vec ℝ → ℝ}

/-- What a metric has added up to at the end of each period. -/
noncomputable def Trajectory.totals (t : Trajectory ℝ) (value : Vec ℝ → ℝ) : List ℝ :=
  (List.range t.periods).map fun k => ((t.states.take (k + 1)).map value).sum

namespace Trajectory

@[simp] theorem length_totals (t : Trajectory ℝ) (value : Vec ℝ → ℝ) :
    (t.totals value).length = t.periods := by
  simp [totals]

theorem getElem?_totals {k : ℕ} {total : ℝ} (h : (t.totals value)[k]? = some total) :
    k < t.periods ∧ total = ((t.states.take (k + 1)).map value).sum := by
  obtain ⟨hk, rfl⟩ := List.getElem?_eq_some_iff.mp h
  rw [length_totals] at hk
  exact ⟨hk, by simp [totals]⟩

/-- A total exceeds the one before it by the metric of the state that comes in. -/
theorem totals_step {k : ℕ} {total next : ℝ} (htotal : (t.totals value)[k]? = some total)
    (hnext : (t.totals value)[k + 1]? = some next) : next - total = value (t.state (k + 1)) := by
  obtain ⟨-, rfl⟩ := getElem?_totals htotal
  obtain ⟨hk, rfl⟩ := getElem?_totals hnext
  have hstate : t.state (k + 1) = t.states[k + 1] := List.getD_eq_getElem _ _ hk
  rw [List.take_succ_eq_append_getElem hk, List.map_append, List.sum_append, List.map_singleton,
    List.sum_singleton, add_sub_cancel_left, hstate]

theorem head?_totals (t : Trajectory ℝ) (value : Vec ℝ → ℝ) :
    (t.totals value).head? = some (value t.first) := by
  simp [totals, periods, states, List.range_succ_eq_map]

theorem getLast?_totals (t : Trajectory ℝ) (value : Vec ℝ → ℝ) :
    (t.totals value).getLast? = some (t.states.map value).sum := by
  have hperiods : t.periods ≠ 0 := Nat.succ_ne_zero _
  have htaken : t.states.take (t.periods - 1 + 1) = t.states := by
    rw [Nat.sub_add_cancel (Nat.pos_of_ne_zero hperiods)]
    exact List.take_length
  rw [totals, List.getLast?_map, List.getLast?_range, if_neg hperiods, Option.map_some, htaken]

/-- No total of a metric that is nowhere negative exceeds the last one. -/
theorem totals_le_last (hvalue : ∀ x ∈ t.states, 0 ≤ value x) {total : ℝ}
    (htotal : total ∈ t.totals value) : total ≤ (t.states.map value).sum := by
  obtain ⟨k, -, rfl⟩ := List.mem_map.mp htotal
  have hsublist : ((t.states.take (k + 1)).map value).Sublist (t.states.map value) :=
    (List.take_sublist _ _).map value
  apply hsublist.sum_le_sum
  intro v hv
  obtain ⟨x, hx, rfl⟩ := List.mem_map.mp hv
  exact hvalue x hx

end Trajectory

namespace PeriodConstraint

theorem cumulativeLimit_evaluate (hmetric : ∀ x ∈ t.states, metric x = .ok (value x))
    (maximum : ℝ) : (cumulativeLimit metric maximum).evaluate t =
      .ok ((t.totals value).map (· - maximum)) := by
  rw [Trajectory.totals, List.map_map]
  apply mapM_eq_map
  intro k _
  have hbeginning : (t.states.take (k + 1)).mapM metric = .ok ((t.states.take (k + 1)).map value) :=
    mapM_eq_map fun x hx => hmetric x (List.mem_of_mem_take hx)
  simp only [bind_eq_ok, pure_eq_ok]
  exact ⟨_, hbeginning, by rw [Exact.sum_eq]; rfl⟩

/-- The average is over all periods, the first one included. -/
theorem averageConstraint_evaluate (hmetric : ∀ x ∈ t.states, metric x = .ok (value x))
    (minimum : ℝ) : (averageConstraint metric minimum).evaluate t =
      .ok [minimum - (t.states.map value).sum / t.periods] := by
  have hvalues : t.states.mapM metric = .ok (t.states.map value) := mapM_eq_map hmetric
  simp only [evaluate, averageConstraint, PeriodRule.evaluate, hvalues, bind_eq_ok, pure_eq_ok]
  refine ⟨_, ⟨_, rfl, rfl⟩, ?_⟩
  rw [Exact.total_eq, List.length_map]
  rfl

/-- A residual of a metric that is not negative is within the tolerance if the
last residual is. -/
theorem cumulativeLimit_isSatisfied (hmetric : ∀ x ∈ t.states, metric x = .ok (value x))
    (hvalue : ∀ x ∈ t.states, 0 ≤ value x) (maximum tolerance : ℝ) :
    (cumulativeLimit metric maximum).isSatisfied tolerance t =
      .ok (decide (max ((t.states.map value).sum - maximum) 0 ≤ tolerance)) := by
  have hviolations : (cumulativeLimit metric maximum).violations t =
      .ok ((t.totals value).map fun total => max (total - maximum) 0) := by
    rw [violations_eq_ok]
    refine ⟨_, cumulativeLimit_evaluate hmetric maximum, ?_⟩
    rw [List.map_map]
    exact List.map_congr_left fun total _ => Exact.larger_eq _ _
  have hlast : (t.states.map value).sum ∈ t.totals value :=
    List.mem_of_getLast? (t.getLast?_totals value)
  rw [isSatisfied_eq_ok]
  refine ⟨_, hviolations, ?_⟩
  rw [Bool.eq_iff_iff, List.all_map, List.all_eq_true, decide_eq_true_iff]
  simp only [Function.comp_apply, Exact.atMost_iff]
  constructor
  · intro hall
    exact hall _ hlast
  · intro hle total htotal
    have htotal_le := Trajectory.totals_le_last hvalue htotal
    exact (max_le_max_right 0 (sub_le_sub_right htotal_le maximum)).trans hle

/-- The residuals of the constraints on aggregates are what the trajectory adds
up to. `value` is what the metric returns for the states. -/
theorem aggregates_measure_trajectory (hmetric : ∀ x ∈ t.states, metric x = .ok (value x))
    (limit maximum minimum : ℝ) :
    ((turnoverLimit limit).evaluate t = .ok (t.turnover.map (· - limit)) ∧
      t.turnover.length = t.periods - 1) ∧
    ∃ residuals last, (cumulativeLimit metric maximum).evaluate t = .ok residuals ∧
      residuals.length = t.periods ∧
      residuals.head? = some (value t.first - maximum) ∧
      residuals.getLast? = some last ∧
      (∀ (k : ℕ) (r next : ℝ), residuals[k]? = some r → residuals[k + 1]? = some next →
        next - r = value (t.state (k + 1))) ∧
      (∀ (k : ℕ) (r : ℝ), residuals[k]? = some r →
        r = ((t.states.take (k + 1)).map value).sum - maximum) ∧
      (averageConstraint metric minimum).evaluate t =
        .ok [minimum - (last + maximum) / t.periods] ∧
      ((∀ x ∈ t.states, 0 ≤ value x) → ∀ tolerance : ℝ,
        (cumulativeLimit metric maximum).isSatisfied tolerance t =
          .ok (decide (max last 0 ≤ tolerance))) := by
  have htotal {k : ℕ} {r : ℝ} (hr : ((t.totals value).map (· - maximum))[k]? = some r) :
      ∃ total, (t.totals value)[k]? = some total ∧ total - maximum = r := by
    rwa [List.getElem?_map, Option.map_eq_some_iff] at hr
  refine ⟨⟨turnoverLimit_evaluate t limit, t.length_turnover⟩,
    (t.totals value).map (· - maximum), (t.states.map value).sum - maximum,
    cumulativeLimit_evaluate hmetric maximum, ?_, ?_, ?_, ?_, ?_, ?_, ?_⟩
  · rw [List.length_map, Trajectory.length_totals]
  · rw [List.head?_map, Trajectory.head?_totals, Option.map_some]
  · rw [List.getLast?_map, Trajectory.getLast?_totals, Option.map_some]
  · intro k r next hr hnext
    obtain ⟨total, htotal_k, rfl⟩ := htotal hr
    obtain ⟨total', htotal_next, rfl⟩ := htotal hnext
    rw [sub_sub_sub_cancel_right, Trajectory.totals_step htotal_k htotal_next]
  · intro k r hr
    obtain ⟨total, htotal_k, rfl⟩ := htotal hr
    rw [(Trajectory.getElem?_totals htotal_k).2]
  · rw [averageConstraint_evaluate hmetric, sub_add_cancel]
  · intro hvalue tolerance
    exact cumulativeLimit_isSatisfied hmetric hvalue maximum tolerance

def holdings : Trajectory ℝ where
  first := ⟨[1, 0]⟩
  rest := [⟨[0, 1]⟩, ⟨[1, 1]⟩]
  uniform := by simp [Vec.size]

/-- Of the first asset one is held in the first period and in the last, two
thirds in the mean; a limit of one is met within a tolerance of one. -/
theorem holdings_measured :
    (∀ x ∈ holdings.states, x.get 0 = .ok (x.toList.getD 0 0)) ∧
      (∀ x ∈ holdings.states, 0 ≤ x.toList.getD 0 0) ∧
      (turnoverLimit 1).evaluate holdings = .ok [2 - 1, 1 - 1] ∧
      (averageConstraint (fun x => x.get 0) 1).evaluate holdings = .ok [3⁻¹] ∧
      (cumulativeLimit (fun x => x.get 0) 1).isSatisfied 1 holdings = .ok true := by
  have hmetric : ∀ x ∈ holdings.states, x.get 0 = .ok (x.toList.getD 0 0) := by
    simp only [Trajectory.states, holdings, List.forall_mem_cons]
    exact ⟨rfl, rfl, rfl, List.forall_mem_nil _⟩
  have hvalue : ∀ x ∈ holdings.states, 0 ≤ x.toList.getD 0 0 := by
    simp [Trajectory.states, holdings]
  have hturnover : holdings.turnover = [2, 1] := by
    simp [Trajectory.turnover, Trajectory.movement, Trajectory.states, holdings, Scalar.magnitude]
    norm_num
  obtain ⟨⟨hlimit, -⟩, residuals, last, -, hlength, -, hlast, -, htotal, haverage, hsatisfied⟩ :=
    aggregates_measure_trajectory hmetric 1 1 1
  have hone : last = 1 := by
    rw [List.getLast?_eq_getElem?, hlength] at hlast
    rw [htotal _ _ hlast]
    norm_num [Trajectory.periods, Trajectory.states, holdings]
  refine ⟨hmetric, hvalue, ?_, ?_, ?_⟩
  · rw [hlimit, hturnover]
    rfl
  · rw [haverage, hone]
    norm_num [Trajectory.periods, Trajectory.states, holdings]
  · rw [hsatisfied hvalue, hone]
    norm_num

end PeriodConstraint

end Totals

end Optima
