import Optima.Proofs.Scalar.Real
import Optima.Proofs.Solver.History
import Optima.Proofs.Solver.Returns

/-!
The penalties that a history shows, in exact arithmetic. The first one is the initial penalty. The
next one is raised, but not beyond the maximum, exactly if the violation is above the tolerance and
has not fallen to a quarter of the one before. All of them are positive. What relates them to the
maximum and to each other is the initial penalty: if it is above the maximum, the history starts
above the maximum, and the first raise lowers the penalty.
-/

namespace Optima

section Rule

open Classical in
/-- The penalty that follows a snapshot, given the snapshots in front of it. -/
noncomputable def Settings.following (settings : Settings ℝ) (front : List (Snapshot ℝ))
    (s : Snapshot ℝ) : ℝ :=
  if settings.constraintTolerance < s.violation ∧
      ∃ r ∈ front.getLast?, r.violation / 4 < s.violation then
    min (s.penalty * settings.penaltyIncrease) settings.maxPenalty
  else s.penalty

noncomputable def Settings.penaltyAfter (settings : Settings ℝ) (history : List (Snapshot ℝ)) : ℝ :=
  match history.getLast? with
  | some s => settings.following history.dropLast s
  | none => settings.initialPenalty

/-- Every snapshot shows the penalty that the snapshots in front of it lead
to. -/
inductive Settings.Ruled (settings : Settings ℝ) : List (Snapshot ℝ) → Prop where
  | nil : Ruled settings []
  | append {history : List (Snapshot ℝ)} {s : Snapshot ℝ} : Ruled settings history →
      s.penalty = settings.penaltyAfter history → Ruled settings (history ++ [s])

variable {settings : Settings ℝ} {history : List (Snapshot ℝ)}

theorem Settings.penaltyAfter_append (settings : Settings ℝ) (front : List (Snapshot ℝ))
    (s : Snapshot ℝ) : settings.penaltyAfter (front ++ [s]) = settings.following front s := by
  simp [penaltyAfter]

theorem Settings.following_cases (settings : Settings ℝ) (front : List (Snapshot ℝ))
    (s : Snapshot ℝ) :
    settings.following front s = s.penalty ∨
      settings.following front s =
        min (s.penalty * settings.penaltyIncrease) settings.maxPenalty := by
  unfold following
  split
  · exact Or.inr rfl
  · exact Or.inl rfl

namespace Settings.Ruled

theorem first (h : settings.Ruled history) {s : Snapshot ℝ} {back : List (Snapshot ℝ)}
    (heq : history = s :: back) : s.penalty = settings.initialPenalty := by
  induction h generalizing back with
  | nil => cases heq
  | @append front t _ hpenalty ih =>
      cases front with
      | nil =>
          cases heq
          exact hpenalty
      | cons r front =>
          rw [List.cons_append] at heq
          cases heq
          exact ih rfl

theorem next (h : settings.Ruled history) {front back : List (Snapshot ℝ)} {s t : Snapshot ℝ}
    (heq : history = front ++ s :: t :: back) : t.penalty = settings.following front s := by
  induction h generalizing back with
  | nil => simp at heq
  | @append before last _ hpenalty ih =>
      rcases List.eq_nil_or_concat back with rfl | ⟨back, u, rfl⟩
      · -- The last snapshot follows the ones before it.
        have hsplit : before ++ [last] = (front ++ [s]) ++ [t] := by simpa using heq
        obtain ⟨rfl, hlast⟩ := List.append_inj' hsplit rfl
        cases hlast
        rw [hpenalty, penaltyAfter_append]
      · have hsplit : before ++ [last] = (front ++ s :: t :: back) ++ [u] := by simpa using heq
        obtain ⟨hbefore, -⟩ := List.append_inj' hsplit rfl
        exact ih hbefore

/-- What holds of the initial penalty and is kept by raising holds of all
penalties. -/
theorem penalties {P : ℝ → Prop} (h : settings.Ruled history) (hinitial : P settings.initialPenalty)
    (hraised : ∀ penalty, P penalty →
      P (min (penalty * settings.penaltyIncrease) settings.maxPenalty)) :
    ∀ s ∈ history, P s.penalty := by
  induction h with
  | nil =>
      intro s hs
      cases hs
  | @append front t hfront hpenalty ih =>
      have hafter : P (settings.penaltyAfter front) := by
        cases hfront with
        | nil => exact hinitial
        | @append front s =>
            have hs : P s.penalty := ih s (by simp)
            rw [penaltyAfter_append]
            rcases settings.following_cases front s with hkept | hnext
            · rw [hkept]
              exact hs
            · rw [hnext]
              exact hraised _ hs
      intro s hs
      rcases List.mem_append.mp hs with hs | hs
      · exact ih s hs
      · rw [List.mem_singleton.mp hs, hpenalty]
        exact hafter

variable (hsettings : settings.Accepted)

include hsettings

theorem penalty_pos (h : settings.Ruled history) : ∀ s ∈ history, 0 < s.penalty := by
  apply h.penalties (P := fun penalty => 0 < penalty) hsettings.initialPenalty
  intro penalty hpenalty
  have hraised := hsettings.raised_pos hpenalty
  rwa [Settings.raised, Exact.smaller_eq] at hraised

/-- Raising does not lower a penalty that is no more than the maximum. -/
theorem le_following {s : Snapshot ℝ} (hpositive : 0 < s.penalty)
    (hbound : s.penalty ≤ settings.maxPenalty) (front : List (Snapshot ℝ)) :
    s.penalty ≤ settings.following front s := by
  rcases settings.following_cases front s with hkept | hnext
  · exact hkept.ge
  · rw [hnext]
    have hgrows : s.penalty ≤ s.penalty * settings.penaltyIncrease :=
      le_mul_of_one_le_right hpositive.le hsettings.penaltyIncrease.le
    exact le_min hgrows hbound

/-- Penalties do not fall unless the initial one is above the maximum. -/
theorem pairwise_le (h : settings.Ruled history)
    (hinitial : settings.initialPenalty ≤ settings.maxPenalty) :
    history.Pairwise fun s t => s.penalty ≤ t.penalty := by
  induction h with
  | nil => exact List.Pairwise.nil
  | @append front t hfront hpenalty ih =>
      refine List.pairwise_append.mpr ⟨ih, List.pairwise_singleton _ _, ?_⟩
      intro r hr t' ht'
      rw [List.mem_singleton.mp ht', hpenalty]
      have hpositive := hfront.penalty_pos hsettings
      have hbound := hfront.penalties (P := fun penalty => penalty ≤ settings.maxPenalty) hinitial
        fun _ _ => min_le_right _ _
      cases hfront with
      | nil => cases hr
      | @append front s =>
          have hs : s ∈ front ++ [s] := by simp
          have hle : r.penalty ≤ s.penalty := by
            rcases List.mem_append.mp hr with hr | hr
            · exact (List.pairwise_append.mp ih).2.2 r hr s (by simp)
            · rw [List.mem_singleton.mp hr]
          rw [penaltyAfter_append]
          exact hle.trans (le_following hsettings (hpositive s hs) (hbound s hs) front)

omit hsettings in
/-- Penalties respect the maximum exactly if the initial one does. -/
theorem le_max_iff (h : settings.Ruled history) (hne : history ≠ []) :
    (∀ s ∈ history, s.penalty ≤ settings.maxPenalty) ↔
      settings.initialPenalty ≤ settings.maxPenalty := by
  constructor
  · intro hall
    obtain ⟨s, back, rfl⟩ := List.exists_cons_of_ne_nil hne
    rw [← h.first rfl]
    exact hall s List.mem_cons_self
  · intro hinitial
    exact h.penalties (P := fun penalty => penalty ≤ settings.maxPenalty) hinitial
      fun _ _ => min_le_right _ _

theorem pairwise_le_iff (h : settings.Ruled history) :
    (history.Pairwise fun s t => s.penalty ≤ t.penalty) ↔
      settings.initialPenalty ≤ settings.maxPenalty ∨
        ∀ s ∈ history, s.penalty = settings.initialPenalty := by
  constructor
  · intro hpairwise
    rw [or_iff_not_imp_left]
    intro habove s hs
    obtain ⟨first, back, rfl⟩ := List.exists_cons_of_ne_nil (List.ne_nil_of_mem hs)
    have hfirst := h.first rfl
    -- A penalty is the initial one, or it was cut to the maximum.
    have hcut : s.penalty = settings.initialPenalty ∨ s.penalty ≤ settings.maxPenalty :=
      h.penalties
        (P := fun penalty => penalty = settings.initialPenalty ∨ penalty ≤ settings.maxPenalty)
        (Or.inl rfl) (fun _ _ => Or.inr (min_le_right _ _)) s hs
    rcases hcut with hinitial | hbelow
    · exact hinitial
    · rcases List.mem_cons.mp hs with rfl | hback
      · exact hfirst
      · have hle := (List.pairwise_cons.mp hpairwise).1 s hback
        rw [hfirst] at hle
        exact absurd (hle.trans hbelow) habove
  · rintro (hinitial | hconstant)
    · exact h.pairwise_le hsettings hinitial
    · apply List.pairwise_iff_forall_sublist.mpr
      intro s t hsublist
      rw [hconstant s (hsublist.subset (by simp)), hconstant t (hsublist.subset (by simp))]

end Settings.Ruled

end Rule

section Solve

variable {problem : Problem ℝ} {minimizer : Minimizer ℝ} {settings : Settings ℝ} {start : Vec ℝ}
  {interrupt : Snapshot ℝ → Bool}

/-- The penalty and the previous violation of a state are the ones that its
history tells. -/
structure Progress.Tells (settings : Settings ℝ) (p : Progress ℝ) : Prop where
  ruled : settings.Ruled p.history
  penalty : p.lagrangian.penalty = settings.penaltyAfter p.history
  previous : p.previous.map Prod.snd = p.history.getLast?.map Snapshot.violation

theorem Progress.Tells.ruled_append {p q : Progress ℝ} {snapshot : Snapshot ℝ}
    (hp : p.Tells settings) (h : Records settings p q snapshot)
    (hrecord : settings.recordHistory = true) :
    q.history = p.history ++ [snapshot] ∧ settings.Ruled q.history := by
  have hhistory : q.history = p.history ++ [snapshot] := by
    rw [h.history, hrecord, if_pos rfl]
  refine ⟨hhistory, ?_⟩
  rw [hhistory]
  exact hp.ruled.append (h.penalty.trans hp.penalty)

/-- What an iteration leaves behind is what follows its snapshot. -/
theorem nextPenalty_eq_following {p q : Progress ℝ} {snapshot : Snapshot ℝ} {slope : Vec ℝ}
    (hp : p.Tells settings) (hrecords : Records settings p q snapshot)
    (hmoves : Moves minimizer p q snapshot slope) :
    nextPenalty settings q = settings.following p.history snapshot := by
  have hpenalty : q.lagrangian.penalty = snapshot.penalty :=
    (penalty_of_moves hmoves).trans hrecords.penalty.symm
  unfold nextPenalty Settings.following
  rw [hpenalty, ← hrecords.violation, hmoves.previous]
  by_cases hwithin : snapshot.violation ≤ settings.constraintTolerance
  · rw [if_pos ((Exact.atMost_iff _ _).mpr hwithin), if_neg]
    rintro ⟨habove, -⟩
    exact absurd hwithin habove.not_ge
  · have habove : settings.constraintTolerance < snapshot.violation := not_le.mp hwithin
    have hprevious := hp.previous
    rw [if_neg (by rwa [Exact.atMost_iff])]
    cases hlast : p.history.getLast? with
    | none =>
        rw [hlast, Option.map_none, Option.map_eq_none_iff] at hprevious
        rw [hprevious]
        simp [isSticky]
    | some r =>
        rw [hlast, Option.map_some, Option.map_eq_some_iff] at hprevious
        obtain ⟨⟨old, violation⟩, hold, hviolation⟩ := hprevious
        have hquarter : (0.25 : ℝ) * violation = r.violation / 4 := by
          rw [← hviolation]
          norm_num
          ring
        rw [hold, Settings.raised, Exact.smaller_eq]
        simp only [isSticky, Exact.less_iff, hquarter, habove, true_and, Option.mem_def,
          Option.some.injEq, exists_eq_left']

/-- The history of a visited state tells everything that the rule needs. -/
theorem Problem.Visits.tells (hrecord : settings.recordHistory = true) {p : Progress ℝ}
    (h : problem.Visits minimizer settings start interrupt p) : p.Tells settings := by
  induction h with
  | opening hopens _ =>
      obtain ⟨_, _, -, -, rfl⟩ := hopens
      exact ⟨.nil, rfl, rfl⟩
  | proceed _ hiterate ih =>
      obtain ⟨q, snapshot, hadvance, -, rfl⟩ := iterate_proceed hiterate
      obtain ⟨slope, hmoves⟩ := advance_moved hadvance
      have hrecords := records_of_advance hadvance
      obtain ⟨hhistory, hruled⟩ := ih.ruled_append hrecords hrecord
      refine ⟨hruled, ?_, ?_⟩
      · change nextPenalty settings q = settings.penaltyAfter q.history
        rw [hhistory, Settings.penaltyAfter_append]
        exact nextPenalty_eq_following ih hrecords hmoves
      · change some q.violation = q.history.getLast?.map Snapshot.violation
        rw [hhistory, List.getLast?_concat, Option.map_some, hrecords.violation]

theorem Exact.not_breaksAt (problem : Problem ℝ) (x : Vec ℝ) : ¬ problem.BreaksAt x := by
  have hfinite : x.isFinite = true := List.all_eq_true.mpr fun _ _ => rfl
  rintro (hinfinite | ⟨v, -, hinfinite⟩ | ⟨r, -, hinfinite⟩)
  · rw [hfinite] at hinfinite
    cases hinfinite
  · cases hinfinite
  · cases hinfinite

/-- In exact arithmetic the last iteration of a solve always writes a
snapshot. -/
theorem ruled_of_optimize {outcome : Outcome ℝ} (hbudget : 0 < settings.maxIterations)
    (hrecord : settings.recordHistory = true)
    (h : problem.optimize minimizer settings start interrupt = .ok outcome) :
    outcome.history ≠ [] ∧ settings.Ruled outcome.history := by
  obtain ⟨p, -, hinfinite, -⟩ | ⟨p, x, slope, verdict, htries, -, hiterate, rfl, -⟩ :=
    optimize_last hbudget h
  · cases hinfinite
  · obtain ⟨hbreaks, -⟩ | ⟨-, q, snapshot, hadvance, -, -, hjudge⟩ := htries.cases hiterate
    · exact absurd hbreaks (Exact.not_breaksAt problem x)
    · obtain ⟨hhistory, hruled⟩ :=
        (htries.visits.tells hrecord).ruled_append (records_of_advance hadvance) hrecord
      change verdict.progress.history ≠ [] ∧ settings.Ruled verdict.progress.history
      rw [(judge_progress hjudge).1]
      refine ⟨?_, hruled⟩
      rw [hhistory]
      exact List.append_ne_nil_of_right_ne_nil _ (List.cons_ne_nil _ _)

/-- The penalties of a history start from the initial one and follow the rule:
after a violation above the tolerance and above a quarter of the one before,
the penalty is raised up to the maximum, and otherwise it is kept. They are
positive. They stay within the maximum exactly if the initial one does, and
they never decrease exactly if it does or no raise ever changes them. -/
theorem penalties_follow_rule {outcome : Outcome ℝ} (hsettings : settings.Accepted)
    (hrecord : settings.recordHistory = true)
    (h : problem.optimize minimizer settings start interrupt = .ok outcome) :
    (∃ s back, outcome.history = s :: back ∧ s.penalty = settings.initialPenalty) ∧
    (∀ front s next back, outcome.history = front ++ s :: next :: back →
      next.penalty = settings.following front s) ∧
    (∀ s ∈ outcome.history, 0 < s.penalty) ∧
    ((∀ s ∈ outcome.history, s.penalty ≤ settings.maxPenalty) ↔
      settings.initialPenalty ≤ settings.maxPenalty) ∧
    ((outcome.history.Pairwise fun s t => s.penalty ≤ t.penalty) ↔
      settings.initialPenalty ≤ settings.maxPenalty ∨
        ∀ s ∈ outcome.history, s.penalty = settings.initialPenalty) := by
  obtain ⟨hne, hruled⟩ := ruled_of_optimize hsettings.maxIterations hrecord h
  refine ⟨?_, ?_, hruled.penalty_pos hsettings, hruled.le_max_iff hne,
    hruled.pairwise_le_iff hsettings⟩
  · obtain ⟨s, back, heq⟩ := List.exists_cons_of_ne_nil hne
    exact ⟨s, back, heq, hruled.first heq⟩
  · intro front s next back heq
    exact hruled.next heq

end Solve

section Caught

noncomputable def caughtProblem : Problem ℝ where
  objective _ := .ok 0
  constraints :=
    [{ relation := .inequality, residual := fun x => do return (3 : ℕ) + (3 : ℕ) * (← x.get 0),
       gradient := some fun _ => .ok ⟨[(3 : ℕ)]⟩ },
     { relation := .inequality, residual := fun x => do return (3 : ℕ) - (3 : ℕ) * (← x.get 0),
       gradient := some fun _ => .ok ⟨[-(3 : ℕ)]⟩ }]
  weight := 1

noncomputable def cappedSettings : Settings ℝ :=
  { modestSettings with maxIterations := 3, initialPenalty := (3 : ℕ), recordHistory := true }

theorem cappedSettings_accepted : cappedSettings.Accepted := by
  constructor <;> norm_num [cappedSettings, modestSettings]

theorem caughtProblem_responds : caughtProblem.Responds 1 where
  objective _ _ := ⟨0, rfl⟩
  residual c hc y hy := by
    obtain ⟨a, rfl⟩ := Vec.exists_of_size_one hy
    simp only [caughtProblem, List.mem_cons, List.not_mem_nil, or_false] at hc
    rcases hc with rfl | rfl
    · exact ⟨3 + 3 * a, rfl⟩
    · exact ⟨3 - 3 * a, rfl⟩
  gradient _ hknown := by cases hknown
  gradients c hc known hknown y hy := by
    simp only [caughtProblem, List.mem_cons, List.not_mem_nil, or_false] at hc
    rcases hc with rfl | rfl
    · cases hknown
      exact ⟨⟨[3]⟩, rfl, rfl⟩
    · cases hknown
      exact ⟨⟨[-3]⟩, rfl, rfl⟩

noncomputable def caughtSolve : Except Fault (Outcome ℝ) :=
  caughtProblem.optimize staying cappedSettings ⟨[0]⟩ fun _ => false

theorem caughtSolve_returns : ∃ outcome, caughtSolve = .ok outcome :=
  optimize_responds cappedSettings_accepted.steady (staying_answers.serves staying_keepsSize)
    caughtProblem_responds rfl (List.all_eq_true.mpr fun _ _ => rfl)

theorem caughtProblem_residuals :
    caughtProblem.residuals ⟨[0]⟩ = .ok ⟨[], [3 + 3 * 0, 3 - 3 * 0]⟩ := rfl

theorem caughtProblem_violation :
    (⟨[], [3 + 3 * 0, 3 - 3 * 0]⟩ : ByRelation ℝ).worst = 3 := by
  simp [ByRelation.worst, Scalar.greatest?]

theorem caughtProblem_steep {step minDerivative tolerance : ℝ} (h : minDerivative < 9)
    (x : Vec ℝ) :
    Lagrangian.hasDegenerateViolation step tolerance minDerivative x caughtProblem.constraints ≠
      .ok true := by
  intro hfound
  obtain ⟨c, hc, v, d, -, -, hd, hflat⟩ := (hasDegenerateViolation_iff hfound).mp rfl
  simp only [caughtProblem, List.mem_cons, List.not_mem_nil, or_false] at hc
  rcases hc with rfl | rfl
  · cases hd
    simp at hflat
    linarith
  · cases hd
    simp at hflat
    linarith

variable {p : Progress ℝ}

/-- The solve goes on from every state that it visits, with the same violation
again. -/
theorem caughtSolve_proceeds
    (h : caughtProblem.Visits staying cappedSettings ⟨[0]⟩ (fun _ => false) p) :
    ∃ q snapshot, Records cappedSettings p q snapshot ∧ snapshot.violation = 3 ∧
      iterate staying cappedSettings (fun _ => false) p =
        .ok (deliver cappedSettings (fun _ => false) q snapshot) := by
  obtain ⟨verdict, hiterate⟩ := iterate_returns cappedSettings_accepted.steady
    (staying_answers.serves staying_keepsSize) caughtProblem_responds h
  obtain ⟨x, slope, htries⟩ := h.tries hiterate
  obtain ⟨hbreaks, -⟩ | ⟨-, q, snapshot, hadvance, hmoves, rfl, hjudge⟩ := htries.cases hiterate
  · exact absurd hbreaks (Exact.not_breaksAt _ x)
  have hpoint : q.point = ⟨[0]⟩ := by
    have hp : p.point = ⟨[0]⟩ :=
      h.point (P := fun y => y = ⟨[0]⟩) (fun _ _ _ _ _ hs hx _ => (eq_of_staying hx).trans hs) rfl
    exact (eq_of_staying htries.found).trans hp
  have hproblem := (h.measured.1.moved hadvance).problem_eq
  have hviolation : q.violation = 3 := by
    obtain ⟨r, hr, hworst⟩ := (h.measured.1.moved hadvance).violation
    rw [hpoint, caughtProblem_residuals] at hr
    cases hr
    rw [← hworst, caughtProblem_violation]
  have hrecords := records_of_advance hadvance
  refine ⟨q, snapshot, hrecords, hrecords.violation.trans hviolation, ?_⟩
  obtain ⟨-, hwithin, -⟩ | ⟨-, -, hdegenerate⟩ | ⟨rfl, -⟩ := judge_cases hjudge
  · rw [hviolation, Exact.atMost_iff] at hwithin
    norm_num [cappedSettings, modestSettings] at hwithin
  · rw [hproblem] at hdegenerate
    exact absurd hdegenerate (caughtProblem_steep (by norm_num [cappedSettings, modestSettings]) _)
  · exact hiterate

theorem caughtSolve_violations
    (h : caughtProblem.Visits staying cappedSettings ⟨[0]⟩ (fun _ => false) p) :
    ∀ s ∈ p.history, s.violation = 3 := by
  induction h with
  | opening hopens _ =>
      obtain ⟨_, _, -, -, rfl⟩ := hopens
      intro s hs
      cases hs
  | proceed hvisits hiterate ih =>
      obtain ⟨q, snapshot, hrecords, hviolation, hdeliver⟩ := caughtSolve_proceeds hvisits
      rw [hiterate] at hdeliver
      cases hdeliver
      intro s hs
      change s ∈ q.history at hs
      rw [hrecords.history] at hs
      rcases List.mem_append.mp hs with hs | hs
      · exact ih s hs
      · rw [List.mem_singleton.mp hs]
        exact hviolation

theorem caughtSolve_history {outcome : Outcome ℝ} (h : caughtSolve = .ok outcome) :
    outcome.history.length = 3 ∧ ∀ s ∈ outcome.history, s.violation = 3 := by
  obtain ⟨p, -, hinfinite, -⟩ | ⟨p, _, _, verdict, htries, -, hiterate, rfl, -, hlast⟩ :=
    optimize_last (by decide) h
  · cases hinfinite
  · have hvisits := htries.visits
    obtain ⟨q, snapshot, hrecords, hviolation, hdeliver⟩ := caughtSolve_proceeds hvisits
    rw [hiterate] at hdeliver
    cases hdeliver
    have hthree : p.iterations + 1 = 3 := hlast _ rfl
    have hnumbered := (hvisits.recorded rfl).numbered
    have hlength : p.history.length = 2 := by
      have hmapped := congrArg List.length hnumbered
      rw [List.length_map, List.length_range'] at hmapped
      omega
    have hhistory : q.history = p.history ++ [snapshot] := hrecords.history
    constructor
    · change q.history.length = 3
      rw [hhistory, List.length_append, hlength]
      rfl
    · intro s hs
      change s ∈ q.history at hs
      rw [hhistory] at hs
      rcases List.mem_append.mp hs with hs | hs
      · exact caughtSolve_violations hvisits s hs
      · rw [List.mem_singleton.mp hs]
        exact hviolation

/-- Accepted settings whose maximum is below the initial penalty: the history
starts above the maximum, and raising the penalty lowers it. -/
theorem penalty_above_maximum_until_raised :
    cappedSettings.Accepted ∧ cappedSettings.recordHistory = true ∧
      cappedSettings.maxPenalty = 1 ∧
      ∃ outcome, caughtSolve = .ok outcome ∧
        outcome.history.map Snapshot.penalty = [3, 3, 1] := by
  refine ⟨cappedSettings_accepted, rfl, rfl, ?_⟩
  obtain ⟨outcome, houtcome⟩ := caughtSolve_returns
  refine ⟨outcome, houtcome, ?_⟩
  obtain ⟨-, hruled⟩ := ruled_of_optimize (by decide) rfl houtcome
  obtain ⟨hlength, hviolations⟩ := caughtSolve_history houtcome
  obtain ⟨first, second, third, heq⟩ := List.length_eq_three.mp hlength
  rw [heq] at hruled hviolations ⊢
  have hfirst : first.penalty = 3 := hruled.first rfl
  have hsecond : second.penalty = 3 := by
    have hnext : second.penalty = cappedSettings.following [] first := hruled.next rfl
    rw [hnext]
    simpa [Settings.following] using hfirst
  have hthird : third.penalty = 1 := by
    have hnext : third.penalty = cappedSettings.following [first] second := hruled.next rfl
    rw [Settings.following, if_pos, hsecond] at hnext
    · rw [hnext]
      norm_num [cappedSettings, modestSettings]
    · have h₁ := hviolations first (by simp)
      have h₂ := hviolations second (by simp)
      refine ⟨?_, first, rfl, ?_⟩
      · rw [h₂]
        norm_num [cappedSettings, modestSettings]
      · rw [h₁, h₂]
        norm_num
  simp [hfirst, hsecond, hthird]

theorem caughtSolve_follows_rule :
    ∃ outcome, caughtSolve = .ok outcome ∧
      (∃ s back, outcome.history = s :: back ∧ s.penalty = 3) ∧
      (∀ s ∈ outcome.history, 0 < s.penalty) ∧
      ¬ (∀ s ∈ outcome.history, s.penalty ≤ 1) ∧
      ((outcome.history.Pairwise fun s t => s.penalty ≤ t.penalty) ↔
        ∀ s ∈ outcome.history, s.penalty = 3) := by
  obtain ⟨outcome, houtcome⟩ := caughtSolve_returns
  obtain ⟨hfirst, -, hpositive, hbound, hmonotone⟩ :=
    penalties_follow_rule cappedSettings_accepted rfl houtcome
  have habove : ¬ cappedSettings.initialPenalty ≤ cappedSettings.maxPenalty := by
    norm_num [cappedSettings, modestSettings]
  refine ⟨outcome, houtcome, hfirst, hpositive, ?_, ?_⟩
  · exact fun hall => habove (hbound.mp hall)
  · rw [hmonotone]
    exact or_iff_right habove

end Caught

end Optima
