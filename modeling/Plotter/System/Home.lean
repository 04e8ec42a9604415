import Plotter.System.Sharing

/-!
# The recorded position when calibration ends

`triggerMotors` records its target as the position, whether or not it made a step, and
`vCalibrate` moves the carriages without a look at the record. So what the record says when
calibration ends is the target of the last move before it.

## Main definitions

* `targets`: the targets of the moves among some commands.
* `recorded_home_iff`: the record is home if and only if the last move went there.
-/

namespace Plotter

open Lib

/-- The target of a move. -/
def Order.target? : Order → Option (ℚ × ℚ)
  | .G1 x y => some (x, y)
  | _ => none

/-- The targets of the moves among the commands. -/
def targets (orders : List Order) : List (ℚ × ℚ) := orders.filterMap Order.target?

theorem targets_concat_of_none (os : List Order) {o : Order} (h : o.target? = none) :
    targets (os ++ [o]) = targets os := by
  simp [targets, h]

theorem targets_concat_G1 (os : List Order) (x y : ℚ) :
    targets (os ++ [.G1 x y]) = targets os ++ [(x, y)] := by
  simp [targets, Order.target?]

/-- The record is the target of the last move that was completed, and the move under way
will record its own. -/
structure Sys.RecordInv (s : Sys) : Prop where
  recorded : (s.drawer.x0, s.drawer.y0) = (targets s.completed).getLast?.getD (0, 0)
  leaves : ∀ object calls after, s.stepper = .drawing object calls after →
    after.x0 = object.xCoord ∧ after.y0 = object.yCoord

namespace Sys.RecordInv
variable {s s' : Sys}

theorem init : Sys.init.RecordInv := ⟨rfl, by simp [Sys.init]⟩

/-- Steps that complete no move and begin none. -/
theorem of_same (h : s.RecordInv) (hd : s'.drawer = s.drawer)
    (hc : targets s'.completed = targets s.completed)
    (hpc : ∀ object calls after, s'.stepper ≠ .drawing object calls after) : s'.RecordInv where
  recorded := by rw [hd, hc, h.recorded]
  leaves := fun object calls after heq => absurd heq (hpc object calls after)

theorem draw (h : s.RecordInv) {object : GObject} (calls : List Event) {after : Drawer}
    (hx : after.x0 = object.xCoord) (hy : after.y0 = object.yCoord) :
    (s.draw object calls after).RecordInv := by
  rcases draw_cases s object calls after with ⟨rest, -, heq⟩ | ⟨-, heq⟩
  · rw [heq]
    refine ⟨h.recorded, fun o c a hpc => ?_⟩
    cases hpc
    exact ⟨hx, hy⟩
  · rw [heq]
    refine ⟨?_, by simp⟩
    rw [targets_concat_G1, List.getLast?_concat, hx, hy]
    rfl

theorem step {e : Ev} (h : s.RecordInv) (hs : step s e = some s') : s'.RecordInv := by
  cases e with
  | hostSend _ | hostReceive | parserDelayed | parserReceive | parserSend =>
      have hsame := sameWork_of_transfer rfl hs
      refine ⟨?_, ?_⟩
      · rw [hsame.drawer_eq, hsame.completed_eq]
        exact h.recorded
      · rw [hsame.stepper_eq]
        exact h.leaves
  | stepperDelayed =>
      obtain ⟨hpc, rfl⟩ := stepperDelayed_cases hs
      exact h.of_same rfl rfl (by simp)
  | stepperReceive =>
      obtain ⟨hpc, g, hqueue, rfl⟩ := stepperReceive_cases hs
      cases horder : g.order? with
      | none => exact h.of_same rfl rfl (by simp [take, hpc])
      | some o =>
          cases o with
          | M10 => exact h.of_same rfl rfl (by simp)
          | M1 servo => exact h.of_same rfl (targets_concat_of_none _ rfl) (by simp)
          | G28 => exact h.of_same rfl (targets_concat_of_none _ rfl) (by simp)
          | G1 x y =>
              refine draw (s := s.take g) ⟨h.recorded, ?_⟩ _ ?_ ?_
              · simp [take, hpc]
              · exact triggerMotors_x0 ..
              · exact triggerMotors_y0 ..
  | stepperExpire =>
      obtain ⟨hpc, -, rfl⟩ := stepperExpire_cases hs
      exact h.of_same rfl rfl (by simp)
  | stepperSent =>
      obtain ⟨hpc, rfl⟩ | ⟨pause, hpc, rfl⟩ := stepperSent_cases hs
      · exact h.of_same rfl (targets_concat_of_none _ rfl) (by simp)
      · exact h.of_same rfl rfl (by cases pause <;> simp)
  | stepperWake =>
      obtain ⟨object, calls, after, hpc, -, rfl⟩ := stepperWake_cases hs
      obtain ⟨hx, hy⟩ := h.leaves object calls after hpc
      exact draw (s := { s with motors := s.motors.wake }) ⟨h.recorded, h.leaves⟩ calls hx hy
  | calibrateRun rd =>
      obtain ⟨-, rfl⟩ | ⟨a, -, -, rfl⟩ := calibrateRun_cases hs
      · exact ⟨h.recorded, h.leaves⟩
      · exact ⟨h.recorded, h.leaves⟩
  | interrupt rd =>
      obtain ⟨-, rfl⟩ := interrupt_cases hs
      exact ⟨h.recorded, h.leaves⟩

end Sys.RecordInv

/-- The step with which `vCalibrate` ends. -/
def Sys.CalibrationEnds (s : Sys) (e : Ev) (s' : Sys) : Prop :=
  step s e = some s' ∧ s.calibrate ≠ .done ∧ s'.calibrate = .done

/-- **The record at the end of calibration.** In every run it is home if and only if no
move has been completed before, or the last one went home. -/
theorem recorded_home_iff {es : List Ev} {e : Ev} {s s' : Sys}
    (hrun : run step Sys.init es = some s) (hend : s.CalibrationEnds e s') :
    (s'.drawer.x0 = 0 ∧ s'.drawer.y0 = 0) ↔ ∀ p ∈ (targets s'.completed).getLast?, p = (0, 0) := by
  have hinv : s'.RecordInv :=
    (run_induction_all (fun _ _ _ h => h.step) Sys.RecordInv.init hrun).step hend.1
  rw [← Prod.mk.injEq, hinv.recorded]
  cases (targets s'.completed).getLast? with
  | none => simp
  | some p => simp

/-- A move to `(5, 7)` is executed before calibration has made a step; then both axes are
calibrated, over a travel of one step, up to the last wait. -/
def movedEarly : List Ev :=
  [.calibrateRun {}, .parserDelayed, .stepperDelayed] ++ moveTo 5 7 ++ [.stepperSent] ++
    stepAndRead { xStart := true } ++ stepAndRead { yStart := true } ++
    stepAndRead { xEnd := true } ++ stepAndRead {} ++ stepAndRead { yEnd := true } ++
    [.interrupt {}, .interrupt {}]

theorem movedEarly_ends : ∃ s s', run step Sys.init movedEarly = some s ∧
    s.CalibrationEnds (.calibrateRun {}) s' ∧ s'.stepper = .receive ∧
    s'.drawer.x0 = 5 ∧ s'.drawer.y0 = 7 := by
  have hlast : ∃ s, run step Sys.init movedEarly = some s ∧ s.calibrate ≠ .done ∧
      (step s (.calibrateRun {})).any (fun s' => decide (s'.calibrate = .done ∧
        s'.stepper = .receive ∧ s'.drawer.x0 = 5 ∧ s'.drawer.y0 = 7)) = true :=
    exists_of_run (by decide +kernel)
  obtain ⟨s, hs, hbefore, hfinal⟩ := hlast
  obtain ⟨s', hs', hends⟩ := (Option.any_eq_true _ _).mp hfinal
  obtain ⟨hafter, hpc, hx, hy⟩ := of_decide_eq_true hends
  exact ⟨s, s', hs, ⟨hs', hbefore, hafter⟩, hpc, hx, hy⟩

/-- After that run the carriages are home, and the record says `(5, 7)`. -/
theorem movedEarly_not_home : ¬ ∀ (es : List Ev) (e : Ev) (s s' : Sys),
    run step Sys.init es = some s → s.CalibrationEnds e s' → s'.stepper = .receive →
      s'.drawer.x0 = 0 ∧ s'.drawer.y0 = 0 := by
  intro h
  obtain ⟨s, s', hrun, hend, hpc, hx, -⟩ := movedEarly_ends
  have hzero := (h movedEarly _ s s' hrun hend hpc).1
  rw [hx] at hzero
  norm_num at hzero

theorem recorded_home_iff_movedEarly : ∃ s s', run step Sys.init movedEarly = some s ∧
    s.CalibrationEnds (.calibrateRun {}) s' ∧ ((s'.drawer.x0 = 0 ∧ s'.drawer.y0 = 0) ↔
      ∀ p ∈ (targets s'.completed).getLast?, p = (0, 0)) := by
  obtain ⟨s, s', hrun, hend, -⟩ := movedEarly_ends
  exact ⟨s, s', hrun, hend, recorded_home_iff hrun hend⟩

end Plotter
