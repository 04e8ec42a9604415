import Plotter.Lib.Transition
import Plotter.Motors

/-!
# The tasks together

The host, the three tasks and the timer interrupt, as one step function. An event says
which of them goes on; a task runs from one blocking call to the next. Whatever is left
open by the firmware (which task runs, what the switches read, when the host sends, when
a wait expires) is in the choice of the events, so a list of events is an interleaving.

The two tasks that exchange commands use the same global `gObject`: the parser fills it
and passes its address to `xQueueSendToBack`, which copies it when the queue has room;
`xQueueReceive` copies the item of the queue into it.

`parsed`, `executed`, `completed` and `sent` are histories that no task reads.

## Main definitions

* `Order`: a command without the fields that do not belong to its kind.
* `ParsedLine`: what `parser->read` and the getters return for a line.
* `Sys`: the globals, the position of each task and the USB transfers under way.
* `Ev`, `step`: the events and the step function.
-/

namespace Plotter

open Lib

/-- A command: its kind, with the angle of an `M1` and the target of a `G1`. -/
inductive Order
  | M10
  | M1 (servo : ℤ)
  | G1 (xCoord yCoord : ℚ)
  | G28
  deriving DecidableEq, Repr

/-- The command that a `GObject` stands for. -/
def GObject.order? (g : GObject) : Option Order :=
  match Command.ofInt? g.command with
  | some .M10 => some .M10
  | some .M1 => some (.M1 g.servo)
  | some .G1 => some (.G1 g.xCoord g.yCoord)
  | some .G28 => some .G28
  | none => none

theorem GObject.command_of_order {g : GObject} {x y : ℚ} (h : g.order? = some (.G1 x y)) :
    Command.ofInt? g.command = some .G1 := by
  unfold order? at h
  cases hc : Command.ofInt? g.command with
  | none => simp [hc] at h
  | some c => cases c <;> simp [hc] at h ⊢

theorem GObject.coord_of_order {g : GObject} {x y : ℚ} (h : g.order? = some (.G1 x y)) :
    x = g.xCoord ∧ y = g.yCoord := by
  rw [order?, g.command_of_order h] at h
  cases h
  exact ⟨rfl, rfl⟩

/-- The result of `parser->read` on a line, and what `getAngle`, `getXCoord` and
`getYCoord` return after it. -/
structure ParsedLine where
  read : ℤ := 0
  angle : ℤ := 0
  xCoord : ℚ := 0
  yCoord : ℚ := 0
  deriving DecidableEq, Repr

namespace ParsedLine

/-- The command of a line; none for a line that `parser->read` does not know. -/
def order? (l : ParsedLine) : Option Order :=
  match Command.ofInt? l.read with
  | some .M10 => some .M10
  | some .M1 => some (.M1 l.angle)
  | some .G1 => some (.G1 l.xCoord l.yCoord)
  | some .G28 => some .G28
  | none => none

/-- The assignments to `gObject` before the send. The fields that do not belong to the
kind of the command keep their values; `none` is the `default` case, without a send. -/
def store (l : ParsedLine) (g : GObject) : Option GObject :=
  match Command.ofInt? l.read with
  | some .M10 => some { g with command := Command.M10.toInt }
  | some .M1 => some { g with command := Command.M1.toInt, servo := l.angle }
  | some .G1 =>
    some { g with command := Command.G1.toInt, xCoord := l.xCoord, yCoord := l.yCoord }
  | some .G28 => some { g with command := Command.G28.toInt }
  | none => none

/-- What is stored is the command of the line. -/
theorem order?_of_store {l : ParsedLine} {g g' : GObject} (h : l.store g = some g') :
    ∃ o, l.order? = some o ∧ g'.order? = some o := by
  unfold store at h
  unfold order?
  cases hc : Command.ofInt? l.read with
  | none => simp [hc] at h
  | some c =>
      cases c <;>
        (simp only [hc, Option.some.injEq] at h ⊢
         refine ⟨_, rfl, ?_⟩
         rw [← h, GObject.order?, Command.ofInt?_toInt])

theorem store_eq_none {l : ParsedLine} {g : GObject} (h : l.store g = none) : l.order? = none := by
  unfold store at h
  unfold order?
  cases hc : Command.ofInt? l.read with
  | none => rfl
  | some c => cases c <;> simp [hc] at h

end ParsedLine

/-- What the plotter sends to the host. -/
inductive Reply
  /-- `"M10 XY 340 300 0.00 0.00 A0 B0 H0 S80 U160 D90\n"`. -/
  | area
  /-- `"OK\n"`. -/
  | OK
  deriving DecidableEq, Repr

/-- Where `vParserTask` waits. -/
inductive ParserPc
  /-- In the first `vTaskDelay`. -/
  | delay
  /-- In `USB_receive`. -/
  | receive
  /-- In `xQueueSendToBack` with the address of `gObject`. -/
  | sending
  deriving DecidableEq, Repr

/-- Where `vStepperTask` waits. -/
inductive StepperPc
  /-- In `vTaskDelay`. -/
  | delay
  /-- In `xQueueReceive`. -/
  | receive
  /-- In the `USB_send` of the reply to `M10`. -/
  | sendArea
  /-- In `USB_send` of `OK`; `pause` if `vTaskDelay` comes after it. -/
  | sendOK (pause : Bool)
  /-- In a `RIT_start` of a move to the target of `object`: the calls still to be made
  after it, and the globals the move leaves. -/
  | drawing (object : GObject) (calls : List Event) (after : Drawer)
  deriving DecidableEq, Repr

/-- The globals, the tasks, and the transfers between them and the host. -/
structure Sys where
  gObject : GObject := {}
  /-- The queue of length one. -/
  commandQueue : Option GObject := none
  motors : Motors := {}
  drawer : Drawer := {}
  /-- `MATCHREL[1].L`, the position of the servo. -/
  servoMatch : ℕ := 1500
  parser : ParserPc := .delay
  stepper : StepperPc := .delay
  calibrate : CalibratePc := .ready
  /-- Lines on their way from the host, one to a packet. -/
  usbIn : List ParsedLine := []
  /-- Replies on their way to the host. -/
  usbOut : List Reply := []
  /-- No `OK` has arrived at the host since it sent its last line. -/
  outstanding : Bool := false
  /-- The lines the host has sent. -/
  sent : List ParsedLine := []
  /-- The commands the parser task has parsed. -/
  parsed : List Order := []
  /-- The commands the stepper task has begun to execute. -/
  executed : List Order := []
  /-- The commands it has executed: nothing but the `OK` and a pause are left of them. -/
  completed : List Order := []
  deriving DecidableEq, Repr

/-- Who goes on. -/
inductive Ev
  /-- The host sends a line. -/
  | hostSend (line : ParsedLine)
  /-- A reply arrives at the host. -/
  | hostReceive
  /-- The first delay of the parser task is over. -/
  | parserDelayed
  /-- `USB_receive` returns a line to the parser task. -/
  | parserReceive
  /-- `xQueueSendToBack` finds room. -/
  | parserSend
  /-- A delay of the stepper task is over. -/
  | stepperDelayed
  /-- `xQueueReceive` returns an item. -/
  | stepperReceive
  /-- The wait of `xQueueReceive` expires. -/
  | stepperExpire
  /-- `USB_send` of the stepper task is done. -/
  | stepperSent
  /-- The stepper task takes `sbRIT`. -/
  | stepperWake
  /-- `vCalibrate` begins, or takes `sbRIT`; then it reads the switches. -/
  | calibrateRun (rd : Readings)
  /-- The timer expires. -/
  | interrupt (rd : Readings)
  deriving DecidableEq, Repr

namespace Sys

/-! ## The host -/

def hostSend (s : Sys) (line : ParsedLine) : Sys :=
  { s with usbIn := s.usbIn ++ [line], sent := s.sent ++ [line], outstanding := true }

def hostReceive (s : Sys) : Option Sys :=
  match s.usbOut with
  | [] => none
  | .OK :: replies => some { s with usbOut := replies, outstanding := false }
  | .area :: replies => some { s with usbOut := replies }

/-! ## vParserTask -/

def parserDelayed (s : Sys) : Option Sys :=
  if s.parser = .delay then some { s with parser := .receive } else none

def parserReceive (s : Sys) : Option Sys :=
  match s.parser, s.usbIn with
  | .receive, line :: lines =>
    let s := { s with usbIn := lines, parsed := s.parsed ++ line.order?.toList }
    match line.store s.gObject with
    | some g => some { s with gObject := g, parser := .sending }
    | none => some s
  | _, _ => none

def parserSend (s : Sys) : Option Sys :=
  match s.parser, s.commandQueue with
  | .sending, none => some { s with commandQueue := some s.gObject, parser := .receive }
  | _, _ => none

/-! ## vStepperTask -/

/-- The work of command `o` is done; `OK` is sent next. -/
def acknowledge (s : Sys) (o : Order) (pause : Bool) : Sys :=
  { s with completed := s.completed ++ [o], stepper := .sendOK pause }

/-- On with a move, up to its next wait or to its end. -/
def draw (s : Sys) (object : GObject) (calls : List Event) (after : Drawer) : Sys :=
  match drawUntilWait calls s.motors with
  | (m, some calls) => { s with motors := m, stepper := .drawing object calls after }
  | (m, none) =>
    let s := { s with motors := m, drawer := after }
    s.acknowledge (.G1 object.xCoord object.yCoord) false

/-- `triggerMotors(object)` up to its first wait. The move reads the scale and the recorded
position only here, and no other task reads what it writes, so its calls and the globals it
leaves are known from the start. -/
def triggerMotors (s : Sys) (object : GObject) : Sys :=
  let after := Plotter.triggerMotors s.motors.scale object s.drawer
  s.draw object (after.issued.drop s.drawer.issued.length) after

/-- `switch (gObject.command)`. -/
def execute (s : Sys) : Sys :=
  let s := { s with executed := s.executed ++ s.gObject.order?.toList }
  match Command.ofInt? s.gObject.command with
  | some .M10 => { s with stepper := .sendArea }
  | some .M1 =>
    let s := { s with servoMatch := if s.gObject.servo = 160 then 1100 else 1600 }
    s.acknowledge (.M1 s.gObject.servo) true
  | some .G1 => s.triggerMotors s.gObject
  | some .G28 => s.acknowledge .G28 false
  | none => s

def stepperDelayed (s : Sys) : Option Sys :=
  if s.stepper = .delay then some { s with stepper := .receive } else none

def stepperReceive (s : Sys) : Option Sys :=
  match s.stepper, s.commandQueue with
  | .receive, some g =>
    let s := { s with gObject := g, commandQueue := none }
    some s.execute
  | _, _ => none

def stepperExpire (s : Sys) : Option Sys :=
  match s.stepper, s.commandQueue with
  | .receive, none => some { s with stepper := .sendOK false }
  | _, _ => none

def stepperSent (s : Sys) : Option Sys :=
  match s.stepper with
  | .sendArea =>
    let s := { s with usbOut := s.usbOut ++ [Reply.area] }
    some (s.acknowledge .M10 false)
  | .sendOK pause =>
    some { s with usbOut := s.usbOut ++ [.OK], stepper := if pause then .delay else .receive }
  | _ => none

def stepperWake (s : Sys) : Option Sys :=
  match s.stepper with
  | .drawing object calls after =>
    if s.motors.engine.sbRIT then
      let s := { s with motors := s.motors.wake }
      some (s.draw object calls after)
    else none
  | _ => none

/-! ## vCalibrate and the interrupt -/

def calibrateRun (rd : Readings) (s : Sys) : Option Sys :=
  match s.calibrate with
  | .ready =>
    let s := { s with servoMatch := 1100 }
    let (m, pc) := calibrateResume rd .ready s.motors
    some { s with motors := m, calibrate := pc }
  | .done => none
  | pc =>
    if s.motors.engine.sbRIT then
      let (m, pc) := calibrateResume rd pc s.motors.wake
      some { s with motors := m, calibrate := pc }
    else none

def interrupt (rd : Readings) (s : Sys) : Option Sys :=
  if s.motors.engine.timer && s.motors.engine.irq then
    some { s with motors := s.motors.interrupt rd }
  else none

end Sys

/-- One step of the system. -/
def step (s : Sys) : Ev → Option Sys
  | .hostSend line => some (s.hostSend line)
  | .hostReceive => s.hostReceive
  | .parserDelayed => s.parserDelayed
  | .parserReceive => s.parserReceive
  | .parserSend => s.parserSend
  | .stepperDelayed => s.stepperDelayed
  | .stepperReceive => s.stepperReceive
  | .stepperExpire => s.stepperExpire
  | .stepperSent => s.stepperSent
  | .stepperWake => s.stepperWake
  | .calibrateRun rd => s.calibrateRun rd
  | .interrupt rd => s.interrupt rd

/-- The state at start-up. -/
def Sys.init : Sys := {}

/-! ## What each party can do -/

namespace Sys
variable {s s' : Sys}

theorem hostReceive_cases (h : s.hostReceive = some s') : ∃ r replies, s.usbOut = r :: replies ∧
    s' = { s with
      usbOut := replies
      outstanding := if r = .OK then false else s.outstanding } := by
  unfold hostReceive at h
  split at h
  · cases h
  · rename_i replies hout
    exact ⟨.OK, replies, hout, (Option.some_inj.mp h).symm⟩
  · rename_i replies hout
    exact ⟨.area, replies, hout, (Option.some_inj.mp h).symm⟩

theorem parserDelayed_cases (h : s.parserDelayed = some s') :
    s.parser = .delay ∧ s' = { s with parser := .receive } := by
  unfold parserDelayed at h
  split_ifs at h with hpc
  exact ⟨hpc, (Option.some_inj.mp h).symm⟩

/-- A line that is a command is stored and sent; another one is dropped. -/
theorem parserReceive_cases (h : s.parserReceive = some s') : s.parser = .receive ∧
    ∃ line lines, s.usbIn = line :: lines ∧
      ((∃ g, line.store s.gObject = some g ∧ s' = { s with
          usbIn := lines
          parsed := s.parsed ++ line.order?.toList
          gObject := g
          parser := .sending }) ∨
        (line.order? = none ∧ s' = { s with usbIn := lines })) := by
  unfold parserReceive at h
  split at h
  · rename_i line lines hpc hin
    refine ⟨hpc, line, lines, hin, ?_⟩
    cases hstore : line.store s.gObject with
    | some g =>
        simp only [hstore, Option.some_inj] at h
        exact .inl ⟨g, rfl, h.symm⟩
    | none =>
        have hnone := ParsedLine.store_eq_none hstore
        simp only [hstore, hnone, Option.toList_none, List.append_nil, Option.some_inj] at h
        exact .inr ⟨hnone, h.symm⟩
  · cases h

theorem parserSend_cases (h : s.parserSend = some s') :
    s.parser = .sending ∧ s.commandQueue = none ∧
      s' = { s with commandQueue := some s.gObject, parser := .receive } := by
  unfold parserSend at h
  split at h
  · rename_i hpc hqueue
    exact ⟨hpc, hqueue, (Option.some_inj.mp h).symm⟩
  · cases h

theorem stepperDelayed_cases (h : s.stepperDelayed = some s') :
    s.stepper = .delay ∧ s' = { s with stepper := .receive } := by
  unfold stepperDelayed at h
  split_ifs at h with hpc
  exact ⟨hpc, (Option.some_inj.mp h).symm⟩

theorem stepperExpire_cases (h : s.stepperExpire = some s') :
    s.stepper = .receive ∧ s.commandQueue = none ∧ s' = { s with stepper := .sendOK false } := by
  unfold stepperExpire at h
  split at h
  · rename_i hpc hqueue
    exact ⟨hpc, hqueue, (Option.some_inj.mp h).symm⟩
  · cases h

theorem stepperSent_cases (h : s.stepperSent = some s') :
    (s.stepper = .sendArea ∧ s' = { s with
      usbOut := s.usbOut ++ [.area]
      completed := s.completed ++ [.M10]
      stepper := .sendOK false }) ∨
    ∃ pause, s.stepper = .sendOK pause ∧ s' = { s with
      usbOut := s.usbOut ++ [.OK]
      stepper := if pause then .delay else .receive } := by
  unfold stepperSent at h
  split at h
  · rename_i hpc
    exact .inl ⟨hpc, (Option.some_inj.mp h).symm⟩
  · rename_i pause hpc
    exact .inr ⟨pause, hpc, (Option.some_inj.mp h).symm⟩
  · cases h

theorem stepperWake_cases (h : s.stepperWake = some s') : ∃ object calls after,
    s.stepper = .drawing object calls after ∧ s.motors.engine.sbRIT = true ∧
      s' = draw { s with motors := s.motors.wake } object calls after := by
  unfold stepperWake at h
  split at h
  · rename_i object calls after hpc
    split_ifs at h with hsb
    exact ⟨object, calls, after, hpc, hsb, (Option.some_inj.mp h).symm⟩
  · cases h

theorem calibrateRun_cases {rd : Readings} (h : s.calibrateRun rd = some s') :
    (s.calibrate = .ready ∧ s' = { s with
      servoMatch := 1100
      motors := (calibrateResume rd .ready s.motors).1
      calibrate := (calibrateResume rd .ready s.motors).2 }) ∨
    ∃ a, s.calibrate.waitsFor = some a ∧ s.motors.engine.sbRIT = true ∧ s' = { s with
      motors := (calibrateResume rd s.calibrate s.motors.wake).1
      calibrate := (calibrateResume rd s.calibrate s.motors.wake).2 } := by
  unfold calibrateRun at h
  cases hpc : s.calibrate with
  | ready =>
      simp only [hpc, Option.some_inj] at h
      exact .inl ⟨rfl, h.symm⟩
  | step a =>
      simp only [hpc] at h
      split_ifs at h with hsb
      exact .inr ⟨a, rfl, hsb, (Option.some_inj.mp h).symm⟩
  | backOff a i =>
      simp only [hpc] at h
      split_ifs at h with hsb
      exact .inr ⟨a, rfl, hsb, (Option.some_inj.mp h).symm⟩
  | done => simp [hpc] at h

theorem interrupt_cases {rd : Readings} (h : s.interrupt rd = some s') :
    s.motors.engine.timer = true ∧ s' = { s with motors := s.motors.interrupt rd } := by
  unfold interrupt at h
  split_ifs at h with hon
  exact ⟨(Bool.and_eq_true _ _ ▸ hon).1, (Option.some_inj.mp h).symm⟩

/-- A move waits, or it is over. -/
theorem draw_cases (s : Sys) (object : GObject) (calls : List Event) (after : Drawer) :
    (∃ rest, (drawUntilWait calls s.motors).2 = some rest ∧
      s.draw object calls after = { s with
        motors := (drawUntilWait calls s.motors).1
        stepper := .drawing object rest after }) ∨
    ((drawUntilWait calls s.motors).2 = none ∧
      s.draw object calls after = { s with
        motors := (drawUntilWait calls s.motors).1
        drawer := after
        completed := s.completed ++ [.G1 object.xCoord object.yCoord]
        stepper := .sendOK false }) := by
  unfold draw
  obtain ⟨m, rest⟩ := drawUntilWait calls s.motors
  cases rest with
  | some rest => exact .inl ⟨rest, rfl, rfl⟩
  | none => exact .inr ⟨rfl, rfl⟩

/-- The state in which the stepper task executes the item `g` of the queue. -/
def take (s : Sys) (g : GObject) : Sys :=
  { s with gObject := g, commandQueue := none, executed := s.executed ++ g.order?.toList }

/-- The stepper task executes the command that the item of the queue stands for; the calls
of a move are those of the drawer. -/
theorem stepperReceive_cases (h : s.stepperReceive = some s') : s.stepper = .receive ∧
    ∃ g, s.commandQueue = some g ∧ s' = match g.order? with
      | none => s.take g
      | some .M10 => { s.take g with stepper := .sendArea }
      | some (.M1 servo) => { s.take g with
          servoMatch := if servo = 160 then 1100 else 1600
          completed := s.completed ++ [.M1 servo]
          stepper := .sendOK true }
      | some (.G1 _ _) => (s.take g).draw g (moveEvents s.motors.scale g s.drawer)
          (Plotter.triggerMotors s.motors.scale g s.drawer)
      | some .G28 => { s.take g with
          completed := s.completed ++ [.G28]
          stepper := .sendOK false } := by
  unfold stepperReceive at h
  split at h
  · rename_i g hpc hqueue
    refine ⟨hpc, g, hqueue, ?_⟩
    rw [← Option.some_inj.mp h, execute, GObject.order?]
    cases hc : Command.ofInt? g.command with
    | none => simp [hc, take, GObject.order?]
    | some c =>
        cases c <;>
          simp [hc, take, GObject.order?, acknowledge, triggerMotors, triggerMotors_issued]
  · cases h

/-- Nothing that concerns the motors and the work of the stepper task differs. -/
structure SameWork (s s' : Sys) : Prop where
  stepper_eq : s'.stepper = s.stepper
  calibrate_eq : s'.calibrate = s.calibrate
  motors_eq : s'.motors = s.motors
  drawer_eq : s'.drawer = s.drawer
  completed_eq : s'.completed = s.completed

end Sys

/-- The steps of the host and of the parser task. -/
def Ev.isTransfer : Ev → Bool
  | .hostSend _ | .hostReceive | .parserDelayed | .parserReceive | .parserSend => true
  | _ => false

/-- The host and the parser task touch neither the motors nor the stepper task. -/
theorem sameWork_of_transfer {s s' : Sys} {e : Ev} (he : e.isTransfer = true)
    (hs : step s e = some s') : s.SameWork s' := by
  cases e with
  | hostSend line =>
      rw [← Option.some_inj.mp hs]
      exact ⟨rfl, rfl, rfl, rfl, rfl⟩
  | hostReceive =>
      obtain ⟨r, replies, -, rfl⟩ := Sys.hostReceive_cases hs
      exact ⟨rfl, rfl, rfl, rfl, rfl⟩
  | parserDelayed =>
      obtain ⟨-, rfl⟩ := Sys.parserDelayed_cases hs
      exact ⟨rfl, rfl, rfl, rfl, rfl⟩
  | parserReceive =>
      obtain ⟨-, line, lines, -, ⟨g, -, rfl⟩ | ⟨-, rfl⟩⟩ := Sys.parserReceive_cases hs
      · exact ⟨rfl, rfl, rfl, rfl, rfl⟩
      · exact ⟨rfl, rfl, rfl, rfl, rfl⟩
  | parserSend =>
      obtain ⟨-, -, rfl⟩ := Sys.parserSend_cases hs
      exact ⟨rfl, rfl, rfl, rfl, rfl⟩
  | _ => cases he

end Plotter
