import Plotter.Cdc.Chunks
import Plotter.GCodeParser.Commands
import Plotter.System.Turns

/-!
# The tasks with the USB driver

In `Sys` a line comes from the host in one piece and as the parser reads it, and a reply is
sent in one step. Here the bytes of both go through the driver, `cdc_task`, its buffers and
queues, the arrays of `vParserTask` and `parser->read`. `sys` has the rest of the globals and
tasks; the line that is read is sent and received there at once, and its `usbOut` has the
replies whose `USB_send` has returned.

## Main definitions

* `Reply.text`: the bytes of a reply.
* `Firmware`: the driver, the arrays, the parser and the system of tasks.
* `Firmware.Ev`, `Firmware.step`: the events and the step function.
* `Firmware.sysEvents`: the events of `Sys` that a step stands for.
* `Firmware.refines`: every run is a run of `Sys`.
-/

namespace Plotter

open Lib

namespace Reply

/-- The characters of a reply, without the NUL behind them. -/
def chars : Reply → List UInt8
  | .area =>
    -- "M10 XY 340 300 0.00 0.00 "
    [77, 49, 48, 32, 88, 89, 32, 51, 52, 48, 32, 51, 48, 48, 32, 48, 46, 48, 48, 32, 48, 46, 48,
      48, 32,
    -- "A0 B0 H0 S80 U160 D90\n"
      65, 48, 32, 66, 48, 32, 72, 48, 32, 83, 56, 48, 32, 85, 49, 54, 48, 32, 68, 57, 48, 10]
  | .OK => [79, 75, 10]

/-- The string literal that is passed to `USB_send`. -/
def text (r : Reply) : List UInt8 := r.chars ++ [0]

/-- The length that is passed with it. -/
def length : Reply → ℕ
  | .area => 48
  | .OK => 4

/-- The NUL is sent, too. -/
theorem length_text (r : Reply) : r.text.length = r.length := by cases r <;> rfl

end Reply

/-- The driver and `cdc_task`, the arrays and the parser of `vParserTask`, and the other
globals and tasks. -/
structure Firmware where
  usb : Cdc.State Unit Unit
  arrays : Reader
  parser : GCodeParser
  sys : Sys := {}

namespace Firmware

/-- At start-up; nothing is known of `rx_buff`, of the arrays on the stack and of the fields of the
parser, which its constructor does not set. -/
def init (rx_buff : Buffer transferSize) (arrays : Reader) (parser : GCodeParser) : Firmware where
  usb := .init Unit Unit rx_buff
  arrays := arrays
  parser := parser

inductive Ev
  /-- The USB interrupt, for an event of an endpoint. -/
  | usb (e : UsbEvent)
  /-- The ROM touches `rx_buff`. -/
  | rom (bytes : Buffer transferSize)
  /-- The USB interrupt, for `VCOM_SetLineCode`. -/
  | lineCode
  /-- The connection comes and goes. -/
  | connection (flags : TxFlags)
  /-- On with `cdc_task`; `WriteEP` accepts `n` bytes if it is called. -/
  | cdcTask (n : ℕ)
  /-- On with `vParserTask`; `l` is on its stack if `parser->read` is called. -/
  | parserTask (l : Locals)
  /-- On with `vStepperTask`. -/
  | stepperTask
  /-- The wait of `xQueueReceive` expires. -/
  | stepperExpire
  /-- On with `vCalibrate`. -/
  | calibrate (rd : Readings)
  /-- The timer interrupt. -/
  | timer (rd : Readings)

/-- A step of the driver, of `cdc_task` or of a call that it serves. -/
def onUsb (f : Firmware) (e : Cdc.Ev Unit Unit) : Option Firmware :=
  (Cdc.step f.usb e).map fun usb => { f with usb := usb }

/-- A step of the other tasks. -/
def onSys (f : Firmware) (e : Plotter.Ev) : Option Firmware :=
  (Plotter.step f.sys e).map fun sys => { f with sys := sys }

/-- `switch (parser->read(buffStr))`. If `read` leaves its arrays, what the code does is undefined,
and there is no step. -/
def parseLine (f : Firmware) (l : Locals) : Option Firmware := do
  let r ← f.parser.read l f.arrays.buffStr
  let sys ← (f.sys.hostSend r.parsedLine).parserReceive
  return { f with parser := r.parser, sys := sys }

/-- On with `vParserTask`. In its loop it is in `USB_receive`, which it leaves with `data`. -/
def parserTask (f : Firmware) (l : Locals) : Option Firmware :=
  match f.sys.parser with
  | .delay => f.onSys .parserDelayed
  | .sending => f.onSys .parserSend
  | .receive =>
    match f.usb.rx.readers () with
    | .idle => f.onUsb (.receiveCall () 96)
    | .take _ | .copy _ _ => f.onUsb (.reader ())
    | .back _ data => do
      let f ← f.onUsb (.reader ())
      let (arrays, loopRead) ← f.arrays.receive data
      let f := { f with arrays := arrays }
      if loopRead then return f else f.parseLine l

/-- On with `USB_send` of the stepper task; it leaves it over the mutex. -/
def sendReply (f : Firmware) (reply : Reply) : Option Firmware :=
  match f.usb.tx.senders () with
  | .idle => f.onUsb (.sendCall () reply.text reply.length)
  | .take _ | .queue _ | .wake _ | .wait _ => f.onUsb (.sender ())
  | .give _ => do
    let f ← f.onUsb (.sender ())
    f.onSys .stepperSent

/-- On with `vStepperTask`. -/
def stepperTask (f : Firmware) : Option Firmware :=
  match f.sys.stepper with
  | .delay => f.onSys .stepperDelayed
  | .receive => f.onSys .stepperReceive
  | .drawing _ _ _ => f.onSys .stepperWake
  | .sendArea => f.sendReply .area
  | .sendOK _ => f.sendReply .OK

/-- One step of the firmware. -/
def step (f : Firmware) : Ev → Option Firmware
  | .usb e => f.onUsb (.usb e)
  | .rom bytes => f.onUsb (.rom bytes)
  | .lineCode => f.onUsb .lineCode
  | .connection flags => f.onUsb (.connection flags)
  | .cdcTask n => f.onUsb (.task n)
  | .parserTask l => f.parserTask l
  | .stepperTask => f.stepperTask
  | .stepperExpire => f.onSys .stepperExpire
  | .calibrate rd => f.onSys (.calibrateRun rd)
  | .timer rd => f.onSys (.interrupt rd)

/-! ## The events of the system of tasks -/

/-- What `parser->read` returns if the next step calls it. -/
def result? (f : Firmware) (l : Locals) : Option GCodeParser.Result :=
  match f.usb.rx.readers () with
  | .back _ data =>
    match f.arrays.receive data with
    | some (arrays, false) => f.parser.read l arrays.buffStr
    | _ => none
  | _ => none

/-- The events of the system of tasks that a step stands for. -/
def sysEvents (f : Firmware) : Ev → List Plotter.Ev
  | .parserTask l =>
    match f.sys.parser with
    | .delay => [.parserDelayed]
    | .sending => [.parserSend]
    | .receive =>
      match f.result? l with
      | some r => [.hostSend r.parsedLine, .parserReceive]
      | none => []
  | .stepperTask =>
    match f.sys.stepper with
    | .delay => [.stepperDelayed]
    | .receive => [.stepperReceive]
    | .drawing _ _ _ => [.stepperWake]
    | .sendArea | .sendOK _ =>
      match f.usb.tx.senders () with
      | .give _ => [.stepperSent]
      | _ => []
  | .stepperExpire => [.stepperExpire]
  | .calibrate rd => [.calibrateRun rd]
  | .timer rd => [.interrupt rd]
  | _ => []

/-! ## What a step can do -/

section Cases
variable {f f' : Firmware}

theorem onUsb_cases {e : Cdc.Ev Unit Unit} (h : f.onUsb e = some f') :
    ∃ usb, Cdc.step f.usb e = some usb ∧ f' = { f with usb := usb } := by
  obtain ⟨usb, husb, rfl⟩ := Option.map_eq_some_iff.mp h
  exact ⟨usb, husb, rfl⟩

theorem onSys_cases {e : Plotter.Ev} (h : f.onSys e = some f') :
    ∃ sys, Plotter.step f.sys e = some sys ∧ f' = { f with sys := sys } := by
  obtain ⟨sys, hsys, rfl⟩ := Option.map_eq_some_iff.mp h
  exact ⟨sys, hsys, rfl⟩

/-- The parser task reads a line: its arrays change, and the result goes to the system. -/
structure ReadsLine (f : Firmware) (l : Locals) (data : List UInt8) (r : GCodeParser.Result)
    (f' : Firmware) : Prop where
  usb : Cdc.step f.usb (.reader ()) = some f'.usb
  arrays : f.arrays.receive data = some (f'.arrays, false)
  read : f.parser.read l f'.arrays.buffStr = some r
  parser : f'.parser = r.parser
  sys : (f.sys.hostSend r.parsedLine).parserReceive = some f'.sys

/-- In its loop the parser task goes on with `USB_receive`, or it is given a chunk. That is
the end of a line, or the loop goes on. -/
theorem parserTask_cases {l : Locals} (hpc : f.sys.parser = .receive)
    (h : f.parserTask l = some f') :
    (∃ e usb, (e = .receiveCall () 96 ∨ e = .reader ()) ∧ Cdc.step f.usb e = some usb ∧
      Cdc.returned f.usb e = [] ∧ f.result? l = none ∧ f' = { f with usb := usb }) ∨
    ∃ rec data, f.usb.rx.readers () = .back rec data ∧
      ((∃ usb arrays, Cdc.step f.usb (.reader ()) = some usb ∧
          f.arrays.receive data = some (arrays, true) ∧ f.result? l = none ∧
          f' = { f with usb := usb, arrays := arrays }) ∨
        ∃ r, f.result? l = some r ∧ f.ReadsLine l data r f') := by
  rw [parserTask, hpc] at h
  cases hr : f.usb.rx.readers () with
  | idle =>
      simp only [hr] at h
      obtain ⟨usb, husb, rfl⟩ := onUsb_cases h
      exact .inl ⟨_, usb, .inl rfl, husb, rfl, by rw [result?, hr], rfl⟩
  | take length | copy rec length =>
      simp only [hr] at h
      obtain ⟨usb, husb, rfl⟩ := onUsb_cases h
      exact .inl ⟨_, usb, .inr rfl, husb, by rw [Cdc.returned, hr], by rw [result?, hr], rfl⟩
  | back rec data =>
      simp only [hr] at h
      obtain ⟨f₁, hf₁, h⟩ := Option.bind_eq_some_iff.mp h
      obtain ⟨usb, husb, rfl⟩ := onUsb_cases hf₁
      obtain ⟨⟨arrays, loopRead⟩, hreceive, h⟩ := Option.bind_eq_some_iff.mp h
      have hreceive : f.arrays.receive data = some (arrays, loopRead) := hreceive
      refine .inr ⟨rec, data, rfl, ?_⟩
      cases loopRead with
      | true =>
          obtain rfl := Option.some_inj.mp h
          exact .inl ⟨usb, arrays, husb, hreceive, by simp only [result?, hr, hreceive], rfl⟩
      | false =>
          obtain ⟨r, hread, h⟩ := Option.bind_eq_some_iff.mp h
          obtain ⟨sys, hsys, h⟩ := Option.bind_eq_some_iff.mp h
          obtain rfl := Option.some_inj.mp h
          exact .inr ⟨r, by simp only [result?, hr, hreceive]; exact hread,
            husb, hreceive, hread, rfl, hsys⟩

/-- In `USB_send` the stepper task goes on with it, or leaves it. -/
theorem sendReply_cases {reply : Reply} (h : f.sendReply reply = some f') :
    (∃ e usb, (∀ n, f.usb.tx.senders () ≠ .give n) ∧
      (e = .sendCall () reply.text reply.length ∧ f.usb.tx.senders () = .idle ∨
        e = .sender () ∧ f.usb.tx.senders () ≠ .idle) ∧
      Cdc.step f.usb e = some usb ∧ f' = { f with usb := usb }) ∨
    ∃ n usb sys, f.usb.tx.senders () = .give n ∧ Cdc.step f.usb (.sender ()) = some usb ∧
      Plotter.step f.sys .stepperSent = some sys ∧ f' = { f with usb := usb, sys := sys } := by
  rw [sendReply] at h
  cases hs : f.usb.tx.senders () with
  | idle =>
      simp only [hs] at h
      obtain ⟨usb, husb, rfl⟩ := onUsb_cases h
      exact .inl ⟨_, usb, (fun _ hgive => by cases hgive), .inl ⟨rfl, rfl⟩, husb, rfl⟩
  | take n | queue n | wake n | wait n =>
      simp only [hs] at h
      obtain ⟨usb, husb, rfl⟩ := onUsb_cases h
      exact .inl ⟨_, usb, (fun _ hgive => by cases hgive), .inr ⟨rfl, fun hidle => by cases hidle⟩,
        husb, rfl⟩
  | give n =>
      simp only [hs] at h
      obtain ⟨f₁, hf₁, h⟩ := Option.bind_eq_some_iff.mp h
      obtain ⟨usb, husb, rfl⟩ := onUsb_cases hf₁
      obtain ⟨sys, hsys, rfl⟩ := onSys_cases h
      exact .inr ⟨n, usb, sys, rfl, husb, hsys, rfl⟩

end Cases

/-! ## The refinement -/

section Refines
variable {f f' : Firmware}

theorem run_singleton {e : Plotter.Ev} {sys : Sys} (h : Plotter.step f.sys e = some sys) :
    run Plotter.step f.sys [e] = some sys := run_cons_eq_some.mpr ⟨sys, h, rfl⟩

theorem parserTask_sys {l : Locals} (h : f.parserTask l = some f') :
    run Plotter.step f.sys (f.sysEvents (.parserTask l)) = some f'.sys := by
  rw [sysEvents]
  cases hpc : f.sys.parser with
  | delay | sending =>
      rw [parserTask, hpc] at h
      obtain ⟨sys, hsys, rfl⟩ := onSys_cases h
      exact run_singleton hsys
  | receive =>
      rcases parserTask_cases hpc h with
        ⟨e, usb, -, -, -, hnone, rfl⟩ | ⟨rec, data, -, ⟨usb, arrays, -, -, hnone, rfl⟩ | ⟨r, hr, hline⟩⟩
      · rw [hnone]
        rfl
      · rw [hnone]
        rfl
      · rw [hr]
        exact run_cons_eq_some.mpr ⟨_, rfl, run_cons_eq_some.mpr ⟨f'.sys, hline.sys, rfl⟩⟩

theorem stepperTask_sys (h : f.stepperTask = some f') :
    run Plotter.step f.sys (f.sysEvents .stepperTask) = some f'.sys := by
  rw [stepperTask] at h
  rw [sysEvents]
  cases hpc : f.sys.stepper with
  | delay | receive | drawing object calls after =>
      simp only [hpc] at h
      obtain ⟨sys, hsys, rfl⟩ := onSys_cases h
      exact run_singleton hsys
  | sendArea | sendOK pause =>
      simp only [hpc] at h
      rcases sendReply_cases h with ⟨e, usb, hgive, -, -, rfl⟩ | ⟨n, usb, sys, hgive, -, hsys, rfl⟩
      · cases hs : f.usb.tx.senders () with
        | give n => exact absurd hs (hgive n)
        | idle | take n | queue n | wake n | wait n => rfl
      · rw [hgive]
        exact run_singleton hsys

/-- **A step of the firmware** is a run of the system of tasks. -/
theorem step_sys {e : Ev} (h : f.step e = some f') :
    run Plotter.step f.sys (f.sysEvents e) = some f'.sys := by
  cases e with
  | usb e | rom bytes | lineCode | connection flags | cdcTask n =>
      obtain ⟨usb, -, rfl⟩ := onUsb_cases h
      rfl
  | parserTask l => exact parserTask_sys h
  | stepperTask => exact stepperTask_sys h
  | stepperExpire | calibrate rd | timer rd =>
      obtain ⟨sys, hsys, rfl⟩ := onSys_cases h
      exact run_singleton hsys

/-- The steps of the firmware keep to a guard on the steps of the tasks. -/
def SysGuard (G : Sys → Plotter.Ev → Prop) (f : Firmware) (e : Ev) : Prop :=
  Along Plotter.step G f.sys (f.sysEvents e)

/-- **Refinement.** Every run of the firmware is a run of the system of tasks, and keeps to the
same guards. -/
theorem refines {rx_buff : Buffer transferSize} {arrays : Reader} {parser : GCodeParser}
    {es : List Ev}
    {G : Sys → Plotter.Ev → Prop} (hG : Along step (SysGuard G) (.init rx_buff arrays parser) es)
    (hrun : run step (.init rx_buff arrays parser) es = some f) :
    run Plotter.step Sys.init (outputs step sysEvents (.init rx_buff arrays parser) es) =
        some f.sys ∧
      Along Plotter.step G Sys.init (outputs step sysEvents (.init rx_buff arrays parser) es) :=
  run_abstracts (fun _ _ _ h => step_sys h) (fun _ _ h => h) hG hrun

end Refines

end Firmware

end Plotter
