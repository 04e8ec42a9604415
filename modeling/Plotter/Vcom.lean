import Plotter.LineReader
import Mathlib.Algebra.Group.Nat.Defs

/-!
# The virtual COM port

`g_vCOM`, the endpoint handlers that the USB interrupt runs, and the parts of `vcom_bread` and
`vcom_write` between which the interrupt can come. The driver in the ROM is the
environment: it raises the events, and what it does to `rx_buff` while it has a read under
way is left open.

## Main definitions

* `Transfer`: what one read of the ROM delivers.
* `Vcom`: the fields of `VCOM_DATA_T`, with the flags.
* `VCOM_bulk_out_hdlr`, `VCOM_bulk_in_hdlr`, `VCOM_SetLineCode`: the callbacks.
* `Vcom.cnt`, `Vcom.count`, `Vcom.clear`: the parts of `vcom_bread`.
-/

namespace Plotter

/-- `VCOM_RX_BUF_SZ`. -/
def transferSize : ℕ := 512

/-- The bytes of one transfer, not more than the read asked for. -/
structure Transfer where
  bytes : List UInt8
  fits : bytes.length ≤ transferSize
  deriving DecidableEq

/-- The bits of `rx_flags`. -/
structure RxFlags where
  DONE : Bool := false
  BUF_FULL : Bool := false
  BUF_QUEUED : Bool := false
  DB_QUEUED : Bool := false
  deriving DecidableEq, Repr

/-- The bits of `tx_flags`. -/
structure TxFlags where
  CONNECTED : Bool := false
  BUSY : Bool := false
  deriving DecidableEq, Repr

/-- `VCOM_DATA_T`. The counters are `uint16_t`. -/
structure Vcom where
  rx_buff : Buffer transferSize
  rx_rd_count : ℕ := 0
  rx_count : ℕ := 0
  tx_flags : TxFlags := {}
  rx_flags : RxFlags := {}
  /-- The ROM has a read into `rx_buff` under way. -/
  readQueued : Bool := false
  deriving DecidableEq

/-- The events of the endpoints. -/
inductive UsbEvent
  | IN
  | OUT_NAK
  /-- `USB_EVT_OUT`, with what `ReadEP` delivers. -/
  | OUT (data : Transfer)
  deriving DecidableEq

namespace Vcom

/-- `ReadReqEP` with `rx_buff`. -/
def readReqEP (v : Vcom) : Vcom := { v with readQueued := true }

/-- `ReadEP` with `rx_buff`, and the assignment of its result to `rx_count`. -/
def readEP (v : Vcom) (data : Transfer) : Vcom :=
  { v with
    rx_buff := ⟨data.bytes ++ v.rx_buff.bytes.drop data.bytes.length, by
      have hfits := data.fits
      rw [List.length_append, List.length_drop, v.rx_buff.size]
      omega⟩
    rx_count := data.bytes.length
    readQueued := false }

end Vcom

def VCOM_bulk_out_hdlr (v : Vcom) : UsbEvent → Vcom
  | .OUT data =>
    let v := v.readEP data
    if v.rx_flags.BUF_QUEUED then
      let v := { v with rx_flags.BUF_QUEUED := false }
      if v.rx_count ≠ 0 then { v with rx_flags.BUF_FULL := true } else v
    else if v.rx_flags.DB_QUEUED then
      { v with rx_flags.DB_QUEUED := false, rx_flags.DONE := true }
    else v
  | .OUT_NAK =>
    if !v.rx_flags.BUF_FULL && !v.rx_flags.BUF_QUEUED then
      { v.readReqEP with rx_flags.BUF_QUEUED := true }
    else v
  | .IN => v

def VCOM_bulk_in_hdlr (v : Vcom) : UsbEvent → Vcom
  | .IN => { v with tx_flags.BUSY := false }
  | _ => v

def VCOM_SetLineCode (v : Vcom) : Vcom := { v with tx_flags := { CONNECTED := true } }

/-- The handler of the endpoint that an event belongs to. -/
def Vcom.handle (v : Vcom) (e : UsbEvent) : Vcom :=
  match e with
  | .IN => VCOM_bulk_in_hdlr v e
  | .OUT_NAK | .OUT _ => VCOM_bulk_out_hdlr v e

namespace Vcom

/-! ## `vcom_bread` and `vcom_write` -/

/-- `cnt = (rx_count < buf_len) ? rx_count : buf_len`. -/
def cnt (v : Vcom) (buf_len : ℕ) : ℕ := if v.rx_count < buf_len then v.rx_count else buf_len

/-- `rx_rd_count += cnt`. -/
def count (v : Vcom) (cnt : ℕ) : Vcom :=
  { v with rx_rd_count := (v.rx_rd_count + cnt) % 2 ^ 16 }

/-- The critical section of `vcom_bread`. -/
def clear (v : Vcom) : Vcom :=
  if v.rx_rd_count ≥ v.rx_count then
    { v with rx_flags.BUF_FULL := false, rx_rd_count := 0, rx_count := 0 }
  else v

/-- The test of the flags in `vcom_write`. -/
def writable (v : Vcom) : Bool := v.tx_flags.CONNECTED && !v.tx_flags.BUSY

/-- `tx_flags |= VCOM_TX_BUSY`. -/
def setBusy (v : Vcom) : Vcom := { v with tx_flags.BUSY := true }

theorem cnt_eq_min (v : Vcom) (buf_len : ℕ) : v.cnt buf_len = min v.rx_count buf_len := by
  rw [cnt]
  split_ifs <;> omega

/-- A queued read that has ended. -/
theorem handle_out {v : Vcom} (hqueued : v.rx_flags.BUF_QUEUED = true) (data : Transfer) :
    v.handle (.OUT data) =
      { v.readEP data with
        rx_flags := { v.rx_flags with
          BUF_QUEUED := false
          BUF_FULL := v.rx_flags.BUF_FULL || decide (data.bytes.length ≠ 0) } } := by
  have hflag : (v.readEP data).rx_flags.BUF_QUEUED = true := hqueued
  have hbranch : v.handle (.OUT data) =
      if (v.readEP data).rx_flags.BUF_QUEUED then
        if data.bytes.length ≠ 0 then
          { v.readEP data with rx_flags.BUF_QUEUED := false, rx_flags.BUF_FULL := true }
        else { v.readEP data with rx_flags.BUF_QUEUED := false }
      else VCOM_bulk_out_hdlr v (.OUT data) := by
    rw [if_pos hflag, handle, VCOM_bulk_out_hdlr]
    exact if_pos hflag
  rw [hbranch, if_pos hflag]
  by_cases hlen : data.bytes.length = 0
  · rw [if_neg (not_not.mpr hlen)]
    simp [hlen, readEP]
  · rw [if_pos hlen]
    simp [hlen, readEP]

end Vcom

end Plotter
