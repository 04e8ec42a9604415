import Plotter.Basic
import Plotter.Lib.Records

/-!
# The interface descriptors

`vcom_init` hands the driver in the ROM two interface descriptors, for the communication
and for the data interface, and `find_IntfDesc` looks them up by their class in the bytes of
`USB_FsConfigDescriptor`. The bytes are descriptors of different kinds, each behind its
length, and a zero.

## Main definitions

* `find_IntfDesc`: the loop over the bytes, an instance of `Lib.walk`.
* `Descriptor`: a descriptor that is long enough for what the loop reads of it.
* `UsbHeader`, `USB_FsConfigDescriptor`: the array, over the constants of the USB headers.
* `find_IntfDesc_encode`: the first interface descriptor of the class is found.
-/

namespace Plotter

/-- The two tests of the loop, on the descriptor at `pD`. -/
def isIntfDesc (INTERFACE : UInt8) (desc : List UInt8) (intfClass : ℕ) (pD : ℕ) :
    Option Bool := do
  let bDescriptorType ← desc[pD + 1]?
  if bDescriptorType = INTERFACE then
    let bInterfaceClass ← desc[pD + 5]?
    return decide (bInterfaceClass.toNat = intfClass)
  else return false

/-- The index of the descriptor, `some none` for the null pointer, `none` for a read outside
of the array. `INTERFACE` is `USB_INTERFACE_DESCRIPTOR_TYPE`. -/
def find_IntfDesc (INTERFACE : UInt8) (desc : List UInt8) (intfClass : ℕ) :
    Option (Option ℕ) :=
  Lib.walk (isIntfDesc INTERFACE desc intfClass) desc desc.length 0

/-! ## Arrays of descriptors -/

/-- A descriptor, without its length byte. Of an interface descriptor there is at least as
much as `bInterfaceClass`. -/
structure Descriptor (INTERFACE : UInt8) where
  bDescriptorType : UInt8
  fields : List UInt8
  fits : fields.length < 254
  reaches : bDescriptorType = INTERFACE → 4 ≤ fields.length

variable {INTERFACE : UInt8}

namespace Descriptor

/-- `bDescriptorType` stands behind `bLength`. -/
def format (INTERFACE : UInt8) : Lib.LengthPrefixed (Descriptor INTERFACE) where
  body d := d.bDescriptorType :: d.fields
  fits d := by
    have hfits := d.fits
    rw [List.length_cons]
    omega

theorem bytes_mk (bDescriptorType : UInt8) (fields : List UInt8) (fits : fields.length < 254)
    (reaches : bDescriptorType = INTERFACE → 4 ≤ fields.length) :
    (format INTERFACE).bytes ⟨bDescriptorType, fields, fits, reaches⟩ =
      UInt8.ofNat (fields.length + 2) :: bDescriptorType :: fields := rfl

/-- An interface descriptor of the class. -/
def IsIntf (d : Descriptor INTERFACE) (intfClass : ℕ) : Prop :=
  d.bDescriptorType = INTERFACE ∧ d.fields[3]?.map UInt8.toNat = some intfClass

instance (d : Descriptor INTERFACE) (intfClass : ℕ) : Decidable (d.IsIntf intfClass) :=
  inferInstanceAs (Decidable (_ ∧ _))

/-- What the loop reads of a descriptor, wherever it stands. -/
theorem isIntfDesc_eq (d : Descriptor INTERFACE) (intfClass : ℕ) (before after : List UInt8) :
    isIntfDesc INTERFACE (before ++ ((format INTERFACE).bytes d ++ after)) intfClass
      before.length = some (decide (d.IsIntf intfClass)) := by
  have htype : (before ++ ((format INTERFACE).bytes d ++ after))[before.length + 1]? =
      some d.bDescriptorType := by
    rw [List.getElem?_append_right (by omega), Nat.add_sub_cancel_left]
    simp [Lib.LengthPrefixed.bytes, format]
  simp only [isIntfDesc, htype, Option.bind_eq_bind, Option.bind_some]
  by_cases hintf : d.bDescriptorType = INTERFACE
  · have hreaches := d.reaches hintf
    have hclass : (before ++ ((format INTERFACE).bytes d ++ after))[before.length + 5]? =
        d.fields[3]? := by
      rw [List.getElem?_append_right (by omega), Nat.add_sub_cancel_left,
        List.getElem?_append_left (by simp [format]; omega)]
      simp [Lib.LengthPrefixed.bytes, format]
    rw [if_pos hintf, hclass, List.getElem?_eq_getElem (by omega)]
    simp [IsIntf, hintf, List.getElem?_eq_getElem (show 3 < d.fields.length by omega)]
  · rw [if_neg hintf]
    simp [IsIntf, hintf]

end Descriptor

/-- **The descriptors are found.** In the bytes of descriptors with a zero behind them,
`find_IntfDesc` finds the first interface descriptor of the class, or that there is none, and
reads nothing outside of them. -/
theorem find_IntfDesc_encode (ds : List (Descriptor INTERFACE)) (rest : List UInt8)
    (intfClass : ℕ) :
    find_IntfDesc INTERFACE ((Descriptor.format INTERFACE).encode ds ++ 0 :: rest) intfClass =
      some ((Descriptor.format INTERFACE).offset? (fun d => decide (d.IsIntf intfClass)) ds) := by
  apply Lib.LengthPrefixed.walk_encode
  intro before d after hmem
  rw [hmem]
  exact d.isIntfDesc_eq intfClass _ after

/-! ## The array of the device -/

/-- What the array takes from the headers of the USB driver, under their words without the
`USB_` and `CDC_` in front. -/
structure UsbHeader where
  CONFIGURATION_DESC_SIZE : UInt8
  INTERFACE_ASSOC_DESC_SIZE : UInt8
  INTERFACE_DESC_SIZE : UInt8
  ENDPOINT_DESC_SIZE : UInt8
  CONFIGURATION_DESCRIPTOR_TYPE : UInt8
  INTERFACE_ASSOCIATION_DESCRIPTOR_TYPE : UInt8
  INTERFACE_DESCRIPTOR_TYPE : UInt8
  ENDPOINT_DESCRIPTOR_TYPE : UInt8
  CS_INTERFACE : UInt8
  COMMUNICATION_INTERFACE_CLASS : UInt8
  DATA_INTERFACE_CLASS : UInt8
  ABSTRACT_CONTROL_MODEL : UInt8
  HEADER : UInt8
  CALL_MANAGEMENT : UInt8
  ABSTRACT_CONTROL_MANAGEMENT : UInt8
  UNION : UInt8
  V1_10 : UInt16
  CONFIG_SELF_POWERED : UInt8
  /-- `USB_CONFIG_POWER_MA(500)`. -/
  CONFIG_POWER_MA : UInt8
  ENDPOINT_TYPE_INTERRUPT : UInt8
  ENDPOINT_TYPE_BULK : UInt8

/-- What the headers document: the sizes are those of the structures, the types and the
classes have codes of their own. -/
structure UsbHeader.Documented (u : UsbHeader) : Prop where
  configuration : u.CONFIGURATION_DESC_SIZE = 9
  assoc : u.INTERFACE_ASSOC_DESC_SIZE = 8
  interface : u.INTERFACE_DESC_SIZE = 9
  endpoint : u.ENDPOINT_DESC_SIZE = 7
  types : [u.CONFIGURATION_DESCRIPTOR_TYPE, u.INTERFACE_ASSOCIATION_DESCRIPTOR_TYPE,
    u.INTERFACE_DESCRIPTOR_TYPE, u.ENDPOINT_DESCRIPTOR_TYPE, u.CS_INTERFACE].Nodup
  classes : u.COMMUNICATION_INTERFACE_CLASS ≠ u.DATA_INTERFACE_CLASS

/-- The two bytes of a word, the low one first. -/
def WBVAL (x : UInt16) : List UInt8 := [x.toUInt8, (x >>> 8).toUInt8]

namespace UsbHeader

variable (u : UsbHeader)

def wTotalLength : UInt16 :=
  u.CONFIGURATION_DESC_SIZE.toUInt16 + u.INTERFACE_ASSOC_DESC_SIZE.toUInt16 +
    u.INTERFACE_DESC_SIZE.toUInt16 + 0x13 + 1 * u.ENDPOINT_DESC_SIZE.toUInt16 +
    u.INTERFACE_DESC_SIZE.toUInt16 + 2 * u.ENDPOINT_DESC_SIZE.toUInt16 + 0

def USB_FsConfigDescriptor : List UInt8 := List.flatten [
  -- Configuration 1
  [u.CONFIGURATION_DESC_SIZE, u.CONFIGURATION_DESCRIPTOR_TYPE], WBVAL u.wTotalLength,
  [0x02, 0x01, 0x00, u.CONFIG_SELF_POWERED, u.CONFIG_POWER_MA],
  -- Interface association descriptor
  [u.INTERFACE_ASSOC_DESC_SIZE, u.INTERFACE_ASSOCIATION_DESCRIPTOR_TYPE, 0, 0x02,
    u.COMMUNICATION_INTERFACE_CLASS, u.ABSTRACT_CONTROL_MODEL, 0x00, 0x04],
  -- Interface 0, communication class
  [u.INTERFACE_DESC_SIZE, u.INTERFACE_DESCRIPTOR_TYPE, 0, 0x00, 0x01,
    u.COMMUNICATION_INTERFACE_CLASS, u.ABSTRACT_CONTROL_MODEL, 0x00, 0x04],
  -- Header, call management, abstract control management and union
  [0x05, u.CS_INTERFACE, u.HEADER], WBVAL u.V1_10,
  [0x05, u.CS_INTERFACE, u.CALL_MANAGEMENT, 0x01, 1],
  [0x04, u.CS_INTERFACE, u.ABSTRACT_CONTROL_MANAGEMENT, 0x02],
  [0x05, u.CS_INTERFACE, u.UNION, 0, 1],
  -- Endpoint 1
  [u.ENDPOINT_DESC_SIZE, u.ENDPOINT_DESCRIPTOR_TYPE, 0x82, u.ENDPOINT_TYPE_INTERRUPT],
  WBVAL 0x0010, [0x02],
  -- Interface 1, data class
  [u.INTERFACE_DESC_SIZE, u.INTERFACE_DESCRIPTOR_TYPE, 1, 0x00, 0x02,
    u.DATA_INTERFACE_CLASS, 0x00, 0x00, 0x04],
  -- Bulk out and bulk in
  [u.ENDPOINT_DESC_SIZE, u.ENDPOINT_DESCRIPTOR_TYPE, 0x01, u.ENDPOINT_TYPE_BULK],
  WBVAL 64, [0x00],
  [u.ENDPOINT_DESC_SIZE, u.ENDPOINT_DESCRIPTOR_TYPE, 0x81, u.ENDPOINT_TYPE_BULK],
  WBVAL 64, [0x00],
  [0]]

end UsbHeader

/-- A descriptor that the loop goes past. -/
def Descriptor.other (bDescriptorType : UInt8) (fields : List UInt8)
    (fits : fields.length < 254) (hother : bDescriptorType ≠ INTERFACE) :
    Descriptor INTERFACE where
  bDescriptorType := bDescriptorType
  fields := fields
  fits := fits
  reaches h := absurd h hother

namespace UsbHeader.Documented

variable {u : UsbHeader}

theorem types_ne (h : u.Documented) :
    u.CONFIGURATION_DESCRIPTOR_TYPE ≠ u.INTERFACE_DESCRIPTOR_TYPE ∧
    u.INTERFACE_ASSOCIATION_DESCRIPTOR_TYPE ≠ u.INTERFACE_DESCRIPTOR_TYPE ∧
    u.ENDPOINT_DESCRIPTOR_TYPE ≠ u.INTERFACE_DESCRIPTOR_TYPE ∧
    u.CS_INTERFACE ≠ u.INTERFACE_DESCRIPTOR_TYPE := by
  have htypes := h.types
  simp only [List.nodup_cons, List.mem_cons, not_or] at htypes
  obtain ⟨⟨-, hconfiguration, -⟩, ⟨hassoc, -⟩, ⟨hendpoint, hcs, -⟩, -⟩ := htypes
  exact ⟨hconfiguration, hassoc, Ne.symm hendpoint, Ne.symm hcs⟩

/-- The descriptors of the array. -/
def descriptors (h : u.Documented) : List (Descriptor u.INTERFACE_DESCRIPTOR_TYPE) :=
  [.other u.CONFIGURATION_DESCRIPTOR_TYPE (WBVAL u.wTotalLength ++
    [0x02, 0x01, 0x00, u.CONFIG_SELF_POWERED, u.CONFIG_POWER_MA]) (by simp [WBVAL]) h.types_ne.1,
  .other u.INTERFACE_ASSOCIATION_DESCRIPTOR_TYPE [0, 0x02, u.COMMUNICATION_INTERFACE_CLASS,
    u.ABSTRACT_CONTROL_MODEL, 0x00, 0x04] (by simp) h.types_ne.2.1,
  ⟨u.INTERFACE_DESCRIPTOR_TYPE, [0, 0x00, 0x01, u.COMMUNICATION_INTERFACE_CLASS,
    u.ABSTRACT_CONTROL_MODEL, 0x00, 0x04], by simp, by simp⟩,
  .other u.CS_INTERFACE (u.HEADER :: WBVAL u.V1_10) (by simp [WBVAL]) h.types_ne.2.2.2,
  .other u.CS_INTERFACE [u.CALL_MANAGEMENT, 0x01, 1] (by simp) h.types_ne.2.2.2,
  .other u.CS_INTERFACE [u.ABSTRACT_CONTROL_MANAGEMENT, 0x02] (by simp) h.types_ne.2.2.2,
  .other u.CS_INTERFACE [u.UNION, 0, 1] (by simp) h.types_ne.2.2.2,
  .other u.ENDPOINT_DESCRIPTOR_TYPE ([0x82, u.ENDPOINT_TYPE_INTERRUPT] ++
    WBVAL 0x0010 ++ [0x02]) (by simp [WBVAL]) h.types_ne.2.2.1,
  ⟨u.INTERFACE_DESCRIPTOR_TYPE, [1, 0x00, 0x02, u.DATA_INTERFACE_CLASS, 0x00, 0x00, 0x04],
    by simp, by simp⟩,
  .other u.ENDPOINT_DESCRIPTOR_TYPE ([0x01, u.ENDPOINT_TYPE_BULK] ++ WBVAL 64 ++ [0x00])
    (by simp [WBVAL]) h.types_ne.2.2.1,
  .other u.ENDPOINT_DESCRIPTOR_TYPE ([0x81, u.ENDPOINT_TYPE_BULK] ++ WBVAL 64 ++ [0x00])
    (by simp [WBVAL]) h.types_ne.2.2.1]

theorem encode_descriptors (h : u.Documented) :
    u.USB_FsConfigDescriptor = (Descriptor.format _).encode h.descriptors ++ 0 :: [] := by
  simp only [descriptors, USB_FsConfigDescriptor, h.configuration, h.assoc, h.interface,
    h.endpoint, Lib.LengthPrefixed.encode, List.flatMap_cons, List.flatMap_nil,
    Descriptor.other, Descriptor.bytes_mk, WBVAL, List.flatten_cons, List.flatten_nil,
    List.cons_append, List.nil_append, List.append_nil, List.length_cons, List.length_nil,
    Nat.reduceAdd, UInt8.reduceOfNat]

/-- `vcom_init` finds the communication and the data interface, each by its own class. -/
theorem find_interfaces (h : u.Documented) :
    find_IntfDesc u.INTERFACE_DESCRIPTOR_TYPE u.USB_FsConfigDescriptor
      u.COMMUNICATION_INTERFACE_CLASS.toNat = some (some 17) ∧
    find_IntfDesc u.INTERFACE_DESCRIPTOR_TYPE u.USB_FsConfigDescriptor
      u.DATA_INTERFACE_CLASS.toNat = some (some 52) := by
  obtain ⟨hconfiguration, hassoc, hendpoint, hcs⟩ := h.types_ne
  have hclass : ¬ u.COMMUNICATION_INTERFACE_CLASS.toNat = u.DATA_INTERFACE_CLASS.toNat := by
    intro hclass
    exact h.classes (UInt8.toNat_inj.mp hclass)
  rw [h.encode_descriptors, find_IntfDesc_encode, find_IntfDesc_encode]
  constructor
  · simp [descriptors, Lib.LengthPrefixed.offset?, Descriptor.IsIntf, Descriptor.other,
      Descriptor.format, WBVAL, hconfiguration, hassoc]
  · simp [descriptors, Lib.LengthPrefixed.offset?, Descriptor.IsIntf, Descriptor.other,
      Descriptor.format, WBVAL, hconfiguration, hassoc, hcs, hendpoint, hclass]

end UsbHeader.Documented

end Plotter
