import ProfinetIo.RecieveFrames
import Mathlib.Tactic

/-!
# Which frames are accepted, and which bytes they need

The acceptance tests compared with the frames they are meant for, and the
bytes of the buffer a reception interprets compared with the bytes received.
Zeros fill a short frame up, so nothing but a comparison with the received
length could tell that its header is not there.
-/

namespace ProfinetIo

open ByteMemory

/-! ## Acceptance -/

structure IdentifyResponse (p : Pack) : Prop where
  frameId : p.frameId = pfDcpIdResFrameId
  serviceId : p.serviceId.toNat = pfDcpServiceIdentify
  serviceType : p.serviceType.toNat = pfDcpServiceTypeSuccess

structure HelloRequest (p : Pack) : Prop where
  frameId : p.frameId = pfDcpHelloFrameId
  serviceId : p.serviceId.toNat = pfDcpServiceHello
  serviceType : p.serviceType.toNat = pfDcpServiceTypeSuccess
  destMac : p.destMac = dcpMcAddress

structure Acceptable (table : DeviceTable) (p : Pack) : Prop where
  packetType : p.packetType = ethtypeProfinet
  unknown : check table p.sourceMac = false
  service : IdentifyResponse p ∨ HelloRequest p

/-- The payload is handed to the parser just for the frames it should be. -/
def AcceptedAsMeant (table : DeviceTable) (r : Reception) : Prop :=
  handed table r ≠ [] ↔ Acceptable table r.pack

theorem identifyTest_iff {p : Pack} :
    identifyTest p = true ↔ IdentifyResponse p := by
  simp only [identifyTest, Bool.and_eq_true, decide_eq_true_eq]
  constructor
  · intro h
    exact ⟨h.1.1.symm, h.1.2.symm, h.2.symm⟩
  · intro h
    exact ⟨⟨h.frameId.symm, h.serviceId.symm⟩, h.serviceType.symm⟩

theorem helloTest_iff {p : Pack} :
    helloTest p = true ↔
      p.frameId = pfDcpServiceHello ∧
        p.serviceId.toNat = pfDcpServiceHello ∧
        p.serviceType.toNat = pfDcpServiceTypeSuccess ∧
        p.sourceMac = dcpMcAddress := by
  simp only [helloTest, Bool.and_eq_true, decide_eq_true_eq]
  constructor
  · intro h
    exact ⟨h.1.1.1.symm, h.1.1.2.symm, h.1.2.symm, h.2⟩
  · intro h
    exact ⟨⟨⟨h.1.symm, h.2.1.symm⟩, h.2.2.1.symm⟩, h.2.2.2⟩

theorem handed_ne_nil_iff {table : DeviceTable} {r : Reception} :
    handed table r ≠ [] ↔
      (IdentifyResponse r.pack ∨ helloTest r.pack = true) ∧
        check table r.pack.sourceMac = false := by
  rw [handed_eq, ← identifyTest_iff, ← accepts_iff]
  by_cases h : accepts table r.pack = true
  · simp [h]
  · simp [h]

/-- The condition under which the receiver accepts as it is meant to. -/
theorem acceptedAsMeant_iff (table : DeviceTable) (r : Reception) :
    AcceptedAsMeant table r ↔
      check table r.pack.sourceMac = true ∨
      ((IdentifyResponse r.pack → r.pack.packetType = ethtypeProfinet) ∧
        ¬ (r.pack.frameId = pfDcpServiceHello ∧
          r.pack.serviceId.toNat = pfDcpServiceHello ∧
          r.pack.serviceType.toNat = pfDcpServiceTypeSuccess ∧
          r.pack.sourceMac = dcpMcAddress) ∧
        ¬ (r.pack.packetType = ethtypeProfinet ∧ HelloRequest r.pack)) := by
  unfold AcceptedAsMeant
  rw [handed_ne_nil_iff, ← helloTest_iff]
  by_cases hknown : check table r.pack.sourceMac = true
  · have hnot : ¬ Acceptable table r.pack := by
      intro h
      simp [h.unknown] at hknown
    simp [hknown, hnot]
  have hunknown : check table r.pack.sourceMac = false := by simpa using hknown
  have hacceptable : Acceptable table r.pack ↔
      r.pack.packetType = ethtypeProfinet ∧
        (IdentifyResponse r.pack ∨ HelloRequest r.pack) := by
    constructor
    · intro h
      exact ⟨h.packetType, h.service⟩
    · intro h
      exact ⟨h.1, hunknown, h.2⟩
  rw [hacceptable]
  by_cases hidentify : IdentifyResponse r.pack
  · have hhello : helloTest r.pack = false :=
      helloTest_of_identifyTest (identifyTest_iff.mpr hidentify)
    have hrequest : ¬ HelloRequest r.pack := by
      intro h
      have hframe := hidentify.frameId.symm.trans h.frameId
      exact absurd hframe (by decide)
    simp [hidentify, hhello, hrequest, hunknown]
  · by_cases hhello : helloTest r.pack = true
    · have hrequest : ¬ HelloRequest r.pack := by
        intro h
        have hframe := (helloTest_iff.mp hhello).1.symm.trans h.frameId
        exact absurd hframe (by decide)
      simp [hidentify, hhello, hrequest, hunknown]
    · simp [hidentify, hhello, hunknown]

theorem acceptedAsMeant_fails_on_hello :
    ¬ ∀ (table : DeviceTable) (r : Reception), AcceptedAsMeant table r := by
  intro h
  have hhello := h DeviceTable.initial
    ⟨[0x01, 0x0e, 0xcf, 0x00, 0x00, 0x00, 0x02, 0x00, 0x00, 0x00, 0x00, 0x01,
      0x88, 0x92, 0xfe, 0xfc, 0x06, 0x01, 0x00, 0x00, 0x00, 0x02, 0x00, 0x00,
      0x00, 0x00], fun _ => 0, fun _ => 0, emptyDevice, by decide⟩
  have hnonempty := hhello.mpr
    ⟨by decide, by decide, Or.inr ⟨by decide, by decide, by decide, by decide⟩⟩
  exact hnonempty (by decide)

/-! ## Bounds -/

structure FrameBounds (table : DeviceTable) (r : Reception) : Prop where
  header : ∀ k ∈ r.headerReads, k < r.frame.length
  payload : ∀ call ∈ handed table r, call.1 + call.2 ≤ r.frame.length

def Reception.Tagged (r : Reception) : Prop :=
  r.buffer 12 = 0x81 ∧ r.buffer 13 = 0x00

instance (r : Reception) : Decidable r.Tagged :=
  inferInstanceAs (Decidable (_ ∧ _))

theorem traversed_eq (r : Reception) :
    r.pack.traversed = if r.Tagged then 30 else 26 := by
  change typeOffset r.buffer + 14 = if r.Tagged then 30 else 26
  by_cases h : r.Tagged
  · have htype : typeOffset r.buffer = 16 := if_pos h
    rw [if_pos h, htype]
  · have htype : typeOffset r.buffer = 12 := if_neg h
    rw [if_neg h, htype]

/-- A frame keeps the receiver inside its bytes when it has a whole header
and, if it is accepted, the payload it claims. -/
theorem frameBounds_iff (table : DeviceTable) (r : Reception) :
    FrameBounds table r ↔
      (if r.Tagged then 30 else 26) ≤ r.frame.length ∧
        (accepts table r.pack = true →
          (if r.Tagged then 30 else 26) + r.pack.ddl ≤ r.frame.length) := by
  have hpos : 0 < r.pack.traversed := by
    rw [traversed_eq]
    split_ifs <;> decide
  rw [← traversed_eq]
  constructor
  · intro h
    constructor
    · have hlast := h.header (r.pack.traversed - 1) (by
        simp only [Reception.headerReads, List.mem_range]
        omega)
      omega
    · intro haccepts
      exact h.payload (r.pack.traversed, r.pack.ddl) (by
        simp [handed_eq, haccepts])
  · rintro ⟨hheader, hpayload⟩
    constructor
    · intro k hk
      simp only [Reception.headerReads, List.mem_range] at hk
      omega
    · intro call hcall
      rw [handed_eq] at hcall
      by_cases haccepts : accepts table r.pack = true
      · rw [if_pos haccepts, List.mem_singleton] at hcall
        rw [hcall]
        exact hpayload haccepts
      · simp [haccepts] at hcall

/-- An Identify response of 26 bytes has 65535 bytes parsed and copied. -/
theorem frameBounds_fails_on_long_ddl :
    ¬ ∀ (table : DeviceTable) (r : Reception), FrameBounds table r := by
  intro h
  have hidentify := (h DeviceTable.initial
    ⟨[0xc8, 0x1f, 0x66, 0x43, 0x6a, 0x45, 0x02, 0x00, 0x00, 0x00, 0x00, 0x01,
      0x88, 0x92, 0xfe, 0xff, 0x05, 0x01, 0x00, 0x00, 0x00, 0x02, 0x00, 0x00,
      0xff, 0xff], fun _ => 0, fun _ => 0, emptyDevice, by decide⟩).payload
    (26, 65535) (by decide)
  revert hidentify
  decide

end ProfinetIo
