import ProfinetIo.DescriptorTable
import ProfinetIo.PnioPackets
import ProfinetIo.SetIpConfig
import ProfinetIo.TransitionRuns
import Mathlib.Tactic

/-!
# Which calls close their sockets

Nine functions open sockets; `check_ip_address` is left out, because nothing
calls it.  `send_set_req`, `send_get_req`, `recieve_profinet_packets` and
`getMyIP` close what they open; `discover_devices` and `set_ip_config` free the
place the descriptor is stored in and leave the descriptor open, and
`discover_devices` opens a second socket as long as the source address is the
dummy one; the two I/O senders call `getMyIP`, and return before their own
`close` when the host does not resolve.
-/

namespace ProfinetIo

open DescriptorTable TransitionRuns

/-! ## The calls -/

inductive CallReport where
  | socketNotCreated
  | bufferIsNull
  | transmitted
  | notTransmitted (ret : ℤ)
  | received (length : Option ℕ)
  | returned (ret : ℤ)

structure SocketState where
  opened : Finset ℕ
  srcAddress : Octets 6
  reports : List CallReport

/-- What the system answers to a function that sends a frame: the raw socket,
whether `os_buf_alloc` succeeds, and the value of `send`. -/
structure FrameOutcome where
  sock : Option ℕ
  allocated : Bool
  sendRet : ℤ

def frameReport (outcome : FrameOutcome) : CallReport :=
  match outcome.sock with
  | none => .socketNotCreated
  | some _ =>
      if outcome.allocated then
        if 0 ≤ outcome.sendRet then .transmitted
        else .notTransmitted outcome.sendRet
      else .bufferIsNull

/-- What the system answers to an I/O sender: the socket of `getMyIP`, whether
the buffer is allocated, and the socket of the request. -/
structure IoOutcome where
  myIp : Option ℕ
  allocated : Bool
  sock : Option ℕ

namespace Sockets

def sendFrame (closes : Bool) (outcome : FrameOutcome) (s : SocketState) :
    Option SocketState :=
  (create outcome.sock s.opened).map fun opened =>
    { s with
      opened := if closes then release outcome.sock opened else opened
      reports := s.reports ++ [frameReport outcome] }

def sendSetReq : FrameOutcome → SocketState → Option SocketState :=
  sendFrame true

def sendGetReq : FrameOutcome → SocketState → Option SocketState :=
  sendFrame true

def setIpConfig : FrameOutcome → SocketState → Option SocketState :=
  sendFrame false

/-- `fd` and `hwAddress` are the answers to the second `socket` and to the
`ioctl` on it, which are asked for only while the source address is the dummy
one. -/
def discoverDevices (outcome : FrameOutcome) (fd : Option ℕ)
    (hwAddress : Option (Octets 6)) (s : SocketState) : Option SocketState :=
  (create outcome.sock s.opened).bind fun opened =>
    let s := { s with
      opened := opened
      reports := s.reports ++ [frameReport outcome] }
    if outcome.sock ≠ none ∧ outcome.allocated ∧
        s.srcAddress = dcpSrcAddress then
      (create fd s.opened).map fun opened =>
        { s with
          opened := opened
          srcAddress :=
            match fd, hwAddress with
            | some _, some address => address
            | _, _ => s.srcAddress }
    else
      some s

/-- `close` is reached with every answer; without a buffer of 65536 bytes
`memset` does not return. -/
def recieveProfinetPackets (sock : Option ℕ) (allocated : Bool)
    (frame : Option (List UInt8)) (s : SocketState) : Option SocketState :=
  (create sock s.opened).bind fun opened =>
    match sock with
    | none =>
        some { s with
          opened := release sock opened
          reports := s.reports ++ [.socketNotCreated] }
    | some _ =>
        if allocated then
          some { s with
            opened := release sock opened
            reports := s.reports ++ [.received (frame.map List.length)] }
        else
          none

/-- A request whose sender comes to `result`.  Without a buffer the sender does
not return; it skips its `close` when it returns -1. -/
def sendIo (outcome : IoOutcome) (result : IoResult) (s : SocketState) :
    Option SocketState :=
  (create outcome.myIp s.opened).bind fun opened =>
    let opened := release outcome.myIp opened
    if outcome.allocated then
      (create outcome.sock opened).map fun opened =>
        { s with
          opened :=
            if result.ret = -1 then opened else release outcome.sock opened
          reports := s.reports ++ [.returned result.ret] }
    else
      none

end Sockets

inductive SocketCall where
  | discoverDevices (outcome : FrameOutcome) (fd : Option ℕ)
      (hwAddress : Option (Octets 6))
  | recieveProfinetPackets (sock : Option ℕ) (allocated : Bool)
      (frame : Option (List UInt8))
  | sendSetReq (outcome : FrameOutcome)
  | sendGetReq (outcome : FrameOutcome)
  | setIpConfig (outcome : FrameOutcome)
  | sendReadIoPacket (outcome : IoOutcome) (net : Network)
      (heap : ByteMemory.Memory) (ip : List UInt8) (api slot subslot : ℕ)
  | sendWriteIoPacket (outcome : IoOutcome) (net : Network)
      (heap : ByteMemory.Memory) (ip : List UInt8) (api slot subslot : ℕ)
      (data : List UInt8)

def socketStep (s : SocketState) : SocketCall → Option SocketState
  | .discoverDevices outcome fd hwAddress =>
      Sockets.discoverDevices outcome fd hwAddress s
  | .recieveProfinetPackets sock allocated frame =>
      Sockets.recieveProfinetPackets sock allocated frame s
  | .sendSetReq outcome => Sockets.sendSetReq outcome s
  | .sendGetReq outcome => Sockets.sendGetReq outcome s
  | .setIpConfig outcome => Sockets.setIpConfig outcome s
  | .sendReadIoPacket outcome net heap ip api slot subslot =>
      Sockets.sendIo outcome (sendReadIoPacket net heap ip api slot subslot) s
  | .sendWriteIoPacket outcome net heap ip api slot subslot data =>
      Sockets.sendIo outcome
        (sendWriteIoPacket net heap ip api slot subslot data) s

/-- The answers of the system with which a call leaves no descriptor open. -/
def Closes : SocketCall → Prop
  | .discoverDevices outcome _ _ => outcome.sock = none
  | .setIpConfig outcome => outcome.sock = none
  | .sendReadIoPacket outcome net _ ip _ _ _ =>
      outcome.sock = none ∨ net.gethostbyname ip ≠ none
  | .sendWriteIoPacket outcome net _ ip _ _ _ _ =>
      outcome.sock = none ∨ net.gethostbyname ip ≠ none
  | .recieveProfinetPackets _ _ _ | .sendSetReq _ | .sendGetReq _ => True

/-! ## What one call leaves open -/

namespace Sockets

variable {s next : SocketState}

theorem sendFrame_opened_iff
    {closes : Bool} {outcome : FrameOutcome}
    (h : sendFrame closes outcome s = some next) :
    next.opened = s.opened ↔ closes = true ∨ outcome.sock = none := by
  obtain ⟨opened, hopened, rfl⟩ := Option.map_eq_some_iff.mp h
  cases closes with
  | false => simpa using eq_of_create_iff hopened
  | true => simpa using release_of_create hopened

theorem discoverDevices_opened_iff
    {outcome : FrameOutcome} {fd : Option ℕ} {hwAddress : Option (Octets 6)}
    (h : discoverDevices outcome fd hwAddress s = some next) :
    next.opened = s.opened ↔ outcome.sock = none := by
  obtain ⟨opened, hopened, hnext⟩ := Option.bind_eq_some_iff.mp h
  have hfirst := eq_of_create_iff hopened
  dsimp only at hnext
  split_ifs at hnext with hsecond
  · obtain ⟨opened', hopened', rfl⟩ := Option.map_eq_some_iff.mp hnext
    refine iff_of_false ?_ hsecond.1
    intro heq
    have hsubset : opened ⊆ s.opened := heq ▸ subset_of_create hopened'
    exact hsecond.1 (hfirst.mp (hsubset.antisymm (subset_of_create hopened)))
  · cases hnext
    exact hfirst

theorem recieveProfinetPackets_opened
    {sock : Option ℕ} {allocated : Bool} {frame : Option (List UInt8)}
    (h : recieveProfinetPackets sock allocated frame s = some next) :
    next.opened = s.opened := by
  obtain ⟨opened, hopened, hnext⟩ := Option.bind_eq_some_iff.mp h
  have hclosed := release_of_create hopened
  cases sock with
  | none =>
      cases hnext
      exact hclosed
  | some fd =>
      dsimp only at hnext
      split_ifs at hnext
      cases hnext
      exact hclosed

theorem sendIo_opened_iff
    {outcome : IoOutcome} {result : IoResult}
    (h : sendIo outcome result s = some next) :
    next.opened = s.opened ↔ outcome.sock = none ∨ result.ret ≠ -1 := by
  obtain ⟨opened, hopened, hnext⟩ := Option.bind_eq_some_iff.mp h
  have hmyIp := release_of_create hopened
  have hallocated : outcome.allocated = true := by
    by_contra hnull
    simp [hnull] at hnext
  simp only [if_pos hallocated] at hnext
  obtain ⟨opened', hopened', rfl⟩ := Option.map_eq_some_iff.mp hnext
  rw [hmyIp] at hopened'
  by_cases hret : result.ret = -1
  · simpa [hret] using eq_of_create_iff hopened'
  · simpa [hret] using release_of_create hopened'

theorem sendIoPacket_ret_ne_iff
    {net : Network} {ip packet : List UInt8} :
    (sendIoPacket net ip packet).ret ≠ -1 ↔ net.gethostbyname ip ≠ none := by
  unfold sendIoPacket
  cases net.gethostbyname ip with
  | none => simp
  | some address =>
      dsimp only
      split_ifs <;> simp

end Sockets

theorem socketStep_opened_iff
    {s next : SocketState} {call : SocketCall}
    (h : socketStep s call = some next) :
    next.opened = s.opened ↔ Closes call := by
  cases call with
  | discoverDevices outcome fd hwAddress =>
      exact Sockets.discoverDevices_opened_iff h
  | recieveProfinetPackets sock allocated frame =>
      exact iff_of_true (Sockets.recieveProfinetPackets_opened h) trivial
  | sendSetReq outcome => simpa [Closes] using Sockets.sendFrame_opened_iff h
  | sendGetReq outcome => simpa [Closes] using Sockets.sendFrame_opened_iff h
  | setIpConfig outcome => simpa [Closes] using Sockets.sendFrame_opened_iff h
  | sendReadIoPacket outcome net heap ip api slot subslot =>
      rw [Closes, Sockets.sendIo_opened_iff h]
      exact or_congr_right Sockets.sendIoPacket_ret_ne_iff
  | sendWriteIoPacket outcome net heap ip api slot subslot data =>
      rw [Closes, Sockets.sendIo_opened_iff h]
      exact or_congr_right Sockets.sendIoPacket_ret_ne_iff

/-! ## Runs -/

/-- The open descriptors stay those of the start throughout a run exactly if
every call of it gets answers with which it closes what it opens. -/
theorem descriptorsKept_iff (start : SocketState) (calls : List SocketCall) :
    StatesMeet socketStep (fun s => s.opened = start.opened) start calls ↔
      StepsMeet socketStep (fun _ call => Closes call) start calls := by
  apply @statesMeet_iff_stepsMeet _ _ _ (fun _ => True)
  · intro _ _ _ _ _
    trivial
  · intro s call next _ hopened hstep
    rw [← hopened]
    exact socketStep_opened_iff hstep
  · trivial
  · rfl

theorem descriptorsKept_fails_on_discovery :
    ¬ ∀ (start : SocketState) (calls : List SocketCall),
      StatesMeet socketStep (fun s => s.opened = start.opened) start calls := by
  intro h
  have hdiscover := h ⟨∅, dcpSrcAddress, []⟩
    [.discoverDevices ⟨some 3, true, 60⟩ (some 4) none]
  have hopened : ({4, 3} : Finset ℕ) = ∅ := hdiscover.2 _ rfl
  revert hopened
  decide

end ProfinetIo
