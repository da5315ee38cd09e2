import ProfinetIo.DcpRequests
import ProfinetIo.DescriptorLimits
import ProfinetIo.Gateway
import ProfinetIo.MacTable
import Mathlib.Tactic

/-!
# The whole program

`main` starts three threads: `discover` calls `discover_devices` for ever,
`recieve` calls `recieve_profinet_packets` for ever, and the MQTT library calls
`mqtt_msg_hdlr` for each message.  Beside the heap they share the descriptors
of the process and nothing else, so a call is one step, except that the
receiver, which waits for its frame as long as it takes, has its socket open
between its two steps.
-/

namespace ProfinetIo

open DescriptorTable InterleavedRuns TransitionRuns

/-! ## Threads -/

namespace HandlerCall

instance (call : HandlerCall) : Decidable call.IsRead :=
  inferInstanceAs (Decidable (CStrings.sameIgnoringCase _ _))

instance (call : HandlerCall) : Decidable call.IsWrite :=
  inferInstanceAs (Decidable (CStrings.sameIgnoringCase _ _))

/-- What the I/O sender comes to, if the operation is supported. -/
def ioResult (call : HandlerCall) : Option IoResult :=
  if call.IsRead then
    some (sendReadIoPacket call.net call.heap call.ip call.api call.slot
      call.subSlot)
  else if call.IsWrite then
    some (sendWriteIoPacket call.net call.heap call.ip call.api call.slot
      call.subSlot call.data)
  else none

end HandlerCall

/-- `recvfrom` has answered with a frame or failed. -/
def Registration.arrive (g : Registration) :
    Option Reception → Option Registration
  | none => some g
  | some r => g.recieve r

/-- The handler opens sockets only for the I/O sender it calls. -/
def Sockets.handle (outcome : IoOutcome) (result : Option IoResult)
    (s : SocketState) : Option SocketState :=
  match result with
  | none => some s
  | some result => Sockets.sendIo outcome result s

/-- `listening` is the socket that the receiver waits on; `requests` are the
frames that discovery has handed to `send`, and `exchanges` what the handler
has done for the messages. -/
structure Supervisor where
  registration : Registration
  sockets : SocketState
  listening : Option ℕ
  requests : List (List UInt8)
  exchanges : List HandlerResult

def Supervisor.initial : Supervisor :=
  ⟨Registration.initial, ⟨∅, dcpSrcAddress, []⟩, none, [], []⟩

inductive ThreadStep where
  | discover (outcome : FrameOutcome) (fd : Option ℕ)
      (hwAddress : Option (Octets 6)) (heap : ByteMemory.Memory)
  | listen (sock : Option ℕ) (allocated : Bool)
  | arrive (reception : Option Reception)
  | message (outcome : IoOutcome) (call : HandlerCall)

namespace Supervisor

/-- A frame is sent from a socket and a buffer, with the source address as it
is after it has been looked up. -/
def discover (outcome : FrameOutcome) (fd : Option ℕ)
    (hwAddress : Option (Octets 6)) (heap : ByteMemory.Memory)
    (s : Supervisor) : Option Supervisor :=
  (Sockets.discoverDevices outcome fd hwAddress s.sockets).bind fun sockets =>
    if outcome.sock ≠ none ∧ outcome.allocated then
      (discoverDevices 1 heap sockets.srcAddress).map fun frame =>
        { s with sockets := sockets, requests := s.requests ++ [frame] }
    else
      some { s with sockets := sockets }

/-- `recieve_profinet_packets` up to its `recvfrom`; a failed `malloc` is not
survived. -/
def listen (sock : Option ℕ) (allocated : Bool) (s : Supervisor) :
    Option Supervisor :=
  if s.listening = none then
    (create sock s.sockets.opened).bind fun opened =>
      match sock with
      | none =>
          some { s with sockets :=
            { s.sockets with
              reports := s.sockets.reports ++ [.socketNotCreated] } }
      | some fd =>
          if allocated then
            some { s with
              sockets := { s.sockets with opened := opened }
              listening := some fd }
          else none
  else none

/-- The rest of the call, with the frame or without one. -/
def arrive (reception : Option Reception) (s : Supervisor) :
    Option Supervisor :=
  match s.listening with
  | none => none
  | some fd =>
      (s.registration.arrive reception).map fun registration =>
        { s with
          registration := registration
          listening := none
          sockets :=
            { s.sockets with
              opened := release (some fd) s.sockets.opened
              reports := s.sockets.reports ++
                [.received (reception.map fun r => r.frame.length)] } }

def message (outcome : IoOutcome) (call : HandlerCall) (s : Supervisor) :
    Option Supervisor :=
  (Sockets.handle outcome call.ioResult s.sockets).map fun sockets =>
    { s with sockets := sockets, exchanges := s.exchanges ++ [call.result] }

def step (s : Supervisor) : ThreadStep → Option Supervisor
  | .discover outcome fd hwAddress heap =>
      discover outcome fd hwAddress heap s
  | .listen sock allocated => listen sock allocated s
  | .arrive reception => arrive reception s
  | .message outcome call => message outcome call s

end Supervisor

/-! ## What a step does -/

/-- The frame that discovery sends from an address. -/
def identifyFrame (srcAddress : Octets 6) : List UInt8 :=
  RecordCodecs.Codec.encode headerCodec (identifyRequest.fields srcAddress) ++
    (identifyRequest.block ++ List.replicate 30 0)

theorem discoverDevices_eq (heap : ByteMemory.Memory)
    (srcAddress : Octets 6) :
    discoverDevices 1 heap srcAddress = some (identifyFrame srcAddress) :=
  dcpRequest_eq fits_identifyRequest.valueLength 0 heap srcAddress

theorem identifyFrame_readsAs (srcAddress : Octets 6) :
    ReadsAs (identifyFrame srcAddress)
      ⟨dcpMcAddress, srcAddress, 0x8892, 0xfefe, 5, 0, 1, 1, 4⟩
      [0xff, 0xff, 0, 0] := by
  obtain ⟨frame, hframe, -, hreads⟩ :=
    fits_identifyRequest.reads 0 (fun _ => 0) srcAddress
  have hsame : frame = identifyFrame srcAddress := by
    have hbuilt := discoverDevices_eq (fun _ => 0) srcAddress
    rw [discoverDevices, hframe, Option.some.injEq] at hbuilt
    exact hbuilt
  rw [identifyRequest_fields] at hreads
  rw [← hsame]
  exact hreads

namespace Supervisor

variable {s next : Supervisor}

theorem discover_cases
    {outcome : FrameOutcome} {fd : Option ℕ} {hwAddress : Option (Octets 6)}
    {heap : ByteMemory.Memory}
    (h : step s (.discover outcome fd hwAddress heap) = some next) :
    Sockets.discoverDevices outcome fd hwAddress s.sockets =
        some next.sockets ∧
      next = { s with
        sockets := next.sockets
        requests := s.requests ++
          if outcome.sock ≠ none ∧ outcome.allocated then
            [identifyFrame next.sockets.srcAddress]
          else [] } := by
  obtain ⟨sockets, hsockets, hnext⟩ := Option.bind_eq_some_iff.mp h
  split_ifs at hnext with hsent
  · rw [discoverDevices_eq, Option.map_some, Option.some.injEq] at hnext
    subst hnext
    exact ⟨hsockets, by rw [if_pos hsent]⟩
  · cases hnext
    exact ⟨hsockets, by rw [if_neg hsent, List.append_nil]⟩

theorem listen_cases {sock : Option ℕ} {allocated : Bool}
    (h : step s (.listen sock allocated) = some next) :
    s.listening = none ∧
      ((sock = none ∧ next = { s with sockets := { s.sockets with
          reports := s.sockets.reports ++ [.socketNotCreated] } }) ∨
        ∃ fd opened, sock = some fd ∧
          create sock s.sockets.opened = some opened ∧
          next = { s with
            sockets := { s.sockets with opened := opened }
            listening := some fd }) := by
  have hlistening : s.listening = none := by
    by_contra hbusy
    simp [step, listen, hbusy] at h
  simp only [step, listen, if_pos hlistening] at h
  obtain ⟨opened, hopened, hnext⟩ := Option.bind_eq_some_iff.mp h
  refine ⟨hlistening, ?_⟩
  cases sock with
  | none =>
      cases hnext
      exact Or.inl ⟨rfl, rfl⟩
  | some fd =>
      cases allocated with
      | false => contradiction
      | true =>
          cases hnext
          exact Or.inr ⟨fd, opened, rfl, hopened, rfl⟩

theorem arrive_cases {reception : Option Reception}
    (h : step s (.arrive reception) = some next) :
    ∃ fd, s.listening = some fd ∧
      s.registration.arrive reception = some next.registration ∧
      next = { s with
        registration := next.registration
        listening := none
        sockets := { s.sockets with
          opened := s.sockets.opened.erase fd
          reports := s.sockets.reports ++
            [.received (reception.map fun r => r.frame.length)] } } := by
  simp only [step, arrive] at h
  split at h
  · contradiction
  · next fd hlistening =>
      obtain ⟨registration, hregistration, rfl⟩ :=
        Option.map_eq_some_iff.mp h
      exact ⟨fd, hlistening, hregistration, rfl⟩

theorem message_cases {outcome : IoOutcome} {call : HandlerCall}
    (h : step s (.message outcome call) = some next) :
    Sockets.handle outcome call.ioResult s.sockets = some next.sockets ∧
      next = { s with
        sockets := next.sockets
        exchanges := s.exchanges ++ [call.result] } := by
  obtain ⟨sockets, hsockets, rfl⟩ := Option.map_eq_some_iff.mp h
  exact ⟨hsockets, rfl⟩

end Supervisor

/-! ## What discovery sends -/

section Latch

variable {s next : SocketState}

/-- Only the placeholder is ever replaced, and only when a frame is sent. -/
theorem discoverDevices_srcAddress
    {outcome : FrameOutcome} {fd : Option ℕ} {hwAddress : Option (Octets 6)}
    (h : Sockets.discoverDevices outcome fd hwAddress s = some next)
    (hkept : s.srcAddress ≠ dcpSrcAddress ∨
      ¬ (outcome.sock ≠ none ∧ outcome.allocated)) :
    next.srcAddress = s.srcAddress := by
  obtain ⟨opened, -, hnext⟩ := Option.bind_eq_some_iff.mp h
  have hsame : ¬ (outcome.sock ≠ none ∧ outcome.allocated ∧
      s.srcAddress = dcpSrcAddress) := by
    rintro ⟨hsock, hallocated, hdummy⟩
    rcases hkept with hknown | hunsent
    · exact hknown hdummy
    · exact hunsent ⟨hsock, hallocated⟩
  rw [if_neg hsame] at hnext
  cases hnext
  rfl

/-- The handler leaves the descriptors alone, or its sender has got a buffer
and reports what it returns. -/
theorem handle_result
    {outcome : IoOutcome} {result : Option IoResult}
    (h : Sockets.handle outcome result s = some next) :
    (result = none ∧ next = s) ∨
      ∃ io opened, result = some io ∧ outcome.allocated = true ∧
        next = { s with
          opened := opened
          reports := s.reports ++ [.returned io.ret] } := by
  cases result with
  | none =>
      cases h
      exact Or.inl ⟨rfl, rfl⟩
  | some io =>
      obtain ⟨opened, -, hnext⟩ := Option.bind_eq_some_iff.mp h
      have hallocated : outcome.allocated = true := by
        by_contra hnull
        simp [hnull] at hnext
      simp only [if_pos hallocated] at hnext
      obtain ⟨opened', -, rfl⟩ := Option.map_eq_some_iff.mp hnext
      exact Or.inr ⟨io, _, rfl, hallocated, rfl⟩

theorem handle_srcAddress
    {outcome : IoOutcome} {result : Option IoResult}
    (h : Sockets.handle outcome result s = some next) :
    next.srcAddress = s.srcAddress := by
  obtain ⟨-, rfl⟩ | ⟨io, opened, -, -, rfl⟩ := handle_result h
  · rfl
  · rfl

end Latch

namespace Supervisor

/-- Discovery has sent frames from the placeholder and then frames from the
address that has taken its place. -/
def Latched (s : Supervisor) : Prop :=
  ∃ before after,
    s.requests = List.replicate before (identifyFrame dcpSrcAddress) ++
      List.replicate after (identifyFrame s.sockets.srcAddress) ∧
    (s.sockets.srcAddress = dcpSrcAddress → after = 0)

theorem Latched.of_same {s next : Supervisor} (h : Latched s)
    (hrequests : next.requests = s.requests)
    (hsrcAddress : next.sockets.srcAddress = s.sockets.srcAddress) :
    Latched next := by
  unfold Latched
  rw [hrequests, hsrcAddress]
  exact h

theorem Latched.sent {s next : Supervisor} (h : Latched s)
    (hrequests : next.requests =
      s.requests ++ [identifyFrame next.sockets.srcAddress])
    (hsrcAddress : s.sockets.srcAddress ≠ dcpSrcAddress →
      next.sockets.srcAddress = s.sockets.srcAddress) :
    Latched next := by
  obtain ⟨before, after, hframes, hdummy⟩ := h
  by_cases hknown : s.sockets.srcAddress = dcpSrcAddress
  · have hnone := hdummy hknown
    subst hnone
    rw [List.replicate_zero, List.append_nil] at hframes
    by_cases hstill : next.sockets.srcAddress = dcpSrcAddress
    · refine ⟨before + 1, 0, ?_, fun _ => rfl⟩
      rw [hrequests, hframes, hstill, List.replicate_succ',
        List.replicate_zero, List.append_nil]
    · refine ⟨before, 1, ?_, fun hagain => absurd hagain hstill⟩
      rw [hrequests, hframes]
      rfl
  · have hsame := hsrcAddress hknown
    refine ⟨before, after + 1, ?_, fun hagain => ?_⟩
    · rw [hrequests, hframes, hsame, List.replicate_succ',
        List.append_assoc]
    · exact absurd (hsame.symm.trans hagain) hknown

theorem Latched.step {s next : Supervisor} {label : ThreadStep}
    (h : Latched s) (hstep : step s label = some next) : Latched next := by
  cases label with
  | discover outcome fd hwAddress heap =>
      obtain ⟨hsockets, hnext⟩ := discover_cases hstep
      have hrequests := congrArg Supervisor.requests hnext
      simp only at hrequests
      by_cases hsent : outcome.sock ≠ none ∧ outcome.allocated
      · rw [if_pos hsent] at hrequests
        exact h.sent hrequests fun hknown =>
          discoverDevices_srcAddress hsockets (Or.inl hknown)
      · rw [if_neg hsent, List.append_nil] at hrequests
        exact h.of_same hrequests
          (discoverDevices_srcAddress hsockets (Or.inr hsent))
  | listen sock allocated =>
      obtain ⟨-, ⟨-, rfl⟩ | ⟨fd, opened, -, -, rfl⟩⟩ := listen_cases hstep
      · exact h.of_same rfl rfl
      · exact h.of_same rfl rfl
  | arrive reception =>
      obtain ⟨fd, -, -, hnext⟩ := arrive_cases hstep
      rw [hnext]
      exact h.of_same rfl rfl
  | message outcome call =>
      obtain ⟨hsockets, hnext⟩ := message_cases hstep
      rw [hnext]
      exact h.of_same rfl (handle_srcAddress hsockets)

theorem Latched.initial : Latched Supervisor.initial :=
  ⟨0, 0, rfl, fun _ => rfl⟩

end Supervisor

/-- However the threads take turns, the frames of discovery carry the
placeholder until another address has been found, and that address ever after;
a receiver reads each of them as the Identify request. -/
theorem discovery_latched
    {steps : List ThreadStep} {final : Supervisor}
    (hrun : run Supervisor.step Supervisor.initial steps = some final) :
    ∃ before after,
      final.requests = List.replicate before (identifyFrame dcpSrcAddress) ++
        List.replicate after (identifyFrame final.sockets.srcAddress) ∧
      (0 < after → final.sockets.srcAddress ≠ dcpSrcAddress) ∧
      ∀ frame ∈ final.requests,
        ∃ srcAddress ∈ [dcpSrcAddress, final.sockets.srcAddress],
          ReadsAs frame
            ⟨dcpMcAddress, srcAddress, 0x8892, 0xfefe, 5, 0, 1, 1, 4⟩
            [0xff, 0xff, 0, 0] := by
  obtain ⟨before, after, hframes, hdummy⟩ := run_invariant Supervisor.Latched
    (fun _ _ _ h => h.step) Supervisor.Latched.initial hrun
  refine ⟨before, after, hframes, ?_, ?_⟩
  · intro hpositive hsame
    exact hpositive.ne' (hdummy hsame)
  · intro frame hframe
    rw [hframes, List.mem_append, List.mem_replicate, List.mem_replicate]
      at hframe
    rcases hframe with ⟨-, rfl⟩ | ⟨-, rfl⟩
    · exact ⟨dcpSrcAddress, by simp, identifyFrame_readsAs _⟩
    · exact ⟨final.sockets.srcAddress, by simp, identifyFrame_readsAs _⟩

/-- The second discovery finds an address. -/
theorem discovery_latched_of_two_frames :
    let steps : List ThreadStep :=
      [.discover ⟨some 3, true, 60⟩ none none fun _ => 0,
        .discover ⟨some 4, true, 60⟩ (some 5) (some dcpMcAddress) fun _ => 0]
    ∃ final, run Supervisor.step Supervisor.initial steps = some final ∧
      final.requests.length = 2 ∧
      ∀ frame ∈ final.requests,
        ∃ srcAddress ∈ [dcpSrcAddress, dcpMcAddress],
          ReadsAs frame
            ⟨dcpMcAddress, srcAddress, 0x8892, 0xfefe, 5, 0, 1, 1, 4⟩
            [0xff, 0xff, 0, 0] := by
  intro steps
  let sockets : SocketState :=
    ⟨{3, 4, 5}, dcpMcAddress, [.transmitted, .transmitted]⟩
  have hrun : run Supervisor.step Supervisor.initial steps =
      some ⟨Registration.initial, sockets, none,
        [identifyFrame dcpSrcAddress, identifyFrame dcpMcAddress], []⟩ := by
    have hopened : insert 5 (insert 4 ({3} : Finset ℕ)) = {3, 4, 5} := by
      decide
    simp [steps, run, Supervisor.step, Supervisor.discover, sockets,
      Supervisor.initial, Sockets.discoverDevices, create, frameReport,
      discoverDevices_eq, hopened]
  obtain ⟨-, -, -, -, hreads⟩ := discovery_latched hrun
  exact ⟨_, hrun, rfl, hreads⟩

/-! ## What the receiver learns -/

/-- A frame that the receiver gets. -/
def ThreadStep.reception : ThreadStep → Option Reception
  | .arrive reception => reception
  | .discover .. | .listen .. | .message .. => none

theorem Registration.isComponent :
    IsComponent Supervisor.step Registration.recieve Supervisor.registration
      ThreadStep.reception where
  moves := by
    intro s label next r hstep hreception
    cases label with
    | arrive reception =>
        obtain ⟨fd, -, hregistration, -⟩ := Supervisor.arrive_cases hstep
        cases hreception
        exact hregistration
    | discover outcome fd hwAddress heap => contradiction
    | listen sock allocated => contradiction
    | message outcome call => contradiction
  keeps := by
    intro s label next hstep hreception
    cases label with
    | discover outcome fd hwAddress heap =>
        obtain ⟨-, hnext⟩ := Supervisor.discover_cases hstep
        rw [hnext]
    | listen sock allocated =>
        obtain ⟨-, ⟨-, rfl⟩ | ⟨fd, opened, -, -, rfl⟩⟩ :=
          Supervisor.listen_cases hstep
        · rfl
        · rfl
    | message outcome call =>
        obtain ⟨-, hnext⟩ := Supervisor.message_cases hstep
        rw [hnext]
    | arrive reception =>
        obtain ⟨fd, -, hregistration, -⟩ := Supervisor.arrive_cases hstep
        cases hreception
        exact (Option.some.inj hregistration).symm

/-- The only MAC a frame can add is the multicast address of the second
test. -/
theorem recieve_table
    {g : Registration} (hempty : g.state.top = []) (r : Reception) :
    ∃ next, g.recieve r = some next ∧ next.state.top = [] ∧
      next.state.table =
        if helloTest r.pack then addDevice g.state.table dcpMcAddress
        else g.state.table := by
  obtain ⟨⟨table, top⟩, accepted⟩ := g
  simp only at hempty
  subst hempty
  have hidentifyBranch : identifyBranch r ⟨table, []⟩ = some ⟨table, []⟩ := by
    simp [identifyBranch, storeDevice_nil]
  have hhelloBranch : helloBranch r ⟨table, []⟩ =
      some ⟨addDevice table r.pack.sourceMac, []⟩ := by
    simp [helloBranch, storeDevice_nil]
  simp only [Registration.recieve, recieveProfinetPackets_eq, hidentifyBranch,
    hhelloBranch]
  cases hhello : helloTest r.pack with
  | true =>
      have hsource : r.pack.sourceMac = dcpMcAddress :=
        (helloTest_iff.mp hhello).2.2.2
      have hidentify : identifyTest r.pack = false := by
        by_contra hboth
        exact not_identifyTest_and_helloTest r.pack
          ⟨Bool.of_not_eq_false hboth, hhello⟩
      cases hcheck : check table dcpMcAddress with
      | true =>
          simp [accepts, hhello, hsource, hcheck, addDevice_of_known hcheck]
      | false => simp [accepts, hhello, hsource, hcheck, hidentify]
  | false =>
      cases hidentify : identifyTest r.pack with
      | true =>
          cases hcheck : check table r.pack.sourceMac with
          | true => simp [accepts, hhello, hidentify, hcheck]
          | false => simp [accepts, hhello, hidentify, hcheck]
      | false => simp [accepts, hhello, hidentify]

theorem table_of_run
    {g final : Registration} {receptions : List Reception}
    (hempty : g.state.top = [])
    (hrun : run Registration.recieve g receptions = some final) :
    final.state.top = [] ∧
      final.state.table = addDevices g.state.table
        ((receptions.filter fun r => helloTest r.pack).map
          fun _ => dcpMcAddress) := by
  induction receptions generalizing g with
  | nil =>
      cases hrun
      exact ⟨hempty, rfl⟩
  | cons r receptions ih =>
      obtain ⟨next, hnext, htop, htable⟩ := recieve_table hempty r
      rw [run_cons_of_step hnext] at hrun
      obtain ⟨hfinalTop, hfinalTable⟩ := ih htop hrun
      refine ⟨hfinalTop, ?_⟩
      rw [hfinalTable, htable]
      cases hhello : helloTest r.pack with
      | true => simp [hhello, addDevices]
      | false => simp [hhello]

theorem eraseDups_of_constant {α β : Type*} [BEq β] [LawfulBEq β]
    (value : β) (items : List α) :
    (items.map fun _ => value).eraseDups =
      if items = [] then [] else [value] := by
  cases items with
  | nil => rfl
  | cons item items => simp [List.eraseDups_cons]

/-- However the threads take turns, no record is ever linked, and the table
knows at most the multicast address, once a frame claims to come from it; so it
never outgrows its one row. -/
theorem registration_of_program
    {steps : List ThreadStep} {final : Supervisor}
    (hrun : run Supervisor.step Supervisor.initial steps = some final) :
    let receptions := steps.filterMap ThreadStep.reception
    final.registration.state.top = [] ∧
      final.registration.state.table.known =
        (if receptions.any fun r => helloTest r.pack then [dcpMcAddress]
          else []) ∧
      final.registration.state.table.deviceCount ≤ devicesRows := by
  intro receptions
  have hreceiver := Registration.isComponent.run_view hrun
  obtain ⟨htop, htable⟩ := table_of_run rfl hreceiver
  have hknown : final.registration.state.table.known =
      if receptions.any fun r => helloTest r.pack then [dcpMcAddress]
        else [] := by
    have hall := known_addDevices
      ((receptions.filter fun r => helloTest r.pack).map
        fun _ => dcpMcAddress)
    rw [eraseDups_of_constant] at hall
    rw [htable]
    refine hall.trans ?_
    cases hany : receptions.any fun r => helloTest r.pack with
    | false =>
        rw [if_pos (List.filter_eq_nil_iff.mpr (List.any_eq_false.mp hany))]
        rfl
    | true =>
        obtain ⟨r, hr, hhello⟩ := List.any_eq_true.mp hany
        have hsome : receptions.filter (fun r => helloTest r.pack) ≠ [] :=
          List.ne_nil_of_mem (List.mem_filter.mpr ⟨hr, hhello⟩)
        rw [if_neg hsome, if_pos rfl]
  refine ⟨htop, hknown, ?_⟩
  rw [← DeviceTable.known_length, hknown]
  split_ifs
  · exact le_refl _
  · exact Nat.zero_le _

/-- A frame comes from the multicast address. -/
theorem registration_of_program_of_hello :
    let r : Reception :=
      ⟨dcpMcAddress.val ++ dcpMcAddress.val ++
        [0x88, 0x92, 0, 6, 6, 1, 0, 0, 0, 1, 0, 0, 0, 0], fun _ => 0,
        fun _ => 0, emptyDevice, by decide⟩
    ∃ final, run Supervisor.step Supervisor.initial
        [.listen (some 3) true, .arrive (some r)] = some final ∧
      final.registration.state.table.known = [dcpMcAddress] := by
  intro r
  obtain ⟨next, hnext, -, -⟩ := @recieve_table Registration.initial rfl r
  have hrun : ∃ final, run Supervisor.step Supervisor.initial
      [.listen (some 3) true, .arrive (some r)] = some final := by
    simp [run, Supervisor.step, Supervisor.listen, Supervisor.arrive,
      Supervisor.initial, Registration.arrive, create, hnext]
  obtain ⟨final, hfinal⟩ := hrun
  obtain ⟨-, hknown, -⟩ := registration_of_program hfinal
  have hhello : helloTest r.pack = true := helloTest_iff.mpr
    ⟨by decide, by decide, by decide, by decide⟩
  refine ⟨final, hfinal, hknown.trans ?_⟩
  simp [ThreadStep.reception, hhello]

end ProfinetIo
