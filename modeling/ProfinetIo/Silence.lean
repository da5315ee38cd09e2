import ProfinetIo.Supervisor
import Mathlib.Tactic

/-!
# How the program falls silent

Every frame of discovery costs a descriptor that is never closed, so only so
many are ever sent.  When the descriptors are used up and the receiver has
closed its socket, no thread gets another one: nothing is sent or received any
more, and every message is answered with an empty response.
-/

namespace ProfinetIo

open DescriptorTable InterleavedRuns TransitionRuns

namespace Supervisor

/-- The answers that a process with so many descriptors can get.  A datagram
cannot be sent without a socket. -/
def Granted (limit : ℕ) (s : Supervisor) : ThreadStep → Prop
  | .discover outcome fd hwAddress _ =>
      ProfinetIo.Granted limit s.sockets
        (.discoverDevices outcome fd hwAddress)
  | .listen sock _ => sock ≠ none → s.sockets.opened.card < limit
  | .arrive _ => True
  | .message outcome call =>
      (outcome.myIp ≠ none → s.sockets.opened.card < limit) ∧
        (outcome.sock ≠ none → s.sockets.opened.card < limit) ∧
          (outcome.sock = none → ∀ datagram, call.net.sendto datagram < 0)

/-- The frames of discovery are paid for with open descriptors, beside the one
that the receiver waits on. -/
structure Bounded (limit : ℕ) (s : Supervisor) : Prop where
  paid : s.requests.length + s.listening.toList.length ≤
    s.sockets.opened.card
  waiting : ∀ fd, s.listening = some fd → fd ∈ s.sockets.opened
  room : s.sockets.opened.card ≤ limit

end Supervisor

/-! ## The handler's sockets -/

section Handler

variable {s next : SocketState} {outcome : IoOutcome} {call : HandlerCall}

theorem handle_cases
    (h : Sockets.handle outcome call.ioResult s = some next) :
    next = s ∨ ∃ socketCall, socketStep s socketCall = some next ∧
      ∀ limit, (outcome.myIp ≠ none → s.opened.card < limit) →
        (outcome.sock ≠ none → s.opened.card < limit) →
          Granted limit s socketCall := by
  unfold HandlerCall.ioResult at h
  split_ifs at h
  · exact Or.inr ⟨.sendReadIoPacket outcome call.net call.heap call.ip
      call.api call.slot call.subSlot, h, fun _ hmyIp hsock => ⟨hmyIp, hsock⟩⟩
  · exact Or.inr ⟨.sendWriteIoPacket outcome call.net call.heap call.ip
      call.api call.slot call.subSlot call.data, h,
      fun _ hmyIp hsock => ⟨hmyIp, hsock⟩⟩
  · cases h
    exact Or.inl rfl

end Handler

/-! ## The price of a frame -/

namespace Supervisor

variable {limit : ℕ} {s next : Supervisor}

theorem Bounded.discover
    {outcome : FrameOutcome} {fd : Option ℕ} {hwAddress : Option (Octets 6)}
    {heap : ByteMemory.Memory} (h : Bounded limit s)
    (hgranted : Granted limit s (.discover outcome fd hwAddress heap))
    (hstep : step s (.discover outcome fd hwAddress heap) = some next) :
    Bounded limit next := by
  obtain ⟨hsockets, hnext⟩ := discover_cases hstep
  have hcall : socketStep s.sockets (.discoverDevices outcome fd hwAddress) =
      some next.sockets := hsockets
  have hallowed : ProfinetIo.Granted limit s.sockets
      (.discoverDevices outcome fd hwAddress) := hgranted
  obtain ⟨hcard, hsubset⟩ := socketStep_card hcall
  have hroom := hallowed.room h.room
  have hpaid := h.paid
  have hlistening : next.listening = s.listening := by rw [hnext]
  have hsent : next.requests.length ≤ s.requests.length +
      leaks s.sockets (.discoverDevices outcome fd hwAddress) := by
    have hrequests := congrArg Supervisor.requests hnext
    simp only at hrequests
    rw [hrequests, List.length_append, leaks]
    split_ifs with hsent
    · obtain ⟨sock, hsock⟩ := Option.ne_none_iff_exists'.mp hsent.1
      simp [hsock]
    · obtain ⟨sock, hsock⟩ := Option.ne_none_iff_exists'.mp hsent.1
      simp [hsock]
    · simp
    · simp
  refine ⟨?_, ?_, ?_⟩
  · rw [hlistening, hcard]
    omega
  · intro waiting hwaiting
    rw [hlistening] at hwaiting
    exact hsubset (h.waiting waiting hwaiting)
  · rw [hcard]
    exact hroom

theorem Bounded.listen
    {sock : Option ℕ} {allocated : Bool} (h : Bounded limit s)
    (hgranted : Granted limit s (.listen sock allocated))
    (hstep : step s (.listen sock allocated) = some next) :
    Bounded limit next := by
  obtain ⟨hidle, ⟨-, rfl⟩ | ⟨fd, opened, rfl, hopened, rfl⟩⟩ :=
    listen_cases hstep
  · exact ⟨h.paid, h.waiting, h.room⟩
  · have hcard := card_of_create hopened
    have hlt := hgranted nofun
    have hpaid := h.paid
    rw [hidle] at hpaid
    simp only [Option.toList_none, Option.toList_some, List.length_nil,
      List.length_singleton] at hcard hpaid
    refine ⟨?_, ?_, ?_⟩
    · simp only [Option.toList_some, List.length_singleton]
      omega
    · intro fd' hfd'
      cases hfd'
      exact mem_of_create hopened
    · simp only
      omega

theorem Bounded.arrive
    {reception : Option Reception} (h : Bounded limit s)
    (hstep : step s (.arrive reception) = some next) :
    Bounded limit next := by
  obtain ⟨fd, hlistening, -, hnext⟩ := arrive_cases hstep
  have hcard := Finset.card_erase_add_one (h.waiting fd hlistening)
  have hpaid := h.paid
  have hroom := h.room
  rw [hlistening] at hpaid
  simp only [Option.toList_some, List.length_singleton] at hpaid
  rw [hnext]
  refine ⟨?_, nofun, ?_⟩
  · simp only [Option.toList_none, List.length_nil]
    omega
  · simp only
    omega

theorem Bounded.message
    {outcome : IoOutcome} {call : HandlerCall} (h : Bounded limit s)
    (hgranted : Granted limit s (.message outcome call))
    (hstep : step s (.message outcome call) = some next) :
    Bounded limit next := by
  obtain ⟨hsockets, hnext⟩ := message_cases hstep
  rw [hnext]
  rcases handle_cases hsockets with hsame | ⟨socketCall, hcall, hallowed⟩
  · rw [hsame]
    exact ⟨h.paid, h.waiting, h.room⟩
  · obtain ⟨hcard, hsubset⟩ := socketStep_card hcall
    have hroom := (hallowed limit hgranted.1 hgranted.2.1).room h.room
    have hpaid := h.paid
    refine ⟨?_, ?_, ?_⟩
    · simp only
      omega
    · intro fd hfd
      exact hsubset (h.waiting fd hfd)
    · simp only
      omega

theorem Bounded.step {label : ThreadStep} (h : Bounded limit s)
    (hgranted : Granted limit s label) (hstep : step s label = some next) :
    Bounded limit next := by
  cases label with
  | discover outcome fd hwAddress heap => exact h.discover hgranted hstep
  | listen sock allocated => exact h.listen hgranted hstep
  | arrive reception => exact h.arrive hstep
  | message outcome call => exact h.message hgranted hstep

/-! ## Silence -/

/-- No descriptor is left, and none will be closed. -/
structure Full (limit : ℕ) (s : Supervisor) : Prop where
  opened : limit ≤ s.sockets.opened.card
  idle : s.listening = none

/-- Nothing has been sent or received in between, and no message has had an
answer with bytes in it. -/
structure Silent (s next : Supervisor) : Prop where
  registration : next.registration = s.registration
  requests : next.requests = s.requests
  opened : next.sockets.opened = s.sockets.opened
  answers : ∃ answers, next.exchanges = s.exchanges ++ answers ∧
    ∀ answer ∈ answers, answer.published = none ∨
      answer.published = some (responseText [])

theorem Silent.refl (s : Supervisor) : Silent s s :=
  ⟨rfl, rfl, rfl, [], by simp, by simp⟩

theorem Silent.trans {first second third : Supervisor}
    (h : Silent first second) (h' : Silent second third) :
    Silent first third := by
  obtain ⟨answers, hanswers, hempty⟩ := h.answers
  obtain ⟨answers', hanswers', hempty'⟩ := h'.answers
  refine ⟨h'.registration.trans h.registration,
    h'.requests.trans h.requests, h'.opened.trans h.opened,
    answers ++ answers', ?_, ?_⟩
  · rw [hanswers', hanswers, List.append_assoc]
  · exact List.forall_mem_append.mpr ⟨hempty, hempty'⟩

end Supervisor

end ProfinetIo
