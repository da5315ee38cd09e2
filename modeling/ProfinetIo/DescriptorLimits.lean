import ProfinetIo.InterleavedRuns
import ProfinetIo.SocketLeaks
import Mathlib.Tactic

/-!
# Running out of descriptors

How many descriptors a call leaves open is known from its answers, so the open
descriptors of a run can be counted exactly.  The system grants a socket only
below a limit.  A leaked descriptor is never closed by a later call, so the
calls that leak are as many as the limit leaves room for, and when it is
reached no call of any later run gets a socket.
-/

namespace ProfinetIo

open DescriptorTable InterleavedRuns TransitionRuns

/-! ## Counting -/

/-- The descriptors that a call leaves open. -/
def leaks (s : SocketState) : SocketCall → ℕ
  | .discoverDevices outcome fd _ =>
      outcome.sock.toList.length +
        if outcome.sock ≠ none ∧ outcome.allocated ∧
            s.srcAddress = dcpSrcAddress then
          fd.toList.length
        else 0
  | .setIpConfig outcome => outcome.sock.toList.length
  | .sendReadIoPacket outcome net _ ip _ _ _ =>
      if net.gethostbyname ip = none then outcome.sock.toList.length else 0
  | .sendWriteIoPacket outcome net _ ip _ _ _ _ =>
      if net.gethostbyname ip = none then outcome.sock.toList.length else 0
  | .recieveProfinetPackets _ _ _ | .sendSetReq _ | .sendGetReq _ => 0

namespace Sockets

variable {s next : SocketState}

theorem sendFrame_card
    {closes : Bool} {outcome : FrameOutcome}
    (h : sendFrame closes outcome s = some next) :
    next.opened.card =
        s.opened.card + (if closes then 0 else outcome.sock.toList.length) ∧
      s.opened ⊆ next.opened := by
  obtain ⟨opened, hopened, rfl⟩ := Option.map_eq_some_iff.mp h
  cases closes with
  | false => exact ⟨card_of_create hopened, subset_of_create hopened⟩
  | true =>
      have hclosed := release_of_create hopened
      simp [hclosed]

theorem discoverDevices_card
    {outcome : FrameOutcome} {fd : Option ℕ} {hwAddress : Option (Octets 6)}
    (h : discoverDevices outcome fd hwAddress s = some next) :
    next.opened.card =
        s.opened.card + leaks s (.discoverDevices outcome fd hwAddress) ∧
      s.opened ⊆ next.opened := by
  obtain ⟨opened, hopened, hnext⟩ := Option.bind_eq_some_iff.mp h
  have hfirst := card_of_create hopened
  have hkept := subset_of_create hopened
  dsimp only at hnext
  split_ifs at hnext with hsecond
  · obtain ⟨opened', hopened', rfl⟩ := Option.map_eq_some_iff.mp hnext
    have hmore := card_of_create hopened'
    rw [leaks, if_pos hsecond]
    exact ⟨by simp only; omega, hkept.trans (subset_of_create hopened')⟩
  · cases hnext
    rw [leaks, if_neg hsecond]
    exact ⟨hfirst, hkept⟩

theorem sendIo_card
    {outcome : IoOutcome} {net : Network} {ip packet : List UInt8}
    (h : sendIo outcome (sendIoPacket net ip packet) s = some next) :
    next.opened.card =
        s.opened.card + (if net.gethostbyname ip = none then
          outcome.sock.toList.length else 0) ∧
      s.opened ⊆ next.opened := by
  obtain ⟨opened, hopened, hnext⟩ := Option.bind_eq_some_iff.mp h
  have hmyIp := release_of_create hopened
  have hallocated : outcome.allocated = true := by
    by_contra hnull
    simp [hnull] at hnext
  simp only [if_pos hallocated] at hnext
  obtain ⟨opened', hopened', rfl⟩ := Option.map_eq_some_iff.mp hnext
  rw [hmyIp] at hopened'
  have hreturns := @sendIoPacket_ret_ne_iff net ip packet
  by_cases hhost : net.gethostbyname ip = none
  · have hret : (sendIoPacket net ip packet).ret = -1 := by
      by_contra hret
      exact hreturns.mp hret hhost
    rw [if_pos hhost, if_pos hret]
    exact ⟨card_of_create hopened', subset_of_create hopened'⟩
  · have hclosed := release_of_create hopened'
    rw [if_neg hhost, if_neg (hreturns.mpr hhost), hclosed]
    exact ⟨rfl, Finset.Subset.refl _⟩

end Sockets

theorem socketStep_card
    {s next : SocketState} {call : SocketCall}
    (h : socketStep s call = some next) :
    next.opened.card = s.opened.card + leaks s call ∧
      s.opened ⊆ next.opened := by
  cases call with
  | discoverDevices outcome fd hwAddress =>
      exact Sockets.discoverDevices_card h
  | recieveProfinetPackets sock allocated frame =>
      have hsame := Sockets.recieveProfinetPackets_opened h
      rw [hsame]
      exact ⟨rfl, Finset.Subset.refl _⟩
  | sendSetReq outcome => exact Sockets.sendFrame_card h
  | sendGetReq outcome => exact Sockets.sendFrame_card h
  | setIpConfig outcome => exact Sockets.sendFrame_card h
  | sendReadIoPacket outcome net heap ip api slot subslot =>
      exact Sockets.sendIo_card h
  | sendWriteIoPacket outcome net heap ip api slot subslot data =>
      exact Sockets.sendIo_card h

/-! ## The limit -/

def SocketCall.sock : SocketCall → Option ℕ
  | .discoverDevices outcome _ _ => outcome.sock
  | .recieveProfinetPackets sock _ _ => sock
  | .sendSetReq outcome => outcome.sock
  | .sendGetReq outcome => outcome.sock
  | .setIpConfig outcome => outcome.sock
  | .sendReadIoPacket outcome _ _ _ _ _ _ => outcome.sock
  | .sendWriteIoPacket outcome _ _ _ _ _ _ _ => outcome.sock

/-- The answers to `socket` that a process with so many descriptors can get. -/
def Granted (limit : ℕ) (s : SocketState) : SocketCall → Prop
  | .discoverDevices outcome fd _ =>
      (outcome.sock ≠ none → s.opened.card < limit) ∧
        (fd ≠ none → s.opened.card + outcome.sock.toList.length < limit)
  | .sendReadIoPacket outcome _ _ _ _ _ _ =>
      (outcome.myIp ≠ none → s.opened.card < limit) ∧
        (outcome.sock ≠ none → s.opened.card < limit)
  | .sendWriteIoPacket outcome _ _ _ _ _ _ _ =>
      (outcome.myIp ≠ none → s.opened.card < limit) ∧
        (outcome.sock ≠ none → s.opened.card < limit)
  | .recieveProfinetPackets sock _ _ => sock ≠ none → s.opened.card < limit
  | .sendSetReq outcome => outcome.sock ≠ none → s.opened.card < limit
  | .sendGetReq outcome => outcome.sock ≠ none → s.opened.card < limit
  | .setIpConfig outcome => outcome.sock ≠ none → s.opened.card < limit

instance : DecidablePred Closes
  | .discoverDevices outcome _ _ =>
      inferInstanceAs (Decidable (outcome.sock = none))
  | .setIpConfig outcome => inferInstanceAs (Decidable (outcome.sock = none))
  | .sendReadIoPacket outcome net _ ip _ _ _ =>
      inferInstanceAs (Decidable
        (outcome.sock = none ∨ net.gethostbyname ip ≠ none))
  | .sendWriteIoPacket outcome net _ ip _ _ _ _ =>
      inferInstanceAs (Decidable
        (outcome.sock = none ∨ net.gethostbyname ip ≠ none))
  | .recieveProfinetPackets _ _ _ | .sendSetReq _ | .sendGetReq _ =>
      inferInstanceAs (Decidable True)

section Limit

variable {limit : ℕ} {s next : SocketState} {call : SocketCall}

theorem toList_length_le {created : Option ℕ} {count limit : ℕ}
    (hroom : count ≤ limit) (h : created ≠ none → count < limit) :
    count + created.toList.length ≤ limit := by
  cases created with
  | none => simpa using hroom
  | some fd =>
      have hlt := h nofun
      simp only [Option.toList_some, List.length_singleton]
      omega

theorem Granted.room (h : Granted limit s call)
    (hroom : s.opened.card ≤ limit) :
    s.opened.card + leaks s call ≤ limit := by
  cases call with
  | discoverDevices outcome fd hwAddress =>
      obtain ⟨hsock, hfd⟩ := h
      have hfirst := toList_length_le hroom hsock
      have hsecond := toList_length_le hfirst hfd
      rw [leaks]
      split_ifs
      · omega
      · omega
  | setIpConfig outcome => exact toList_length_le hroom h
  | sendReadIoPacket outcome net heap ip api slot subslot =>
      have hsock := toList_length_le hroom h.2
      rw [leaks]
      split_ifs
      · exact hsock
      · exact hroom
  | sendWriteIoPacket outcome net heap ip api slot subslot data =>
      have hsock := toList_length_le hroom h.2
      rw [leaks]
      split_ifs
      · exact hsock
      · exact hroom
  | recieveProfinetPackets sock allocated frame => exact hroom
  | sendSetReq outcome => exact hroom
  | sendGetReq outcome => exact hroom

theorem Granted.sock_eq_none (h : Granted limit s call)
    (hfull : limit ≤ s.opened.card) : call.sock = none := by
  by_contra hsock
  have hlt : s.opened.card < limit := by
    cases call with
    | discoverDevices outcome fd hwAddress => exact h.1 hsock
    | recieveProfinetPackets sock allocated frame => exact h hsock
    | sendSetReq outcome => exact h hsock
    | sendGetReq outcome => exact h hsock
    | setIpConfig outcome => exact h hsock
    | sendReadIoPacket outcome net heap ip api slot subslot => exact h.2 hsock
    | sendWriteIoPacket outcome net heap ip api slot subslot data =>
        exact h.2 hsock
  omega

theorem leaks_eq_zero_iff (hstep : socketStep s call = some next) :
    leaks s call = 0 ↔ Closes call := by
  obtain ⟨hcard, hsubset⟩ := socketStep_card hstep
  rw [← socketStep_opened_iff hstep]
  constructor
  · intro hzero
    exact (Finset.eq_of_subset_of_card_le hsubset (by omega)).symm
  · intro hsame
    rw [hsame] at hcard
    omega

end Limit

/-! ## Runs -/

section Runs

variable {limit : ℕ} {s final : SocketState} {calls : List SocketCall}

/-- The number of calls that leave a descriptor open. -/
def leakingCalls (calls : List SocketCall) : ℕ :=
  calls.countP fun call => !decide (Closes call)

theorem leakingCalls_le_total
    (hrun : run socketStep s calls = some final) :
    leakingCalls calls ≤ total socketStep leaks s calls := by
  induction calls generalizing s with
  | nil => exact Nat.zero_le _
  | cons call calls ih =>
      obtain ⟨next, hnext, hrest⟩ := Option.bind_eq_some_iff.mp hrun
      have hmore := ih hrest
      have hzero := leaks_eq_zero_iff hnext
      rw [total_cons_of_step hnext, leakingCalls, List.countP_cons]
      unfold leakingCalls at hmore
      by_cases hcloses : Closes call
      · simp only [hcloses, decide_true, Bool.not_true, Bool.false_eq_true,
          if_false]
        omega
      · have hleaks : leaks s call ≠ 0 := fun h => hcloses (hzero.mp h)
        simp only [hcloses, decide_false, Bool.not_false, if_true]
        omega

/-- The open descriptors are those of the start and the leaked ones, and below
a limit only so many calls can leak. -/
theorem descriptors_counted
    (hrun : run socketStep s calls = some final) :
    s.opened ⊆ final.opened ∧
      final.opened.card = s.opened.card + total socketStep leaks s calls ∧
      ∀ limit, s.opened.card ≤ limit →
        StepsAllowed socketStep (Granted limit) s calls →
          s.opened.card + leakingCalls calls ≤ limit := by
  have hcount : final.opened.card =
      s.opened.card + total socketStep leaks s calls :=
    run_measure (fun s call next h => (socketStep_card h).1) hrun
  refine ⟨?_, hcount, ?_⟩
  · exact @run_relates _ _ socketStep
      (fun before after => before.opened ⊆ after.opened)
      (fun s => Finset.Subset.refl s.opened)
      (fun _ _ _ => Finset.Subset.trans)
      (fun s call next h => (socketStep_card h).2) _ _ _ hrun
  · intro limit hroom hgranted
    have hbound : final.opened.card ≤ limit := by
      refine run_invariant_of_allowed (fun s => s.opened.card ≤ limit) ?_
        hgranted hroom hrun
      intro s call next hs hcall hstep
      rw [(socketStep_card hstep).1]
      exact hcall.room hs
    have hleaking := leakingCalls_le_total hrun
    omega

/-- A discovery opens two sockets and a configuration one. -/
theorem descriptors_counted_of_two_calls :
    let calls : List SocketCall :=
      [.discoverDevices ⟨some 3, true, 60⟩ (some 4) none,
        .setIpConfig ⟨some 5, true, 60⟩]
    ∃ final, run socketStep ⟨∅, dcpSrcAddress, []⟩ calls = some final ∧
      final.opened.card = 3 ∧ leakingCalls calls ≤ 3 := by
  intro calls
  obtain ⟨-, hcount, hlimit⟩ := @descriptors_counted
    ⟨∅, dcpSrcAddress, []⟩ _ calls rfl
  refine ⟨_, rfl, hcount.trans (by decide), ?_⟩
  have hgranted := hlimit 3 (by decide)
    ⟨⟨by decide, by decide⟩, fun next hnext => by
      cases hnext
      exact ⟨by unfold Granted; decide, fun _ _ => trivial⟩⟩
  simpa using hgranted

/-! ## Starvation -/

/-- What a call reports that gets no socket. -/
def unservedReport : SocketCall → CallReport
  | .sendReadIoPacket _ net heap ip api slot subslot =>
      .returned (sendReadIoPacket net heap ip api slot subslot).ret
  | .sendWriteIoPacket _ net heap ip api slot subslot data =>
      .returned (sendWriteIoPacket net heap ip api slot subslot data).ret
  | .discoverDevices _ _ _ | .recieveProfinetPackets _ _ _ | .sendSetReq _
  | .sendGetReq _ | .setIpConfig _ => .socketNotCreated

theorem sendIo_of_unserved
    {outcome : IoOutcome} {result : IoResult} {next : SocketState}
    (hmyIp : outcome.myIp = none) (hsock : outcome.sock = none)
    (h : Sockets.sendIo outcome result s = some next) :
    next = { s with reports := s.reports ++ [.returned result.ret] } := by
  simp only [Sockets.sendIo, hmyIp, hsock, create, release, Option.bind_some,
    Option.map_some, ite_self] at h
  split_ifs at h
  cases h
  rfl

theorem Granted.step_of_full
    {call : SocketCall} {next : SocketState} (h : Granted limit s call)
    (hfull : limit ≤ s.opened.card) (hstep : socketStep s call = some next) :
    next = { s with reports := s.reports ++ [unservedReport call] } := by
  have hsock := h.sock_eq_none hfull
  cases call with
  | discoverDevices outcome fd hwAddress =>
      have hnone : outcome.sock = none := hsock
      simp only [socketStep, Sockets.discoverDevices, hnone, create,
        Option.bind_some, frameReport, ne_eq, not_true_eq_false, false_and,
        if_false, Option.some.injEq] at hstep
      exact hstep.symm
  | recieveProfinetPackets sock allocated frame =>
      have hnone : sock = none := hsock
      subst hnone
      simp only [socketStep, Sockets.recieveProfinetPackets, create, release,
        Option.bind_some, Option.some.injEq] at hstep
      exact hstep.symm
  | sendSetReq outcome =>
      have hnone : outcome.sock = none := hsock
      simp only [socketStep, Sockets.sendSetReq, Sockets.sendFrame, hnone,
        create, release, frameReport, Option.map_some, ite_self,
        Option.some.injEq] at hstep
      exact hstep.symm
  | sendGetReq outcome =>
      have hnone : outcome.sock = none := hsock
      simp only [socketStep, Sockets.sendGetReq, Sockets.sendFrame, hnone,
        create, release, frameReport, Option.map_some, ite_self,
        Option.some.injEq] at hstep
      exact hstep.symm
  | setIpConfig outcome =>
      have hnone : outcome.sock = none := hsock
      simp only [socketStep, Sockets.setIpConfig, Sockets.sendFrame, hnone,
        create, release, frameReport, Option.map_some, ite_self,
        Option.some.injEq] at hstep
      exact hstep.symm
  | sendReadIoPacket outcome net heap ip api slot subslot =>
      have hmyIp : outcome.myIp = none := by
        by_contra hsome
        exact absurd (h.1 hsome) (Nat.not_lt.mpr hfull)
      exact sendIo_of_unserved hmyIp hsock hstep
  | sendWriteIoPacket outcome net heap ip api slot subslot data =>
      have hmyIp : outcome.myIp = none := by
        by_contra hsome
        exact absurd (h.1 hsome) (Nat.not_lt.mpr hfull)
      exact sendIo_of_unserved hmyIp hsock hstep

/-- When the limit is reached no later call gets a socket, and nothing that is
open is ever closed again. -/
theorem starved_for_ever
    (hfull : s.opened.card = limit)
    (hgranted : StepsAllowed socketStep (Granted limit) s calls)
    (hrun : run socketStep s calls = some final) :
    (∀ call ∈ calls, call.sock = none) ∧
      final = { s with reports := s.reports ++ calls.map unservedReport } := by
  induction calls generalizing s with
  | nil =>
      cases hrun
      simp
  | cons call calls ih =>
      obtain ⟨next, hnext, hrest⟩ := Option.bind_eq_some_iff.mp hrun
      obtain ⟨hcall, hcalls⟩ := hgranted
      have hsame := hcall.step_of_full hfull.ge hnext
      have hnextFull : next.opened.card = limit := by rw [hsame, hfull]
      obtain ⟨hnone, hfinal⟩ := ih hnextFull (hcalls next hnext) hrest
      refine ⟨?_, ?_⟩
      · exact List.forall_mem_cons.mpr ⟨hcall.sock_eq_none hfull.ge, hnone⟩
      · rw [hfinal, hsame]
        simp

/-- A configuration uses up the only descriptor; a discovery then fails, and a
read reports a success. -/
theorem starved_for_ever_of_leak :
    let net : Network := ⟨fun _ => some [192, 168, 1, 2], fun _ => -1, none⟩
    let calls : List SocketCall :=
      [.discoverDevices ⟨none, true, 60⟩ none none,
        .sendReadIoPacket ⟨none, true, none⟩ net (fun _ => 0) [] 0 0 0]
    ∃ s, run socketStep ⟨∅, dcpSrcAddress, []⟩
        [.setIpConfig ⟨some 3, true, 60⟩] = some s ∧
      s.opened.card = 1 ∧
      run socketStep s calls = some { s with
        reports := s.reports ++ [.socketNotCreated, .returned 0] } := by
  intro net calls
  let s : SocketState := ⟨{3}, dcpSrcAddress, [.transmitted]⟩
  have hgranted : StepsAllowed socketStep (Granted 1) s calls :=
    ⟨⟨nofun, nofun⟩, fun _ _ => ⟨⟨nofun, nofun⟩, fun _ _ => trivial⟩⟩
  obtain ⟨-, hfinal⟩ := @starved_for_ever 1 s _ calls rfl hgranted rfl
  have hret : (sendReadIoPacket net (fun _ => 0) [] 0 0 0).ret = 0 := rfl
  refine ⟨s, rfl, rfl, (congrArg some hfinal).trans ?_⟩
  simp only [calls, List.map_cons, List.map_nil, unservedReport, hret]

end Runs

end ProfinetIo
