import ProfinetIo.MemoryScripts
import ProfinetIo.Supervisor
import Mathlib.Tactic

/-!
# How the program uses up its memory

No buffer of a frame is ever freed: not the 65536 bytes that are received into,
not the copy that is parsed, not the record it is parsed into, and none of the
buffers that are sent from.  Of a JSON text that has been parsed only the values
under the six keys are given back.  With a heap of finite size the receiver gets
only so many frames, and the next one it has a socket for is its last.
-/

namespace ProfinetIo

open InterleavedRuns MemoryScripts TransitionRuns

/-! ## The scripts of the calls -/

/-- The variables that hold the addresses of allocated blocks; `values` stands
for the six values of a JSON text that have variables of their own. -/
inductive BlockVariable where
  | sock
  | buf
  | buffer
  | dev
  | pl
  | parsedJson
  | values
  | destIp
  deriving DecidableEq, Repr

/-- The sizes of the types on a 64-bit host. -/
def sizeofInt : ℕ := 4
def sizeofOsBuf : ℕ := 16
def sizeofDevice : ℕ := 40
def sizeofOsIpaddr : ℕ := 4

def bufScript (length : ℕ) (allocated : Bool) :
    List (MemoryOp BlockVariable) :=
  if allocated then [.allocate .buf (sizeofOsBuf + length)] else []

/-- The senders of frames free the place of their descriptor, if they have got
one. -/
def frameScript (outcome : FrameOutcome) : List (MemoryOp BlockVariable) :=
  .allocate .sock sizeofInt ::
    match outcome.sock with
    | none => []
    | some _ => bufScript 60 outcome.allocated ++ [.release .sock]

def listenScript (sock : Option ℕ) : List (MemoryOp BlockVariable) :=
  match sock with
  | none => []
  | some _ => [.allocate .buffer 65536]

/-- Each payload is parsed into a record, a fresh one if the lookup finds none,
from a copy of its own. -/
def arriveScript (s : ReceiveState) (r : Reception) :
    List (MemoryOp BlockVariable) :=
  (handed s.table r).flatMap fun (_, length) =>
    (match findDeviceByMAC s.top r.pack.sourceMac with
      | .null => [.allocate .dev sizeofDevice]
      | .node _ | .undefined => []) ++
    [.allocate .pl length]

/-- The write sender also allocates an address, which it does not use, and
frees it where it closes its socket. -/
def writeScript (allocated destIp resolved : Bool) :
    List (MemoryOp BlockVariable) :=
  bufScript 2048 allocated ++
    if destIp then
      .allocate .destIp sizeofOsIpaddr ::
        if resolved then [.release .destIp] else []
    else []

/-- The bytes of a parsed JSON text: the values under the six keys, and the
rest, which is the root with its table of keys and all other values. -/
structure JsonTree where
  values : ℕ
  rest : ℕ

/-- `json_to_struct` puts the values that it has found, but never the tree it
has found them in. -/
def treeScript (tree : JsonTree) (parsed : Option JsonFields) :
    List (MemoryOp BlockVariable) :=
  match parsed with
  | none => []
  | some _ =>
      [.allocate .parsedJson tree.rest, .allocate .values tree.values,
        .release .values]

def ioScript (outcome : IoOutcome) (destIp : Bool) (call : HandlerCall) :
    List (MemoryOp BlockVariable) :=
  if call.IsRead then
    bufScript 2048 outcome.allocated
  else if call.IsWrite then
    writeScript outcome.allocated destIp
      (call.net.gethostbyname call.ip).isSome
  else []

def messageScript (outcome : IoOutcome) (destIp : Bool) (tree : JsonTree)
    (call : HandlerCall) : List (MemoryOp BlockVariable) :=
  treeScript tree (call.tokener call.payload) ++ ioScript outcome destIp call

/-! ## The process -/

structure Process where
  program : Supervisor
  used : ℕ

/-- `destIp` tells whether the address of the write sender is allocated, and
`tree` what the parser takes for the text of a message. -/
structure ProcessStep where
  thread : ThreadStep
  destIp : Bool
  tree : JsonTree

namespace Process

/-- `used` is what is in use before the threads start. -/
def initial (used : ℕ) : Process := ⟨Supervisor.initial, used⟩

def script (p : Process) (label : ProcessStep) :
    List (MemoryOp BlockVariable) :=
  match label.thread with
  | .discover outcome _ _ _ => frameScript outcome
  | .listen sock _ => listenScript sock
  | .arrive none => []
  | .arrive (some r) => arriveScript p.program.registration.state r
  | .message outcome call =>
      messageScript outcome label.destIp label.tree call

def step (limit : ℕ) (p : Process) (label : ProcessStep) : Option Process :=
  (Supervisor.step p.program label.thread).bind fun program =>
    (usedAfter limit p.used (p.script label)).map fun used =>
      ⟨program, used⟩

/-- What holds of every run of the threads holds of the process. -/
theorem isComponent (limit : ℕ) :
    IsComponent (step limit) Supervisor.step Process.program
      fun label => some label.thread where
  moves := by
    intro p label next thread hstep hthread
    obtain ⟨program, hprogram, hused⟩ := Option.bind_eq_some_iff.mp hstep
    obtain ⟨used, -, rfl⟩ := Option.map_eq_some_iff.mp hused
    cases hthread
    exact hprogram
  keeps := by
    intro p label next hstep hthread
    contradiction

def lostBytes (p : Process) (label : ProcessStep) : ℕ :=
  match label.thread with
  | .discover outcome _ _ _ =>
      if outcome.sock = none then 4 else if outcome.allocated then 76 else 0
  | .listen sock _ => if sock = none then 0 else 65536
  | .arrive none => 0
  | .arrive (some r) =>
      if accepts p.program.registration.state.table r.pack then
        (if findDeviceByMAC p.program.registration.state.top
            r.pack.sourceMac = .null then 40 else 0) + r.pack.ddl
      else 0
  | .message outcome call =>
      (if (call.tokener call.payload).isSome then label.tree.rest else 0) +
        if call.IsRead then if outcome.allocated then 2064 else 0
        else if call.IsWrite then
          (if outcome.allocated then 2064 else 0) +
            if label.destIp ∧ call.net.gethostbyname call.ip = none then 4
            else 0
        else 0

end Process

/-! ## What a step loses -/

theorem lost_bufScript (length : ℕ) (allocated : Bool) :
    lost (bufScript length allocated) =
      if allocated then 16 + length else 0 := by
  cases allocated with
  | true => rfl
  | false => rfl

theorem lost_frameScript (outcome : FrameOutcome) :
    lost (frameScript outcome) =
      if outcome.sock = none then 4
      else if outcome.allocated then 76 else 0 := by
  obtain ⟨sock, allocated, sendRet⟩ := outcome
  cases sock with
  | none => rfl
  | some fd =>
      cases allocated with
      | true => rfl
      | false => rfl

theorem lost_listenScript (sock : Option ℕ) :
    lost (listenScript sock) = if sock = none then 0 else 65536 := by
  cases sock with
  | none => rfl
  | some fd => rfl

theorem lost_arriveScript (s : ReceiveState) (r : Reception) :
    lost (arriveScript s r) =
      if accepts s.table r.pack then
        (if findDeviceByMAC s.top r.pack.sourceMac = .null then 40 else 0) +
          r.pack.ddl
      else 0 := by
  rw [arriveScript, handed_eq]
  split_ifs with haccepts hlookup
  · simp [hlookup, lost, after, sizeofDevice, Nat.add_comm]
  · cases hfound : findDeviceByMAC s.top r.pack.sourceMac with
    | null => contradiction
    | node index => simp [lost, after]
    | undefined => simp [lost, after]
  · rfl

theorem lost_writeScript (allocated destIp resolved : Bool) :
    lost (writeScript allocated destIp resolved) =
      (if allocated then 2064 else 0) +
        if destIp ∧ resolved = false then 4 else 0 := by
  cases allocated <;> cases destIp <;> cases resolved <;> rfl

theorem lost_treeScript (tree : JsonTree) (parsed : Option JsonFields) :
    lost (treeScript tree parsed) =
      if parsed.isSome then tree.rest else 0 := by
  cases parsed with
  | none => rfl
  | some fields => simp [treeScript, lost, after]

theorem lost_ioScript
    (outcome : IoOutcome) (destIp : Bool) (call : HandlerCall) :
    lost (ioScript outcome destIp call) =
      if call.IsRead then if outcome.allocated then 2064 else 0
      else if call.IsWrite then
        (if outcome.allocated then 2064 else 0) +
          if destIp ∧ call.net.gethostbyname call.ip = none then 4 else 0
      else 0 := by
  by_cases hread : call.IsRead
  · rw [ioScript, if_pos hread, if_pos hread, lost_bufScript]
  · by_cases hwrite : call.IsWrite
    · rw [ioScript, if_neg hread, if_neg hread, if_pos hwrite,
        if_pos hwrite, lost_writeScript]
      simp only [Option.isSome_eq_false_iff, Option.isNone_iff_eq_none]
    · rw [ioScript, if_neg hread, if_neg hread, if_neg hwrite,
        if_neg hwrite]
      rfl

theorem release_of_ioScript
    {outcome : IoOutcome} {destIp : Bool} {call : HandlerCall}
    {name : BlockVariable} (h : .release name ∈ ioScript outcome destIp call) :
    name = .destIp := by
  unfold ioScript writeScript bufScript at h
  split_ifs at h
  all_goals simp_all

theorem lost_messageScript
    (outcome : IoOutcome) (destIp : Bool) (tree : JsonTree)
    (call : HandlerCall) :
    lost (messageScript outcome destIp tree call) =
      lost (treeScript tree (call.tokener call.payload)) +
        lost (ioScript outcome destIp call) := by
  apply lost_append
  intro name hname
  rw [release_of_ioScript hname]
  cases call.tokener call.payload with
  | none => simp [treeScript]
  | some fields => simp [treeScript, after]

namespace Process

variable {limit : ℕ} {p next : Process} {label : ProcessStep}

theorem lost_script (p : Process) (label : ProcessStep) :
    lost (p.script label) = p.lostBytes label := by
  obtain ⟨thread, destIp, tree⟩ := label
  cases thread with
  | discover outcome fd hwAddress heap => exact lost_frameScript outcome
  | listen sock allocated => exact lost_listenScript sock
  | arrive reception =>
      cases reception with
      | none => rfl
      | some r => exact lost_arriveScript _ r
  | message outcome call =>
      rw [script, lost_messageScript, lost_treeScript, lost_ioScript]
      rfl

theorem step_cases (h : step limit p label = some next) :
    Supervisor.step p.program label.thread = some next.program ∧
      next.used = p.used + p.lostBytes label ∧
      (p.used ≤ limit → next.used ≤ limit) := by
  obtain ⟨program, hprogram, hused⟩ := Option.bind_eq_some_iff.mp h
  obtain ⟨used, hafter, rfl⟩ := Option.map_eq_some_iff.mp hused
  obtain ⟨hlost, hroom⟩ := usedAfter_cases hafter
  rw [lost_script] at hlost
  exact ⟨hprogram, hlost, hroom⟩

end Process

/-! ## What the program gets for its memory -/

def CallReport.isReception : CallReport → Bool
  | .received _ => true
  | .socketNotCreated | .bufferIsNull | .transmitted | .notTransmitted _
  | .returned _ => false

namespace Supervisor

/-- How often the receiver has come back from `recvfrom`. -/
def receptions (s : Supervisor) : ℕ :=
  s.sockets.reports.countP CallReport.isReception

def answers (s : Supervisor) : List (List UInt8) :=
  s.exchanges.filterMap HandlerResult.published

/-- What a run has paid for its receptions, its frames and its answers. -/
def price (s : Supervisor) : ℕ :=
  65536 * (s.receptions + s.listening.toList.length) +
    76 * s.requests.length + 2064 * s.answers.length

theorem price_initial : initial.price = 0 := rfl

end Supervisor

theorem frameReport_isReception (outcome : FrameOutcome) :
    (frameReport outcome).isReception = false := by
  unfold frameReport
  split
  · rfl
  · split_ifs
    · rfl
    · rfl
    · rfl

theorem discoverDevices_reports
    {s next : SocketState} {outcome : FrameOutcome} {fd : Option ℕ}
    {hwAddress : Option (Octets 6)}
    (h : Sockets.discoverDevices outcome fd hwAddress s = some next) :
    next.reports = s.reports ++ [frameReport outcome] := by
  obtain ⟨opened, -, hnext⟩ := Option.bind_eq_some_iff.mp h
  dsimp only at hnext
  split_ifs at hnext
  · obtain ⟨opened', -, rfl⟩ := Option.map_eq_some_iff.mp hnext
    rfl
  · cases hnext
    rfl

theorem HandlerCall.ioResult_eq_none_iff {call : HandlerCall} :
    call.ioResult = none ↔ ¬ call.IsRead ∧ ¬ call.IsWrite := by
  unfold ioResult
  split_ifs with hread hwrite
  · simp [hread]
  · simp [hwrite]
  · simp [hread, hwrite]

namespace Process

variable {limit : ℕ} {p next : Process} {label : ProcessStep}

/-- A step pays for what it gets. -/
theorem price_step (h : step limit p label = some next) :
    next.program.price ≤ p.program.price + p.lostBytes label := by
  obtain ⟨hthread, -, -⟩ := step_cases h
  obtain ⟨thread, destIp, tree⟩ := label
  cases thread with
  | discover outcome fd hwAddress heap =>
      obtain ⟨hsockets, hnext⟩ := Supervisor.discover_cases hthread
      have hreports := discoverDevices_reports hsockets
      rw [hnext]
      simp only [Supervisor.price, Supervisor.receptions, Supervisor.answers,
        hreports, List.countP_append, List.countP_singleton,
        frameReport_isReception, lostBytes, List.length_append]
      by_cases hsent : outcome.sock ≠ none ∧ outcome.allocated = true
      · simp [hsent]
        omega
      · rw [if_neg hsent]
        simp
  | listen sock allocated =>
      obtain ⟨hidle, ⟨-, hnext⟩ | ⟨fd, opened, hsock, -, hnext⟩⟩ :=
        Supervisor.listen_cases hthread
      · rw [hnext]
        simp [Supervisor.price, Supervisor.receptions, Supervisor.answers,
          CallReport.isReception]
      · rw [hnext]
        simp [Supervisor.price, Supervisor.receptions, Supervisor.answers,
          lostBytes, hsock, hidle]
        omega
  | arrive reception =>
      obtain ⟨fd, hlistening, -, hnext⟩ := Supervisor.arrive_cases hthread
      rw [hnext]
      simp [Supervisor.price, Supervisor.receptions, Supervisor.answers,
        CallReport.isReception, hlistening]
  | message outcome call =>
      obtain ⟨hsockets, hnext⟩ := Supervisor.message_cases hthread
      rw [hnext]
      obtain ⟨hnone, hsame⟩ | ⟨io, opened, hsome, hallocated, hsame⟩ :=
        handle_result hsockets
      · obtain ⟨hread, hwrite⟩ := HandlerCall.ioResult_eq_none_iff.mp hnone
        simp [Supervisor.price, Supervisor.receptions, Supervisor.answers,
          hsame, (HandlerCall.result_of_unsupported hread hwrite).2]
      · have hpaid : 2064 ≤
            p.lostBytes ⟨.message outcome call, destIp, tree⟩ := by
          simp only [lostBytes, hallocated, if_true]
          refine le_add_left ?_
          by_cases hread : call.IsRead
          · rw [if_pos hread]
          · have hwrite : call.IsWrite := by
              by_contra hwrite
              rw [HandlerCall.ioResult_eq_none_iff.mpr ⟨hread, hwrite⟩] at hsome
              contradiction
            rw [if_neg hread, if_pos hwrite]
            exact Nat.le_add_right _ _
        have hone : (List.filterMap HandlerResult.published
            [call.result]).length ≤ 1 := List.length_filterMap_le _ _
        simp only [Supervisor.price, Supervisor.receptions,
          Supervisor.answers, hsame, List.countP_append,
          List.filterMap_append, List.length_append, List.countP_singleton,
          CallReport.isReception, Bool.false_eq_true, if_false]
        omega

/-- The heap has no room for another frame. -/
def Full (limit : ℕ) (p : Process) : Prop := limit < p.used + 65536

/-- A receiver with a socket and no buffer does not survive, so the frames that
it gets or waits for do not become more. -/
theorem Full.step (h : Full limit p)
    (hstep : Process.step limit p label = some next) :
    Full limit next ∧
      next.program.receptions + next.program.listening.toList.length =
        p.program.receptions + p.program.listening.toList.length ∧
      (p.program.listening = none → next.program.listening = none ∧
        next.program.registration = p.program.registration) := by
  obtain ⟨hthread, hused, -⟩ := step_cases hstep
  have hstill : Full limit next := by
    unfold Full at h ⊢
    omega
  refine ⟨hstill, ?_⟩
  obtain ⟨thread, destIp, tree⟩ := label
  cases thread with
  | discover outcome fd hwAddress heap =>
      obtain ⟨hsockets, hnext⟩ := Supervisor.discover_cases hthread
      have hreports := discoverDevices_reports hsockets
      rw [hnext]
      simp [Supervisor.receptions, hreports, frameReport_isReception]
  | listen sock allocated =>
      obtain ⟨-, ⟨-, hnext⟩ | ⟨fd, opened, hsock, -, -⟩⟩ :=
        Supervisor.listen_cases hthread
      · rw [hnext]
        simp [Supervisor.receptions, CallReport.isReception]
      · obtain ⟨program, -, hheap⟩ := Option.bind_eq_some_iff.mp hstep
        obtain ⟨used, hafter, -⟩ := Option.map_eq_some_iff.mp hheap
        simp only [script, hsock, listenScript, usedAfter_allocate] at hafter
        split_ifs at hafter with hfits
        exact absurd h (Nat.not_lt.mpr hfits)
  | arrive reception =>
      obtain ⟨fd, hlistening, -, hnext⟩ := Supervisor.arrive_cases hthread
      rw [hnext]
      simp [Supervisor.receptions, CallReport.isReception, hlistening]
  | message outcome call =>
      obtain ⟨hsockets, hnext⟩ := Supervisor.message_cases hthread
      rw [hnext]
      obtain ⟨-, hsame⟩ | ⟨io, opened, -, -, hsame⟩ := handle_result hsockets
      · simp [Supervisor.receptions, hsame]
      · simp [Supervisor.receptions, hsame, CallReport.isReception]

end Process

/-- However the threads take turns, they do what they do without a limit; the
memory in use is what was in use before and what the steps have lost since; it
pays for every reception, every frame of discovery and every answer; and when it
leaves no room for another frame, the receiver gets at most the one it is
waiting for. -/
theorem memory_runs_out
    {limit used : ℕ} {steps : List ProcessStep} {p : Process}
    (hroom : used ≤ limit)
    (hrun : run (Process.step limit) (Process.initial used) steps = some p) :
    run Supervisor.step Supervisor.initial (steps.map ProcessStep.thread) =
        some p.program ∧
      p.used = used + total (Process.step limit) Process.lostBytes
        (Process.initial used) steps ∧
      used + p.program.price ≤ p.used ∧ p.used ≤ limit ∧
      (limit < p.used + 65536 →
        ∀ more final, run (Process.step limit) p more = some final →
          final.program.receptions ≤
              p.program.receptions + p.program.listening.toList.length ∧
            (p.program.listening = none →
              final.program.registration = p.program.registration ∧
                final.program.receptions = p.program.receptions)) := by
  refine ⟨?_, ?_, ?_, ?_, ?_⟩
  · have hthreads := (Process.isComponent limit).run_view hrun
    rw [List.filterMap_eq_map'] at hthreads
    exact hthreads
  · exact run_measure (fun _ _ _ h => (Process.step_cases h).2.1) hrun
  · have hstart : used + (Process.initial used).program.price ≤
        (Process.initial used).used := by
      simp only [Process.initial, Supervisor.price_initial, Nat.add_zero,
        le_refl]
    exact run_invariant (fun p : Process => used + p.program.price ≤ p.used)
      (fun p label next hpaid hstep => by
        have hprice := Process.price_step hstep
        have hused := (Process.step_cases hstep).2.1
        omega)
      hstart hrun
  · exact run_invariant (fun p : Process => p.used ≤ limit)
      (fun _ _ _ hfits hstep => (Process.step_cases hstep).2.2 hfits) hroom hrun
  · intro hfull more final hmore
    have hwaits := run_keeps (Process.Full limit)
      (fun p => p.program.receptions + p.program.listening.toList.length)
      (fun p label next hfull hstep => by
        obtain ⟨hnext, hsame, -⟩ := hfull.step hstep
        exact ⟨hnext, hsame⟩)
      hfull hmore
    refine ⟨by omega, fun hidle => ?_⟩
    have hkept := run_keeps
      (fun p : Process => Process.Full limit p ∧ p.program.listening = none)
      (fun p => (p.program.registration, p.program.listening))
      (fun p label next hp hstep => by
        obtain ⟨hnext, -, hsame⟩ := hp.1.step hstep
        obtain ⟨hidle, hregistration⟩ := hsame hp.2
        exact ⟨⟨hnext, hidle⟩, Prod.ext hregistration (hidle.trans hp.2.symm)⟩)
      ⟨hfull, hidle⟩ hmore
    obtain ⟨hregistration, hlistening⟩ := Prod.ext_iff.mp hkept
    have hstill : final.program.listening = none := hlistening.trans hidle
    rw [hidle, hstill] at hwaits
    exact ⟨hregistration, hwaits⟩

/-- An empty object and one reception use up a heap that has just room for
both. -/
theorem memory_runs_out_of_one_reception :
    let call : HandlerCall :=
      ⟨fun _ => some ⟨none, none, none, none, none, none⟩, silentNetwork,
        fun _ => 0, fun _ => 0, 2⟩
    let steps : List ProcessStep :=
      [⟨.message ⟨none, true, none⟩ call, true, ⟨0, 200⟩⟩,
        ⟨.listen (some 3) true, true, ⟨0, 0⟩⟩,
        ⟨.arrive none, true, ⟨0, 0⟩⟩]
    ∃ p, run (Process.step 65736) (Process.initial 0) steps = some p ∧
      p.used = 65736 ∧ p.program.receptions = 1 ∧
      ∀ more final, run (Process.step 65736) p more = some final →
        final.program.receptions = 1 := by
  intro call steps
  have hread : ¬ call.IsRead := by decide
  have hwrite : ¬ call.IsWrite := by decide
  have hidle : call.ioResult = none :=
    HandlerCall.ioResult_eq_none_iff.mpr ⟨hread, hwrite⟩
  let answered : Supervisor :=
    ⟨Registration.initial, ⟨∅, dcpSrcAddress, []⟩, none, [], [call.result]⟩
  let waiting : Supervisor :=
    ⟨Registration.initial, ⟨{3}, dcpSrcAddress, []⟩, some 3, [],
      [call.result]⟩
  let program : Supervisor :=
    ⟨Registration.initial, ⟨∅, dcpSrcAddress, [.received none]⟩, none, [],
      [call.result]⟩
  have hmessage : Supervisor.step Supervisor.initial
      (.message ⟨none, true, none⟩ call) = some answered := by
    simp [Supervisor.step, Supervisor.message, Supervisor.initial, answered,
      hidle, Sockets.handle]
  have hlisten : Supervisor.step answered (.listen (some 3) true) =
      some waiting := by
    simp [Supervisor.step, Supervisor.listen, answered, waiting,
      DescriptorTable.create]
  have harrive : Supervisor.step waiting (.arrive none) = some program := by
    simp [Supervisor.step, Supervisor.arrive, Registration.arrive, waiting,
      program, DescriptorTable.release]
  have hrun : run (Process.step 65736) (Process.initial 0) steps =
      some ⟨program, 65736⟩ := by
    have htree : usedAfter 65736 0
        (messageScript ⟨none, true, none⟩ true ⟨0, 200⟩ call) = some 200 := by
      rw [messageScript, ioScript, if_neg hread, if_neg hwrite]
      rfl
    have hbuffer := usedAfter_allocate 65736 200 BlockVariable.buffer 65536
    rw [if_pos (by decide)] at hbuffer
    have hnone : usedAfter 65736 65736 ([] : List (MemoryOp BlockVariable)) =
      some 65736 := rfl
    simp only [steps, run, Process.step, Process.initial, Process.script,
      listenScript, hmessage, htree, hlisten, hbuffer, harrive, hnone,
      Option.bind_some, Option.map_some]
  obtain ⟨-, -, -, -, hsilent⟩ := memory_runs_out (Nat.zero_le 65736) hrun
  refine ⟨_, hrun, rfl, rfl, ?_⟩
  intro more final hmore
  exact ((hsilent (by decide) more final hmore).2 rfl).2

end ProfinetIo
