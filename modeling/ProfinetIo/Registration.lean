import ProfinetIo.DcpBlocks
import ProfinetIo.FrameAcceptance
import ProfinetIo.TransitionRuns
import Mathlib.Tactic

/-!
# Registration over whole runs

Frames arrive one after the other, starting from no known device.  The frames
accepted on the way are kept beside the state of the program.  No accepted
frame is ever registered as it should be: an Identify response is not entered
into the MAC table, and no record is linked into the list the lookup walks.
-/

namespace ProfinetIo

open ByteMemory TransitionRuns

structure Registration where
  state : ReceiveState
  accepted : List Reception

namespace Registration

def initial : Registration := ⟨⟨DeviceTable.initial, []⟩, []⟩

def recieve (g : Registration) (r : Reception) : Option Registration :=
  (recieveProfinetPackets r g.state).map fun state =>
    { state := state
      accepted :=
        if handed g.state.table r = [] then g.accepted
        else g.accepted ++ [r] }

end Registration

/-! ## What registration is for -/

/-- The record holds the addresses of the last well-formed IP parameter block
of the frame. -/
def HoldsAddresses (r : Reception) (record : Device) : Prop :=
  ∀ before b after, r.payload = encodeBlocks (before ++ b :: after) →
    b.WellFormedIpPar → (∀ c ∈ after, ¬ c.WellFormedIpPar) →
      record.addresses = b.value

structure Registered (g : Registration) : Prop where
  known : ∀ mac, check g.state.table mac = true ↔
    mac ∈ g.accepted.map fun r => r.pack.sourceMac
  distinct : ∀ i < g.state.table.deviceCount,
    ∀ j < g.state.table.deviceCount,
      g.state.table.rows i = g.state.table.rows j → i = j
  newOnce : (g.accepted.map fun r => r.pack.sourceMac).Nodup
  records : ∀ r ∈ g.accepted, ∃ index record,
    findDeviceByMAC g.state.top r.pack.sourceMac = .node index ∧
      g.state.top[index]? = some record ∧
      record.mac = r.pack.sourceMac ∧ HoldsAddresses r record

/-! ## Steps and runs -/

theorem storeDevice_nil (r : Reception) : storeDevice r [] = some [] := by
  obtain ⟨parsed, hparsed⟩ := extractBlocksFromPacket_total r.payload
    { r.fresh with mac := r.pack.sourceMac } r.copyHeap
  simp [storeDevice, chooseDevice, findDeviceByMAC_nil, hparsed]

theorem recieveProfinetPackets_of_empty
    (r : Reception) (table : DeviceTable) :
    ∃ table', recieveProfinetPackets r ⟨table, []⟩ = some ⟨table', []⟩ ∧
      (handed table r = [] → table' = table) := by
  have hidentifyBranch : identifyBranch r ⟨table, []⟩ = some ⟨table, []⟩ := by
    simp [identifyBranch, storeDevice_nil]
  have hhelloBranch : helloBranch r ⟨table, []⟩ =
      some ⟨addDevice table r.pack.sourceMac, []⟩ := by
    simp [helloBranch, storeDevice_nil]
  rw [recieveProfinetPackets_eq, handed_eq]
  by_cases haccepts : accepts table r.pack = true
  · simp only [if_pos haccepts, hidentifyBranch, hhelloBranch]
    split_ifs
    · exact ⟨_, rfl, by simp⟩
    · exact ⟨_, rfl, by simp⟩
  · simp only [if_neg haccepts]
    exact ⟨table, rfl, fun _ => rfl⟩

theorem recieve_of_empty
    {g : Registration} (hempty : g.state.top = []) (r : Reception) :
    ∃ g', g.recieve r = some g' ∧ g'.state.top = [] ∧
      (handed g.state.table r = [] → g' = g) ∧
      (handed g.state.table r ≠ [] → g'.accepted ≠ []) := by
  obtain ⟨⟨table, top⟩, accepted⟩ := g
  simp only at hempty
  subst hempty
  obtain ⟨table', hstep, hsame⟩ := recieveProfinetPackets_of_empty r table
  simp only [Registration.recieve, hstep, Option.map_some]
  refine ⟨_, rfl, rfl, ?_, ?_⟩
  · intro hnone
    simp [hnone, hsame hnone]
  · intro hsome
    simp [hsome]

theorem run_accepted_ne_nil
    {g final : Registration} {receptions : List Reception}
    (haccepted : g.accepted ≠ [])
    (hrun : run Registration.recieve g receptions = some final) :
    final.accepted ≠ [] := by
  refine run_invariant (fun g => g.accepted ≠ []) ?_ haccepted hrun
  intro g r next hgood hstep
  obtain ⟨state, -, rfl⟩ := Option.map_eq_some_iff.mp hstep
  by_cases hnone : handed g.state.table r = []
  · simpa [hnone] using hgood
  · simp [hnone]

theorem handed_initial_iff (r : Reception) :
    handed DeviceTable.initial r ≠ [] ↔
      IdentifyResponse r.pack ∨ helloTest r.pack = true := by
  rw [handed_ne_nil_iff]
  simp [check_initial]

/-- A run ends with an empty list, and either nothing was accepted and nothing
has changed, or some frame of it passed a test. -/
theorem run_from_initial (receptions : List Reception) :
    ∃ g, run Registration.recieve Registration.initial receptions = some g ∧
      g.state.top = [] ∧
      (g.accepted = [] ↔ ∀ r ∈ receptions,
        ¬ (IdentifyResponse r.pack ∨ helloTest r.pack = true)) ∧
      (g.accepted = [] → g = Registration.initial) := by
  have hstep : ∀ g r, g.state.top = [] → ∃ g',
      Registration.recieve g r = some g' ∧ g'.state.top = [] := by
    intro g r hempty
    obtain ⟨g', hg', htop, -, -⟩ := recieve_of_empty hempty r
    exact ⟨g', hg', htop⟩
  induction receptions with
  | nil => exact ⟨Registration.initial, rfl, rfl, by simp [Registration.initial]⟩
  | cons r receptions ih =>
      obtain ⟨next, hnext, htop, hsame, hsome⟩ :=
        @recieve_of_empty Registration.initial rfl r
      rw [run_cons_of_step hnext]
      by_cases htest : handed DeviceTable.initial r = []
      · have hinitial : next = Registration.initial := hsame htest
        have hnot := (handed_initial_iff r).not.mp (not_not.mpr htest)
        rw [hinitial]
        obtain ⟨g, hg, hgtop, hiff, hgsame⟩ := ih
        refine ⟨g, hg, hgtop, ?_, hgsame⟩
        rw [hiff, List.forall_mem_cons]
        exact ⟨fun h => ⟨hnot, h⟩, fun h => h.2⟩
      · obtain ⟨g, hg, hgtop⟩ := run_total (fun g => g.state.top = [])
          (fun g r hempty => hstep g r hempty) htop receptions
        have hgaccepted := run_accepted_ne_nil (hsome htest) hg
        refine ⟨g, hg, hgtop, ?_, fun h => absurd h hgaccepted⟩
        refine iff_of_false hgaccepted ?_
        intro h
        exact h r (by simp) ((handed_initial_iff r).mp htest)

theorem registered_initial : Registered Registration.initial where
  known := by
    intro mac
    simp [Registration.initial, check_initial]
  distinct := by
    intro i hi
    exact absurd hi (Nat.not_lt_zero i)
  newOnce := List.nodup_nil
  records := by
    intro r hr
    exact absurd hr List.not_mem_nil

theorem registered_iff_of_empty
    {g : Registration} (htop : g.state.top = [])
    (hsame : g.accepted = [] → g = Registration.initial) :
    Registered g ↔ g.accepted = [] := by
  constructor
  · intro h
    by_contra hne
    obtain ⟨r, hr⟩ := List.exists_mem_of_ne_nil g.accepted hne
    obtain ⟨index, record, hfound, -, -⟩ := h.records r hr
    rw [htop, findDeviceByMAC_nil] at hfound
    contradiction
  · intro hnone
    rw [hsame hnone]
    exact registered_initial

/-- After a run registration is as it should be exactly when no frame of the
run passes one of the two tests. -/
theorem registered_iff_no_test_passed (receptions : List Reception) :
    ∃ g, run Registration.recieve Registration.initial receptions = some g ∧
      (Registered g ↔ ∀ r ∈ receptions,
        ¬ (IdentifyResponse r.pack ∨ helloTest r.pack = true)) := by
  obtain ⟨g, hg, htop, hiff, hsame⟩ := run_from_initial receptions
  exact ⟨g, hg, (registered_iff_of_empty htop hsame).trans hiff⟩

theorem registered_fails_on_identify :
    ¬ ∀ (receptions : List Reception) (g : Registration),
      run Registration.recieve Registration.initial receptions = some g →
        Registered g := by
  intro h
  let r : Reception :=
    ⟨[0xc8, 0x1f, 0x66, 0x43, 0x6a, 0x45, 0x02, 0x00, 0x00, 0x00, 0x00, 0x01,
      0x88, 0x92, 0xfe, 0xff, 0x05, 0x01, 0x00, 0x00, 0x00, 0x02, 0x00, 0x00,
      0x00, 0x00], fun _ => 0, fun _ => 0, emptyDevice, by decide⟩
  obtain ⟨g, hg, htop, hiff, hsame⟩ := run_from_initial [r]
  have hnone := (registered_iff_of_empty htop hsame).mp (h [r] g hg)
  refine hiff.mp hnone r (by simp) (Or.inl ⟨?_, ?_, ?_⟩)
  · decide
  · decide
  · decide

end ProfinetIo
