import DagScheduler.Model.Stream

/-!
# The age of a heartbeat

The time of a heartbeat comes from the worker, and nothing checks it.  The
monitor subtracts it from its own time and multiplies by 10^6 to get a
`time.Duration`, and both operations wrap around.  A duration reaches 292
years in each direction, so a heartbeat that is further away than that has an
age that is wrong by a multiple of 2^64 nanoseconds.

`laps` is the multiple.  The verdict on a worker is right if the age fits, or
if it has wrapped around to the same side of the threshold (`AgeTold`), and it
is wrong for every other worker.
-/

namespace DagScheduler

open Lib

namespace HeartbeatMonitor

/-- The age of a heartbeat in nanoseconds, as an integer. -/
def exactAge (nowMs lastHeartbeatMs : Int64) : Int :=
  (nowMs.toInt - lastHeartbeatMs.toInt) * 1000000

/-- How often an age wraps around in 64 bits. -/
def laps (ns : Int) : Int := (ns + 2 ^ 63) / 2 ^ 64

/-- The age of the heartbeat fits into 64 bits, or wraps around to the same
side of the threshold. -/
def AgeTold (deadThreshold nowMs lastHeartbeatMs : Int64) : Prop :=
  let ns := exactAge nowMs lastHeartbeatMs
  laps ns = 0 ∨
    0 < laps ns ∧ deadThreshold.toInt < ns - laps ns * 2 ^ 64 ∨
    laps ns < 0 ∧ ns - laps ns * 2 ^ 64 ≤ deadThreshold.toInt

/-- The workers whose age exceeds the threshold are reported dead, each once,
and the other ones healthy. -/
structure ExactVerdicts (h : HeartbeatMonitor) (order order' : RangeOrder String)
    (deadThreshold nowMs : Int64) : Prop where
  dead : ∀ id, id ∈ h.getDeadWorkers order deadThreshold nowMs ↔
    ∃ last, h.lastHeartbeat[id]? = some last ∧ deadThreshold.toInt < exactAge nowMs last
  once : (h.getDeadWorkers order deadThreshold nowMs).Nodup
  reported : ((h.snapshot order' deadThreshold nowMs).map (·.workerID)).Perm
    h.lastHeartbeat.keys
  healthy : ∀ id, (∃ worker ∈ h.snapshot order' deadThreshold nowMs,
      worker.workerID = id ∧ worker.healthy = true) ↔
    id ∈ h.lastHeartbeat ∧ id ∉ h.getDeadWorkers order deadThreshold nowMs

variable {h : HeartbeatMonitor} {order order' : RangeOrder String}
  {deadThreshold nowMs : Int64}

/-- The age is the exact one without its laps. -/
theorem toInt_age (nowMs lastHeartbeatMs : Int64) :
    (age nowMs lastHeartbeatMs).toInt
      = exactAge nowMs lastHeartbeatMs - laps (exactAge nowMs lastHeartbeatMs) * 2 ^ 64 := by
  have hmul : (age nowMs lastHeartbeatMs).toInt
      = (exactAge nowMs lastHeartbeatMs).bmod (2 ^ 64) := by
    rw [age, Int64.toInt_mul, Int64.toInt_sub, Int.bmod_mul_bmod]
    rfl
  rw [hmul]
  generalize exactAge nowMs lastHeartbeatMs = ns
  rw [Int.bmod_def, laps]
  split <;> omega

theorem mem_getDeadWorkers {id : String} :
    id ∈ h.getDeadWorkers order deadThreshold nowMs ↔
      ∃ last, h.lastHeartbeat[id]? = some last ∧ deadThreshold < age nowMs last := by
  rw [getDeadWorkers, List.mem_filter, RangeOrder.mem_visit, Std.ExtTreeMap.mem_keys,
    Option.any_eq_true]
  simp only [decide_eq_true_eq]
  refine ⟨fun hid => hid.2, fun hid => ⟨?_, hid⟩⟩
  obtain ⟨last, hlast, _⟩ := hid
  exact (Table.mem_iff_get _ _).mpr ⟨last, hlast⟩

/-- The verdict on one heartbeat is right exactly if its age is told. -/
theorem lt_age_iff (hth : 0 ≤ deadThreshold) (last : Int64) :
    (deadThreshold < age nowMs last ↔ deadThreshold.toInt < exactAge nowMs last) ↔
      AgeTold deadThreshold nowMs last := by
  rw [Int64.lt_iff_toInt_lt, toInt_age, AgeTold]
  have hlo : 0 ≤ deadThreshold.toInt := Int64.le_iff_toInt_le.mp hth
  have hhi := deadThreshold.toInt_lt
  generalize exactAge nowMs last = ns
  unfold laps
  omega

theorem nodup_getDeadWorkers : (h.getDeadWorkers order deadThreshold nowMs).Nodup :=
  (order.nodup_visit (Table.nodup_keys _)).filter _

theorem snapshot_workerIDs :
    ((h.snapshot order' deadThreshold nowMs).map (·.workerID)).Perm
      h.lastHeartbeat.keys := by
  have hids : (h.snapshot order' deadThreshold nowMs).map (·.workerID)
      = order'.visit h.lastHeartbeat.keys := by
    rw [snapshot, List.map_filterMap]
    refine (List.filterMap_congr fun id hid => ?_).trans List.filterMap_some
    rw [RangeOrder.mem_visit, Std.ExtTreeMap.mem_keys, Table.mem_iff_get] at hid
    obtain ⟨last, hlast⟩ := hid
    rw [hlast]
    rfl
  rw [hids]
  exact order'.perm _

/-- A tracked worker is reported healthy exactly if it is not reported dead. -/
theorem healthy_iff {id : String} :
    (∃ worker ∈ h.snapshot order' deadThreshold nowMs,
        worker.workerID = id ∧ worker.healthy = true) ↔
      id ∈ h.lastHeartbeat ∧ id ∉ h.getDeadWorkers order deadThreshold nowMs := by
  rw [mem_getDeadWorkers, Table.mem_iff_get]
  constructor
  · intro hhealthy
    obtain ⟨worker, hmem, rfl, hok⟩ := hhealthy
    obtain ⟨id, _, hget⟩ := List.mem_filterMap.mp hmem
    obtain ⟨last, hlast, rfl⟩ := Option.map_eq_some_iff.mp hget
    refine ⟨⟨last, hlast⟩, fun hdead => ?_⟩
    obtain ⟨last', hlast', hlt⟩ := hdead
    rw [hlast] at hlast'
    cases hlast'
    exact Int64.not_le.mpr hlt (of_decide_eq_true hok)
  · intro htracked
    obtain ⟨⟨last, hlast⟩, halive⟩ := htracked
    refine ⟨_, List.mem_filterMap.mpr ⟨id, ?_, Option.map_eq_some_iff.mpr ⟨last, hlast, rfl⟩⟩,
      rfl, decide_eq_true ?_⟩
    · rw [RangeOrder.mem_visit, Std.ExtTreeMap.mem_keys]
      exact (Table.mem_iff_get _ _).mpr ⟨last, hlast⟩
    · exact Int64.not_lt.mp fun hlt => halive ⟨last, hlast, hlt⟩

/-- For every set of heartbeats and every time, the verdicts are exact if and
only if the age of every heartbeat is told. -/
theorem exactVerdicts_iff (h : HeartbeatMonitor) (order order' : RangeOrder String)
    {deadThreshold : Int64} (hth : 0 ≤ deadThreshold) (nowMs : Int64) :
    h.ExactVerdicts order order' deadThreshold nowMs ↔
      ∀ (id : String) (last : Int64), h.lastHeartbeat[id]? = some last →
        AgeTold deadThreshold nowMs last := by
  constructor
  · intro hexact id last hlast
    rw [← lt_age_iff hth]
    have hdead := hexact.dead id
    rw [mem_getDeadWorkers, hlast] at hdead
    simpa using hdead
  · intro htold
    refine ⟨fun id => ?_, nodup_getDeadWorkers, snapshot_workerIDs, fun id => healthy_iff⟩
    rw [mem_getDeadWorkers]
    refine exists_congr fun last => and_congr_right fun hlast => ?_
    exact (lt_age_iff hth last).mpr (htold id last hlast)

/-- One worker with the heartbeat `last`. -/
def tracking (last : Int64) : HeartbeatMonitor where
  lastHeartbeat := (∅ : Table String Int64).insert "k" last

theorem exactVerdicts_tracking : (tracking 1700000000000).ExactVerdicts (.asListed _)
    (.asListed _) 15000000000 1700000015001 := by
  refine (exactVerdicts_iff _ _ _ (by decide) _).mpr fun id last hlast => ?_
  rw [tracking, Table.get_insert] at hlast
  split at hlast
  · cases hlast
    exact .inl (by decide)
  · simp at hlast

/-- A heartbeat from before 292 years ago belongs to a worker that never
dies. -/
theorem not_exactVerdicts_tracking :
    ¬ (tracking (-16746744073709)).ExactVerdicts (.asListed _) (.asListed _)
      15000000000 1700000000000 := by
  intro h
  have hempty : (tracking (-16746744073709)).getDeadWorkers (.asListed _)
      15000000000 1700000000000 = [] := by decide
  have hdead := (h.dead "k").mpr ⟨-16746744073709, by decide, by decide⟩
  rw [hempty] at hdead
  cases hdead

end HeartbeatMonitor

end DagScheduler
