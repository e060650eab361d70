import Mathlib.Data.List.Perm.Subperm
import Mutated.Ports.CoordinatorDisplay
import Mutated.Ports.ProgramRuns

/-!
# Where the samples come from

From the sockets to the table: what the coordinator displays are samples that
connections of its generators have measured.  A generator is a whole program
here, which has run up to its exit with any connections, timers and events,
and printed its samples.

## Main results

`measure_sources` says that no sample is made up, and none is counted twice,
in whatever order the generators are done.
-/

namespace Mutated.Ports.Coord

open Mutated.Ports.Load
open Mutated.Ports.Program
open Mutated.Verified.Exec

/-- A generator that has printed its samples, and its place among those that
were still running. -/
structure Session (R C : ℕ+) where
  place : Nat
  setting : Setting
  clock : Int
  calls : List Program.Call
  valid : setting.Valid
  raw : setting.cfg.machineReadable = true
  exits : thrown (Program.run setting calls (start clock : Program R C)) =
    some (.client .exit)

namespace Session

variable {R C : ℕ+}

/-- The program at its exit. -/
def program (s : Session R C) : Program R C :=
  after (Program.run s.setting s.calls (start s.clock))

/-- What the coordinator gets of it. -/
def arrival (s : Session R C) : Arrival :=
  ⟨s.place, s.program.client.core.output⟩

/-- What its connections have measured. -/
def sources (s : Session R C) : List Int := stored s.program.lines

theorem exited (s : Session R C) : Exited s.setting s.program := by
  obtain ⟨net, calls', c, hrun, hover⟩ := run_over s.valid s.exits
  exact hover.exit hrun

/-- **The samples of a part** are measured by connections. -/
theorem subperm_sources (s : Session R C) {v : Cfg} {part : Result}
    (h : measureOne v s.arrival.output = .ok part) :
    part.samples.Subperm s.sources := by
  obtain ⟨us, -, hus, -, hpart⟩ := measureOne_stored h
  have houtput : s.arrival.output.tail =
      s.program.client.core.results.service.samples.map .sample :=
    congrArg List.tail (s.exited.output s.raw)
  have hinj : Function.Injective Line.sample := fun _ _ => Line.sample.inj
  rw [houtput] at hus
  have hfirst : us <+: s.program.client.core.results.service.samples :=
    (List.prefix_map_iff_of_injective hinj).mp hus
  rw [hpart]
  exact (hfirst.sublist.map _).subperm.trans
    (s.exited.samples.map _).subperm

end Session

section Measure

variable {R C : ℕ+} {sessions : List (Session R C)}

theorem heard_sources : ∀ {running : List Cfg} {parts : List Result},
    (heard running (sessions.map (·.arrival))).map
        (fun x => measureOne x.1 x.2) = parts.map .ok →
      (parts.flatMap (·.samples)).Subperm
        (sessions.flatMap (·.sources)) := by
  induction sessions with
  | nil =>
      intro running parts h
      cases parts with
      | nil => exact List.Subperm.refl _
      | cons part parts => cases h
  | cons s sessions ih =>
      intro running parts h
      rw [List.map_cons] at h
      cases hv : running[s.arrival.place]? with
      | none =>
          simp only [heard, hv] at h
          exact (ih h).trans (List.sublist_append_right _ _).subperm
      | some v =>
          simp only [heard, hv, List.map_cons] at h
          cases parts with
          | nil => cases h
          | cons part parts =>
              obtain ⟨hone, hrest⟩ := List.cons.inj h
              exact (s.subperm_sources hone).append (ih hrest)

/-- **No sample is made up**, and none is counted twice: what `measure` returns
has been measured by connections of the generators. -/
theorem measure_sources {c : Cfg} {cnt : UInt64} (hpos : 1 ≤ cnt.toNat)
    (hcnt : cnt.toNat ≤ 2 ^ 32 - 1) {r : Result}
    (h : measure c cnt (sessions.map (·.arrival)) = .ok (some r)) :
    r.samples.length = c.samples.toNat ∧
      r.samples.Subperm (sessions.flatMap (·.sources)) := by
  obtain ⟨parts, hparts, hsamples⟩ := measure_heard h
  refine ⟨(measure_whole hpos (by omega) h).2, ?_⟩
  rw [hsamples]
  exact heard_sources hparts

end Measure

/-- One connection, and two requests at once. -/
private def atOnce : Setting where
  cfg := { machineReadable := true, connCnt := 1 }
  plan := .measuring 0 [0]
  beyond := fun _ => 0
  pool := [⟨0, fun _ => 0, fun _ => 0, 0, 0, fun n => 1000 * n⟩]
  attempts := fun _ => ⟨0, ⟨0, fun _ => 0, fun _ => 0, 0, 0, id⟩,
    ⟨0, false, fun _ _ => 0, [], []⟩, 0⟩
  took := fun _ => 1000

/-- Both responses arrive together. -/
private def atOnceSession (place : Nat) :
    Session maxOutstandingReqs charbufSize where
  place := place
  setting := atOnce
  clock := 0
  calls := [.runIo 0 0 EPOLLOUT .ok [] [.accepted 288],
    .runIo 0 0 EPOLLIN .ok [.data 0 (List.replicate 15 0)] []]
  valid := ⟨fun _ => rfl, fun _ => rfl, fun _ => by decide, nofun⟩
  raw := rfl
  exits := by decide +kernel

/-- Four samples at six requests a second, from two generators. -/
private def six : Cfg where
  samples := 4
  reqsPerSec := 6
  conns := 1
  timePad := 0
  mode := "round_robin".toList
  dist := "exp".toList
  host := "10.0.0.1:80".toList
  serviceTime := 1

theorem measure_sources_six :
    ∃ r, measure six 2 ([atOnceSession 1, atOnceSession 0].map (·.arrival)) =
        .ok (some r) ∧ r.samples = [4, 4, 4, 4] ∧
      r.samples.Subperm
        ([atOnceSession 1, atOnceSession 0].flatMap (·.sources)) := by
  have hmeasure : measure six 2
      ([atOnceSession 1, atOnceSession 0].map (·.arrival)) =
        .ok (some ⟨6, 2000000, [4, 4, 4, 4]⟩) := by decide +kernel
  exact ⟨_, hmeasure, rfl,
    (measure_sources (by decide) (by decide) hmeasure).2⟩

end Mutated.Ports.Coord
