import Mutated.Verified.History
import Mutated.Ports.SockOutput

/-!
# When transmit callbacks fire

A callback point is stored as the number of bytes between it and the point
before it, and `tx_out_` as the number of bytes up to the last point.  The
**position** of a point is the number of bytes that were written before it,
counted from the start; the invariant `Queues.Points` says that the stored
differences add up to the positions, and that the point at the front of the
queue lies ahead of what was accepted.

The trace records accepted bytes, inserted points and callbacks in order, so
"never early" and "in the round in which the last byte is accepted" are
properties of the trace alone: `Timed` says of every event what must have
happened before it.

## Main results

`run_points` states them for every run, with the bookkeeping invariants of
`tx_out_` and the absence of `size_t` wrap-around.
-/

namespace Mutated.Ports

open Mutated.Verified.Circular
open Mutated.Verified.Exec
open Mutated.Verified.History
open Relation (ReflTransGen)

variable {W : Type} {R C : ℕ+}

/-! ## Reading a trace -/

/-- The points whose callbacks were called. -/
def firedPoints (trace : List Event) : List Nat :=
  trace.filterMap fun
    | .txcb serial _ => some serial
    | _ => none

/-- The positions of the points that were inserted, when `a` bytes had been
accepted before. -/
def positions (a : Nat) : List Event → List Nat
  | [] => []
  | .accepted bytes :: t => positions (a + bytes.length) t
  | .point _ ahead :: t => (a + ahead) :: positions a t
  | _ :: t => positions a t

@[simp] theorem firedPoints_append (t u : List Event) :
    firedPoints (t ++ u) = firedPoints t ++ firedPoints u :=
  List.filterMap_append ..

theorem positions_append (t u : List Event) : ∀ a,
    positions a (t ++ u) =
      positions a t ++ positions (a + (accepted t).length) u := by
  induction t with
  | nil =>
      intro a
      rfl
  | cons e t ih =>
      intro a
      cases e with
      | accepted bytes =>
          have hlen : (accepted (.accepted bytes :: t)).length =
              bytes.length + (accepted t).length := List.length_append
          rw [hlen, ← Nat.add_assoc]
          exact ih (a + bytes.length)
      | point serial ahead =>
          simp only [List.cons_append, positions, ih]
          rfl
      | recvd bytes => exact ih a
      | rxcb serial phase segs status ret => exact ih a
      | txcb serial status => exact ih a
      | sub x y => exact ih a

/-- Every point that may fire, with fewer than `R` points pending, has. -/
def OnTime (R : Nat) (pre : List Event) : Prop :=
  (positions 0 pre).length < (firedPoints pre).length + R →
    ∀ k n, (positions 0 pre)[k]? = some n → n ≤ (accepted pre).length →
      k ∈ firedPoints pre

/-- What must have happened before an event.  A callback comes after the
bytes in front of its point; when the next round or the next insertion
begins, every point that may fire has; and no subtraction wraps. -/
def Timed (R : Nat) (pre : List Event) : Event → Prop
  | .txcb k _ =>
      ∃ n, (positions 0 pre)[k]? = some n ∧ n ≤ (accepted pre).length
  | .accepted _ => OnTime R pre
  | .point _ _ => OnTime R pre
  | .sub a b => b ≤ a
  | _ => True

/-! ## The invariant -/

/-- The positions of pending points, when the first one is counted from
`b`. -/
def marksFrom (b : Nat) : List (IOTx W) → List Nat
  | [] => []
  | pt :: pts => (b + pt.len) :: marksFrom (b + pt.len) pts

/-- The number of bytes up to the last pending point. -/
def outstanding (pts : List (IOTx W)) : Nat := (pts.map IOTx.len).sum

theorem marksFrom_append (pts : List (IOTx W)) (pt : IOTx W) : ∀ b,
    marksFrom b (pts ++ [pt]) =
      marksFrom b pts ++ [b + outstanding pts + pt.len] := by
  induction pts with
  | nil =>
      intro b
      simp [marksFrom, outstanding]
  | cons p pts ih =>
      intro b
      simp [marksFrom, ih, outstanding, Nat.add_assoc]

theorem lt_of_mem_marksFrom {pts : List (IOTx W)} : ∀ {b n : Nat},
    (∀ pt ∈ pts.head?, 0 < pt.len) → n ∈ marksFrom b pts → b < n := by
  have hle : ∀ (pts : List (IOTx W)) (b n : Nat),
      n ∈ marksFrom b pts → b ≤ n := by
    intro pts
    induction pts with
    | nil =>
        intro b n hn
        cases hn
    | cons p pts ih =>
        intro b n hn
        rcases List.mem_cons.mp hn with rfl | hn
        · omega
        · have := ih _ _ hn
          omega
  intro b n hpos hn
  cases pts with
  | nil => cases hn
  | cons p pts =>
      have hp : 0 < p.len := hpos p rfl
      rcases List.mem_cons.mp hn with rfl | hn
      · omega
      · have := hle _ _ _ hn
        omega

/-- **The invariant of the callback points.** -/
structure Queues.Points (R : Nat) (q : Queues W) : Prop where
  fired : firedPoints q.trace = List.range (firedPoints q.trace).length
  serials : q.txCbs.map IOTx.serial =
    List.range' (firedPoints q.trace).length q.txCbs.length
  count : (positions 0 q.trace).length =
    (firedPoints q.trace).length + q.txCbs.length
  owed : q.credit.getD 0 ≤ (accepted q.trace).length
  marks : q.txCbs.length < R →
    (positions 0 q.trace).drop (firedPoints q.trace).length =
      marksFrom ((accepted q.trace).length - q.credit.getD 0) q.txCbs
  out : q.txCbs.length < R → q.txOut = outstanding q.txCbs
  room : q.txCbs.length < R → q.txOut ≤ q.wbuf.length + q.credit.getD 0
  ahead : q.txCbs.length < R → q.credit = none →
    ∀ pt ∈ q.txCbs.head?, 0 < pt.len
  timed : Always (Timed R) q.trace

namespace Queues.Points

variable {q : Queues W}

/-- The next callback is the one of the first pending point. -/
theorem head_serials {R : Nat} (h : q.Points R) {pt : IOTx W}
    {pts : List (IOTx W)} (hpts : q.txCbs = pt :: pts) :
    pt.serial = (firedPoints q.trace).length ∧ pts.map IOTx.serial =
      List.range' ((firedPoints q.trace).length + 1) pts.length := by
  have hserials := h.serials
  rw [hpts, List.map_cons, List.length_cons, List.range'_succ] at hserials
  exact List.cons.inj hserials

/-- Between rounds, every point that may fire has. -/
theorem onTime {R : Nat} (h : q.Points R) (hcredit : q.credit = none) :
    OnTime R q.trace := by
  intro hpending k n hk hn
  have hroom : q.txCbs.length < R := by
    have := h.count
    omega
  have hmarks := h.marks hroom
  rw [hcredit, Option.getD_none, Nat.sub_zero] at hmarks
  rw [h.fired, List.mem_range]
  refine Nat.lt_of_not_le fun hle => ?_
  have hdrop : ((positions 0 q.trace).drop (firedPoints q.trace).length)[
      k - (firedPoints q.trace).length]? = some n := by
    rw [List.getElem?_drop, Nat.add_sub_cancel' hle]
    exact hk
  rw [hmarks] at hdrop
  have hlt := lt_of_mem_marksFrom (h.ahead hroom hcredit)
    (List.mem_of_getElem? hdrop)
  omega

/-- Only what the transmit path works on matters, and more waiting bytes do no
harm. -/
theorem congr {R : Nat} {q' : Queues W} (h : q.Points R)
    (hcbs : q'.txCbs = q.txCbs) (hout : q'.txOut = q.txOut)
    (hcredit : q'.credit = q.credit)
    (hfired : firedPoints q'.trace = firedPoints q.trace)
    (hpositions : positions 0 q'.trace = positions 0 q.trace)
    (haccepted : accepted q'.trace = accepted q.trace)
    (htimed : Always (Timed R) q'.trace)
    (hwbuf : q.wbuf.length ≤ q'.wbuf.length) : q'.Points R := by
  refine ⟨?_, ?_, ?_, ?_, ?_, ?_, ?_, ?_, htimed⟩
  · rw [hfired]
    exact h.fired
  · rw [hcbs, hfired]
    exact h.serials
  · rw [hpositions, hfired, hcbs]
    exact h.count
  · rw [hcredit, haccepted]
    exact h.owed
  · rw [hcbs, hpositions, hfired, haccepted, hcredit]
    exact h.marks
  · rw [hcbs, hout]
    exact h.out
  · rw [hcbs, hout, hcredit]
    intro hfew
    have := h.room hfew
    omega
  · rw [hcbs, hcredit]
    exact h.ahead

/-- The kernel accepts some bytes. -/
private theorem step_accepted {R k : Nat} (h : q.Points R)
    (hcredit : q.credit = none) (hk : k ≤ q.wbuf.length) :
    Queues.Points R { q with
      wbuf := q.wbuf.drop k
      credit := some k
      trace := q.trace ++ [.accepted (q.wbuf.take k)] } := by
  have htake : (q.wbuf.take k).length = k := by
    rw [List.length_take, Nat.min_eq_left hk]
  have hfired : firedPoints (q.trace ++ [.accepted (q.wbuf.take k)]) =
      firedPoints q.trace := by simp [firedPoints]
  have hpositions : positions 0 (q.trace ++ [.accepted (q.wbuf.take k)]) =
      positions 0 q.trace := by simp [positions_append, positions]
  have haccepted : (accepted (q.trace ++ [.accepted (q.wbuf.take k)])).length =
      (accepted q.trace).length + k := by simp [accepted, Nat.min_eq_left hk]
  have hmarks := h.marks
  have hroom := h.room
  rw [hcredit, Option.getD_none, Nat.sub_zero] at hmarks
  rw [hcredit, Option.getD_none] at hroom
  refine ⟨?_, ?_, ?_, ?_, ?_, h.out, ?_, ?_, ?_⟩
  · rw [hfired]
    exact h.fired
  · rw [hfired]
    exact h.serials
  · rw [hfired, hpositions]
    exact h.count
  · rw [haccepted, Option.getD_some]
    omega
  · intro hfew
    rw [hfired, hpositions, haccepted, Option.getD_some, Nat.add_sub_cancel]
    exact hmarks hfew
  · intro hfew
    have := hroom hfew
    simp only [List.length_drop, Option.getD_some]
    omega
  · intro _ hnone
    cases hnone
  · exact always_snoc.mpr ⟨h.timed, h.onTime hcredit⟩

/-- The first point is reached, and its callback is called. -/
private theorem step_fire {R c : Nat} (h : q.Points R) {pt : IOTx W}
    {pts : List (IOTx W)} (w : W) (hcredit : q.credit = some c)
    (hpts : q.txCbs = pt :: pts) (hfew : q.txCbs.length < R)
    (hlen : pt.len ≤ c) :
    Queues.Points R { q with
      txCbs := pts
      txOut := Sock.sizeDiff q.txOut pt.len
      credit := some (c - pt.len)
      world := w
      trace := q.trace ++ [.txcb pt.serial 0, .sub q.txOut pt.len] } := by
  have hfired : firedPoints (q.trace ++
      [.txcb pt.serial 0, .sub q.txOut pt.len]) =
      firedPoints q.trace ++ [pt.serial] := by simp [firedPoints]
  have hpositions : positions 0 (q.trace ++
      [.txcb pt.serial 0, .sub q.txOut pt.len]) = positions 0 q.trace := by
    simp [positions_append, positions]
  have haccepted : accepted (q.trace ++
      [.txcb pt.serial 0, .sub q.txOut pt.len]) = accepted q.trace := by
    simp [accepted]
  have hserials := h.head_serials hpts
  have hcount := h.count
  have howed := h.owed
  have hmarks := h.marks hfew
  have hout := h.out hfew
  have hroom := h.room hfew
  rw [hpts, List.length_cons] at hcount
  rw [hcredit, Option.getD_some] at howed hroom
  rw [hcredit, hpts, Option.getD_some, marksFrom] at hmarks
  rw [hpts] at hout
  simp only [outstanding, List.map_cons, List.sum_cons] at hout
  have hsub : Sock.sizeDiff q.txOut pt.len = q.txOut - pt.len :=
    if_pos (by omega)
  have hnext : (positions 0 q.trace)[(firedPoints q.trace).length]? =
      some ((accepted q.trace).length - c + pt.len) := by
    have hhead := congrArg List.head? hmarks
    rwa [List.head?_drop] at hhead
  have hrest : (positions 0 q.trace).drop ((firedPoints q.trace).length + 1) =
      marksFrom ((accepted q.trace).length - (c - pt.len)) pts := by
    have htail := congrArg List.tail hmarks
    rw [List.tail_drop] at htail
    rw [htail, List.tail_cons]
    congr 1
    omega
  refine ⟨?_, ?_, ?_, ?_, ?_, ?_, ?_, ?_, ?_⟩
  · rw [hfired, List.length_append, List.length_singleton,
      List.range_succ, ← h.fired, hserials.1]
  · rw [hfired, List.length_append]
    exact hserials.2
  · rw [hfired, hpositions, List.length_append, List.length_singleton]
    show _ = _ + pts.length
    omega
  · rw [haccepted, Option.getD_some]
    omega
  · intro _
    rw [hfired, hpositions, haccepted, List.length_append,
      List.length_singleton, Option.getD_some]
    exact hrest
  · intro _
    show Sock.sizeDiff q.txOut pt.len = outstanding pts
    rw [hsub, outstanding]
    omega
  · intro _
    show Sock.sizeDiff q.txOut pt.len ≤ q.wbuf.length + (c - pt.len)
    rw [hsub]
    omega
  · intro _ hnone
    cases hnone
  · rw [List.append_cons]
    refine always_snoc.mpr ⟨always_snoc.mpr ⟨h.timed, ?_⟩, ?_⟩
    · rw [← hserials.1] at hnext
      exact ⟨_, hnext, by omega⟩
    · show pt.len ≤ q.txOut
      omega

/-- The first point is not reached, and moves closer. -/
private theorem step_pay {R c : Nat} (h : q.Points R) {pt : IOTx W}
    {pts : List (IOTx W)} (hcredit : q.credit = some c)
    (hpts : q.txCbs = pt :: pts) (hfew : q.txCbs.length < R)
    (hlen : c < pt.len) :
    Queues.Points R { q with
      txCbs := { pt with len := Sock.sizeDiff pt.len c } :: pts
      txOut := Sock.sizeDiff q.txOut c
      credit := none
      trace := q.trace ++ [.sub pt.len c, .sub q.txOut c] } := by
  have hfired : firedPoints (q.trace ++ [.sub pt.len c, .sub q.txOut c]) =
      firedPoints q.trace := by simp [firedPoints]
  have hpositions : positions 0 (q.trace ++
      [.sub pt.len c, .sub q.txOut c]) = positions 0 q.trace := by
    simp [positions_append, positions]
  have haccepted : accepted (q.trace ++ [.sub pt.len c, .sub q.txOut c]) =
      accepted q.trace := by simp [accepted]
  have hserials := h.serials
  have hcount := h.count
  have howed := h.owed
  have hmarks := h.marks hfew
  have hout := h.out hfew
  have hroom := h.room hfew
  rw [hpts] at hserials hcount hout
  rw [hcredit, Option.getD_some] at howed hroom
  rw [hcredit, hpts, Option.getD_some, marksFrom] at hmarks
  simp only [outstanding, List.map_cons, List.sum_cons] at hout
  have hsubLen : Sock.sizeDiff pt.len c = pt.len - c := if_pos (by omega)
  have hsubOut : Sock.sizeDiff q.txOut c = q.txOut - c := if_pos (by omega)
  refine ⟨?_, ?_, ?_, ?_, ?_, ?_, ?_, ?_, ?_⟩
  · rw [hfired]
    exact h.fired
  · rw [hfired]
    exact hserials
  · rw [hfired, hpositions]
    exact hcount
  · exact Nat.zero_le _
  · intro _
    rw [hfired, hpositions, haccepted, hmarks, hsubLen, Option.getD_none,
      marksFrom]
    have hmark : (accepted q.trace).length - c + pt.len =
        (accepted q.trace).length - 0 + (pt.len - c) := by omega
    simp only [hmark]
  · intro _
    simp only [hsubOut, hsubLen, outstanding, List.map_cons, List.sum_cons]
    omega
  · intro _
    show Sock.sizeDiff q.txOut c ≤ q.wbuf.length + 0
    rw [hsubOut]
    omega
  · intro _ _ pt' hpt'
    cases hpt'
    show 0 < Sock.sizeDiff pt.len c
    rw [hsubLen]
    omega
  · rw [List.append_cons]
    refine always_snoc.mpr ⟨always_snoc.mpr ⟨h.timed, ?_⟩, ?_⟩
    · exact Nat.le_of_lt hlen
    · show c ≤ q.txOut
      omega

/-- **Every small step of the transmit path keeps the invariant.** -/
theorem step {R addr : Nat} {q' : Queues W}
    (hstep : Queues.TxStep R addr q q') (h : q.Points R) : q'.Points R := by
  cases hstep with
  | accepted k hcredit hbusy hk => exact h.step_accepted hcredit hk
  | fire c pt pts f w hcredit hpts hfew hlen hcb hcall =>
      exact h.step_fire w hcredit hpts hfew hlen
  | pay c pt pts hcredit hpts hfew hlen =>
      exact h.step_pay hcredit hpts hfew hlen
  | spent c hcredit hpts =>
      have hout := h.out
      have hmarks := h.marks
      rw [hpts] at hout hmarks
      refine ⟨h.fired, h.serials, h.count, Nat.zero_le _, ?_, h.out, ?_, ?_,
        h.timed⟩
      · intro hfew
        rw [hpts] at hfew ⊢
        rw [hmarks hfew]
        rfl
      · intro hfew
        rw [hpts] at hfew
        have hzero : q.txOut = 0 := hout hfew
        show q.txOut ≤ q.wbuf.length + 0
        omega
      · intro _ _ pt hpt
        rw [hpts] at hpt
        cases hpt
  | overrun c hcredit hfull =>
      refine ⟨h.fired, h.serials, h.count, Nat.zero_le _, ?_, ?_, ?_, ?_,
        h.timed⟩
      all_goals
        intro hfew
        exact absurd hfull (Nat.ne_of_lt hfew)

/-- A new point closes the gap between the last one and the data's end. -/
private theorem inserted_sum {R len : Nat} (h : q.Points R)
    (hcredit : q.credit = none) (hfew : q.txCbs.length < R)
    (hlen : len = if q.txCbs.length = 0 then q.wbuf.length
      else Sock.sizeDiff q.wbuf.length q.txOut) :
    outstanding q.txCbs + len = q.wbuf.length := by
  have hout := h.out hfew
  have hroom := h.room hfew
  rw [hcredit, Option.getD_none] at hroom
  rw [hlen]
  by_cases hnone : q.txCbs.length = 0
  · rw [if_pos hnone, List.length_eq_zero_iff.mp hnone]
    simp [outstanding]
  · have hsub : Sock.sizeDiff q.wbuf.length q.txOut =
        q.wbuf.length - q.txOut := if_pos (by omega)
    rw [if_neg hnone, hsub]
    omega

/-- Inserting a point adds its position to the history, and nothing else. -/
private theorem inserted_trace {R : Nat} (h : q.Points R)
    (hcredit : q.credit = none) (hfew : q.txCbs.length < R)
    {pre : List Event} (hpre : pre = [] ∨ pre = [.sub q.wbuf.length q.txOut])
    {t : List Event} (ht : t = q.trace ++ pre ++
      [.point (positions 0 q.trace).length q.wbuf.length]) :
    firedPoints t = firedPoints q.trace ∧ accepted t = accepted q.trace ∧
      positions 0 t = positions 0 q.trace ++
        [(accepted q.trace).length + q.wbuf.length] ∧
      Always (Timed R) t := by
  subst ht
  refine ⟨?_, ?_, ?_, ?_⟩
  · rcases hpre with rfl | rfl <;> simp [firedPoints]
  · rcases hpre with rfl | rfl <;> simp [accepted]
  · rcases hpre with rfl | rfl <;>
      simp [positions_append, positions, accepted]
  · rcases hpre with rfl | rfl
    · rw [List.append_nil]
      exact always_snoc.mpr ⟨h.timed, h.onTime hcredit⟩
    · have hquiet : OnTime R (q.trace ++ [.sub q.wbuf.length q.txOut]) := by
        have hbefore := h.onTime hcredit
        unfold OnTime at hbefore ⊢
        simpa [firedPoints, accepted, positions_append, positions]
          using hbefore
      have hsub : q.txOut ≤ q.wbuf.length := by
        have hroom := h.room hfew
        rwa [hcredit] at hroom
      exact always_snoc.mpr ⟨always_snoc.mpr ⟨h.timed, hsub⟩, hquiet⟩

/-- A callback point is inserted behind bytes that are still waiting. -/
theorem inserted {R : Nat} (h : q.Points R) (hcredit : q.credit = none)
    (hfew : q.txCbs.length < R) (hbusy : q.wbuf ≠ []) (cb : Option (TxCB W))
    (data : Option Nat) (len : Nat)
    (hlen : len = if q.txCbs.length = 0 then q.wbuf.length
      else Sock.sizeDiff q.wbuf.length q.txOut) :
    Queues.Points R { q with
      txCbs := q.txCbs ++ [⟨len, cb, data, (positions 0 q.trace).length⟩]
      txOut := q.wbuf.length
      trace := q.trace ++
        (if q.txCbs.length = 0 then [] else [.sub q.wbuf.length q.txOut]) ++
        [.point (positions 0 q.trace).length q.wbuf.length] } := by
  have hbusy' : 0 < q.wbuf.length := List.length_pos_iff.mpr hbusy
  have hcount := h.count
  have hmarks := h.marks hfew
  rw [hcredit, Option.getD_none] at hmarks
  have hsum := h.inserted_sum hcredit hfew hlen
  obtain ⟨hfired, haccepted, hpositions, htimed⟩ :=
    h.inserted_trace hcredit hfew (ite_eq_or_eq (q.txCbs.length = 0) _ _)
      rfl
  refine ⟨?_, ?_, ?_, ?_, ?_, ?_, ?_, ?_, htimed⟩
  · rw [hfired]
    exact h.fired
  · rw [hfired, List.map_append, List.length_append, h.serials,
      List.length_singleton, List.range'_1_concat, hcount]
    rfl
  · rw [hfired, hpositions, List.length_append, List.length_append, hcount]
    simp only [List.length_singleton]
    omega
  · rw [hcredit]
    exact Nat.zero_le _
  · intro _
    rw [hfired, hpositions, haccepted, hcredit, Option.getD_none,
      List.drop_append_of_le_length (by omega), hmarks, marksFrom_append]
    simp only [Nat.sub_zero]
    rw [Nat.add_assoc, hsum]
  · intro _
    simp only [outstanding, List.map_append, List.sum_append, List.map_cons,
      List.map_nil, List.sum_cons, List.sum_nil, Nat.add_zero]
    exact hsum.symm
  · intro _
    exact Nat.le_add_right _ _
  · intro _ _ pt hpt
    cases hpts : q.txCbs with
    | nil =>
        simp only [hpts, List.nil_append, List.head?_cons,
          Option.mem_some_iff] at hpt
        rw [hpts] at hsum
        have hzero : outstanding ([] : List (IOTx W)) = 0 := rfl
        rw [← hpt]
        show 0 < len
        omega
    | cons p pts =>
        have hhead := h.ahead hfew hcredit
        rw [hpts] at hhead
        simp only [hpts, List.cons_append, List.head?_cons] at hpt
        exact hhead pt hpt

end Queues.Points

/-! ## The invariant of a run -/

namespace Writer

/-- The points of the socket are those the program remembers. -/
structure Pointed (p : Writer W R C) : Prop where
  streams : p.Streams
  points : p.sock.view.Points R
  npoint : p.sock.npoint = (positions 0 p.sock.trace).length
  sofar : positions 0 p.sock.trace = p.points

theorem init_pointed (addr : Nat) (rmem wmem : Nat → UInt8) (w : W) :
    (init addr rmem wmem w : Writer W R C).Pointed where
  streams := init_streams addr rmem wmem w
  npoint := rfl
  sofar := rfl
  points := ⟨rfl, rfl, rfl, Nat.zero_le _, fun _ => rfl, fun _ => rfl,
    fun _ => Nat.zero_le _, fun _ _ _ hpt => absurd hpt (by simp [
      Sock.view, init, Sock.init]), always_nil _⟩

/-- Transmitting inserts no point. -/
private theorem positions_of_chain {R addr : Nat} {q q' : Queues W}
    (hchain : ReflTransGen (Queues.TxStep R addr) q q') :
    positions 0 q'.trace = positions 0 q.trace := by
  induction hchain with
  | refl => rfl
  | tail _ hlast ih =>
      rw [← ih]
      cases hlast with
      | accepted k hcredit hbusy hk => simp [positions_append, positions]
      | fire c pt pts f w hcredit hpts hroom hlen hcb hcall =>
          simp [positions_append, positions]
      | pay c pt pts hcredit hpts hroom hlen =>
          simp [positions_append, positions]
      | spent c hcredit hpts => rfl
      | overrun c hcredit hfull => rfl

private theorem Pointed.of_tx {p : Writer W R C} {s : Sock W R C}
    (h : p.Pointed) (hran : Sock.TxRan p.sock s)
    (hstreams : Streams { p with sock := s }) :
    Pointed { p with sock := s } := by
  have hkeep : positions 0 s.trace = positions 0 p.sock.trace :=
    positions_of_chain hran.chain
  have hpoints : s.view.Points R := invariant_of_step
    (P := fun q : Queues W => q.Points R)
    (fun _ _ hstep hq => hq.step hstep) hran.chain h.points
  refine ⟨hstreams, hpoints, ?_, ?_⟩
  · exact hran.npoint.trans (h.npoint.trans (congrArg _ hkeep.symm))
  · exact hkeep.trans h.sofar

/-- A call that only adds to the bytes that wait. -/
private theorem Pointed.of_write {p p' : Writer W R C} (h : p.Pointed)
    (hstreams : p'.Streams) (hcbs : p'.sock.txCbs = p.sock.txCbs)
    (hout : p'.sock.txOut = p.sock.txOut)
    (htrace : p'.sock.trace = p.sock.trace)
    (hnpoint : p'.sock.npoint = p.sock.npoint)
    (hpoints : p'.points = p.points)
    (hwbuf : p.sock.wbuf.used ≤ p'.sock.wbuf.used) : p'.Pointed := by
  refine ⟨hstreams, ?_, ?_, ?_⟩
  · refine h.points.congr (congrArg Buffer.toList hcbs) hout rfl
      (congrArg _ htrace) (congrArg _ htrace) (congrArg _ htrace) ?_ ?_
    · show Always (Timed R) p'.sock.trace
      rw [htrace]
      exact h.points.timed
    · simpa only [Sock.view, Buffer.length_toList] using hwbuf
  · rw [hnpoint, htrace]
    exact h.npoint
  · rw [htrace, hpoints]
    exact h.sofar

/-- A call that fails, or that works on the bytes to be sent only. -/
private theorem Pointed.step_write {p p' : Writer W R C} (h : p.Pointed)
    {c : TxCall W} (hstep : p.step c = some p')
    (hc : (∃ data, c = .write data) ∨ (∃ len, c = .writePrepare len) ∨
      (∃ data, c = .fill data) ∨ ∃ len, c = .writeCommit len) :
    p'.Pointed := by
  have hstreams := h.streams.step hstep
  rcases hc with ⟨data, rfl⟩ | ⟨len, rfl⟩ | ⟨data, rfl⟩ | ⟨len, rfl⟩
  · rcases Sock.write_cases h.streams.wf data with
      ⟨hpos, hfit, hrun⟩ | ⟨e, hrun⟩
    · simp only [Writer.step, hrun] at hstep
      cases hstep
      exact h.of_write hstreams rfl rfl rfl rfl rfl (Nat.le_add_right _ _)
    · simp only [Writer.step, hrun] at hstep
      cases hstep
      exact h
  · by_cases hok : 0 < len ∧ len ≤ p.sock.wbuf.space
    · have hrun := Sock.writePrepare_ok h.streams.wf hok.1 hok.2
      simp only [Writer.step, hrun] at hstep
      cases hstep
      exact h.of_write hstreams rfl rfl rfl rfl rfl (Nat.le_refl _)
    · obtain ⟨e, hrun⟩ := Sock.writePrepare_throws
        (show len = 0 ∨ p.sock.wbuf.space < len by omega)
      simp only [Writer.step, hrun] at hstep
      cases hstep
      exact h
  · cases hprep : p.prep with
    | none =>
        simp only [Writer.step, hprep] at hstep
        cases hstep
    | some prep =>
        obtain ⟨p1, p2, n1, len⟩ := prep
        simp only [Writer.step, hprep] at hstep
        by_cases hfits : data.length ≤ len
        · rw [if_pos hfits] at hstep
          cases hstep
          refine h.of_write hstreams rfl rfl rfl rfl rfl (Nat.le_of_eq ?_)
          cases p2 <;> rfl
        · rw [if_neg hfits] at hstep
          cases hstep
  · by_cases hlen : len ≤ p.filled.length
    · simp only [Writer.step, if_pos hlen] at hstep
      by_cases hok : 0 < len ∧ len ≤ p.sock.wbuf.space
      · have hrun := Sock.writeCommit_ok h.streams.wf hok.1 hok.2
        simp only [hrun] at hstep
        cases hstep
        exact h.of_write hstreams rfl rfl rfl rfl rfl (Nat.le_add_right _ _)
      · obtain ⟨e, hrun⟩ := Sock.writeCommit_throws
          (show len = 0 ∨ p.sock.wbuf.space < len by omega)
        simp only [hrun] at hstep
        cases hstep
        exact h
    · simp only [Writer.step, if_neg hlen] at hstep
      cases hstep

/-- A callback point is inserted where the writes so far end. -/
private theorem Pointed.step_writeCbPoint {p p' : Writer W R C}
    (h : p.Pointed) {cb : TxCB W} {data : Option Nat}
    (hstep : p.step (.writeCbPoint cb data) = some p') : p'.Pointed := by
  have hstreams := h.streams.step hstep
  have hwf := h.streams.wf
  by_cases hempty : p.sock.wbuf.items = 0
  · simp only [Writer.step, if_pos hempty] at hstep
    cases hstep
  simp only [Writer.step, if_neg hempty] at hstep
  rcases Sock.writeCbPoint_cases hwf (some cb) data with
    ⟨hroom, hrun⟩ | ⟨e, hrun, -⟩
  · simp only [hrun] at hstep
    cases hstep
    have hspace : p.sock.txCbs.space = R - p.sock.txCbs.used := rfl
    have hfew : p.sock.view.txCbs.length < R := by
      simp only [Sock.view, Buffer.length_toList]
      omega
    have hbusy : p.sock.view.wbuf ≠ [] := by
      intro hnil
      exact hempty (Buffer.toList_eq_nil.mp hnil)
    have hinserted := h.points.inserted rfl hfew hbusy (some cb) data
      p.sock.pointLen (by
        simp only [Sock.view, Buffer.length_toList, Sock.pointLen])
    have hview : (p.sock.pointed (some cb) data).view =
        { p.sock.view with
          txCbs := p.sock.view.txCbs ++ [⟨p.sock.pointLen, some cb, data,
            (positions 0 p.sock.trace).length⟩]
          txOut := p.sock.view.wbuf.length
          trace := p.sock.view.trace ++
            (if p.sock.view.txCbs.length = 0 then []
              else [.sub p.sock.view.wbuf.length p.sock.view.txOut]) ++
            [.point (positions 0 p.sock.trace).length
              p.sock.view.wbuf.length] } := by
      have hlist := Sock.pointed_toList hwf hroom (some cb) data
      simp only [Sock.view, Buffer.length_toList]
      rw [hlist, ← h.npoint]
      rfl
    have hlast : positions 0 (p.sock.pointed (some cb) data).trace =
        positions 0 p.sock.trace ++
          [(accepted p.sock.trace).length + p.sock.wbuf.used] := by
      simp only [Sock.pointed]
      split <;> simp [positions_append, positions, accepted]
    refine ⟨hstreams, ?_, ?_, ?_⟩
    · rw [hview]
      exact hinserted
    · rw [hlast, List.length_append, ← h.npoint]
      rfl
    · have hstream := congrArg List.length h.streams.stream
      simp only [Queues.stream, Sock.view, List.length_append,
        Buffer.length_toList] at hstream
      rw [hlast, h.sofar, hstream]
  · simp only [hrun] at hstep
    cases hstep
    exact h

/-- **Every call keeps the invariant.** -/
theorem Pointed.step {p p' : Writer W R C} (h : p.Pointed) {c : TxCall W}
    (hstep : p.step c = some p') : p'.Pointed := by
  have hstreams := h.streams.step hstep
  have hwf := h.streams.wf
  cases c with
  | write data => exact h.step_write hstep (.inl ⟨data, rfl⟩)
  | writePrepare len => exact h.step_write hstep (.inr (.inl ⟨len, rfl⟩))
  | fill data => exact h.step_write hstep (.inr (.inr (.inl ⟨data, rfl⟩)))
  | writeCommit len =>
      exact h.step_write hstep (.inr (.inr (.inr ⟨len, rfl⟩)))
  | writeCbPoint cb data => exact h.step_writeCbPoint hstep
  | tryTx wout =>
      rcases Sock.tryTx_cases hwf wout with ⟨s, hrun, hran⟩ | ⟨e, s, hrun, -⟩
      · simp only [Writer.step, hrun] at hstep
        cases hstep
        exact h.of_tx hran hstreams
      · simp only [Writer.step, hrun] at hstep
        cases hstep
  | runIo check wout =>
      rcases Sock.runOut_cases hwf check wout with
        ⟨s, hrun, hran⟩ | ⟨e, s, hrun, -⟩
      · simp only [Writer.step, Sock.runIo_out, hrun] at hstep
        cases hstep
        exact h.of_tx hran hstreams
      · simp only [Writer.step, Sock.runIo_out, hrun] at hstep
        cases hstep

/-! ## The main result -/

/-- **When transmit callbacks fire.**  After every run:

* the callbacks that were called are those of the first points, in order and
  each once, and the position of a point is the number of bytes written
  before it;
* every callback came after the bytes in front of its point, and when a round
  of `tx` or an insertion began, or the run ended, every point whose bytes had
  been accepted had fired, as long as fewer than `R` points were pending; no
  stored subtraction wrapped around (`Timed`, `OnTime`);
* with fewer than `R` points pending, `tx_out_` is the sum of their lengths,
  and not more than what is waiting. -/
theorem run_points (addr : Nat) (rmem wmem : Nat → UInt8) (w : W)
    (calls : List (TxCall W)) (p : Writer W R C)
    (hrun : run calls (init addr rmem wmem w) = some p) :
    firedPoints p.sock.trace =
      List.range (firedPoints p.sock.trace).length ∧
    positions 0 p.sock.trace = p.points ∧
    Always (Timed R) p.sock.trace ∧ OnTime R p.sock.trace ∧
    (p.sock.txCbs.items < R →
      p.sock.txOut = (p.sock.txCbs.toList.map IOTx.len).sum ∧
      p.sock.txOut ≤ p.sock.wbuf.items) := by
  have h : p.Pointed := run_invariant (fun h hstep => h.step hstep) calls
    (init_pointed addr rmem wmem w) hrun
  refine ⟨h.points.fired, h.sofar, h.points.timed, h.points.onTime rfl, ?_⟩
  intro hfew
  have hfew' : p.sock.view.txCbs.length < R := by
    simp only [Sock.view, Buffer.length_toList]
    exact hfew
  have hroom := h.points.room hfew'
  simp only [Sock.view, Buffer.length_toList, Option.getD_none] at hroom
  exact ⟨h.points.out hfew', hroom⟩

/-- Two points behind five bytes, which leave in two pieces. -/
private def twoPoints : List (TxCall Unit) :=
  [.write [1, 2], .writeCbPoint (fun _ _ _ => pure ()) none,
    .write [3, 4, 5], .writeCbPoint (fun _ _ _ => pure ()) none,
    .runIo .ok [.accepted 3, .error EAGAIN], .runIo .ok [.accepted 2]]

private def twoPointsStart {R C : ℕ+} : Writer Unit R C :=
  init 0 (fun _ => 0) (fun _ => 0) ()

theorem run_points_twoPoints :
    ∃ p, run twoPoints (twoPointsStart : Writer Unit 4 8) = some p ∧
      p.points = [2, 5] ∧ positions 0 p.sock.trace = p.points := by
  have hpoints : (run twoPoints (twoPointsStart : Writer Unit 4 8)).map
      points = some [2, 5] := by decide +kernel
  obtain ⟨p, hp, hp'⟩ := Option.map_eq_some_iff.mp hpoints
  exact ⟨p, hp, hp',
    (run_points 0 (fun _ => 0) (fun _ => 0) () twoPoints p hp).2.1⟩

end Writer

end Mutated.Ports
