import Mathlib.Data.List.TakeWhile
import Mutated.Ports.ClientAccounting

/-!
# The two timers

`timer_handler` and `busy_timer` are shaped differently: the first tests a
deadline, sends and leaves in the middle, the second guards its loop and reads
the next deadline at the end.  `sendDue` is what both do: it sends what is due
at one reading of the clock.  Either timer is `sendDue`, with its own notes.

* `batch reading n` are the requests from the `n`-th on that are due.
* `handled` and `busied` are the notes of the two timers.

## Main results

`timerHandler_eq` and `busyTimer_eq` say that the timers refine `sendDue`.
-/

namespace Mutated.Ports.Load

open Mutated.Verified.Exec

/-- The time that passes during a call. -/
def Served.duration (s : Served) : Nat :=
  (s.completions.map (·.took)).sum + s.took

namespace Experiment

/-! ## What is due -/

section Model

variable (e : Experiment)

/-- The `i`-th request is due. -/
abbrev IsDue (reading : Int) (i : Nat) : Prop :=
  i < e.plan.totalSamples ∧ e.deadlineAt i ≤ reading

/-- The requests from the `n`-th on that are due, up to the first that is
not. -/
def batch (reading : Int) (n : Nat) : List Nat :=
  (List.range' n (e.plan.totalSamples - n)).takeWhile
    fun i => e.deadlineAt i ≤ reading

/-- The next requests are sent, due or not. -/
def sendNext : Nat → EStateM Stop Core Unit
  | 0 => pure ()
  | left + 1 => do
      e.sendOne
      sendNext left

/-- What is due is sent. -/
def sendDue (reading : Int) : Nat → EStateM Stop Core Unit
  | 0 => pure ()
  | fuel + 1 => do
      let c ← get
      runIf (e.IsDue reading c.sentCount) do
        e.sendOne
        sendDue reading fuel

end Model

variable {e : Experiment} {reading : Int} {n : Nat}

theorem batch_of_due (h : e.IsDue reading n) :
    e.batch reading n = n :: e.batch reading (n + 1) := by
  have hleft : e.plan.totalSamples - n = e.plan.totalSamples - (n + 1) + 1 := by
    have hlt := h.1
    omega
  rw [batch, hleft, List.range'_succ, List.takeWhile_cons,
    if_pos (by simpa using h.2)]
  rfl

theorem batch_of_not_due (h : ¬ e.IsDue reading n) :
    e.batch reading n = [] := by
  rw [batch]
  by_cases hlt : n < e.plan.totalSamples
  · obtain ⟨left, hleft⟩ : ∃ left, e.plan.totalSamples - n = left + 1 :=
      ⟨e.plan.totalSamples - n - 1, by omega⟩
    rw [hleft, List.range'_succ, List.takeWhile_cons, if_neg]
    simpa using fun hle => h ⟨hlt, hle⟩
  · rw [show e.plan.totalSamples - n = 0 by omega]
    rfl

theorem batch_length_le (reading : Int) (n : Nat) :
    (e.batch reading n).length ≤ e.plan.totalSamples - n := by
  have hle := (List.takeWhile_prefix (l := List.range' n
    (e.plan.totalSamples - n)) fun i => e.deadlineAt i ≤ reading).length_le
  rwa [List.length_range'] at hle

/-- A batch is a piece of the schedule. -/
theorem batch_eq_range' (reading : Int) (n : Nat) :
    e.batch reading n = List.range' n (e.batch reading n).length := by
  have htake : e.batch reading n = _ :=
    List.prefix_iff_eq_take.mp (List.takeWhile_prefix _)
  rwa [List.take_range'_of_length_ge (batch_length_le reading n)] at htake

/-- A batch is all that is left if all of it is due. -/
theorem batch_length_eq_iff (reading : Int) (n : Nat) :
    (e.batch reading n).length = e.plan.totalSamples - n ↔
      ∀ i, n ≤ i → i < e.plan.totalSamples → e.deadlineAt i ≤ reading := by
  constructor
  · intro hlen i hge hlt
    have hmem : i ∈ e.batch reading n := by
      rw [batch_eq_range', hlen]
      exact List.mem_range'_1.mpr ⟨hge, by omega⟩
    have hdue := List.mem_takeWhile_imp hmem
    exact of_decide_eq_true hdue
  · intro hall
    rw [batch, List.takeWhile_eq_self_iff.mpr, List.length_range']
    intro i hi
    have hrange := List.mem_range'_1.mp hi
    exact decide_eq_true (hall i hrange.1 (by omega))

/-! ## What `sendDue` does -/

/-- **The batch is sent**, or a part of it if the program ends. -/
theorem sendDue_place {fuel : Nat} (hfuel : e.plan.totalSamples - n ≤ fuel) :
    Triple (fun c => c.place = (n, false)) (e.sendDue reading fuel)
      (fun _ c => c.place = (n + (e.batch reading n).length, false))
      (fun _ c => c.sending = true ∧ n ≤ c.sentCount ∧
        c.sentCount < n + (e.batch reading n).length) := by
  induction fuel generalizing n with
  | zero =>
      have hnone : (e.batch reading n).length = 0 :=
        Nat.le_zero.mp ((batch_length_le reading n).trans hfuel)
      exact .pure fun c hc => by rw [hc, hnone, Nat.add_zero]
  | succ fuel ih =>
      refine .get fun c hc => .runIf (fun hdue => ?_) fun hdue => ?_
      · have hcount : c.sentCount = n := congrArg Prod.fst hc
        rw [hcount] at hdue
        have hlen := congrArg List.length (batch_of_due hdue)
        rw [List.length_cons] at hlen
        refine .bind (Q := fun _ c => c.place = (n + 1, false))
          ((sendOne_place n).mono ?_ (fun _ _ h => h) ?_) fun _ =>
            (ih (n := n + 1) (by omega)).mono (fun _ h => h) ?_ ?_
        · rintro s rfl
          exact hc
        · intro stop s hs
          have hs : s.sentCount = n ∧ s.sending = true := Prod.ext_iff.mp hs
          exact ⟨hs.2, by omega, by omega⟩
        · intro _ s hs
          rw [hs, hlen, Nat.add_assoc, Nat.add_comm 1]
        · rintro stop s ⟨hsending, hge, hlt⟩
          exact ⟨hsending, by omega, by omega⟩
      · rintro s rfl
        have hcount : s.sentCount = n := congrArg Prod.fst hc
        rw [hcount] at hdue
        rw [hc, batch_of_not_due hdue]
        rfl

/-- However it ends, no request is taken back. -/
theorem sendDue_after (reading : Int) {c : Core} {fuel : Nat}
    (hplace : c.place = (n, false))
    (hfuel : e.plan.totalSamples - n ≤ fuel) :
    n ≤ (after (e.sendDue reading fuel c)).sentCount ∧
      n ≤ (after (e.sendDue reading fuel c)).begun := by
  have hsent : n ≤ (after (e.sendDue reading fuel c)).sentCount := by
    cases hrun : e.sendDue reading fuel c with
    | ok a t =>
        have hcount := congrArg Prod.fst
          ((sendDue_place hfuel).of_ok hplace hrun)
        have hcount : t.sentCount = n + (e.batch reading n).length := hcount
        rw [after_ok]
        omega
    | error stop t => exact ((sendDue_place hfuel).of_error hplace hrun).2.1
  exact ⟨hsent, hsent.trans (Nat.le_add_right _ _)⟩

/-- The invariant is kept. -/
theorem sendDue_triple (fuel : Nat) :
    Triple (Idle e) (e.sendDue reading fuel) (fun _ => Idle e)
      (Stopped e) := by
  induction fuel with
  | zero => exact .pure fun _ h => h
  | succ fuel ih =>
      refine .get fun c hc => .runIf (fun hdue => ?_) fun _ => ?_
      · refine .bind ((sendOne_triple hdue.1).mono ?_ (fun _ _ h => h)
          fun _ _ h => h) fun _ => ih
        rintro s rfl
        exact ⟨hc, rfl⟩
      · rintro s rfl
        exact hc

/-! ## The notes of the timers -/

section Model

variable (e : Experiment)

/-- What is noted of the requests that were handed to a connection. -/
def newDues (reading : Int) (checked : Nat → Bool) (n m : Nat) : List Due :=
  (List.range' n (m - n)).map fun i => ⟨i, reading - e.deadlineAt i, checked i⟩

/-- A missed send. -/
def missed (due : Due) : Bool :=
  due.checked && decide (-due.late < e.missedThreshold)

/-- The notes of both timers, once the core is `t`. -/
def noted (reading : Int) (checked : Nat → Bool) (c : Client) (t : Core) :
    Client :=
  let dues := e.newDues reading checked c.core.sentCount t.begun
  { c with
    core := t
    missedSend := c.missedSend + dues.countP e.missed
    dues := c.dues ++ dues }

/-- `timer_handler` reads the deadlines of what it sends and of the request
that it arms the timer for. -/
def handled (reading : Int) (looped : Nat) (c : Client) (t : Core) : Client :=
  { e.noted reading (fun i => 0 < looped ∨ c.core.sentCount < i) c t with
    reads := c.reads ++ List.range' c.core.sentCount
      (min (t.sentCount + 1) e.plan.totalSamples - c.core.sentCount)
    armed :=
      if t.sending = false ∧ t.sentCount < e.plan.totalSamples then
        let left := e.deadlineAt t.sentCount - reading
        some ⟨t.clock, left / nsec, left - left / nsec * nsec⟩
      else c.armed }

/-- `busy_timer` reads the deadlines of what it sends and the one behind. -/
def busied (reading : Int) (c : Client) (t : Core) : Client :=
  { e.noted reading (fun _ => true) c t with
    reads := c.reads ++
      List.range' c.core.sentCount (t.sentCount + 1 - c.core.sentCount) }

/-- One request that was found due. -/
def missing (slack : Int) (checked : Bool) (c : Client) : Client :=
  { c with
    missedSend := c.missedSend +
      if checked ∧ slack < e.missedThreshold then 1 else 0
    dues := c.dues ++ [⟨c.core.sentCount, -slack, checked⟩] }

end Model

theorem newDues_cons (reading : Int) {checked : Nat → Bool}
    (checked' : Nat → Bool) {n m : Nat} (h : n < m)
    (hchecked : ∀ i, n < i → checked' i = checked i) :
    e.newDues reading checked n m =
      ⟨n, reading - e.deadlineAt n, checked n⟩ ::
        e.newDues reading checked' (n + 1) m := by
  have hleft : m - n = m - (n + 1) + 1 := by omega
  rw [newDues, newDues, hleft, List.range'_succ, List.map_cons]
  congr 1
  refine List.map_congr_left fun i hi => ?_
  rw [hchecked i (List.mem_range'_1.mp hi).1]

theorem newDues_self (checked : Nat → Bool) (n : Nat) :
    e.newDues reading checked n n = [] := by
  rw [newDues, Nat.sub_self]
  rfl

/-- **The notes of a batch** begin with those of its first request. -/
theorem noted_cons {checked : Nat → Bool} (checked' : Nat → Bool) {c : Client}
    {t u : Core} {slack : Int}
    (hslack : slack = e.deadlineAt c.core.sentCount - reading)
    (hlt : c.core.sentCount < u.begun)
    (hnext : t.sentCount = c.core.sentCount + 1)
    (hchecked : ∀ i, c.core.sentCount < i → checked' i = checked i) :
    e.noted reading checked c u = e.noted reading checked'
      { e.missing slack (checked c.core.sentCount) c with core := t } u := by
  have hcons := newDues_cons (e := e) reading checked' hlt hchecked
  have hlate : -slack = reading - e.deadlineAt c.core.sentCount := by omega
  have hone : (if e.missed ⟨c.core.sentCount,
      reading - e.deadlineAt c.core.sentCount,
      checked c.core.sentCount⟩ = true then 1 else 0) =
      if checked c.core.sentCount ∧ slack < e.missedThreshold then 1
      else 0 := by
    refine if_congr ?_ rfl rfl
    rw [missed, Bool.and_eq_true, decide_eq_true_eq, ← hlate, Int.neg_neg]
  simp only [noted, hcons, hnext, missing, List.countP_cons, hone]
  refine Client.ext rfl rfl ?_ rfl rfl ?_
  · exact (congrArg (c.missedSend + ·) (Nat.add_comm _ _)).trans
      (Nat.add_assoc _ _ _).symm
  · rw [hlate]
    exact List.append_cons _ _ _

theorem noted_nil {checked : Nat → Bool} {c : Client} {u : Core}
    (h : u.begun = c.core.sentCount) :
    e.noted reading checked c u = { c with core := u } := by
  simp only [noted, h, newDues_self]
  exact Client.ext rfl rfl rfl rfl rfl (List.append_nil _)

/-- The notes of one request. -/
theorem noted_one {checked : Nat → Bool} {c : Client} {u : Core} {slack : Int}
    (hslack : slack = e.deadlineAt c.core.sentCount - reading)
    (hbegun : u.begun = c.core.sentCount + 1) :
    e.noted reading checked c u =
      { e.missing slack (checked c.core.sentCount) c with core := u } := by
  rw [noted_cons (t := { u with sentCount := c.core.sentCount + 1 }) checked
    hslack (by omega) rfl fun _ _ => rfl, noted_nil hbegun]

/-! ## The timers refine `sendDue` -/

theorem sendDue_skip {c : Core} {fuel : Nat}
    (h : ¬ e.IsDue reading c.sentCount) :
    e.sendDue reading fuel c = .ok () c := by
  cases fuel with
  | zero => rfl
  | succ fuel => exact congrFun (if_neg h) c

theorem sendDue_error {c t : Core} {stop : Stop} {fuel : Nat}
    (h : e.IsDue reading c.sentCount) (hone : e.sendOne c = .error stop t) :
    e.sendDue reading (fuel + 1) c = .error stop t :=
  (congrFun (if_pos h) c).trans (bind_of_error hone)

theorem sendDue_ok {c t : Core} {fuel : Nat}
    (h : e.IsDue reading c.sentCount) (hone : e.sendOne c = .ok () t) :
    e.sendDue reading (fuel + 1) c = e.sendDue reading fuel t :=
  (congrFun (if_pos h) c).trans (bind_of_ok hone)

/-- If all that is left is due, it is what comes next. -/
theorem sendDue_all {fuel : Nat}
    (hall : ∀ i, n ≤ i → i < e.plan.totalSamples → e.deadlineAt i ≤ reading)
    (hfuel : e.plan.totalSamples - n ≤ fuel) {c : Core}
    (hplace : c.place = (n, false)) :
    e.sendDue reading fuel c = e.sendNext (e.plan.totalSamples - n) c := by
  induction fuel generalizing n c with
  | zero =>
      rw [Nat.le_zero.mp hfuel]
      rfl
  | succ fuel ih =>
      have hcount : c.sentCount = n := congrArg Prod.fst hplace
      by_cases hlt : n < e.plan.totalSamples
      · have hdue : e.IsDue reading c.sentCount := by
          rw [hcount]
          exact ⟨hlt, hall n (Nat.le_refl n) hlt⟩
        have hleft : e.plan.totalSamples - n =
            e.plan.totalSamples - (n + 1) + 1 := by omega
        rw [hleft]
        cases hone : e.sendOne c with
        | error stop t =>
            rw [sendDue_error hdue hone]
            exact (bind_of_error hone).symm
        | ok a t =>
            rw [sendDue_ok hdue hone, ih (fun i hge => hall i (by omega))
              (by omega) ((sendOne_place n).of_ok hplace hone)]
            show _ = (e.sendOne >>= _ : EStateM Stop Core Unit) c
            rw [bind_of_ok hone]
      · have hskip : ¬ e.IsDue reading c.sentCount := by
          rw [hcount]
          exact fun hdue => hlt hdue.1
        rw [sendDue_skip hskip, Nat.sub_eq_zero_of_le (Nat.not_lt.mp hlt)]
        rfl

theorem begun_of_place {c : Core} (h : c.place = (n, true)) :
    c.begun = n + 1 := by
  obtain ⟨hcount, hsending⟩ := Prod.ext_iff.mp h
  rw [Core.begun, show c.sending = true from hsending]
  exact congrArg (· + 1) hcount

/-- What is known of one request that is due, as far as `timer_handler`. -/
def handledOne (e : Experiment) (reading : Int) (looped : Nat) (c : Client) :
    Client :=
  { e.missing (e.deadlineAt c.core.sentCount - reading) (decide (0 < looped)) c
    with reads := c.reads ++ [c.core.sentCount] }

theorem handled_one {c : Client} {t : Core} (looped : Nat)
    (hbegun : t.begun = c.core.sentCount + 1)
    (hlast : t.sending = false → e.plan.totalSamples ≤ t.sentCount)
    (hread : min (t.sentCount + 1) e.plan.totalSamples =
      c.core.sentCount + 1) :
    e.handled reading looped c t =
      { e.handledOne reading looped c with core := t } := by
  rw [handled, noted_one rfl hbegun, hread, Nat.add_sub_cancel_left,
    if_neg (fun h => Nat.not_lt.mpr (hlast h.1) h.2)]
  simp only [Nat.lt_irrefl, or_false]
  rfl

theorem handled_next {c : Client} {t u : Core} (looped : Nat)
    (hnext : t.sentCount = c.core.sentCount + 1)
    (hbegun : c.core.sentCount < u.begun)
    (hread : t.sentCount < min (u.sentCount + 1) e.plan.totalSamples) :
    e.handled reading looped c u = e.handled reading (looped + 1)
      { e.handledOne reading looped c with core := t } u := by
  have hleft : min (u.sentCount + 1) e.plan.totalSamples - c.core.sentCount =
      min (u.sentCount + 1) e.plan.totalSamples - t.sentCount + 1 := by omega
  have hchecked : (fun i => decide (0 < looped + 1 ∨ t.sentCount < i)) =
      fun _ => true := funext fun i => by simp
  unfold handled
  rw [noted_cons (t := t) (fun _ => true) rfl hbegun hnext
    (by simp +contextual), hleft, List.range'_succ, ← hnext, hchecked,
    List.append_cons]
  simp only [Nat.lt_irrefl, or_false]
  rfl

/-- **The loop of `timer_handler`.** -/
theorem timerLoop_eq {fuel : Nat} : ∀ {c : Client} {looped : Nat},
    c.core.place = (n, false) → n < e.plan.totalSamples →
    e.plan.totalSamples - n ≤ fuel →
    e.timerLoop reading fuel looped c =
      onState (e.handled reading looped c) (e.sendDue reading fuel c.core) := by
  induction fuel generalizing n with
  | zero =>
      intro c looped hplace hlt hfuel
      omega
  | succ fuel ih =>
      intro c looped hplace hlt hfuel
      obtain ⟨hcount, hidle⟩ := Prod.ext_iff.mp hplace
      have hcount : c.core.sentCount = n := hcount
      show (if 0 < e.deadlineAt c.core.sentCount - reading then _ else _ :
        EStateM Stop Client Unit) _ = _
      by_cases hearly : 0 < e.deadlineAt c.core.sentCount - reading
      · rw [if_pos hearly, sendDue_skip (by omega)]
        refine congrArg (EStateM.Result.ok ()) ?_
        have hbegun : c.core.begun = c.core.sentCount := begun_of_idle hidle
        have hread : min (c.core.sentCount + 1) e.plan.totalSamples -
            c.core.sentCount = 1 := by omega
        rw [handled, noted_nil hbegun, hread, if_pos ⟨hidle, hcount ▸ hlt⟩]
        rfl
      · rw [if_neg hearly]
        have hdue : e.IsDue reading c.core.sentCount :=
          ⟨hcount ▸ hlt, by omega⟩
        show (onCore e.sendOne >>= _ : EStateM Stop Client Unit)
          (e.handledOne reading looped c) = _
        cases hone : e.sendOne c.core with
        | error stop t =>
            have hcall : onCore e.sendOne (e.handledOne reading looped c) =
                .error stop { e.handledOne reading looped c with core := t } :=
              zoom_of_error hone
            have hplace' := (sendOne_place n).of_error hplace hone
            obtain ⟨hcount', hsending⟩ := Prod.ext_iff.mp hplace'
            have hcount' : t.sentCount = n := hcount'
            have hsending : t.sending = true := hsending
            have hbegun := begun_of_place hplace'
            rw [bind_of_error hcall, sendDue_error hdue hone]
            exact congrArg (EStateM.Result.error stop) (handled_one looped
              (by omega) (by simp [hsending]) (by omega)).symm
        | ok a t =>
            have hcall : onCore e.sendOne (e.handledOne reading looped c) =
                .ok () { e.handledOne reading looped c with core := t } :=
              zoom_of_ok hone
            have hplace' := (sendOne_place n).of_ok hplace hone
            obtain ⟨hcount', hidle'⟩ := Prod.ext_iff.mp hplace'
            have hcount' : t.sentCount = n + 1 := hcount'
            have hbegun : t.begun = t.sentCount := begun_of_idle hidle'
            rw [bind_of_ok hcall, sendDue_ok hdue hone]
            show (if e.plan.totalSamples ≤ t.sentCount then _ else _ :
              EStateM Stop Client Unit) _ = _
            by_cases hlast : e.plan.totalSamples ≤ t.sentCount
            · rw [if_pos hlast, sendDue_skip (by omega)]
              exact congrArg (EStateM.Result.ok ()) (handled_one looped
                (by omega) (fun _ => hlast) (by omega)).symm
            · rw [if_neg hlast]
              obtain ⟨hsent, hge⟩ := sendDue_after reading hplace'
                (show e.plan.totalSamples - (n + 1) ≤ fuel by omega)
              refine (ih (n := n + 1) hplace' (by omega) (by omega)).trans
                (onState_congr (handled_next looped ?_ ?_ ?_).symm)
              · exact hcount'.trans (by omega)
              · exact Nat.lt_of_lt_of_le (by omega) hge
              · exact lt_min (Nat.lt_succ_of_le (hcount'.trans_le hsent))
                  (by omega)

/-- **`timer_handler`** sends what is due, as long as there is something to
send. -/
theorem timerHandler_eq {c : Client} (hplace : c.core.place = (n, false))
    (hlt : n < e.plan.totalSamples) :
    e.timerHandler c = onState
      (e.handled (c.core.clock - c.expStartTime) 0 c)
      (e.sendDue (c.core.clock - c.expStartTime)
        (e.plan.totalSamples - n + 1) c.core) := by
  have hcount : c.core.sentCount = n := congrArg Prod.fst hplace
  show e.timerLoop _ (e.plan.totalSamples - c.core.sentCount + 1) 0 c = _
  rw [hcount]
  exact timerLoop_eq hplace hlt (by omega)

/-- The same for `busy_timer`, which compares every request with the
threshold. -/
def busiedOne (e : Experiment) (d : Int) (c : Client) : Client :=
  { e.missing d true c with reads := c.reads ++ [c.core.sentCount] }

theorem busied_one {c : Client} {t : Core} {d : Int}
    (hd : d = e.deadlineAt c.core.sentCount - reading)
    (hbegun : t.begun = c.core.sentCount + 1)
    (hcount : t.sentCount = c.core.sentCount) :
    e.busied reading c t = { e.busiedOne d c with core := t } := by
  rw [busied, noted_one hd hbegun, hcount, Nat.add_sub_cancel_left]
  rfl

theorem busied_next {c : Client} {t u : Core} {d : Int}
    (hd : d = e.deadlineAt c.core.sentCount - reading)
    (hnext : t.sentCount = c.core.sentCount + 1)
    (hbegun : c.core.sentCount < u.begun) (hread : t.sentCount ≤ u.sentCount) :
    e.busied reading c u =
      e.busied reading { e.busiedOne d c with core := t } u := by
  have hleft : u.sentCount + 1 - c.core.sentCount =
      u.sentCount + 1 - t.sentCount + 1 := by omega
  unfold busied
  rw [noted_cons (t := t) (fun _ => true) hd hbegun hnext
    (fun _ _ => rfl), hleft, List.range'_succ, ← hnext, List.append_cons]
  rfl

/-- **The loop of `busy_timer`.** -/
theorem busyLoop_eq {now : Int} {fuel : Nat} : ∀ {c : Client} {d : Int},
    reading = now - c.expStartTime → c.core.place = (n, false) →
    d = e.deadlineAt n - reading → e.plan.totalSamples - n < fuel →
    e.busyLoop now fuel d { c with reads := c.reads ++ [n] } =
      onState (e.busied reading c) (e.sendDue reading fuel c.core) := by
  induction fuel generalizing n with
  | zero =>
      intro c d hreading hplace hd hfuel
      omega
  | succ fuel ih =>
      intro c d hreading hplace hd hfuel
      obtain ⟨hcount, hidle⟩ := Prod.ext_iff.mp hplace
      have hcount : c.core.sentCount = n := hcount
      subst hcount
      show (if d ≤ 0 ∧ c.core.sentCount < e.plan.totalSamples then _ else _ :
        EStateM Stop Client Unit) _ = _
      by_cases hdue : d ≤ 0 ∧ c.core.sentCount < e.plan.totalSamples
      · have hdue' : e.IsDue reading c.core.sentCount := ⟨hdue.2, by omega⟩
        rw [if_pos hdue]
        show (onCore e.sendOne >>= _ : EStateM Stop Client Unit)
          (e.busiedOne d c) = _
        cases hone : e.sendOne c.core with
        | error stop t =>
            have hcall : onCore e.sendOne (e.busiedOne d c) =
                .error stop { e.busiedOne d c with core := t } :=
              zoom_of_error hone
            have hplace' := (sendOne_place _).of_error hplace hone
            rw [bind_of_error hcall, sendDue_error hdue' hone]
            exact congrArg (EStateM.Result.error stop) (busied_one hd
              (begun_of_place hplace') (congrArg Prod.fst hplace')).symm
        | ok a t =>
            have hcall : onCore e.sendOne (e.busiedOne d c) =
                .ok () { e.busiedOne d c with core := t } := zoom_of_ok hone
            have hplace' := (sendOne_place _).of_ok hplace hone
            have hnext : t.sentCount = c.core.sentCount + 1 :=
              congrArg Prod.fst hplace'
            rw [bind_of_ok hcall, sendDue_ok hdue' hone]
            obtain ⟨hsent, hge⟩ := sendDue_after reading hplace'
              (show e.plan.totalSamples - (c.core.sentCount + 1) ≤ fuel
                by omega)
            have hnotes := busied_next
              (u := after (e.sendDue reading fuel t)) hd hnext hge
              (hnext.trans_le hsent)
            refine Eq.trans ?_ (onState_congr hnotes.symm)
            refine Eq.trans ?_ (ih (c := { e.busiedOne d c with core := t })
              hreading hplace' (d := e.deadlineAt t.sentCount +
                c.expStartTime - now) (by rw [hnext]; omega) (by omega))
            rw [← hnext]
            rfl
      · rw [if_neg hdue, sendDue_skip (by omega)]
        refine congrArg (EStateM.Result.ok ()) ?_
        have hbegun : c.core.begun = c.core.sentCount := begun_of_idle hidle
        rw [busied, noted_nil hbegun, Nat.add_sub_cancel_left]
        rfl

/-- **`busy_timer`** sends what is due. -/
theorem busyTimer_eq {c : Client} (hplace : c.core.place = (n, false)) :
    e.busyTimer c = onState (e.busied (c.core.clock - c.expStartTime) c)
      (e.sendDue (c.core.clock - c.expStartTime)
        (e.plan.totalSamples - n + 1) c.core) := by
  have hcount : c.core.sentCount = n := congrArg Prod.fst hplace
  subst hcount
  exact busyLoop_eq (d := e.deadlineAt c.core.sentCount + c.expStartTime -
    c.core.clock) rfl hplace (by omega) (by omega)

end Experiment

end Mutated.Ports.Load
