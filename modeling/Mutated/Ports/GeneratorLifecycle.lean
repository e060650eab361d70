import Mutated.Ports.GeneratorLockstep
import Mutated.Ports.SockPoints

/-!
# The life of a request

A request is made, its last byte is accepted, and its response arrives; at
each of these moments the clock is read.  The trace has an event for each:
the callback point, the callback, and the response.

`Lifecycle` is the invariant.  It adds to the lockstep of the three rings that
a callback point lies behind the last byte of its request, that an outstanding
request is in one of two stages (`Stage`), and what the samples say (`Lived`).
It needs that fewer requests are outstanding than the rings hold: when the
ring of callback points is full no callback is called.

Where the server answers a request only after it received all its bytes, the
checks of the time stamps cannot fail.
-/

namespace Mutated.Ports

open Mutated.Verified.Circular
open Mutated.Verified.Exec
open Mutated.Verified.History
open Relation (ReflTransGen)

variable {X K : Type} {R C : ℕ+}

/-! ## Time stamps -/

/-- How often the clock was read: when a request was made, sent, or
answered. -/
def ticksOf (t : List Event) : Nat :=
  t.countP fun
    | .point _ _ => true
    | .txcb _ _ => true
    | .rxcb _ _ _ _ _ => true
    | _ => false

@[simp] theorem ticksOf_append (t u : List Event) :
    ticksOf (t ++ u) = ticksOf t + ticksOf u := List.countP_append

/-- An outstanding request: it was made and waits to be sent, or it was sent
as well. -/
inductive Stage (clk : Nat → Nat) (t : List Event) (k : Nat)
    (req : Request X K) : Prop
  | waiting (pre post : List Event) (n : Nat)
      (htrace : t = pre ++ .point k n :: post)
      (hstart : req.startTs = clk (ticksOf pre)) (hsent : req.sentTs = 0)
      (hpending : k ∉ firedPoints t)
  | stamped (pre mid post : List Event) (n : Nat)
      (htrace : t = (pre ++ .point k n :: mid) ++ .txcb k 0 :: post)
      (hstart : req.startTs = clk (ticksOf pre))
      (hsent : req.sentTs = clk (ticksOf (pre ++ .point k n :: mid)))

/-- The sample `d` of the `k`-th request: the times between it was made, sent
and answered. -/
def Lived (clk : Nat → Nat) (t : List Event) (k : Nat) (d : Sample) : Prop :=
  ∃ (pre mid rest post : List Event) (n : Nat) (segs : Segs) (ret : Nat),
    t = ((pre ++ .point k n :: mid) ++ .txcb k 0 :: rest) ++
      .rxcb k .hdr segs 0 ret :: post ∧
    d.queueUs = (clk (ticksOf (pre ++ .point k n :: mid)) -
      clk (ticksOf pre)) / 1000 ∧
    d.serviceUs = (clk (ticksOf ((pre ++ .point k n :: mid) ++
      .txcb k 0 :: rest)) - clk (ticksOf pre)) / 1000

namespace Stage

variable {clk : Nat → Nat} {t : List Event} {k : Nat} {req : Request X K}

theorem extend (h : Stage clk t k req) {es : List Event}
    (hes : k ∉ firedPoints es) : Stage clk (t ++ es) k req := by
  cases h with
  | waiting pre post n htrace hstart hsent hpending =>
      refine .waiting pre (post ++ es) n ?_ hstart hsent ?_
      · rw [htrace, List.append_assoc, List.cons_append]
      · rw [firedPoints_append, List.mem_append]
        exact fun h => h.elim hpending hes
  | stamped pre mid post n htrace hstart hsent =>
      refine .stamped pre mid (post ++ es) n ?_ hstart hsent
      rw [htrace, List.append_assoc, List.cons_append]

/-- A request whose callback was called was sent after it was made. -/
theorem lt_of_fired (hclk : StrictMono clk) (h : Stage clk t k req)
    (hfired : k ∈ firedPoints t) : req.startTs < req.sentTs := by
  cases h with
  | waiting pre post n htrace hstart hsent hpending =>
      exact absurd hfired hpending
  | stamped pre mid post n htrace hstart hsent =>
      rw [hstart, hsent, ticksOf_append]
      refine hclk ?_
      simp [ticksOf]

/-- The clock was read since the request was made. -/
theorem startTs_lt (hclk : StrictMono clk) (h : Stage clk t k req) :
    req.startTs < clk (ticksOf t) := by
  cases h with
  | waiting pre post n htrace hstart hsent hpending =>
      rw [hstart, htrace, ticksOf_append]
      exact hclk (by simp [ticksOf])
  | stamped pre mid post n htrace hstart hsent =>
      rw [hstart, htrace, List.append_assoc, ticksOf_append]
      exact hclk (by simp [ticksOf])

end Stage

theorem Lived.extend {clk : Nat → Nat} {t es : List Event} {k : Nat}
    {d : Sample} (h : Lived clk t k d) : Lived clk (t ++ es) k d := by
  obtain ⟨pre, mid, rest, post, n, segs, ret, htrace, hqueue, hservice⟩ := h
  refine ⟨pre, mid, rest, post ++ es, n, segs, ret, ?_, hqueue, hservice⟩
  rw [htrace, List.append_assoc, List.cons_append]

/-- A request is sent before it is answered. -/
theorem Lived.queueUs_le {clk : Nat → Nat} (hclk : Monotone clk)
    {t : List Event} {k : Nat} {d : Sample} (h : Lived clk t k d) :
    d.queueUs ≤ d.serviceUs := by
  obtain ⟨pre, mid, rest, post, n, segs, ret, htrace, hqueue, hservice⟩ := h
  rw [hqueue, hservice]
  refine Nat.div_le_div_right (Nat.sub_le_sub_right (hclk ?_) _)
  rw [ticksOf_append (pre ++ _)]
  exact Nat.le_add_right _ _

/-! ## The invariant -/

/-- Every header that was delivered was claimed. -/
private theorem mul_delivered_le (H : Nat) (t : List Event) :
    H * (delivered t).length ≤ claimed H t := by
  rw [claimed, ← length_returns]
  induction returns t with
  | nil => exact Nat.zero_le _
  | cons r rs ih =>
      simp only [List.length_cons, List.map_cons, List.sum_cons, Nat.mul_add,
        Nat.mul_one]
      omega

/-- Receiving inserts no point and transmits nothing. -/
theorem Queues.Points.rx {W : Type} {addr : Nat} {q q' : Queues W}
    (h : q.Points R) (hstep : Queues.RxStep C addr q q') : q'.Points R := by
  cases hstep with
  | recvd b bs hfit =>
      exact h.congr rfl rfl rfl (by simp [firedPoints])
        (by simp [positions_append, positions]) (by simp [accepted])
        (always_snoc.mpr ⟨h.timed, trivial⟩) (Nat.le_refl _)
  | skip op ops n hops hcb hlen hneed =>
      exact h.congr rfl rfl rfl rfl rfl rfl h.timed (Nat.le_refl _)
  | fire op ops cb r w hops hcb hpos hneed hcall =>
      exact h.congr rfl rfl rfl (by simp [firedPoints])
        (by simp [positions_append, positions]) (by simp [accepted])
        (always_snoc.mpr ⟨h.timed, trivial⟩) (Nat.le_refl _)
  | finish op ops hops hneed =>
      exact h.congr rfl rfl rfl rfl rfl rfl h.timed (Nat.le_refl _)

/-- The server answers with `H` bytes after it received all the `n` bytes of
the request. -/
def Answers (n H : Nat) (pre : List Event) : Event → Prop
  | .recvd bytes => (received pre).length + bytes.length ≤
      H * ((accepted pre).length / n)
  | _ => True

instance {n H : Nat} {pre : List Event} :
    (e : Event) → Decidable (Answers n H pre e)
  | .recvd _ => inferInstanceAs (Decidable (_ ≤ _))
  | .accepted _ => .isTrue trivial
  | .rxcb _ _ _ _ _ => .isTrue trivial
  | .txcb _ _ => .isTrue trivial
  | .point _ _ => .isTrue trivial
  | .sub _ _ => .isTrue trivial

/-- As many responses arrived as the points that were reached. -/
def Heard (n H : Nat) (t : List Event) : Prop :=
  Always (Answers n H) t → ∀ k, H * (k + 1) ≤ (received t).length →
    k ∈ firedPoints t

theorem Heard.extend {n H : Nat} {t es : List Event} (h : Heard n H t)
    (hes : received es = []) : Heard n H (t ++ es) := by
  intro hcausal k hk
  rw [received_append, hes, List.append_nil] at hk
  rw [firedPoints_append, List.mem_append]
  exact .inl (h hcausal.of_append k hk)

/-- **The invariant**, for requests of `n` bytes. -/
structure Lifecycle (clk : Nat → Nat) (P : Proto X) (n : Nat) (C : ℕ+)
    (addr : Nat) (sent : List (Sent X)) (lag : Nat)
    (q : Queues (World X K R)) : Prop
    extends Lockstep clk P C addr sent lag q where
  marks : q.Points R
  placed : positions 0 q.trace =
    (List.range sent.length).map fun k => n * (k + 1)
  stream : (accepted q.trace).length + q.wbuf.length = n * sent.length
  few : sent.length < q.answered + R
  behind : q.answered ≤ (firedPoints q.trace).length
  ticks : q.world.ticks = ticksOf q.trace
  stages : ∀ (k : Nat) (x : Sent X), q.answered ≤ k → sent[k]? = some x →
    Stage clk q.trace k (q.world.requests.buf (k % R))
  lived : ∀ (k : Nat) (d : Sample), q.world.done[k]? = some d →
    Lived clk q.trace k d
  heard : Heard n P.size q.trace

namespace Lifecycle

variable {clk : Nat → Nat} {P : Proto X} {addr n : Nat}
  {sent : List (Sent X)} {lag : Nat} {q q' : Queues (World X K R)}

/-- A new connection. -/
theorem init {s : Conn X K R C} (hsize : 0 < P.size)
    (rmem wmem : Nat → UInt8) (info : X) (client : K)
    (hs : s = connect addr rmem wmem info client) :
    Lifecycle clk P n C addr [] 0 s.view := by
  have hlock : Lockstep clk P C addr [] 0 s.view :=
    .init rmem wmem info client hs
  subst hs
  have hnone : ∀ {α : Type} {k : Nat} {x : α}, ([] : List α)[k]? ≠ some x :=
    fun h => by cases h
  refine ⟨hlock, ?_, rfl, rfl, ?_, Nat.le_refl 0, rfl,
    fun _ _ _ h => absurd h hnone, fun _ _ h => absurd h hnone, ?_⟩
  · exact ⟨rfl, rfl, rfl, Nat.zero_le _, fun _ => rfl, fun _ => rfl,
      fun _ => Nat.zero_le _, fun _ _ _ hpt => absurd hpt (by simp [
        Sock.view, connect, Sock.init]), always_nil _⟩
  · exact Nat.lt_of_lt_of_le R.pos (Nat.le_add_left _ _)
  · intro _ k hk
    have hzero : P.size * (k + 1) ≤ 0 := hk
    rw [Nat.le_zero, Nat.mul_eq_zero] at hzero
    omega

/-- A step that reads no clock and calls no callback. -/
private theorem quiet (h : Lifecycle clk P n C addr sent lag q)
    {es : List Event} (hlock : Lockstep clk P C addr sent lag q')
    (hmarks : q'.Points R) (hworld : q'.world = q.world)
    (htrace : q'.trace = q.trace ++ es)
    (hes : firedPoints es = [] ∧ (∀ a, positions a es = []) ∧
      ticksOf es = 0 ∧ delivered es = [])
    (hstream : (accepted q'.trace).length + q'.wbuf.length =
      (accepted q.trace).length + q.wbuf.length)
    (hheard : Heard n P.size (q.trace ++ es)) :
    Lifecycle clk P n C addr sent lag q' := by
  obtain ⟨hfired, hpositions, hticks, hdelivered⟩ := hes
  have hanswered : q'.answered = q.answered := by
    rw [Queues.answered, htrace, delivered_append, hdelivered,
      List.append_nil]
    rfl
  refine ⟨hlock, hmarks, ?_, ?_, ?_, ?_, ?_, ?_, ?_, htrace ▸ hheard⟩
  · rw [htrace, positions_append, hpositions, List.append_nil]
    exact h.placed
  · rw [hstream]
    exact h.stream
  · rw [hanswered]
    exact h.few
  · rw [hanswered, htrace, firedPoints_append, hfired, List.append_nil]
    exact h.behind
  · rw [hworld, htrace, ticksOf_append, hticks]
    exact h.ticks
  · rw [hanswered, hworld, htrace]
    intro k x hk hx
    exact (h.stages k x hk hx).extend (by simp [hfired])
  · rw [hworld, htrace]
    exact fun k d hd => (h.lived k d hd).extend

/-- Bytes arrive between two rounds of transmitting, when every point that was
reached has fired. -/
private theorem heard_recvd (hn : 0 < n) (hsize : 0 < P.size)
    (h : Lifecycle clk P n C addr sent lag q) (hcredit : q.credit = none)
    (bytes : List UInt8) : Heard n P.size (q.trace ++ [.recvd bytes]) := by
  intro hcausal k hk
  have hlen : (received (q.trace ++ [.recvd bytes])).length =
      (received q.trace).length + bytes.length := by
    rw [received_append, List.length_append]
    simp [received]
  have hlast : (received q.trace).length + bytes.length ≤
      P.size * ((accepted q.trace).length / n) := (always_snoc.mp hcausal).2
  rw [hlen] at hk
  have hsent : n * (k + 1) ≤ (accepted q.trace).length := by
    have hle := Nat.le_of_mul_le_mul_left (Nat.le_trans hk hlast) hsize
    rw [Nat.mul_comm]
    exact (Nat.le_div_iff_mul_le hn).mp hle
  have hmade : k < sent.length := by
    have hstream := h.stream
    have hle : n * (k + 1) ≤ n * sent.length := by omega
    exact Nat.le_of_mul_le_mul_left hle hn
  have hcount := congrArg List.length h.placed
  rw [List.length_map, List.length_range] at hcount
  have hplace : (positions 0 q.trace)[k]? = some (n * (k + 1)) := by
    rw [h.placed, List.getElem?_map, List.getElem?_range hmade]
    rfl
  rw [firedPoints_append, List.mem_append]
  refine .inl (h.marks.onTime hcredit ?_ k _ hplace hsent)
  have hfew := h.few
  have hbehind := h.behind
  omega

/-- A request with a later time of sending was stamped, because its point was
reached. -/
private theorem stamped_of_lt (h : Lifecycle clk P n C addr sent lag q)
    {x : Sent X} (hx : sent[q.answered]? = some x) {req : Request X K}
    (hreq : req = q.world.requests.buf (q.answered % R))
    (hlt : req.startTs < req.sentTs) :
    q.answered < (firedPoints q.trace).length ∧
      ∃ (pre mid rest : List Event) (m : Nat),
        q.trace = (pre ++ .point q.answered m :: mid) ++
          .txcb q.answered 0 :: rest ∧
        req.startTs = clk (ticksOf pre) ∧
        req.sentTs = clk (ticksOf (pre ++ .point q.answered m :: mid)) := by
  have hstage := h.stages q.answered x (Nat.le_refl _) hx
  rw [← hreq] at hstage
  cases hstage with
  | waiting pre post m htrace hstart hsent hpending => omega
  | stamped pre mid post m htrace hstart hsent =>
      refine ⟨?_, pre, mid, post, m, htrace, hstart, hsent⟩
      have hmem : q.answered ∈ firedPoints q.trace := by
        rw [htrace, firedPoints_append, List.mem_append]
        exact .inr List.mem_cons_self
      rwa [h.marks.fired, List.mem_range] at hmem

/-- **Every small step of the receive path keeps the invariant.** -/
theorem step_rx (hn : 0 < n) (hsize : 0 < P.size) (hcredit : q.credit = none)
    (h : Lifecycle clk P n C addr sent lag q)
    (hstep : Queues.RxStep C addr q q') :
    Lifecycle clk P n C addr sent lag q' := by
  have hlock := h.toLockstep.step_rx hsize hstep
  have hmarks := h.marks.rx hstep
  cases header_cases hsize h.framed.ops hstep with
  | recvd b bs =>
      exact h.quiet hlock hmarks rfl rfl
        ⟨rfl, fun _ => rfl, rfl, rfl⟩ (by simp [accepted])
        (h.heard_recvd hn hsize hcredit (b :: bs))
  | pass m ops hfresh hops hskip hlen =>
      exact h.quiet hlock hmarks rfl (List.append_nil _).symm
        ⟨rfl, fun _ => rfl, rfl, rfl⟩ rfl (h.heard.extend rfl)
  | finish ops hfresh hops hskip =>
      exact h.quiet hlock hmarks rfl (List.append_nil _).symm
        ⟨rfl, fun _ => rfl, rfl, rfl⟩ rfl (h.heard.extend rfl)
  | answer op ops cb r w hops hun hcb hlen hcall =>
      obtain ⟨x, req, f, waitUs, hx, hreq, hentry, hlt, hnow, hrespond, rfl⟩ :=
        h.answer hun hcb hlen hcall
      have hserial : op.serial = q.answered := (h.framed.head_serials hun).1
      generalize hsegs : segsAt C q.rhead (q.rbuf.take P.size) = segs at *
      have hgrown : (delivered (q.trace ++
          [.rxcb op.serial .hdr segs 0 r])).length = q.answered + 1 := by
        rw [delivered_append, List.length_append]
        rfl
      have hfired : firedPoints (q.trace ++
          [.rxcb op.serial .hdr segs 0 r]) = firedPoints q.trace := by
        simp [firedPoints]
      have haccepted : accepted (q.trace ++
          [.rxcb op.serial .hdr segs 0 r]) = accepted q.trace := by
        simp [accepted]
      have hticks : clk q.world.ticks = clk (ticksOf q.trace) := by
        rw [h.ticks]
      obtain ⟨hbehind, pre, mid, rest, m, htrace, hstart, hsent⟩ :=
        h.stamped_of_lt hx hreq hlt
      refine ⟨hlock, hmarks, ?_, ?_, ?_, ?_, ?_, ?_, ?_,
        h.heard.extend rfl⟩
      · show positions 0 (q.trace ++ [_]) = _
        rw [positions_append]
        exact (List.append_nil _).trans h.placed
      · show (accepted (q.trace ++ [_])).length + q.wbuf.length = _
        rw [haccepted]
        exact h.stream
      · show sent.length < (delivered _).length + R
        rw [hgrown]
        have := h.few
        omega
      · show (delivered _).length ≤ (firedPoints _).length
        rw [hgrown, hfired]
        exact hbehind
      · show q.world.ticks + 1 = ticksOf (q.trace ++ [_])
        rw [ticksOf_append, h.ticks]
        rfl
      · intro k y hk hy
        replace hk : (delivered _).length ≤ k := hk
        rw [hgrown] at hk
        exact (h.stages k y (by omega) hy).extend (by simp [firedPoints])
      · intro k d hd
        replace hd : (q.world.done ++ [_])[k]? = some d := hd
        rcases getElem?_snoc hd with hold | ⟨hlast, rfl⟩
        · exact (h.lived k d hold).extend
        · rw [hlast, h.reported, hserial]
          refine ⟨pre, mid, rest, [], m, segs, r, ?_, ?_, ?_⟩
          · rw [← htrace]
          · show (req.sentTs - req.startTs) / 1000 = _
            rw [hsent, hstart]
          · show (clk q.world.ticks - req.startTs) / 1000 = _
            rw [hticks, hstart, ← htrace]

/-- A callback point is reached, and its request stamped. -/
private theorem fired (h : Lifecycle clk P n C addr sent lag q)
    {pt : IOTx (World X K R)} {pts : List (IOTx (World X K R))}
    (hpts : q.txCbs = pt :: pts) (a b : Nat)
    (hlock : Lockstep clk P C addr sent lag q') (hmarks : q'.Points R)
    (hworld : q'.world = q.world.stamped (pt.serial % R)
      { q.world.requests.buf (pt.serial % R) with
        sentTs := clk q.world.ticks })
    (hwbuf : q'.wbuf = q.wbuf)
    (htrace : q'.trace = q.trace ++ [.txcb pt.serial 0, .sub a b]) :
    Lifecycle clk P n C addr sent lag q' := by
  have hserial : pt.serial = (firedPoints q.trace).length :=
    (h.marks.head_serials hpts).1
  have hpositions : positions 0 q'.trace = positions 0 q.trace := by
    rw [htrace]
    simp [positions_append, positions]
  have hanswered : q'.answered = q.answered := by
    rw [Queues.answered, htrace, delivered_append]
    exact congrArg List.length (List.append_nil _)
  have haccepted : accepted q'.trace = accepted q.trace := by
    rw [htrace]
    simp [accepted]
  refine ⟨hlock, hmarks, ?_, ?_, ?_, ?_, ?_, ?_, ?_,
    htrace ▸ h.heard.extend rfl⟩
  · rw [hpositions]
    exact h.placed
  · rw [haccepted, hwbuf]
    exact h.stream
  · rw [hanswered]
    exact h.few
  · rw [hanswered, htrace, firedPoints_append, List.length_append]
    have := h.behind
    omega
  · rw [hworld, htrace, ticksOf_append]
    show q.world.ticks + 1 = _
    rw [h.ticks]
    rfl
  · rw [hanswered, hworld]
    intro k x hk hx
    have hstage := h.stages k x hk hx
    have hlen := (List.getElem?_eq_some_iff.mp hx).1
    simp only [World.stamped, blit_singleton]
    by_cases hsame : k = pt.serial
    · subst hsame
      rw [if_pos rfl]
      -- its point was pending, so it was not stamped before
      have hnot : pt.serial ∉ firedPoints q.trace := by
        rw [h.marks.fired, List.mem_range]
        omega
      cases hstage with
      | waiting pre post m hsplit hstart hsent hpending =>
          refine .stamped pre post [.sub a b] m ?_ hstart ?_
          · rw [htrace, hsplit]
          · show clk q.world.ticks = _
            rw [h.ticks, hsplit]
      | stamped pre mid post m hsplit hstart hsent =>
          refine absurd ?_ hnot
          rw [hsplit, firedPoints_append, List.mem_append]
          exact .inr List.mem_cons_self
    · have hslot : k % R ≠ pt.serial % R := by
        have hbehind := h.behind
        have hfew := h.few
        have hcount := h.marks.count
        rw [h.placed, List.length_map, List.length_range, hpts,
          List.length_cons] at hcount
        rcases Nat.lt_or_gt_of_ne hsame with hlt | hgt
        · exact mod_ne hlt (by omega)
        · exact (mod_ne hgt (by omega)).symm
      rw [if_neg hslot, htrace]
      exact hstage.extend (by simpa [firedPoints] using hsame)
  · rw [hworld, htrace]
    exact fun k d hd => (h.lived k d hd).extend

/-- **Every small step of the transmit path keeps the invariant.** -/
theorem step_tx (h : Lifecycle clk P n C addr sent lag q)
    (hstep : Queues.TxStep R addr q q') :
    Lifecycle clk P n C addr sent lag q' := by
  have hlock := h.toLockstep.step_tx hstep
  have hmarks := h.marks.step hstep
  cases hstep with
  | accepted k hcredit hbusy hk =>
      refine h.quiet hlock hmarks rfl rfl ⟨rfl, fun _ => rfl, rfl, rfl⟩ ?_
        (h.heard.extend rfl)
      simp only [accepted_append, List.length_append, List.length_drop]
      have htake : (accepted [.accepted (q.wbuf.take k)]).length = k := by
        simp [accepted, Nat.min_eq_left hk]
      omega
  | fire c pt pts f w hcredit hpts hroom hlen hcb hcall =>
      obtain ⟨hf, hdata⟩ := h.points pt
        (by rw [hpts]; exact List.mem_cons_self)
      cases hcb.symm.trans hf
      rw [hdata, sentRequest_ok h.sock] at hcall
      cases hcall
      exact h.fired hpts q.txOut pt.len hlock hmarks rfl rfl rfl
  | pay c pt pts hcredit hpts hroom hlen =>
      exact h.quiet hlock hmarks rfl rfl ⟨rfl, fun _ => rfl, rfl, rfl⟩
        (by simp [accepted]) (h.heard.extend rfl)
  | spent c hcredit hpts =>
      exact h.quiet hlock hmarks rfl (List.append_nil _).symm
        ⟨rfl, fun _ => rfl, rfl, rfl⟩ rfl (h.heard.extend rfl)
  | overrun c hcredit hfull =>
      exact h.quiet hlock hmarks rfl (List.append_nil _).symm
        ⟨rfl, fun _ => rfl, rfl, rfl⟩ rfl (h.heard.extend rfl)

/-- The point of a request lies behind its last byte. -/
private theorem submitted_marks (h : Lifecycle clk P n C addr sent 0 q)
    (hn : 0 < n) (hcredit : q.credit = none) (hroom : q.txCbs.length < R)
    (info : X) (measure : Bool) (cb : RequestCB K) {bytes : List UInt8}
    (hlen : bytes.length = n) :
    (q.submitted clk P info measure cb bytes sent.length).Points R := by
  have hcount : (positions 0 q.trace).length = sent.length := by
    rw [h.placed, List.length_map, List.length_range]
  have hwritten : Queues.Points R { q with wbuf := q.wbuf ++ bytes } :=
    h.marks.congr rfl rfl rfl rfl rfl rfl h.marks.timed
      (by rw [List.length_append]; omega)
  have hbusy : q.wbuf ++ bytes ≠ [] := by
    intro hnil
    have hzero := congrArg List.length hnil
    rw [List.length_append, hlen] at hzero
    exact absurd hzero (by simp only [List.length_nil]; omega)
  have hinserted := hwritten.inserted hcredit hroom hbusy
    (some (sentRequest clk P)) (some q.world.requests.tail) _ rfl
  rw [← hcount]
  exact hinserted.congr rfl rfl rfl rfl rfl rfl hinserted.timed
    (Nat.le_refl _)

/-- **A request is made.** -/
theorem submit (h : Lifecycle clk P n C addr sent 0 q) (hn : 0 < n)
    (hcredit : q.credit = none) (hfew : q.world.requests.used + 1 < R)
    (hroom : q.txCbs.length < R) (info : X) (measure : Bool)
    (cb : RequestCB K) {bytes : List UInt8} (hlen : bytes.length = n) :
    Lifecycle clk P n C addr
      (sent ++ [⟨q.world.requests.tail, info, measure⟩]) 1
      (q.submitted clk P info measure cb bytes sent.length) := by
  have hspace : 0 < q.world.requests.space := by
    have : q.world.requests.space = R - q.world.requests.used := rfl
    omega
  have hlock := h.toLockstep.submit hspace info measure cb bytes
  have hmarks := h.submitted_marks hn hcredit hroom info measure cb hlen
  have hsent : (sent ++ [(⟨q.world.requests.tail, info, measure⟩ :
      Sent X)]).length = sent.length + 1 := by simp
  obtain ⟨es, hes, htrace⟩ :=
    q.submitted_trace clk P info measure cb bytes sent.length
  have hquiet : firedPoints es = [] ∧ accepted es = [] ∧ ticksOf es = 0 ∧
      delivered es = [] ∧ received es = [] ∧ ∀ a, positions a es = [] := by
    rcases hes with rfl | ⟨a, b, rfl⟩
    · exact ⟨rfl, rfl, rfl, rfl, rfl, fun _ => rfl⟩
    · exact ⟨rfl, rfl, rfl, rfl, rfl, fun _ => rfl⟩
  obtain ⟨hfired, haccepted, hticks, hdelivered, hreceived, hpositions⟩ :=
    hquiet
  have hanswered : (q.submitted clk P info measure cb bytes
      sent.length).answered = q.answered := by
    rw [Queues.answered, htrace, delivered_append, delivered_append,
      hdelivered, List.append_nil]
    exact congrArg List.length (List.append_nil _)
  have hspent := h.used
  refine ⟨hlock, hmarks, ?_, ?_, ?_, ?_, ?_, ?_, ?_, ?_⟩
  · have hstream := h.stream
    rw [htrace, hsent, List.range_succ, List.map_append, positions_append,
      positions_append, hpositions, h.placed, accepted_append, haccepted]
    simp only [List.append_nil, positions, List.map_cons, List.map_nil,
      List.length_append, Nat.zero_add, Nat.mul_add, Nat.mul_one]
    congr 2
    omega
  · have hstream := h.stream
    have hall : accepted (q.submitted clk P info measure cb bytes
        sent.length).trace = accepted q.trace := by
      rw [htrace, accepted_append, accepted_append, haccepted,
        List.append_nil]
      exact List.append_nil _
    rw [hall, hsent, Nat.mul_add]
    show _ + (q.wbuf ++ bytes).length = _
    rw [List.length_append]
    omega
  · rw [hanswered, hsent]
    omega
  · rw [hanswered, htrace, firedPoints_append, firedPoints_append,
      List.length_append, List.length_append]
    have := h.behind
    omega
  · rw [htrace, ticksOf_append, ticksOf_append, hticks]
    show q.world.ticks + 1 = _
    rw [h.ticks]
    rfl
  · rw [hanswered]
    intro k x hk hx
    show Stage clk _ k ((q.world.submitted clk info measure cb).requests.buf _)
    have hk' := (List.getElem?_eq_some_iff.mp hx).1
    rw [hsent] at hk'
    rw [Lockstep.submitted_buf h.wf, h.tail]
    by_cases hnew : k = sent.length
    · rw [hnew, if_pos rfl, htrace]
      refine .waiting (q.trace ++ es) [] _ rfl ?_ rfl ?_
      · show clk q.world.ticks = _
        rw [h.ticks, ticksOf_append, hticks]
        rfl
      · rw [firedPoints_append, firedPoints_append, hfired, List.append_nil]
        intro hmem
        have hpast : sent.length ∈ firedPoints q.trace := by
          simpa [firedPoints] using hmem
        rw [h.marks.fired, List.mem_range] at hpast
        have hcount := h.marks.count
        rw [h.placed, List.length_map, List.length_range] at hcount
        omega
    · have hslot : k % R ≠ sent.length % R :=
        mod_ne (by omega) (by omega)
      rw [if_neg hslot, htrace, List.append_assoc]
      refine (h.stages k x hk ?_).extend ?_
      · rwa [List.getElem?_append_left (by omega)] at hx
      · rw [firedPoints_append, hfired]
        exact List.not_mem_nil
  · rw [htrace, List.append_assoc]
    exact fun k d hd => (h.lived k d hd).extend
  · rw [htrace]
    exact (h.heard.extend hreceived).extend rfl

/-- **The operation of the request is queued.** -/
theorem await (hsize : 0 < P.size) {x : Sent X}
    (h : Lifecycle clk P n C addr (sent ++ [x]) 1 q) :
    Lifecycle clk P n C addr (sent ++ [x]) 0
      (q.queued [awaits K R clk P x.slot sent.length]) :=
  ⟨h.toLockstep.await hsize,
    h.marks.congr rfl rfl rfl rfl rfl rfl h.marks.timed (Nat.le_refl _),
    h.placed, h.stream, h.few, h.behind, h.ticks, h.stages, h.lived, h.heard⟩

/-- **No check fails** where the server answers only what it received. -/
theorem no_rx_fault (hclk : StrictMono clk)
    (hrespond : ∀ info us segs e, P.respond info us segs ≠ .error e)
    (h : Lifecycle clk P n C addr sent lag q)
    (hcausal : Always (Answers n P.size) q.trace) {e : Exn}
    {w : World X K R} : ¬ Queues.RxFault C addr q e w := by
  intro hfault
  obtain ⟨op, ops, x, hun, hops, hlen, hx, hentry, hexn⟩ := h.rx_fault hfault
  have hstage := h.stages q.answered x (Nat.le_refl _) hx
  -- the header is the next one in the stream
  have hhead : op.hdrlen ≠ 0 := by
    intro hzero
    rw [hops, unanswered, if_pos hzero] at hun
    exact absurd (congrArg List.length hun) (by simp)
  obtain ⟨eaten, hclaimed, hle, hrbuf, -⟩ := h.framed.eaten
  have hskip : skipping q.rxCbs = 0 := by
    rw [hops, skipping, if_neg hhead]
  have hdone : P.size * q.answered ≤ claimed P.size q.trace :=
    mul_delivered_le P.size q.trace
  have harrived : P.size * (q.answered + 1) ≤ (received q.trace).length := by
    rw [hrbuf, List.length_drop] at hlen
    rw [Nat.mul_add, Nat.mul_one]
    omega
  have hfired := h.heard hcausal q.answered harrived
  cases hexn with
  | notSent hsent =>
      have := hstage.lt_of_fired hclk hfired
      omega
  | early hnow =>
      have := hstage.startTs_lt hclk
      rw [h.ticks] at hnow
      omega
  | unread hread => exact hrespond _ _ _ _ hread
  | noCallback hcb => exact hentry.cb hcb

end Lifecycle

/-- **Every small step of a connection** carries the invariant on, as long as
fewer requests are outstanding than the rings hold. -/
theorem lifecycle_carried (clk : Nat → Nat) (P : Proto X)
    (hsize : 0 < P.size) (addr : Nat) {n : Nat} (hn : 0 < n) :
    Carried (R := R) (K := K) clk P C addr (fun _ => n)
      (fun q _ => q.world.requests.used + 1 < R)
      (Lifecycle clk P n C addr) where
  wf := fun h => h.wf
  rx := fun hcredit h hstep => h.step_rx hn hsize hcredit hstep
  tx := fun h hstep => h.step_tx hstep
  submit := fun measure cb _ hcredit h hfew _ hroom hlen =>
    h.submit hn hcredit hfew hroom _ measure cb hlen
  await := fun h => h.await hsize

end Mutated.Ports
