import Mutated.Verified.History
import Mutated.Ports.SockProgress

/-!
# Operations whose callback decides the rest

Every generator reads its responses in the same way: one operation for each
request, with a header of a fixed size, no body callback, and a header
callback that returns how many bytes follow.  The queue of such operations
has at most one that is past its header, the first.

`header_cases` says once what a small step of the receive path can do to such
a queue.  `Framed` is the alignment that follows: the bytes consumed are, at
any time, the headers handed out with the bytes their callbacks asked to
skip, less what is still to be skipped.  So the `k`-th callback is handed the
bytes at the place that the returns of the callbacks before it add up to,
whatever the callbacks do.
-/

namespace Mutated.Ports

open Mutated.Verified.Circular
open Mutated.Verified.Exec
open Mutated.Verified.History
open Relation (ReflTransGen)

variable {W : Type}

/-! ## The queue of operations -/

/-- The operations whose header has not arrived: all but a first one that is
past it. -/
def unanswered : List (IORx W) → List (IORx W)
  | [] => []
  | op :: ops => if op.hdrlen = 0 then ops else op :: ops

/-- The bytes a first operation past its header still skips. -/
def skipping : List (IORx W) → Nat
  | [] => 0
  | op :: _ => if op.hdrlen = 0 then op.bodylen else 0

/-- An operation for a header of `H` bytes that has not started. -/
structure IORx.Fresh (H : Nat) (op : IORx W) : Prop where
  hdrlen : op.hdrlen = H
  hdrcb : op.hdrcb ≠ none

/-- A queue of operations for headers of `H` bytes. -/
structure HeaderOnly (H : Nat) (ops : List (IORx W)) : Prop where
  fresh : ∀ op ∈ unanswered ops, op.Fresh H
  bodycb : ∀ op ∈ ops, op.bodycb = none

theorem HeaderOnly.nil (H : Nat) : HeaderOnly H ([] : List (IORx W)) :=
  ⟨fun _ h => absurd h List.not_mem_nil, fun _ h => absurd h List.not_mem_nil⟩

theorem unanswered_append_of_ne {ops ops' : List (IORx W)} (h : ops ≠ []) :
    unanswered (ops ++ ops') = unanswered ops ++ ops' := by
  cases ops with
  | nil => exact absurd rfl h
  | cons op ops =>
      simp only [List.cons_append, unanswered]
      split <;> rfl

theorem skipping_append_of_ne {ops ops' : List (IORx W)} (h : ops ≠ []) :
    skipping (ops ++ ops') = skipping ops := by
  cases ops with
  | nil => exact absurd rfl h
  | cons op ops => rfl

/-- A fresh operation joins the queue at its end. -/
theorem unanswered_concat {H : Nat} (hH : 0 < H) {op : IORx W}
    (hop : op.Fresh H) (ops : List (IORx W)) :
    unanswered (ops ++ [op]) = unanswered ops ++ [op] := by
  cases ops with
  | nil =>
      have hlen := hop.hdrlen
      exact if_neg (by omega)
  | cons op' ops => exact unanswered_append_of_ne (List.cons_ne_nil _ _)

theorem skipping_concat {H : Nat} (hH : 0 < H) {op : IORx W}
    (hop : op.Fresh H) (ops : List (IORx W)) :
    skipping (ops ++ [op]) = skipping ops := by
  cases ops with
  | nil =>
      have hlen := hop.hdrlen
      exact if_neg (by omega)
  | cons op' ops => exact skipping_append_of_ne (List.cons_ne_nil _ _)

theorem HeaderOnly.concat {H : Nat} (hH : 0 < H) {ops : List (IORx W)}
    (h : HeaderOnly H ops) {op : IORx W} (hop : op.Fresh H)
    (hbody : op.bodycb = none) : HeaderOnly H (ops ++ [op]) := by
  constructor
  · rw [unanswered_concat hH hop]
    intro op' hop'
    rcases List.mem_append.mp hop' with hold | hnew
    · exact h.fresh op' hold
    · rw [List.mem_singleton.mp hnew]
      exact hop
  · intro op' hop'
    rcases List.mem_append.mp hop' with hold | hnew
    · exact h.bodycb op' hold
    · rw [List.mem_singleton.mp hnew]
      exact hbody

/-! ## What a small step does -/

/-- The small steps of the receive path on such a queue. -/
inductive HeaderStep (H C addr : Nat) (q : Queues W) : Queues W → Prop
  | recvd (b : UInt8) (bs : List UInt8) :
      HeaderStep H C addr q { q with
        rbuf := q.rbuf ++ b :: bs, trace := q.trace ++ [.recvd (b :: bs)] }
  /-- Some of the bytes to skip are skipped. -/
  | pass (n : Nat) (ops : List (IORx W)) (hfresh : HeaderOnly H ops)
      (hops : unanswered ops = unanswered q.rxCbs)
      (hskip : skipping ops + n = skipping q.rxCbs)
      (hlen : n ≤ q.rbuf.length) :
      HeaderStep H C addr q { q.eat C n with rxCbs := ops }
  /-- The first operation has nothing left to skip. -/
  | finish (ops : List (IORx W)) (hfresh : HeaderOnly H ops)
      (hops : unanswered ops = unanswered q.rxCbs)
      (hskip : skipping ops = skipping q.rxCbs) :
      HeaderStep H C addr q { q with rxCbs := ops }
  /-- A header is handed to its callback. -/
  | answer (op : IORx W) (ops : List (IORx W)) (cb : RxCB W) (r : Nat) (w : W)
      (hops : q.rxCbs = op :: ops) (hun : unanswered q.rxCbs = op :: ops)
      (hcb : op.hdrcb = some cb) (hlen : H ≤ q.rbuf.length)
      (hcall : cb addr op.cbdata
        (segsAt C q.rhead (q.rbuf.take H)) 0 q.world = .ok r w) :
      HeaderStep H C addr q { q.eat C H with
        rxCbs := { op with hdrlen := 0, bodylen := r } :: ops
        world := w
        trace := q.trace ++ [.rxcb op.serial .hdr
          (segsAt C q.rhead (q.rbuf.take H)) 0 r] }

/-- An operation still in its header is fresh. -/
private theorem fresh_of_hdrlen {H : Nat} {op : IORx W} {ops : List (IORx W)}
    (h : HeaderOnly H (op :: ops)) (hpos : 0 < op.hdrlen) : op.Fresh H := by
  refine h.fresh op ?_
  rw [unanswered, if_neg (by omega)]
  exact List.mem_cons_self

/-- A queue in which every header is still to come. -/
private theorem unanswered_of_fresh {H : Nat} (hH : 0 < H)
    {ops : List (IORx W)} (h : ∀ op ∈ ops, op.Fresh H) :
    unanswered ops = ops ∧ skipping ops = 0 := by
  cases ops with
  | nil => exact ⟨rfl, rfl⟩
  | cons op ops =>
      have hlen := (h op List.mem_cons_self).hdrlen
      exact ⟨if_neg (by omega), if_neg (by omega)⟩

/-- What follows an operation past its header is still to be answered. -/
theorem HeaderOnly.tail {H : Nat} (hH : 0 < H) {op : IORx W}
    {ops : List (IORx W)} (h : HeaderOnly H (op :: ops))
    (hzero : op.hdrlen = 0) :
    HeaderOnly H ops ∧ unanswered ops = ops ∧ skipping ops = 0 := by
  have hrest : ∀ op' ∈ ops, op'.Fresh H := by
    intro op' hop'
    refine h.fresh op' ?_
    rw [unanswered, if_pos hzero]
    exact hop'
  obtain ⟨hall, hnone⟩ := unanswered_of_fresh hH hrest
  refine ⟨⟨?_, fun op' hop' => h.bodycb op' (.tail _ hop')⟩, hall, hnone⟩
  rw [hall]
  exact hrest

/-- **What a small step of the receive path does** to a queue of operations
for headers. -/
theorem header_cases {H C addr : Nat} (hH : 0 < H) {q q' : Queues W}
    (h : HeaderOnly H q.rxCbs) (hstep : Queues.RxStep C addr q q') :
    HeaderStep H C addr q q' := by
  cases hstep with
  | recvd b bs hfit => exact .recvd b bs
  | skip op ops n hops hcb hlen hneed =>
      rw [hops] at h
      by_cases hpos : 0 < op.hdrlen
      · rw [IORx.cb, if_pos hpos] at hcb
        exact absurd hcb (fresh_of_hdrlen h hpos).hdrcb
      · have hzero : op.hdrlen = 0 := by omega
        obtain ⟨hrest, hall, hnone⟩ := h.tail hH hzero
        rw [IORx.need, if_neg hpos] at hneed
        rw [IORx.skip, if_neg hpos]
        refine .pass n _ ⟨?_, ?_⟩ ?_ ?_ hlen
        · rw [unanswered, if_pos hzero, ← hall]
          exact hrest.fresh
        · intro op' hop'
          rcases List.mem_cons.mp hop' with rfl | hold
          · exact h.bodycb op List.mem_cons_self
          · exact hrest.bodycb op' hold
        · rw [hops, unanswered, unanswered, if_pos hzero, if_pos hzero]
        · rw [hops, skipping, skipping, if_pos hzero, if_pos hzero]
          exact Nat.sub_add_cancel hneed
  | fire op ops cb r w hops hcb hpos hneed hcall =>
      rw [hops] at h
      by_cases hhdr : 0 < op.hdrlen
      · have hH' := (fresh_of_hdrlen h hhdr).hdrlen
        rw [IORx.cb, if_pos hhdr] at hcb
        have hneedH : op.need = H := by rw [IORx.need, if_pos hhdr, hH']
        have hphase : op.phase = .hdr := if_pos hhdr
        have hfire : op.fire r = { op with hdrlen := 0, bodylen := r } :=
          if_pos hhdr
        rw [hneedH] at hneed hcall
        rw [hneedH, hphase, hfire]
        refine .answer op ops cb r w hops ?_ hcb hneed hcall
        rw [hops, unanswered, if_neg (by omega)]
      · have hbody := h.bodycb op List.mem_cons_self
        rw [IORx.cb, if_neg hhdr, hbody] at hcb
        cases hcb
  | finish op ops hops hneed =>
      have hzero : op.hdrlen = 0 := by
        unfold IORx.need at hneed
        split at hneed <;> omega
      have hbody : op.bodylen = 0 := by
        rw [IORx.need, if_neg (by omega)] at hneed
        exact hneed
      rw [hops] at h
      obtain ⟨hrest, hall, hnone⟩ := h.tail hH hzero
      refine .finish ops hrest ?_ ?_
      · rw [hops, hall, unanswered, if_pos hzero]
      · rw [hops, hnone, skipping, if_pos hzero, hbody]

/-! ## Reading a trace -/

/-- What the callbacks returned. -/
def returns (trace : List Event) : List Nat :=
  trace.filterMap fun
    | .rxcb _ _ _ _ ret => some ret
    | _ => none

@[simp] theorem returns_append (t u : List Event) :
    returns (t ++ u) = returns t ++ returns u := List.filterMap_append ..

/-- The place of the `k`-th header, after `k` headers and the bytes skipped
behind each. -/
def frameAt (H : Nat) (rets : List Nat) (k : Nat) : Nat :=
  ((rets.take k).map (H + ·)).sum

/-- The bytes that belong to the headers so far. -/
def claimed (H : Nat) (trace : List Event) : Nat :=
  ((returns trace).map (H + ·)).sum

@[simp] theorem claimed_append (H : Nat) (t u : List Event) :
    claimed H (t ++ u) = claimed H t + claimed H u := by
  simp [claimed]

/-- What an event says about framing: a callback is given the header that
follows what the callbacks before it were given or asked to skip. -/
def AtFrame (H C : Nat) (pre : List Event) : Event → Prop
  | .rxcb serial phase segs status _ =>
      serial = (delivered pre).length ∧ phase = .hdr ∧ status = 0 ∧
        claimed H pre + H ≤ (received pre).length ∧
        segs = segsAt C (claimed H pre % C)
          (((received pre).drop (claimed H pre)).take H)
  | _ => True

theorem length_returns (t : List Event) :
    (returns t).length = (delivered t).length := by
  induction t with
  | nil => rfl
  | cons e t ih =>
      cases e <;> simp_all [returns, delivered]

theorem frameAt_append {H : Nat} {rets more : List Nat} {k : Nat}
    (hk : k ≤ rets.length) :
    frameAt H (rets ++ more) k = frameAt H rets k := by
  rw [frameAt, List.take_append_of_le_length hk]
  rfl

theorem frameAt_length (H : Nat) (t : List Event) :
    frameAt H (returns t) (delivered t).length = claimed H t := by
  rw [frameAt, List.take_of_length_le (by rw [length_returns])]
  rfl

/-- **The `k`-th callback** of a framed history is given the `k`-th frame. -/
theorem delivered_of_framed {H C : Nat} (t : List Event) :
    Always (AtFrame H C) t → ∀ {k : Nat} {e : Event},
    (delivered t)[k]? = some e →
    ∃ ret, (returns t)[k]? = some ret ∧
      frameAt H (returns t) k + H ≤ (received t).length ∧
      e = .rxcb k .hdr (segsAt C (frameAt H (returns t) k % C)
        (((received t).drop (frameAt H (returns t) k)).take H)) 0 ret := by
  induction t using List.reverseRecOn with
  | nil =>
      intro _ k e hk
      cases hk
  | append_singleton t x ih =>
      intro h k e hk
      obtain ⟨hpast, hlast⟩ := always_snoc.mp h
      have hold : (delivered t)[k]? = some e →
          ∃ ret, (returns (t ++ [x]))[k]? = some ret ∧
            frameAt H (returns (t ++ [x])) k + H ≤
              (received (t ++ [x])).length ∧
            e = .rxcb k .hdr (segsAt C (frameAt H (returns (t ++ [x])) k % C)
              (((received (t ++ [x])).drop
                (frameAt H (returns (t ++ [x])) k)).take H)) 0 ret := by
        intro hk
        obtain ⟨ret, hret, hlen, he⟩ := ih hpast hk
        have hlt := (List.getElem?_eq_some_iff.mp hret).1
        rw [returns_append, received_append, frameAt_append (by omega),
          List.getElem?_append_left hlt, List.length_append]
        refine ⟨ret, hret, by omega, ?_⟩
        rw [List.drop_append_of_le_length (by omega),
          List.take_append_of_le_length (by rw [List.length_drop]; omega)]
        exact he
      rw [delivered_append] at hk
      cases x with
      | rxcb serial phase segs status ret =>
          rcases Nat.lt_or_ge k (delivered t).length with hlt | hge
          · rw [List.getElem?_append_left hlt] at hk
            exact hold hk
          · have hzero : k = (delivered t).length := by
              have := (List.getElem?_eq_some_iff.mp hk).1
              simp only [List.length_append, delivered, List.filter_cons,
                List.filter_nil, if_true, List.length_singleton] at this hge ⊢
              omega
            obtain ⟨hserial, hphase, hstatus, hlen, hsegs⟩ := hlast
            have hframe : frameAt H (returns (t ++
                [.rxcb serial phase segs status ret])) k = claimed H t := by
              rw [returns_append, frameAt_append (by
                rw [length_returns]; omega), hzero, frameAt_length]
            have hsame : received (t ++
                [.rxcb serial phase segs status ret]) = received t := by
              simp [received]
            rw [hframe, hsame]
            refine ⟨ret, ?_, hlen, ?_⟩
            · rw [returns_append, List.getElem?_append_right (by
                rw [length_returns]; omega), length_returns, hzero,
                Nat.sub_self]
              rfl
            · rw [List.getElem?_append_right hge, hzero, Nat.sub_self] at hk
              rw [← hsegs, hzero, ← hserial]
              subst hphase hstatus
              exact (Option.some.inj hk).symm
      | recvd bytes => exact hold (by simpa [delivered] using hk)
      | accepted bytes => exact hold (by simpa [delivered] using hk)
      | txcb serial status => exact hold (by simpa [delivered] using hk)
      | point serial ahead => exact hold (by simpa [delivered] using hk)
      | sub a b => exact hold (by simpa [delivered] using hk)

/-! ## The invariant -/

/-- **The invariant of framing.**  `eaten` is the number of bytes consumed:
those of the headers so far, less what is still to be skipped. -/
structure Framed (H C : Nat) (q : Queues W) : Prop where
  ops : HeaderOnly H q.rxCbs
  eaten : ∃ n, claimed H q.trace = n + skipping q.rxCbs ∧
    n ≤ (received q.trace).length ∧ q.rbuf = (received q.trace).drop n ∧
    q.rhead = n % C
  serials : (unanswered q.rxCbs).map IORx.serial =
    List.range' (delivered q.trace).length (unanswered q.rxCbs).length
  framed : Always (AtFrame H C) q.trace

theorem Framed.init {H C : Nat} {q : Queues W} (hops : q.rxCbs = [])
    (hhead : q.rhead = 0) (hrbuf : q.rbuf = []) (htrace : q.trace = []) :
    Framed H C q where
  ops := by
    rw [hops]
    exact .nil H
  eaten := by
    rw [hops, hhead, hrbuf, htrace]
    exact ⟨0, rfl, Nat.le_refl _, rfl, (Nat.zero_mod C).symm⟩
  serials := by
    rw [hops]
    rfl
  framed := by
    rw [htrace]
    exact always_nil _

namespace Framed

variable {H C : Nat} {q : Queues W}

/-- The next header is for the operation of its number. -/
theorem head_serials (h : Framed H C q) {op : IORx W} {ops : List (IORx W)}
    (hun : unanswered q.rxCbs = op :: ops) :
    op.serial = (delivered q.trace).length ∧ ops.map IORx.serial =
      List.range' ((delivered q.trace).length + 1) ops.length := by
  have hserials := h.serials
  rw [hun, List.map_cons, List.length_cons, List.range'_succ] at hserials
  exact List.cons.inj hserials

/-- Only what the receive path works on matters. -/
theorem congr (h : Framed H C q) {q' : Queues W}
    (hops : q'.rxCbs = q.rxCbs) (hhead : q'.rhead = q.rhead)
    (hrbuf : q'.rbuf = q.rbuf)
    (hreceived : received q'.trace = received q.trace)
    (hreturns : returns q'.trace = returns q.trace)
    (hdelivered : delivered q'.trace = delivered q.trace)
    (hframed : Always (AtFrame H C) q'.trace) : Framed H C q' := by
  refine ⟨?_, ?_, ?_, hframed⟩
  · rw [hops]
    exact h.ops
  · rw [hops, hhead, hrbuf, hreceived, claimed, hreturns]
    exact h.eaten
  · rw [hops, hdelivered]
    exact h.serials

/-- A fresh operation is queued. -/
theorem queued (h : Framed H C q) (hH : 0 < H) {op : IORx W}
    (hop : op.Fresh H) (hbody : op.bodycb = none)
    (hserial : op.serial =
      (delivered q.trace).length + (unanswered q.rxCbs).length) :
    Framed H C (q.queued [op]) := by
  refine ⟨h.ops.concat hH hop hbody, ?_, ?_, h.framed⟩
  · obtain ⟨n, hn⟩ := h.eaten
    refine ⟨n, ?_⟩
    rw [Queues.queued, skipping_concat hH hop]
    exact hn
  · rw [Queues.queued, unanswered_concat hH hop, List.map_append,
      List.length_append, h.serials, List.length_singleton,
      List.range'_1_concat, ← hserial]
    rfl

/-- **Every small step of the receive path keeps the invariant.** -/
theorem step {addr : Nat} {q' : Queues W} (h : Framed H C q) (hH : 0 < H)
    (hstep : Queues.RxStep C addr q q') : Framed H C q' := by
  obtain ⟨n, hclaimed, hle, hrbuf, hhead⟩ := h.eaten
  cases header_cases hH h.ops hstep with
  | recvd b bs =>
      refine ⟨h.ops, ⟨n, ?_, ?_, ?_, hhead⟩, ?_, ?_⟩
      · simpa [claimed, returns] using hclaimed
      · rw [received_append, List.length_append]
        omega
      · rw [received_append, List.drop_append_of_le_length hle, ← hrbuf]
        simp [received]
      · simpa [delivered] using h.serials
      · exact always_snoc.mpr ⟨h.framed, trivial⟩
  | pass k ops hfresh hops hskip hlen =>
      have hlen' := congrArg List.length hrbuf
      rw [List.length_drop] at hlen'
      refine ⟨hfresh, ⟨n + k, ?_, ?_, ?_, ?_⟩, ?_, h.framed⟩
      · show claimed H q.trace = n + k + skipping ops
        omega
      · show n + k ≤ (received q.trace).length
        omega
      · show q.rbuf.drop k = (received q.trace).drop (n + k)
        rw [hrbuf, List.drop_drop]
      · show (q.rhead + k) % C = (n + k) % C
        rw [hhead, Nat.mod_add_mod]
      · show (unanswered ops).map IORx.serial = _
        rw [hops]
        exact h.serials
  | finish ops hfresh hops hskip =>
      refine ⟨hfresh, ⟨n, ?_, hle, hrbuf, hhead⟩, ?_, h.framed⟩
      · show claimed H q.trace = n + skipping ops
        omega
      · show (unanswered ops).map IORx.serial = _
        rw [hops]
        exact h.serials
  | answer op ops cb r w hops hun hcb hlen hcall =>
      have hlen' := congrArg List.length hrbuf
      rw [List.length_drop] at hlen'
      have hfresh : ∀ op' ∈ op :: ops, op'.Fresh H := by
        rw [← hun]
        exact h.ops.fresh
      have hskip : skipping q.rxCbs = 0 := by
        have hhdr := (hfresh op List.mem_cons_self).hdrlen
        rw [hops]
        exact if_neg (by omega)
      have hserials := h.head_serials hun
      refine ⟨⟨?_, ?_⟩, ⟨n + H, ?_, ?_, ?_, ?_⟩, ?_, ?_⟩
      · intro op' hop'
        exact hfresh op' (.tail _ hop')
      · intro op' hop'
        rcases List.mem_cons.mp hop' with rfl | hold
        · exact h.ops.bodycb op (by rw [hops]; exact List.mem_cons_self)
        · exact h.ops.bodycb op' (by rw [hops]; exact .tail _ hold)
      · show claimed H (q.trace ++ _) = n + H + r
        rw [claimed_append, hclaimed, hskip]
        simp only [claimed, returns, List.filterMap_cons, List.filterMap_nil,
          List.map_cons, List.map_nil, List.sum_cons, List.sum_nil]
        omega
      · show n + H ≤ (received (q.trace ++ _)).length
        rw [received_append, List.length_append]
        omega
      · show q.rbuf.drop H = (received (q.trace ++ _)).drop (n + H)
        rw [hrbuf, List.drop_drop, received_append]
        simp [received]
      · show (q.rhead + H) % C = (n + H) % C
        rw [hhead, Nat.mod_add_mod]
      · show ops.map IORx.serial = _
        rw [delivered_append, List.length_append]
        exact hserials.2
      · refine always_snoc.mpr ⟨h.framed, hserials.1, rfl, rfl, ?_, ?_⟩
        · rw [hclaimed, hskip]
          omega
        · rw [hclaimed, hskip, Nat.add_zero, hhead, ← hrbuf]

/-- Transmitting does not touch what is framed. -/
theorem step_tx {R addr : Nat} {q' : Queues W} (h : Framed H C q)
    (hstep : Queues.TxStep R addr q q') : Framed H C q' := by
  cases hstep with
  | accepted k hcredit hbusy hk =>
      exact h.congr rfl rfl rfl (by simp [received]) (by simp [returns])
        (by simp [delivered]) (always_snoc.mpr ⟨h.framed, trivial⟩)
  | fire c pt pts f w hcredit hpts hroom hlen hcb hcall =>
      refine h.congr rfl rfl rfl (by simp [received]) (by simp [returns])
        (by simp [delivered]) ?_
      rw [List.append_cons]
      exact always_snoc.mpr
        ⟨always_snoc.mpr ⟨h.framed, trivial⟩, trivial⟩
  | pay c pt pts hcredit hpts hroom hlen =>
      refine h.congr rfl rfl rfl (by simp [received]) (by simp [returns])
        (by simp [delivered]) ?_
      rw [List.append_cons]
      exact always_snoc.mpr
        ⟨always_snoc.mpr ⟨h.framed, trivial⟩, trivial⟩
  | spent c hcredit hpts =>
      exact h.congr rfl rfl rfl rfl rfl rfl h.framed
  | overrun c hcredit hfull =>
      exact h.congr rfl rfl rfl rfl rfl rfl h.framed

end Framed

end Mutated.Ports
